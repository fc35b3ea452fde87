import IotLabTraining.Mailboxes
import IotLabTraining.Text

/-!
# The clock that sets its own alarms

The exercise on the real time clock with the bodies of its notebook. The main thread reads the
time, sets an alarm five seconds later and waits for the message of the alarm, which comes
from an interrupt. The thread has no message queue, so a message that does not find it in the
receive call is dropped. An alarm goes off in the second that it is set for, and not if that
second has begun or gone by when it is set. Times are seconds; `mktime` carries a number of
seconds beyond 59 over to the minutes and hours.
-/
namespace IotLabTraining.RtcAlarms
open Mailboxes Runs

/-- Where `main` stands. -/
inductive MainAt where
  | startup
  /-- The time is read, and the alarm is not set yet. -/
  | configure
  /-- Before or in `msg_receive`. -/
  | receive
  /-- Behind `Alarm received: `. -/
  | read

/-- The clock, its alarm, the messages for the main thread, and its variable `time`. -/
structure State where
  now : ℕ
  alarm : Option ℕ
  mailbox : Mailbox Unit
  time : ℕ
  main : MainAt

def initial (now : ℕ) : State := ⟨now, none, Mailbox.closed, 0, .startup⟩

/-- `%d:%d:%d` of a time. -/
def clockText (time : ℕ) : Bytes :=
  decimal (time / 3600 % 24) ++ ascii ":" ++ decimal (time / 60 % 60) ++ ascii ":" ++
    decimal (time % 60)

inductive Effect where
  | quiet
  | startup (time : ℕ)
  | alarmReceived
  | printed (time : ℕ)
  /-- `rtc_alarm_cb`; `accepted` is whether its message reaches the main thread. -/
  | alarm (accepted : Bool)

def Effect.output : Effect → Bytes
  | .startup time => ascii "Startup time: " ++ clockText time ++ [10]
  | .alarmReceived => ascii "Alarm received: "
  | .printed time => clockText time ++ [10]
  | _ => []

/-- `main` up to its next turn; in `msg_receive` it has none before a message is there. -/
def mainThread (s : State) : Effect × State :=
  match s.main with
  | .startup => (.startup s.now, { s with time := s.now, main := .configure })
  | .configure =>
    (.quiet, { s with time := s.time + 5, alarm := some (s.time + 5), main := .receive })
  | .receive =>
    match s.mailbox.receiver with
    | .busy => (.quiet, { s with mailbox := s.mailbox.receive })
    | .blocked => (.quiet, s)
    | .handed _ => (.alarmReceived, { s with mailbox := s.mailbox.take, main := .read })
  | .read => (.printed s.now, { s with time := s.now, main := .configure })

/-- The next second begins. The clock that `rtc_get_time` reads goes on by one, and the
callback of `rtc_set_alarm` is called, from an interrupt, in the second that was set. -/
def second (s : State) : Effect × State :=
  if s.alarm = some (s.now + 1) then
    let posted := s.mailbox.post ()
    (.alarm posted.1, { s with now := s.now + 1, mailbox := posted.2 })
  else (.quiet, { s with now := s.now + 1 })

inductive Action where
  | main
  | second

def step : Step State Action Effect := fun s a =>
  match a with
  | .main => some (mainThread s)
  | .second => some (second s)

/-- The time of a line that is printed. -/
def Effect.time : Effect → Option ℕ
  | .startup time => some time
  | .printed time => some time
  | _ => none

/-- The second that the thread has to wait for in `msg_receive`. -/
def State.deadline (s : State) : Option ℕ :=
  match s.main with
  | .configure => some (s.time + 5)
  | .receive => some s.time
  | _ => none

/-- The fifth second does not begin before the thread waits for it. -/
def Punctual (s : State) (a : Action) : Prop :=
  a = .second → s.deadline = some (s.now + 1) → s.mailbox.receiver = .blocked

/-! ## What holds all along -/

/-- Nothing is queued, and only a thread that is in the receive call is handed a message. An
alarm that is set is the one that the thread waits for, or has gone off. -/
structure Consistent (s : State) : Prop where
  mailbox : s.mailbox.capacity = 0 ∧ s.mailbox.queue = [] ∧ s.mailbox.waiting = []
  busy : s.main ≠ .receive → s.mailbox.receiver = .busy
  past : s.main ≠ .receive → ∀ t, s.alarm = some t → t ≤ s.now
  ahead : s.main = .receive → s.alarm = some s.time
  reached : ∀ m, s.mailbox.receiver = .handed m → s.time ≤ s.now
  read : s.main = .configure ∨ s.main = .read → s.time ≤ s.now

theorem consistent_initial (now : ℕ) : Consistent (initial now) where
  mailbox := ⟨rfl, rfl, rfl⟩
  busy _ := rfl
  past _ t h := by cases h
  ahead h := by cases h
  reached m h := by cases h
  read h := by rcases h with h | h <;> cases h

variable {s : State}

theorem receive_eq (h : Consistent s) :
    s.mailbox.receive = { s.mailbox with receiver := .blocked } := by
  obtain ⟨-, hqueue, hwaiting⟩ := h.mailbox
  unfold Mailbox.receive
  split
  · rfl
  · rename_i hw
    rw [hwaiting] at hw
    cases hw
  · rename_i hq
    rw [hqueue] at hq
    cases hq

/-- The next second hands the message to a thread that waits for it, and otherwise passes
without one. -/
theorem second_cases (h : Consistent s) :
    (s.main = .receive ∧ s.time = s.now + 1 ∧ s.mailbox.receiver = .blocked ∧
      second s = (.alarm true, { s with
        now := s.now + 1, mailbox := { s.mailbox with receiver := .handed () } })) ∨
    (¬ (s.main = .receive ∧ s.time = s.now + 1 ∧ s.mailbox.receiver = .blocked) ∧
      (second s).1.time = none ∧ (second s).2 = { s with now := s.now + 1 }) := by
  obtain ⟨hcapacity, -, -⟩ := h.mailbox
  by_cases halarm : s.alarm = some (s.now + 1)
  · have hmain : s.main = .receive := by
      by_contra hother
      have hle := h.past hother _ halarm
      omega
    have htime : s.time = s.now + 1 := by
      rw [h.ahead hmain] at halarm
      exact Option.some.inj halarm
    by_cases hb : s.mailbox.receiver = .blocked
    · left
      refine ⟨hmain, htime, hb, ?_⟩
      rw [second, if_pos halarm, Mailbox.post_of_blocked hb]
    · right
      refine ⟨fun hall => hb hall.2.2, ?_⟩
      rw [second, if_pos halarm, Mailbox.post_of_full hb (by omega)]
      exact ⟨rfl, rfl⟩
  · right
    refine ⟨fun hall => halarm ?_, ?_⟩
    · rw [h.ahead hall.1, hall.2.1]
    · rw [second, if_neg halarm]
      exact ⟨rfl, rfl⟩

/-- The second that the thread has to wait for is gone. -/
def Missed (s : State) : Prop :=
  match s.main with
  | .configure => s.time + 5 ≤ s.now
  | .receive => s.time ≤ s.now ∧ ∀ m, s.mailbox.receiver ≠ .handed m
  | _ => False

theorem second_spec (h : Consistent s) :
    Consistent (second s).2 ∧ (Missed (second s).2 ↔ Missed s ∨ ¬ Punctual s .second) := by
  rcases second_cases h with ⟨hmain, htime, hb, he⟩ | ⟨hnot, -, he⟩
  · rw [he]
    refine ⟨⟨h.mailbox, fun hother => absurd hmain hother, fun hother => absurd hmain hother,
      h.ahead, fun _ _ => by simp [htime], fun hor => ?_⟩, ?_⟩
    · rw [hmain] at hor
      rcases hor with hor | hor <;> cases hor
    · simp [Missed, Punctual, hmain, htime, hb]
  · rw [he]
    refine ⟨⟨h.mailbox, h.busy, fun hother t ht => ?_, h.ahead, fun m hm => ?_, fun hor => ?_⟩, ?_⟩
    · exact (h.past hother t ht).trans (Nat.le_succ _)
    · exact (h.reached m hm).trans (Nat.le_succ _)
    · exact (h.read hor).trans (Nat.le_succ _)
    · cases hmain : s.main with
      | startup => simp [Missed, Punctual, State.deadline, hmain]
      | read => simp [Missed, Punctual, State.deadline, hmain]
      | configure =>
        have hbusy := h.busy (by simp [hmain])
        simp [Missed, Punctual, State.deadline, hmain, hbusy]
        omega
      | receive =>
        have hblocked : s.time = s.now + 1 → s.mailbox.receiver ≠ .blocked :=
          fun htime hb => hnot ⟨hmain, htime, hb⟩
        have hreached := h.reached
        cases hr : s.mailbox.receiver with
        | handed m =>
          have hle := hreached m hr
          simp [Missed, Punctual, State.deadline, hmain, hr]
          omega
        | busy =>
          simp [Missed, Punctual, State.deadline, hmain, hr]
          omega
        | blocked =>
          have hne : s.time ≠ s.now + 1 := fun htime => hblocked htime hr
          simp [Missed, Punctual, State.deadline, hmain, hr]
          omega

theorem mainThread_spec (h : Consistent s) :
    Consistent (mainThread s).2 ∧ (Missed (mainThread s).2 ↔ Missed s ∨ ¬ Punctual s .main) := by
  have hpunctual : Punctual s .main := fun he => by cases he
  have hbox := h.mailbox
  rw [or_iff_left (not_not.mpr hpunctual)]
  cases hmain : s.main with
  | startup =>
    have hbusy := h.busy (by simp [hmain])
    have hpast := h.past (by simp [hmain])
    simp only [mainThread, hmain]
    refine ⟨⟨hbox, fun _ => hbusy, fun _ => hpast, (fun he => by cases he),
      (fun m hm => by simp [hbusy] at hm), fun _ => le_rfl⟩, ?_⟩
    simp [Missed, hmain]
  | configure =>
    have hbusy := h.busy (by simp [hmain])
    simp only [mainThread, hmain]
    refine ⟨⟨hbox, fun hother => absurd rfl hother, fun hother => absurd rfl hother,
      fun _ => rfl, (fun m hm => by simp [hbusy] at hm), fun hor => ?_⟩, ?_⟩
    · rcases hor with hor | hor <;> cases hor
    · simp [Missed, hmain, hbusy]
  | receive =>
    have hahead := h.ahead hmain
    cases hr : s.mailbox.receiver with
    | busy =>
      simp only [mainThread, hmain, hr, receive_eq h]
      refine ⟨⟨hbox, fun hother => absurd rfl hother, fun hother => absurd rfl hother,
        fun _ => hahead, (fun m hm => by cases hm), fun hor => ?_⟩, ?_⟩
      · rcases hor with hor | hor <;> cases hor
      · simp [Missed, hmain, hr]
    | blocked =>
      simp only [mainThread, hmain, hr]
      exact ⟨h, trivial⟩
    | handed m =>
      have hreached := h.reached m hr
      simp only [mainThread, hmain, hr]
      refine ⟨⟨hbox, fun _ => rfl, fun _ t ht => ?_, (fun he => by cases he),
        fun _ _ => hreached, fun _ => hreached⟩, ?_⟩
      · rw [hahead] at ht
        exact Option.some.inj ht ▸ hreached
      · simp [Missed, hmain, hr]
  | read =>
    have hbusy := h.busy (by simp [hmain])
    have hpast := h.past (by simp [hmain])
    simp only [mainThread, hmain]
    refine ⟨⟨hbox, fun _ => hbusy, fun _ => hpast, (fun he => by cases he),
      (fun m hm => by simp [hbusy] at hm), fun _ => le_rfl⟩, ?_⟩
    simp [Missed, hmain]

theorem step_spec {a : Action} {r : Effect} {s' : State} (h : Consistent s)
    (hstep : step s a = some (r, s')) :
    Consistent s' ∧ (Missed s' ↔ Missed s ∨ ¬ Punctual s a) := by
  cases a with
  | main =>
    have hspec := mainThread_spec h
    rwa [Option.some.inj hstep] at hspec
  | second =>
    have hspec := second_spec h
    rwa [Option.some.inj hstep] at hspec

/-- A line with the time follows in some continuation. -/
def CanPrint (s : State) : Prop :=
  ∃ as rs s', run step s as = some (rs, s') ∧ ∃ time, Effect.printed time ∈ rs

theorem canPrint_of_step {a : Action} {r : Effect} {s' : State} (hstep : step s a = some (r, s'))
    (h : CanPrint s') : CanPrint s := by
  obtain ⟨as, rs, t, hrun, time, htime⟩ := h
  exact ⟨a :: as, r :: rs, t, run_cons hstep hrun, time, List.mem_cons_of_mem r htime⟩

theorem canPrint_of_read (hmain : s.main = .read) : CanPrint s := by
  have hstep : step s .main = some (.printed s.now, { s with time := s.now, main := .configure }) :=
    by simp only [step, mainThread, hmain]
  exact ⟨[.main], _, _, run_cons hstep rfl, s.now, List.mem_cons_self⟩

theorem canPrint_of_handed (hmain : s.main = .receive) {m : Unit}
    (hr : s.mailbox.receiver = .handed m) : CanPrint s := by
  have hstep : step s .main = some (.alarmReceived, { s with
      mailbox := s.mailbox.take, main := .read }) := by
    simp only [step, mainThread, hmain, hr]
  exact canPrint_of_step hstep (canPrint_of_read rfl)

/-- A thread that waits in time is handed the message in the end. -/
theorem canPrint_of_blocked {n : ℕ} (h : Consistent s) (hmain : s.main = .receive)
    (hb : s.mailbox.receiver = .blocked) (htime : s.time = s.now + n + 1) : CanPrint s := by
  induction n generalizing s with
  | zero =>
    rcases second_cases h with ⟨-, -, -, he⟩ | ⟨hnot, -⟩
    · have hstep : step s .second = some (second s) := rfl
      rw [he] at hstep
      exact canPrint_of_step hstep (canPrint_of_handed hmain rfl)
    · exact absurd ⟨hmain, htime, hb⟩ hnot
  | succ n ih =>
    have hkeeps := (second_spec h).1
    rcases second_cases h with ⟨-, hnow, -⟩ | ⟨-, -, he⟩
    · omega
    · have hstep : step s .second = some ((second s).1, (second s).2) := rfl
      rw [he] at hkeeps hstep
      exact canPrint_of_step hstep (ih hkeeps hmain hb (by dsimp only; omega))

theorem canPrint_of_receive (h : Consistent s) (hmain : s.main = .receive) (hmissed : ¬ Missed s) :
    CanPrint s := by
  have hahead : s.mailbox.receiver ≠ .handed () → ∃ n, s.time = s.now + n + 1 := by
    intro hnot
    simp only [Missed, hmain, not_and, not_forall, not_not] at hmissed
    have hlt : s.now < s.time := by
      by_contra hge
      obtain ⟨m, hm⟩ := hmissed (not_lt.mp hge)
      exact hnot hm
    exact ⟨s.time - s.now - 1, by omega⟩
  cases hr : s.mailbox.receiver with
  | handed m => exact canPrint_of_handed hmain hr
  | blocked =>
    obtain ⟨n, hn⟩ := hahead (by simp [hr])
    exact canPrint_of_blocked h hmain hr hn
  | busy =>
    obtain ⟨n, hn⟩ := hahead (by simp [hr])
    have hstep : step s .main = some (.quiet, { s with
        mailbox := { s.mailbox with receiver := .blocked } }) := by
      simp only [step, mainThread, hmain, hr, receive_eq h]
    exact canPrint_of_step hstep (canPrint_of_blocked (step_spec h hstep).1 hmain rfl hn)

theorem canPrint_of_configure (h : Consistent s) (hmain : s.main = .configure)
    (hmissed : ¬ Missed s) : CanPrint s := by
  have hstep : step s .main = some (.quiet, { s with
      time := s.time + 5, alarm := some (s.time + 5), main := .receive }) := by
    simp only [step, mainThread, hmain]
  obtain ⟨hkeeps, hlater⟩ := step_spec h hstep
  have hpunctual : Punctual s .main := fun he => by cases he
  refine canPrint_of_step hstep (canPrint_of_receive hkeeps rfl ?_)
  rw [hlater, or_iff_left (not_not.mpr hpunctual)]
  exact hmissed

theorem canPrint_of_startup (h : Consistent s) (hmain : s.main = .startup) : CanPrint s := by
  have hstep : step s .main = some (.startup s.now, { s with time := s.now, main := .configure }) :=
    by simp only [step, mainThread, hmain]
  refine canPrint_of_step hstep (canPrint_of_configure (step_spec h hstep).1 rfl ?_)
  simp [Missed]

/-- Behind a second that was missed the thread prints nothing any more. -/
theorem not_canPrint_of_missed (h : Consistent s) (hmissed : Missed s) : ¬ CanPrint s := by
  intro hprints
  obtain ⟨as, rs, s', hrun, time, htime⟩ := hprints
  have hquiet : ∀ s a r s', (Consistent s ∧ Missed s) → True → step s a = some (r, s') →
      r ≠ .printed time ∧ (Consistent s' ∧ Missed s') := by
    intro s a r s' hs _ hstep
    obtain ⟨hkeeps, hlater⟩ := step_spec hs.1 hstep
    refine ⟨?_, hkeeps, hlater.mpr (Or.inl hs.2)⟩
    rintro rfl
    cases a with
    | second =>
      have hsecond : second s = (.printed time, s') := Option.some.inj hstep
      unfold second at hsecond
      split_ifs at hsecond <;> cases (Prod.mk.inj hsecond).1
    | main =>
      have hturn : mainThread s = (.printed time, s') := Option.some.inj hstep
      have hwhere := hs.2
      unfold mainThread at hturn
      unfold Missed at hwhere
      split at hturn
      · cases (Prod.mk.inj hturn).1
      · cases (Prod.mk.inj hturn).1
      · split at hturn <;> cases (Prod.mk.inj hturn).1
      · rename_i hread
        simp only [hread] at hwhere
  exact (run_keeps hquiet ⟨h, hmissed⟩ (fun _ _ => trivial) hrun).1 _ htime rfl

/-- From a state that a run leads to, a time can still be printed unless a second was missed. -/
theorem canPrint_iff (h : Consistent s) : CanPrint s ↔ ¬ Missed s := by
  constructor
  · exact fun hprints hmissed => not_canPrint_of_missed h hmissed hprints
  · intro hmissed
    cases hmain : s.main with
    | startup => exact canPrint_of_startup h hmain
    | configure => exact canPrint_of_configure h hmain hmissed
    | receive => exact canPrint_of_receive h hmain hmissed
    | read => exact canPrint_of_read hmain

/-! ## Whole runs -/

/-- No line is printed before this second. -/
def earliest (s : State) : ℕ :=
  match s.main with
  | .startup => 0
  | .configure => s.time + 5
  | .receive => s.time
  | .read => s.time

/-- A line comes in its time, and the next one five seconds later; between lines the time to
wait for stays the same. -/
theorem earliest_step {a : Action} {r : Effect} {s' : State} (h : Consistent s)
    (hstep : step s a = some (r, s')) :
    (r.time = none ∧ earliest s' = earliest s) ∨
    (∃ time, r.time = some time ∧ earliest s ≤ time ∧ earliest s' = time + 5) := by
  cases a with
  | second =>
    have hsecond : second s = (r, s') := Option.some.inj hstep
    left
    rcases second_cases h with ⟨-, -, -, he⟩ | ⟨-, hnone, he⟩
    · obtain ⟨rfl, rfl⟩ := Prod.mk.inj (he.symm.trans hsecond)
      exact ⟨rfl, rfl⟩
    · rw [hsecond] at hnone he
      obtain rfl : s' = { s with now := s.now + 1 } := he
      exact ⟨hnone, rfl⟩
  | main =>
    have hturn : mainThread s = (r, s') := Option.some.inj hstep
    have hread := h.read
    unfold mainThread at hturn
    split at hturn
    · rename_i hmain
      obtain ⟨rfl, rfl⟩ := Prod.mk.inj hturn
      right
      exact ⟨s.now, rfl, by simp [earliest, hmain], rfl⟩
    · rename_i hmain
      obtain ⟨rfl, rfl⟩ := Prod.mk.inj hturn
      left
      exact ⟨rfl, by simp [earliest, hmain]⟩
    · rename_i hmain
      left
      split at hturn <;> obtain ⟨rfl, rfl⟩ := Prod.mk.inj hturn
      · exact ⟨rfl, by simp [earliest, hmain]⟩
      · exact ⟨rfl, rfl⟩
      · exact ⟨rfl, by simp [earliest, hmain]⟩
    · rename_i hmain
      obtain ⟨rfl, rfl⟩ := Prod.mk.inj hturn
      right
      exact ⟨s.now, rfl, by simp [earliest, hmain, hread (Or.inr hmain)], rfl⟩

/-- One line is at least five seconds behind the other. -/
def Apart (t u : ℕ) : Prop := t + 5 ≤ u

theorem run_apart {as : List Action} {rs : List Effect} {s' : State} (h : Consistent s)
    (hrun : run step s as = some (rs, s')) :
    (rs.filterMap Effect.time).IsChain Apart ∧
      ∀ time ∈ (rs.filterMap Effect.time).head?, earliest s ≤ time := by
  induction as generalizing s rs with
  | nil =>
    obtain ⟨rfl, rfl⟩ := Prod.mk.inj (Option.some.inj hrun)
    simp
  | cons a as ih =>
    obtain ⟨⟨r, s₁⟩, hstep, hrest⟩ := Option.bind_eq_some_iff.mp hrun
    obtain ⟨⟨rs', s₂⟩, hrun', he⟩ := Option.map_eq_some_iff.mp hrest
    obtain ⟨rfl, rfl⟩ := Prod.mk.inj he
    obtain ⟨hchain, hhead⟩ := ih (step_spec h hstep).1 hrun'
    rcases earliest_step h hstep with ⟨hnone, hsame⟩ | ⟨time, htime, hle, hnext⟩
    · rw [List.filterMap_cons_none hnone, ← hsame]
      exact ⟨hchain, hhead⟩
    · rw [hnext] at hhead
      rw [List.filterMap_cons_some htime, List.isChain_cons]
      refine ⟨⟨hhead, hchain⟩, ?_⟩
      intro t ht
      obtain rfl := Option.some.inj ht
      exact hle

/-- In every run the lines are at least five seconds apart, and the thread can go on to print
exactly if it was in the receive call whenever the second of its alarm began; after the first
one that it missed it stays silent for good. -/
theorem prints_on_iff (now : ℕ) (as : List Action) : ∃ rs s,
    run step (initial now) as = some (rs, s) ∧ (rs.filterMap Effect.time).IsChain Apart ∧
      (CanPrint s ↔ Along step Punctual (initial now) as) := by
  have hanswers (s : State) (a : Action) : (step s a).isSome = true := by cases a <;> rfl
  obtain ⟨rs, s, hrun⟩ := exists_run hanswers (initial now) as
  obtain ⟨hconsistent, hmissed⟩ := along_iff_not_flag (fun _ _ _ _ => step_spec)
    (consistent_initial now) hrun
  have hinit : ¬ Missed (initial now) := id
  refine ⟨rs, s, hrun, (run_apart (consistent_initial now) hrun).1, ?_⟩
  rw [canPrint_iff hconsistent, hmissed, or_iff_right hinit, not_not]

/-- The fifth second passes before the thread waits for it. -/
example : ¬ Along step Punctual (initial 0)
    [.main, .main, .second, .second, .second, .second, .second] := by
  simp [Along, step, mainThread, second, Punctual, initial, State.deadline, Mailbox.closed]

end IotLabTraining.RtcAlarms
