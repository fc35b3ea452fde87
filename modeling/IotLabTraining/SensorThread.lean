import IotLabTraining.Runs
import IotLabTraining.Text

/-!
# Starting and stopping the sensor thread

The thread of the sensor exercise locks `lsm_lock`, reads, unlocks and sleeps; `lsm start`
unlocks the same mutex and `lsm stop` tries to lock it. The shell and the thread take
turns in any order. A mutex of RIOT has no owner: unlocking it hands it to the thread that
is blocked on it, and otherwise leaves it free.
-/
namespace IotLabTraining.SensorThread
open Runs

/-- Where the thread stands in its loop. -/
inductive Position where
  /-- It calls `mutex_lock` next. -/
  | lock
  /-- It is blocked in `mutex_lock`. -/
  | blocked
  /-- It has the mutex and begins to read next. -/
  | locked
  | reading
  /-- The values are printed; it calls `mutex_unlock` next. -/
  | unlock
  | sleep
  deriving DecidableEq

structure State where
  lsmLock : Bool
  thread : Position

/-- `MUTEX_INIT_LOCKED`, and the thread as it is created. -/
def initial : State where
  lsmLock := true
  thread := .lock

/-! ## The mutex -/

/-- `mutex_lock`, called by the thread. -/
def mutexLock (s : State) : State :=
  if s.lsmLock then { s with thread := .blocked } else ⟨true, .locked⟩

/-- `mutex_unlock`. -/
def mutexUnlock (s : State) : State :=
  if s.thread = .blocked then ⟨true, .locked⟩ else { s with lsmLock := false }

/-- `mutex_trylock`: the mutex is locked behind it, by whomever. -/
def mutexTrylock (s : State) : State := { s with lsmLock := true }

/-! ## The thread and the command -/

inductive Effect where
  | quiet
  /-- The thread begins to read the sensor. -/
  | began
  | returned (rc : ℤ) (out : Bytes)
  deriving DecidableEq

/-- `lsm303dlhc_thread` up to its next turn; a blocked thread has none. -/
def lsm303dlhcThread (s : State) : Effect × State :=
  match s.thread with
  | .lock => (.quiet, mutexLock s)
  | .blocked => (.quiet, s)
  | .locked => (.began, { s with thread := .reading })
  | .reading => (.quiet, { s with thread := .unlock })
  | .unlock => (.quiet, { mutexUnlock s with thread := .sleep })
  | .sleep => (.quiet, { s with thread := .lock })

inductive Subcommand where
  | start
  | stop
  | usage
  deriving DecidableEq

def subcommand (argv : List Bytes) : Subcommand :=
  if argv.length < 2 then .usage
  else if argv[1]? = some (ascii "start") then .start
  else if argv[1]? = some (ascii "stop") then .stop
  else .usage

/-- `lsm303dlhc_handler`. -/
def lsm303dlhcHandler (s : State) (argv : List Bytes) : Effect × State :=
  match subcommand argv with
  | .start => (.returned 0 [], mutexUnlock s)
  | .stop => (.returned 0 [], mutexTrylock s)
  | .usage =>
    (.returned (-1) (ascii "usage: " ++ argv.headD [] ++ ascii " <start|stop>\n"), s)

/-- The thread has a turn, or a command is entered. -/
inductive Action where
  | thread
  | lsm (argv : List Bytes)

def step : Step State Action Effect := fun s a =>
  match a with
  | .thread => some (lsm303dlhcThread s)
  | .lsm argv => some (lsm303dlhcHandler s argv)

def Action.isStart : Action → Prop
  | .thread => False
  | .lsm argv => subcommand argv = .start

def Action.isStop : Action → Prop
  | .thread => False
  | .lsm argv => subcommand argv = .stop

/-- Until the next start a stop keeps the thread from reading, and until the next stop a
start keeps it from blocking. -/
structure Obeys (s : State) (a : Action) : Prop where
  stop : a.isStop → ∀ r s', step s a = some (r, s') → ∀ as rs t, (∀ b ∈ as, ¬ b.isStart) →
    run step s' as = some (rs, t) → Effect.began ∉ rs
  start : a.isStart → ∀ r s', step s a = some (r, s') → ∀ as rs t, (∀ b ∈ as, ¬ b.isStop) →
    run step s' as = some (rs, t) → t.thread ≠ .blocked

/-- The thread is past `mutex_lock` and has not called `mutex_unlock`. -/
def State.inside (s : State) : Prop :=
  s.thread = .locked ∨ s.thread = .reading ∨ s.thread = .unlock

/-- A stop is not entered while the thread is inside. -/
def StopsOutside (s : State) (a : Action) : Prop := a.isStop → ¬ s.inside

/-! ## What a stop and a start leave -/

/-- The mutex is locked, and not by the thread. -/
def Stopped (s : State) : Prop := s.lsmLock = true ∧ ¬ s.inside

/-- The thread is not blocked, and when the mutex is locked it is the thread that has it. -/
def Going (s : State) : Prop := s.thread ≠ .blocked ∧ (s.lsmLock = true → s.inside)

theorem step_start (s : State) {argv : List Bytes} (h : subcommand argv = .start) :
    step s (.lsm argv) = some (.returned 0 [], mutexUnlock s) := by
  rw [step, lsm303dlhcHandler, h]

theorem step_stop (s : State) {argv : List Bytes} (h : subcommand argv = .stop) :
    step s (.lsm argv) = some (.returned 0 [], mutexTrylock s) := by
  rw [step, lsm303dlhcHandler, h]

/-- All that a turn of the thread can do. -/
theorem step_thread_cases {s s' : State} {r : Effect} (h : step s .thread = some (r, s')) :
    (s.thread = .locked ∧ r = .began ∧ s' = { s with thread := .reading }) ∨
    (r = .quiet ∧ ((s.thread = .lock ∧ s' = mutexLock s) ∨ (s.thread = .blocked ∧ s' = s) ∨
      (s.thread = .reading ∧ s' = { s with thread := .unlock }) ∨
      (s.thread = .unlock ∧ s' = ⟨false, .sleep⟩) ∨
      (s.thread = .sleep ∧ s' = { s with thread := .lock }))) := by
  have hresult : lsm303dlhcThread s = (r, s') := Option.some.inj h
  unfold lsm303dlhcThread at hresult
  cases hthread : s.thread with
  | lock =>
    rw [hthread] at hresult
    obtain ⟨rfl, rfl⟩ := Prod.mk.inj hresult
    simp
  | blocked =>
    rw [hthread] at hresult
    obtain ⟨rfl, rfl⟩ := Prod.mk.inj hresult
    simp
  | locked =>
    rw [hthread] at hresult
    obtain ⟨rfl, rfl⟩ := Prod.mk.inj hresult
    simp
  | reading =>
    rw [hthread] at hresult
    obtain ⟨rfl, rfl⟩ := Prod.mk.inj hresult
    simp
  | unlock =>
    rw [hthread] at hresult
    obtain ⟨rfl, rfl⟩ := Prod.mk.inj hresult
    simp [mutexUnlock, hthread]
  | sleep =>
    rw [hthread] at hresult
    obtain ⟨rfl, rfl⟩ := Prod.mk.inj hresult
    simp

/-- All that a command can do. -/
theorem step_lsm_cases {s s' : State} {argv : List Bytes} {r : Effect}
    (h : step s (.lsm argv) = some (r, s')) : r ≠ .began ∧
      ((subcommand argv = .start ∧ s' = mutexUnlock s) ∨
        (subcommand argv = .stop ∧ s' = mutexTrylock s) ∨
        (subcommand argv = .usage ∧ s' = s)) := by
  have hresult : lsm303dlhcHandler s argv = (r, s') := Option.some.inj h
  unfold lsm303dlhcHandler at hresult
  cases hsub : subcommand argv with
  | start =>
    rw [hsub] at hresult
    obtain ⟨rfl, rfl⟩ := Prod.mk.inj hresult
    simp
  | stop =>
    rw [hsub] at hresult
    obtain ⟨rfl, rfl⟩ := Prod.mk.inj hresult
    simp
  | usage =>
    rw [hsub] at hresult
    obtain ⟨rfl, rfl⟩ := Prod.mk.inj hresult
    simp

/-- Only a start ends what a stop has reached. -/
theorem stopped_step {s s' : State} {a : Action} {r : Effect} (hs : Stopped s)
    (ha : ¬ a.isStart) (h : step s a = some (r, s')) : r ≠ .began ∧ Stopped s' := by
  obtain ⟨hlock, hout⟩ := hs
  cases a with
  | thread =>
    rcases step_thread_cases h with ⟨hthread, -⟩ | ⟨rfl, ⟨hthread, rfl⟩ | ⟨-, rfl⟩ | ⟨hthread, -⟩ |
      ⟨hthread, -⟩ | ⟨-, rfl⟩⟩
    · exact absurd (Or.inl hthread) hout
    · simp [mutexLock, hlock, Stopped, State.inside]
    · exact ⟨by simp, hlock, hout⟩
    · exact absurd (Or.inr (Or.inl hthread)) hout
    · exact absurd (Or.inr (Or.inr hthread)) hout
    · simp [hlock, Stopped, State.inside]
  | lsm argv =>
    obtain ⟨hquiet, ⟨hsub, -⟩ | ⟨-, rfl⟩ | ⟨-, rfl⟩⟩ := step_lsm_cases h
    · exact absurd hsub ha
    · exact ⟨hquiet, rfl, hout⟩
    · exact ⟨hquiet, hlock, hout⟩

theorem going_mutexUnlock (s : State) : Going (mutexUnlock s) := by
  unfold mutexUnlock
  split_ifs with hblocked
  · simp [Going, State.inside]
  · exact ⟨hblocked, fun hlocked => absurd hlocked Bool.false_ne_true⟩

/-- Only a stop ends what a start has reached. -/
theorem going_step {s s' : State} {a : Action} {r : Effect} (hs : Going s) (ha : ¬ a.isStop)
    (h : step s a = some (r, s')) : Going s' := by
  obtain ⟨hfree, hlock⟩ := hs
  cases a with
  | thread =>
    have hopen (hout : ¬ s.inside) : s.lsmLock = false := by
      by_contra hne
      exact hout (hlock (by simpa using hne))
    rcases step_thread_cases h with ⟨-, -, rfl⟩ | ⟨-, ⟨hthread, rfl⟩ | ⟨hthread, -⟩ | ⟨-, rfl⟩ |
      ⟨-, rfl⟩ | ⟨hthread, rfl⟩⟩
    · simp [Going, State.inside]
    · have hunlocked := hopen (by simp [State.inside, hthread])
      simp [mutexLock, hunlocked, Going, State.inside]
    · exact absurd hthread hfree
    · simp [Going, State.inside]
    · simp [Going]
    · have hunlocked := hopen (by simp [State.inside, hthread])
      simp [hunlocked, Going]
  | lsm argv =>
    obtain ⟨-, ⟨-, rfl⟩ | ⟨hsub, -⟩ | ⟨-, rfl⟩⟩ := step_lsm_cases h
    · exact going_mutexUnlock s
    · exact absurd hsub ha
    · exact ⟨hfree, hlock⟩

/-- A thread that is inside when it is stopped reads again. -/
theorem began_of_inside {s : State} (hs : s.inside) :
    ∃ as rs t, (∀ b ∈ as, ¬ b.isStart) ∧ run step (mutexTrylock s) as = some (rs, t) ∧
      Effect.began ∈ rs := by
  have hnone (n : ℕ) : ∀ b ∈ List.replicate n Action.thread, ¬ b.isStart := by
    intro b hb
    rw [List.eq_of_mem_replicate hb]
    exact id
  -- as many turns as lead to the next read
  have hturns : ∃ n rs t, run step (mutexTrylock s) (List.replicate n .thread) = some (rs, t) ∧
      Effect.began ∈ rs := by
    rcases hs with hthread | hthread | hthread
    · exact ⟨1, by
        simp [run, step, lsm303dlhcThread, mutexTrylock, hthread, List.replicate]⟩
    · exact ⟨5, by
        simp [run, step, lsm303dlhcThread, mutexTrylock, mutexUnlock, mutexLock, hthread,
          List.replicate]⟩
    · exact ⟨4, by
        simp [run, step, lsm303dlhcThread, mutexTrylock, mutexUnlock, mutexLock, hthread,
          List.replicate]⟩
  obtain ⟨n, rs, t, hrun, hbegan⟩ := hturns
  exact ⟨_, rs, t, hnone n, hrun, hbegan⟩

theorem obeys_iff (s : State) (a : Action) : Obeys s a ↔ StopsOutside s a := by
  constructor
  · intro h hstop hinside
    cases a with
    | thread => exact hstop
    | lsm argv =>
      obtain ⟨as, rs, t, hno, hrun, hbegan⟩ := began_of_inside hinside
      exact h.stop hstop _ _ (step_stop s hstop) as rs t hno hrun hbegan
  · intro h
    refine ⟨fun hstop r s' hs' as rs t hno hrun => ?_, fun hstart r s' hs' as rs t hno hrun => ?_⟩
    · have hstopped : Stopped s' := by
        cases a with
        | thread => exact absurd hstop id
        | lsm argv =>
          rw [step_stop s hstop] at hs'
          obtain ⟨-, rfl⟩ := Prod.mk.inj (Option.some.inj hs')
          exact ⟨rfl, h hstop⟩
      have hquiet := (run_keeps (I := Stopped) (Q := fun r => r ≠ .began)
        (fun _ _ _ _ hs hb hstep => stopped_step hs hb hstep) hstopped hno hrun).1
      exact fun hbegan => hquiet _ hbegan rfl
    · have hgoing : Going s' := by
        cases a with
        | thread => exact absurd hstart id
        | lsm argv =>
          rw [step_start s hstart] at hs'
          obtain ⟨-, rfl⟩ := Prod.mk.inj (Option.some.inj hs')
          exact going_mutexUnlock s
      exact (run_keeps (I := Going) (Q := fun _ => True)
        (fun _ _ _ _ hs hb hstep => ⟨trivial, going_step hs hb hstep⟩) hgoing hno hrun).2.1

/-- The commands are obeyed exactly in the runs where no stop is entered between the
`mutex_lock` and the `mutex_unlock` of the thread. -/
theorem commands_obeyed_iff (actions : List Action) :
    Along step Obeys initial actions ↔ Along step StopsOutside initial actions :=
  along_congr (I := fun _ => True) (fun s a _ => obeys_iff s a) (fun _ _ _ _ _ _ _ => trivial)
    trivial actions

/-- `lsm start`, two turns of the thread, and `lsm stop` in the middle of the first read. -/
theorem stop_while_reading_fails :
    ¬ ∀ actions : List Action, Along step Obeys initial actions := by
  intro h
  have hstop := (h [.lsm [ascii "lsm", ascii "start"], .thread, .thread,
    .lsm [ascii "lsm", ascii "stop"]]).2 _ _ rfl
  have hread := ((hstop.2 _ _ rfl).2 _ _ rfl).1
  have hsub : subcommand [ascii "lsm", ascii "stop"] = .stop := by decide
  exact (obeys_iff _ _).mp hread hsub (Or.inr (Or.inl rfl))

/-! ## The rate of reading -/

/-- The turns of the thread since it began to read, in its round of five. -/
def Position.turns : Position → ℕ
  | .reading => 0
  | .unlock => 1
  | .sleep => 2
  | .lock => 3
  | .blocked => 3
  | .locked => 4

def Action.turns : Action → ℕ
  | .thread => 1
  | .lsm _ => 0

/-- A read is worth a round. -/
def Effect.turns : Effect → ℕ
  | .began => 5
  | _ => 0

/-- A thread that is not blocked goes on by one with every turn, and not with a command. -/
theorem turns_step {s s' : State} {a : Action} {r : Effect} (hs : Going s) (ha : ¬ a.isStop)
    (h : step s a = some (r, s')) :
    s.thread.turns + a.turns = r.turns + s'.thread.turns ∧ Going s' := by
  refine ⟨?_, going_step hs ha h⟩
  obtain ⟨hfree, hlock⟩ := hs
  cases a with
  | thread =>
    rcases step_thread_cases h with ⟨hthread, rfl, rfl⟩ | ⟨rfl, ⟨hthread, rfl⟩ | ⟨hthread, -⟩ |
      ⟨hthread, rfl⟩ | ⟨hthread, rfl⟩ | ⟨hthread, rfl⟩⟩
    · rw [hthread]
      rfl
    · have hopen : s.lsmLock = false := by
        by_contra hne
        have hinside := hlock (by simpa using hne)
        simp [State.inside, hthread] at hinside
      rw [hthread, mutexLock, hopen]
      rfl
    · exact absurd hthread hfree
    · rw [hthread]
      rfl
    · rw [hthread]
      rfl
    · rw [hthread]
      rfl
  | lsm argv =>
    obtain ⟨hquiet, ⟨-, rfl⟩ | ⟨hsub, -⟩ | ⟨-, rfl⟩⟩ := step_lsm_cases h
    · rw [mutexUnlock, if_neg hfree]
      cases r with
      | began => exact absurd rfl hquiet
      | _ => exact Nat.add_comm _ _
    · exact absurd hsub ha
    · cases r with
      | began => exact absurd rfl hquiet
      | _ => exact Nat.add_comm _ _

theorem sum_turns_effects (rs : List Effect) : (rs.map Effect.turns).sum = 5 * rs.count .began := by
  induction rs with
  | nil => rfl
  | cons r rs ih =>
    rw [List.map_cons, List.sum_cons, List.count_cons, ih]
    cases r with
    | began => simp [Effect.turns]; omega
    | quiet => simp [Effect.turns]
    | returned rc out => simp [Effect.turns]

/-- Behind a start, whatever came before it, and up to the next stop the thread begins to read
once in five of its turns, whatever else is entered. -/
theorem reads_every_fifth_turn (s : State) {argv : List Bytes} (hstart : subcommand argv = .start)
    (as : List Action) (hstops : ∀ a ∈ as, ¬ a.isStop) : ∃ rs s',
      run step s (.lsm argv :: as) = some (rs, s') ∧
        (as.map Action.turns).sum ≤ 5 * rs.count .began + 4 ∧
        5 * rs.count .began ≤ (as.map Action.turns).sum + 4 := by
  have hanswers : ∀ s a, (step s a).isSome = true := by
    intro s a
    cases a <;> rfl
  have hturns (p : Position) : p.turns ≤ 4 := by cases p <;> decide
  obtain ⟨rs, s', hrun⟩ := exists_run hanswers (mutexUnlock s) as
  have hbalance := run_balance (I := Going) (f := fun s => s.thread.turns) (g := Action.turns)
    (c := Effect.turns) (fun _ _ _ _ hs ha hstep => turns_step hs ha hstep) (going_mutexUnlock s)
    hstops hrun
  have hfirst := hturns (mutexUnlock s).thread
  have hlast := hturns s'.thread
  rw [sum_turns_effects] at hbalance
  refine ⟨.returned 0 [] :: rs, s', run_cons (step_start s hstart) hrun, ?_⟩
  rw [List.count_cons_of_ne (by simp)]
  omega

/-- Two rounds and a half. -/
theorem reads_every_fifth_turn_started : ∃ rs s',
    run step initial (.lsm [ascii "lsm", ascii "start"] :: List.replicate 12 .thread) =
        some (rs, s') ∧
      ((List.replicate 12 Action.thread).map Action.turns).sum ≤ 5 * rs.count .began + 4 ∧
      5 * rs.count .began ≤ ((List.replicate 12 Action.thread).map Action.turns).sum + 4 :=
  reads_every_fifth_turn initial (by decide) (List.replicate 12 .thread) fun a ha => by
    rw [List.eq_of_mem_replicate ha]
    exact id

end IotLabTraining.SensorThread
