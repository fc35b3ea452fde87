import IotLabTraining.Buffers
import IotLabTraining.Mutexes
import IotLabTraining.Traces

/-!
# The buffer shared by two threads

The exercise on mutexes with the bodies of its notebook: the writer prints a record into
the shared buffer in two halves and sleeps between them, and the main thread prints the
buffer. The threads take turns in any order, and a turn is one statement of a loop. The
notebook also tries the program without the mutex.
-/
namespace IotLabTraining.SharedRecord
open Buffers Mutexes Runs Traces

/-- The size of `data.buffer`. -/
def BUFFER_SIZE : ℕ := 128

inductive Thread where
  | writer
  | main
  deriving DecidableEq

/-- The other of the two threads. -/
def Thread.other : Thread → Thread
  | .writer => .main
  | .main => .writer

/-- Where the writer stands in its loop. -/
inductive WriterAt where
  /-- It calls `mutex_lock`, or is in it. -/
  | acquire
  /-- The first half is printed, with `p` bytes, and it sleeps. -/
  | append (p : ℕ)
  | release
  | pause
  deriving DecidableEq

/-- Where the main thread stands in its loop. -/
inductive MainAt where
  | acquire
  | release
  | pause
  deriving DecidableEq

/-- `data_t`, and how far the threads are. -/
structure State where
  buffer : Buffer
  lock : Mutex Thread
  writer : WriterAt
  main : MainAt

def initial : State where
  buffer := fun _ => 0
  lock := free
  writer := .acquire
  main := .acquire

/-- What a turn shows: a time stamp went into the buffer, or a line is printed. -/
inductive Effect where
  | quiet
  | stamped (now : UInt32)
  | printed (line : Bytes)
  deriving DecidableEq

/-- `sprintf(&data.buffer[p], ..)`: the buffer behind it and the length of the text. -/
def sprintf (b : Buffer) (p : ℕ) (t : Bytes) : Option (Buffer × ℕ) :=
  (put BUFFER_SIZE b p (t ++ [0])).map fun b' => (b', t.length)

/-- `"start: %"PRIu32""`. -/
def startText (now : UInt32) : Bytes := ascii "start: " ++ decimal now.toNat

/-- `" - end: %"PRIu32""`. -/
def endText (now : UInt32) : Bytes := ascii " - end: " ++ decimal now.toNat

/-- How far a thread is in `mutex_lock`; without the mutex it is let in at once. -/
def State.phase (guarded : Bool) (s : State) (i : Thread) : Phase :=
  if guarded then s.lock.phase i else .inside

/-- `mutex_unlock`, called by `i`; the other thread is handed the mutex if it waits. -/
def State.unlock (guarded : Bool) (s : State) (i : Thread) : Mutex Thread :=
  if guarded then
    s.lock.unlock i (if s.lock.phase i.other = .waiting then some i.other else none)
  else s.lock

/-- `writer_thread` up to its next turn, at the time `now`. -/
def writerThread (guarded : Bool) (s : State) (now : UInt32) : Option (Effect × State) :=
  match s.writer with
  | .acquire =>
    match s.phase guarded .writer with
    | .outside => some (.quiet, { s with lock := s.lock.lock .writer })
    | .waiting => some (.quiet, s)
    | .inside =>
      (sprintf s.buffer 0 (startText now)).map fun r =>
        (.stamped now, { s with buffer := r.1, writer := .append r.2 })
  | .append p =>
    (sprintf s.buffer p (endText now)).map fun r =>
      (.stamped now, { s with buffer := r.1, writer := .release })
  | .release => some (.quiet, { s with lock := s.unlock guarded .writer, writer := .pause })
  | .pause => some (.quiet, { s with writer := .acquire })

/-- `printf("%s\n", data.buffer)`, unless it reads on behind the buffer. -/
def printLine (b : Buffer) : Option Bytes :=
  (strlen (window b 0 BUFFER_SIZE)).map fun len => window b 0 len ++ [10]

/-- The loop of `main` up to its next turn. -/
def mainThread (guarded : Bool) (s : State) : Option (Effect × State) :=
  match s.main with
  | .acquire =>
    match s.phase guarded .main with
    | .outside => some (.quiet, { s with lock := s.lock.lock .main })
    | .waiting => some (.quiet, s)
    | .inside =>
      (printLine s.buffer).map fun line => (.printed line, { s with main := .release })
  | .release => some (.quiet, { s with lock := s.unlock guarded .main, main := .pause })
  | .pause => some (.quiet, { s with main := .acquire })

/-- One of the threads has a turn. -/
inductive Action where
  | writer (now : UInt32)
  | main

def step (guarded : Bool) : Step State Action Effect := fun s a =>
  match a with
  | .writer now => writerThread guarded s now
  | .main => mainThread guarded s

/-! ## A register of records -/

/-- The time stamps of a record. -/
structure Record where
  start : UInt32
  stop : UInt32

/-- The text of the last record; at first there is none. -/
def recordText : Option Record → Bytes
  | none => []
  | some r => startText r.start ++ endText r.stop

/-- The last whole record, and the first time stamp of the next one once it is there. -/
structure Register where
  last : Option Record
  begun : Option UInt32

def Register.empty : Register := ⟨none, none⟩

inductive Event where
  | stamp (now : UInt32)
  | line (line : Bytes)

/-- Two time stamps make a record, and a line that is printed is the last whole one. -/
def register : Acceptor Register Event := fun r e =>
  match e with
  | .stamp now =>
    match r.begun with
    | none => some { r with begun := some now }
    | some start => some ⟨some ⟨start, now⟩, none⟩
  | .line line => if line = recordText r.last ++ [10] then some r else none

/-- What is seen of a turn. -/
def view (_ : State) (_ : Action) : Effect → List Event
  | .quiet => []
  | .stamped now => [.stamp now]
  | .printed line => [.line line]

/-! ## Texts in the buffer -/

theorem decimal_uint32_length_le (n : UInt32) : (decimal n.toNat).length ≤ 10 :=
  decimal_length_le (by omega) (n.toNat_lt.trans_le (by norm_num))

theorem startText_length_le (now : UInt32) : (startText now).length ≤ 17 := by
  have hle := decimal_uint32_length_le now
  have hword : (ascii "start: ").length = 7 := rfl
  rw [startText, List.length_append, hword]
  omega

theorem endText_length_le (now : UInt32) : (endText now).length ≤ 18 := by
  have hle := decimal_uint32_length_le now
  have hword : (ascii " - end: ").length = 8 := rfl
  rw [endText, List.length_append, hword]
  omega

theorem zero_notMem_startText (now : UInt32) : 0 ∉ startText now := by
  rw [startText, List.mem_append, not_or]
  exact ⟨by decide, zero_notMem_decimal _⟩

theorem zero_notMem_endText (now : UInt32) : 0 ∉ endText now := by
  rw [endText, List.mem_append, not_or]
  exact ⟨by decide, zero_notMem_decimal _⟩

theorem recordText_length_lt (r : Option Record) : (recordText r).length < BUFFER_SIZE := by
  cases r with
  | none => exact Nat.succ_pos _
  | some r =>
    have hstart := startText_length_le r.start
    have hend := endText_length_le r.stop
    rw [recordText, List.length_append, BUFFER_SIZE]
    omega

theorem zero_notMem_recordText (r : Option Record) : 0 ∉ recordText r := by
  cases r with
  | none => exact List.not_mem_nil
  | some r =>
    rw [recordText, List.mem_append, not_or]
    exact ⟨zero_notMem_startText _, zero_notMem_endText _⟩

/-- Printing to the end of the string in the buffer appends to it. -/
theorem sprintf_append {b : Buffer} {t u : Bytes} (h : Spells b t)
    (hroom : t.length + u.length < BUFFER_SIZE) :
    ∃ b', sprintf b t.length u = some (b', u.length) ∧ Spells b' (t ++ u) := by
  refine ⟨store b t.length (u ++ [0]), ?_, h.append u⟩
  have hlength : (u ++ [0]).length = u.length + 1 := List.length_append
  rw [sprintf, put, if_pos (by omega), Option.map_some]

/-- Printing to the start of the buffer leaves the text alone there. -/
theorem sprintf_start (b : Buffer) {u : Bytes} (hroom : u.length < BUFFER_SIZE) :
    ∃ b', sprintf b 0 u = some (b', u.length) ∧ Spells b' u := by
  refine ⟨store b 0 (u ++ [0]), ?_, spells_store b u⟩
  have hlength : (u ++ [0]).length = u.length + 1 := List.length_append
  rw [sprintf, put, if_pos (by omega), Option.map_some]

theorem printLine_of_spells {b : Buffer} {t : Bytes} (h : Spells b t) (hfree : 0 ∉ t)
    (hlen : t.length < BUFFER_SIZE) : printLine b = some (t ++ [10]) := by
  rw [printLine, h.strlen_eq hfree hlen, Option.map_some, h.window_eq]

/-! ## With the mutex -/

/-- The phase of the mutex that goes with a place in the loop of the writer. -/
def WriterAt.Fits : WriterAt → Phase → Prop
  | .acquire, _ => True
  | .append _, p => p = .inside
  | .release, p => p = .inside
  | .pause, p => p = .outside

def MainAt.Fits : MainAt → Phase → Prop
  | .acquire, _ => True
  | .release, p => p = .inside
  | .pause, p => p = .outside

/-- The buffer has the first half of a record while the writer sleeps inside, and the last
whole record at every other time. -/
def Content (b : Buffer) (r : Register) : WriterAt → Prop
  | .append p => ∃ start, r.begun = some start ∧ Spells b (startText start) ∧
      p = (startText start).length
  | _ => r.begun = none ∧ Spells b (recordText r.last)

/-- The mutex goes with the places of the threads, and the buffer with the register. -/
structure Consistent (s : State) (r : Register) : Prop where
  exclusive : s.lock.Exclusive
  writer_fits : s.writer.Fits (s.lock.phase .writer)
  main_fits : s.main.Fits (s.lock.phase .main)
  content : Content s.buffer r s.writer

theorem consistent_initial : Consistent initial Register.empty where
  exclusive := Mutex.exclusive_free
  writer_fits := trivial
  main_fits := trivial
  content := ⟨rfl, rfl⟩

theorem Thread.other_ne (i : Thread) : i.other ≠ i := by
  cases i with
  | writer => exact Thread.noConfusion
  | main => exact Thread.noConfusion

theorem Thread.eq_or_eq_other (i j : Thread) : j = i ∨ j = i.other := by
  cases i <;> cases j <;> simp [Thread.other]

/-- What `mutex_unlock` leaves: the caller is outside, and the other thread is inside if
it waited and where it was if not. -/
theorem unlock_spec {s : State} {i : Thread} (h : s.lock.Exclusive)
    (hi : s.lock.phase i = .inside) : (s.unlock true i).Exclusive ∧
      (s.unlock true i).phase i = .outside ∧
        (s.lock.phase i.other = .waiting ∧ (s.unlock true i).phase i.other = .inside ∨
          (s.unlock true i).phase i.other = s.lock.phase i.other) := by
  unfold State.unlock
  rw [if_pos rfl]
  by_cases hwaits : s.lock.phase i.other = .waiting
  · rw [if_pos hwaits]
    refine ⟨h.unlock hi (fun hnone => by cases hnone), ?_,
      Or.inl ⟨hwaits, Mutex.unlock_phase_next _ _ _⟩⟩
    apply Mutex.unlock_phase_self
    exact fun he => i.other_ne (Option.some.inj he)
  · rw [if_neg hwaits]
    refine ⟨h.unlock hi fun _ j => ?_, Mutex.unlock_phase_self (Option.some_ne_none _).symm,
      Or.inr (Mutex.unlock_phase_of_ne i.other_ne (Option.some_ne_none _).symm)⟩
    rcases i.eq_or_eq_other j with rfl | rfl
    · rw [hi]
      exact Phase.noConfusion
    · exact hwaits

/-- The writer is not at rest while the mutex has it waiting, and goes on from there. -/
theorem WriterAt.Fits.handed {w : WriterAt} {p q : Phase} (h : w.Fits p)
    (hpq : p = .waiting ∧ q = .inside ∨ q = p) : w.Fits q := by
  rcases hpq with ⟨rfl, rfl⟩ | rfl
  · cases w with
    | acquire => trivial
    | append => rfl
    | release => rfl
    | pause => cases h
  · exact h

theorem MainAt.Fits.handed {m : MainAt} {p q : Phase} (h : m.Fits p)
    (hpq : p = .waiting ∧ q = .inside ∨ q = p) : m.Fits q := by
  rcases hpq with ⟨rfl, rfl⟩ | rfl
  · cases m with
    | acquire => trivial
    | release => rfl
    | pause => cases h
  · exact h

/-- While the main thread is inside, the buffer has the last whole record. -/
theorem Consistent.spells {s : State} {r : Register} (h : Consistent s r)
    (hmain : s.lock.phase .main = .inside) : Spells s.buffer (recordText r.last) := by
  have hcontent := h.content
  have hfits := h.writer_fits
  cases hw : s.writer with
  | append p =>
    rw [hw] at hfits
    have hsame := h.exclusive.unique _ _ hfits hmain
    cases hsame
  | acquire =>
    rw [hw] at hcontent
    exact hcontent.2
  | release =>
    rw [hw] at hcontent
    exact hcontent.2
  | pause =>
    rw [hw] at hcontent
    exact hcontent.2

theorem writerThread_spec {s : State} {r : Register} (h : Consistent s r) (now : UInt32) :
    ∃ e s' r', writerThread true s now = some (e, s') ∧
      accept register r (view s (.writer now) e) = some r' ∧ Consistent s' r' := by
  have hcontent := h.content
  have hfits := h.writer_fits
  cases hw : s.writer with
  | acquire =>
    rw [hw] at hcontent
    obtain ⟨hbegun, hspells⟩ := hcontent
    cases hphase : s.lock.phase .writer with
    | outside =>
      refine ⟨.quiet, { s with lock := s.lock.lock .writer }, r, ?_, rfl, ?_⟩
      · simp only [writerThread, hw, State.phase, if_true, hphase]
      · refine ⟨h.exclusive.lock hphase, ?_, ?_, ?_⟩
        · simp only [hw]
          trivial
        · have hsame := s.lock.lock_phase_of_ne (Thread.other_ne .writer)
          exact hsame ▸ h.main_fits
        · simp only [hw]
          exact ⟨hbegun, hspells⟩
    | waiting =>
      refine ⟨.quiet, s, r, ?_, rfl, h⟩
      simp only [writerThread, hw, State.phase, if_true, hphase]
    | inside =>
      have hlen := startText_length_le now
      obtain ⟨b, hb, hstart⟩ := sprintf_start s.buffer (u := startText now)
        (by rw [BUFFER_SIZE]; omega)
      refine ⟨.stamped now, { s with buffer := b, writer := .append (startText now).length },
        { r with begun := some now }, ?_, ?_, ?_⟩
      · simp only [writerThread, hw, State.phase, if_true, hphase, hb, Option.map_some]
      · simp only [view, accept_singleton, register, hbegun]
      · exact ⟨h.exclusive, hphase, h.main_fits, now, rfl, hstart, rfl⟩
  | append p =>
    rw [hw] at hcontent hfits
    obtain ⟨start, hbegun, hspells, rfl⟩ := hcontent
    have hlen := startText_length_le start
    have hlen' := endText_length_le now
    obtain ⟨b, hb, hrecord⟩ := sprintf_append hspells (u := endText now)
      (by rw [BUFFER_SIZE]; omega)
    refine ⟨.stamped now, { s with buffer := b, writer := .release }, ⟨some ⟨start, now⟩, none⟩,
      ?_, ?_, ?_⟩
    · simp only [writerThread, hw, hb, Option.map_some]
    · simp only [view, accept_singleton, register, hbegun]
    · exact ⟨h.exclusive, hfits, h.main_fits, rfl, hrecord⟩
  | release =>
    rw [hw] at hcontent hfits
    obtain ⟨hexcl, houtside, hother⟩ := unlock_spec h.exclusive hfits
    refine ⟨.quiet, { s with lock := s.unlock true .writer, writer := .pause }, r, ?_, rfl, ?_⟩
    · simp only [writerThread, hw]
    · exact ⟨hexcl, houtside, h.main_fits.handed hother, hcontent⟩
  | pause =>
    rw [hw] at hcontent
    refine ⟨.quiet, { s with writer := .acquire }, r, ?_, rfl, ?_⟩
    · simp only [writerThread, hw]
    · exact ⟨h.exclusive, trivial, h.main_fits, hcontent⟩

theorem mainThread_spec {s : State} {r : Register} (h : Consistent s r) :
    ∃ e s' r', mainThread true s = some (e, s') ∧
      accept register r (view s .main e) = some r' ∧ Consistent s' r' := by
  have hfits := h.main_fits
  cases hm : s.main with
  | acquire =>
    cases hphase : s.lock.phase .main with
    | outside =>
      refine ⟨.quiet, { s with lock := s.lock.lock .main }, r, ?_, rfl, ?_⟩
      · simp only [mainThread, hm, State.phase, if_true, hphase]
      · refine ⟨h.exclusive.lock hphase, ?_, ?_, h.content⟩
        · have hsame := s.lock.lock_phase_of_ne (Thread.other_ne .main)
          exact hsame ▸ h.writer_fits
        · simp only [hm]
          trivial
    | waiting =>
      refine ⟨.quiet, s, r, ?_, rfl, h⟩
      simp only [mainThread, hm, State.phase, if_true, hphase]
    | inside =>
      have hline := printLine_of_spells (h.spells hphase) (zero_notMem_recordText r.last)
        (recordText_length_lt r.last)
      refine ⟨.printed (recordText r.last ++ [10]), { s with main := .release }, r, ?_, ?_, ?_⟩
      · simp only [mainThread, hm, State.phase, if_true, hphase, hline, Option.map_some]
      · simp only [view, accept_singleton, register, if_true]
      · exact ⟨h.exclusive, h.writer_fits, hphase, h.content⟩
  | release =>
    rw [hm] at hfits
    obtain ⟨hexcl, houtside, hother⟩ := unlock_spec h.exclusive hfits
    refine ⟨.quiet, { s with lock := s.unlock true .main, main := .pause }, r, ?_, rfl, ?_⟩
    · simp only [mainThread, hm]
    · exact ⟨hexcl, h.writer_fits.handed hother, houtside, h.content⟩
  | pause =>
    refine ⟨.quiet, { s with main := .acquire }, r, ?_, rfl, ?_⟩
    · simp only [mainThread, hm]
    · exact ⟨h.exclusive, h.writer_fits, trivial, h.content⟩

theorem step_spec {s : State} {r : Register} (h : Consistent s r) (a : Action) :
    ∃ e s' r', step true s a = some (e, s') ∧ accept register r (view s a e) = some r' ∧
      Consistent s' r' := by
  cases a with
  | writer now => exact writerThread_spec h now
  | main => exact mainThread_spec h

theorem answers : Answers (step true) view register Consistent :=
  fun _ _ a h => step_spec h a

/-- Every line is the last whole record, and the loops stay within the buffer and never both
wait, whatever the order of the turns. -/
def Synchronised (guarded : Bool) : Prop :=
  ∀ as : List Action, ∃ es s r, run (step guarded) initial as = some (es, s) ∧
    accept register Register.empty (trace (step guarded) view initial as) = some r ∧
      ∀ i, s.lock.phase i = .waiting → s.lock.phase i.other = .inside

/-- Without the mutex a line may be printed of the first half of a record. -/
theorem unguarded_refused (now : UInt32) : accept register Register.empty
    (trace (step false) view initial [.writer now, .main]) = none := by
  have hlen := startText_length_le now
  obtain ⟨b, hb, hstart⟩ := sprintf_start initial.buffer (u := startText now)
    (by rw [BUFFER_SIZE]; omega)
  have hline := printLine_of_spells hstart (zero_notMem_startText now)
    (by rw [BUFFER_SIZE]; omega)
  have hwriter : step false initial (.writer now) = some (.stamped now,
      { initial with buffer := b, writer := .append (startText now).length }) := by
    simp only [step, writerThread, initial, State.phase, Bool.false_eq_true, if_false]
    rw [show sprintf (fun _ => 0) 0 (startText now) = _ from hb, Option.map_some]
  have hne : startText now ++ [10] ≠ recordText none ++ [10] := by
    intro he
    have hnil := List.append_cancel_right he
    rw [startText, recordText, List.append_eq_nil_iff] at hnil
    exact absurd hnil.1 (by decide)
  rw [trace_cons hwriter, trace]
  simp only [step, mainThread, initial, State.phase, Bool.false_eq_true, if_false, hline,
    Option.map_some, trace, view, List.append_nil, List.singleton_append, accept, register,
    Register.empty, Option.bind_some, if_neg hne, Option.bind_none]

/-- The lines are whole records in every order of turns exactly when the program has its
mutex. -/
theorem synchronised_iff (guarded : Bool) : Synchronised guarded ↔ guarded = true := by
  constructor
  · intro h
    by_contra hunguarded
    obtain rfl : guarded = false := by simpa using hunguarded
    obtain ⟨es, s, r, -, haccept, -⟩ := h [.writer 300221, .main]
    rw [unguarded_refused] at haccept
    cases haccept
  · intro hguarded as
    subst hguarded
    obtain ⟨es, s, r, hrun, haccept, hcons⟩ := answers.exists_run consistent_initial as
    refine ⟨es, s, r, hrun, haccept, fun i hi => ?_⟩
    obtain ⟨j, hj, hinside⟩ := hcons.exclusive.exists_inside hi
    rcases i.eq_or_eq_other j with rfl | rfl
    · exact absurd rfl hj
    · exact hinside

end IotLabTraining.SharedRecord
