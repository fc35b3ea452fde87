import IotLabTraining.Buffers
import IotLabTraining.Mailboxes

/-!
# Messages that point into the line buffer

The exercise on messages with the bodies of its notebook. The shell of the main thread reads
a line into one buffer for all lines, and `send` hands the listener thread a pointer to its
argument there. The listener prints what the pointer leads to when it has its turn. Its
priority is above the one of the main thread, which runs only while the listener is blocked.
-/
namespace IotLabTraining.ThreadIpc
open Buffers Mailboxes Runs Traces

/-- `SHELL_DEFAULT_BUFSIZE`. -/
def SHELL_DEFAULT_BUFSIZE : ℕ := 128

/-- A line with the command `send` as the shell leaves it in the buffer, and where its
arguments begin. -/
structure Line where
  bytes : Bytes
  argv : List ℕ
  argv_ne : argv ≠ []
  length_le : bytes.length ≤ SHELL_DEFAULT_BUFSIZE
  terminated : ∀ p ∈ argv, 0 ∈ bytes.drop p

/-- Where the main thread stands. -/
inductive MainAt where
  /-- In `shell_run`, before the next line. -/
  | prompt
  /-- In `send_command`, before `msg_send`. -/
  | send (ptr : ℕ)
  /-- Blocked in `msg_send`. -/
  | blocked

structure State where
  lineBuf : Buffer
  mailbox : Mailbox ℕ
  main : MainAt

/-- The listener is created; it has no message queue. -/
def initial : State := ⟨fun _ => 0, Mailbox.closed, .prompt⟩

/-- The string that `%s` prints of the line buffer from `ptr` on. -/
def stringAt (b : Buffer) (ptr : ℕ) : Bytes := cString (window b ptr (SHELL_DEFAULT_BUFSIZE - ptr))

/-- `printf` of that string, unless it runs past the buffer. -/
def printString (b : Buffer) (ptr : ℕ) : Option Bytes :=
  if 0 ∈ window b ptr (SHELL_DEFAULT_BUFSIZE - ptr) then some (stringAt b ptr) else none

inductive Effect where
  | quiet
  /-- `msg_send` with a pointer to this text. -/
  | sent (text : Bytes)
  | usage (out : Bytes)
  /-- The listener prints a message. -/
  | printed (text : Bytes)

def Effect.output : Effect → Bytes
  | .usage out => out
  | .printed text => ascii "Message received: " ++ text ++ [10]
  | _ => []

/-- `listener_thread` up to its next turn; in `msg_receive` it has none before a message
is there. -/
def listenerThread (s : State) : Option (Effect × State) :=
  match s.mailbox.receiver with
  | .busy => some (.quiet, { s with mailbox := s.mailbox.receive })
  | .blocked => some (.quiet, s)
  | .handed ptr =>
    (printString s.lineBuf ptr).map fun text =>
      (.printed text, { s with mailbox := s.mailbox.take })

/-- `send_command` before its message. -/
def sendCommand (b : Buffer) (argv : List ℕ) : Option (Effect × MainAt) :=
  match argv[1]? with
  | none => (printString b (argv.headD 0)).map fun name =>
      (.usage (ascii "Usage: " ++ name ++ ascii " <message>\n"), .prompt)
  | some ptr => some (.quiet, .send ptr)

/-- The main thread up to its next turn; at the prompt it reads `line`. -/
def mainThread (s : State) (line : Line) : Option (Effect × State) :=
  match s.main with
  | .prompt =>
    let lineBuf := store s.lineBuf 0 line.bytes
    (sendCommand lineBuf line.argv).map fun r => (r.1, { s with lineBuf := lineBuf, main := r.2 })
  | .send ptr =>
    let sent := s.mailbox.send ptr
    some (.sent (stringAt s.lineBuf ptr),
      { s with mailbox := sent.2, main := if sent.1 then .prompt else .blocked })
  | .blocked => some (.quiet, if s.mailbox.waiting = [] then { s with main := .prompt } else s)

inductive Action where
  | main (line : Line)
  | listener

/-- The listener does not wait for a message. -/
def State.listening (s : State) : Bool :=
  match s.mailbox.receiver with
  | .blocked => false
  | _ => true

/-- A thread has a turn. With its priority the listener goes first wherever it can run. -/
def step (prioritised : Bool) : Step State Action Effect := fun s a =>
  match a with
  | .listener => listenerThread s
  | .main line => if prioritised && s.listening then listenerThread s else mainThread s line

def Effect.events : Effect → List (Event Bytes)
  | .sent text => [.accepted text]
  | .printed text => [.taken text]
  | _ => []

/-! ## With priorities -/

/-- What the messages on the way point to. -/
def texts (s : State) : List Bytes := s.mailbox.pending.map (stringAt s.lineBuf)

/-- Every message leads to a string that ends in the buffer, and nobody waits to send. -/
structure Consistent (s : State) : Prop where
  orderly : s.mailbox.Orderly
  waiting : s.mailbox.waiting = []
  pointers : ∀ ptr ∈ s.mailbox.pending,
    0 ∈ window s.lineBuf ptr (SHELL_DEFAULT_BUFSIZE - ptr)
  main : match s.main with
    | .prompt => True
    | .send ptr => 0 ∈ window s.lineBuf ptr (SHELL_DEFAULT_BUFSIZE - ptr)
    | .blocked => False

theorem consistent_initial : Consistent initial where
  orderly := Mailbox.orderly_closed
  waiting := rfl
  pointers _ h := by cases h
  main := trivial

/-- An argument of the line that was read ends in the buffer. -/
theorem pointer_of_line (b : Buffer) (line : Line) {ptr : ℕ} (h : ptr ∈ line.argv) :
    0 ∈ window (store b 0 line.bytes) ptr (SHELL_DEFAULT_BUFSIZE - ptr) := by
  obtain ⟨i, hi, hzero⟩ := List.getElem_of_mem (line.terminated ptr h)
  rw [List.length_drop] at hi
  rw [List.getElem_drop] at hzero
  have hle := line.length_le
  have hstored := store_at b 0 (t := line.bytes) (i := ptr + i) (by omega)
  rw [Nat.zero_add, hzero] at hstored
  rw [window, List.mem_map]
  exact ⟨i, List.mem_range.mpr (by omega), hstored⟩

theorem listenerThread_spec {s : State} (h : Consistent s) :
    ∃ e s', listenerThread s = some (e, s') ∧ Consistent s' ∧
      accept fifo (texts s) e.events = some (texts s') := by
  unfold listenerThread
  split
  · rename_i hbusy
    obtain ⟨horderly, hpending, -⟩ := Mailbox.receive_spec h.orderly hbusy
    refine ⟨_, _, rfl, ⟨horderly, Mailbox.receive_waiting h.waiting, ?_, h.main⟩, ?_⟩
    · simp only [hpending]
      exact h.pointers
    · simp only [texts, hpending]
      rfl
  · exact ⟨_, _, rfl, h, rfl⟩
  · rename_i ptr hptr
    have hpending := Mailbox.pending_of_handed hptr
    have hends := h.pointers ptr (by rw [hpending]; exact List.mem_cons_self)
    refine ⟨.printed (stringAt s.lineBuf ptr), { s with mailbox := s.mailbox.take }, ?_,
      ⟨Mailbox.take_orderly h.orderly, h.waiting, fun q hq => ?_, h.main⟩, ?_⟩
    · rw [printString, if_pos hends, Option.map_some]
    · exact h.pointers q (by rw [hpending]; exact List.mem_cons_of_mem ptr hq)
    · simp only [Effect.events, accept_singleton, fifo, texts, hpending, List.map_cons,
        List.head?_cons, List.tail_cons, if_true]

/-- The main thread while the listener waits: nothing is on the way before its turn. -/
theorem mainThread_spec {s : State} (h : Consistent s) (hblocked : s.mailbox.receiver = .blocked)
    (line : Line) : ∃ e s', mainThread s line = some (e, s') ∧ Consistent s' ∧
      accept fifo (texts s) e.events = some (texts s') := by
  have hnone := Mailbox.pending_of_blocked h.orderly hblocked
  have hmain := h.main
  unfold mainThread
  split
  · cases hargv : line.argv[1]? with
    | none =>
      have hhead : line.argv.headD 0 ∈ line.argv := by
        cases hl : line.argv with
        | nil => exact absurd hl line.argv_ne
        | cons p ps => exact List.mem_cons_self
      have hends := pointer_of_line s.lineBuf line hhead
      simp only [sendCommand, hargv, printString, if_pos hends, Option.map_some]
      refine ⟨_, _, rfl, ⟨h.orderly, h.waiting, ?_, trivial⟩, ?_⟩
      · simp [hnone]
      · simp [texts, hnone, Effect.events]
    | some ptr =>
      simp only [sendCommand, hargv, Option.map_some]
      refine ⟨_, _, rfl, ⟨h.orderly, h.waiting, ?_, ?_⟩, ?_⟩
      · simp [hnone]
      · exact pointer_of_line s.lineBuf line (List.mem_of_getElem? hargv)
      · simp [texts, hnone, Effect.events]
  · rename_i ptr hptr
    rw [hptr] at hmain
    have hposted : (s.mailbox.post ptr).1 = true :=
      (Mailbox.post_accepted_iff _ _).mpr (Or.inl hblocked)
    have hsend : s.mailbox.send ptr = s.mailbox.post ptr := if_pos hposted
    obtain ⟨horderly, hpending⟩ := Mailbox.send_spec h.orderly ptr
    rw [hsend] at horderly hpending
    simp only [hsend, hposted, if_true]
    refine ⟨_, _, rfl, ⟨horderly, (Mailbox.post_waiting _ _).trans h.waiting, ?_, trivial⟩, ?_⟩
    · simp only [hpending, hnone, List.nil_append, List.forall_mem_singleton]
      exact hmain
    · simp only [Effect.events, accept_singleton, fifo, texts, hpending, List.map_append,
        List.map_singleton]
  · rename_i hmainat
    rw [hmainat] at hmain
    exact hmain.elim

theorem listening_eq_false_iff (s : State) :
    s.listening = false ↔ s.mailbox.receiver = .blocked := by
  unfold State.listening
  split
  · rename_i hblocked
    exact iff_of_true rfl hblocked
  · rename_i hready
    exact iff_of_false (fun he => by cases he) hready

theorem step_spec {s : State} (h : Consistent s) (a : Action) :
    ∃ e s', step true s a = some (e, s') ∧ Consistent s' ∧
      accept fifo (texts s) e.events = some (texts s') := by
  cases a with
  | listener => exact listenerThread_spec h
  | main line =>
    cases hlistening : s.listening with
    | true =>
      simp only [step, Bool.true_and, hlistening, if_true]
      exact listenerThread_spec h
    | false =>
      simp only [step, Bool.true_and, hlistening, Bool.false_eq_true, if_false]
      exact mainThread_spec h ((listening_eq_false_iff s).mp hlistening) line

theorem answers : Answers (step true) (fun _ _ e => e.events) fifo
    fun s pending => Consistent s ∧ pending = texts s := by
  intro s pending a hs
  obtain ⟨h, rfl⟩ := hs
  obtain ⟨e, s', hstep, hcons, haccept⟩ := step_spec h a
  exact ⟨e, s', _, hstep, haccept, hcons, rfl⟩

/-- The texts given to `send`, and the ones that are printed. -/
def sent (es : List Effect) : List Bytes :=
  (es.flatMap Effect.events).filterMap Event.acceptedMessage

def printed (es : List Effect) : List Bytes :=
  (es.flatMap Effect.events).filterMap Event.takenMessage

/-- In every order of turns no thread reads past the line buffer, and the listener prints the
texts that are sent, each one once and before the main thread goes on. -/
def Relays (prioritised : Bool) : Prop :=
  ∀ as : List Action, ∃ es s, run (step prioritised) initial as = some (es, s) ∧
    printed es <+: sent es ∧ (s.listening = false → printed es = sent es)

theorem relays_of_prioritised : Relays true := by
  intro as
  obtain ⟨es, s, _, hrun, haccept, hcons, rfl⟩ := answers.exists_run ⟨consistent_initial, rfl⟩ as
  rw [trace_of_run hrun] at haccept
  have horder : printed es ++ texts s = sent es := accept_fifo haccept
  refine ⟨es, s, hrun, ⟨texts s, horder⟩, fun hwaits => ?_⟩
  have hnone := Mailbox.pending_of_blocked hcons.orderly ((listening_eq_false_iff s).mp hwaits)
  rw [← horder, texts, hnone, List.map_nil, List.append_nil]

/-- The line `send` with an argument of one letter. -/
def sendLetter (c : UInt8) : Line where
  bytes := ascii "send" ++ [0, c, 0]
  argv := [0, 5]
  argv_ne := by simp
  length_le := by
    show 7 ≤ 128
    omega
  terminated := by simp [ascii]

/-- Without the priority the next line may be read before the listener has its turn. -/
theorem unprioritised_run : (run (step false) initial [.listener, .main (sendLetter 97),
    .main (sendLetter 97), .main (sendLetter 98), .listener]).map
      (fun r => (sent r.1, printed r.1)) = some ([[97]], [[98]]) := by
  decide +kernel

/-- The texts are relayed as they are sent exactly when the listener has its priority. -/
theorem relays_iff (prioritised : Bool) : Relays prioritised ↔ prioritised = true := by
  constructor
  · intro h
    by_contra hunprioritised
    obtain rfl : prioritised = false := by simpa using hunprioritised
    obtain ⟨es, s, hrun, hfront, -⟩ := h [.listener, .main (sendLetter 97),
      .main (sendLetter 97), .main (sendLetter 98), .listener]
    have hvalues := unprioritised_run
    rw [hrun, Option.map_some, Option.some.injEq, Prod.mk.injEq] at hvalues
    rw [hvalues.1, hvalues.2] at hfront
    exact absurd (hfront.eq_of_length rfl) (by decide)
  · intro hprioritised
    subst hprioritised
    exact relays_of_prioritised

end IotLabTraining.ThreadIpc
