import IotLabTraining.Traces

/-!
# Mailboxes

A thread receives messages one by one. A message that finds it blocked in the receive call
is handed to it. Otherwise the message is put into a queue of fixed capacity; where that is
full, an interrupt drops the message, and a thread that sends waits with it. The messages
are received in the order in which they were accepted.

The definitions stand for the messages between threads of RIOT, `msg_send` and
`msg_receive`, with or without a queue from `msg_init_queue`, as `core/msg.h` documents them.
-/
namespace IotLabTraining.Mailboxes
open Traces
variable {M : Type*}

/-- How far the receiver is in its receive call. -/
inductive Receiver (M : Type*) where
  | busy
  | blocked
  | handed (m : M)

/-- A queue of `capacity` places, and the messages of the senders that wait for one. -/
structure Mailbox (M : Type*) where
  capacity : ℕ
  queue : List M
  waiting : List M
  receiver : Receiver M

/-- The mailbox of a thread before `msg_init_queue` and its first `msg_receive`. -/
def Mailbox.closed : Mailbox M := ⟨0, [], [], .busy⟩

namespace Mailbox

/-- The message that the receive call returns next, if it has one. -/
def inHand (b : Mailbox M) : List M :=
  match b.receiver with
  | .handed m => [m]
  | _ => []

/-- All messages that are accepted and not taken yet. -/
def pending (b : Mailbox M) : List M := b.inHand ++ (b.queue ++ b.waiting)

/-- `msg_send` in an interrupt never blocks: it gives the message to a receiver that waits
or to its queue, and returns 0 where neither takes it. The result is whether the message is
accepted. -/
def post (b : Mailbox M) (m : M) : Bool × Mailbox M :=
  match b.receiver with
  | .blocked => (true, { b with receiver := .handed m })
  | _ =>
    if b.queue.length < b.capacity then (true, { b with queue := b.queue ++ [m] })
    else (false, b)

/-- `msg_send` in a thread returns when the message is with the receiver or in its queue,
and blocks until then; the result is whether the thread goes on at once. -/
def send (b : Mailbox M) (m : M) : Bool × Mailbox M :=
  let posted := b.post m
  if posted.1 then posted else (false, { b with waiting := b.waiting ++ [m] })

/-- `msg_receive` of a receiver that is busy blocks until there is a message, and gives the
oldest one. The first sender that waits gets the place that becomes free. -/
def receive (b : Mailbox M) : Mailbox M :=
  match b.queue, b.waiting with
  | [], [] => { b with receiver := .blocked }
  | [], w :: ws => { b with receiver := .handed w, waiting := ws }
  | m :: ms, ws =>
    { b with receiver := .handed m, queue := ms ++ ws.take 1, waiting := ws.drop 1 }

/-- `msg_receive` returns, and the receiver is busy with the message. -/
def take (b : Mailbox M) : Mailbox M := { b with receiver := .busy }

/-- The queue is within its capacity, nothing is left for a blocked receiver to take, and
senders wait only where it is full. -/
structure Orderly (b : Mailbox M) : Prop where
  queue_le : b.queue.length ≤ b.capacity
  blocked_empty : b.receiver = .blocked → b.queue = [] ∧ b.waiting = []
  waiting_full : b.waiting ≠ [] → b.queue.length = b.capacity

theorem orderly_closed : Orderly (closed : Mailbox M) where
  queue_le := le_rfl
  blocked_empty h := by cases h
  waiting_full h := absurd rfl h

variable {b : Mailbox M}

theorem inHand_length_le (b : Mailbox M) : b.inHand.length ≤ 1 := by
  unfold inHand
  split
  · exact le_rfl
  · exact Nat.zero_le _

theorem post_of_blocked (hb : b.receiver = .blocked) (m : M) :
    b.post m = (true, { b with receiver := .handed m }) := by
  rw [post, hb]

theorem post_of_room (hb : b.receiver ≠ .blocked) (hroom : b.queue.length < b.capacity) (m : M) :
    b.post m = (true, { b with queue := b.queue ++ [m] }) := by
  unfold post
  split
  · contradiction
  · rw [if_pos hroom]

theorem post_of_full (hb : b.receiver ≠ .blocked) (hfull : ¬ b.queue.length < b.capacity) (m : M) :
    b.post m = (false, b) := by
  unfold post
  split
  · contradiction
  · rw [if_neg hfull]

/-- A message is accepted where the receiver is blocked or the queue has room. -/
theorem post_accepted_iff (b : Mailbox M) (m : M) :
    (b.post m).1 = true ↔ b.receiver = .blocked ∨ b.queue.length < b.capacity := by
  by_cases hb : b.receiver = .blocked
  · rw [post_of_blocked hb]
    exact iff_of_true rfl (Or.inl hb)
  · by_cases hroom : b.queue.length < b.capacity
    · rw [post_of_room hb hroom]
      exact iff_of_true rfl (Or.inr hroom)
    · rw [post_of_full hb hroom]
      exact iff_of_false (fun he => by cases he) fun hor => hor.elim hb hroom

theorem pending_of_blocked (h : b.Orderly) (hb : b.receiver = .blocked) : b.pending = [] := by
  obtain ⟨hq, hw⟩ := h.blocked_empty hb
  rw [pending, inHand, hb, hq, hw]
  rfl

/-- An accepted message is the last one that will be taken. -/
theorem post_accepted (h : b.Orderly) {m : M} (hm : (b.post m).1 = true) :
    (b.post m).2.Orderly ∧ (b.post m).2.pending = b.pending ++ [m] := by
  by_cases hb : b.receiver = .blocked
  · have hnil := pending_of_blocked h hb
    obtain ⟨hq, hw⟩ := h.blocked_empty hb
    rw [post_of_blocked hb]
    refine ⟨⟨h.queue_le, (fun he => by cases he), h.waiting_full⟩, ?_⟩
    rw [hnil, pending, inHand, hq, hw]
    rfl
  · have hroom := ((post_accepted_iff b m).mp hm).resolve_left hb
    have hnone : b.waiting = [] := by
      by_contra hw
      exact absurd (h.waiting_full hw) hroom.ne
    rw [post_of_room hb hroom]
    refine ⟨⟨?_, fun he => absurd he hb, fun hw => absurd hnone hw⟩, ?_⟩
    · simpa using hroom
    · simp only [pending, inHand, hnone, List.append_nil, List.append_assoc]

/-- A message that is dropped leaves the mailbox as it was. -/
theorem post_dropped {m : M} (hm : (b.post m).1 = false) : b.post m = (false, b) := by
  have hneither := (not_congr (post_accepted_iff b m)).mp (by simp [hm])
  rw [not_or] at hneither
  exact post_of_full hneither.1 hneither.2 m

/-- A thread that sends never loses its message. -/
theorem send_spec (h : b.Orderly) (m : M) :
    (b.send m).2.Orderly ∧ (b.send m).2.pending = b.pending ++ [m] := by
  unfold send
  simp only
  split_ifs with hm
  · exact post_accepted h hm
  · have hneither := (not_congr (post_accepted_iff b m)).mp hm
    rw [not_or] at hneither
    refine ⟨⟨h.queue_le, fun he => absurd he hneither.1, fun _ => ?_⟩, ?_⟩
    · have hle := h.queue_le
      have hfull := hneither.2
      show b.queue.length = b.capacity
      omega
    · simp only [pending, inHand, List.append_assoc]

/-- The receive call takes the oldest message in hand, and blocks only where there is
none. -/
theorem receive_spec (h : b.Orderly) (hbusy : b.receiver = .busy) :
    b.receive.Orderly ∧ b.receive.pending = b.pending ∧
      (b.receive.receiver = .blocked ∧ b.pending = [] ∨
        ∃ m, b.receive.receiver = .handed m) := by
  have hhand : b.inHand = [] := by rw [inHand, hbusy]
  have hpending : b.pending = b.queue ++ b.waiting := by rw [pending, hhand, List.nil_append]
  rw [hpending]
  unfold receive
  split
  · rename_i hq hw
    refine ⟨⟨h.queue_le, fun _ => ⟨hq, hw⟩, h.waiting_full⟩, ?_, Or.inl ⟨rfl, ?_⟩⟩
    · simp only [pending, inHand, List.nil_append]
    · rw [hq, hw, List.append_nil]
  · rename_i w ws hq hw
    have hfull : b.queue.length = b.capacity :=
      h.waiting_full (hw ▸ List.cons_ne_nil w ws)
    refine ⟨⟨h.queue_le, (fun he => by cases he), fun _ => hfull⟩, ?_, Or.inr ⟨w, rfl⟩⟩
    simp only [pending, inHand, hq, hw, List.nil_append, List.singleton_append]
  · rename_i q qs hq
    have hlen := h.queue_le
    have hfull := h.waiting_full
    rw [hq, List.length_cons] at hlen hfull
    refine ⟨⟨?_, (fun he => by cases he), ?_⟩, ?_, Or.inr ⟨q, rfl⟩⟩
    · simp only [List.length_append, List.length_take]
      omega
    · intro hws
      have hne : b.waiting ≠ [] := by
        intro hnil
        exact hws (by simp [hnil])
      have hpos := List.length_pos_iff.mpr hne
      have hcap := hfull hne
      simp only [List.length_append, List.length_take]
      omega
    · simp only [pending, inHand, hq, List.append_assoc, List.take_append_drop,
        List.cons_append, List.nil_append]

theorem take_orderly (h : b.Orderly) : b.take.Orderly where
  queue_le := h.queue_le
  blocked_empty he := by cases he
  waiting_full := h.waiting_full

theorem pending_of_handed {m : M} (hm : b.receiver = .handed m) :
    b.pending = m :: b.take.pending := by
  simp only [pending, inHand, hm, take, List.singleton_append, List.nil_append]

theorem pending_length_le (h : b.Orderly) (hw : b.waiting = []) :
    b.pending.length ≤ b.capacity + 1 := by
  have hhand := b.inHand_length_le
  have hq := h.queue_le
  rw [pending, hw, List.append_nil, List.length_append]
  omega

@[simp] theorem post_waiting (b : Mailbox M) (m : M) : (b.post m).2.waiting = b.waiting := by
  unfold post
  split
  · rfl
  · split_ifs <;> rfl

@[simp] theorem post_capacity (b : Mailbox M) (m : M) : (b.post m).2.capacity = b.capacity := by
  unfold post
  split
  · rfl
  · split_ifs <;> rfl

@[simp] theorem receive_capacity (b : Mailbox M) : b.receive.capacity = b.capacity := by
  unfold receive
  split <;> rfl

theorem receive_waiting (hw : b.waiting = []) : b.receive.waiting = [] := by
  unfold receive
  split
  · exact hw
  · rename_i w ws _ he
    rw [hw] at he
    cases he
  · simp [hw]

end Mailbox

/-! ## First in, first out -/

inductive Event (M : Type*) where
  | accepted (m : M)
  | dropped (m : M)
  | taken (m : M)

/-- The messages accepted and not taken yet; the oldest one is taken. -/
def fifo [DecidableEq M] : Acceptor (List M) (Event M) := fun pending e =>
  match e with
  | .accepted m => some (pending ++ [m])
  | .dropped _ => some pending
  | .taken m => if pending.head? = some m then some pending.tail else none

def Event.acceptedMessage : Event M → Option M
  | .accepted m => some m
  | _ => none

def Event.takenMessage : Event M → Option M
  | .taken m => some m
  | _ => none

/-- What has been taken, and then what is pending, are what was accepted, in this order. -/
theorem accept_fifo [DecidableEq M] {pending pending' : List M} {es : List (Event M)}
    (h : accept fifo pending es = some pending') :
    es.filterMap Event.takenMessage ++ pending' =
      pending ++ es.filterMap Event.acceptedMessage := by
  induction es generalizing pending with
  | nil =>
    obtain rfl := Option.some.inj h
    simp
  | cons e es ih =>
    obtain ⟨next, hnext, hrest⟩ := Option.bind_eq_some_iff.mp h
    have hes := ih hrest
    cases e with
    | accepted m =>
      obtain rfl := Option.some.inj hnext
      have hm : Event.acceptedMessage (.accepted m) = some m := rfl
      rw [List.filterMap_cons_none rfl, List.filterMap_cons_some hm, hes, List.append_assoc,
        List.singleton_append]
    | dropped m =>
      obtain rfl := Option.some.inj hnext
      rw [List.filterMap_cons_none rfl, List.filterMap_cons_none rfl, hes]
    | taken m =>
      simp only [fifo] at hnext
      split_ifs at hnext with hhead
      obtain rfl := Option.some.inj hnext
      obtain ⟨rest, rfl⟩ := List.head?_eq_some_iff.mp hhead
      have hm : Event.takenMessage (.taken m) = some m := rfl
      have hnone : Event.acceptedMessage (.taken m) = none := rfl
      rw [List.filterMap_cons_some hm, List.filterMap_cons_none hnone, List.cons_append, hes,
        List.tail_cons, List.cons_append]

end IotLabTraining.Mailboxes
