import IotLabTraining.Mailboxes
import IotLabTraining.Text

/-!
# The UART echo

The UART exercise with the bodies of its notebook. Every character received calls
`uart_cb` in an interrupt, which sends it to the main thread. The main thread gives itself
a message queue, and then receives the messages and prints them. Interrupts come at any
time, from `uart_init` on.
-/
namespace IotLabTraining.UartEcho
open Mailboxes Runs Traces

/-- `MSG_QUEUE_SIZE`. -/
def MSG_QUEUE_SIZE : ℕ := 8

/-- Whether `msg_init_queue` has been called, and the messages for the main thread. -/
structure State where
  queueReady : Bool
  mailbox : Mailbox UInt8

/-- Behind `uart_init`. -/
def initial : State := ⟨false, Mailbox.closed⟩

inductive Effect where
  | quiet
  | accepted (data : UInt8)
  | dropped (data : UInt8)
  /-- `printf("received: %c\n", ..)`. -/
  | received (data : UInt8)

/-- The line printed of a character. -/
def echo (data : UInt8) : Bytes := ascii "received: " ++ [data, 10]

def Effect.output : Effect → Bytes
  | .received data => echo data
  | _ => []

def stdout (es : List Effect) : Bytes := es.flatMap Effect.output

/-- `uart_cb`. -/
def uartCb (s : State) (data : UInt8) : Effect × State :=
  let posted := s.mailbox.post data
  (if posted.1 then .accepted data else .dropped data, { s with mailbox := posted.2 })

/-- `main` behind `uart_init`, up to its next turn; in `msg_receive` it has none before a
message is there. -/
def mainThread (s : State) : Effect × State :=
  if s.queueReady then
    match s.mailbox.receiver with
    | .busy => (.quiet, { s with mailbox := s.mailbox.receive })
    | .blocked => (.quiet, s)
    | .handed data => (.received data, { s with mailbox := s.mailbox.take })
  else (.quiet, ⟨true, { s.mailbox with capacity := MSG_QUEUE_SIZE }⟩)

inductive Action where
  | uart (data : UInt8)
  | main

def step : Step State Action Effect := fun s a =>
  match a with
  | .uart data => some (uartCb s data)
  | .main => some (mainThread s)

def Effect.events : Effect → List (Event UInt8)
  | .quiet => []
  | .accepted data => [.accepted data]
  | .dropped data => [.dropped data]
  | .received data => [.taken data]

/-- The characters that were sent to the main thread. -/
def accepted (es : List Effect) : Bytes :=
  (es.flatMap Effect.events).filterMap Event.acceptedMessage

/-- The characters that were printed. -/
def received (es : List Effect) : Bytes :=
  (es.flatMap Effect.events).filterMap Event.takenMessage

/-- The main thread has its queue, or it is not at the receive call yet. -/
structure Consistent (s : State) : Prop where
  orderly : s.mailbox.Orderly
  waiting : s.mailbox.waiting = []
  ready : s.queueReady = true → s.mailbox.capacity = MSG_QUEUE_SIZE
  unready : s.queueReady = false → s.mailbox = Mailbox.closed

theorem consistent_initial : Consistent initial where
  orderly := Mailbox.orderly_closed
  waiting := rfl
  ready h := by cases h
  unready _ := rfl

/-- No more than what the queue holds and one in hand are on the way. -/
theorem Consistent.pending_length_le {s : State} (h : Consistent s) :
    s.mailbox.pending.length ≤ MSG_QUEUE_SIZE + 1 := by
  cases hready : s.queueReady with
  | true => exact h.ready hready ▸ Mailbox.pending_length_le h.orderly h.waiting
  | false =>
    rw [h.unready hready]
    exact Nat.zero_le _

/-- With its queue, the main thread at the receive call that finds no message. -/
def idle : State := ⟨true, ⟨MSG_QUEUE_SIZE, [], [], .blocked⟩⟩

theorem Consistent.eq_idle {s : State} (h : Consistent s) (hready : s.queueReady = true)
    (hblocked : s.mailbox.receiver = .blocked) : s = idle := by
  obtain ⟨ready, capacity, queue, waiting, receiver⟩ := s
  obtain ⟨rfl, -⟩ := h.orderly.blocked_empty hblocked
  obtain rfl : waiting = [] := h.waiting
  obtain rfl : capacity = MSG_QUEUE_SIZE := h.ready hready
  obtain rfl : ready = true := hready
  obtain rfl : receiver = .blocked := hblocked
  rfl

/-! ## Turns -/

theorem uartCb_spec {s : State} (h : Consistent s) (data : UInt8) :
    Consistent (uartCb s data).2 ∧ accept fifo s.mailbox.pending (uartCb s data).1.events =
      some (uartCb s data).2.mailbox.pending := by
  cases hposted : (s.mailbox.post data).1 with
  | true =>
    obtain ⟨horderly, hpending⟩ := Mailbox.post_accepted h.orderly hposted
    refine ⟨⟨horderly, by simp [uartCb, h.waiting], fun hready => ?_, fun hunready => ?_⟩, ?_⟩
    · exact (Mailbox.post_capacity _ _).trans (h.ready hready)
    · have hclosed := h.unready hunready
      rw [hclosed] at hposted
      cases hposted
    · simp only [uartCb, hposted, if_true, Effect.events, accept_singleton, fifo, hpending]
  | false =>
    have hsame := Mailbox.post_dropped hposted
    have hstay : (uartCb s data).2 = s := by rw [uartCb, hsame]
    rw [hstay]
    refine ⟨h, ?_⟩
    simp only [uartCb, hposted, Bool.false_eq_true, if_false, Effect.events, accept_singleton, fifo]

/-- A character is accepted while the main thread waits, and while its queue has room. -/
theorem uartCb_accepted_iff {s : State} (h : Consistent s) (data : UInt8) :
    (uartCb s data).1 = .accepted data ↔ s.mailbox.receiver = .blocked ∨
      s.queueReady = true ∧ s.mailbox.queue.length < MSG_QUEUE_SIZE := by
  have hposted : (uartCb s data).1 = .accepted data ↔ (s.mailbox.post data).1 = true := by
    cases hp : (s.mailbox.post data).1 <;> simp [uartCb, hp]
  rw [hposted, Mailbox.post_accepted_iff]
  cases hready : s.queueReady with
  | true => simp only [h.ready hready, true_and]
  | false => simp [h.unready hready, Mailbox.closed]

/-- The turns of the main thread up to the receive call that finds no message. -/
def turns (b : Mailbox UInt8) : ℕ :=
  match b.receiver with
  | .busy => 2 * b.pending.length + 1
  | .blocked => 0
  | .handed _ => 2 * b.pending.length

/-- A turn with the queue prints the oldest message if it is in hand, and comes nearer to
the receive call that finds none. -/
theorem mainThread_spec {s : State} (h : Consistent s) (hready : s.queueReady = true) :
    Consistent (mainThread s).2 ∧ (mainThread s).2.queueReady = true ∧
      accept fifo s.mailbox.pending (mainThread s).1.events =
        some (mainThread s).2.mailbox.pending ∧
      (mainThread s).1.events.filterMap Event.acceptedMessage = [] ∧
      turns (mainThread s).2.mailbox = turns s.mailbox - 1 := by
  unfold mainThread
  rw [if_pos hready]
  split
  · rename_i hbusy
    obtain ⟨horderly, hpending, hnext⟩ := Mailbox.receive_spec h.orderly hbusy
    refine ⟨⟨horderly, Mailbox.receive_waiting h.waiting, fun _ => ?_, fun hun => ?_⟩, hready,
      ?_, rfl, ?_⟩
    · exact (Mailbox.receive_capacity _).trans (h.ready hready)
    · rw [hready] at hun
      cases hun
    · rw [hpending]
      rfl
    · simp only [turns, hbusy, hpending, Nat.add_sub_cancel]
      rcases hnext with ⟨hblocked, hnil⟩ | ⟨m, hm⟩
      · simp only [hblocked, hnil, List.length_nil]
      · simp only [hm]
  · rename_i hblocked
    refine ⟨h, hready, rfl, rfl, ?_⟩
    simp only [turns, hblocked]
  · rename_i data hdata
    have hpending := Mailbox.pending_of_handed hdata
    refine ⟨⟨Mailbox.take_orderly h.orderly, h.waiting, fun _ => h.ready hready, fun hun => ?_⟩,
      hready, ?_, rfl, ?_⟩
    · rw [hready] at hun
      cases hun
    · simp only [Effect.events, accept_singleton, fifo, hpending, List.head?_cons, List.tail_cons,
        if_true]
    · simp only [turns, hdata, hpending, List.length_cons, Mailbox.take]
      omega

/-- The first turn of the main thread gives it its queue. -/
theorem mainThread_unready {s : State} (h : Consistent s) (hun : s.queueReady = false) :
    s = initial ∧ mainThread s = (.quiet, ⟨true, { Mailbox.closed with capacity := 8 }⟩) := by
  obtain ⟨ready, mailbox⟩ := s
  obtain rfl : ready = false := hun
  obtain rfl : mailbox = Mailbox.closed := h.unready rfl
  exact ⟨rfl, rfl⟩

theorem consistent_ready : Consistent ⟨true, { Mailbox.closed with capacity := 8 }⟩ where
  orderly := ⟨Nat.zero_le _, (fun he => by cases he), fun he => absurd rfl he⟩
  waiting := rfl
  ready _ := rfl
  unready he := by cases he

/-- Messages are taken in the order in which they were accepted. -/
theorem simulates : Simulates step (fun _ _ e => e.events) fifo
    fun s pending => Consistent s ∧ pending = s.mailbox.pending := by
  intro s pending a e s' hs hstep
  obtain ⟨h, rfl⟩ := hs
  cases a with
  | uart data =>
    obtain ⟨rfl, rfl⟩ := Prod.mk.inj (Option.some.inj hstep)
    obtain ⟨hcons, haccept⟩ := uartCb_spec h data
    exact ⟨_, haccept, hcons, rfl⟩
  | main =>
    have hturn : mainThread s = (e, s') := Option.some.inj hstep
    cases hready : s.queueReady with
    | true =>
      obtain ⟨hcons, -, haccept, -⟩ := mainThread_spec h hready
      rw [hturn] at hcons haccept
      exact ⟨_, haccept, hcons, rfl⟩
    | false =>
      obtain ⟨rfl, hfirst⟩ := mainThread_unready h hready
      rw [hfirst] at hturn
      obtain ⟨rfl, rfl⟩ := Prod.mk.inj hturn
      exact ⟨[], rfl, consistent_ready, rfl⟩

theorem exists_run_step (s : State) (as : List Action) :
    ∃ es s', run step s as = some (es, s') := by
  apply exists_run
  intro s a
  cases a <;> rfl

/-- What is printed, and then what is on the way, are the accepted characters. -/
theorem received_append_pending {s s' : State} (h : Consistent s) {as : List Action}
    {es : List Effect} (hrun : run step s as = some (es, s')) : Consistent s' ∧
      received es ++ s'.mailbox.pending = s.mailbox.pending ++ accepted es := by
  obtain ⟨pending, haccept, hlast⟩ := simulates.accept_trace ⟨h, rfl⟩ as
  obtain ⟨hcons, rfl⟩ := hlast es s' hrun
  rw [trace_of_run hrun] at haccept
  exact ⟨hcons, accept_fifo haccept⟩

@[simp] theorem accepted_nil : accepted [] = [] := rfl

theorem accepted_cons (e : Effect) (es : List Effect) :
    accepted (e :: es) = e.events.filterMap Event.acceptedMessage ++ accepted es := by
  rw [accepted, List.flatMap_cons, List.filterMap_append]
  rfl

theorem received_cons (e : Effect) (es : List Effect) :
    received (e :: es) = e.events.filterMap Event.takenMessage ++ received es := by
  rw [received, List.flatMap_cons, List.filterMap_append]
  rfl

theorem received_append (es fs : List Effect) :
    received (es ++ fs) = received es ++ received fs := by
  rw [received, List.flatMap_append, List.filterMap_append]
  rfl

/-- Every character taken is printed on a line of its own, and nothing else is. -/
theorem stdout_eq (es : List Effect) : stdout es = (received es).flatMap echo := by
  induction es with
  | nil => rfl
  | cons e es ih =>
    rw [received_cons, List.flatMap_append, ← ih, stdout, List.flatMap_cons]
    cases e <;> simp [Effect.output, Effect.events, Event.takenMessage, stdout]

/-- Left alone, the main thread prints what is on the way and waits for more. -/
theorem drain {s : State} (h : Consistent s) (hready : s.queueReady = true) {n : ℕ}
    (hn : turns s.mailbox ≤ n) : ∃ es, run step s (List.replicate n .main) = some (es, idle) ∧
      received es = s.mailbox.pending ∧ accepted es = [] := by
  induction n generalizing s with
  | zero =>
    have hblocked : s.mailbox.receiver = .blocked := by
      unfold turns at hn
      split at hn
      · omega
      · assumption
      · rename_i m hm
        rw [Mailbox.pending_of_handed hm, List.length_cons] at hn
        omega
    refine ⟨[], ?_, ?_, rfl⟩
    · rw [h.eq_idle hready hblocked]
      rfl
    · rw [Mailbox.pending_of_blocked h.orderly hblocked]
      rfl
  | succ n ih =>
    obtain ⟨hcons, hready', haccept, hnone, hturns⟩ := mainThread_spec h hready
    obtain ⟨es, hrun, hreceived, haccepted⟩ := ih hcons hready' (by omega)
    refine ⟨(mainThread s).1 :: es, ?_, ?_, ?_⟩
    · exact run_cons rfl hrun
    · have hfifo := accept_fifo haccept
      rw [hnone, List.append_nil] at hfifo
      rw [received_cons, hreceived, hfifo]
    · rw [accepted_cons, hnone, haccepted, List.append_nil]

def Action.character : Action → Option UInt8
  | .uart data => some data
  | .main => none

/-- A character is accepted in the interrupt that brings it. -/
theorem step_accepted {s s' : State} {a : Action} {e : Effect} (h : Consistent s)
    (hstep : step s a = some (e, s')) : Consistent s' ∧
      (e.events.filterMap Event.acceptedMessage).Sublist (Action.character a).toList := by
  obtain ⟨-, -, hcons, -⟩ := simulates s _ a e s' ⟨h, rfl⟩ hstep
  refine ⟨hcons, ?_⟩
  cases a with
  | uart data =>
    obtain ⟨rfl, -⟩ := Prod.mk.inj (Option.some.inj hstep)
    split_ifs
    · exact List.Sublist.refl _
    · exact List.nil_sublist _
  | main =>
    have hturn : mainThread s = (e, s') := Option.some.inj hstep
    cases hready : s.queueReady with
    | true =>
      obtain ⟨-, -, -, hnone, -⟩ := mainThread_spec h hready
      rw [hturn] at hnone
      rw [hnone]
      exact List.nil_sublist _
    | false =>
      rw [(mainThread_unready h hready).2] at hturn
      obtain ⟨rfl, -⟩ := Prod.mk.inj hturn
      exact List.nil_sublist _

/-- The accepted characters have come, in this order. -/
theorem accepted_sublist {s s' : State} (h : Consistent s) {as : List Action} {es : List Effect}
    (hrun : run step s as = some (es, s')) :
    (accepted es).Sublist (as.filterMap Action.character) := by
  have hsublist := run_sublist (f := fun _ => []) (g := fun a => (Action.character a).toList)
    (p := fun e => e.events.filterMap Event.acceptedMessage)
    (fun _ _ _ _ hs hstep => ?_) h hrun
  · rw [accepted, List.filterMap_flatMap, List.filterMap_eq_flatMap_toList]
    simpa using hsublist
  · rw [List.append_nil, List.nil_append]
    exact step_accepted hs hstep

/-- Whatever has come so far, what is printed are the accepted characters in order but for
at most nine, and twenty turns without an interrupt print these as well. The next character
is accepted exactly where the main thread waits or its queue has room. -/
theorem echoes_accepted (as : List Action) : ∃ es s, run step initial as = some (es, s) ∧
    (accepted es).Sublist (as.filterMap Action.character) ∧
    (∀ data, (uartCb s data).1 = .accepted data ↔ s.mailbox.receiver = .blocked ∨
      s.queueReady = true ∧ s.mailbox.queue.length < MSG_QUEUE_SIZE) ∧
    received es ++ s.mailbox.pending = accepted es ∧
    s.mailbox.pending.length ≤ MSG_QUEUE_SIZE + 1 ∧
    ∀ n, 20 ≤ n → ∃ fs, run step s (List.replicate n .main) = some (fs, idle) ∧
      stdout (es ++ fs) = (accepted es).flatMap echo := by
  obtain ⟨es, s, hrun⟩ := exists_run_step initial as
  obtain ⟨hcons, hpending⟩ := received_append_pending consistent_initial hrun
  refine ⟨es, s, hrun, accepted_sublist consistent_initial hrun, uartCb_accepted_iff hcons,
    hpending, hcons.pending_length_le, fun n hn => ?_⟩
  have hlen := hcons.pending_length_le
  rw [MSG_QUEUE_SIZE] at hlen
  cases hready : s.queueReady with
  | true =>
    have hturns : turns s.mailbox ≤ 19 := by
      unfold turns
      split <;> omega
    obtain ⟨fs, hfs, hreceived, -⟩ := drain (n := n) hcons hready (by omega)
    refine ⟨fs, hfs, ?_⟩
    rw [stdout_eq, received_append, hreceived, hpending]
    rfl
  | false =>
    obtain ⟨rfl, hturn⟩ := mainThread_unready hcons hready
    obtain ⟨m, rfl⟩ : ∃ m, n = m + 1 := ⟨n - 1, by omega⟩
    obtain ⟨fs, hfs, hreceived, -⟩ := drain (n := m) consistent_ready rfl
      (show 2 * 0 + 1 ≤ m by omega)
    refine ⟨.quiet :: fs, ?_, ?_⟩
    · exact run_cons (congrArg some hturn) hfs
    · rw [stdout_eq, received_append, received_cons, hreceived]
      exact congrArg _ hpending

/-! ## Bursts -/

/-- While the main thread does not wait, the queue takes what it has room for. -/
theorem run_burst (ready : Bool) {b : Mailbox UInt8} (h : b.receiver ≠ .blocked)
    (data : Bytes) : ∃ es, run step ⟨ready, b⟩ (data.map .uart) =
      some (es, ⟨ready, { b with queue := b.queue ++ data.take (b.capacity - b.queue.length) }⟩) ∧
      received es = [] ∧ accepted es = data.take (b.capacity - b.queue.length) := by
  induction data generalizing b with
  | nil => exact ⟨[], by simp [run], rfl, by simp⟩
  | cons c data ih =>
    by_cases hroom : b.queue.length < b.capacity
    · obtain ⟨es, hrun, hreceived, haccepted⟩ := ih (b := { b with queue := b.queue ++ [c] }) h
      obtain ⟨k, hk⟩ : ∃ k, b.capacity - b.queue.length = k + 1 :=
        ⟨b.capacity - b.queue.length - 1, by omega⟩
      have hk' : b.capacity - (b.queue.length + 1) = k := by omega
      simp only [List.length_append, List.length_singleton, hk', List.append_assoc,
        List.singleton_append] at hrun haccepted
      refine ⟨.accepted c :: es, ?_, by rw [received_cons, hreceived]; rfl, ?_⟩
      · rw [List.map_cons, run, step, uartCb, Mailbox.post_of_room h hroom]
        simp only [if_true, Option.bind_some, hrun, Option.map_some, hk, List.take_succ_cons]
      · rw [accepted_cons, haccepted, hk, List.take_succ_cons]
        rfl
    · obtain ⟨es, hrun, hreceived, haccepted⟩ := ih (b := b) h
      have hzero : b.capacity - b.queue.length = 0 := by omega
      rw [hzero, List.take_zero] at hrun haccepted
      refine ⟨.dropped c :: es, ?_, by rw [received_cons, hreceived]; rfl, ?_⟩
      · rw [List.map_cons, run, step, uartCb, Mailbox.post_of_full h hroom]
        simp only [Bool.false_eq_true, if_false, Option.bind_some, hrun, Option.map_some, hzero,
          List.take_zero]
      · rw [accepted_cons, haccepted, hzero, List.take_zero]
        rfl

theorem consistent_idle : Consistent idle where
  orderly := ⟨Nat.zero_le _, fun _ => ⟨rfl, rfl⟩, fun he => absurd rfl he⟩
  waiting := rfl
  ready _ := rfl
  unready he := by cases he

/-- The first character of a burst is handed to the main thread that waits, and only then
the queue fills. -/
theorem run_burst_waiting (data : Bytes) : ∃ es s, run step idle (data.map .uart) = some (es, s) ∧
    s.queueReady = true ∧ s.mailbox.receiver ≠ .busy ∧ received es = [] ∧
    accepted es = data.take (MSG_QUEUE_SIZE + 1) := by
  cases data with
  | nil => exact ⟨[], idle, rfl, rfl, (fun he => by cases he), rfl, rfl⟩
  | cons c data =>
    obtain ⟨es, hrun, hreceived, haccepted⟩ := run_burst true
      (b := ⟨MSG_QUEUE_SIZE, [], [], .handed c⟩) (fun he => by cases he) data
    have hfirst : step idle (.uart c) =
        some (.accepted c, ⟨true, ⟨MSG_QUEUE_SIZE, [], [], .handed c⟩⟩) := rfl
    refine ⟨.accepted c :: es, _, run_cons hfirst hrun, rfl, (fun he => by cases he), ?_, ?_⟩
    · rw [received_cons, hreceived]
      rfl
    · rw [accepted_cons, haccepted, List.take_succ_cons]
      rfl

/-- Of a burst that comes while the main thread waits, the first nine characters are
printed, and the main thread waits again. -/
theorem run_burst_idle (data : Bytes) (n : ℕ) : ∃ es, run step idle
    (data.map .uart ++ List.replicate (n + 18) .main) = some (es, idle) ∧
      received es = data.take (MSG_QUEUE_SIZE + 1) := by
  obtain ⟨es, s, hburst, hready, hbusy, hreceived, haccepted⟩ := run_burst_waiting data
  obtain ⟨hcons, hpending⟩ := received_append_pending consistent_idle hburst
  rw [hreceived, haccepted] at hpending
  have hlen := hcons.pending_length_le
  rw [MSG_QUEUE_SIZE] at hlen
  have hturns : turns s.mailbox ≤ 18 := by
    unfold turns
    split
    · contradiction
    · exact Nat.zero_le _
    · omega
  obtain ⟨fs, hdrain, hprinted, -⟩ := drain (n := n + 18) hcons hready (by omega)
  refine ⟨es ++ fs, run_append hburst hdrain, ?_⟩
  rw [received_append, hreceived, hprinted]
  exact hpending

/-- Bursts with eighteen turns and more between them are printed up to their ninth
character, one after the other. -/
theorem echoes_bursts (bursts : List (Bytes × ℕ)) : ∃ es, run step idle
    (bursts.flatMap fun b => b.1.map .uart ++ List.replicate (b.2 + 18) .main) = some (es, idle) ∧
      stdout es = bursts.flatMap fun b => (b.1.take (MSG_QUEUE_SIZE + 1)).flatMap echo := by
  induction bursts with
  | nil => exact ⟨[], rfl, rfl⟩
  | cons b bursts ih =>
    obtain ⟨es, hrun, hreceived⟩ := run_burst_idle b.1 b.2
    obtain ⟨fs, hrest, hrest'⟩ := ih
    refine ⟨es ++ fs, ?_, ?_⟩
    · rw [List.flatMap_cons]
      exact run_append hrun hrest
    · rw [stdout, List.flatMap_append, ← stdout, ← stdout, hrest', stdout_eq, hreceived,
        List.flatMap_cons]

end IotLabTraining.UartEcho
