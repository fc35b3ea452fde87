import IotLabTraining.UdpServers

/-!
# The UDP exchange over a network

The clients of `udp-sock/client` and the server of `udp-sock/server`, with the bodies of the
notebook. A client sends its message and then waits for one reply, and the server sends
back what it receives. On their way datagrams are lost, doubled and overtaken by others.
-/
namespace IotLabTraining.UdpExchange
open Buffers Runs UdpServers
variable {ι : Type*}

/-- `CLIENT_MESSAGE`, of which `sizeof` bytes are sent. -/
def CLIENT_MESSAGE : Bytes := ascii "Hello Server" ++ [0]

/-- Where a client stands in its loop. -/
inductive ClientAt where
  | send
  | receive
  /-- Sending has failed, and `main` has returned. -/
  | ended
  deriving DecidableEq

/-- A datagram on its way, and the client that it comes from or goes to. -/
abbrev Packet (ι : Type*) := ι × Bytes

/-- A packet that is taken is counted no more. -/
theorem countP_eraseIdx (q : Packet ι → Bool) {l : List (Packet ι)} {k : ℕ} {p : Packet ι}
    (h : l[k]? = some p) :
    l.countP q = (l.eraseIdx k).countP q + if q p then 1 else 0 := by
  obtain ⟨hk, rfl⟩ := List.getElem?_eq_some_iff.mp h
  rw [← (List.getElem_cons_eraseIdx_perm hk).countP_eq, List.countP_cons]

theorem countP_eraseIdx_le (q : Packet ι → Bool) (l : List (Packet ι)) (k : ℕ) :
    (l.eraseIdx k).countP q ≤ l.countP q :=
  (List.eraseIdx_sublist l k).countP_le

structure State (ι : Type*) where
  serverBuf : Buffer
  client : ι → ClientAt
  clientBuf : ι → Buffer
  requests : List (Packet ι)
  replies : List (Packet ι)

def initial : State ι where
  serverBuf := fun _ => 0
  client := fun _ => .send
  clientBuf := fun _ => fun _ => 0
  requests := []
  replies := []

/-- Nothing but the message is on its way. -/
structure Hello (s : State ι) : Prop where
  requests : ∀ p ∈ s.requests, p.2 = CLIENT_MESSAGE
  replies : ∀ p ∈ s.replies, p.2 = CLIENT_MESSAGE

theorem hello_initial : Hello (initial : State ι) where
  requests p h := by cases h
  replies p h := by cases h

/-- What `sock_udp_recv` of a client returns: the packet with this number, or an error. -/
inductive Reception where
  | packet (k : ℕ)
  | timedOut
  | error

inductive Action (ι : Type*) where
  /-- The client sends; `sent` is whether that succeeds. -/
  | send (i : ι) (sent : Bool)
  | receive (i : ι) (r : Reception)
  /-- The server receives the request with this number; `sent` is whether it can reply. -/
  | serve (k : ℕ) (sent : Bool)
  | serverError
  | loseRequest (k : ℕ)
  | loseReply (k : ℕ)
  | doubleRequest (k : ℕ)
  | doubleReply (k : ℕ)

inductive Effect (ι : Type*) where
  | quiet
  | sent (i : ι)
  | doubled (i : ι)
  | served (out : Bytes)
  | answered (i : ι) (out : Bytes)
  | client (i : ι) (out : Bytes)

variable [DecidableEq ι]

/-- The client up to `sock_udp_recv`. -/
def clientSend (s : State ι) (i : ι) (sent : Bool) : Effect ι × State ι :=
  if s.client i = .send then
    if sent then
      (.sent i, { s with client := Function.update s.client i .receive,
                         requests := s.requests ++ [(i, CLIENT_MESSAGE)] })
    else
      (.client i (ascii "Error sending message\n"),
        { s with client := Function.update s.client i .ended })
  else (.quiet, s)

/-- The characters of a reply, between quotation marks. -/
def replyText (buf : Buffer) (res : ℕ) : Bytes :=
  ascii "Reply received: \"" ++ window buf 0 res ++ ascii "\"\n"

/-- The client behind `sock_udp_recv`, and back at the start of its loop. -/
def clientReceive (s : State ι) (i : ι) (r : Reception) : Effect ι × State ι :=
  if s.client i = .receive then
    let next := { s with client := Function.update s.client i .send }
    match r with
    | .timedOut => (.client i (ascii "Timed out\n"), next)
    | .error => (.client i (ascii "Error receiving message\n"), next)
    | .packet k =>
      match s.replies[k]? with
      | none => (.quiet, s)
      | some p =>
        if p.1 = i then
          let buf := store (s.clientBuf i) 0 p.2
          (.answered i (replyText buf p.2.length),
            { next with clientBuf := Function.update s.clientBuf i buf,
                        replies := s.replies.eraseIdx k })
        else (.quiet, s)
  else (.quiet, s)

/-- One turn of the server with the request that it receives. -/
def serve (s : State ι) (k : ℕ) (sent : Bool) : Option (Effect ι × State ι) :=
  match s.requests[k]? with
  | none => some (.quiet, s)
  | some p =>
    (udpSockServer sent s.serverBuf (.datagram p.2)).map fun r =>
      (.served r.1.printed,
        { s with serverBuf := r.2, requests := s.requests.eraseIdx k,
                 replies := s.replies ++ (r.1.reply.map (p.1, ·)).toList })

def double (l : List (Packet ι)) (k : ℕ) : Effect ι × List (Packet ι) :=
  match l[k]? with
  | none => (.quiet, l)
  | some p => (.doubled p.1, l ++ [p])

def step : Step (State ι) (Action ι) (Effect ι) := fun s a =>
  match a with
  | .send i sent => some (clientSend s i sent)
  | .receive i r => some (clientReceive s i r)
  | .serve k sent => serve s k sent
  | .serverError =>
    (udpSockServer false s.serverBuf .error).map fun r =>
      (.served r.1.printed, { s with serverBuf := r.2 })
  | .loseRequest k => some (.quiet, { s with requests := s.requests.eraseIdx k })
  | .loseReply k => some (.quiet, { s with replies := s.replies.eraseIdx k })
  | .doubleRequest k =>
    let r := double s.requests k
    some (r.1, { s with requests := r.2 })
  | .doubleReply k =>
    let r := double s.replies k
    some (r.1, { s with replies := r.2 })

/-! ## What goes on its way -/

/-- The packets of a client on their way, in both directions. -/
def onTheWay (s : State ι) (i : ι) : ℕ :=
  s.requests.countP (·.1 = i) + s.replies.countP (·.1 = i)

def Effect.sends (i : ι) : Effect ι → ℕ
  | .sent j => if j = i then 1 else 0
  | _ => 0

def Effect.doublings (i : ι) : Effect ι → ℕ
  | .doubled j => if j = i then 1 else 0
  | _ => 0

def Effect.answers (i : ι) : Effect ι → ℕ
  | .answered j _ => if j = i then 1 else 0
  | _ => 0

/-- What the programs may print. -/
def Effect.Expected : Effect ι → Prop
  | .served out => out = ascii "Message received: Hello Server\n" ∨
      out = ascii "Message received: Hello Server\nError sending reply\n" ∨ out = []
  | .answered _ out => out = ascii "Reply received: \"Hello Server\x00\"\n"
  | .client _ out => out = ascii "Error sending message\n" ∨ out = ascii "Timed out\n" ∨
      out = ascii "Error receiving message\n"
  | _ => True

/-- A turn keeps to the texts, and answers no more than is on the way. -/
structure Fair (s : State ι) (e : Effect ι) (s' : State ι) : Prop where
  hello : Hello s'
  expected : e.Expected
  answers_le (i : ι) : e.answers i + onTheWay s' i ≤ onTheWay s i + e.sends i + e.doublings i

theorem fair_quiet {s : State ι} (h : Hello s) : Fair s .quiet s where
  hello := h
  expected := trivial
  answers_le i := by simp [Effect.answers, Effect.sends, Effect.doublings]

theorem clientSend_fair {s : State ι} (h : Hello s) (i : ι) (sent : Bool) :
    Fair s (clientSend s i sent).1 (clientSend s i sent).2 := by
  unfold clientSend
  split_ifs
  · refine ⟨⟨?_, h.replies⟩, trivial, fun j => ?_⟩
    · simp only [List.mem_append, List.mem_singleton]
      intro p hp
      rcases hp with hp | rfl
      · exact h.requests p hp
      · rfl
    · simp only [onTheWay, Effect.sends, Effect.answers, List.countP_append, List.countP_singleton,
        decide_eq_true_eq]
      omega
  · refine ⟨⟨h.requests, h.replies⟩, Or.inl rfl, fun j => ?_⟩
    simp [onTheWay, Effect.answers, Effect.sends, Effect.doublings]
  · exact fair_quiet h

/-- A reply is printed with its terminator. -/
theorem replyText_message (buf : Buffer) :
    replyText (store buf 0 CLIENT_MESSAGE) CLIENT_MESSAGE.length =
      ascii "Reply received: \"Hello Server\x00\"\n" := by
  rw [replyText, window_store_length]
  rfl

theorem clientReceive_fair {s : State ι} (h : Hello s) (i : ι) (r : Reception) :
    Fair s (clientReceive s i r).1 (clientReceive s i r).2 := by
  unfold clientReceive
  split_ifs
  · cases r with
    | timedOut =>
      refine ⟨⟨h.requests, h.replies⟩, Or.inr (Or.inl rfl), fun j => ?_⟩
      simp [onTheWay, Effect.answers, Effect.sends, Effect.doublings]
    | error =>
      refine ⟨⟨h.requests, h.replies⟩, Or.inr (Or.inr rfl), fun j => ?_⟩
      simp [onTheWay, Effect.answers, Effect.sends, Effect.doublings]
    | packet k =>
      simp only
      split
      · exact fair_quiet h
      · rename_i p hp
        split_ifs with hi
        · have hmessage := h.replies p (List.mem_of_getElem? hp)
          refine ⟨⟨h.requests, fun q hq => ?_⟩, ?_, fun j => ?_⟩
          · exact h.replies q (List.mem_of_mem_eraseIdx hq)
          · rw [hmessage]
            exact replyText_message _
          · have hcount := countP_eraseIdx (fun q => decide (q.1 = j)) hp
            rw [hi] at hcount
            simp only [onTheWay, Effect.answers, hcount, decide_eq_true_eq]
            omega
        · exact fair_quiet h
  · exact fair_quiet h

/-- The message ends with its terminator, so that the server prints it from any buffer. -/
theorem udpSockServer_message (sent : Bool) (buf : Buffer) :
    udpSockServer sent buf (.datagram CLIENT_MESSAGE) = some
      (if sent then (⟨ascii "Message received: Hello Server\n", some CLIENT_MESSAGE⟩,
          store buf 0 CLIENT_MESSAGE)
        else (⟨ascii "Message received: Hello Server\nError sending reply\n", none⟩,
          store buf 0 CLIENT_MESSAGE)) := by
  let d : Datagram := ⟨CLIENT_MESSAGE, by decide, by decide⟩
  have hterminated : Terminated buf d := Or.inl (by decide)
  have hprinted : printBuffer (store buf 0 CLIENT_MESSAGE) = some (announced d) :=
    (printBuffer_received_iff buf d).mpr hterminated
  have htext : announced d = ascii "Message received: Hello Server\n" := by decide
  rw [udpSockServer, hprinted, Option.map_some, htext, window_store_length]
  cases sent <;> rfl

theorem serve_fair {s : State ι} (h : Hello s) (k : ℕ) (sent : Bool) :
    ∃ e s', serve s k sent = some (e, s') ∧ Fair s e s' := by
  unfold serve
  split
  · exact ⟨.quiet, s, rfl, fair_quiet h⟩
  · rename_i p hp
    have hmessage := h.requests p (List.mem_of_getElem? hp)
    have hcount (j : ι) := countP_eraseIdx (fun q => decide (q.1 = j)) hp
    have hrequests : ∀ q ∈ s.requests.eraseIdx k, q.2 = CLIENT_MESSAGE :=
      fun q hq => h.requests q (List.mem_of_mem_eraseIdx hq)
    rw [hmessage, udpSockServer_message, Option.map_some]
    refine ⟨_, _, rfl, ?_⟩
    cases sent with
    | false =>
      refine ⟨⟨hrequests, ?_⟩, Or.inr (Or.inl rfl), fun j => ?_⟩
      · simpa using h.replies
      · have hj := hcount j
        simp only [onTheWay, Effect.answers, Effect.sends, Effect.doublings, Option.map_none,
          Option.toList_none, List.append_nil, Bool.false_eq_true, if_false]
        omega
    | true =>
      refine ⟨⟨hrequests, ?_⟩, Or.inl rfl, fun j => ?_⟩
      · simp only [if_true, Option.map_some, Option.toList_some, List.mem_append,
          List.mem_singleton]
        intro q hq
        rcases hq with hq | rfl
        · exact h.replies q hq
        · rfl
      · have hj := hcount j
        simp only [decide_eq_true_eq] at hj
        simp only [onTheWay, Effect.answers, Effect.sends, Effect.doublings, Option.map_some,
          Option.toList_some, List.countP_append, List.countP_singleton, decide_eq_true_eq,
          if_true]
        omega

/-- A doubled packet is one more on the way. -/
theorem double_spec {l : List (Packet ι)} (h : ∀ p ∈ l, p.2 = CLIENT_MESSAGE) (k : ℕ) :
    (∀ p ∈ (double l k).2, p.2 = CLIENT_MESSAGE) ∧ (double l k).1.Expected ∧
      ∀ j, (double l k).1.answers j = 0 ∧ (double l k).2.countP (·.1 = j) ≤
        l.countP (·.1 = j) + (double l k).1.doublings j := by
  unfold double
  split
  · exact ⟨h, trivial, fun j => ⟨rfl, Nat.le_add_right _ _⟩⟩
  · rename_i p hp
    refine ⟨?_, trivial, fun j => ⟨rfl, ?_⟩⟩
    · simp only [List.mem_append, List.mem_singleton]
      intro q hq
      rcases hq with hq | rfl
      · exact h q hq
      · exact h q (List.mem_of_getElem? hp)
    · simp only [List.countP_append, List.countP_singleton, decide_eq_true_eq, Effect.doublings]
      omega

theorem step_fair {s : State ι} (h : Hello s) (a : Action ι) :
    ∃ e s', step s a = some (e, s') ∧ Fair s e s' := by
  cases a with
  | send i sent => exact ⟨_, _, rfl, clientSend_fair h i sent⟩
  | receive i r => exact ⟨_, _, rfl, clientReceive_fair h i r⟩
  | serve k sent => exact serve_fair h k sent
  | serverError =>
    refine ⟨_, _, rfl, ⟨h.requests, h.replies⟩, Or.inr (Or.inr rfl), fun j => ?_⟩
    simp [onTheWay, Effect.answers, Effect.sends, Effect.doublings]
  | loseRequest k =>
    refine ⟨_, _, rfl, ⟨fun q hq => h.requests q (List.mem_of_mem_eraseIdx hq), h.replies⟩,
      trivial, fun j => ?_⟩
    have hle := countP_eraseIdx_le (fun q : Packet ι => decide (q.1 = j)) s.requests k
    simp only [onTheWay, Effect.answers]
    omega
  | loseReply k =>
    refine ⟨_, _, rfl, ⟨h.requests, fun q hq => h.replies q (List.mem_of_mem_eraseIdx hq)⟩,
      trivial, fun j => ?_⟩
    have hle := countP_eraseIdx_le (fun q : Packet ι => decide (q.1 = j)) s.replies k
    simp only [onTheWay, Effect.answers]
    omega
  | doubleRequest k =>
    obtain ⟨hmessage, hexpected, hcount⟩ := double_spec h.requests k
    refine ⟨_, _, rfl, ⟨hmessage, h.replies⟩, hexpected, fun j => ?_⟩
    obtain ⟨hanswers, hle⟩ := hcount j
    simp only [onTheWay] at hle ⊢
    omega
  | doubleReply k =>
    obtain ⟨hmessage, hexpected, hcount⟩ := double_spec h.replies k
    refine ⟨_, _, rfl, ⟨h.requests, hmessage⟩, hexpected, fun j => ?_⟩
    obtain ⟨hanswers, hle⟩ := hcount j
    simp only [onTheWay] at hle ⊢
    omega

/-- How often an effect is counted in a run. -/
def total (count : Effect ι → ℕ) (es : List (Effect ι)) : ℕ := (es.map count).sum

theorem run_fair {s : State ι} (h : Hello s) (as : List (Action ι)) :
    ∃ es s', run step s as = some (es, s') ∧ (∀ e ∈ es, e.Expected) ∧
      ∀ i, total (Effect.answers i) es + onTheWay s' i ≤
        onTheWay s i + total (Effect.sends i) es + total (Effect.doublings i) es := by
  induction as generalizing s with
  | nil => exact ⟨[], s, rfl, (by simp), fun i => by simp [total]⟩
  | cons a as ih =>
    obtain ⟨e, s₁, hstep, hfair⟩ := step_fair h a
    obtain ⟨es, s', hrun, hexpected, hcount⟩ := ih hfair.hello
    refine ⟨e :: es, s', run_cons hstep hrun,
      List.forall_mem_cons.mpr ⟨hfair.expected, hexpected⟩, fun i => ?_⟩
    have hfirst := hfair.answers_le i
    have hrest := hcount i
    simp only [total, List.map_cons, List.sum_cons] at hrest ⊢
    omega

/-- Whatever the network does, the programs print the message and the texts for errors and
nothing else, and a client prints at most one reply for each message that it sent or that
was doubled for it. -/
theorem exchange (as : List (Action ι)) : ∃ es s, run step initial as = some (es, s) ∧
    (∀ e ∈ es, e.Expected) ∧ ∀ i, total (Effect.answers i) es ≤
      total (Effect.sends i) es + total (Effect.doublings i) es := by
  obtain ⟨es, s, hrun, hexpected, hcount⟩ := run_fair hello_initial as
  refine ⟨es, s, hrun, hexpected, fun i => ?_⟩
  have hi := hcount i
  have hnone : onTheWay (initial : State ι) i = 0 := rfl
  omega

end IotLabTraining.UdpExchange
