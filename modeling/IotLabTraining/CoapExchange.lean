import IotLabTraining.CoapServer

/-!
# The exercise between two nodes

One node runs the `coap` command and its response handler, the other one the server. On
their way requests and responses are lost, doubled and overtaken by others. In a quiet
network a command waits for its response, and the two nodes show what one register does.
-/
namespace IotLabTraining.CoapExchange
open GcoapClient (CoapType CoapReq MemoState Output Remote Response Riot respHandler)
open GcoapMessage (Message Nanocoap Grammar front requestMessage)
open ValueResource (Method Request number valueHandler valueHandler_update)
open Runs CoapServer

def COAP_FORMAT_NONE : ℕ := 65535

/-- The response as the handler of the client reads it; no block option is in it. -/
def received (m : Message) (reply : Reply) (id : UInt16) : Response where
  id := id
  type := if m.type = .con then .ack else .non
  codeClass := reply.codeClass
  codeDetail := reply.codeDetail
  block2 := none
  contentType := reply.format.getD COAP_FORMAT_NONE
  payload := reply.payload

/-- A reply on its way back, to the copy of a request that the server had after so many
others. -/
structure Answer where
  copy : ℕ
  request : Message
  reply : Reply

/-- The value, the number of copies that the server has had, and what is on its way. -/
structure State where
  value : UInt16
  copies : ℕ
  requests : List Message
  replies : List Answer

def initial : State := ⟨0, 0, [], []⟩

inductive Action where
  /-- A line at the client's shell; `sent` is whether gcoap sends what the command hands over. -/
  | command (name : Bytes) (args : List Bytes) (sent : Bool)
  /-- The server has the request with this number; `temp` is what the sensor gives. -/
  | serve (k : ℕ) (temp : Int16)
  /-- The handler is called for the reply with this number; the path it keeps may be any. -/
  | respond (k : ℕ) (lastReqPath : Bytes) (id : UInt16)
  | loseRequest (k : ℕ)
  | loseReply (k : ℕ)
  | doubleRequest (k : ℕ)
  | doubleReply (k : ℕ)

inductive Effect where
  | quiet
  | typed (m : Message)
  | served (copy : ℕ) (m : Message) (temp : Int16) (out : List Output)
  | printed (copy : ℕ) (m : Message) (out : List Output) (next : Option (CoapReq × Remote))

/-- The copy of a request that the server has in this turn. -/
def Effect.servedCopy : Effect → Option ℕ
  | .served copy _ _ _ => some copy
  | _ => none

variable (node : Node) (n : Nanocoap) (riot : Riot) (remote : Remote)

def command (s : State) (name : Bytes) (args : List Bytes) (sent : Bool) :
    Option (Effect × State) :=
  (GcoapMessage.gcoapCliCmd n (name :: args)).map fun outcome =>
    match outcome with
    | .handed m _ _ _ =>
      if sent then (.typed m, { s with requests := s.requests ++ [m] }) else (.quiet, s)
    | _ => (.quiet, s)

def serveNext (s : State) (k : ℕ) (temp : Int16) : Option (Effect × State) :=
  match s.requests[k]? with
  | none => some (.quiet, s)
  | some m =>
    (serve node s.value (m, temp)).map fun r =>
      (.served s.copies m temp r.1.1,
        { value := r.2, copies := s.copies + 1, requests := s.requests.eraseIdx k
          replies := s.replies ++ [⟨s.copies, m, r.1.2⟩] })

def respond (s : State) (k : ℕ) (lastReqPath : Bytes) (id : UInt16) : Effect × State :=
  match s.replies[k]? with
  | none => (.quiet, s)
  | some ⟨copy, m, reply⟩ =>
    let r := respHandler riot lastReqPath .resp (received m reply id) remote id
    (.printed copy m r.1 r.2, { s with replies := s.replies.eraseIdx k })

def step : Step State Action Effect := fun s a =>
  match a with
  | .command name args sent => command n s name args sent
  | .serve k temp => serveNext node s k temp
  | .respond k lastReqPath id => some (respond riot remote s k lastReqPath id)
  | .loseRequest k => some (.quiet, { s with requests := s.requests.eraseIdx k })
  | .loseReply k => some (.quiet, { s with replies := s.replies.eraseIdx k })
  | .doubleRequest k => some (.quiet, { s with requests := s.requests ++ s.requests[k]?.toList })
  | .doubleReply k => some (.quiet, { s with replies := s.replies ++ s.replies[k]?.toList })

/-! ## What the client prints -/

/-- The characters of an output. -/
def characters : Output → Bytes
  | .text t => t
  | .payload p => p
  | .hexDump p => p

def screen (out : List Output) : Bytes := out.flatMap characters

/-- A response without a payload. -/
def codeScreen (result : String) (codeClass codeDetail : ℕ) : Bytes :=
  ascii "gcoap: response " ++ ascii result ++ ascii ", code " ++ decimal codeClass ++ ascii "." ++
    GcoapClient.decimal02 codeDetail ++ ascii ", empty payload\n"

/-- A response 2.05 with a text. -/
def contentScreen (text : Bytes) : Bytes :=
  if text.length = 0 then codeScreen "Success" 2 5
  else ascii "gcoap: response Success, code 2.05, " ++ decimal text.length ++ ascii " bytes\n" ++
    text ++ [10]

/-- A text that the server has room for or not. -/
def textScreen (text : Bytes) : Bytes :=
  if text.length ≤ node.room then contentScreen text else codeScreen "Error" 5 0

/-- A value that is stored or refused. -/
def updateScreen (data : Bytes) : Bytes :=
  if data.length ≤ 5 then codeScreen "Success" 2 4 else codeScreen "Error" 4 0

/-- A value that the server has held is the first one or comes from a request. -/
def Held (past : List Effect) (v : UInt16) : Prop :=
  v = 0 ∨ ∃ m, .typed m ∈ past ∧ Stores node m v

/-- The temperature was read for this copy of the request. -/
def Sensed (past : List Effect) (copy : ℕ) (m : Message) (temp : Int16) : Prop :=
  ∃ out, .served copy m temp out ∈ past

/-- The screen for a copy of a request that the table has an entry for. -/
def Screen (past : List Effect) (copy : ℕ) (m : Message) (text : Bytes) : Handler → Method → Prop
  | .riotBoard, _ => text = textScreen node node.board
  | .riotCpu, _ => text = textScreen node node.cpu
  | .temperature, _ =>
    ∃ temp, Sensed past copy m temp ∧ text = textScreen node (temperatureText temp)
  | .value, .get => ∃ v, Held node past v ∧ text = contentScreen (decimal v.toNat)
  | .value, _ => text = updateScreen m.payload

variable {node n riot remote}

/-- Without a block option nothing more is asked for, whatever path is kept. -/
theorem respHandler_received (m : Message) (reply : Reply) (lastReqPath : Bytes) (id : UInt16) :
    respHandler riot lastReqPath .resp (received m reply id) remote id =
      (GcoapClient.responseLine (received m reply id) ::
        GcoapClient.payloadOutput (received m reply id), none) := by
  simp [respHandler, GcoapClient.askNext, GcoapClient.blockStart, received]

theorem screen_gcoapResponse (m : Message) (codeClass codeDetail : ℕ) (lastReqPath : Bytes)
    (id : UInt16) : screen (respHandler riot lastReqPath .resp
        (received m (gcoapResponse codeClass codeDetail) id) remote id).1 =
      codeScreen (if codeClass = 2 then "Success" else "Error") codeClass codeDetail := by
  rw [respHandler_received]
  simp [screen, characters, GcoapClient.responseLine, GcoapClient.payloadOutput, received,
    gcoapResponse, codeScreen, GcoapClient.COAP_CLASS_SUCCESS]
  rfl

theorem screen_content (m : Message) {text : Bytes} (h : 0 ∉ text) (lastReqPath : Bytes)
    (id : UInt16) : screen (respHandler riot lastReqPath .resp
        (received m (.content text) id) remote id).1 = contentScreen text := by
  rw [respHandler_received]
  unfold contentScreen
  split_ifs with hempty
  · simp [screen, characters, GcoapClient.responseLine, GcoapClient.payloadOutput, received,
      Reply.content, codeScreen, GcoapClient.COAP_CLASS_SUCCESS, hempty]
  · have hcode : ascii "gcoap: response " ++ ascii "Success" ++ ascii ", code " ++ decimal 2 ++
        ascii "." ++ GcoapClient.decimal02 5 ++ ascii ", " =
        ascii "gcoap: response Success, code 2.05, " := by decide
    rw [← hcode]
    simp [screen, characters, GcoapClient.responseLine, GcoapClient.payloadOutput, received,
      Reply.content, GcoapClient.COAP_CLASS_SUCCESS, hempty, GcoapClient.printsPayload,
      cString_of_nul_free h]

theorem screen_textHandler (m : Message) (tooSmall : String) {text : Bytes} (h : 0 ∉ text)
    (lastReqPath : Bytes) (id : UInt16) : screen (respHandler riot lastReqPath .resp
        (received m (textHandler tooSmall text node.room).2 id) remote id).1 =
      textScreen node text := by
  unfold textHandler textScreen
  split_ifs
  · exact screen_content m h lastReqPath id
  · exact screen_gcoapResponse m 5 0 lastReqPath id

theorem screen_update (m : Message) (data : Bytes) (lastReqPath : Bytes) (id : UInt16) :
    screen (respHandler riot lastReqPath .resp (received m
      (if data.length ≤ 5 then gcoapResponse 2 4 else gcoapResponse 4 0) id) remote id).1 =
      updateScreen data := by
  unfold updateScreen
  split_ifs
  · exact screen_gcoapResponse m 2 4 lastReqPath id
  · exact screen_gcoapResponse m 4 0 lastReqPath id

/-! ## Any network -/

theorem Held.mono {past past' : List Effect} (h : past ⊆ past') {v : UInt16}
    (hv : Held node past v) : Held node past' v := by
  rcases hv with rfl | ⟨m, hm, hstores⟩
  · exact Or.inl rfl
  · exact Or.inr ⟨m, h hm, hstores⟩

theorem Screen.mono {past past' : List Effect} (h : past ⊆ past') {copy : ℕ} {m : Message}
    {text : Bytes} {handler : Handler} {method : Method}
    (hscreen : Screen node past copy m text handler method) :
    Screen node past' copy m text handler method := by
  cases handler with
  | riotBoard => exact hscreen
  | riotCpu => exact hscreen
  | temperature =>
    obtain ⟨temp, ⟨out, hserved⟩, htext⟩ := hscreen
    exact ⟨temp, ⟨out, h hserved⟩, htext⟩
  | value =>
    cases method with
    | get =>
      obtain ⟨v, hv, htext⟩ := hscreen
      exact ⟨v, hv.mono h, htext⟩
    | put => exact hscreen
    | post => exact hscreen

variable (node n riot remote) in
/-- A reply makes the screen that its request asks for. -/
def Answered (past : List Effect) (copy : ℕ) (m : Message) (reply : Reply) : Prop :=
  ∀ r method, lookup node m = some (r, method) → ∀ lastReqPath id,
    Screen node past copy m (screen (respHandler riot lastReqPath .resp (received m reply id)
      remote id).1) r.handler method

theorem screen_of_text {past : List Effect} {copy : ℕ} {m : Message} {temp : Int16}
    (hsensed : Sensed past copy m temp) {handler : Handler} {text : Bytes}
    (h : resourceText node temp handler = some text) (method : Method) :
    Screen node past copy m (textScreen node text) handler method := by
  cases handler with
  | temperature => exact ⟨temp, hsensed, congrArg _ (Option.some.inj h).symm⟩
  | riotBoard => exact congrArg _ (Option.some.inj h).symm
  | riotCpu => exact congrArg _ (Option.some.inj h).symm
  | value => cases h

/-- What the server answers shows a value that it held, or a temperature that it read. -/
theorem answered_serve (h : 5 ≤ node.room) {past : List Effect} {value value' : UInt16}
    (hvalue : Held node past value) {copy : ℕ} {m : Message} {temp : Int16}
    (hsensed : Sensed past copy m temp) {out : List Output} {reply : Reply}
    (hserve : serve node value (m, temp) = some ((out, reply), value')) :
    Answered node riot remote past copy m reply := by
  intro r method hlookup lastReqPath id
  cases htext : resourceText node temp r.handler with
  | some text =>
    obtain ⟨tooSmall, htexts, hfree⟩ := serve_text hlookup htext value
    obtain ⟨hreply, -⟩ := Prod.mk.inj (Option.some.inj (htexts.symm.trans hserve))
    obtain rfl : (textHandler tooSmall text node.room).2 = reply := congrArg Prod.snd hreply
    rw [screen_textHandler m tooSmall hfree]
    exact screen_of_text hsensed htext method
  | none =>
    have hhandler := handler_of_resourceText htext
    rw [serve_value h hlookup hhandler] at hserve
    obtain ⟨hreply, -⟩ := Prod.mk.inj (Option.some.inj hserve)
    obtain ⟨-, rfl⟩ := Prod.mk.inj hreply
    rw [hhandler]
    by_cases hmethod : method = .get
    · subst hmethod
      exact ⟨value, hvalue, screen_content m (zero_notMem_decimal _) lastReqPath id⟩
    · rw [ofValue_update value hmethod, screen_update]
      cases method with
      | get => exact absurd rfl hmethod
      | put => rfl
      | post => rfl

variable (node n riot remote) in
/-- The requests on their way were typed, the replies make the screens asked for, and the
next copy has a number of its own. -/
structure Consistent (past : List Effect) (s : State) : Prop where
  value : Held node past s.value
  fresh : ∀ e ∈ past, ∀ copy, e.servedCopy = some copy → copy < s.copies
  requests : ∀ m ∈ s.requests, .typed m ∈ past
  replies : ∀ a ∈ s.replies, .typed a.request ∈ past ∧
    Answered node riot remote past a.copy a.request a.reply

theorem Answered.mono {past past' : List Effect} (h : past ⊆ past') {copy : ℕ} {m : Message}
    {reply : Reply} (hanswered : Answered node riot remote past copy m reply) :
    Answered node riot remote past' copy m reply :=
  fun r method hlookup lastReqPath id => (hanswered r method hlookup lastReqPath id).mono h

theorem Consistent.append {past : List Effect} {s : State}
    (hs : Consistent node riot remote past s) {e : Effect} (he : e.servedCopy = none) :
    Consistent node riot remote (past ++ [e]) s where
  value := hs.value.mono (List.subset_append_left _ _)
  fresh e' he' copy hcopy := by
    rcases List.mem_append.mp he' with hpast | hlast
    · exact hs.fresh e' hpast copy hcopy
    · rw [List.mem_singleton.mp hlast, he] at hcopy
      cases hcopy
  requests m hm := List.mem_append_left _ (hs.requests m hm)
  replies a ha :=
    ⟨List.mem_append_left _ (hs.replies a ha).1,
      (hs.replies a ha).2.mono (List.subset_append_left _ _)⟩

variable (node n) in
/-- What is seen of a turn: a message handed over is one that was typed, a copy is served
once, and a response is printed for a copy of a typed message, makes its screen and sends
nothing. -/
def Seen (past : List Effect) : Effect → Prop
  | .typed m => ∃ args r len, Grammar args r ∧ requestMessage n r = some (m, len)
  | .served copy m _ _ => .typed m ∈ past ∧ ∀ e ∈ past, e.servedCopy ≠ some copy
  | .printed copy m out next => next = none ∧ .typed m ∈ past ∧
      ∀ r method, lookup node m = some (r, method) →
        Screen node past copy m (screen out) r.handler method
  | .quiet => True

theorem command_seen {past : List Effect} {s : State} (hs : Consistent node riot remote past s)
    (name : Bytes) (args : List Bytes) (sent : Bool) : ∃ e s',
      command n s name args sent = some (e, s') ∧ Seen node n past e ∧
        Consistent node riot remote (past ++ [e]) s' := by
  have hquiet : Consistent node riot remote (past ++ [.quiet]) s := hs.append rfl
  obtain ⟨outcome, houtcome⟩ : ∃ outcome,
      GcoapMessage.gcoapCliCmd n (name :: args) = some outcome :=
    ⟨_, GcoapMessage.gcoapCliCmd_eq n name args⟩
  unfold command
  rw [houtcome, Option.map_some]
  cases outcome with
  | usage _ => exact ⟨_, _, rfl, trivial, hquiet⟩
  | info => exact ⟨_, _, rfl, trivial, hquiet⟩
  | requestUsage _ => exact ⟨_, _, rfl, trivial, hquiet⟩
  | tooSmall => exact ⟨_, _, rfl, trivial, hquiet⟩
  | handed m len addr port =>
    cases sent with
    | false => exact ⟨_, _, rfl, trivial, hquiet⟩
    | true =>
      obtain ⟨r, hr, hmessage, -⟩ :=
        (GcoapMessage.handed_iff_request name args m len addr port).mp houtcome
      have htyped := hs.append (e := .typed m) rfl
      refine ⟨_, _, rfl, ⟨args, r, len, hr, hmessage⟩, htyped.value, htyped.fresh,
        fun q hq => ?_, htyped.replies⟩
      rcases List.mem_append.mp hq with hq | hq
      · exact htyped.requests q hq
      · rw [List.mem_singleton.mp hq]
        exact List.mem_append_right _ (List.mem_singleton_self _)

theorem serveNext_seen (h : 5 ≤ node.room) {past : List Effect} {s : State}
    (hs : Consistent node riot remote past s) (k : ℕ) (temp : Int16) : ∃ e s',
      serveNext node s k temp = some (e, s') ∧ Seen node n past e ∧
        Consistent node riot remote (past ++ [e]) s' := by
  unfold serveNext
  split
  · exact ⟨_, _, rfl, trivial, hs.append rfl⟩
  · rename_i m hm
    have htyped : .typed m ∈ past := hs.requests m (List.mem_of_getElem? hm)
    obtain ⟨out, reply, value', hserve, hvalue⟩ := serve_spec h s.value m temp
    rw [hserve, Option.map_some]
    have hleft : past ⊆ past ++ [.served s.copies m temp out] := List.subset_append_left _ _
    have hserved : .served s.copies m temp out ∈ past ++ [.served s.copies m temp out] :=
      List.mem_append_right _ (List.mem_singleton_self _)
    refine ⟨_, _, rfl, ⟨htyped, fun e he hcopy => ?_⟩, ?_, fun e he copy hcopy => ?_,
      fun q hq => ?_, fun a ha => ?_⟩
    · exact absurd (hs.fresh e he _ hcopy) (Nat.lt_irrefl _)
    · rcases hvalue with rfl | hstores
      · exact hs.value.mono hleft
      · exact Or.inr ⟨m, hleft htyped, hstores⟩
    · rcases List.mem_append.mp he with hpast | hlast
      · exact Nat.lt_succ_of_lt (hs.fresh e hpast copy hcopy)
      · rw [List.mem_singleton.mp hlast] at hcopy
        obtain rfl := Option.some.inj hcopy
        exact Nat.lt_succ_self _
    · exact hleft (hs.requests q (List.mem_of_mem_eraseIdx hq))
    · rcases List.mem_append.mp ha with ha | ha
      · exact ⟨hleft (hs.replies a ha).1, (hs.replies a ha).2.mono hleft⟩
      · rw [List.mem_singleton.mp ha]
        exact ⟨hleft htyped, answered_serve h (hs.value.mono hleft) ⟨out, hserved⟩ hserve⟩

theorem respond_seen {past : List Effect} {s : State} (hs : Consistent node riot remote past s)
    (k : ℕ) (lastReqPath : Bytes) (id : UInt16) :
    Seen node n past (respond riot remote s k lastReqPath id).1 ∧
      Consistent node riot remote (past ++ [(respond riot remote s k lastReqPath id).1])
        (respond riot remote s k lastReqPath id).2 := by
  unfold respond
  split
  · exact ⟨trivial, hs.append rfl⟩
  · rename_i copy m reply hm
    obtain ⟨htyped, hanswered⟩ := hs.replies _ (List.mem_of_getElem? hm)
    have hpast (e : Effect) (he : e.servedCopy = none) :
        Consistent node riot remote (past ++ [e]) s := hs.append he
    refine ⟨⟨?_, htyped, fun r method hlookup => hanswered r method hlookup lastReqPath id⟩,
      (hpast _ rfl).value, (hpast _ rfl).fresh, (hpast _ rfl).requests, fun a ha => ?_⟩
    · rw [respHandler_received]
    · exact (hpast _ rfl).replies a (List.mem_of_mem_eraseIdx ha)

theorem step_seen (h : 5 ≤ node.room) {past : List Effect} {s : State}
    (hs : Consistent node riot remote past s) (a : Action) : ∃ e s',
      step node n riot remote s a = some (e, s') ∧ Seen node n past e ∧
        Consistent node riot remote (past ++ [e]) s' := by
  have hquiet : Consistent node riot remote (past ++ [.quiet]) s := hs.append rfl
  cases a with
  | command name args sent => exact command_seen hs name args sent
  | serve k temp => exact serveNext_seen h hs k temp
  | respond k lastReqPath id => exact ⟨_, _, rfl, respond_seen hs k lastReqPath id⟩
  | loseRequest k =>
    refine ⟨_, _, rfl, trivial, hquiet.value, hquiet.fresh, fun m hm => ?_, hquiet.replies⟩
    exact hquiet.requests m (List.mem_of_mem_eraseIdx hm)
  | loseReply k =>
    refine ⟨_, _, rfl, trivial, hquiet.value, hquiet.fresh, hquiet.requests, fun p hp => ?_⟩
    exact hquiet.replies p (List.mem_of_mem_eraseIdx hp)
  | doubleRequest k =>
    refine ⟨_, _, rfl, trivial, hquiet.value, hquiet.fresh, fun m hm => ?_, hquiet.replies⟩
    rcases List.mem_append.mp hm with hm | hm
    · exact hquiet.requests m hm
    · exact hquiet.requests m (List.mem_of_getElem? (Option.mem_toList.mp hm))
  | doubleReply k =>
    refine ⟨_, _, rfl, trivial, hquiet.value, hquiet.fresh, hquiet.requests, fun p hp => ?_⟩
    rcases List.mem_append.mp hp with hp | hp
    · exact hquiet.replies p hp
    · exact hquiet.replies p (List.mem_of_getElem? (Option.mem_toList.mp hp))

theorem run_seen (h : 5 ≤ node.room) {past : List Effect} {s : State}
    (hs : Consistent node riot remote past s) (as : List Action) : ∃ es s',
      run (step node n riot remote) s as = some (es, s') ∧
        ∀ k e, es[k]? = some e → Seen node n (past ++ es.take k) e := by
  induction as generalizing past s with
  | nil => exact ⟨[], s, rfl, by simp⟩
  | cons a as ih =>
    obtain ⟨e, s₁, hstep, hseen, hs₁⟩ := step_seen (n := n) h hs a
    obtain ⟨es, s', hrun, hrest⟩ := ih hs₁
    refine ⟨e :: es, s', run_cons hstep hrun, fun k e' he' => ?_⟩
    cases k with
    | zero =>
      obtain rfl := Option.some.inj he'
      simpa using hseen
    | succ k =>
      rw [List.take_succ_cons, List.append_cons]
      exact hrest k e' he'

/-- Whatever the network does, a response is printed for a request that was typed before, it
asks for nothing more, and it shows the name of the board or the CPU, the temperature that
the server has read for the copy answered, a value that it has held, or what became of an
update. -/
theorem responses_answer (node : Node) (n : Nanocoap) (riot : Riot) (remote : Remote)
    (h : 5 ≤ node.room) (as : List Action) : ∃ es s,
      run (step node n riot remote) initial as = some (es, s) ∧
        ∀ k e, es[k]? = some e → Seen node n (es.take k) e := by
  have hinitial : Consistent node riot remote [] initial :=
    ⟨Or.inl rfl, by simp, by simp [initial], by simp [initial]⟩
  exact run_seen h hinitial as

/-- The node of the notebook; what gcoap refuses is 4.04. -/
def exampleNode : Node where
  board := ascii "iotlab-m3"
  cpu := ascii "stm32f1"
  room := 114
  more := 0
  uriPath segments := segments.flatMap (47 :: ·)
  refuse _ := gcoapResponse 4 4
  board_nul_free := by decide
  cpu_nul_free := by decide

def exampleRemote : Remote := ⟨6, GcoapClient.exampleAddr, 5683⟩

def getValue : List Bytes := [ascii "get", ascii "2001:db8::1", ascii "5683", ascii "/value"]

def putValue : List Bytes :=
  [ascii "put", ascii "2001:db8::1", ascii "5683", ascii "/value", ascii "8888"]

/-- A PUT that is doubled, and a GET between the two. -/
def doubledPut : List Action :=
  [.command (ascii "coap") putValue true, .command (ascii "coap") getValue true,
    .doubleRequest 0, .serve 0 0, .serve 0 0, .serve 0 0, .respond 1 [] 0]

theorem doubledPut_answered : ∃ es s,
    run (step exampleNode GcoapMessage.exampleNanocoap GcoapClient.exampleRiot exampleRemote)
        initial doubledPut = some (es, s) ∧
      ∀ k e, es[k]? = some e →
        Seen exampleNode GcoapMessage.exampleNanocoap (es.take k) e :=
  responses_answer exampleNode GcoapMessage.exampleNanocoap GcoapClient.exampleRiot exampleRemote
    (by decide) doubledPut

/-! ## A quiet network -/

variable (node n) in
/-- A line at the shell that asks for an entry of the table, with a packet that has room for
all of it. -/
structure Question where
  name : Bytes
  args : List Bytes
  request : GcoapClient.Request
  entry : Resource
  method : Method
  temp : Int16
  lastReqPath : Bytes
  id : UInt16
  grammar : Grammar args request
  entry_mem : entry ∈ resources
  path_eq : request.path = entry.path
  method_eq : methodOf request.code = some method
  method_mem : method ∈ entry.methods
  fits : GcoapMessage.Fits n request
  segments_length : (n.segments request.path).length ≤ n.noptsMax
  uriPath_eq : node.uriPath (n.segments request.path) = request.path

namespace Question

/-- The command, and then its request and its response without anything in between. -/
def actions (q : Question node n) : List Action :=
  [.command q.name q.args true, .serve 0 q.temp, .respond 0 q.lastReqPath q.id]

def Updates (q : Question node n) : Prop := q.entry.handler = .value ∧ q.method ≠ .get

/-- The data of an update is the numeral of a number from 0 to 65535 exactly when it has at
most five bytes. -/
def FitsLength (q : Question node n) : Prop :=
  q.Updates → ((number q.request.data).isSome = true ↔ q.request.data.length ≤ 5)

/-- The message of a question finds its entry. -/
theorem exists_message (q : Question node n) : ∃ m len,
    requestMessage n q.request = some (m, len) ∧ lookup node m = some (q.entry, q.method) ∧
      m.payload = q.request.data := by
  obtain ⟨hmade, hwhole⟩ := (GcoapMessage.request_iff q.request).mpr
    (Or.inl ⟨q.fits, q.segments_length⟩)
  obtain ⟨⟨m, len⟩, hmessage⟩ := Option.ne_none_iff_exists'.mp (hmade.mpr q.fits)
  obtain ⟨hcode, -, hsegments, hpayload⟩ := GcoapMessage.requestMessage_fields hmessage
  have hpath : node.uriPath m.segments = q.entry.path := by
    rw [hsegments, hwhole (hmade.mpr q.fits), q.uriPath_eq, q.path_eq]
  have hunique : ∀ e ∈ resources, ∀ e' ∈ resources, e.path = e'.path → e = e' := by decide
  have hfind : (resources.find? fun r => r.path = node.uriPath m.segments ∧
      q.method ∈ r.methods) = some q.entry := by
    obtain ⟨e, he⟩ : ∃ e, (resources.find? fun r => r.path = node.uriPath m.segments ∧
        q.method ∈ r.methods) = some e := by
      rw [← Option.isSome_iff_exists, List.find?_isSome]
      exact ⟨q.entry, q.entry_mem, decide_eq_true ⟨hpath.symm, q.method_mem⟩⟩
    have hsame := List.find?_some he
    rw [decide_eq_true_eq] at hsame
    rw [he, hunique e (List.mem_of_find?_eq_some he) q.entry q.entry_mem (hsame.1.trans hpath)]
  refine ⟨m, len, hmessage, ?_, hpayload⟩
  rw [lookup, hcode, q.method_eq, Option.bind_some, hfind, Option.map_some]

end Question

/-- The screens of a run. -/
def screens (es : List Effect) : List Bytes :=
  es.filterMap fun e =>
    match e with
    | .printed _ _ out _ => some (screen out)
    | _ => none

variable (node n) in
/-- What a register of 16 bits shows, and the other resources beside it. -/
def register : Step ℕ (Question node n) Bytes := fun v q =>
  match resourceText node q.temp q.entry.handler with
  | some text => some (textScreen node text, v)
  | none =>
    if q.method = .get then some (contentScreen (decimal v), v)
    else
      match number q.request.data with
      | some k => some (codeScreen "Success" 2 4, k)
      | none => some (codeScreen "Error" 4 0, v)

/-- A question in a quiet network makes one screen, which the reply of the server makes. -/
theorem run_question (q : Question node n) {value value' : UInt16} {m : Message} {len : ℤ}
    (hmessage : requestMessage n q.request = some (m, len)) {p : List Output × Reply}
    (hserve : serve node value (m, q.temp) = some (p, value')) (copies : ℕ) : ∃ es,
      run (step node n riot remote) ⟨value, copies, [], []⟩ q.actions =
          some (es, ⟨value', copies + 1, [], []⟩) ∧
        screens es = [screen (respHandler riot q.lastReqPath .resp (received m p.2 q.id)
          remote q.id).1] := by
  have hhanded := (GcoapMessage.handed_iff_request q.name q.args m len q.request.addr
    q.request.port).mpr ⟨q.request, q.grammar, hmessage, rfl, rfl⟩
  have hcommand : step node n riot remote ⟨value, copies, [], []⟩ (.command q.name q.args true) =
      some (.typed m, ⟨value, copies, [m], []⟩) := by
    rw [step, command, hhanded]
    rfl
  have hserved : step node n riot remote ⟨value, copies, [m], []⟩ (.serve 0 q.temp) =
      some (.served copies m q.temp p.1, ⟨value', copies + 1, [], [⟨copies, m, p.2⟩]⟩) := by
    simp only [step, serveNext, List.getElem?_cons_zero, hserve, Option.map_some,
      List.eraseIdx_cons_zero, List.nil_append]
  exact ⟨_, run_cons hcommand (run_cons hserved (run_cons rfl rfl)), rfl⟩

/-- The two screens of an update. -/
theorem codeScreens_ne : codeScreen "Success" 2 4 ≠ codeScreen "Error" 4 0 := by decide

theorem updateScreen_eq_iff (data : Bytes) :
    updateScreen data = codeScreen "Success" 2 4 ↔ data.length ≤ 5 := by
  unfold updateScreen
  split_ifs with h
  · exact iff_of_true rfl h
  · exact iff_of_false codeScreens_ne.symm h

/-- What a question shows, and what the value is behind it. -/
def shows (node : Node) (value : UInt16) (q : Question node n) : Bytes × UInt16 :=
  match resourceText node q.temp q.entry.handler with
  | some text => (textScreen node text, value)
  | none =>
    if q.method = .get then (contentScreen (decimal value.toNat), value)
    else (updateScreen q.request.data,
      (ValueResource.update node.more value q.request.data).2)

variable (riot remote) in
theorem run_question_shows (h : 5 ≤ node.room) (q : Question node n) (value : UInt16)
    (copies : ℕ) : ∃ es,
    run (step node n riot remote) ⟨value, copies, [], []⟩ q.actions =
        some (es, ⟨(shows node value q).2, copies + 1, [], []⟩) ∧
      screens es = [(shows node value q).1] := by
  obtain ⟨m, len, hmessage, hlookup, hpayload⟩ := q.exists_message
  unfold shows
  cases htext : resourceText node q.temp q.entry.handler with
  | some text =>
    obtain ⟨tooSmall, hserve, hfree⟩ := serve_text hlookup htext value
    obtain ⟨es, hrun, hscreens⟩ := run_question q hmessage hserve copies
    rw [screen_textHandler m tooSmall hfree] at hscreens
    exact ⟨es, hrun, hscreens⟩
  | none =>
    have hserve := serve_value h hlookup (handler_of_resourceText htext) value q.temp
    obtain ⟨es, hrun, hscreens⟩ := run_question q hmessage hserve copies
    refine ⟨es, ?_⟩
    rw [hrun, hscreens, hpayload]
    by_cases hmethod : q.method = .get
    · rw [if_pos hmethod, hmethod, ofValue_get, screen_content m (zero_notMem_decimal _)]
      exact ⟨rfl, rfl⟩
    · rw [if_neg hmethod, ofValue_update value hmethod, screen_update,
        valueHandler_update node.more ⟨value, []⟩ hmethod]
      exact ⟨rfl, rfl⟩

/-- A register shows the same for a question that fits, and goes on with the same value. -/
theorem register_of_fits (value : UInt16) {q : Question node n} (h : q.FitsLength) :
    register node n value.toNat q =
      some ((shows node value q).1, (shows node value q).2.toNat) := by
  unfold register shows
  cases htext : resourceText node q.temp q.entry.handler with
  | some text => rfl
  | none =>
    by_cases hmethod : q.method = .get
    · simp only [if_pos hmethod]
    · have hlength := h ⟨handler_of_resourceText htext, hmethod⟩
      simp only [if_neg hmethod]
      cases hnumber : number q.request.data with
      | some k =>
        have hlen := hlength.mp (by rw [hnumber]; rfl)
        rw [(updateScreen_eq_iff _).mpr hlen, ValueResource.update, if_pos hlen]
        dsimp only
        rw [ValueResource.strtoul_of_number node.more hnumber]
      | none =>
        have hlen : ¬ q.request.data.length ≤ 5 := by
          rw [← hlength, hnumber]
          exact Bool.false_ne_true
        rw [updateScreen, if_neg hlen, ValueResource.update, if_neg hlen]

/-- It shows the same for no other question. -/
theorem fits_of_register {value : UInt16} {q : Question node n} {v : ℕ}
    (h : register node n value.toNat q = some ((shows node value q).1, v)) : q.FitsLength := by
  rintro ⟨hhandler, hmethod⟩
  unfold register shows at h
  rw [hhandler] at h
  simp only [resourceText, if_neg hmethod] at h
  rw [← updateScreen_eq_iff]
  cases hnumber : number q.request.data with
  | some k =>
    rw [hnumber] at h
    exact iff_of_true rfl (Prod.mk.inj (Option.some.inj h)).1.symm
  | none =>
    rw [hnumber] at h
    rw [← (Prod.mk.inj (Option.some.inj h)).1]
    exact iff_of_false Bool.false_ne_true codeScreens_ne.symm

theorem screens_append (es es' : List Effect) : screens (es ++ es') = screens es ++ screens es' :=
  List.filterMap_append

theorem run_session (h : 5 ≤ node.room) (value : UInt16) (copies : ℕ)
    (qs : List (Question node n)) : ∃ es s,
    run (step node n riot remote) ⟨value, copies, [], []⟩ (qs.flatMap Question.actions) =
        some (es, s) ∧
      ((∃ v, run (register node n) value.toNat qs = some (screens es, v)) ↔
        ∀ q ∈ qs, q.FitsLength) := by
  induction qs generalizing value copies with
  | nil => exact ⟨[], _, rfl, iff_of_true ⟨value.toNat, rfl⟩ (by simp)⟩
  | cons q qs ih =>
    obtain ⟨es, hrun, hscreens⟩ := run_question_shows riot remote h q value copies
    obtain ⟨es', s, hrun', hiff⟩ := ih (shows node value q).2 (copies + 1)
    refine ⟨es ++ es', s, run_append hrun hrun', ?_⟩
    rw [screens_append, hscreens, List.singleton_append, List.forall_mem_cons, ← hiff]
    constructor
    · rintro ⟨v, hall⟩
      obtain ⟨⟨text, v₁⟩, hfirst, hrest⟩ := Option.bind_eq_some_iff.mp hall
      obtain ⟨⟨texts, v₂⟩, hlater, he⟩ := Option.map_eq_some_iff.mp hrest
      obtain ⟨hlist, rfl⟩ := Prod.mk.inj he
      obtain ⟨rfl, rfl⟩ := List.cons.inj hlist
      have hfits := fits_of_register hfirst
      rw [register_of_fits value hfits] at hfirst
      obtain ⟨-, rfl⟩ := Prod.mk.inj (Option.some.inj hfirst)
      exact ⟨hfits, v₂, hlater⟩
    · rintro ⟨hfits, v, hrest⟩
      exact ⟨v, run_cons (register_of_fits value hfits) hrest⟩

/-- In a quiet network the screen of the client shows what a register of 16 bits and the
other resources show, exactly when the numerals of the numbers from 0 to 65535 are the
data of at most five bytes. -/
theorem session_shows_register_iff (node : Node) (n : Nanocoap) (riot : Riot) (remote : Remote)
    (h : 5 ≤ node.room) (qs : List (Question node n)) : ∃ es s,
      run (step node n riot remote) initial (qs.flatMap Question.actions) = some (es, s) ∧
        ((∃ v, run (register node n) 0 qs = some (screens es, v)) ↔ ∀ q ∈ qs, q.FitsLength) :=
  run_session h 0 0 qs

def getQuestion : Question exampleNode GcoapMessage.exampleNanocoap where
  name := ascii "coap"
  args := getValue
  request := ⟨1, false, ascii "2001:db8::1", ascii "5683", ascii "/value", []⟩
  entry := ⟨ascii "/value", [.get, .put, .post], .value⟩
  method := .get
  temp := 0
  lastReqPath := []
  id := 0
  grammar := Grammar.get false _ _ _ fun _ => by decide
  entry_mem := by decide
  path_eq := rfl
  method_eq := rfl
  method_mem := by decide
  fits := by unfold GcoapMessage.Fits; decide
  segments_length := by decide
  uriPath_eq := by decide

def putQuestion : Question exampleNode GcoapMessage.exampleNanocoap where
  name := ascii "coap"
  args := putValue
  request := ⟨3, false, ascii "2001:db8::1", ascii "5683", ascii "/value", ascii "8888"⟩
  entry := ⟨ascii "/value", [.get, .put, .post], .value⟩
  method := .put
  temp := 0
  lastReqPath := []
  id := 0
  grammar := Grammar.put false _ _ _ _ fun _ => by decide
  entry_mem := by decide
  path_eq := rfl
  method_eq := rfl
  method_mem := by decide
  fits := by unfold GcoapMessage.Fits; decide
  segments_length := by decide
  uriPath_eq := by decide

/-- The last lines of the notebook. -/
theorem session_shows_8888 : ∃ es s,
    run (step exampleNode GcoapMessage.exampleNanocoap GcoapClient.exampleRiot exampleRemote)
        initial ([putQuestion, getQuestion].flatMap Question.actions) = some (es, s) ∧
      screens es = [ascii "gcoap: response Success, code 2.04, empty payload\n",
        ascii "gcoap: response Success, code 2.05, 4 bytes\n8888\n"] := by
  obtain ⟨es, s, hrun, hiff⟩ := session_shows_register_iff exampleNode GcoapMessage.exampleNanocoap
    GcoapClient.exampleRiot exampleRemote (by decide) [putQuestion, getQuestion]
  have hput : putQuestion.FitsLength := fun _ => by decide
  have hget : getQuestion.FitsLength := fun h => absurd rfl h.2
  obtain ⟨v, hregister⟩ := hiff.mpr (by simp [hput, hget])
  have hshown : run (register exampleNode GcoapMessage.exampleNanocoap) 0
      [putQuestion, getQuestion] =
        some ([ascii "gcoap: response Success, code 2.04, empty payload\n",
          ascii "gcoap: response Success, code 2.05, 4 bytes\n8888\n"], 8888) := by decide
  obtain ⟨htexts, -⟩ := Prod.mk.inj (Option.some.inj (hregister.symm.trans hshown))
  exact ⟨es, s, hrun, htexts⟩

end IotLabTraining.CoapExchange
