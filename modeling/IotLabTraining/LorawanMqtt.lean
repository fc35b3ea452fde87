import IotLabTraining.Base64
import IotLabTraining.Buffers
import IotLabTraining.JsonText
import IotLabTraining.Runs
import IotLabTraining.UplinkCodec

/-!
# A LoRaWAN node behind its network server

The exercise with MQTT, behind a join. A round of the loop in `main` reads the sensor and sends
a message; a subscriber sees it in base64, and the application has it decoded by the formatter
of the sensor exercise. The thread `_recv` prints what the node hears behind an uplink. The
network server with its broker is a parameter, of which the documented behaviour is assumed. A
sensor that fails leaves a reading at zero.
-/
namespace IotLabTraining.LorawanMqtt
open Base64 Buffers Json Runs UplinkCodec

/-! ## The node -/

/-- One round of the loop: what the sensor reads, whether the message is transmitted and a
gateway receives it, and whether the node hears what is transmitted in the receive window. -/
structure Round where
  humidity : Option UInt16
  temperature : Option Int16
  transmitted : Bool
  received : Bool
  heard : Bool

/-- The message of the round. -/
def Round.text (r : Round) : Bytes := message (r.humidity.getD 0) (r.temperature.getD 0)

/-- What `main` prints in the round. -/
def Round.output (r : Round) : Bytes :=
  (if r.humidity.isNone then ascii "Cannot read humidity!\n" else []) ++
    (if r.temperature.isNone then ascii "Cannot read temperature!\n" else []) ++
    ascii "Sending message '" ++ r.text ++ ascii "'\n" ++
    (if r.transmitted then ascii "Message '" ++ r.text ++ ascii "' sent\n"
      else ascii "Cannot send message '" ++ r.text ++ ascii "'\n")

structure Downlink where
  port : ℕ
  payload : Bytes

/-- `loramac.rx_data`. -/
structure RxData where
  payload : Buffer
  payloadLen : ℕ
  port : ℕ

variable (LORAWAN_APP_DATA_MAX_SIZE : ℕ)

/-- The text that `_recv` prints, and the line with it; `none` when the terminator goes behind
the array. -/
def recv (rxData : RxData) (d : Downlink) : Option (Bytes × Bytes × RxData) :=
  let rx : RxData := ⟨store rxData.payload 0 d.payload, d.payload.length, d.port⟩
  if rx.payloadLen < LORAWAN_APP_DATA_MAX_SIZE then
    let ended := store rx.payload rx.payloadLen [0]
    let text := cString (window ended 0 LORAWAN_APP_DATA_MAX_SIZE)
    some (text, ascii "Data received: " ++ text ++ ascii ", port: " ++ decimal rx.port ++ [10],
      { rx with payload := ended })
  else none

/-! ## The network server -/

/-- The server with its broker: it takes the documents that are published, and for the message
of an uplink it gives the payload that the subscriber sees and what it transmits in the receive
window. -/
structure NetworkServer where
  Server : Type
  started : Server
  publish : Server → Bytes → Server
  uplink : Server → Bytes → Bytes × Option Downlink × Server

/-- The document that is published, with a payload in base64. -/
def downlinkDocument (port : ℕ) (payload : Bytes) : Bytes :=
  ascii "\x7b\"downlinks\":[\x7b\"f_port\": " ++ decimal port ++ ascii ",\"frm_payload\":\"" ++
    payload ++ ascii "\",\"priority\": \"NORMAL\"\x7d]\x7d"

/-- A JSON document of the documented form. -/
def downlinkValue (port : ℕ) (payload : Bytes) : Value :=
  .obj [(ascii "downlinks", .arr [.obj [(ascii "f_port", .num port 0),
    (ascii "frm_payload", .str payload), (ascii "priority", .str (ascii "NORMAL"))]])]

/-- What the exercises say of the server: payloads are in base64, a published downlink goes to
the end of a queue if it is taken at all, and a receive window transmits the first item of the
queue or nothing. -/
structure Documented (n : NetworkServer) (queue : n.Server → List Downlink) : Prop where
  started : queue n.started = []
  encodes : ∀ s message, (n.uplink s message).1 = b64encode message
  queues : ∀ s document port text payload,
    parse false document = some (downlinkValue port text) → b64decode text = some payload →
      queue (n.publish s document) = queue s ++ [⟨port, payload⟩] ∨
        queue (n.publish s document) = queue s
  transmits : ∀ s message,
    (n.uplink s message).2.1.toList ++ queue (n.uplink s message).2.2 = queue s

variable (n : NetworkServer)

structure State where
  server : n.Server
  rxData : RxData

def initial : State n := ⟨n.started, ⟨fun _ => 0, 0, 0⟩⟩

inductive Action where
  | round (r : Round)
  /-- The payload is encoded by the cell and published in a document. -/
  | publish (port : ℕ) (payload : Bytes)

inductive Effect where
  /-- What is printed, the payload that the subscriber sees, and the text of a downlink. -/
  | round (output : Bytes) (uplink downlink : Option Bytes)
  | published

/-- The message reaches the server, and the node hears what is transmitted or does not. -/
def deliver (s : State n) (r : Round) : Option (Effect × State n) :=
  let up := n.uplink s.server r.text
  match if r.heard then up.2.1 else none with
  | none => some (.round r.output (some up.1) none, { s with server := up.2.2 })
  | some d =>
    (recv LORAWAN_APP_DATA_MAX_SIZE s.rxData d).map fun rx =>
      (.round (r.output ++ rx.2.1) (some up.1) (some rx.1), ⟨up.2.2, rx.2.2⟩)

def step : Step (State n) Action Effect := fun s a =>
  match a with
  | .round r =>
    if r.transmitted && r.received then deliver LORAWAN_APP_DATA_MAX_SIZE n s r
    else some (.round r.output none none, s)
  | .publish port payload =>
    some (.published,
      { s with server := n.publish s.server (downlinkDocument port (b64encode payload)) })

variable {LORAWAN_APP_DATA_MAX_SIZE : ℕ} {n}

/-! ## What goes up -/

/-- The reading that stands in the message. -/
def Round.reading (r : Round) : UInt16 × Int16 := (r.humidity.getD 0, r.temperature.getD 0)

/-- The formatter gives the humidity, and the temperature unless it is below zero. -/
def shown (reading : UInt16 × Int16) : Uplink where
  humidity := .value (reading.1.toNat / 10)
  temperature := if reading.2.toInt < 0 then .null else .value (reading.2.toInt / 10)

theorem decodeUplink_message (humidity : UInt16) (temperature : Int16) :
    decodeUplink (message humidity temperature) = shown (humidity, temperature) := by
  have hhumidity : (decodeUplink (message humidity temperature)).humidity =
      .value (humidity.toNat / 10) := by
    rw [decodeUplink, search_humidity]
    exact parseFloat_pointed humidity.toNat
  have htemperature : (decodeUplink (message humidity temperature)).temperature =
      if temperature.toInt < 0 then .null else .value (temperature.toInt / 10) := by
    split_ifs with hneg
    · exact decodeUplink_neg humidity hneg
    · obtain ⟨n, hn⟩ := Int.eq_ofNat_of_zero_le (not_lt.mp hneg)
      rw [decodeUplink, search_temperature, hn, matchAt_nonneg]
      simp [parseFloat_pointed]
  cases hdecode : decodeUplink (message humidity temperature) with
  | mk h t =>
    rw [hdecode] at hhumidity htemperature
    rw [shown, ← hhumidity, ← htemperature]

/-- What the cell and the formatter make of a payload that the subscriber sees. -/
structure Shows (r : Round) (uplink : Bytes) : Prop where
  decoded : b64decode uplink = some r.text
  formatted : decodeUplink r.text = shown r.reading

theorem shows_encode (r : Round) : Shows r (b64encode r.text) where
  decoded := b64decode_b64encode r.text
  formatted := decodeUplink_message _ _

/-- A round whose message reaches the server. -/
def Action.delivered : Action → Option Round
  | .round r => if r.transmitted && r.received then some r else none
  | _ => none

def Effect.uplink : Effect → Option Bytes
  | .round _ uplink _ => uplink
  | _ => none

/-! ## What comes down -/

/-- No character of the encoder needs an escape. -/
theorem plain_b64encode (b : Bytes) : Plain (b64encode b) := by
  have hall : ∀ v < 64, 32 ≤ sextet v ∧ sextet v ≠ 34 ∧ sextet v ≠ 92 := by decide
  have hpad : 32 ≤ pad ∧ pad ≠ 34 ∧ pad ≠ 92 := by decide
  induction b using b64encode.induct with
  | case1 => exact plain_nil
  | case2 a =>
    have ha := a.toNat_lt
    have hfirst := hall (a.toNat / 4) (by omega)
    have hsecond := hall (a.toNat % 4 * 16) (by omega)
    simp only [b64encode, plain_cons, plain_nil, and_true]
    exact ⟨hfirst, hsecond, hpad, hpad⟩
  | case3 a b =>
    have ha := a.toNat_lt
    have hb := b.toNat_lt
    have hfirst := hall (a.toNat / 4) (by omega)
    have hsecond := hall (a.toNat % 4 * 16 + b.toNat / 16) (by omega)
    have hthird := hall (b.toNat % 16 * 4) (by omega)
    simp only [b64encode, plain_cons, plain_nil, and_true]
    exact ⟨hfirst, hsecond, hthird, hpad⟩
  | case4 a b c r ih =>
    have ha := a.toNat_lt
    have hb := b.toNat_lt
    have hc := c.toNat_lt
    have hfirst := hall (a.toNat / 4) (by omega)
    have hsecond := hall (a.toNat % 4 * 16 + b.toNat / 16) (by omega)
    have hthird := hall (b.toNat % 16 * 4 + c.toNat / 64) (by omega)
    have hfourth := hall (c.toNat % 64) (by omega)
    simp only [b64encode, plain_cons]
    exact ⟨hfirst, hsecond, hthird, hfourth, ih⟩

/-- The members of an item, as printed. -/
def itemMembers (port : ℕ) (payload : Bytes) : List (Bytes × Bytes) :=
  [(ascii "f_port", 32 :: decimal port), (ascii "frm_payload", 34 :: (payload ++ [34])),
    (ascii "priority", 32 :: 34 :: (ascii "NORMAL" ++ [34]))]

def itemText (port : ℕ) (payload : Bytes) : Bytes :=
  123 :: ([44].intercalate ((itemMembers port payload).map memberText) ++ [125])

theorem downlinkDocument_eq (port : ℕ) (payload : Bytes) : downlinkDocument port payload =
    123 :: ([44].intercalate ([(ascii "downlinks", 91 :: ([44].intercalate
      [itemText port payload] ++ [93]))].map memberText) ++ [125]) := by
  simp [downlinkDocument, itemText, itemMembers, memberText, ascii, List.intercalate_cons_cons]

/-- What is published is a document of the documented form. -/
theorem parse_downlinkDocument (port : ℕ) (payload : Bytes) :
    parse false (downlinkDocument port (b64encode payload)) =
      some (downlinkValue port (b64encode payload)) := by
  have hport : Parses false (32 :: decimal port) (.num port 0) := by
    rw [← signed_natCast]
    exact parses_space (parses_signed false port)
  have hpayload := parses_str false (plain_b64encode payload)
  have hpriority : Parses false (32 :: 34 :: (ascii "NORMAL" ++ [34])) (.str (ascii "NORMAL")) :=
    parses_space (parses_str false (by decide))
  have hitem : Parses false (itemText port (b64encode payload)) _ :=
    parses_obj (parsesMember (by decide) hport) (.cons (parsesMember (by decide) hpayload)
      (.cons (parsesMember (by decide) hpriority) .nil))
  have hkey : Plain (ascii "downlinks") := by decide
  have hdocument := parses_obj (parsesMember hkey (parses_arr (.cons hitem .nil))) .nil
  rw [downlinkDocument_eq, parse_text hdocument]
  rfl

theorem cString_append_nul (p r : Bytes) : cString (p ++ 0 :: r) = cString p := by
  induction p with
  | nil => rfl
  | cons c p ih =>
    by_cases hc : c = 0
    · simp [cString, hc]
    · simpa [cString, hc] using ih

/-- The terminator has a place in the array behind a payload that does not fill it. -/
theorem recv_eq_none_iff (rxData : RxData) (d : Downlink) :
    recv LORAWAN_APP_DATA_MAX_SIZE rxData d = none ↔
      LORAWAN_APP_DATA_MAX_SIZE ≤ d.payload.length := by
  simp [recv]

/-- The payload is printed up to its first NUL. -/
theorem recv_text {rxData : RxData} {d : Downlink} {rx : Bytes × Bytes × RxData}
    (h : recv LORAWAN_APP_DATA_MAX_SIZE rxData d = some rx) : rx.1 = cString d.payload := by
  simp only [recv] at h
  split_ifs at h with hroom
  obtain rfl := Option.some.inj h
  obtain ⟨m, hm⟩ : ∃ m, LORAWAN_APP_DATA_MAX_SIZE = d.payload.length + 1 + m :=
    ⟨LORAWAN_APP_DATA_MAX_SIZE - (d.payload.length + 1), by omega⟩
  have hlength : (d.payload ++ [0]).length = d.payload.length + 1 := List.length_append
  have hended := store_store rxData.payload 0 d.payload [0]
  rw [Nat.zero_add] at hended
  dsimp only
  rw [hended, hm, window_add, ← hlength, window_store_length, List.append_assoc]
  exact cString_append_nul d.payload _

/-- The text of a payload that is published. -/
def Action.published : Action → Option Bytes
  | .publish _ payload => some (cString payload)
  | _ => none

def Effect.downlink : Effect → Option Bytes
  | .round _ _ downlink => downlink
  | _ => none

/-! ## Whole runs -/

/-- All that a round can do that reaches the server. -/
theorem deliver_cases {s s' : State n} {r : Round} {e : Effect}
    (h : deliver LORAWAN_APP_DATA_MAX_SIZE n s r = some (e, s')) :
    s'.server = (n.uplink s.server r.text).2.2 ∧ e.uplink = some (n.uplink s.server r.text).1 ∧
      (e.downlink = none ∨ ∃ d, (n.uplink s.server r.text).2.1 = some d ∧
        e.downlink = some (cString d.payload)) := by
  unfold deliver at h
  dsimp only at h
  split at h
  · obtain ⟨rfl, rfl⟩ := Prod.mk.inj (Option.some.inj h)
    exact ⟨rfl, rfl, Or.inl rfl⟩
  · rename_i d hd
    obtain ⟨rx, hrx, he⟩ := Option.map_eq_some_iff.mp h
    obtain ⟨rfl, rfl⟩ := Prod.mk.inj he
    have hdown : (n.uplink s.server r.text).2.1 = some d := by
      split_ifs at hd with hheard
      exact hd
    exact ⟨rfl, rfl, Or.inr ⟨d, hdown, congrArg some (recv_text hrx)⟩⟩

/-- The texts that are still to come. -/
def texts (queue : n.Server → List Downlink) (s : State n) : List Bytes :=
  (queue s.server).map fun d => cString d.payload

section
variable {queue : n.Server → List Downlink} (hn : Documented n queue)
include hn

theorem step_uplink {s s' : State n} {a : Action} {e : Effect}
    (h : step LORAWAN_APP_DATA_MAX_SIZE n s a = some (e, s')) :
    e.uplink = a.delivered.map fun r => b64encode r.text := by
  cases a with
  | round r =>
    rw [step] at h
    split_ifs at h with hreaches
    · have huplink := (deliver_cases h).2.1
      rw [hn.encodes] at huplink
      simp [Action.delivered, hreaches, huplink]
    · obtain ⟨rfl, -⟩ := Prod.mk.inj (Option.some.inj h)
      simp [Effect.uplink, Action.delivered, hreaches]
  | publish port payload =>
    obtain ⟨rfl, -⟩ := Prod.mk.inj (Option.some.inj h)
    rfl

theorem run_uplinks {s s' : State n} {as : List Action} {es : List Effect}
    (hrun : run (step LORAWAN_APP_DATA_MAX_SIZE n) s as = some (es, s')) :
    List.Forall₂ Shows (as.filterMap Action.delivered) (es.filterMap Effect.uplink) := by
  rw [run_filterMap (fun _ _ _ _ h => step_uplink hn h) hrun, ← List.map_filterMap,
    List.forall₂_map_right_iff]
  exact List.forall₂_same.mpr fun r _ => shows_encode r

/-- What is published goes to the end of the queue, or nowhere. -/
theorem queue_publish (s : n.Server) (port : ℕ) (payload : Bytes) :
    queue (n.publish s (downlinkDocument port (b64encode payload))) =
        queue s ++ [⟨port, payload⟩] ∨
      queue (n.publish s (downlinkDocument port (b64encode payload))) = queue s :=
  hn.queues s _ port _ payload (parse_downlinkDocument port payload) (b64decode_b64encode payload)

theorem step_downlink {s s' : State n} {a : Action} {e : Effect}
    (h : step LORAWAN_APP_DATA_MAX_SIZE n s a = some (e, s')) :
    (e.downlink.toList ++ texts queue s').Sublist (texts queue s ++ a.published.toList) := by
  cases a with
  | round r =>
    have hnone : (Action.round r).published = none := rfl
    rw [hnone, Option.toList_none, List.append_nil]
    rw [step] at h
    split_ifs at h
    · obtain ⟨hserver, -, hdown⟩ := deliver_cases h
      have hqueue := congrArg (List.map fun d => cString d.payload)
        (hn.transmits s.server r.text)
      rw [List.map_append] at hqueue
      unfold texts
      rw [hserver, ← hqueue]
      rcases hdown with hdown | ⟨d, hd, hdown⟩
      · rw [hdown]
        exact List.sublist_append_right _ _
      · rw [hdown, hd]
        exact List.Sublist.refl _
    · obtain ⟨rfl, rfl⟩ := Prod.mk.inj (Option.some.inj h)
      exact List.Sublist.refl _
  | publish port payload =>
    obtain ⟨rfl, rfl⟩ := Prod.mk.inj (Option.some.inj h)
    simp only [Effect.downlink, Option.toList_none, List.nil_append, Action.published, texts]
    rcases queue_publish hn s.server port payload with htaken | hrefused
    · rw [htaken]
      simp
    · rw [hrefused]
      exact List.sublist_append_left _ _

theorem run_downlinks {as : List Action} {es : List Effect} {s : State n}
    (hrun : run (step LORAWAN_APP_DATA_MAX_SIZE n) (initial n) as = some (es, s)) :
    (es.filterMap Effect.downlink).Sublist (as.filterMap Action.published) := by
  have hsublist := run_sublist (I := fun _ => True) (f := texts queue)
    (fun _ _ _ _ _ h => ⟨trivial, step_downlink hn h⟩) trivial hrun
  have hempty : texts queue (initial n) = [] := by
    rw [texts, initial, hn.started, List.map_nil]
  rw [hempty, List.nil_append] at hsublist
  rw [List.filterMap_eq_flatMap_toList, List.filterMap_eq_flatMap_toList]
  exact (List.sublist_append_left _ _).trans hsublist

/-- The node answers while every item of the queue leaves room for a terminator. -/
theorem exists_step {s : State n} {a : Action}
    (hs : ∀ d ∈ queue s.server, d.payload.length < LORAWAN_APP_DATA_MAX_SIZE)
    (ha : ∀ port payload, a = .publish port payload →
      payload.length < LORAWAN_APP_DATA_MAX_SIZE) :
    ∃ e s', step LORAWAN_APP_DATA_MAX_SIZE n s a = some (e, s') ∧
      ∀ d ∈ queue s'.server, d.payload.length < LORAWAN_APP_DATA_MAX_SIZE := by
  cases a with
  | round r =>
    rw [step]
    split_ifs
    · have hqueue := hn.transmits s.server r.text
      have hlater : ∀ d ∈ queue (n.uplink s.server r.text).2.2,
          d.payload.length < LORAWAN_APP_DATA_MAX_SIZE :=
        fun d hd => hs d (hqueue ▸ List.mem_append_right _ hd)
      have hanswers : (deliver LORAWAN_APP_DATA_MAX_SIZE n s r).isSome = true := by
        unfold deliver
        dsimp only
        split
        · rfl
        · rename_i d hd
          have hdown : (n.uplink s.server r.text).2.1 = some d := by
            split_ifs at hd with hheard
            exact hd
          have hroom := hs d (by rw [← hqueue, hdown]; simp)
          rw [Option.isSome_map, Option.isSome_iff_ne_none, Ne, recv_eq_none_iff]
          omega
      obtain ⟨⟨e, s'⟩, hstep⟩ := Option.isSome_iff_exists.mp hanswers
      exact ⟨e, s', hstep, (deliver_cases hstep).1 ▸ hlater⟩
    · exact ⟨_, _, rfl, hs⟩
  | publish port payload =>
    refine ⟨_, _, rfl, fun d hd => ?_⟩
    rcases queue_publish hn s.server port payload with htaken | hrefused
    · rw [htaken] at hd
      rcases List.mem_append.mp hd with hd | hd
      · exact hs d hd
      · rw [List.mem_singleton.mp hd]
        exact ha port payload rfl
    · rw [hrefused] at hd
      exact hs d hd

end

/-- A downlink comes behind an uplink only. -/
theorem downlink_behind_uplink {s s' : State n} {a : Action} {e : Effect}
    (h : step LORAWAN_APP_DATA_MAX_SIZE n s a = some (e, s')) (hd : e.downlink.isSome = true) :
    e.uplink.isSome = true := by
  cases a with
  | round r =>
    rw [step] at h
    split_ifs at h
    · rw [(deliver_cases h).2.1]
      rfl
    · obtain ⟨rfl, -⟩ := Prod.mk.inj (Option.some.inj h)
      cases hd
  | publish port payload =>
    obtain ⟨rfl, -⟩ := Prod.mk.inj (Option.some.inj h)
    cases hd

/-- Whatever is read, lost and published, with any server of the documented behaviour: every
uplink that the subscriber sees is decoded to the message of its round, with the readings but
for a temperature below zero, and the payloads that are printed are published ones up to their
first NUL, in order, none twice and at most one for each uplink. The node stays within its
array where every published payload leaves room for a terminator. -/
theorem relays_both_ways {n : NetworkServer} {queue : n.Server → List Downlink}
    (hn : Documented n queue) (LORAWAN_APP_DATA_MAX_SIZE : ℕ) (as : List Action) :
    (∀ es s, run (step LORAWAN_APP_DATA_MAX_SIZE n) (initial n) as = some (es, s) →
      List.Forall₂ Shows (as.filterMap Action.delivered) (es.filterMap Effect.uplink) ∧
      (es.filterMap Effect.downlink).Sublist (as.filterMap Action.published) ∧
      (es.filterMap Effect.downlink).length ≤ (as.filterMap Action.delivered).length) ∧
    ((∀ port payload, .publish port payload ∈ as →
        payload.length < LORAWAN_APP_DATA_MAX_SIZE) →
      ∃ es s, run (step LORAWAN_APP_DATA_MAX_SIZE n) (initial n) as = some (es, s)) := by
  constructor
  · intro es s hrun
    have hshows := run_uplinks hn hrun
    have hbehind := (run_keeps (I := fun _ => True) (K := fun _ => True)
      (fun _ _ _ _ _ _ h => ⟨downlink_behind_uplink h, trivial⟩) trivial (fun _ _ => trivial)
      hrun).1
    refine ⟨hshows, run_downlinks hn hrun, ?_⟩
    rw [hshows.length_eq, List.length_filterMap_eq_countP, List.length_filterMap_eq_countP]
    exact List.countP_mono_left hbehind
  · intro hroom
    refine exists_run_of (K := fun a => ∀ port payload, a = .publish port payload →
      payload.length < LORAWAN_APP_DATA_MAX_SIZE) (fun s a hs ha => exists_step hn hs ha) ?_ ?_
    · simp [initial, hn.started]
    · intro a ha port payload he
      exact hroom port payload (he ▸ ha)

/-! ## A server -/

/-- The item of a document of the documented form. -/
def downlinkOf : Value → Option Downlink
  | .obj [(_, .arr [.obj [(_, .num port _), (_, .str text), _]])] =>
    (b64decode text).map fun payload => ⟨port.toNat, payload⟩
  | _ => none

/-- A server that keeps its queue and transmits in every window. -/
def queueServer : NetworkServer where
  Server := List Downlink
  started := []
  publish queue document := queue ++ ((parse false document).bind downlinkOf).toList
  uplink queue message := (b64encode message, queue.head?, queue.tail)

theorem queueServer_documented : Documented queueServer id where
  started := rfl
  encodes _ _ := rfl
  queues := by
    intro s document port text payload hdocument htext
    left
    simp only [queueServer, hdocument, downlinkValue, downlinkOf, htext, Option.bind_some,
      Option.map_some, Option.toList_some, Int.toNat_natCast, id]
  transmits := by
    intro s message
    cases s <;> rfl

/-- The message of the exercise, and the round that it comes down behind. -/
def exampleActions : List Action :=
  [.publish 42 (ascii "the message to send"),
    .round ⟨some 498, some 273, true, true, true⟩]

theorem exampleActions_relayed : ∃ es s,
    run (step 242 queueServer) (initial queueServer) exampleActions = some (es, s) ∧
      (es.filterMap Effect.downlink).Sublist [ascii "the message to send"] := by
  have hrelays := relays_both_ways queueServer_documented 242 exampleActions
  have hroom : ∀ port payload, Action.publish port payload ∈ exampleActions →
      payload.length < 242 := by
    intro port payload h
    simp only [exampleActions, List.mem_cons, Action.publish.injEq, reduceCtorEq,
      List.not_mem_nil, or_false] at h
    rw [h.2]
    decide
  obtain ⟨es, s, hrun⟩ := hrelays.2 hroom
  exact ⟨es, s, hrun, (hrelays.1 es s hrun).2.1⟩

end IotLabTraining.LorawanMqtt
