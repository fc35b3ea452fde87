import IotLabTraining.CoapResource
import IotLabTraining.Traces

/-!
# Separate responses

`res-separate.c` takes a request over, keeps what its response needs in a store, and
answers when the button is pressed. Beside the statics a run is told which requests
are open and which of them wrote each store last. A run is sound when every open request
is still held in a store, and the counter counts the open ones.
-/
namespace IotLabTraining.SeparateResource
open Runs Buffers Traces

/-- `coap_separate_t`: what `coap_separate_accept` keeps of a request. -/
structure Metadata (Endpoint : Type) where
  endpoint : Endpoint
  confirmable : Bool
  mid : UInt16
  token : Bytes
  block2Num : ℕ
  block2Size : ℕ

def COAP_MAX_OPEN_SEPARATE : ℕ := 2

variable {Endpoint : Type}

/-- `application_separate_store_t`. -/
structure Store (Endpoint : Type) where
  requestMetadata : Metadata Endpoint
  buffer : Buffer

structure State (Endpoint : Type) where
  separateActive : ℕ
  separateStore : Fin COAP_MAX_OPEN_SEPARATE → Store Endpoint

/-- The response sent in a transaction of its own; the Block2 option has number, more
flag and size. -/
structure SeparateResponse (Endpoint : Type) where
  request : Metadata Endpoint
  payload : Bytes
  block2 : ℕ × Bool × ℕ

/-- What a handler does; with a store it names the one it uses. -/
inductive Effect (Endpoint : Type) where
  | rejected
  | takenOver (store : Fin COAP_MAX_OPEN_SEPARATE)
  | idle
  | responded (store : Fin COAP_MAX_OPEN_SEPARATE) (response : SeparateResponse Endpoint)

/-- The element that `separate_store->` means. -/
def firstStore : Fin COAP_MAX_OPEN_SEPARATE := ⟨0, by decide⟩

/-- The buffer of a store behind `snprintf(buffer, sizeof(buffer), "StoredInfo")`. -/
def storeInfo (buffer : Buffer) : Buffer := (snprintf buffer 0 16 (ascii "StoredInfo")).1

/-- `res_get_handler`. -/
def resGetHandler (s : State Endpoint) (request : Metadata Endpoint) :
    Effect Endpoint × State Endpoint :=
  if s.separateActive ≥ COAP_MAX_OPEN_SEPARATE then (.rejected, s)
  else
    let buffer := storeInfo (s.separateStore firstStore).buffer
    (.takenOver firstStore,
      { separateActive := s.separateActive + 1
        separateStore := Function.update s.separateStore firstStore ⟨request, buffer⟩ })

/-- The response to the request in a store. -/
def responseFor (store : Store Endpoint) : SeparateResponse Endpoint where
  request := store.requestMetadata
  payload := cString (window store.buffer 0 16)
  block2 := (store.requestMetadata.block2Num, false, store.requestMetadata.block2Size)

/-- `res_resume_handler`; `transaction` is whether there is one. -/
def resResumeHandler (s : State Endpoint) (transaction : Bool) :
    Effect Endpoint × State Endpoint :=
  if s.separateActive ≠ 0 then
    if transaction then
      (.responded firstStore (responseFor (s.separateStore firstStore)),
        { s with separateActive := 0 })
    else (.idle, s)
  else (.idle, s)

inductive Event (Endpoint : Type) where
  | get (request : Metadata Endpoint)
  | resume (transaction : Bool)

def handle (s : State Endpoint) : Event Endpoint → Effect Endpoint × State Endpoint
  | .get request => resGetHandler s request
  | .resume transaction => resResumeHandler s transaction

/-! ## The open requests -/

/-- A request that was taken over and is not answered yet. -/
structure Open (Endpoint : Type) where
  id : ℕ
  metadata : Metadata Endpoint

/-- The statics, the open requests, the request that wrote each store last, and the id for
the next one. -/
structure Tracked (Endpoint : Type) where
  state : State Endpoint
  opened : List (Open Endpoint)
  owner : Fin COAP_MAX_OPEN_SEPARATE → Option ℕ
  nextId : ℕ

/-- At first nothing is open; the stores may hold anything. -/
def start (stores : Fin COAP_MAX_OPEN_SEPARATE → Store Endpoint) : Tracked Endpoint :=
  ⟨⟨0, stores⟩, [], fun _ => none, 0⟩

/-- What an effect means for the open requests. -/
def track (x : Tracked Endpoint) (e : Event Endpoint) : Effect Endpoint → Tracked Endpoint
  | .takenOver store =>
    match e with
    | .get request =>
      { state := (handle x.state e).2
        opened := ⟨x.nextId, request⟩ :: x.opened
        owner := Function.update x.owner store (some x.nextId)
        nextId := x.nextId + 1 }
    | .resume _ => { x with state := (handle x.state e).2 }
  | .responded store _ =>
    { x with
      state := (handle x.state e).2
      opened := x.opened.filter fun o => x.owner store ≠ some o.id }
  | _ => { x with state := (handle x.state e).2 }

def step : Step (Tracked Endpoint) (Event Endpoint) (Effect Endpoint) := fun x e =>
  let effect := (handle x.state e).1
  some (effect, track x e effect)

/-- Every open request is held in a store of its own, and counted. -/
structure Sound (x : Tracked Endpoint) : Prop where
  held : ∀ o ∈ x.opened, ∃ i, x.owner i = some o.id ∧
    (x.state.separateStore i).requestMetadata = o.metadata
  distinct : (x.opened.map Open.id).Nodup
  counted : x.opened.length = x.state.separateActive
  limited : x.state.separateActive ≤ COAP_MAX_OPEN_SEPARATE

/-- The state behind an event is sound, and a response answers an open request. -/
structure Kept (x : Tracked Endpoint) (e : Event Endpoint) : Prop where
  sound : ∀ effect x', step x e = some (effect, x') → Sound x'
  answers : ∀ i response x', step x e = some (.responded i response, x') →
    ∃ o ∈ x.opened, x.owner i = some o.id ∧ response.request = o.metadata

/-- No request comes in while one is open. -/
def OneAtATime (x : Tracked Endpoint) : Event Endpoint → Prop
  | .get _ => x.state.separateActive = 0
  | .resume _ => True

/-! ## Runs with one open request -/

/-- Nothing is open, or one request, which the first store holds. -/
def Holds (x : Tracked Endpoint) : Prop :=
  (x.opened = [] ∧ x.state.separateActive = 0) ∨
    ∃ o, x.opened = [o] ∧ x.state.separateActive = 1 ∧ x.owner firstStore = some o.id ∧
      (x.state.separateStore firstStore).requestMetadata = o.metadata

/-- The handlers use the first store only. -/
structure AtMostOne (x : Tracked Endpoint) : Prop where
  unused : ∀ i, i ≠ firstStore → x.owner i = none
  holds : Holds x

theorem atMostOne_start (stores : Fin COAP_MAX_OPEN_SEPARATE → Store Endpoint) :
    AtMostOne (start stores) := ⟨fun _ _ => rfl, Or.inl ⟨rfl, rfl⟩⟩

theorem sound_of_atMostOne {x : Tracked Endpoint} (h : AtMostOne x) : Sound x := by
  rcases h.holds with ⟨hnone, hactive⟩ | ⟨o, hone, hactive, howner, hstore⟩
  · refine ⟨?_, ?_, ?_, ?_⟩
    · simp [hnone]
    · simp [hnone]
    · rw [hnone, hactive, List.length_nil]
    · omega
  · refine ⟨?_, ?_, ?_, ?_⟩
    · intro o' ho'
      rw [hone, List.mem_singleton] at ho'
      exact ⟨firstStore, ho' ▸ ⟨howner, hstore⟩⟩
    · simp [hone]
    · rw [hone, hactive, List.length_singleton]
    · rw [hactive]
      decide

theorem step_get {x : Tracked Endpoint} (request : Metadata Endpoint)
    (h : x.state.separateActive < COAP_MAX_OPEN_SEPARATE) :
    step x (.get request) = some (.takenOver firstStore,
      { state := ⟨x.state.separateActive + 1,
          Function.update x.state.separateStore firstStore
            ⟨request, storeInfo (x.state.separateStore firstStore).buffer⟩⟩
        opened := ⟨x.nextId, request⟩ :: x.opened
        owner := Function.update x.owner firstStore (some x.nextId)
        nextId := x.nextId + 1 }) := by
  simp only [step, track, handle, resGetHandler, if_neg (Nat.not_le_of_lt h)]

/-- A request that comes in alone is the one that is held. -/
theorem atMostOne_get {x x' : Tracked Endpoint} {request : Metadata Endpoint}
    {effect : Effect Endpoint} (hx : AtMostOne x) (hactive : x.state.separateActive = 0)
    (h : step x (.get request) = some (effect, x')) : AtMostOne x' := by
  rw [step_get request (by rw [hactive]; decide)] at h
  obtain ⟨-, rfl⟩ := Prod.mk.inj (Option.some.inj h)
  have hnone : x.opened = [] := by
    rcases hx.holds with ⟨hnone, -⟩ | ⟨o, -, hone, -⟩
    · exact hnone
    · omega
  refine ⟨fun i hi => ?_, Or.inr ⟨⟨x.nextId, request⟩, ?_, ?_, ?_, ?_⟩⟩
  · simp only [Function.update_of_ne hi]
    exact hx.unused i hi
  · simp only [hnone]
  · simp only [hactive, Nat.zero_add]
  · simp only [Function.update_self]
  · simp only [Function.update_self]

/-- A second request takes the store of the first one. -/
theorem not_sound_get {x : Tracked Endpoint} (request : Metadata Endpoint) (hx : AtMostOne x)
    (hactive : x.state.separateActive ≠ 0) :
    ∃ effect x', step x (.get request) = some (effect, x') ∧ ¬ Sound x' := by
  rcases hx.holds with ⟨-, hzero⟩ | ⟨o, hone, hactive, -, -⟩
  · exact absurd hzero hactive
  · refine ⟨_, _, step_get request (by rw [hactive]; decide), fun h => ?_⟩
    have hdistinct := h.distinct
    obtain ⟨i, howner, -⟩ := h.held o (by simp [hone])
    by_cases hi : i = firstStore
    · simp [hi, hone] at howner hdistinct
      exact hdistinct howner
    · simp only [Function.update_of_ne hi, hx.unused i hi] at howner
      cases howner

/-- All that a press of the button can do. -/
theorem step_resume (x : Tracked Endpoint) (transaction : Bool) :
    step x (.resume transaction) = some (.idle, x) ∨
    (x.state.separateActive ≠ 0 ∧
      step x (.resume transaction) = some (.responded firstStore
          (responseFor (x.state.separateStore firstStore)),
        { x with
          state := { x.state with separateActive := 0 }
          opened := x.opened.filter fun o => x.owner firstStore ≠ some o.id })) := by
  by_cases hactive : x.state.separateActive = 0
  · left
    simp only [step, track, handle, resResumeHandler, if_neg (not_not.mpr hactive)]
  · cases transaction with
    | false =>
      left
      simp [step, track, handle, resResumeHandler, hactive]
    | true =>
      right
      refine ⟨hactive, ?_⟩
      simp only [step, track, handle, resResumeHandler, if_pos hactive, if_true]

/-- A press keeps what is held, or answers it. -/
theorem atMostOne_resume {x x' : Tracked Endpoint} {transaction : Bool}
    {effect : Effect Endpoint} (hx : AtMostOne x)
    (h : step x (.resume transaction) = some (effect, x')) : AtMostOne x' := by
  rcases step_resume x transaction with hidle | ⟨-, hstep⟩
  · rw [hidle] at h
    obtain ⟨-, rfl⟩ := Prod.mk.inj (Option.some.inj h)
    exact hx
  · rw [hstep] at h
    obtain ⟨-, rfl⟩ := Prod.mk.inj (Option.some.inj h)
    refine ⟨hx.unused, Or.inl ⟨?_, rfl⟩⟩
    rcases hx.holds with ⟨hnone, -⟩ | ⟨o, hone, -, howner, -⟩
    · simp [hnone]
    · simp [hone, howner]

theorem answers_open {x x' : Tracked Endpoint} {e : Event Endpoint} (hx : AtMostOne x)
    {i : Fin COAP_MAX_OPEN_SEPARATE} {response : SeparateResponse Endpoint}
    (h : step x e = some (.responded i response, x')) :
    ∃ o ∈ x.opened, x.owner i = some o.id ∧ response.request = o.metadata := by
  cases e with
  | get request =>
    have heffect := congrArg Prod.fst (Option.some.inj h)
    simp only [handle, resGetHandler] at heffect
    split_ifs at heffect
  | resume transaction =>
    rcases step_resume x transaction with hidle | ⟨hactive, hstep⟩
    · rw [hidle] at h
      cases h
    · rw [hstep] at h
      cases h
      rcases hx.holds with ⟨-, hzero⟩ | ⟨o, hone, -, howner, hstore⟩
      · exact absurd hzero hactive
      · exact ⟨o, by simp [hone], howner, hstore⟩

theorem atMostOne_step {x x' : Tracked Endpoint} {e : Event Endpoint} {effect : Effect Endpoint}
    (hx : AtMostOne x) (hone : OneAtATime x e) (h : step x e = some (effect, x')) :
    AtMostOne x' := by
  cases e with
  | get request => exact atMostOne_get hx hone h
  | resume transaction => exact atMostOne_resume hx h

theorem kept_iff {x : Tracked Endpoint} (hx : AtMostOne x) (e : Event Endpoint) :
    Kept x e ↔ OneAtATime x e := by
  constructor
  · intro h
    cases e with
    | get request =>
      by_contra hactive
      obtain ⟨effect, x', hstep, hnot⟩ := not_sound_get request hx hactive
      exact hnot (h.sound effect x' hstep)
    | resume transaction => trivial
  · intro hone
    exact ⟨fun effect x' h => sound_of_atMostOne (atMostOne_step hx hone h),
      fun i response x' h => answers_open hx h⟩

/-- No request is lost exactly in the runs where none comes in while one is open. -/
theorem separate_kept_iff (stores : Fin COAP_MAX_OPEN_SEPARATE → Store Endpoint)
    (events : List (Event Endpoint)) :
    Along step Kept (start stores) events ↔ Along step OneAtATime (start stores) events :=
  along_congr (fun _ e hx => kept_iff hx e) (fun _ _ _ _ hx hone h => atMostOne_step hx hone h)
    (atMostOne_start stores) events

/-- Two requests before the button is pressed. -/
theorem second_request_takes_store :
    ¬ ∀ (stores : Fin COAP_MAX_OPEN_SEPARATE → Store Unit) (events : List (Event Unit)),
      Along step Kept (start stores) events := by
  intro h
  let request (mid : UInt16) : Metadata Unit := ⟨(), true, mid, [], 0, 64⟩
  let stores (_ : Fin COAP_MAX_OPEN_SEPARATE) : Store Unit := ⟨request 0, fun _ => 0⟩
  have hkept := h stores [.get (request 1), .get (request 2)]
  have hsecond := (hkept.2 _ _ rfl).1
  have hfirst := atMostOne_get (atMostOne_start stores) rfl (step_get (request 1) (by decide))
  exact Nat.one_ne_zero ((kept_iff hfirst _).mp hsecond)

/-! ## Any run -/

/-- The statics alone. -/
def handleStep : Step (State Endpoint) (Event Endpoint) (Effect Endpoint) :=
  fun s e => some (handle s e)

/-- What is seen of a request and its answer, and of a press of the button. -/
inductive Seen (Endpoint : Type) where
  | taken (request : Metadata Endpoint)
  | rejected (request : Metadata Endpoint)
  | responded (response : SeparateResponse Endpoint)
  | unanswered (transaction : Bool)

def view (_ : State Endpoint) : Event Endpoint → Effect Endpoint → List (Seen Endpoint)
  | .get request, .takenOver _ => [.taken request]
  | .get request, .rejected => [.rejected request]
  | .resume true, .responded _ response => [.responded response]
  | .resume transaction, .idle => [.unanswered transaction]
  | _, _ => []

/-- The request or the press that something is seen of. -/
def Seen.event : Seen Endpoint → Event Endpoint
  | .taken request => .get request
  | .rejected request => .get request
  | .responded _ => .resume true
  | .unanswered transaction => .resume transaction

/-- The response that a request is owed, with its own Block2 option. -/
def owed (request : Metadata Endpoint) : SeparateResponse Endpoint where
  request := request
  payload := ascii "StoredInfo"
  block2 := (request.block2Num, false, request.block2Size)

open Classical in
/-- The requests taken over since the last response, latest first. Up to two are taken, and
a response goes to the latest one and settles them all; a press with a transaction goes
unanswered only while none is open. -/
noncomputable def ledger : Acceptor (List (Metadata Endpoint)) (Seen Endpoint) := fun opened e =>
  match e with
  | .taken request =>
    if opened.length < COAP_MAX_OPEN_SEPARATE then some (request :: opened) else none
  | .rejected _ => if opened.length = COAP_MAX_OPEN_SEPARATE then some opened else none
  | .responded response => if response ∈ opened.head?.map owed then some [] else none
  | .unanswered transaction =>
    if transaction = true ∧ opened ≠ [] then none else some opened

/-- The counter counts the requests, and the store that is used has the latest one. -/
structure Tallied (s : State Endpoint) (opened : List (Metadata Endpoint)) : Prop where
  counted : s.separateActive = opened.length
  limited : opened.length ≤ COAP_MAX_OPEN_SEPARATE
  latest : ∀ request ∈ opened.head?,
    responseFor (s.separateStore firstStore) = owed request

theorem tallied_start (stores : Fin COAP_MAX_OPEN_SEPARATE → Store Endpoint) :
    Tallied ⟨0, stores⟩ [] where
  counted := rfl
  limited := Nat.zero_le _
  latest _ h := by cases h

theorem cString_storeInfo (buffer : Buffer) :
    cString (window (storeInfo buffer) 0 16) = ascii "StoredInfo" :=
  (cString_window_snprintf_eq_iff buffer 16 (by decide) (by decide)).mpr (by decide)

theorem simulates_ledger : Simulates handleStep view
    (ledger : Acceptor (List (Metadata Endpoint)) (Seen Endpoint)) Tallied := by
  intro s opened e effect s' h hstep
  have hhandle : handle s e = (effect, s') := Option.some.inj hstep
  have hlimited := h.limited
  cases e with
  | get request =>
    simp only [handle, resGetHandler] at hhandle
    split_ifs at hhandle with hfull
    · obtain ⟨rfl, rfl⟩ := Prod.mk.inj hhandle
      have hlength : opened.length = COAP_MAX_OPEN_SEPARATE := by
        have hcounted := h.counted
        omega
      exact ⟨opened, by simp only [view, accept_singleton, ledger, if_pos hlength], h⟩
    · obtain ⟨rfl, rfl⟩ := Prod.mk.inj hhandle
      have hroom : opened.length < COAP_MAX_OPEN_SEPARATE := by
        have hcounted := h.counted
        omega
      refine ⟨request :: opened, ?_, ?_, ?_, ?_⟩
      · simp only [view, accept_singleton, ledger, if_pos hroom]
      · rw [List.length_cons, ← h.counted]
      · exact hroom
      · intro latest hlatest
        obtain rfl : request = latest := by simpa using hlatest
        simp only [Function.update_self, responseFor, cString_storeInfo, owed]
  | resume transaction =>
    simp only [handle, resResumeHandler] at hhandle
    split_ifs at hhandle with hactive htransaction
    · obtain ⟨rfl, rfl⟩ := Prod.mk.inj hhandle
      subst htransaction
      obtain ⟨request, rest, rfl⟩ : ∃ request rest, opened = request :: rest := by
        apply List.exists_cons_of_length_pos
        have hcounted := h.counted
        omega
      have howed := h.latest request (by simp)
      refine ⟨[], ?_, tallied_start s.separateStore⟩
      simp [view, ledger, howed]
    · obtain ⟨rfl, rfl⟩ := Prod.mk.inj hhandle
      exact ⟨opened, by simp [view, ledger, htransaction], h⟩
    · obtain ⟨rfl, rfl⟩ := Prod.mk.inj hhandle
      have hnone : opened = [] := by
        apply List.length_eq_zero_iff.mp
        have hcounted := h.counted
        omega
      exact ⟨opened, by simp [view, ledger, hnone], h⟩

/-- Every event is seen once. -/
theorem view_event {s s' : State Endpoint} {e : Event Endpoint} {effect : Effect Endpoint}
    (h : handleStep s e = some (effect, s')) : (view s e effect).map Seen.event = [e] := by
  have hhandle : handle s e = (effect, s') := Option.some.inj h
  cases e with
  | get request =>
    simp only [handle, resGetHandler] at hhandle
    split_ifs at hhandle
    · obtain ⟨rfl, -⟩ := Prod.mk.inj hhandle
      rfl
    · obtain ⟨rfl, -⟩ := Prod.mk.inj hhandle
      rfl
  | resume transaction =>
    simp only [handle, resResumeHandler] at hhandle
    split_ifs at hhandle with hactive htransaction
    · obtain ⟨rfl, -⟩ := Prod.mk.inj hhandle
      rw [htransaction]
      rfl
    · obtain ⟨rfl, -⟩ := Prod.mk.inj hhandle
      cases transaction <;> rfl
    · obtain ⟨rfl, -⟩ := Prod.mk.inj hhandle
      cases transaction <;> rfl

theorem trace_events (s : State Endpoint) (events : List (Event Endpoint)) :
    (trace handleStep view s events).map Seen.event = events := by
  induction events generalizing s with
  | nil => rfl
  | cons e events ih =>
    have hstep : handleStep s e = some ((handle s e).1, (handle s e).2) := rfl
    rw [trace_cons hstep, List.map_append, view_event hstep, ih, List.singleton_append]

def Seen.takenRequest : Seen Endpoint → Option (Metadata Endpoint)
  | .taken request => some request
  | _ => none

def Seen.answeredRequest : Seen Endpoint → Option (Metadata Endpoint)
  | .responded response => some response.request
  | _ => none

/-- No request is answered twice or out of turn. -/
theorem answered_sublist {opened opened' : List (Metadata Endpoint)}
    {seen : List (Seen Endpoint)} (h : accept ledger opened seen = some opened') :
    (seen.filterMap Seen.answeredRequest).Sublist
      (opened.reverse ++ seen.filterMap Seen.takenRequest) := by
  induction seen generalizing opened with
  | nil => exact List.nil_sublist _
  | cons e seen ih =>
    obtain ⟨next, hnext, hrest⟩ := Option.bind_eq_some_iff.mp h
    have hseen := ih hrest
    cases e with
    | taken request =>
      simp only [ledger] at hnext
      split_ifs at hnext
      obtain rfl := Option.some.inj hnext
      have htaken : Seen.takenRequest (.taken request) = some request := rfl
      rw [List.filterMap_cons_none rfl, List.filterMap_cons_some htaken]
      simpa using hseen
    | rejected request =>
      simp only [ledger] at hnext
      split_ifs at hnext
      obtain rfl := Option.some.inj hnext
      rw [List.filterMap_cons_none rfl, List.filterMap_cons_none rfl]
      exact hseen
    | responded response =>
      simp only [ledger] at hnext
      split_ifs at hnext with howed
      obtain rfl := Option.some.inj hnext
      obtain ⟨request, hrequest, rfl⟩ := Option.mem_map.mp howed
      obtain ⟨rest, rfl⟩ := List.head?_eq_some_iff.mp hrequest
      have hanswered : Seen.answeredRequest (.responded (owed request)) = some request := rfl
      have hnone : Seen.takenRequest (.responded (owed request)) = none := rfl
      rw [List.filterMap_cons_some hanswered, List.filterMap_cons_none hnone, List.reverse_cons,
        List.append_assoc, List.singleton_append]
      exact List.Sublist.trans (hseen.cons_cons request) (List.sublist_append_right _ _)
    | unanswered transaction =>
      simp only [ledger] at hnext
      split_ifs at hnext
      obtain rfl := Option.some.inj hnext
      rw [List.filterMap_cons_none rfl, List.filterMap_cons_none rfl]
      exact hseen

/-- In every run each GET is taken over while fewer than two are open and rejected otherwise,
a press with a transaction is answered while one is open, every response is the one that the
latest request taken over is owed, and no request is answered twice. -/
theorem responses_settle (stores : Fin COAP_MAX_OPEN_SEPARATE → Store Endpoint)
    (events : List (Event Endpoint)) :
    (trace handleStep view ⟨0, stores⟩ events).map Seen.event = events ∧
    (∃ opened, accept ledger [] (trace handleStep view ⟨0, stores⟩ events) = some opened) ∧
    ((trace handleStep view ⟨0, stores⟩ events).filterMap Seen.answeredRequest).Sublist
      ((trace handleStep view ⟨0, stores⟩ events).filterMap Seen.takenRequest) := by
  obtain ⟨opened, haccept, -⟩ := simulates_ledger.accept_trace (tallied_start stores) events
  exact ⟨trace_events _ events, ⟨opened, haccept⟩, answered_sublist haccept⟩

end IotLabTraining.SeparateResource
