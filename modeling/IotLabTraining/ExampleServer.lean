import IotLabTraining.EventResources
import IotLabTraining.SeparateResource
import IotLabTraining.TemperatureResource

/-!
# The CoAP example server

The process of `coap-example-server.c` activates the resources that the platform has, and
then waits for the button; the engine calls the handlers of the requests and the periodic
ones in between. Here are the resources that keep a state. Each of them only sees its own
share of what happens.
-/
namespace IotLabTraining.ExampleServer
open Buffers CoapResource Runs
variable {Endpoint : Type}

/-- `PLATFORM_HAS_BUTTON` and the others, and the width of an `unsigned long`. -/
structure Platform where
  button : Bool
  leds : Bool
  temperature : Bool
  ulongBits : ℕ
  clockSecond : ℕ

/-- The period of `res_push`. -/
def PUSH_PERIOD : ℕ := 5000

/-- The static variables of the resources, and the red LED. -/
structure State (Endpoint : Type) where
  pushCounter : Int32
  eventCounter : Int32
  separate : SeparateResource.State Endpoint
  temperature : TemperatureResource.State
  redLed : Bool

/-- At first; the stores may hold anything. -/
def boot (stores : Fin SeparateResource.COAP_MAX_OPEN_SEPARATE →
    SeparateResource.Store Endpoint) : State Endpoint where
  pushCounter := 0
  eventCounter := 0
  separate := ⟨0, stores⟩
  temperature := TemperatureResource.initial
  redLed := false

/-- What the engine calls a GET handler of a counter with. -/
structure Call where
  buffer : Buffer
  preferredSize : ℕ
  offset : ℤ

inductive Action (Endpoint : Type) where
  | getPush (call : Call)
  | getEvent (call : Call)
  | getSeparate (request : SeparateResource.Metadata Endpoint)
  | postToggle
  /-- The timer of `res_push`. -/
  | pushTimer
  /-- The timer of `res_temperature`, with what the sensor reads. -/
  | temperatureTimer (temperature : Int32)
  /-- The button is released; `transaction` is whether there is one. -/
  | button (transaction : Bool)

inductive Effect (Endpoint : Type) where
  /-- The platform has no such resource. -/
  | nothing
  | response (r : Response)
  | separate (e : SeparateResource.Effect Endpoint)
  | toggled
  | ticked
  /-- The observers are notified, or not yet. -/
  | temperature (notified : Bool)
  /-- `res_event.trigger()` and then `res_separate.resume()`. -/
  | pressed (e : SeparateResource.Effect Endpoint)

/-- `res_periodic_handler` of `res-push.c` and `res_event_handler`: the counter behind it. -/
def countEvent (eventCounter : Int32) : Int32 := eventCounter + 1

variable (platform : Platform) (undefined : Int32 → Int32 → Bool)

/-- The handlers, and the body of the loop of the process for the button. -/
def handle (s : State Endpoint) : Action Endpoint → Effect Endpoint × State Endpoint
  | .getPush call =>
    (.response (EventResources.resGetHandler (EventResources.resPush PUSH_PERIOD
      platform.clockSecond) platform.ulongBits s.pushCounter call.buffer call.preferredSize
        call.offset), s)
  | .getEvent call =>
    if platform.button then
      (.response (EventResources.resGetHandler EventResources.resEvent platform.ulongBits
        s.eventCounter call.buffer call.preferredSize call.offset), s)
    else (.nothing, s)
  | .getSeparate request =>
    let r := SeparateResource.resGetHandler s.separate request
    (.separate r.1, { s with separate := r.2 })
  | .postToggle =>
    if platform.leds then (.toggled, { s with redLed := !s.redLed }) else (.nothing, s)
  | .pushTimer => (.ticked, { s with pushCounter := countEvent s.pushCounter })
  | .temperatureTimer temperature =>
    if platform.temperature then
      (.temperature (TemperatureResource.notifies undefined s.temperature temperature),
        { s with temperature :=
            TemperatureResource.resPeriodicHandler undefined s.temperature temperature })
    else (.nothing, s)
  | .button transaction =>
    if platform.button then
      let r := SeparateResource.resResumeHandler s.separate transaction
      (.pressed r.1, { s with eventCounter := countEvent s.eventCounter, separate := r.2 })
    else (.nothing, s)

def step : Step (State Endpoint) (Action Endpoint) (Effect Endpoint) :=
  fun s a => some (handle platform undefined s a)

/-! ## The share of each resource -/

variable {platform undefined}

def Action.pushTick : Action Endpoint → Option Unit
  | .pushTimer => some ()
  | _ => none

def Action.press (platform : Platform) : Action Endpoint → Option Unit
  | .button _ => if platform.button then some () else none
  | _ => none

def Action.toggle (platform : Platform) : Action Endpoint → Option Unit
  | .postToggle => if platform.leds then some () else none
  | _ => none

def Action.reading (platform : Platform) : Action Endpoint → Option Int32
  | .temperatureTimer temperature => if platform.temperature then some temperature else none
  | _ => none

def Action.separate (platform : Platform) : Action Endpoint →
    Option (SeparateResource.Event Endpoint)
  | .getSeparate request => some (.get request)
  | .button transaction => if platform.button then some (.resume transaction) else none
  | _ => none

def Effect.ofPushTick : Effect Endpoint → Option Unit
  | .ticked => some ()
  | _ => none

def Effect.ofPress : Effect Endpoint → Option Unit
  | .pressed _ => some ()
  | _ => none

def Effect.ofToggle : Effect Endpoint → Option Unit
  | .toggled => some ()
  | _ => none

def Effect.ofReading : Effect Endpoint → Option Bool
  | .temperature notified => some notified
  | _ => none

def Effect.ofSeparate : Effect Endpoint → Option (SeparateResource.Effect Endpoint)
  | .separate e => some e
  | .pressed e => some e
  | _ => none

/-- A counter on its own. -/
def counterStep : Step Int32 Unit Unit := fun c _ => some ((), countEvent c)

def ledStep : Step Bool Unit Unit := fun led _ => some ((), !led)

def temperatureStep (undefined : Int32 → Int32 → Bool) :
    Step TemperatureResource.State Int32 Bool := fun s temperature =>
  some (TemperatureResource.notifies undefined s temperature,
    TemperatureResource.resPeriodicHandler undefined s temperature)

theorem run_counterStep {c c' : Int32} {as rs : List Unit}
    (h : run counterStep c as = some (rs, c')) : c' = c + Int32.ofNat as.length := by
  induction as generalizing c rs with
  | nil =>
    obtain ⟨-, rfl⟩ := Prod.mk.inj (Option.some.inj h)
    simp
  | cons a as ih =>
    obtain ⟨⟨rs', c₂⟩, hrun, he⟩ := Option.map_eq_some_iff.mp h
    obtain ⟨-, rfl⟩ := Prod.mk.inj he
    have hone : Int32.ofNat 1 = 1 := rfl
    rw [ih hrun, countEvent, List.length_cons, Nat.add_comm, Int32.ofNat_add, hone,
      Int32.add_assoc]

theorem run_ledStep {led led' : Bool} {as rs : List Unit}
    (h : run ledStep led as = some (rs, led')) : led' = (led ^^ decide (Odd as.length)) := by
  induction as generalizing led rs with
  | nil =>
    obtain ⟨-, rfl⟩ := Prod.mk.inj (Option.some.inj h)
    simp
  | cons a as ih =>
    obtain ⟨⟨rs', led₂⟩, hrun, he⟩ := Option.map_eq_some_iff.mp h
    obtain ⟨-, rfl⟩ := Prod.mk.inj he
    rw [ih hrun, List.length_cons]
    by_cases hodd : Odd as.length
    · simp [hodd, Nat.odd_add_one]
    · simp [hodd, Nat.odd_add_one]

/-- What an action means for each of the resources. -/
structure Shares (platform : Platform) (undefined : Int32 → Int32 → Bool) (s : State Endpoint)
    (a : Action Endpoint) (e : Effect Endpoint) (s' : State Endpoint) : Prop where
  push : optional counterStep s.pushCounter a.pushTick = some (e.ofPushTick, s'.pushCounter)
  press : optional counterStep s.eventCounter (a.press platform) =
    some (e.ofPress, s'.eventCounter)
  toggle : optional ledStep s.redLed (a.toggle platform) = some (e.ofToggle, s'.redLed)
  reading : optional (temperatureStep undefined) s.temperature (a.reading platform) =
    some (e.ofReading, s'.temperature)
  separate : optional SeparateResource.handleStep s.separate (a.separate platform) =
    some (e.ofSeparate, s'.separate)

theorem shares (platform : Platform) (undefined : Int32 → Int32 → Bool) (s : State Endpoint)
    (a : Action Endpoint) : Shares platform undefined s a (handle platform undefined s a).1
      (handle platform undefined s a).2 := by
  obtain ⟨button, leds, temperature, ulongBits, clockSecond⟩ := platform
  cases a with
  | getPush call => exact ⟨rfl, rfl, rfl, rfl, rfl⟩
  | getEvent call => cases button <;> exact ⟨rfl, rfl, rfl, rfl, rfl⟩
  | getSeparate request => exact ⟨rfl, rfl, rfl, rfl, rfl⟩
  | postToggle => cases leds <;> exact ⟨rfl, rfl, rfl, rfl, rfl⟩
  | pushTimer => exact ⟨rfl, rfl, rfl, rfl, rfl⟩
  | temperatureTimer reading => cases temperature <;> exact ⟨rfl, rfl, rfl, rfl, rfl⟩
  | button transaction => cases button <;> exact ⟨rfl, rfl, rfl, rfl, rfl⟩

theorem shares_of_step {s s' : State Endpoint} {a : Action Endpoint} {e : Effect Endpoint}
    (h : step platform undefined s a = some (e, s')) : Shares platform undefined s a e s' := by
  have hhandle : handle platform undefined s a = (e, s') := Option.some.inj h
  have hshares := shares platform undefined s a
  rwa [hhandle] at hshares

/-- How often the button was released, with a platform that has one. -/
def presses (platform : Platform) (as : List (Action Endpoint)) : ℕ :=
  (as.filterMap (Action.press platform)).length

def pushTicks (as : List (Action Endpoint)) : ℕ := (as.filterMap Action.pushTick).length

def toggles (platform : Platform) (as : List (Action Endpoint)) : ℕ :=
  (as.filterMap (Action.toggle platform)).length

/-- Every list of actions runs through from the boot. -/
theorem exists_run_boot (platform : Platform) (undefined : Int32 → Int32 → Bool)
    (stores : Fin SeparateResource.COAP_MAX_OPEN_SEPARATE → SeparateResource.Store Endpoint)
    (as : List (Action Endpoint)) :
    ∃ es s, run (step platform undefined) (boot stores) as = some (es, s) := by
  have hsteps (s : State Endpoint) (a : Action Endpoint) :
      (step platform undefined s a).isSome = true := rfl
  exact exists_run hsteps (boot stores) as

section
variable {s' : State Endpoint} {as : List (Action Endpoint)} {es : List (Effect Endpoint)}

theorem pushCounter_run {s : State Endpoint}
    (hrun : run (step platform undefined) s as = some (es, s')) :
    s'.pushCounter = s.pushCounter + Int32.ofNat (pushTicks as) :=
  run_counterStep (run_component (fun _ _ _ _ h => (shares_of_step h).push) hrun)

theorem eventCounter_run {s : State Endpoint}
    (hrun : run (step platform undefined) s as = some (es, s')) :
    s'.eventCounter = s.eventCounter + Int32.ofNat (presses platform as) :=
  run_counterStep (run_component (fun _ _ _ _ h => (shares_of_step h).press) hrun)

theorem separate_run {s : State Endpoint}
    (hrun : run (step platform undefined) s as = some (es, s')) :
    run SeparateResource.handleStep s.separate (as.filterMap (Action.separate platform)) =
      some (es.filterMap Effect.ofSeparate, s'.separate) :=
  run_component (fun _ _ _ _ h => (shares_of_step h).separate) hrun

end

/-- In whatever order requests, timers and the button come, the counters count their own
events, the LED is lit after an odd number of requests for it, and the observable
temperature and the separate responses are as if nothing else went on. -/
theorem resources_independent (platform : Platform) (undefined : Int32 → Int32 → Bool)
    (stores : Fin SeparateResource.COAP_MAX_OPEN_SEPARATE → SeparateResource.Store Endpoint)
    (as : List (Action Endpoint)) :
    ∃ es s, run (step platform undefined) (boot stores) as = some (es, s) ∧
      s.pushCounter = Int32.ofNat (pushTicks as) ∧
      s.eventCounter = Int32.ofNat (presses platform as) ∧
      (s.redLed = true ↔ Odd (toggles platform as)) ∧
      run (temperatureStep undefined) TemperatureResource.initial
        (as.filterMap (Action.reading platform)) =
          some (es.filterMap Effect.ofReading, s.temperature) ∧
      run SeparateResource.handleStep ⟨0, stores⟩ (as.filterMap (Action.separate platform)) =
        some (es.filterMap Effect.ofSeparate, s.separate) := by
  obtain ⟨es, s, hrun⟩ := exists_run_boot platform undefined stores as
  have htoggle := run_component (fun _ _ _ _ h => (shares_of_step h).toggle) hrun
  have hreading := run_component (fun _ _ _ _ h => (shares_of_step h).reading) hrun
  refine ⟨es, s, hrun, ?_, ?_, ?_, hreading, separate_run hrun⟩
  · exact (pushCounter_run hrun).trans (Int32.zero_add _)
  · exact (eventCounter_run hrun).trans (Int32.zero_add _)
  · rw [run_ledStep htoggle]
    simp [boot, toggles]

/-! ## What the server gives out -/

/-- A counter is printed as it is up to the limit of its type. -/
theorem toUlong_ofNat {n ulongBits : ℕ} (hn : n < 2 ^ 31) (hbits : 31 ≤ ulongBits) :
    EventResources.toUlong ulongBits (Int32.ofNat n) = n := by
  have hint : (Int32.ofNat n).toInt = n := Int32.toInt_ofNat_of_lt hn
  have hpow : (2 : ℤ) ^ 31 ≤ 2 ^ ulongBits := pow_le_pow_right₀ (by norm_num) hbits
  rw [EventResources.toUlong, hint, Int.emod_eq_of_lt (by omega) (by omega), Int.toNat_natCast]

/-- The text that a handler prints of a counter, where it fits. -/
def countedText (label : Bytes) (n : ℕ) : Bytes := label ++ decimal n

theorem payload_counted (r : EventResources.EventResource) {n ulongBits : ℕ} (hn : n < 2 ^ 31)
    (hbits : 31 ≤ ulongBits) (call : Call)
    (hfits : (countedText r.label n).length < call.preferredSize) :
    (EventResources.resGetHandler r ulongBits (Int32.ofNat n) call.buffer call.preferredSize
      call.offset).payload = countedText r.label n := by
  have htext : EventResources.text r ulongBits (Int32.ofNat n) = countedText r.label n := by
    rw [EventResources.text, toUlong_ofNat hn hbits, countedText]
  rw [EventResources.payload_of_lt r ulongBits (Int32.ofNat n) (by rwa [htext]), htext]

/-- After any run `/sensors/button` gives out how often the button was released, and
`/test/push` how often its timer went off. -/
theorem counters_given_out (platform : Platform) (undefined : Int32 → Int32 → Bool)
    (stores : Fin SeparateResource.COAP_MAX_OPEN_SEPARATE → SeparateResource.Store Endpoint)
    (as : List (Action Endpoint)) (call : Call) (hbits : 31 ≤ platform.ulongBits)
    (hbutton : platform.button = true) (hsize : 28 ≤ call.preferredSize)
    (hticks : pushTicks as < 2 ^ 31) (hpresses : presses platform as < 2 ^ 31) :
    ∃ es s event push, run (step platform undefined) (boot stores) as = some (es, s) ∧
      handle platform undefined s (.getEvent call) = (.response event, s) ∧
      event.payload = countedText (ascii "EVENT ") (presses platform as) ∧
      handle platform undefined s (.getPush call) = (.response push, s) ∧
      push.payload = countedText (ascii "VERY LONG EVENT ") (pushTicks as) := by
  obtain ⟨es, s, hrun⟩ := exists_run_boot platform undefined stores as
  have hpush := (pushCounter_run hrun).trans (Int32.zero_add _)
  have hevent := (eventCounter_run hrun).trans (Int32.zero_add _)
  have hroom {label : Bytes} {n : ℕ} (hlabel : label.length ≤ 16) (hn : n < 2 ^ 31) :
      (countedText label n).length < call.preferredSize := by
    have hdigits : (decimal n).length ≤ 10 :=
      decimal_length_le (by omega) (hn.trans (by norm_num))
    rw [countedText, List.length_append]
    omega
  have hget : handle platform undefined s (.getEvent call) =
      (.response (EventResources.resGetHandler EventResources.resEvent platform.ulongBits
        s.eventCounter call.buffer call.preferredSize call.offset), s) := if_pos hbutton
  refine ⟨es, s, _, _, hrun, hget, ?_, rfl, ?_⟩
  · rw [hevent]
    exact payload_counted EventResources.resEvent hpresses hbits call (hroom (by decide) hpresses)
  · rw [hpush]
    exact payload_counted (EventResources.resPush _ _) hticks hbits call
      (hroom (by decide : (ascii "VERY LONG EVENT ").length ≤ 16) hticks)

/-- A platform with everything. -/
def fullPlatform : Platform := ⟨true, true, true, 32, 128⟩

/-- A press, a tick and another press. -/
theorem counters_given_out_presses : ∃ es s event push,
    run (step fullPlatform fun _ _ => true) (boot fun _ => ⟨⟨(), true, 0, [], 0, 64⟩, fun _ => 0⟩)
      [.button true, .pushTimer, .button false] = some (es, s) ∧
      handle fullPlatform (fun _ _ => true) s (.getEvent ⟨fun _ => 0, 64, 0⟩) =
        (.response event, s) ∧
      event.payload = countedText (ascii "EVENT ") 2 ∧
      handle fullPlatform (fun _ _ => true) s (.getPush ⟨fun _ => 0, 64, 0⟩) =
        (.response push, s) ∧
      push.payload = countedText (ascii "VERY LONG EVENT ") 1 :=
  counters_given_out fullPlatform _ _ _ _ (by decide) rfl (by decide)
    (show 1 < 2 ^ 31 by norm_num) (show 2 < 2 ^ 31 by norm_num)

/-! ## Without a button -/

def Action.separateRequest : Action Endpoint → Option (SeparateResource.Metadata Endpoint)
  | .getSeparate request => some request
  | _ => none

theorem separate_without_button (h : platform.button = false) (as : List (Action Endpoint)) :
    as.filterMap (Action.separate platform) =
      (as.filterMap Action.separateRequest).map .get := by
  rw [List.map_filterMap]
  congr 1
  funext a
  cases a with
  | button transaction => simp [Action.separate, Action.separateRequest, h]
  | _ => rfl

/-- Requests alone are taken over up to the limit, and then rejected. -/
theorem run_requests (s : SeparateResource.State Endpoint)
    (requests : List (SeparateResource.Metadata Endpoint)) :
    ∃ s', run SeparateResource.handleStep s (requests.map .get) =
      some (List.replicate (min requests.length (SeparateResource.COAP_MAX_OPEN_SEPARATE -
          s.separateActive)) (.takenOver SeparateResource.firstStore) ++
        List.replicate (requests.length - (SeparateResource.COAP_MAX_OPEN_SEPARATE -
          s.separateActive)) .rejected, s') := by
  induction requests generalizing s with
  | nil => exact ⟨s, by simp [run]⟩
  | cons request requests ih =>
    by_cases hfull : s.separateActive ≥ SeparateResource.COAP_MAX_OPEN_SEPARATE
    · obtain ⟨s', hrun⟩ := ih s
      have hstep : SeparateResource.handleStep s (.get request) = some (.rejected, s) := by
        simp only [SeparateResource.handleStep, SeparateResource.handle,
          SeparateResource.resGetHandler, if_pos hfull]
      refine ⟨s', (run_cons hstep hrun).trans ?_⟩
      have hzero : SeparateResource.COAP_MAX_OPEN_SEPARATE - s.separateActive = 0 := by omega
      simp [hzero, List.replicate_succ]
    · obtain ⟨s₁, hactive, hstep⟩ : ∃ s₁ : SeparateResource.State Endpoint,
          s₁.separateActive = s.separateActive + 1 ∧
          SeparateResource.handleStep s (.get request) =
            some (.takenOver SeparateResource.firstStore, s₁) := by
        simp only [SeparateResource.handleStep, SeparateResource.handle,
          SeparateResource.resGetHandler, if_neg hfull]
        exact ⟨_, rfl, rfl⟩
      obtain ⟨s', hrun⟩ := ih s₁
      refine ⟨s', (run_cons hstep hrun).trans ?_⟩
      obtain ⟨room, hroom⟩ : ∃ room,
          SeparateResource.COAP_MAX_OPEN_SEPARATE - s.separateActive = room + 1 :=
        ⟨SeparateResource.COAP_MAX_OPEN_SEPARATE - s.separateActive - 1, by omega⟩
      have hless : SeparateResource.COAP_MAX_OPEN_SEPARATE - (s.separateActive + 1) = room := by
        omega
      rw [hactive, hless, hroom, List.length_cons, Nat.add_min_add_right, List.replicate_succ,
        List.cons_append, Nat.add_sub_add_right]

/-- On a platform without a button the first two separate requests are taken over and never
answered, and all others are rejected. -/
theorem without_button (platform : Platform) (undefined : Int32 → Int32 → Bool)
    (stores : Fin SeparateResource.COAP_MAX_OPEN_SEPARATE → SeparateResource.Store Endpoint)
    (as : List (Action Endpoint)) (h : platform.button = false) :
    ∃ es s, run (step platform undefined) (boot stores) as = some (es, s) ∧
      es.filterMap Effect.ofSeparate =
        List.replicate (min (as.filterMap Action.separateRequest).length 2)
          (.takenOver SeparateResource.firstStore) ++
        List.replicate ((as.filterMap Action.separateRequest).length - 2) .rejected := by
  obtain ⟨es, s, hrun⟩ := exists_run_boot platform undefined stores as
  have hseparate := separate_run hrun
  rw [show (boot stores).separate = ⟨0, stores⟩ from rfl] at hseparate
  obtain ⟨s', hrequests⟩ := run_requests ⟨0, stores⟩ (as.filterMap Action.separateRequest)
  rw [separate_without_button h, hrequests] at hseparate
  exact ⟨es, s, hrun, (Prod.mk.inj (Option.some.inj hseparate)).1.symm⟩

/-- Three requests, with a press of a button that is not there between them. -/
theorem without_button_three : ∃ es s,
    run (step { fullPlatform with button := false } fun _ _ => true)
      (boot fun _ => ⟨⟨(), true, 0, [], 0, 64⟩, fun _ => 0⟩)
      [.getSeparate ⟨(), true, 1, [], 0, 64⟩, .getSeparate ⟨(), true, 2, [], 0, 64⟩, .button true,
        .getSeparate ⟨(), true, 3, [], 0, 64⟩] = some (es, s) ∧
      es.filterMap Effect.ofSeparate =
        List.replicate 2 (.takenOver SeparateResource.firstStore) ++ List.replicate 1 .rejected :=
  without_button { fullPlatform with button := false } _ _ _ rfl

end IotLabTraining.ExampleServer
