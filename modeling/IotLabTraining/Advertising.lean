import IotLabTraining.Runs
import IotLabTraining.ScanReport

/-!
# Advertising restarts

The state behind `ble_rss_autoadv_*`: the static duration, the stored vendor
data, the device name of the GAP service, and what `nimble_autoadv` was told
last. A call that fails an assertion stops the program. NimBLE and RIOT are
parameters: the payload that `nimble_autoadv_init` leaves, what
`nimble_autoadv_add_field` makes of it, and whether a name is accepted.
-/
namespace IotLabTraining.Advertising
open Runs ScanReport

/-- `INT32_MAX`, as the header documents it. -/
def BLE_HS_FOREVER : Int32 := Int32.maxValue

def BLE_GAP_AD_VENDOR : UInt8 := 0xff
def BLE_COMPANY_IDENTIFIER : UInt16 := 0xCAFE

inductive AutoadvFlag where
  | connectable
  | legacy
  | scannable
  deriving DecidableEq

inductive NimblePhy where
  | phy1M
  deriving DecidableEq

/-- `nimble_autoadv_cfg_t`. -/
structure AutoadvCfg where
  advDurationMs : Int32
  advItvlMs : Int32
  flags : List AutoadvFlag
  channelMap : UInt8
  filterPolicy : UInt8
  ownAddrType : UInt8
  phy : NimblePhy
  txPower : Int8
  deriving DecidableEq

/-- The configuration of `nimble_autoadv` and its payload. -/
structure Advertisement where
  cfg : AutoadvCfg
  payload : Bytes
  deriving DecidableEq

/-- What the code takes from NimBLE and RIOT. `addField` appends a field to a
payload and is `none` for every result but `BLUETIL_AD_OK`. -/
structure Nimble where
  ownAddrType : UInt8
  phyTxpwrGet : Int32
  advPduLen : ℕ
  initPayload : Bytes
  addField : Bytes → UInt8 → Bytes → Option Bytes
  defaultName : Bytes

/-- `manufacturer_specific_data`; `data` is the memory from the array on. -/
structure ManufacturerData where
  data : Memory
  dataLen : ℕ
  valid : Bool

structure State where
  advDurationMs : Int32
  manufacturerSpecificData : ManufacturerData
  deviceName : Bytes
  active : Bool
  adv : Option Advertisement

/-- The statics as they are initialized, before the first start. -/
def initial (nim : Nimble) : State where
  advDurationMs := BLE_HS_FOREVER
  manufacturerSpecificData := ⟨fun _ => 0, 0, false⟩
  deviceName := nim.defaultName
  active := false
  adv := none

namespace Nimble
variable (nim : Nimble)

def maxVendorDataSize : ℕ := nim.advPduLen - 2

/-- `ble_rss_current_tx_pwr`: the cast keeps one byte. -/
def currentTxPwr : Int8 := nim.phyTxpwrGet.toInt8

end Nimble

/-! ## The calls -/

variable (nim : Nimble)

/-- The `cfg` of `ble_rss_autoadv_start`. -/
def autoadvCfg (advDurationMs : Int32) : AutoadvCfg where
  advDurationMs := BLE_HS_FOREVER
  advItvlMs := advDurationMs
  flags := [.connectable, .legacy, .scannable]
  channelMap := 0
  filterPolicy := 0
  ownAddrType := nim.ownAddrType
  phy := .phy1M
  txPower := 0

/-- The field that is only added when the vendor data is valid. -/
def addVendor (p : Bytes) (vendor : ManufacturerData) : Option Bytes :=
  if vendor.valid then nim.addField p BLE_GAP_AD_VENDOR (bytesAt vendor.data vendor.dataLen)
  else some p

/-- What `ble_rss_autoadv_start` hands to `nimble_autoadv`; `none` is a failed
assertion. -/
def install (s : State) (advDurationMs : Int32) : Option Advertisement := do
  let p ← nim.addField nim.initPayload BLE_GAP_AD_NAME_SHORT s.deviceName
  let p ← nim.addField p BLE_GAP_AD_TX_POWER_LEVEL [nim.currentTxPwr.toUInt8]
  let p ← addVendor nim p s.manufacturerSpecificData
  return ⟨autoadvCfg nim advDurationMs, p⟩

/-- `ble_rss_autoadv_start`. -/
def autoadvStart (s : State) (advDurationMs : Int32) : Option State :=
  (install nim s advDurationMs).map fun a => { s with active := true, adv := some a }

/-- `ble_rss_autoadv_stop`. -/
def autoadvStop (s : State) : State := { s with active := false }

/-- The end of both setters: restart with the static duration, if active. -/
def restart (s : State) : Option State :=
  if s.active then autoadvStart nim (autoadvStop s) s.advDurationMs else some s

/-- `ble_rss_autoadv_set_device_name`; the service takes the name or refuses it. -/
def setDeviceName (s : State) (deviceName : Bytes) (accepted : Bool) : Option (Bool × State) :=
  if accepted then
    (restart nim { s with deviceName := cString deviceName }).map fun s => (true, s)
  else some (false, s)

/-- The stores of `ble_rss_autoadv_set_manufacturer_data`, by offset into `data`. -/
def vendorStores (data : Memory) (dataLen : ℕ) : List (ℕ × UInt8) :=
  (0, (BLE_COMPANY_IDENTIFIER &&& 0xFF).toUInt8) ::
    (1, ((BLE_COMPANY_IDENTIFIER &&& 0xFF00) >>> 8).toUInt8) ::
    (List.range dataLen).map fun i => (i + 2, data i)

def store (m : Memory) (w : ℕ × UInt8) : Memory := Function.update m w.1 w.2

/-- The struct behind the size check; without data the old bytes stay. -/
def storeVendor (vendor : ManufacturerData) (data : Option Memory) (dataLen : ℕ) :
    ManufacturerData :=
  match data with
  | some p => {
      data := (vendorStores p dataLen).foldl store vendor.data
      dataLen := dataLen + 2
      valid := true }
  | none => { vendor with valid := false }

/-- `ble_rss_autoadv_set_manufacturer_data`; `none` is the null pointer. -/
def setManufacturerData (s : State) (data : Option Memory) (dataLen : ℕ) :
    Option (Bool × State) :=
  if dataLen > nim.maxVendorDataSize then some (false, s)
  else
    let vendor := storeVendor s.manufacturerSpecificData data dataLen
    (restart nim { s with manufacturerSpecificData := vendor }).map fun s => (true, s)

inductive Call where
  | start (advDurationMs : Int32)
  | stop
  | setDeviceName (deviceName : Bytes) (accepted : Bool)
  | setManufacturerData (data : Option Memory) (dataLen : ℕ)

/-- A call with its return value, `true` where the function returns nothing. -/
def step : Step State Call Bool := fun s c =>
  match c with
  | .start d => (autoadvStart nim s d).map fun s => (true, s)
  | .stop => some (true, autoadvStop s)
  | .setDeviceName name accepted => setDeviceName nim s name accepted
  | .setManufacturerData data dataLen => setManufacturerData nim s data dataLen

/-! ## What one call can do -/

def Call.setter : Call → Bool
  | .start _ => false
  | .stop => false
  | .setDeviceName _ _ => true
  | .setManufacturerData _ _ => true

/-- The state with the value of an accepted setter stored. -/
def applied (s : State) : Call → State
  | .start _ => s
  | .stop => s
  | .setDeviceName name _ => { s with deviceName := cString name }
  | .setManufacturerData data dataLen =>
    { s with manufacturerSpecificData := storeVendor s.manufacturerSpecificData data dataLen }

/-- Whether a setter refuses its argument. -/
def refuses : Call → Bool
  | .start _ => false
  | .stop => false
  | .setDeviceName _ accepted => !accepted
  | .setManufacturerData _ dataLen => nim.maxVendorDataSize < dataLen

theorem autoadvStart_eq_some {s s' : State} {d : Int32} : autoadvStart nim s d = some s' ↔
    ∃ a, install nim s d = some a ∧ { s with active := true, adv := some a } = s' :=
  Option.map_eq_some_iff

theorem restart_active {s s' : State} (h : s.active = true) :
    restart nim s = some s' ↔ ∃ a, install nim s s.advDurationMs = some a ∧
      { s with active := true, adv := some a } = s' := by
  rw [restart, if_pos h]
  exact autoadvStart_eq_some nim

theorem restart_inactive {s : State} (h : s.active = false) : restart nim s = some s := by
  rw [restart, if_neg (by simp [h])]

theorem step_setter (s : State) {c : Call} (hc : c.setter = true) : step nim s c =
    if refuses nim c then some (false, s)
    else (restart nim (applied s c)).map fun s => (true, s) := by
  cases c with
  | start d => cases hc
  | stop => cases hc
  | setDeviceName name accepted =>
    cases accepted with
    | false => rfl
    | true => rfl
  | setManufacturerData data dataLen =>
    by_cases hlen : dataLen > nim.maxVendorDataSize
    · simp [step, setManufacturerData, refuses, hlen]
    · simp [step, setManufacturerData, refuses, applied, hlen]

theorem applied_adv (s : State) (c : Call) : (applied s c).adv = s.adv ∧
    (applied s c).active = s.active ∧ (applied s c).advDurationMs = s.advDurationMs := by
  cases c <;> exact ⟨rfl, rfl, rfl⟩

/-- All that a call can do when it returns. -/
theorem step_cases {s s' : State} {c : Call} {r : Bool} (h : step nim s c = some (r, s')) :
    (∃ d a, c = .start d ∧ install nim s d = some a ∧
      s' = { s with active := true, adv := some a }) ∨
    (c = .stop ∧ s' = { s with active := false }) ∨
    (c.setter = true ∧ r = false ∧ s' = s) ∨
    (c.setter = true ∧ r = true ∧ s.active = false ∧ s' = applied s c) ∨
    (c.setter = true ∧ r = true ∧ s.active = true ∧
      ∃ a, install nim (applied s c) s.advDurationMs = some a ∧
        s' = { applied s c with active := true, adv := some a }) := by
  cases hc : c.setter with
  | false =>
    cases c with
    | start d =>
      obtain ⟨s₁, hs₁, he⟩ := Option.map_eq_some_iff.mp h
      obtain ⟨rfl, rfl⟩ := Prod.mk.inj he
      obtain ⟨a, ha, rfl⟩ := (autoadvStart_eq_some nim).mp hs₁
      exact Or.inl ⟨d, a, rfl, ha, rfl⟩
    | stop =>
      obtain ⟨rfl, rfl⟩ := Prod.mk.inj (Option.some.inj h)
      exact Or.inr (Or.inl ⟨rfl, rfl⟩)
    | setDeviceName name accepted => cases hc
    | setManufacturerData data dataLen => cases hc
  | true =>
    rw [step_setter nim s hc] at h
    cases hr : refuses nim c with
    | true =>
      rw [hr, if_pos rfl] at h
      obtain ⟨rfl, rfl⟩ := Prod.mk.inj (Option.some.inj h)
      exact Or.inr (Or.inr (Or.inl ⟨rfl, rfl, rfl⟩))
    | false =>
      rw [hr, if_neg Bool.false_ne_true] at h
      obtain ⟨s₁, hs₁, he⟩ := Option.map_eq_some_iff.mp h
      obtain ⟨rfl, rfl⟩ := Prod.mk.inj he
      obtain ⟨-, hactive, hduration⟩ := applied_adv s c
      cases hs : s.active with
      | false =>
        rw [restart_inactive nim (hactive.trans hs)] at hs₁
        exact Or.inr (Or.inr (Or.inr (Or.inl ⟨rfl, rfl, rfl, (Option.some.inj hs₁).symm⟩)))
      | true =>
        obtain ⟨a, ha, rfl⟩ := (restart_active nim (hactive.trans hs)).mp hs₁
        exact Or.inr (Or.inr (Or.inr (Or.inr ⟨rfl, rfl, rfl, a, hduration ▸ ha, rfl⟩)))

/-! ## The advertisement across restarts -/

/-- A state with the argument of the last explicit start, which the code does
not keep. -/
structure Tracked where
  state : State
  lastStart : Option Int32

def lastStart (t : Tracked) : Call → Option Int32
  | .start d => some d
  | _ => t.lastStart

def trackedStep : Step Tracked Call Bool := fun t c =>
  (step nim t.state c).map fun p => (p.1, ⟨p.2, lastStart t c⟩)

/-- While advertising is active, what is in force is what a fresh start with
the last duration would install, and that duration is its lifetime. -/
def Governed (t : Tracked) : Prop :=
  t.state.active = true → ∃ d a, t.lastStart = some d ∧ t.state.adv = some a ∧
    install nim t.state d = some a ∧ a.cfg.advDurationMs = d

/-- What a setter may change. -/
structure SetterPreserves (s : State) (c : Call) (r : Bool) (s' : State) : Prop where
  refused : r = false → s' = s
  inactive : s.active = false → s'.adv = s.adv ∧ s'.active = false
  restarted : s.active = true → s'.active = true ∧
    s'.adv.map Advertisement.cfg = s.adv.map Advertisement.cfg
  stored : r = true → s'.deviceName = (applied s c).deviceName ∧
    s'.manufacturerSpecificData = (applied s c).manufacturerSpecificData

def PreservedAt (t : Tracked) (c : Call) : Prop :=
  ∀ r t', trackedStep nim t c = some (r, t') →
    Governed nim t' ∧ (c.setter = true → SetterPreserves t.state c r t'.state)

/-- An explicit start whose assertions hold is called with `BLE_HS_FOREVER`. -/
def ForeverAt (t : Tracked) (c : Call) : Prop :=
  ∀ d, c = .start d → (install nim t.state d).isSome = true → d = BLE_HS_FOREVER

/-- The static duration never changes, and as long as every start uses the same
value the configuration in force is the one of a fresh start. -/
def Forever (t : Tracked) : Prop :=
  t.state.advDurationMs = BLE_HS_FOREVER ∧
    (t.state.active = true → t.lastStart = some BLE_HS_FOREVER ∧
      ∃ a, t.state.adv = some a ∧ install nim t.state BLE_HS_FOREVER = some a)

theorem install_cfg {s : State} {d : Int32} {a : Advertisement} (h : install nim s d = some a) :
    a.cfg = autoadvCfg nim d := by
  unfold install at h
  obtain ⟨p, -, h⟩ := Option.bind_eq_some_iff.mp h
  obtain ⟨q, -, h⟩ := Option.bind_eq_some_iff.mp h
  obtain ⟨r, -, h⟩ := Option.bind_eq_some_iff.mp h
  rw [← Option.some.inj h]

theorem governed_of_forever {t : Tracked} (h : Forever nim t) : Governed nim t := by
  intro hactive
  obtain ⟨hlast, a, hadv, ha⟩ := h.2 hactive
  exact ⟨BLE_HS_FOREVER, a, hlast, hadv, ha, by rw [install_cfg nim ha]; rfl⟩

theorem lastStart_setter (t : Tracked) {c : Call} (hc : c.setter = true) :
    lastStart t c = t.lastStart := by
  cases c with
  | start d => cases hc
  | stop => cases hc
  | setDeviceName name accepted => rfl
  | setManufacturerData data dataLen => rfl

/-- One call keeps the invariant, and a setter changes no more than its value. -/
theorem forever_step {t t' : Tracked} {c : Call} {r : Bool} (ht : Forever nim t)
    (hc : ForeverAt nim t c) (h : trackedStep nim t c = some (r, t')) :
    Forever nim t' ∧ (c.setter = true → SetterPreserves t.state c r t'.state) := by
  obtain ⟨⟨r₁, s'⟩, hstep, he⟩ := Option.map_eq_some_iff.mp h
  obtain ⟨rfl, rfl⟩ := Prod.mk.inj he
  obtain ⟨hduration, hforce⟩ := ht
  obtain ⟨hadv, hactive, hdur⟩ := applied_adv t.state c
  rcases step_cases nim hstep with ⟨d, a, rfl, ha, rfl⟩ | ⟨rfl, rfl⟩ | ⟨hset, rfl, rfl⟩ |
    ⟨hset, rfl, hs, rfl⟩ | ⟨hset, rfl, hs, a, ha, rfl⟩
  · obtain rfl := hc d rfl (by rw [ha]; rfl)
    exact ⟨⟨hduration, fun _ => ⟨rfl, a, rfl, ha⟩⟩, fun hset => by cases hset⟩
  · exact ⟨⟨hduration, fun hs => by cases hs⟩, fun hset => by cases hset⟩
  · rw [lastStart_setter t hset]
    refine ⟨⟨hduration, hforce⟩, fun _ => ?_⟩
    exact {
      refused := fun _ => rfl
      inactive := fun hs => ⟨rfl, hs⟩
      restarted := fun hs => ⟨hs, rfl⟩
      stored := fun hr => by cases hr }
  · have hnot : (applied t.state c).active = false := hactive.trans hs
    refine ⟨⟨hdur.trans hduration, fun hs' => by rw [hnot] at hs'; cases hs'⟩, fun _ => ?_⟩
    exact {
      refused := fun hr => by cases hr
      inactive := fun _ => ⟨hadv, hnot⟩
      restarted := fun hs' => by rw [hs] at hs'; cases hs'
      stored := fun _ => ⟨rfl, rfl⟩ }
  · obtain ⟨hlast, a₀, hadv₀, ha₀⟩ := hforce hs
    rw [hduration] at ha
    refine ⟨⟨hdur.trans hduration, fun _ => ⟨?_, a, rfl, ha⟩⟩, fun _ => ?_⟩
    · exact (lastStart_setter t hset).trans hlast
    · exact {
        refused := fun hr => by cases hr
        inactive := fun hs' => by rw [hs] at hs'; cases hs'
        restarted := fun _ => ⟨rfl, by
          rw [hadv₀, Option.map_some, Option.map_some, install_cfg nim ha, install_cfg nim ha₀]⟩
        stored := fun _ => ⟨rfl, rfl⟩ }

theorem preservedAt_iff {t : Tracked} (ht : Forever nim t) (c : Call) :
    PreservedAt nim t c ↔ ForeverAt nim t c := by
  constructor
  · rintro hp d rfl hsome
    obtain ⟨a, ha⟩ := Option.isSome_iff_exists.mp hsome
    have hstep : trackedStep nim t (.start d) =
        some (true, ⟨{ t.state with active := true, adv := some a }, some d⟩) := by
      rw [trackedStep, step, autoadvStart, ha]
      rfl
    obtain ⟨d', a', hd, ha', -, hlife⟩ := (hp _ _ hstep).1 rfl
    obtain rfl := Option.some.inj hd
    obtain rfl := Option.some.inj ha'
    rw [← hlife, install_cfg nim ha]
    rfl
  · intro hc r t' h
    obtain ⟨hkeep, hset⟩ := forever_step nim ht hc h
    exact ⟨governed_of_forever nim hkeep, hset⟩

/-- In every run restarts preserve the advertisement, and the user's duration is
its lifetime, exactly as far as every explicit start asks for `BLE_HS_FOREVER`:
`ble_rss_autoadv_start` takes its argument for the interval. -/
theorem restarts_preserve_iff (calls : List Call) :
    Along (trackedStep nim) (PreservedAt nim) ⟨initial nim, none⟩ calls ↔
      Along (trackedStep nim) (ForeverAt nim) ⟨initial nim, none⟩ calls := by
  have hinit : Forever nim ⟨initial nim, none⟩ := ⟨rfl, fun h => by cases h⟩
  exact along_congr (fun t c ht => preservedAt_iff nim ht c)
    (fun t c r t' ht hc h => (forever_step nim ht hc h).1) hinit calls

/-- A stack with a legacy payload; only the flags are in it after `init`. -/
def legacyNimble : Nimble where
  ownAddrType := 0
  phyTxpwrGet := 0
  advPduLen := 37
  initPayload := [0x02, 0x01, 0x06]
  addField p type data :=
    if p.length + (data.length + 2) ≤ 31
    then some (p ++ (data.length + 1).toUInt8 :: type :: data) else none
  defaultName := ascii "nimble"

/-- A start for one second advertises forever. -/
theorem start_second_not_preserved : ¬ Along (trackedStep legacyNimble)
    (PreservedAt legacyNimble) ⟨initial legacyNimble, none⟩ [.start 1000] := by
  rintro ⟨h, -⟩
  have hforever := (preservedAt_iff legacyNimble ⟨rfl, fun h => by cases h⟩ (.start 1000)).mp h
  have hne : (1000 : Int32) ≠ BLE_HS_FOREVER := by decide
  exact hne (hforever 1000 rfl (by decide))

/-! ## The payload limit -/

/-- `nimble_autoadv` with a legacy payload: `init` leaves the field of the
default flags, and a field of `n` bytes takes `n + 2` of at most 31. -/
structure Legacy : Prop where
  initPayload_length : nim.initPayload.length = 3
  addField_eq : ∀ p type data, nim.addField p type data =
    if p.length + (data.length + 2) ≤ 31
    then some (p ++ (data.length + 1).toUInt8 :: type :: data) else none

/-- The bytes that the four fields take. -/
def advLength (s : State) : ℕ :=
  3 + (s.deviceName.length + 2) + 3 +
    if s.manufacturerSpecificData.valid then s.manufacturerSpecificData.dataLen + 2 else 0

variable {nim}

theorem addField_cases (h : Legacy nim) (p : Bytes) (type : UInt8) (data : Bytes) :
    (∃ q, nim.addField p type data = some q ∧ q.length = p.length + (data.length + 2) ∧
      q.length ≤ 31) ∨
    (nim.addField p type data = none ∧ 31 < p.length + (data.length + 2)) := by
  rw [h.addField_eq]
  split_ifs with hfits
  · left
    have hlen : (p ++ (data.length + 1).toUInt8 :: type :: data).length =
        p.length + (data.length + 2) := by simp
    exact ⟨_, rfl, hlen, hlen ▸ hfits⟩
  · right
    exact ⟨rfl, by omega⟩

theorem addVendor_cases (h : Legacy nim) (p : Bytes) (vendor : ManufacturerData)
    (hp : p.length ≤ 31) :
    (addVendor nim p vendor).isSome = true ↔
      p.length + (if vendor.valid then vendor.dataLen + 2 else 0) ≤ 31 := by
  unfold addVendor
  split_ifs with hvalid
  · rcases addField_cases h p BLE_GAP_AD_VENDOR (bytesAt vendor.data vendor.dataLen) with
      ⟨q, hq, hlen, hle⟩ | ⟨hq, hlt⟩
    · rw [bytesAt_length] at hlen
      simp only [hq, Option.isSome_some, true_iff]
      omega
    · rw [bytesAt_length] at hlt
      simp only [hq, Option.isSome_none, Bool.false_eq_true, false_iff]
      omega
  · simpa using hp

/-- All assertions of a start hold exactly when the four fields fit together. -/
theorem install_isSome_iff (h : Legacy nim) (s : State) (d : Int32) :
    (install nim s d).isSome = true ↔ advLength s ≤ 31 := by
  have hflags := h.initPayload_length
  unfold install advLength
  rcases addField_cases h nim.initPayload BLE_GAP_AD_NAME_SHORT s.deviceName with
    ⟨p, hp, hlen, hle⟩ | ⟨hp, hlt⟩
  · rcases addField_cases h p BLE_GAP_AD_TX_POWER_LEVEL [nim.currentTxPwr.toUInt8] with
      ⟨q, hq, hlen', hle'⟩ | ⟨hq, hlt'⟩
    · have hvendor := addVendor_cases h q s.manufacturerSpecificData hle'
      rw [List.length_singleton] at hlen'
      have hsum : q.length = 3 + (s.deviceName.length + 2) + 3 := by omega
      rw [hp, Option.bind_eq_bind, Option.bind_some, hq, Option.bind_some, ← hsum, ← hvendor]
      cases addVendor nim q s.manufacturerSpecificData <;> rfl
    · rw [List.length_singleton] at hlt'
      rw [hp, Option.bind_eq_bind, Option.bind_some, hq]
      simp only [Option.bind_none, Option.isSome_none, Bool.false_eq_true, false_iff]
      omega
  · rw [hp]
    simp only [Option.bind_eq_bind, Option.bind_none, Option.isSome_none, Bool.false_eq_true,
      false_iff]
    omega

/-- Where a call builds a payload, its fields fit: at an explicit start, and at
an accepted setter while advertising is active. -/
def FitsAt (nim : Nimble) (s : State) (c : Call) : Prop :=
  ((∃ d, c = .start d) ∨ (c.setter = true ∧ refuses nim c = false ∧ s.active = true)) →
    advLength (applied s c) ≤ 31

theorem step_isSome_iff (h : Legacy nim) (s : State) (c : Call) :
    (step nim s c).isSome = true ↔ FitsAt nim s c := by
  obtain ⟨-, hactive, -⟩ := applied_adv s c
  cases hc : c.setter with
  | false =>
    cases c with
    | start d =>
      have hbuild : (step nim s (.start d)).isSome = (install nim s d).isSome := by
        simp [step, autoadvStart]
      rw [hbuild, install_isSome_iff h]
      exact ⟨fun hfits _ => hfits, fun hfits => hfits (Or.inl ⟨d, rfl⟩)⟩
    | stop => simp [step, FitsAt, Call.setter]
    | setDeviceName name accepted => cases hc
    | setManufacturerData data dataLen => cases hc
  | true =>
    have hstart : ¬ ∃ d, c = .start d := by
      rintro ⟨d, rfl⟩
      cases hc
    rw [step_setter nim s hc, FitsAt, hc]
    cases hr : refuses nim c with
    | true => simp [hstart]
    | false =>
      cases hs : s.active with
      | false =>
        rw [restart_inactive nim (hactive.trans hs)]
        simp [hstart]
      | true =>
        have hbuild : (restart nim (applied s c)).isSome =
            (install nim (applied s c) (applied s c).advDurationMs).isSome := by
          rw [restart, if_pos (hactive.trans hs), autoadvStart, Option.isSome_map]
          rfl
        simp [hstart, hbuild, install_isSome_iff h]

/-- In every run all assertions hold exactly as far as, wherever a payload is
built, the name and the vendor data fit into it together. -/
theorem asserts_hold_iff (h : Legacy nim) (calls : List Call) :
    Along (step nim) (fun s c => (step nim s c).isSome = true) (initial nim) calls ↔
      Along (step nim) (FitsAt nim) (initial nim) calls :=
  along_congr (I := fun _ => True) (fun s c _ => step_isSome_iff h s c)
    (fun _ _ _ _ _ _ _ => trivial) trivial calls

theorem legacyNimble_legacy : Legacy legacyNimble := ⟨rfl, fun _ _ _ => rfl⟩

/-- A short name and two bytes of vendor data, set while advertising. -/
theorem asserts_hold_node : Along (step legacyNimble)
    (fun s c => (step legacyNimble s c).isSome = true) (initial legacyNimble)
    [.setDeviceName (ascii "node-1") true, .start BLE_HS_FOREVER,
      .setManufacturerData (some fun _ => 1) 2] := by
  apply (asserts_hold_iff legacyNimble_legacy _).mpr
  refine ⟨fun _ => by decide, fun r s h => ?_⟩
  obtain ⟨rfl, rfl⟩ := Prod.mk.inj (Option.some.inj h)
  refine ⟨fun _ => by decide, fun r s h => ?_⟩
  obtain ⟨rfl, rfl⟩ := Prod.mk.inj (Option.some.inj h)
  exact ⟨fun _ => by decide, fun r s h => trivial⟩

/-- A name that fills its own buffer leaves no room for the other fields. -/
theorem long_name_asserts : ¬ Along (step legacyNimble)
    (fun s c => (step legacyNimble s c).isSome = true) (initial legacyNimble)
    [.setDeviceName (List.replicate 31 97) true, .start BLE_HS_FOREVER] := by
  rintro ⟨-, h⟩
  obtain ⟨hstart, -⟩ := h _ _ rfl
  revert hstart
  decide

end IotLabTraining.Advertising
