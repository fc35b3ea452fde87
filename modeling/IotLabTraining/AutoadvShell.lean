import IotLabTraining.Advertising
import IotLabTraining.ScanShell
import IotLabTraining.TxPower

/-!
# The advertising command

`_cmd_autoadv` takes its arguments to the calls of `ble_rss_autoadv_*`, or prints how it is
used and returns an error. What is typed on one node comes out of the scan report of another
one that receives its advertisement, where RIOT's search finds the fields of a payload that
consists of whole fields.
-/
namespace IotLabTraining.AutoadvShell
open AdFields Advertising Runs ScanReport
open ScanShell (Board atoi32)

variable (nim : Nimble) (board : Board)

/-- A line of the shell; `accepted` is whether the stack takes the name, if it is asked. -/
structure Command where
  argv : List Bytes
  accepted : Bool

/-- What the command returns and prints. -/
structure Reply where
  ret : ℤ
  out : Bytes

def usage (name : Bytes) : Bytes :=
  ascii "ERROR: invalid call.Usage:\n" ++
    ascii "autoadv: " ++ name ++
    ascii " <start|stop|name|pwr> [<adv_duration_ms>|<device_name>]\n" ++
    ascii " - start <adv_timeout_ms>: sets advertisement duration in ms\n" ++
    ascii " - name <device_name>: sets the advertised device name\n" ++
    ascii " - stop: stops BLE advertisement\n" ++
    ascii " - pwr: prints current Tx Power from phy\n"

/-- The end of the command. -/
def reply (argv : List Bytes) (ret : ℤ) (out : Bytes) : Reply :=
  ⟨ret, if ret = 0 then out else out ++ usage (argv.headD [])⟩

/-- `_cmd_autoadv`; `none` is a failed assertion. -/
def cmdAutoadv (s : State) (c : Command) : Option (Reply × State) :=
  let argv := c.argv
  if 3 ≤ argv.length then
    if argv[1]? = some (ascii "start") then
      (autoadvStart nim s (atoi32 board (argv.getD 2 []))).map fun s => (reply argv 0 [], s)
    else if argv[1]? = some (ascii "name") then
      (setDeviceName nim s (argv.getD 2 []) c.accepted).map fun r =>
        (reply argv (if r.1 then 0 else -1) [], r.2)
    else some (reply argv (-1) [], s)
  else if 2 ≤ argv.length then
    if argv[1]? = some (ascii "start") then
      (autoadvStart nim s Int32.maxValue).map fun s => (reply argv 0 [], s)
    else if argv[1]? = some (ascii "stop") then some (reply argv 0 [], autoadvStop s)
    else if argv[1]? = some (ascii "name") then
      some (reply argv 0 (ascii "Current name = " ++ s.deviceName ++ [10]), s)
    else if argv[1]? = some (ascii "pwr") then
      some (reply argv 0 (ascii "Current Tx Power " ++ signed nim.currentTxPwr.toInt ++
        ascii " dBm\n"), s)
    else some (reply argv (-1) [], s)
  else some (reply argv (-1) [], s)

def shellStep : Step State Command Reply := cmdAutoadv nim board

/-! ## Sessions -/

/-- The call that a command makes, if it makes one. -/
def Command.call (c : Command) : Option Call :=
  if 3 ≤ c.argv.length then
    if c.argv[1]? = some (ascii "start") then
      some (.start (atoi32 board (c.argv.getD 2 [])))
    else if c.argv[1]? = some (ascii "name") then
      some (.setDeviceName (c.argv.getD 2 []) c.accepted)
    else none
  else if 2 ≤ c.argv.length then
    if c.argv[1]? = some (ascii "start") then some (.start Int32.maxValue)
    else if c.argv[1]? = some (ascii "stop") then some .stop
    else none
  else none

/-- A command makes its call, or leaves the state as it is. -/
theorem cmdAutoadv_cases (s : State) (c : Command) :
    (∃ call, c.call board = some call ∧ (cmdAutoadv nim board s c).map Prod.snd =
      (step nim s call).map Prod.snd) ∨
    (c.call board = none ∧ ∃ r, cmdAutoadv nim board s c = some (r, s)) := by
  unfold cmdAutoadv Command.call
  simp only
  split_ifs
  · left
    exact ⟨_, rfl, by simp [step, Option.map_map, Function.comp_def]⟩
  · left
    exact ⟨_, rfl, by simp [step, Option.map_map, Function.comp_def]⟩
  · right
    exact ⟨rfl, _, rfl⟩
  · left
    exact ⟨_, rfl, by simp [step, Option.map_map, Function.comp_def]⟩
  · left
    exact ⟨_, rfl, by simp [step]⟩
  · right
    exact ⟨rfl, _, rfl⟩
  · right
    exact ⟨rfl, _, rfl⟩
  · right
    exact ⟨rfl, _, rfl⟩
  · right
    exact ⟨rfl, _, rfl⟩

/-- A command that fails prints its usage and leaves the state as it was. -/
theorem cmdAutoadv_error {s s' : State} {c : Command} {r : Reply}
    (h : cmdAutoadv nim board s c = some (r, s')) (hret : r.ret ≠ 0) :
    s' = s ∧ r = ⟨-1, usage (c.argv.headD [])⟩ := by
  have hzero (argv : List Bytes) (out : Bytes) : (reply argv 0 out).ret = 0 := rfl
  have herror (argv : List Bytes) : reply argv (-1) [] = ⟨-1, usage (argv.headD [])⟩ := rfl
  unfold cmdAutoadv at h
  simp only at h
  split_ifs at h
  · obtain ⟨s₁, -, he⟩ := Option.map_eq_some_iff.mp h
    obtain ⟨rfl, -⟩ := Prod.mk.inj he
    exact absurd (hzero _ _) hret
  · obtain ⟨⟨returned, s₁⟩, hname, he⟩ := Option.map_eq_some_iff.mp h
    obtain ⟨rfl, rfl⟩ := Prod.mk.inj he
    cases returned with
    | true => exact absurd (hzero _ _) hret
    | false =>
      refine ⟨?_, herror _⟩
      unfold setDeviceName at hname
      split_ifs at hname
      · obtain ⟨s₂, -, he⟩ := Option.map_eq_some_iff.mp hname
        cases (Prod.mk.inj he).1
      · exact (Prod.mk.inj (Option.some.inj hname)).2.symm
  · obtain ⟨rfl, rfl⟩ := Prod.mk.inj (Option.some.inj h)
    exact ⟨rfl, herror _⟩
  · obtain ⟨s₁, -, he⟩ := Option.map_eq_some_iff.mp h
    obtain ⟨rfl, -⟩ := Prod.mk.inj he
    exact absurd (hzero _ _) hret
  · obtain ⟨rfl, -⟩ := Prod.mk.inj (Option.some.inj h)
    exact absurd (hzero _ _) hret
  · obtain ⟨rfl, -⟩ := Prod.mk.inj (Option.some.inj h)
    exact absurd (hzero _ _) hret
  · obtain ⟨rfl, -⟩ := Prod.mk.inj (Option.some.inj h)
    exact absurd (hzero _ _) hret
  · obtain ⟨rfl, rfl⟩ := Prod.mk.inj (Option.some.inj h)
    exact ⟨rfl, herror _⟩
  · obtain ⟨rfl, rfl⟩ := Prod.mk.inj (Option.some.inj h)
    exact ⟨rfl, herror _⟩

/-- A session is a run of the calls that its commands make. -/
theorem run_calls {s s' : State} {cs : List Command} {rs : List Reply}
    (h : run (shellStep nim board) s cs = some (rs, s')) :
    ∃ qs, run (step nim) s (cs.filterMap (Command.call board)) = some (qs, s') := by
  induction cs generalizing s rs with
  | nil =>
    obtain ⟨-, rfl⟩ := Prod.mk.inj (Option.some.inj h)
    exact ⟨[], rfl⟩
  | cons c cs ih =>
    obtain ⟨⟨r, s₁⟩, hstep, hrest⟩ := Option.bind_eq_some_iff.mp h
    obtain ⟨⟨rs', s₂⟩, hrun, he⟩ := Option.map_eq_some_iff.mp hrest
    obtain ⟨-, rfl⟩ := Prod.mk.inj he
    obtain ⟨qs, hqs⟩ := ih hrun
    have hcmd : cmdAutoadv nim board s c = some (r, s₁) := hstep
    rcases cmdAutoadv_cases nim board s c with ⟨call, hcall, hsame⟩ | ⟨hnone, r', hidle⟩
    · rw [hcmd, Option.map_some] at hsame
      obtain ⟨⟨q, t⟩, hq, ht⟩ := Option.map_eq_some_iff.mp hsame.symm
      obtain rfl : t = s₁ := ht
      rw [List.filterMap_cons_some hcall]
      exact ⟨q :: qs, run_cons hq hqs⟩
    · rw [hidle] at hcmd
      obtain ⟨-, rfl⟩ := Prod.mk.inj (Option.some.inj hcmd)
      rw [List.filterMap_cons_none hnone]
      exact ⟨qs, hqs⟩

/-! ## The payload in force -/

def BLE_GAP_AD_FLAGS : UInt8 := 0x01

/-- A legacy payload that begins with the flags, and a default name that is a C string. -/
structure Flagged (flags : UInt8) : Prop extends Legacy nim where
  initPayload_eq : nim.initPayload = [2, BLE_GAP_AD_FLAGS, flags]
  nulFree : 0 ∉ nim.defaultName

/-- The fields that a start adds, each with its type. -/
def advertised (flags : UInt8) (s : State) : List (UInt8 × Bytes) :=
  [(BLE_GAP_AD_FLAGS, [flags]), (BLE_GAP_AD_NAME_SHORT, s.deviceName),
    (BLE_GAP_AD_TX_POWER_LEVEL, [nim.currentTxPwr.toUInt8])] ++
    if s.manufacturerSpecificData.valid then
      [(BLE_GAP_AD_VENDOR, bytesAt s.manufacturerSpecificData.data
        s.manufacturerSpecificData.dataLen)]
    else []

/-- The payload consists of these fields, and is a legacy one. -/
structure Consists (p : Bytes) (fields : List (UInt8 × Bytes)) : Prop where
  length_le : p.length ≤ 31
  exists_entries : ∃ l : List Entry, p = encode l ∧ l.map (fun a => (a.type, a.data)) = fields

variable {nim board} {flags : UInt8}

theorem consists_flags (h : Flagged nim flags) :
    Consists nim.initPayload [(BLE_GAP_AD_FLAGS, [flags])] where
  length_le := by
    rw [h.initPayload_length]
    omega
  exists_entries :=
    ⟨[⟨BLE_GAP_AD_FLAGS, [flags], Nat.lt_of_sub_eq_succ rfl⟩], h.initPayload_eq, rfl⟩

/-- A field that is added stands behind the others. -/
theorem consists_addField (h : Flagged nim flags) {p q : Bytes}
    {fields : List (UInt8 × Bytes)} (hp : Consists p fields) {type : UInt8} {data : Bytes}
    (hq : nim.addField p type data = some q) : Consists q (fields ++ [(type, data)]) := by
  obtain ⟨-, l, rfl, rfl⟩ := hp
  rw [h.addField_eq] at hq
  split_ifs at hq with hfits
  obtain rfl := Option.some.inj hq
  refine ⟨by simpa using hfits, l ++ [⟨type, data, by omega⟩], ?_, by simp⟩
  rw [encode, encode, List.flatMap_append, List.flatMap_singleton]
  rfl

/-- What a start installs. -/
theorem consists_install (h : Flagged nim flags) {s : State} {d : Int32} {a : Advertisement}
    (ha : install nim s d = some a) : Consists a.payload (advertised nim flags s) := by
  unfold install at ha
  obtain ⟨p, hp, ha⟩ := Option.bind_eq_some_iff.mp ha
  obtain ⟨q, hq, ha⟩ := Option.bind_eq_some_iff.mp ha
  obtain ⟨r, hr, ha⟩ := Option.bind_eq_some_iff.mp ha
  obtain rfl := Option.some.inj ha
  have htx := consists_addField h (consists_addField h (consists_flags h) hp) hq
  unfold addVendor at hr
  unfold advertised
  split_ifs at hr ⊢ with hvalid
  · exact consists_addField h htx hr
  · obtain rfl := Option.some.inj hr
    rwa [List.append_nil]

/-- While advertising is active, the payload in force has the fields of the state. -/
def Current (nim : Nimble) (flags : UInt8) (s : State) : Prop :=
  s.active = true → ∃ a, s.adv = some a ∧ Consists a.payload (advertised nim flags s)

theorem current_step (h : Flagged nim flags) {s s' : State} {c : Call} {r : Bool}
    (hs : Current nim flags s) (hstep : step nim s c = some (r, s')) : Current nim flags s' := by
  rcases step_cases nim hstep with ⟨d, a, rfl, ha, rfl⟩ | ⟨rfl, rfl⟩ | ⟨-, -, rfl⟩ |
    ⟨-, -, hinactive, rfl⟩ | ⟨-, -, -, a, ha, rfl⟩
  · exact fun _ => ⟨a, rfl, consists_install h ha⟩
  · intro hactive
    cases hactive
  · exact hs
  · intro hactive
    rw [(applied_adv s c).2.1, hinactive] at hactive
    cases hactive
  · exact fun _ => ⟨a, rfl, consists_install h ha⟩

/-- The name of a call that sets one. -/
def acceptedName : Call → Option Bytes
  | .setDeviceName name true => some (cString name)
  | _ => none

theorem deviceName_step {s s' : State} {c : Call} {r : Bool}
    (hstep : step nim s c = some (r, s')) :
    s'.deviceName = (acceptedName c).getD s.deviceName := by
  cases c with
  | setDeviceName name accepted =>
    have hcases := step_setter nim s (c := .setDeviceName name accepted) rfl
    rw [hstep] at hcases
    cases accepted with
    | false => exact congrArg State.deviceName (Prod.mk.inj (Option.some.inj hcases)).2
    | true =>
      obtain ⟨s₁, hs₁, he⟩ := Option.map_eq_some_iff.mp hcases.symm
      obtain ⟨-, rfl⟩ := Prod.mk.inj he
      unfold restart at hs₁
      split_ifs at hs₁
      · obtain ⟨a, -, rfl⟩ := (autoadvStart_eq_some nim).mp hs₁
        rfl
      · obtain rfl := Option.some.inj hs₁
        rfl
  | start d =>
    obtain ⟨s₁, hs₁, he⟩ := Option.map_eq_some_iff.mp hstep
    obtain ⟨-, rfl⟩ := Prod.mk.inj he
    obtain ⟨a, -, rfl⟩ := (autoadvStart_eq_some nim).mp hs₁
    rfl
  | stop =>
    obtain ⟨-, rfl⟩ := Prod.mk.inj (Option.some.inj hstep)
    rfl
  | setManufacturerData data dataLen =>
    rcases step_cases nim hstep with ⟨d, a, hc, -, -⟩ | ⟨hc, -⟩ | ⟨-, -, rfl⟩ | ⟨-, -, -, rfl⟩ |
      ⟨-, -, -, a, -, rfl⟩
    · cases hc
    · cases hc
    · rfl
    · rfl
    · rfl

/-- The last name that was accepted, or the default. -/
def nameAfter (name : Bytes) (calls : List Call) : Bytes :=
  ((calls.filterMap acceptedName).getLast?).getD name

/-- In every run the name is the last one that was accepted, and the payload in force is up to
date. -/
theorem run_current (h : Flagged nim flags) {s s' : State} {calls : List Call} {qs : List Bool}
    (hs : Current nim flags s) (hrun : run (step nim) s calls = some (qs, s')) :
    Current nim flags s' ∧ s'.deviceName = nameAfter s.deviceName calls := by
  induction calls generalizing s qs with
  | nil =>
    obtain ⟨-, rfl⟩ := Prod.mk.inj (Option.some.inj hrun)
    exact ⟨hs, rfl⟩
  | cons c calls ih =>
    obtain ⟨⟨q, s₁⟩, hstep, hrest⟩ := Option.bind_eq_some_iff.mp hrun
    obtain ⟨⟨qs', s₂⟩, hrun', he⟩ := Option.map_eq_some_iff.mp hrest
    obtain ⟨-, rfl⟩ := Prod.mk.inj he
    obtain ⟨hcurrent, hname⟩ := ih (current_step h hs hstep) hrun'
    refine ⟨hcurrent, ?_⟩
    rw [hname, deviceName_step hstep, nameAfter, nameAfter]
    cases hc : acceptedName c with
    | none => rw [List.filterMap_cons_none hc, Option.getD_none]
    | some name =>
      rw [List.filterMap_cons_some hc, List.getLast?_cons, Option.getD_some, Option.getD_some]

/-! ## The report of another node -/

/-- The scan list has an entry with this payload. -/
structure Received (e : ScanlistEntry) (p : Bytes) : Prop where
  length_eq : e.adLen.toNat = p.length
  holds : Holds e.ad 0 p

/-- RIOT's search for a string: the data of the first field of the type, if it and its
terminator fit. -/
structure FindsStr (b : Bluetil) : Prop where
  adFindStr_eq : ∀ (l : List Entry) (ad : BluetilAd) (type : UInt8) (size : ℕ),
    Holds ad.buf 0 (encode l) → ad.pos = (encode l).length →
      (∀ a ∈ l, a.type = type → a.data.length + 1 ≤ size) →
        b.adFindStr ad type size = (l.find? fun a => a.type = type).map Entry.data

/-- The data of the first field of a type. -/
def dataOf (fields : List (UInt8 × Bytes)) (type : UInt8) : Option Bytes :=
  (fields.find? fun f => f.1 = type).map Prod.snd

theorem dataOf_map (l : List Entry) (type : UInt8) :
    dataOf (l.map fun a => (a.type, a.data)) type =
      (l.find? fun a => a.type = type).map Entry.data := by
  rw [dataOf, List.find?_map, Option.map_map]
  rfl

theorem encode_length_ge {l : List Entry} {a : Entry} (h : a ∈ l) :
    a.data.length + 2 ≤ (encode l).length := by
  have hsub : a.bytes.Sublist (encode l) := by
    rw [encode, List.flatMap_def]
    exact List.sublist_flatten_of_mem (List.mem_map_of_mem h)
  exact bytes_length a ▸ hsub.length_le

/-- A string is found where the payload has a field of the type. -/
theorem adFindStr_of_consists {b : Bluetil} (hb : FindsStr b) {e : ScanlistEntry} {p : Bytes}
    (he : Received e p) {fields : List (UInt8 × Bytes)} (hp : Consists p fields)
    (type : UInt8) :
    b.adFindStr (entryAd e) type (b.advPduLen + 1) = dataOf fields type := by
  obtain ⟨hlen, l, rfl, rfl⟩ := hp
  rw [dataOf_map]
  apply hb.adFindStr_eq l (entryAd e) type _ he.holds he.length_eq
  intro a ha _
  have hle := encode_length_ge ha
  have hpdu := b.advPduLen_ge
  omega

/-- The byte that is reported for the TX power is the one of its field. -/
theorem phyTxpwrDbm_of_consists {b : Bluetil} (hb : TxPower.Walks b) {e : ScanlistEntry}
    {p : Bytes} (he : Received e p) {fields : List (UInt8 × Bytes)} (hp : Consists p fields)
    {power : UInt8} (hpower : dataOf fields BLE_GAP_AD_TX_POWER_LEVEL = some [power]) :
    phyTxpwrDbm b e = power.toInt8 := by
  obtain ⟨-, l, rfl, rfl⟩ := hp
  rw [dataOf_map, ← firstMarked_encode BLE_GAP_AD_TX_POWER_LEVEL he.holds, ← he.length_eq]
    at hpower
  obtain ⟨f, hf, hdata⟩ := Option.map_eq_some_iff.mp hpower
  have hread : TxPower.txRead b e = some f.dataPos := by
    rw [TxPower.txRead, hb.dataPos_eq]
    exact congrArg (Option.map Field.dataPos) hf
  have hlen := congrArg List.length hdata
  rw [Field.data, List.length_map, List.length_range, List.length_singleton] at hlen
  rw [Field.data, hlen, List.range_one, List.map_singleton, List.singleton_inj, Nat.add_zero]
    at hdata
  rw [TxPower.phyTxpwrDbm_eq, hread, Option.map_some, Option.getD_some, hdata]

/-- What is found of the fields in force. -/
theorem dataOf_advertised (nim : Nimble) (flags : UInt8) (s : State) :
    dataOf (advertised nim flags s) BLE_GAP_AD_NAME = none ∧
    dataOf (advertised nim flags s) BLE_GAP_AD_NAME_SHORT = some s.deviceName ∧
    dataOf (advertised nim flags s) BLE_GAP_AD_TX_POWER_LEVEL =
      some [nim.currentTxPwr.toUInt8] := by
  have hflags : BLE_GAP_AD_FLAGS ≠ BLE_GAP_AD_NAME ∧ BLE_GAP_AD_FLAGS ≠ BLE_GAP_AD_NAME_SHORT ∧
      BLE_GAP_AD_FLAGS ≠ BLE_GAP_AD_TX_POWER_LEVEL := by decide
  have hshort : BLE_GAP_AD_NAME_SHORT ≠ BLE_GAP_AD_NAME ∧
      BLE_GAP_AD_NAME_SHORT ≠ BLE_GAP_AD_TX_POWER_LEVEL := by decide
  have htx : BLE_GAP_AD_TX_POWER_LEVEL ≠ BLE_GAP_AD_NAME := by decide
  have hvendor : BLE_GAP_AD_VENDOR ≠ BLE_GAP_AD_NAME := by decide
  unfold advertised dataOf
  refine ⟨?_, ?_, ?_⟩
  · split_ifs <;> simp [hflags, hshort, htx, hvendor]
  · simp [hflags]
  · simp [hflags, hshort]

/-- The report of an entry says what the shell of the advertising node was told. -/
structure Tells (b : Bluetil) (nim : Nimble) (e : ScanlistEntry) (name : Bytes) : Prop where
  name_eq : (nodeOf b e).name = name
  txpwrDbm_eq : (nodeOf b e).txpwrDbm = nim.currentTxPwr.toInt
  faithful_iff : Faithful b [e] ↔ JsonSafe name

theorem advertisedName_of_received {b : Bluetil} (hfinds : FindsStr b) {s : State}
    (hnul : 0 ∉ s.deviceName) {e : ScanlistEntry} {p : Bytes} (he : Received e p)
    (hp : Consists p (advertised nim flags s)) : advertisedName b e = s.deviceName := by
  obtain ⟨hcomplete, hshort, -⟩ := dataOf_advertised nim flags s
  rw [advertisedName, adFindStr_of_consists hfinds he hp, hcomplete,
    adFindStr_of_consists hfinds he hp, hshort]
  exact cString_of_nul_free hnul

theorem tells_of_received {b : Bluetil} (hwalks : TxPower.Walks b) (hfinds : FindsStr b)
    {s : State} (hnul : 0 ∉ s.deviceName) {e : ScanlistEntry} {p : Bytes} (he : Received e p)
    (hp : Consists p (advertised nim flags s)) : Tells b nim e s.deviceName := by
  have hname : advertisedName b e = s.deviceName := advertisedName_of_received hfinds hnul he hp
  refine ⟨hname, ?_, ?_⟩
  · rw [nodeOf, phyTxpwrDbm_of_consists hwalks he hp (dataOf_advertised nim flags s).2.2,
      Int8.toInt8_toUInt8]
  · rw [faithful_iff, List.forall_mem_singleton, deviceName_eq, hname]

/-- A name is a C string, be it the default or one that was accepted. -/
theorem zero_notMem_nameAfter {name : Bytes} (h : 0 ∉ name) (calls : List Call) :
    0 ∉ nameAfter name calls := by
  unfold nameAfter
  cases hlast : (calls.filterMap acceptedName).getLast? with
  | none => exact h
  | some last =>
    obtain ⟨c, -, hc⟩ := List.mem_filterMap.mp (List.mem_of_getLast? hlast)
    unfold acceptedName at hc
    split at hc
    · obtain rfl := Option.some.inj hc
      exact zero_notMem_cString _
    · cases hc

/-- Behind a session in which advertising is active, the name is the last one that was accepted,
and the payload in force has the fields of the state. -/
structure Advertises (nim : Nimble) (flags : UInt8) (s : State) (p name : Bytes) : Prop where
  deviceName_eq : s.deviceName = name
  nulFree : 0 ∉ s.deviceName
  consists : Consists p (advertised nim flags s)

theorem advertises_of_session (board : Board) (h : Flagged nim flags) {cs : List Command}
    {rs : List Reply} {s : State} (hrun : run (shellStep nim board) (initial nim) cs = some (rs, s))
    (hactive : s.active = true) {a : Advertisement} (ha : s.adv = some a) :
    Advertises nim flags s a.payload
      (nameAfter nim.defaultName (cs.filterMap (Command.call board))) := by
  obtain ⟨qs, hcalls⟩ := run_calls nim board hrun
  have hinit : Current nim flags (initial nim) := fun hnot => by cases hnot
  obtain ⟨hcurrent, hname⟩ := run_current h hinit hcalls
  obtain ⟨a', ha', hconsists⟩ := hcurrent hactive
  rw [ha] at ha'
  obtain rfl := Option.some.inj ha'
  refine ⟨hname, ?_, hconsists⟩
  rw [hname]
  exact zero_notMem_nameAfter h.nulFree _

/-- Behind any session in which advertising is active, a node that receives the advertisement
reports the last name that was accepted and the TX power, and its report can be read exactly
when that name is free of the bytes that the printer would have to escape. -/
theorem session_reported (board : Board) (h : Flagged nim flags) {b : Bluetil}
    (hwalks : TxPower.Walks b) (hfinds : FindsStr b) {cs : List Command} {rs : List Reply}
    {s : State} (hrun : run (shellStep nim board) (initial nim) cs = some (rs, s))
    (hactive : s.active = true) {a : Advertisement} (ha : s.adv = some a) {e : ScanlistEntry}
    (he : Received e a.payload) :
    Tells b nim e (nameAfter nim.defaultName (cs.filterMap (Command.call board))) := by
  obtain ⟨hname, hnul, hconsists⟩ := advertises_of_session board h hrun hactive ha
  rw [← hname]
  exact tells_of_received hwalks hfinds hnul he hconsists

/-! ## The search of the example -/

theorem walkFind_length {ad : BluetilAd} {type : UInt8} {fuel pos : ℕ} {r : ℕ × ℕ}
    (h : walkFind ad type fuel pos = some r) :
    ∃ p, r = (p + 2, (ad.buf p).toNat - 1) := by
  induction fuel generalizing pos with
  | zero => cases h
  | succ fuel ih =>
    unfold walkFind at h
    split_ifs at h
    · exact ⟨pos, (Option.some.inj h).symm⟩
    · exact ih h

theorem walkBluetil_findsStr : FindsStr walkBluetil := by
  refine ⟨fun l ad type size hholds hpos hfits => ?_⟩
  have hwalk := TxPower.walkFind_dataPos ad type ad.pos 0
  have hmarked := firstMarked_encode type hholds
  rw [← hpos] at hmarked
  change (walkFind ad type ad.pos 0).bind _ = _
  cases hfound : walkFind ad type ad.pos 0 with
  | none =>
    rw [hfound, Option.map_none, eq_comm, Option.map_eq_none_iff] at hwalk
    rw [firstMarked, fields, hwalk, Option.map_none] at hmarked
    exact hmarked
  | some r =>
    obtain ⟨p, rfl⟩ := walkFind_length hfound
    rw [hfound, Option.map_some] at hwalk
    obtain ⟨f, hf, hfpos⟩ := Option.map_eq_some_iff.mp hwalk.symm
    have hp : f.pos = p := Nat.add_right_cancel hfpos
    have hlen : f.len = (ad.buf p).toNat := by
      rw [← hp]
      exact (mem_fieldsFrom (List.mem_of_find?_eq_some hf)).2
    rw [firstMarked, fields, hf, Option.map_some] at hmarked
    obtain ⟨a, ha, hdata⟩ := Option.map_eq_some_iff.mp hmarked.symm
    have htype : a.type = type := by simpa using List.find?_some ha
    have hroom := hfits a (List.mem_of_find?_eq_some ha) htype
    have hlength : a.data.length = f.len - 1 := by
      rw [hdata, Field.data, List.length_map, List.length_range]
    rw [Option.bind_some, if_pos (by omega), ha, Option.map_some, hdata, Field.data, hfpos, hlen]
    rfl

theorem legacyNimble_flagged : Flagged legacyNimble 6 where
  toLegacy := legacyNimble_legacy
  initPayload_eq := rfl
  nulFree := by decide

/-- The entry of the example with a payload has received it. -/
theorem received_entryOf {p : Bytes} (h : p.length < 256) : Received (TxPower.entryOf p) p where
  length_eq := by
    rw [TxPower.entryOf, Nat.toUInt8, UInt8.toNat_ofNat', Nat.mod_eq_of_lt h]
  holds i hi := by
    rw [Nat.zero_add]
    exact List.getD_eq_getElem _ _ hi

/-- A name is set and advertising started, and the advertisement is received. -/
theorem session_reported_node : Tells walkBluetil legacyNimble
    (TxPower.entryOf ([2, 1, 6, 7, 8] ++ ascii "node-1" ++ [2, 10, 0])) (ascii "node-1") := by
  have hrun : run (shellStep legacyNimble ScanShell.quietBoard) (initial legacyNimble)
      [⟨[ascii "autoadv", ascii "name", ascii "node-1"], true⟩,
        ⟨[ascii "autoadv", ascii "start"], true⟩] = some (_, _) := rfl
  exact session_reported ScanShell.quietBoard legacyNimble_flagged TxPower.walkBluetil_walks
    walkBluetil_findsStr hrun rfl rfl (received_entryOf (by decide))

end IotLabTraining.AutoadvShell
