import IotLabTraining.AdFields
import IotLabTraining.ScanReport

/-!
# The reported TX power

The report prints the byte at the data pointer of the TX power field without a look at
the length that comes with it. RIOT's search walks the fields by their length bytes and
compares the byte behind each with the type.
-/
namespace IotLabTraining.TxPower
open AdFields ScanReport

/-- RIOT's search points behind the type of the first field that it takes for one of the
type. -/
structure Walks (b : Bluetil) : Prop where
  dataPos_eq : ∀ ad type, (b.adFind ad type).map Prod.fst =
    (firstMarked ad.buf ad.pos type).map Field.dataPos

/-- The position in the payload of the byte that is read for the TX power. -/
def txRead (b : Bluetil) (e : ScanlistEntry) : Option ℕ :=
  (b.adFind (entryAd e) BLE_GAP_AD_TX_POWER_LEVEL).map Prod.fst

/-- The first data byte of the first TX power field, where it lies in the payload. -/
def txData (e : ScanlistEntry) : Option ℕ :=
  firstData e.ad e.adLen.toNat BLE_GAP_AD_TX_POWER_LEVEL

/-- The power comes from its field: the byte read is the data byte, it lies in the payload
and in no other field, and its value is reported, or `INT8_MAX` where there is none. -/
structure ReportsTx (b : Bluetil) (e : ScanlistEntry) : Prop where
  read_eq : txRead b e = txData e
  value_eq : phyTxpwrDbm b e = ((txData e).map fun i => (e.ad i).toInt8).getD Int8.maxValue
  within : ∀ i, txRead b e = some i → i < e.adLen.toNat ∧
    ∀ f ∈ fields e.ad e.adLen.toNat, f.Owns i →
      firstOfType e.ad e.adLen.toNat BLE_GAP_AD_TX_POWER_LEVEL = some f

/-- The first field that is marked as TX power has a data byte in the payload. -/
def TxHasData (e : ScanlistEntry) : Prop :=
  ∀ f, firstMarked e.ad e.adLen.toNat BLE_GAP_AD_TX_POWER_LEVEL = some f →
    f.HasData e.adLen.toNat

/-- The byte that is read is the one that is reported. -/
theorem phyTxpwrDbm_eq (b : Bluetil) (e : ScanlistEntry) :
    phyTxpwrDbm b e = ((txRead b e).map fun i => (e.ad i).toInt8).getD Int8.maxValue := by
  rw [phyTxpwrDbm, txRead]
  cases b.adFind (entryAd e) BLE_GAP_AD_TX_POWER_LEVEL with
  | none => rfl
  | some field => rfl

theorem read_eq_iff {b : Bluetil} (h : Walks b) (e : ScanlistEntry) :
    txRead b e = txData e ↔ TxHasData e := by
  rw [txRead, h.dataPos_eq]
  exact firstMarked_dataPos_iff BLE_GAP_AD_TX_POWER_LEVEL

/-- The reported power comes from its field exactly when the first field that is marked as
TX power has a data byte in the payload. -/
theorem tx_reported_iff {b : Bluetil} (h : Walks b) (e : ScanlistEntry) :
    ReportsTx b e ↔ TxHasData e := by
  rw [← read_eq_iff h]
  constructor
  · intro hreports
    exact hreports.read_eq
  · intro hread
    refine ⟨hread, ?_, fun i hi => ?_⟩
    · rw [phyTxpwrDbm_eq, hread]
    · rw [hread] at hi
      exact firstData_within hi

/-- The walk of the report's own example is such a search. -/
theorem walkFind_dataPos (ad : BluetilAd) (type : UInt8) (fuel pos : ℕ) :
    (walkFind ad type fuel pos).map Prod.fst =
      ((fieldsFrom ad.buf ad.pos fuel pos).find? (marked ad.buf ad.pos type)).map
        Field.dataPos := by
  induction fuel generalizing pos with
  | zero => rfl
  | succ fuel ih =>
    rw [walkFind, fieldsFrom]
    by_cases htype : pos + 1 < ad.pos
    · have hpos : pos < ad.pos := by omega
      rw [if_pos htype, if_pos hpos]
      by_cases heq : ad.buf (pos + 1) = type
      · rw [if_pos heq, List.find?_cons_of_pos (by simp [marked, htype, heq])]
        rfl
      · rw [if_neg heq, ih, List.find?_cons_of_neg (by simp [marked, heq])]
    · rw [if_neg htype]
      split_ifs with hpos
      · have hend : ¬ pos + (ad.buf pos).toNat + 1 < ad.pos := by omega
        rw [List.find?_cons_of_neg (by simp [marked, htype])]
        cases fuel with
        | zero => rfl
        | succ fuel =>
          rw [fieldsFrom, if_neg hend]
          rfl
      · rfl

theorem walkBluetil_walks : Walks walkBluetil :=
  ⟨fun ad type => walkFind_dataPos ad type ad.pos 0⟩

/-- An entry with that payload, and zeros behind it. -/
def entryOf (payload : Bytes) : ScanlistEntry where
  addrVal _ := 0
  addrType := 1
  type := 0
  ad i := payload.getD i 0
  adLen := payload.length.toUInt8
  lastRssi := -60
  advMsgCnt := 1
  firstUpdate := 0
  lastUpdate := 0

/-- Flags, and a power of four. -/
theorem usual_tx_reported : ReportsTx walkBluetil (entryOf [2, 1, 6, 2, 10, 4]) ↔
    TxHasData (entryOf [2, 1, 6, 2, 10, 4]) :=
  tx_reported_iff walkBluetil_walks _

/-- A TX power field without data at the end of a payload: the byte behind it is read. -/
theorem empty_tx_reads_behind : Walks walkBluetil ∧
    ¬ ReportsTx walkBluetil (entryOf [2, 1, 6, 1, 10]) := by
  refine ⟨walkBluetil_walks, fun h => ?_⟩
  have hread : txRead walkBluetil (entryOf [2, 1, 6, 1, 10]) = some 5 := by decide
  exact absurd (h.within 5 hread).1 (by decide)

end IotLabTraining.TxPower
