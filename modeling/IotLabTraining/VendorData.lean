import IotLabTraining.Advertising

/-!
# The stored vendor data

`ble_rss_autoadv_set_manufacturer_data` compares the length of its payload with the size
of the array, and writes the payload behind a header of two bytes. Beside the statics a
run keeps what the last accepted call should have left in the array.
-/
namespace IotLabTraining.VendorData
open Advertising Runs ScanReport

/-- The company identifier, low byte first. -/
def companyHeader : Bytes := [0xFE, 0xCA]

/-- The statics, and the content that was set last. -/
@[ext] structure Recorded where
  state : State
  content : Bytes

def Recorded.initial (nim : Nimble) : Recorded := ⟨Advertising.initial nim, []⟩

/-- What should be in the array behind a call that returned `r`. -/
def contentAfter (t : Recorded) (r : Bool) : Call → Bytes
  | .setManufacturerData (some p) dataLen =>
    if r then companyHeader ++ bytesAt p dataLen else t.content
  | _ => t.content

theorem contentAfter_false (t : Recorded) (c : Call) : contentAfter t false c = t.content := by
  cases c with
  | setManufacturerData d n => cases d <;> rfl
  | _ => rfl

theorem contentAfter_other (t : Recorded) (r : Bool) {c : Call}
    (h : ∀ d n, c ≠ .setManufacturerData d n) : contentAfter t r c = t.content := by
  cases c with
  | setManufacturerData d n => exact absurd rfl (h d n)
  | _ => rfl

variable (nim : Nimble)

def recordedStep : Step Recorded Call Bool := fun t c =>
  (step nim t.state c).map fun p => (p.1, ⟨p.2, contentAfter t p.1 c⟩)

/-- Valid data lies in the array, and what the advertiser reads of it was set. -/
def Sound (t : Recorded) : Prop :=
  t.state.manufacturerSpecificData.valid = true →
    t.state.manufacturerSpecificData.dataLen ≤ nim.maxVendorDataSize ∧
      bytesAt t.state.manufacturerSpecificData.data t.state.manufacturerSpecificData.dataLen =
        t.content

/-- What is stored behind an accepted call with data. -/
structure Stored (vendor : ManufacturerData) (p : Memory) (dataLen : ℕ) : Prop where
  content_eq : bytesAt vendor.data vendor.dataLen = companyHeader ++ bytesAt p dataLen
  fits : dataLen + 2 ≤ nim.maxVendorDataSize
  valid : vendor.valid = true

/-- A call writes into the array only, changes nothing when it returns false, stores what
it is given when it returns true, and leaves only data that was set. -/
structure KeepsVendor (t : Recorded) (c : Call) : Prop where
  within : ∀ p dataLen, c = .setManufacturerData (some p) dataLen → refuses nim c = false →
    ∀ w ∈ vendorStores p dataLen, w.1 < nim.maxVendorDataSize
  refused : ∀ t', c.setter = true → recordedStep nim t c = some (false, t') → t' = t
  stored : ∀ p dataLen t', c = .setManufacturerData (some p) dataLen →
    recordedStep nim t c = some (true, t') →
      Stored nim t'.state.manufacturerSpecificData p dataLen
  sound : ∀ r t', recordedStep nim t c = some (r, t') → Sound nim t'

/-- There is room for the header beside a payload that passes the check. -/
def RoomForHeader (_ : Recorded) (c : Call) : Prop :=
  ∀ p dataLen, c = .setManufacturerData (some p) dataLen → dataLen ≤ nim.maxVendorDataSize →
    dataLen + 2 ≤ nim.maxVendorDataSize

theorem foldl_store_apply (m p : Memory) (n k : ℕ) :
    ((List.range n).map fun i => (i + 2, p i)).foldl store m k =
      if 2 ≤ k ∧ k < n + 2 then p (k - 2) else m k := by
  induction n with
  | zero =>
    have hnone : ¬ (2 ≤ k ∧ k < 0 + 2) := by omega
    rw [if_neg hnone]
    rfl
  | succ n ih =>
    rw [List.range_succ, List.map_append, List.foldl_append, List.map_singleton, List.foldl_cons,
      List.foldl_nil, store, Function.update_apply, ih]
    by_cases hk : k = n + 2
    · rw [if_pos hk, if_pos (by omega), hk, Nat.add_sub_cancel]
    · have hiff : (2 ≤ k ∧ k < n + 2) ↔ (2 ≤ k ∧ k < n + 1 + 2) := by omega
      rw [if_neg hk]
      simp only [hiff]

/-- The header and the payload, read back. -/
theorem bytesAt_vendorStores (m p : Memory) (n : ℕ) :
    bytesAt ((vendorStores p n).foldl store m) (n + 2) = companyHeader ++ bytesAt p n := by
  have hread : ∀ k, (vendorStores p n).foldl store m k =
      if 2 ≤ k ∧ k < n + 2 then p (k - 2)
      else store (store m (0, 0xFE)) (1, 0xCA) k := fun k =>
    foldl_store_apply (store (store m (0, 0xFE)) (1, 0xCA)) p n k
  have hpayload : ∀ i ∈ List.range n, (vendorStores p n).foldl store m (2 + i) = p i := by
    intro i hi
    rw [List.mem_range] at hi
    rw [hread, if_pos (by omega), Nat.add_sub_cancel_left]
  have hfirst : (vendorStores p n).foldl store m 0 = 0xFE := by
    rw [hread, if_neg (by omega)]
    rfl
  have hsecond : (vendorStores p n).foldl store m 1 = 0xCA := by
    rw [hread, if_neg (by omega)]
    rfl
  rw [bytesAt, bytesAt, Nat.add_comm n 2, List.range_add, List.map_append, List.map_map,
    companyHeader]
  congr 1
  · rw [List.range_succ, List.range_one]
    simp [hfirst, hsecond]
  · exact List.map_congr_left hpayload

/-- The last store is right behind the payload. -/
theorem vendorStores_within_iff (p : Memory) (n size : ℕ) :
    (∀ w ∈ vendorStores p n, w.1 < size) ↔ n + 2 ≤ size := by
  simp only [vendorStores, List.forall_mem_cons, List.forall_mem_map, List.mem_range]
  constructor
  · rintro ⟨-, hsecond, hrest⟩
    cases n with
    | zero => omega
    | succ n =>
      have hlast := hrest n (Nat.lt_succ_self n)
      omega
  · intro h
    exact ⟨by omega, by omega, fun i hi => by omega⟩

/-- A call other than a setter leaves the vendor data alone, and so does one for the name. -/
theorem applied_vendor (s : State) {c : Call} (h : ∀ d n, c ≠ .setManufacturerData d n) :
    (applied s c).manufacturerSpecificData = s.manufacturerSpecificData := by
  cases c with
  | start d => rfl
  | stop => rfl
  | setDeviceName name accepted => rfl
  | setManufacturerData d n => exact absurd rfl (h d n)

/-- The vendor data behind a call that returns. -/
theorem step_vendor {s s' : State} {c : Call} {r : Bool} (h : step nim s c = some (r, s')) :
    s'.manufacturerSpecificData =
      if r then (applied s c).manufacturerSpecificData else s.manufacturerSpecificData := by
  rcases step_cases nim h with ⟨d, a, rfl, -, rfl⟩ | ⟨rfl, rfl⟩ | ⟨-, rfl, rfl⟩ |
    ⟨-, rfl, -, rfl⟩ | ⟨-, rfl, -, a, -, rfl⟩
  · split_ifs <;> rfl
  · split_ifs <;> rfl
  · rfl
  · rfl
  · rfl

theorem recordedStep_eq_some {t t' : Recorded} {c : Call} {r : Bool}
    (h : recordedStep nim t c = some (r, t')) :
    step nim t.state c = some (r, t'.state) ∧ t'.content = contentAfter t r c := by
  obtain ⟨⟨r₁, s'⟩, hstep, he⟩ := Option.map_eq_some_iff.mp h
  obtain ⟨rfl, rfl⟩ := Prod.mk.inj he
  exact ⟨hstep, rfl⟩

/-- A setter that returns false has done nothing. -/
theorem recordedStep_refused {t t' : Recorded} {c : Call} (hc : c.setter = true)
    (h : recordedStep nim t c = some (false, t')) : t' = t := by
  obtain ⟨hstep, hcontent⟩ := recordedStep_eq_some nim h
  have hstate : t'.state = t.state := by
    rw [step_setter nim t.state hc] at hstep
    split_ifs at hstep
    · exact (Prod.mk.inj (Option.some.inj hstep)).2.symm
    · obtain ⟨s, -, he⟩ := Option.map_eq_some_iff.mp hstep
      cases (Prod.mk.inj he).1
  ext1
  · exact hstate
  · rw [hcontent, contentAfter_false]

/-- A call that stores data has passed the check of its length. -/
theorem dataLen_le_of_returned {s s' : State} {d : Option Memory} {n : ℕ}
    (h : step nim s (.setManufacturerData d n) = some (true, s')) :
    n ≤ nim.maxVendorDataSize := by
  by_contra hlen
  rw [step, setManufacturerData, if_pos (not_le.mp hlen)] at h
  cases (Prod.mk.inj (Option.some.inj h)).1

/-- With room for the header, what is stored is the header and the payload. -/
theorem stored_of_room {t t' : Recorded} {p : Memory} {n : ℕ}
    (hroom : RoomForHeader nim t (.setManufacturerData (some p) n))
    (h : recordedStep nim t (.setManufacturerData (some p) n) = some (true, t')) :
    Stored nim t'.state.manufacturerSpecificData p n := by
  obtain ⟨hstep, -⟩ := recordedStep_eq_some nim h
  have hvendor : t'.state.manufacturerSpecificData =
      storeVendor t.state.manufacturerSpecificData (some p) n := step_vendor nim hstep
  rw [hvendor]
  exact {
    content_eq := bytesAt_vendorStores _ p n
    fits := hroom p n rfl (dataLen_le_of_returned nim hstep)
    valid := rfl }

theorem sound_of_same {t t' : Recorded} (ht : Sound nim t)
    (hvendor : t'.state.manufacturerSpecificData = t.state.manufacturerSpecificData)
    (hcontent : t'.content = t.content) : Sound nim t' := by
  intro hvalid
  rw [hvendor] at hvalid
  rw [hvendor, hcontent]
  exact ht hvalid

theorem sound_stored {t t' : Recorded} {p : Memory} {n : ℕ}
    (hroom : RoomForHeader nim t (.setManufacturerData (some p) n))
    (h : recordedStep nim t (.setManufacturerData (some p) n) = some (true, t')) :
    Sound nim t' := by
  obtain ⟨hstep, hcontent⟩ := recordedStep_eq_some nim h
  have hstored := stored_of_room nim hroom h
  have hlen : t'.state.manufacturerSpecificData.dataLen = n + 2 := by
    rw [step_vendor nim hstep]
    rfl
  intro _
  refine ⟨hlen ▸ hstored.fits, ?_⟩
  rw [hstored.content_eq, hcontent]
  rfl

theorem sound_step {t t' : Recorded} {c : Call} {r : Bool} (ht : Sound nim t)
    (hroom : RoomForHeader nim t c) (h : recordedStep nim t c = some (r, t')) :
    Sound nim t' := by
  obtain ⟨hstep, hcontent⟩ := recordedStep_eq_some nim h
  have hvendor := step_vendor nim hstep
  cases r with
  | false => exact sound_of_same nim ht hvendor (hcontent.trans (contentAfter_false t c))
  | true =>
    by_cases hcall : ∃ d n, c = .setManufacturerData d n
    · obtain ⟨d, n, rfl⟩ := hcall
      cases d with
      | none =>
        intro hvalid
        rw [hvendor] at hvalid
        cases hvalid
      | some p => exact sound_stored nim hroom h
    · have hother : ∀ d n, c ≠ .setManufacturerData d n := fun d n he => hcall ⟨d, n, he⟩
      rw [if_pos rfl, applied_vendor _ hother] at hvendor
      exact sound_of_same nim ht hvendor (hcontent.trans (contentAfter_other t true hother))

theorem keepsVendor_iff {t : Recorded} (ht : Sound nim t) (c : Call) :
    KeepsVendor nim t c ↔ RoomForHeader nim t c := by
  constructor
  · rintro h p n rfl hlen
    have haccepted : refuses nim (.setManufacturerData (some p) n) = false :=
      decide_eq_false (not_lt.mpr hlen)
    exact (vendorStores_within_iff p n nim.maxVendorDataSize).mp (h.within p n rfl haccepted)
  · intro hroom
    refine ⟨?_, ?_, ?_, ?_⟩
    · rintro p n rfl haccepted
      have hlen : n ≤ nim.maxVendorDataSize := not_lt.mp (of_decide_eq_false haccepted)
      exact (vendorStores_within_iff p n nim.maxVendorDataSize).mpr (hroom p n rfl hlen)
    · intro t' hc h
      exact recordedStep_refused nim hc h
    · rintro p n t' rfl h
      exact stored_of_room nim hroom h
    · intro r t' h
      exact sound_step nim ht hroom h

/-- In every run the vendor data stays in its array, is stored as it was set, and changes
with accepted calls only, exactly as far as no payload passes the check of its length
without leaving room for the header. -/
theorem vendor_kept_iff (nim : Nimble) (calls : List Call) :
    Along (recordedStep nim) (KeepsVendor nim) (Recorded.initial nim) calls ↔
      Along (recordedStep nim) (RoomForHeader nim) (Recorded.initial nim) calls :=
  along_congr (fun _ c ht => keepsVendor_iff nim ht c)
    (fun _ _ _ _ ht hroom h => sound_step nim ht hroom h)
    (fun hvalid => absurd hvalid Bool.false_ne_true) calls

/-- A payload that fills the array is written two bytes past it. -/
theorem full_payload_overruns : ¬ Along (recordedStep legacyNimble) (KeepsVendor legacyNimble)
    (Recorded.initial legacyNimble) [.setManufacturerData (some fun _ => 1) 35] := by
  rintro ⟨h, -⟩
  exact absurd (h.within _ _ rfl (by decide)) (by decide)

end IotLabTraining.VendorData
