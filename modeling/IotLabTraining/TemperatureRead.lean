import IotLabTraining.TemperatureObject

/-!
# Read on the memory of its caller

`_read` works on what it is handed: it sets the count and the pointer before the
allocation is checked, and it encodes one element after the other until it meets an
unknown id. The in/out parameters and the arrays in memory are explicit here, and
`TemperatureObject.read` is what a caller sees of them.
-/
namespace IotLabTraining.TemperatureRead
open TemperatureObject

def NULL : Ptr := 0

variable {L V : Type*}

/-- `*num_dataP`, `*data_arrayP`, and the elements of the arrays in memory. -/
structure Caller (V : Type*) where
  numData : ℤ
  dataArray : Ptr
  memory : Ptr → ℕ → Lwm2mData V

/-- The caller behind a write to the elements of its array. -/
def Caller.setElements (c : Caller V) (array : ℕ → Lwm2mData V) : Caller V :=
  { c with memory := Function.update c.memory c.dataArray array }

/-- The two encoders, each for its resource. -/
def encode (v : V) (d : Lwm2mData V) : Option (Lwm2mData V) :=
  if d.id = LWM2M_TEMP_RES_SENSOR_VALUE then some { d with value := .float v }
  else if d.id = LWM2M_TEMP_RES_SENSOR_UNITS then some { d with value := .string sensorUnits }
  else none

/-- The loop from index `i` on, with the number of its rounds. -/
def encodeLoop (v : V) : (ℕ → Lwm2mData V) → ℕ → ℕ → CoapCode × (ℕ → Lwm2mData V)
  | array, _, 0 => (.content205, array)
  | array, i, rounds + 1 =>
    match encode v (array i) with
    | some d => encodeLoop v (Function.update array i d) (i + 1) rounds
    | none => (.notFound404, array)

/-- The loop on the array that the caller's pointer points to. -/
def encodeArray (v : V) (c : Caller V) : CoapCode × Caller V :=
  let r := encodeLoop v (c.memory c.dataArray) 0 c.numData.toNat
  (r.1, c.setElements r.2)

/-- A new array with the ids of all resources. -/
def allocated (c : Caller V) (q : Ptr) : Caller V where
  numData := 2
  dataArray := q
  memory := Function.update c.memory q
    (Function.update (Function.update (c.memory q) 0 ⟨LWM2M_TEMP_RES_SENSOR_VALUE, .undefined⟩)
      1 ⟨LWM2M_TEMP_RES_SENSOR_UNITS, .undefined⟩)

variable (lib : Lwm2mList L) (dataNew : Option Ptr) (o : ObjectState L V) (instanceId : UInt16)

/-- `_read`; `dataNew` is what `lwm2m_data_new` returns, `none` for NULL. -/
def readInPlace (c : Caller V) : CoapCode × Caller V :=
  match lib.find o.instanceList instanceId with
  | none => (.notFound404, c)
  | some p =>
    if c.numData = 0 then
      match dataNew with
      | none => (.internalServerError500, { c with numData := 2, dataArray := NULL })
      | some q => encodeArray (o.heap p).sensorValue (allocated c q)
    else encodeArray (o.heap p).sensorValue c

/-! ## The loop -/

theorem encode_known (v : V) {d : Lwm2mData V} (h : Known d.id) :
    encode v d = some (resource v d.id) := by
  unfold encode resource
  by_cases hvalue : d.id = LWM2M_TEMP_RES_SENSOR_VALUE
  · rw [if_pos hvalue, if_pos hvalue]
  · rw [if_neg hvalue, if_pos (h.resolve_left hvalue), if_neg hvalue]

theorem encode_unknown (v : V) {d : Lwm2mData V} (h : ¬ Known d.id) : encode v d = none := by
  rw [Known, not_or] at h
  rw [encode, if_neg h.1, if_neg h.2]

/-- An array whose elements from `i` up to `k` hold the values of their resources. -/
def encodedTo (v : V) (array : ℕ → Lwm2mData V) (i k : ℕ) : ℕ → Lwm2mData V :=
  fun j => if i ≤ j ∧ j < k then resource v (array j).id else array j

theorem encodedTo_self (v : V) (array : ℕ → Lwm2mData V) (i : ℕ) :
    encodedTo v array i i = array := by
  funext j
  exact if_neg (by omega)

theorem encodedTo_update (v : V) (array : ℕ → Lwm2mData V) {i k : ℕ} (h : i < k) :
    encodedTo v (Function.update array i (resource v (array i).id)) (i + 1) k =
      encodedTo v array i k := by
  funext j
  unfold encodedTo
  by_cases hj : j = i
  · subst hj
    rw [if_neg (by omega), if_pos ⟨le_rfl, h⟩, Function.update_self]
  · rw [Function.update_of_ne hj]
    exact if_congr (by omega) rfl rfl

/-- Known ids all along, and all of them are encoded. -/
theorem encodeLoop_known (v : V) (array : ℕ → Lwm2mData V) (i rounds : ℕ)
    (h : ∀ j, i ≤ j → j < i + rounds → Known (array j).id) :
    encodeLoop v array i rounds = (.content205, encodedTo v array i (i + rounds)) := by
  induction rounds generalizing array i with
  | zero => rw [encodeLoop, Nat.add_zero, encodedTo_self]
  | succ rounds ih =>
    rw [encodeLoop, encode_known v (h i le_rfl (by omega))]
    dsimp only
    rw [ih, Nat.add_right_comm, Nat.add_assoc, encodedTo_update v array (by omega)]
    intro j hij hj
    rw [Function.update_of_ne (by omega)]
    exact h j (by omega) (by omega)

/-- The first unknown id ends the loop. -/
theorem encodeLoop_unknown (v : V) (array : ℕ → Lwm2mData V) (i rounds : ℕ) {k : ℕ}
    (hik : i ≤ k) (hk : k < i + rounds) (hknown : ∀ j, i ≤ j → j < k → Known (array j).id)
    (hunknown : ¬ Known (array k).id) :
    encodeLoop v array i rounds = (.notFound404, encodedTo v array i k) := by
  induction rounds generalizing array i with
  | zero => omega
  | succ rounds ih =>
    unfold encodeLoop
    obtain rfl | hlt := Nat.eq_or_lt_of_le hik
    · rw [encode_unknown v hunknown, encodedTo_self]
    · rw [encode_known v (hknown i le_rfl hlt)]
      dsimp only
      have hne : ∀ j, i + 1 ≤ j →
          Function.update array i (resource v (array i).id) j = array j :=
        fun j hj => Function.update_of_ne (by omega) _ _
      rw [ih _ _ hlt (by omega), encodedTo_update v array hlt]
      · intro j hij hj
        rw [hne j hij]
        exact hknown j (by omega) hj
      · rwa [hne k hlt]

/-- The loop leaves what lies before its start. -/
theorem encodeLoop_of_lt (v : V) (array : ℕ → Lwm2mData V) (i rounds : ℕ) {j : ℕ} (h : j < i) :
    (encodeLoop v array i rounds).2 j = array j := by
  induction rounds generalizing array i with
  | zero => rfl
  | succ rounds ih =>
    unfold encodeLoop
    cases encode v (array i) with
    | none => rfl
    | some d =>
      dsimp only
      rw [ih _ _ (by omega), Function.update_of_ne (by omega)]

/-! ## What the caller sees -/

/-- The array as a list, which is empty for NULL. -/
def Caller.array (c : Caller V) : List (Lwm2mData V) :=
  if c.dataArray = NULL then []
  else (List.range' 0 c.numData.toNat).map (c.memory c.dataArray)

theorem encodeLoop_resources (v : V) (array : ℕ → Lwm2mData V) (i rounds : ℕ) :
    encodeResources v ((List.range' i rounds).map array) =
      ((encodeLoop v array i rounds).1,
        (List.range' i rounds).map (encodeLoop v array i rounds).2) := by
  induction rounds generalizing array i with
  | zero => rfl
  | succ rounds ih =>
    rw [List.range'_succ, List.map_cons, List.map_cons, encodeLoop]
    by_cases hknown : Known (array i).id
    · rw [encode_known v hknown, encodeResources_cons_known v hknown]
      dsimp only
      have hrest : (List.range' (i + 1) rounds).map
          (Function.update array i (resource v (array i).id)) =
            (List.range' (i + 1) rounds).map array := by
        apply List.map_congr_left
        intro j hj
        have hle := (List.mem_range'_1.mp hj).1
        exact Function.update_of_ne (by omega) _ _
      rw [← hrest, ih, encodeLoop_of_lt v _ _ _ (Nat.lt_succ_self i), Function.update_self]
    · rw [encode_unknown v hknown, encodeResources_cons_unknown v hknown]

theorem encodeArray_resources (v : V) {c : Caller V} (h : c.dataArray ≠ NULL) :
    encodeResources v c.array = ((encodeArray v c).1, (encodeArray v c).2.array) := by
  have hloop := encodeLoop_resources v (c.memory c.dataArray) 0 c.numData.toNat
  simp only [Caller.array, encodeArray, Caller.setElements, if_neg h, Function.update_self, hloop]

theorem array_length {c : Caller V} (h : c.dataArray = NULL → c.numData = 0) :
    c.array.length = c.numData.toNat := by
  unfold Caller.array
  split_ifs with hnull
  · rw [h hnull]
    rfl
  · rw [List.length_map, List.length_range']

theorem allocated_array (c : Caller V) {q : Ptr} (h : q ≠ NULL) :
    (allocated c q).array = allResources := by
  simp only [Caller.array, allocated, if_neg h, Function.update_self]
  rfl

/-- `TemperatureObject.read` is what the caller sees of the call. -/
theorem read_array {c : Caller V} (hcount : c.dataArray = NULL → c.numData = 0)
    (hpos : 0 ≤ c.numData) (hnew : dataNew ≠ some NULL) :
    read lib dataNew.isSome o instanceId c.array =
      ⟨(readInPlace lib dataNew o instanceId c).1,
        (readInPlace lib dataNew o instanceId c).2.numData.toNat,
        (readInPlace lib dataNew o instanceId c).2.array⟩ := by
  have hlen := array_length hcount
  unfold readInPlace
  cases hfind : lib.find o.instanceList instanceId with
  | none => rw [read_absent _ _ _ _ hfind, hlen]
  | some p =>
    simp only [TemperatureObject.read, hfind, hlen]
    by_cases hzero : c.numData = 0
    · rw [if_pos hzero, if_pos (by omega)]
      cases dataNew with
      | none => rfl
      | some q =>
        have hq : q ≠ NULL := fun he => hnew (by rw [he])
        have hall := encodeArray_resources (o.heap p).sensorValue (c := allocated c q) hq
        rw [allocated_array c hq] at hall
        simp only [Option.isSome_some, if_true, hall]
        rfl
    · have hne : c.dataArray ≠ NULL := fun hnull => hzero (hcount hnull)
      rw [if_neg hzero, if_neg (by omega), encodeArray_resources _ hne]
      rfl

/-! ## Failures -/

/-- The caller's variables and the elements of its array are what they were. -/
structure Untouched (c c' : Caller V) : Prop where
  numData : c'.numData = c.numData
  dataArray : c'.dataArray = c.dataArray
  elements : ∀ j : ℕ, (j : ℤ) < c.numData → c'.memory c.dataArray j = c.memory c.dataArray j

/-- How a Read ends with an error, and what it leaves behind. -/
inductive Failure (c : Caller V) : CoapCode → Caller V → Prop where
  | missing (hfind : lib.find o.instanceList instanceId = none) : Failure c .notFound404 c
  | noMemory (p : Ptr) (hfind : lib.find o.instanceList instanceId = some p)
      (hzero : c.numData = 0) (hnew : dataNew = none) :
      Failure c .internalServerError500 { c with numData := 2, dataArray := NULL }
  | unknown (p : Ptr) (hfind : lib.find o.instanceList instanceId = some p) (k : ℕ)
      (hk : (k : ℤ) < c.numData) (hknown : ∀ j < k, Known (c.memory c.dataArray j).id)
      (hunknown : ¬ Known (c.memory c.dataArray k).id) :
      Failure c .notFound404
        (c.setElements (encodedTo (o.heap p).sensorValue (c.memory c.dataArray) 0 k))

/-- The ids are known all along, or up to a first one that is not. -/
theorem known_or_first (array : ℕ → Lwm2mData V) (n : ℕ) : (∀ j < n, Known (array j).id) ∨
    ∃ k < n, (∀ j < k, Known (array j).id) ∧ ¬ Known (array k).id := by
  by_cases hall : ∀ j < n, Known (array j).id
  · exact Or.inl hall
  · right
    push Not at hall
    have hfirst := Nat.find_spec hall
    refine ⟨Nat.find hall, hfirst.1, fun j hj => ?_, hfirst.2⟩
    by_contra hj'
    exact Nat.find_min hall hj ⟨by omega, hj'⟩

/-- The loop over an array succeeds, or ends at the first unknown id. -/
theorem encodeArray_cases (v : V) (c : Caller V) : (encodeArray v c).1 = .content205 ∨
    ∃ k : ℕ, (k : ℤ) < c.numData ∧ (∀ j < k, Known (c.memory c.dataArray j).id) ∧
      ¬ Known (c.memory c.dataArray k).id ∧ encodeArray v c =
        (.notFound404, c.setElements (encodedTo v (c.memory c.dataArray) 0 k)) := by
  unfold encodeArray
  obtain hall | ⟨k, hk, hknown, hunknown⟩ :=
    known_or_first (c.memory c.dataArray) c.numData.toNat
  · left
    rw [encodeLoop_known]
    exact fun j _ hj => hall j (by omega)
  · right
    refine ⟨k, by omega, hknown, hunknown, ?_⟩
    rw [encodeLoop_unknown v _ 0 _ (Nat.zero_le k) (by omega) (fun j _ hj => hknown j hj) hunknown]

/-- A new array has known ids only. -/
theorem encodeArray_allocated (v : V) (c : Caller V) (q : Ptr) :
    (encodeArray v (allocated c q)).1 = .content205 := by
  obtain hok | ⟨k, hk, -, hunknown, -⟩ := encodeArray_cases v (allocated c q)
  · exact hok
  · have hmem : (allocated c q).memory (allocated c q).dataArray =
        Function.update (Function.update (c.memory q) 0 ⟨LWM2M_TEMP_RES_SENSOR_VALUE, .undefined⟩)
          1 ⟨LWM2M_TEMP_RES_SENSOR_UNITS, .undefined⟩ := Function.update_self _ _ _
    rw [hmem] at hunknown
    have htwo : (k : ℤ) < 2 := hk
    obtain rfl | rfl : k = 0 ∨ k = 1 := by omega
    · exact absurd (Or.inl rfl) hunknown
    · exact absurd (Or.inr rfl) hunknown

/-- What a failed Read leaves behind: with a missing instance everything, without memory
the count of the array that it wanted and no array, and with an unknown id the elements
before it encoded and everything else as it was. -/
theorem read_fails {c c' : Caller V} {code : CoapCode}
    (h : readInPlace lib dataNew o instanceId c = (code, c')) (hcode : code ≠ .content205) :
    Failure lib dataNew o instanceId c code c' := by
  unfold readInPlace at h
  cases hfind : lib.find o.instanceList instanceId with
  | none =>
    rw [hfind] at h
    obtain ⟨rfl, rfl⟩ := Prod.mk.inj h
    exact .missing hfind
  | some p =>
    simp only [hfind] at h
    by_cases hzero : c.numData = 0
    · rw [if_pos hzero] at h
      cases hnew : dataNew with
      | none =>
        rw [hnew] at h
        obtain ⟨rfl, rfl⟩ := Prod.mk.inj h
        exact .noMemory p hfind hzero rfl
      | some q =>
        simp only [hnew] at h
        have hok := encodeArray_allocated (o.heap p).sensorValue c q
        rw [h] at hok
        exact absurd hok hcode
    · rw [if_neg hzero] at h
      obtain hok | ⟨k, hk, hknown, hunknown, heq⟩ := encodeArray_cases (o.heap p).sensorValue c
      · rw [h] at hok
        exact absurd hok hcode
      · rw [heq] at h
        obtain ⟨rfl, rfl⟩ := Prod.mk.inj h
        exact .unknown p hfind k hk hknown hunknown

/-- A known and an unknown resource. -/
def mixedRequest : Caller ℚ where
  numData := 2
  dataArray := 1
  memory _ j := if j = 0 then ⟨5700, .undefined⟩ else ⟨5601, .undefined⟩

theorem mixed_read_fails : Failure mapList none (getTemperatureObject mapList 0) 0 mixedRequest
    .notFound404 (readInPlace mapList none (getTemperatureObject mapList 0) 0 mixedRequest).2 :=
  read_fails mapList none (getTemperatureObject mapList 0) 0 rfl (by decide)

/-- The known resource is encoded before the unknown one is met, and the count is set
before there is memory for the array. -/
theorem failed_reads_change_caller :
    ((readInPlace mapList none (getTemperatureObject mapList 0) 0 mixedRequest).1 =
        .notFound404 ∧
      ¬ Untouched mixedRequest
        (readInPlace mapList none (getTemperatureObject mapList 0) 0 mixedRequest).2) ∧
    ((readInPlace mapList none (getTemperatureObject mapList 0) 0
        { mixedRequest with numData := 0 }).1 = .internalServerError500 ∧
      ¬ Untouched { mixedRequest with numData := 0 }
        (readInPlace mapList none (getTemperatureObject mapList 0) 0
          { mixedRequest with numData := 0 }).2) := by
  refine ⟨⟨rfl, fun h => ?_⟩, rfl, fun h => ?_⟩
  · have hfirst := congrArg Lwm2mData.value (h.elements 0 (by decide))
    cases hfirst
  · exact absurd h.numData (by decide)

end IotLabTraining.TemperatureRead
