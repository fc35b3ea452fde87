import Mathlib

/-!
# Length-type-value fields

A payload is walked from its first byte: a length byte counts the type and the data
behind it, and the next field begins behind them. Lengths are what the sender says; a
field may be empty, may have no data, and may go on behind the end of the payload.
-/
namespace IotLabTraining.AdFields

/-- A field by the position and the value of its length byte. -/
@[ext] structure Field where
  pos : ℕ
  len : ℕ
  deriving DecidableEq

namespace Field

/-- The position behind length and type. -/
def dataPos (f : Field) : ℕ := f.pos + 2

/-- The positions of the length byte and of what it counts. -/
def Owns (f : Field) (i : ℕ) : Prop := f.pos ≤ i ∧ i ≤ f.pos + f.len

/-- There is a data byte, and it lies in a payload of that size. -/
def HasData (f : Field) (size : ℕ) : Prop := 2 ≤ f.len ∧ f.dataPos < size

instance (f : Field) (size : ℕ) : Decidable (f.HasData size) := inferInstanceAs (Decidable (_ ∧ _))

end Field

variable (buf : ℕ → UInt8) (size : ℕ)

/-- The fields from a position on, as many as there is fuel for. -/
def fieldsFrom : ℕ → ℕ → List Field
  | 0, _ => []
  | fuel + 1, pos =>
    if pos < size then ⟨pos, (buf pos).toNat⟩ :: fieldsFrom fuel (pos + (buf pos).toNat + 1) else []

/-- The fields of a payload; every one takes a byte at least. -/
def fields : List Field := fieldsFrom buf size size 0

/-- The byte behind the length byte is the type, be it counted or not. -/
def marked (type : UInt8) (f : Field) : Bool := f.pos + 1 < size && buf (f.pos + 1) = type

/-- The type is counted. -/
def ofType (type : UInt8) (f : Field) : Bool := 0 < f.len && marked buf size type f

/-- Where a walk stops that looks at the byte behind every length. -/
def firstMarked (type : UInt8) : Option Field := (fields buf size).find? (marked buf size type)

def firstOfType (type : UInt8) : Option Field := (fields buf size).find? (ofType buf size type)

/-- The first data byte of the first field of the type, if there is one in the payload. -/
def firstData (type : UInt8) : Option ℕ :=
  (firstOfType buf size type).bind fun f => if f.HasData size then some f.dataPos else none

variable {buf size}

theorem mem_fieldsFrom {fuel pos : ℕ} {f : Field} (h : f ∈ fieldsFrom buf size fuel pos) :
    pos ≤ f.pos ∧ f.len = (buf f.pos).toNat := by
  induction fuel generalizing pos with
  | zero => cases h
  | succ fuel ih =>
    unfold fieldsFrom at h
    split_ifs at h
    · rcases List.mem_cons.mp h with rfl | h
      · exact ⟨le_rfl, rfl⟩
      · obtain ⟨hpos, hlen⟩ := ih h
        exact ⟨by omega, hlen⟩
    · cases h

/-- A field ends before the next ones begin. -/
theorem pairwise_fieldsFrom (fuel pos : ℕ) :
    (fieldsFrom buf size fuel pos).Pairwise fun f g => f.pos + f.len < g.pos := by
  induction fuel generalizing pos with
  | zero => exact List.Pairwise.nil
  | succ fuel ih =>
    unfold fieldsFrom
    split_ifs
    · refine List.Pairwise.cons (fun g hg => ?_) (ih _)
      have hpos := (mem_fieldsFrom hg).1
      dsimp only
      omega
    · exact List.Pairwise.nil

/-- Two fields of a payload have no byte in common. -/
theorem eq_of_owns {l : List Field} (hl : l.Pairwise fun f g => f.pos + f.len < g.pos) {f g : Field}
    (hf : f ∈ l) (hg : g ∈ l) {i : ℕ} (hfi : f.Owns i) (hgi : g.Owns i) : f = g := by
  induction l with
  | nil => cases hf
  | cons h l ih =>
    obtain ⟨hhead, htail⟩ := List.pairwise_cons.mp hl
    obtain ⟨hflo, hfhi⟩ := hfi
    obtain ⟨hglo, hghi⟩ := hgi
    rcases List.mem_cons.mp hf with rfl | hfl
    · rcases List.mem_cons.mp hg with rfl | hgl
      · rfl
      · have hlt := hhead g hgl
        omega
    · rcases List.mem_cons.mp hg with rfl | hgl
      · have hlt := hhead f hfl
        omega
      · exact ih htail hfl hgl

theorem field_eq_of_pos {f g : Field} (hf : f ∈ fields buf size) (hg : g ∈ fields buf size)
    (h : f.pos = g.pos) : f = g := by
  ext
  · exact h
  · rw [(mem_fieldsFrom hf).2, (mem_fieldsFrom hg).2, h]

theorem firstOfType_of_firstMarked {type : UInt8} {f : Field}
    (h : firstMarked buf size type = some f) (hlen : 0 < f.len) :
    firstOfType buf size type = some f := by
  obtain ⟨hf, as, bs, hsplit, hbefore⟩ := List.find?_eq_some_iff_append.mp h
  refine List.find?_eq_some_iff_append.mpr ⟨?_, as, bs, hsplit, fun a ha => ?_⟩
  · rw [ofType, hf, Bool.and_true]
    exact decide_eq_true hlen
  · have hnot := hbefore a ha
    rw [Bool.not_eq_true'] at hnot
    rw [ofType, hnot, Bool.and_false, Bool.not_false]

theorem firstOfType_of_none {type : UInt8} (h : firstMarked buf size type = none) :
    firstOfType buf size type = none := by
  rw [firstMarked, List.find?_eq_none] at h
  rw [firstOfType, List.find?_eq_none]
  intro f hf htype
  rw [ofType, Bool.and_eq_true] at htype
  exact h f hf htype.2

theorem firstData_eq_some_iff (type : UInt8) (i : ℕ) : firstData buf size type = some i ↔
    ∃ f, firstOfType buf size type = some f ∧ f.HasData size ∧ f.dataPos = i := by
  rw [firstData, Option.bind_eq_some_iff]
  constructor
  · intro h
    obtain ⟨f, hf, hi⟩ := h
    split_ifs at hi with hdata
    exact ⟨f, hf, hdata, Option.some.inj hi⟩
  · intro h
    obtain ⟨f, hf, hdata, rfl⟩ := h
    exact ⟨f, hf, if_pos hdata⟩

/-- A walk that looks at no length finds the data of the first field of a type, or rightly
nothing, exactly when where it stops there is data. -/
theorem firstMarked_dataPos_iff (type : UInt8) :
    (firstMarked buf size type).map Field.dataPos = firstData buf size type ↔
      ∀ f, firstMarked buf size type = some f → f.HasData size := by
  constructor
  · intro h f hf
    rw [hf, Option.map_some] at h
    obtain ⟨g, hg, hdata, hpos⟩ := (firstData_eq_some_iff type f.dataPos).mp h.symm
    have hsame : f = g := field_eq_of_pos (List.mem_of_find?_eq_some hf)
      (List.mem_of_find?_eq_some hg) (by simp only [Field.dataPos] at hpos; omega)
    rwa [hsame]
  · intro h
    cases hf : firstMarked buf size type with
    | none => rw [Option.map_none, firstData, firstOfType_of_none hf, Option.bind_none]
    | some f =>
      have hdata := h f hf
      have hfirst := firstOfType_of_firstMarked hf (by have hlen := hdata.1; omega)
      rw [Option.map_some]
      exact ((firstData_eq_some_iff type f.dataPos).mpr ⟨f, hfirst, hdata, rfl⟩).symm

/-- The data byte that is found lies in the payload and in no other field. -/
theorem firstData_within {type : UInt8} {i : ℕ} (h : firstData buf size type = some i) :
    i < size ∧ ∀ g ∈ fields buf size, g.Owns i → firstOfType buf size type = some g := by
  obtain ⟨f, hf, ⟨hlen, hlt⟩, rfl⟩ := (firstData_eq_some_iff type i).mp h
  refine ⟨hlt, fun g hg howns => ?_⟩
  have hown : f.Owns f.dataPos := by
    simp only [Field.Owns, Field.dataPos]
    omega
  rw [hf, eq_of_owns (pairwise_fieldsFrom size 0) (List.mem_of_find?_eq_some hf) hg hown howns]

/-! ## Whole fields -/

/-- A field that is all there: its length fits into the length byte. -/
structure Entry where
  type : UInt8
  data : List UInt8
  length_lt : data.length < 255

/-- An entry with its length byte before it. -/
def Entry.bytes (a : Entry) : List UInt8 := (a.data.length + 1).toUInt8 :: a.type :: a.data

/-- A payload of whole fields. -/
def encode (l : List Entry) : List UInt8 := l.flatMap Entry.bytes

/-- From a position on, the memory has these bytes. -/
def Holds (buf : ℕ → UInt8) (pos : ℕ) (p : List UInt8) : Prop :=
  ∀ i (h : i < p.length), buf (pos + i) = p[i]

theorem holds_append {pos : ℕ} {p q : List UInt8} (h : Holds buf pos (p ++ q)) :
    Holds buf pos p ∧ Holds buf (pos + p.length) q := by
  constructor
  · intro i hi
    have hpq := h i (by rw [List.length_append]; omega)
    rwa [List.getElem_append_left hi] at hpq
  · intro i hi
    have hpq := h (p.length + i) (by rw [List.length_append]; omega)
    rw [List.getElem_append_right (by omega)] at hpq
    simpa [Nat.add_assoc] using hpq

theorem bytes_length (a : Entry) : a.bytes.length = a.data.length + 2 := rfl

theorem lengthByte_toNat (a : Entry) :
    (a.data.length + 1).toUInt8.toNat = a.data.length + 1 := by
  have hlt := a.length_lt
  rw [Nat.toUInt8, UInt8.toNat_ofNat']
  omega

/-- What a memory has at the place of an entry. -/
theorem holds_entry {pos : ℕ} {a : Entry} (h : Holds buf pos a.bytes) :
    (buf pos).toNat = a.data.length + 1 ∧ buf (pos + 1) = a.type ∧
      (List.range a.data.length).map (fun i => buf (pos + 2 + i)) = a.data := by
  refine ⟨?_, h 1 (by rw [bytes_length]; omega), ?_⟩
  · rw [← Nat.add_zero pos, h 0 (by rw [bytes_length]; omega)]
    exact lengthByte_toNat a
  · apply List.ext_getElem
    · simp
    · intro i hi _
      rw [List.length_map, List.length_range] at hi
      have hdata := h (i + 2) (by rw [bytes_length]; omega)
      rw [List.getElem_map, List.getElem_range, Nat.add_right_comm, Nat.add_assoc, hdata]
      rfl

/-- The data that a field counts. -/
def Field.data (buf : ℕ → UInt8) (f : Field) : List UInt8 :=
  (List.range (f.len - 1)).map fun i => buf (f.dataPos + i)

/-- In a payload of whole fields the walk stops at the first one of the type. -/
theorem find_fieldsFrom (type : UInt8) {l : List Entry} {fuel pos : ℕ}
    (h : Holds buf pos (encode l)) (hsize : pos + (encode l).length = size)
    (hfuel : size ≤ pos + fuel) :
    ((fieldsFrom buf size fuel pos).find? (marked buf size type)).map (Field.data buf) =
      (l.find? fun a => a.type = type).map Entry.data := by
  induction l generalizing fuel pos with
  | nil =>
    have hend : ¬ pos < size := by
      rw [← hsize]
      exact Nat.lt_irrefl _
    cases fuel with
    | zero => rfl
    | succ fuel =>
      rw [fieldsFrom, if_neg hend]
      rfl
  | cons a l ih =>
    have hencode : encode (a :: l) = a.bytes ++ encode l := List.flatMap_cons
    rw [hencode] at h hsize
    rw [List.length_append, bytes_length] at hsize
    obtain ⟨hentry, hrest⟩ := holds_append h
    obtain ⟨hlen, htype, hdata⟩ := holds_entry hentry
    obtain ⟨fuel, rfl⟩ : ∃ n, fuel = n + 1 := ⟨fuel - 1, by omega⟩
    have hnext : pos + (buf pos).toNat + 1 = pos + a.bytes.length := by
      rw [hlen, bytes_length]
      omega
    have hmarked : marked buf size type ⟨pos, (buf pos).toNat⟩ = decide (a.type = type) := by
      have hlt : pos + 1 < size := by omega
      simp only [marked, hlt, decide_true, Bool.true_and, htype]
    have hfield : Field.data buf ⟨pos, (buf pos).toNat⟩ = a.data := by
      rw [Field.data, Field.dataPos, hlen]
      exact hdata
    rw [fieldsFrom, if_pos (by omega), hnext, List.find?_cons, List.find?_cons, hmarked]
    cases decide (a.type = type) with
    | true => exact congrArg some hfield
    | false =>
      rw [bytes_length] at hrest ⊢
      exact ih hrest (by omega) (by omega)

/-- The first field of a type in a payload of whole fields is found, with its data. -/
theorem firstMarked_encode (type : UInt8) {l : List Entry} (h : Holds buf 0 (encode l)) :
    (firstMarked buf (encode l).length type).map (Field.data buf) =
      (l.find? fun a => a.type = type).map Entry.data :=
  find_fieldsFrom type h (Nat.zero_add _) (Nat.le_add_left _ _)

end IotLabTraining.AdFields
