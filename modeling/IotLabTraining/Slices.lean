import Mathlib

/-!
# A list in slices

A list cut into slices of one size, the last one possibly shorter. The empty list
has one slice, the empty one. A reader asks for one block after the other until one
says that no other follows; asked with slices, it gets the list.
-/
namespace IotLabTraining.Slices
variable {α β : Type*}

/-- The slice with number `k`. -/
def slice (l : List α) (size k : ℕ) : List α := (l.drop (k * size)).take size

/-- How many slices a list of that length has. -/
def sliceCount (length size : ℕ) : ℕ := (length - 1) / size + 1

theorem sliceCount_pos (length size : ℕ) : 0 < sliceCount length size := Nat.succ_pos _

theorem mem_of_mem_slice {l : List α} {size k : ℕ} {a : α} (h : a ∈ slice l size k) : a ∈ l :=
  List.mem_of_mem_drop (List.mem_of_mem_take h)

/-- A slice is followed by another one exactly when the list goes on behind it. -/
theorem succ_lt_sliceCount_iff {size : ℕ} (h : 0 < size) (length k : ℕ) :
    k + 1 < sliceCount length size ↔ (k + 1) * size < length := by
  have hdiv := Nat.le_div_iff_mul_le h (x := k + 1) (y := length - 1)
  have hpos : 0 < (k + 1) * size := Nat.mul_pos (Nat.succ_pos k) h
  unfold sliceCount
  omega

theorem flatMap_slice (l : List α) (size n : ℕ) :
    (List.range n).flatMap (slice l size) = l.take (n * size) := by
  induction n with
  | zero => simp
  | succ n ih =>
    rw [List.range_succ, List.flatMap_append, ih, Nat.succ_mul, List.take_add]
    simp [slice]

/-- The slices of a list give it back. -/
theorem flatMap_slice_sliceCount (l : List α) {size : ℕ} (h : 0 < size) :
    (List.range (sliceCount l.length size)).flatMap (slice l size) = l := by
  have hlast := succ_lt_sliceCount_iff h l.length (sliceCount l.length size - 1)
  have hpos := sliceCount_pos l.length size
  rw [Nat.sub_add_cancel hpos] at hlast
  rw [flatMap_slice, List.take_of_length_le (by omega)]

/-- What stands once in the part with number `j` and in no other stands once in all. -/
theorem count_flatMap_range [BEq β] {f : ℕ → List β} {b : β} {j n : ℕ}
    (h : ∀ k < n, (f k).count b = if k = j then 1 else 0) :
    ((List.range n).flatMap f).count b = if j < n then 1 else 0 := by
  induction n with
  | zero => simp
  | succ n ih =>
    have hinit := ih fun k hk => h k (Nat.lt_succ_of_lt hk)
    have hlast := h n (Nat.lt_succ_self n)
    rw [List.range_succ, List.flatMap_append, List.count_append, hinit, List.flatMap_singleton,
      hlast]
    split_ifs
    all_goals omega

/-- The numbers that the slices but the last one are followed by. -/
theorem filterMap_range_succ (n : ℕ) :
    (List.range (n + 1)).filterMap (fun k => if k + 1 < n + 1 then some (k + 1) else none) =
      List.range' 1 n := by
  have hall : (List.range n).filterMap (fun k => if k + 1 < n + 1 then some (k + 1) else none) =
      (List.range n).filterMap (some ∘ (1 + ·)) := by
    apply List.filterMap_congr
    intro k hk
    rw [if_pos (Nat.succ_lt_succ (List.mem_range.mp hk)), Function.comp, Nat.add_comm]
  rw [List.range_succ, List.filterMap_append, hall, List.filterMap_eq_map,
    ← List.range'_eq_map_range]
  simp

/-! ## Blocks asked for in order -/

/-- The blocks from number `k` on put together, up to the one that says no other one
follows; `none` when the fuel is used up before. -/
def assemble (block : ℕ → List α × Bool) : ℕ → ℕ → Option (List α)
  | 0, _ => none
  | fuel + 1, k =>
    if (block k).2 then (assemble block fuel (k + 1)).map ((block k).1 ++ ·)
    else some (block k).1

theorem flatMap_range_succ (f : ℕ → List α) (n : ℕ) :
    (List.range (n + 1)).flatMap f = f 0 ++ (List.range n).flatMap fun j => f (j + 1) := by
  rw [List.range_succ_eq_map, List.flatMap_cons, List.flatMap_map]

theorem assemble_eq_some_iff {block : ℕ → List α × Bool} {fuel k : ℕ} {l : List α} :
    assemble block fuel k = some l ↔ ∃ n < fuel, (∀ j < n, (block (k + j)).2 = true) ∧
      (block (k + n)).2 = false ∧ l = (List.range (n + 1)).flatMap fun j => (block (k + j)).1 := by
  induction fuel generalizing k l with
  | zero => simp [assemble]
  | succ fuel ih =>
    unfold assemble
    cases hk : (block k).2 with
    | false =>
      simp only [Bool.false_eq_true, if_false, Option.some.injEq]
      constructor
      · rintro rfl
        exact ⟨0, Nat.succ_pos fuel, by omega, hk, by simp⟩
      · rintro ⟨n, -, hmore, -, rfl⟩
        cases n with
        | zero => simp
        | succ n => exact absurd (hk.symm.trans (hmore 0 (Nat.succ_pos n))) Bool.false_ne_true
    | true =>
      simp only [if_true, Option.map_eq_some_iff, ih]
      have hshift (j : ℕ) : k + 1 + j = k + (j + 1) := by omega
      constructor
      · rintro ⟨-, ⟨n, hn, hmore, hlast, rfl⟩, rfl⟩
        refine ⟨n + 1, Nat.succ_lt_succ hn, ?_, by rwa [hshift] at hlast, ?_⟩
        · intro j hj
          cases j with
          | zero => exact hk
          | succ j =>
            rw [← hshift]
            exact hmore j (by omega)
        · rw [flatMap_range_succ _ (n + 1)]
          simp only [hshift, Nat.add_zero]
      · rintro ⟨n, hn, hmore, hlast, rfl⟩
        cases n with
        | zero => exact absurd (hlast.symm.trans hk) Bool.false_ne_true
        | succ n =>
          refine ⟨_, ⟨n, by omega, ?_, by rw [hshift]; exact hlast, rfl⟩, ?_⟩
          · intro j hj
            rw [hshift]
            exact hmore (j + 1) (by omega)
          · rw [flatMap_range_succ _ (n + 1)]
            simp only [hshift, Nat.add_zero]

/-- A reader that is done has the first block at the front. -/
theorem prefix_of_assemble {block : ℕ → List α × Bool} {fuel k : ℕ} {l : List α}
    (h : assemble block fuel k = some l) : (block k).1 <+: l := by
  obtain ⟨n, -, -, -, rfl⟩ := assemble_eq_some_iff.mp h
  rw [flatMap_range_succ]
  exact List.prefix_append _ _

/-- Asked with the slices of a list, the reader gets the list. -/
theorem assemble_slices (l : List α) {size : ℕ} (h : 0 < size) :
    assemble (fun k => (slice l size k, decide ((k + 1) * size < l.length)))
      (sliceCount l.length size) 0 = some l := by
  have hpos := sliceCount_pos l.length size
  have hmore (k : ℕ) := succ_lt_sliceCount_iff h l.length k
  rw [assemble_eq_some_iff]
  refine ⟨sliceCount l.length size - 1, by omega, ?_, ?_, ?_⟩
  · intro j hj
    rw [Nat.zero_add, decide_eq_true_eq, ← hmore]
    omega
  · rw [Nat.zero_add, decide_eq_false_iff_not, ← hmore]
    omega
  · simp only [Nat.zero_add, Nat.sub_add_cancel hpos]
    exact (flatMap_slice_sliceCount l h).symm

end IotLabTraining.Slices
