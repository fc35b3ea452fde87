import IotLabTraining.Text

/-!
# Texts stored in a buffer

A buffer is what every index from its start on holds. A text stored in it is read
back from its place, and the rest of the buffer stays. `snprintf` stores as much of
a text as its size argument allows, with a terminator, and returns the length of the
whole text.
-/
namespace IotLabTraining.Buffers

abbrev Buffer := ℕ → UInt8

/-- A buffer with a text stored from `pos` on. -/
def store (b : Buffer) (pos : ℕ) (t : Bytes) : Buffer :=
  fun i => if pos ≤ i then t.getD (i - pos) (b i) else b i

/-- The `n` bytes from `pos` on. -/
def window (b : Buffer) (pos n : ℕ) : Bytes := (List.range n).map fun i => b (pos + i)

@[simp] theorem window_length (b : Buffer) (pos n : ℕ) : (window b pos n).length = n := by
  simp [window]

@[simp] theorem window_getElem (b : Buffer) (pos n i : ℕ) (h : i < (window b pos n).length) :
    (window b pos n)[i] = b (pos + i) := by
  simp [window]

theorem window_take (b : Buffer) (pos : ℕ) {n m : ℕ} (h : n ≤ m) :
    (window b pos m).take n = window b pos n := by
  rw [window, window, ← List.map_take, List.take_range, Nat.min_eq_left h]

theorem store_of_lt (b : Buffer) (t : Bytes) {pos i : ℕ} (h : i < pos) :
    store b pos t i = b i := if_neg (by omega)

theorem store_of_le (b : Buffer) (t : Bytes) {pos i : ℕ} (h : pos + t.length ≤ i) :
    store b pos t i = b i := by
  rw [store, if_pos (by omega), List.getD_eq_default _ _ (by omega)]

/-- Reading back what was stored. -/
theorem store_at (b : Buffer) (pos : ℕ) {t : Bytes} {i : ℕ} (h : i < t.length) :
    store b pos t (pos + i) = t[i] := by
  rw [store, if_pos (by omega), Nat.add_sub_cancel_left, List.getD_eq_getElem _ _ h]

theorem window_store (b : Buffer) (pos : ℕ) {t : Bytes} {n : ℕ} (h : n ≤ t.length) :
    window (store b pos t) pos n = t.take n := by
  apply List.ext_getElem
  · simpa using h
  · intro i hi _
    rw [window_length] at hi
    rw [window_getElem, store_at b pos (by omega), List.getElem_take]

/-- A stored text read back as a whole. -/
theorem window_store_length (b : Buffer) (pos : ℕ) (t : Bytes) :
    window (store b pos t) pos t.length = t := by
  rw [window_store b pos le_rfl, List.take_length]

/-- Behind a stored text the buffer is what it was. -/
theorem window_store_behind (b : Buffer) (pos : ℕ) (t : Bytes) (n : ℕ) :
    window (store b pos t) (pos + t.length) n = window b (pos + t.length) n := by
  apply List.map_congr_left
  intro i _
  exact store_of_le b t (Nat.le_add_right _ i)

theorem window_store_before (b : Buffer) (t : Bytes) {pos start n : ℕ} (h : start + n ≤ pos) :
    window (store b pos t) start n = window b start n := by
  apply List.map_congr_left
  intro i hi
  rw [List.mem_range] at hi
  exact store_of_lt b t (by omega)

theorem window_add (b : Buffer) (pos n m : ℕ) :
    window b pos (n + m) = window b pos n ++ window b (pos + n) m := by
  simp only [window, List.range_add, List.map_append, List.map_map, Function.comp_def,
    Nat.add_assoc]

/-- The last of some bytes overwritten. -/
theorem window_store_last (b : Buffer) (c : UInt8) {n : ℕ} (h : 0 < n) :
    window (store b (n - 1) [c]) 0 n = window b 0 (n - 1) ++ [c] := by
  obtain ⟨m, rfl⟩ : ∃ m, n = m + 1 := ⟨n - 1, by omega⟩
  have hlast : window (store b m [c]) m 1 = [c] := window_store_length b m [c]
  rw [Nat.add_sub_cancel, window_add, window_store_before _ _ (by omega), Nat.zero_add, hlast]

/-- A text stored right behind another one. -/
theorem store_store (b : Buffer) (pos : ℕ) (t u : Bytes) :
    store (store b pos t) (pos + t.length) u = store b pos (t ++ u) := by
  funext i
  by_cases hbefore : i < pos + t.length
  · rw [store_of_lt _ _ hbefore]
    by_cases hpos : pos ≤ i
    · obtain ⟨j, rfl⟩ := Nat.exists_eq_add_of_le hpos
      rw [store_at b pos (by omega), store_at b pos (by rw [List.length_append]; omega),
        List.getElem_append_left]
    · rw [store_of_lt _ _ (by omega), store_of_lt _ _ (by omega)]
  · obtain ⟨j, rfl⟩ := Nat.exists_eq_add_of_le (Nat.le_of_not_lt hbefore)
    by_cases hu : j < u.length
    · rw [store_at _ _ hu, Nat.add_assoc, store_at b pos (by rw [List.length_append]; omega),
        List.getElem_append_right (by omega)]
      simp
    · rw [store_of_le _ _ (by omega), store_of_le _ _ (by omega),
        store_of_le _ _ (by rw [List.length_append]; omega)]

/-- The string in a buffer behind a text and its terminator. -/
theorem cString_window_store (b : Buffer) {t : Bytes} {n : ℕ} (h : 0 ∉ t) (hlen : t.length < n) :
    cString (window (store b 0 (t ++ [0])) 0 n) = t := by
  have hsplit : n = (t.length + 1) + (n - (t.length + 1)) := by omega
  have hstored : window (store b 0 (t ++ [0])) 0 (t.length + 1) = t ++ [0] := by
    have hlength : (t ++ [0]).length = t.length + 1 := List.length_append
    rw [← hlength, window_store_length]
  rw [hsplit, window_add, hstored, List.append_assoc, cString_append h]
  simp [cString]

/-- A buffer with texts stored at its start, one after the other. -/
def storeEach (b : Buffer) (ts : List Bytes) : Buffer := ts.foldl (fun b t => store b 0 t) b

/-- A place holds the last of the bytes that the texts have for it. -/
theorem storeEach_apply (b : Buffer) (ts : List Bytes) (i : ℕ) :
    storeEach b ts i = ((ts.filterMap fun t => t[i]?).getLast?).getD (b i) := by
  induction ts using List.reverseRecOn with
  | nil => rfl
  | append_singleton ts t ih =>
    rw [storeEach, List.foldl_append, List.foldl_cons, List.foldl_nil, ← storeEach,
      List.filterMap_append, List.getLast?_append]
    by_cases hi : i < t.length
    · have hstored := store_at (storeEach b ts) 0 hi
      rw [Nat.zero_add] at hstored
      simp [hi, hstored]
    · rw [store_of_le _ _ (by omega), ih]
      simp [hi]

/-! ## Strings -/

/-- The string at the start of the buffer is `t`. -/
def Spells (b : Buffer) (t : Bytes) : Prop := window b 0 (t.length + 1) = t ++ [0]

theorem Spells.window_eq {b : Buffer} {t : Bytes} (h : Spells b t) : window b 0 t.length = t := by
  rw [← window_take b 0 (Nat.le_succ t.length), h, List.take_left]

theorem spells_store (b : Buffer) (t : Bytes) : Spells (store b 0 (t ++ [0])) t := by
  have hlength : (t ++ [0]).length = t.length + 1 := List.length_append
  rw [Spells, ← hlength, window_store_length]

/-- A text stored right before a NUL is a string. -/
theorem spells_store_of_zero {b : Buffer} {t : Bytes} (h : b t.length = 0) :
    Spells (store b 0 t) t := by
  have hbehind := window_store_behind b 0 t 1
  rw [Nat.zero_add] at hbehind
  rw [Spells, window_add, window_store_length, Nat.zero_add, hbehind, window, List.range_one,
    List.map_singleton, Nat.add_zero, h]

/-- A string printed over the terminator of another one. -/
theorem Spells.append {b : Buffer} {t : Bytes} (h : Spells b t) (u : Bytes) :
    Spells (store b t.length (u ++ [0])) (t ++ u) := by
  have hlength : (u ++ [0]).length = u.length + 1 := List.length_append
  have hfront : window (store b t.length (u ++ [0])) 0 t.length = t := by
    rw [window_store_before b _ (by omega), h.window_eq]
  have hback : window (store b t.length (u ++ [0])) t.length (u.length + 1) = u ++ [0] := by
    rw [← hlength, window_store_length]
  rw [Spells, List.length_append, Nat.add_assoc, window_add, hfront, Nat.zero_add, hback,
    List.append_assoc]

/-- A string without a NUL that ends in the array is found there. -/
theorem Spells.strlen_eq {b : Buffer} {t : Bytes} (h : Spells b t) (hfree : 0 ∉ t) {n : ℕ}
    (hn : t.length < n) : strlen (window b 0 n) = some t.length := by
  obtain ⟨m, rfl⟩ : ∃ m, n = t.length + 1 + m := ⟨n - (t.length + 1), by omega⟩
  rw [window_add, h, List.append_assoc, strlen_append_iff]
  exact ⟨hfree, rfl⟩

/-- A text stored in an array of that many bytes, unless it does not fit. -/
def put (capacity : ℕ) (b : Buffer) (pos : ℕ) (t : Bytes) : Option Buffer :=
  if pos + t.length ≤ capacity then some (store b pos t) else none

/-- `snprintf(buffer + pos, size, ..)` of a text: the buffer behind it, and the length
the text has as a whole. -/
def snprintf (b : Buffer) (pos size : ℕ) (t : Bytes) : Buffer × ℕ :=
  (if size = 0 then b else store b pos (t.take (size - 1) ++ [0]), t.length)

@[simp] theorem snprintf_snd (b : Buffer) (pos size : ℕ) (t : Bytes) :
    (snprintf b pos size t).2 = t.length := rfl

/-- What lies before the place printed to stays. -/
theorem snprintf_of_lt (b : Buffer) (size : ℕ) (t : Bytes) {pos i : ℕ} (h : i < pos) :
    (snprintf b pos size t).1 i = b i := by
  simp only [snprintf]
  split_ifs
  · rfl
  · exact store_of_lt _ _ h

theorem window_snprintf_before (b : Buffer) (size : ℕ) (t : Bytes) {pos start n : ℕ}
    (h : start + n ≤ pos) : window (snprintf b pos size t).1 start n = window b start n := by
  simp only [snprintf]
  split_ifs
  · rfl
  · exact window_store_before b _ h

/-- Nothing is written from the size argument on. -/
theorem snprintf_of_le (b : Buffer) (t : Bytes) {pos size i : ℕ} (h : pos + size ≤ i) :
    (snprintf b pos size t).1 i = b i := by
  simp only [snprintf]
  split_ifs with hsize
  · rfl
  · apply store_of_le
    rw [List.length_append, List.length_take, List.length_singleton]
    omega

theorem snprintf_at (b : Buffer) (pos : ℕ) {size : ℕ} {t : Bytes} {i : ℕ} (ht : i < t.length)
    (h : i + 1 < size) : (snprintf b pos size t).1 (pos + i) = t[i] := by
  have hlen : i < (t.take (size - 1)).length := by
    rw [List.length_take]
    omega
  have hall : i < (t.take (size - 1) ++ [0]).length := by
    rw [List.length_append]
    omega
  simp only [snprintf]
  rw [if_neg (by omega), store_at b pos hall, List.getElem_append_left hlen, List.getElem_take]

/-- The terminator stands behind what fits of the text. -/
theorem snprintf_terminator (b : Buffer) (pos : ℕ) {size : ℕ} (t : Bytes) (h : 0 < size) :
    (snprintf b pos size t).1 (pos + min (size - 1) t.length) = 0 := by
  have hlen : (t.take (size - 1)).length = min (size - 1) t.length := List.length_take
  simp only [snprintf]
  rw [if_neg (by omega), store_at b pos (by rw [List.length_append, List.length_singleton]; omega),
    List.getElem_append_right (by omega)]
  simp

/-- What is read back of a printed text. -/
theorem window_snprintf (b : Buffer) {pos size n : ℕ} {t : Bytes} (hn : n ≤ t.length)
    (h : n < size) : window (snprintf b pos size t).1 pos n = t.take n := by
  apply List.ext_getElem
  · simpa using hn
  · intro i hi _
    rw [window_length] at hi
    rw [window_getElem, snprintf_at b pos (by omega) (by omega), List.getElem_take]

/-- The string in a buffer behind a printed text. -/
theorem cString_window_snprintf (b : Buffer) {size : ℕ} {t : Bytes} (h : 0 ∉ t)
    (hsize : 0 < size) : cString (window (snprintf b 0 size t).1 0 size) = t.take (size - 1) := by
  simp only [snprintf]
  rw [if_neg hsize.ne']
  apply cString_window_store
  · exact fun hmem => h (List.mem_of_mem_take hmem)
  · rw [List.length_take]
    omega

/-- It is the whole text exactly when the terminator fits as well. -/
theorem cString_window_snprintf_eq_iff (b : Buffer) (size : ℕ) {t : Bytes} (h : 0 ∉ t)
    (hne : t ≠ []) : cString (window (snprintf b 0 size t).1 0 size) = t ↔ t.length < size := by
  cases size with
  | zero => exact ⟨fun hnil => absurd hnil.symm hne, fun hlt => absurd hlt (Nat.not_lt_zero _)⟩
  | succ size =>
    rw [cString_window_snprintf b h (Nat.succ_pos size), Nat.succ_sub_one, List.take_eq_self_iff,
      Nat.lt_succ_iff]

end IotLabTraining.Buffers
