import IotLabTraining.Text

/-!
# UTF-8 validity

A text is UTF-8 when it is the encoding of some sequence of Unicode scalar
values. An ASCII byte can only stand for itself, never inside another
character, so validity splits at every ASCII byte.
-/
namespace IotLabTraining

/-- The bytes encode a sequence of Unicode scalar values. -/
def Utf8 (t : Bytes) : Prop := ∃ cs : List Char, t = cs.flatMap String.utf8EncodeChar

/-- Every byte is below 128. -/
def Ascii (t : Bytes) : Prop := ∀ b ∈ t, b < 128

instance (t : Bytes) : Decidable (Ascii t) := inferInstanceAs (Decidable (∀ b ∈ t, b < 128))

/-- Printable ASCII: no control bytes either. -/
def Printable (t : Bytes) : Prop := ∀ b ∈ t, 32 ≤ b ∧ b < 128

instance (t : Bytes) : Decidable (Printable t) :=
  inferInstanceAs (Decidable (∀ b ∈ t, 32 ≤ b ∧ b < 128))

theorem Printable.ascii {t : Bytes} (h : Printable t) : Ascii t := fun b hb => (h b hb).2

@[simp] theorem printable_append {s t : Bytes} :
    Printable (s ++ t) ↔ Printable s ∧ Printable t := by
  simp only [Printable, List.forall_mem_append]

theorem printable_decimal (n : ℕ) : Printable (decimal n) := by
  intro b hb
  have hd := (isDigit_iff b).mp (isDigit_of_mem_decimal hb)
  simp only [UInt8.lt_iff_toNat_lt, UInt8.le_iff_toNat_le, UInt8.reduceToNat]
  omega

theorem printable_signed (z : ℤ) : Printable (signed z) := by
  unfold signed
  split_ifs
  · have hsign : Printable [45] := by decide
    exact printable_append.mpr ⟨hsign, printable_decimal _⟩
  · exact printable_decimal _

theorem printable_hex2 (c : UInt8) : Printable (hex2 c) := by
  have hdig : ∀ d < 16, 32 ≤ hexDigit d ∧ hexDigit d < 128 := by decide
  have hc : c.toNat < 256 := c.toNat_lt
  intro x hx
  simp only [hex2, List.mem_cons, List.not_mem_nil, or_false] at hx
  rcases hx with rfl | rfl
  · exact hdig _ (by omega)
  · exact hdig _ (by omega)

/-- One character is a single ASCII byte or several bytes outside ASCII. -/
theorem utf8EncodeChar_cases (c : Char) :
    (∃ b : UInt8, b < 128 ∧ String.utf8EncodeChar c = [b]) ∨
      ∀ b ∈ String.utf8EncodeChar c, 128 ≤ b := by
  unfold String.utf8EncodeChar
  dsimp only
  split_ifs with h1 h2 h3
  · have hc : c.toNat ≤ 127 := h1
    refine Or.inl ⟨_, ?_, rfl⟩
    simp only [UInt8.lt_iff_toNat_lt, UInt8.toNat_ofNat', UInt8.reduceToNat, Char.toNat_val]
    omega
  all_goals
    right
    simp only [List.mem_cons, List.not_mem_nil, or_false, forall_eq_or_imp, forall_eq,
      UInt8.le_iff_toNat_le, UInt8.toNat_ofNat', UInt8.reduceToNat]
    omega

theorem utf8EncodeChar_ascii {b : UInt8} (h : b < 128) :
    String.utf8EncodeChar (Char.ofNat b.toNat) = [b] := by
  have hb : b.toNat < 128 := by simpa [UInt8.lt_iff_toNat_lt] using h
  have hv : (Char.ofNat b.toNat).val.toNat = b.toNat := by
    have hvalid : b.toNat.isValidChar := Or.inl (by omega)
    rw [Char.ofNat, dif_pos hvalid]
    rfl
  unfold String.utf8EncodeChar
  dsimp only
  rw [hv, if_pos (by omega), UInt8.ofNat_toNat]

@[simp] theorem utf8_nil : Utf8 [] := ⟨[], rfl⟩

theorem utf8_append {a b : Bytes} (ha : Utf8 a) (hb : Utf8 b) : Utf8 (a ++ b) := by
  obtain ⟨cs, rfl⟩ := ha
  obtain ⟨ds, rfl⟩ := hb
  exact ⟨cs ++ ds, by simp⟩

theorem utf8_of_ascii {t : Bytes} (h : Ascii t) : Utf8 t := by
  induction t with
  | nil => exact utf8_nil
  | cons b t ih =>
    have hb : Utf8 [b] := ⟨[Char.ofNat b.toNat], by
      simp [utf8EncodeChar_ascii (h b (by simp))]⟩
    exact utf8_append hb (ih fun c hc => h c (by simp [hc]))

/-- An ASCII byte inside a valid text ends a character and begins the next. -/
theorem utf8_split {a b : Bytes} {x : UInt8} (hx : x < 128) (h : Utf8 (a ++ x :: b)) :
    Utf8 a ∧ Utf8 b := by
  obtain ⟨cs, hcs⟩ := h
  induction cs generalizing a with
  | nil => simp at hcs
  | cons c cs ih =>
    rw [List.flatMap_cons] at hcs
    have henc : Utf8 (String.utf8EncodeChar c) := ⟨[c], by simp⟩
    rcases utf8EncodeChar_cases c with ⟨y, hy, he⟩ | hall
    · rw [he] at hcs
      cases a with
      | nil =>
        obtain ⟨rfl, hb⟩ := List.cons.inj hcs
        exact ⟨utf8_nil, cs, hb⟩
      | cons w a =>
        obtain ⟨rfl, hb⟩ := List.cons.inj hcs
        obtain ⟨ha, hb⟩ := ih hb
        exact ⟨utf8_append (he ▸ henc) ha, hb⟩
    -- A longer character cannot contain `x`, so it lies in `a` as a whole.
    · have hsub : ∃ m, a = String.utf8EncodeChar c ++ m := by
        rcases List.append_eq_append_iff.mp hcs with ⟨m, hm, hb⟩ | ⟨m, hm, -⟩
        · cases m with
          | nil => exact ⟨[], by simpa using hm.symm⟩
          | cons z m =>
            obtain ⟨rfl, -⟩ := List.cons.inj hb
            have hge := hall x (by simp [hm])
            simp only [UInt8.lt_iff_toNat_lt, UInt8.le_iff_toNat_le] at hx hge
            omega
        · exact ⟨m, hm⟩
      obtain ⟨m, rfl⟩ := hsub
      rw [List.append_assoc] at hcs
      obtain ⟨hm, hb⟩ := ih (List.append_cancel_left hcs)
      exact ⟨utf8_append henc hm, hb⟩

theorem utf8_mid {a b : Bytes} {x : UInt8} (hx : x < 128) :
    Utf8 (a ++ x :: b) ↔ Utf8 a ∧ Utf8 b := by
  refine ⟨utf8_split hx, fun h => utf8_append h.1 (utf8_append (a := [x]) ?_ h.2)⟩
  exact utf8_of_ascii (by simpa [Ascii] using hx)

/-- Validity is not changed by what stands before it in ASCII. -/
theorem utf8_ascii_append {a b : Bytes} (ha : Ascii a) : Utf8 (a ++ b) ↔ Utf8 b := by
  induction a with
  | nil => simp
  | cons x a ih =>
    have hx : x < 128 := ha x (by simp)
    have hmid := utf8_mid (a := []) (b := a ++ b) hx
    simp only [List.nil_append, utf8_nil, true_and] at hmid
    rw [List.cons_append, hmid]
    exact ih fun c hc => ha c (by simp [hc])

end IotLabTraining
