import Mathlib

/-!
# Printed text as bytes

What a C `printf` writes and what the readers of that text take apart again.
Text is a list of bytes without its terminator. The numerals are the ones of
`%u`, `%d` and `%02X`; digits are read back by a left fold, and a C string ends
at the first NUL of the memory it is read from.
-/
namespace IotLabTraining

abbrev Bytes := List UInt8

/-- A property of all members of a list is decided along the list, also where the
type itself is finite. -/
instance (priority := high) decidableForallMem {α : Type*} (l : List α) (P : α → Prop)
    [DecidablePred P] : Decidable (∀ a ∈ l, P a) := List.decidableBAll P l

/-- The bytes of a string literal, without the terminator. -/
def ascii (s : String) : Bytes := s.toList.map (fun c => c.toNat.toUInt8)

/-- What `%s` prints of a buffer: everything before the first NUL. -/
def cString (b : Bytes) : Bytes := b.takeWhile (fun c => c ≠ 0)

theorem cString_of_nul_free {b : Bytes} (h : 0 ∉ b) : cString b = b := by
  apply List.takeWhile_eq_self_iff.mpr
  intro c hc
  simpa using fun he : c = 0 => h (he ▸ hc)

theorem zero_notMem_cString (b : Bytes) : 0 ∉ cString b := by
  intro h
  simpa using List.mem_takeWhile_imp h

theorem cString_append {b : Bytes} (h : 0 ∉ b) (r : Bytes) : cString (b ++ r) = b ++ cString r := by
  apply List.takeWhile_append_of_pos
  intro c hc
  simpa using fun he : c = 0 => h (he ▸ hc)

/-- What `strlen` returns, unless it reads on behind the memory given. -/
def strlen (m : Bytes) : Option ℕ := if 0 ∈ m then some (cString m).length else none

/-- The scan ends where a text ends exactly when the text has no NUL and one follows. -/
theorem strlen_append_iff (b r : Bytes) :
    strlen (b ++ r) = some b.length ↔ 0 ∉ b ∧ r.head? = some 0 := by
  constructor
  · intro h
    unfold strlen at h
    split_ifs at h with hmem
    have hlen : (cString (b ++ r)).length = b.length := Option.some.inj h
    have hb : cString (b ++ r) = b := by
      have hfront : cString (b ++ r) <+: b ++ r := List.takeWhile_prefix _
      rw [List.prefix_iff_eq_take.mp hfront, hlen, List.take_left]
    have hfree : 0 ∉ b := hb ▸ zero_notMem_cString _
    refine ⟨hfree, ?_⟩
    rw [cString_append hfree, List.append_right_eq_self] at hb
    cases r with
    | nil => exact absurd hmem (by simpa using hfree)
    | cons c r =>
      rw [cString, List.takeWhile_cons] at hb
      split_ifs at hb with hc
      simpa using hc
  · rintro ⟨hfree, hhead⟩
    obtain ⟨r', rfl⟩ : ∃ r', r = 0 :: r' := List.head?_eq_some_iff.mp hhead
    rw [strlen, if_pos (by simp), cString_append hfree]
    simp [cString]

/-- The scan shows a text as it is, up to its own first NUL, exactly when it has one or one
follows. -/
theorem cString_append_eq_iff (b r : Bytes) :
    (0 ∈ b ++ r ∧ cString (b ++ r) = cString b) ↔ 0 ∈ b ∨ r.head? = some 0 := by
  by_cases hb : 0 ∈ b
  · have hfront : cString (b ++ r) = cString b := by
      induction b with
      | nil => cases hb
      | cons c b ih =>
        by_cases hc : c = 0
        · simp [cString, hc]
        · have hb' : 0 ∈ b := (List.mem_cons.mp hb).resolve_left fun h => hc h.symm
          simpa [cString, List.takeWhile_cons, hc] using ih hb'
    exact iff_of_true ⟨List.mem_append_left r hb, hfront⟩ (Or.inl hb)
  · rw [cString_append hb, cString_of_nul_free hb, List.append_right_eq_self, List.mem_append,
      or_iff_right hb, or_iff_right hb]
    cases r with
    | nil => simp
    | cons c r => simp +contextual [cString, List.takeWhile_cons]

/-- What `strncmp` returns for two strings, each with NULs behind its end. -/
def strncmp : Bytes → Bytes → ℕ → ℤ
  | _, _, 0 => 0
  | s, t, n + 1 =>
    if s.headD 0 ≠ t.headD 0 then (s.headD 0).toNat - (t.headD 0).toNat
    else if s.headD 0 = 0 then 0
    else strncmp s.tail t.tail n

/-- Up to the length of `s`, a text compares equal to its beginnings, and to what begins
with it and its terminator. -/
theorem strncmp_eq_zero_iff (s : Bytes) {t : Bytes} (ht : 0 ∉ t) :
    strncmp s t s.length = 0 ↔ s <+: t ∨ t ++ [0] <+: s := by
  induction s generalizing t with
  | nil => exact iff_of_true rfl (Or.inl List.nil_prefix)
  | cons a s ih =>
    rw [List.length_cons, strncmp, List.headD_cons, List.tail_cons]
    cases t with
    | nil =>
      by_cases ha : a = 0
      · simp [ha]
      · have hne : (a.toNat : ℤ) ≠ 0 := by
          intro h
          exact ha (UInt8.toNat_inj.mp (by simpa using h))
        simpa [ha, eq_comm] using hne
    | cons b t =>
      rw [List.mem_cons, not_or] at ht
      rw [List.headD_cons, List.tail_cons, List.cons_append, List.cons_prefix_cons,
        List.cons_prefix_cons]
      by_cases hab : a = b
      · subst hab
        rw [if_neg (fun h => h rfl), if_neg (Ne.symm ht.1), ih ht.2]
        simp
      · have hne : (a.toNat : ℤ) - b.toNat ≠ 0 := by
          intro h
          exact hab (UInt8.toNat_inj.mp (by omega))
        rw [if_pos hab]
        simp [hab, Ne.symm hab, hne]

def isDigit (b : UInt8) : Bool := 48 ≤ b && b ≤ 57

theorem isDigit_iff (b : UInt8) : isDigit b = true ↔ 48 ≤ b.toNat ∧ b.toNat ≤ 57 := by
  simp [isDigit, UInt8.le_iff_toNat_le]

def digitByte (d : ℕ) : UInt8 := (48 + d).toUInt8

theorem digitByte_toNat {d : ℕ} (h : d < 10) : (digitByte d).toNat = 48 + d := by
  simp only [digitByte, Nat.toUInt8, UInt8.toNat_ofNat']
  omega

theorem isDigit_digitByte {d : ℕ} (h : d < 10) : isDigit (digitByte d) = true := by
  rw [isDigit_iff, digitByte_toNat h]
  omega

theorem digitByte_eq_zero_iff {d : ℕ} (h : d < 10) : digitByte d = 48 ↔ d = 0 := by
  constructor
  · intro he
    have hv := congrArg UInt8.toNat he
    rw [digitByte_toNat h] at hv
    simpa using hv
  · rintro rfl
    rfl

/-- The numeral `%u` prints. -/
def decimal (n : ℕ) : Bytes := (Nat.toDigits 10 n).map (fun c => c.toNat.toUInt8)

theorem digitChar_byte {d : ℕ} (h : d < 10) :
    (Nat.digitChar d).toNat.toUInt8 = digitByte d := by
  interval_cases d <;> rfl

theorem decimal_of_lt {n : ℕ} (h : n < 10) : decimal n = [digitByte n] := by
  rw [decimal, Nat.toDigits_of_lt_base h, List.map_singleton, digitChar_byte h]

theorem decimal_of_le {n : ℕ} (h : 10 ≤ n) :
    decimal n = decimal (n / 10) ++ [digitByte (n % 10)] := by
  rw [decimal, Nat.toDigits_of_base_le (by omega) h, List.map_append, List.map_singleton,
    digitChar_byte (Nat.mod_lt n (by omega)), decimal]

theorem decimal_ne_nil (n : ℕ) : decimal n ≠ [] := by
  simp [decimal, Nat.toDigits_ne_nil]

theorem decimal_length_le {n k : ℕ} (hk : 0 < k) (h : n < 10 ^ k) : (decimal n).length ≤ k := by
  rw [decimal, List.length_map]
  exact (Nat.length_toDigits_le_iff (by omega) hk).mpr h

theorem isDigit_of_mem_decimal {n : ℕ} {b : UInt8} (h : b ∈ decimal n) : isDigit b = true := by
  induction n using Nat.strong_induction_on generalizing b with
  | h n ih =>
    by_cases hn : n < 10
    · rw [decimal_of_lt hn, List.mem_singleton] at h
      exact h ▸ isDigit_digitByte hn
    · rw [decimal_of_le (by omega), List.mem_append, List.mem_singleton] at h
      rcases h with h | rfl
      · exact ih (n / 10) (by omega) h
      · exact isDigit_digitByte (Nat.mod_lt n (by omega))

theorem zero_notMem_decimal (n : ℕ) : 0 ∉ decimal n := by
  intro h
  exact absurd (isDigit_of_mem_decimal h) (by decide)

/-- No numeral but the one of zero begins with the digit zero. -/
theorem decimal_eq_cons {n : ℕ} (hn : 0 < n) :
    ∃ d ds, decimal n = d :: ds ∧ d ≠ 48 ∧ isDigit d = true := by
  induction n using Nat.strong_induction_on with
  | h n ih =>
    by_cases hlt : n < 10
    · refine ⟨digitByte n, [], decimal_of_lt hlt, ?_, isDigit_digitByte hlt⟩
      rw [Ne, digitByte_eq_zero_iff hlt]
      omega
    · obtain ⟨d, ds, he, hd, hdig⟩ := ih (n / 10) (by omega) (by omega)
      exact ⟨d, ds ++ [digitByte (n % 10)], by rw [decimal_of_le (by omega), he]; rfl, hd, hdig⟩

/-- The value of a run of digits, most significant first. -/
def digitsValue (l : Bytes) : ℕ := l.foldl (fun acc b => 10 * acc + (b.toNat - 48)) 0

theorem digitsValue_append_singleton (l : Bytes) (b : UInt8) :
    digitsValue (l ++ [b]) = 10 * digitsValue l + (b.toNat - 48) := by
  simp [digitsValue]

@[simp] theorem digitsValue_decimal (n : ℕ) : digitsValue (decimal n) = n := by
  induction n using Nat.strong_induction_on with
  | h n ih =>
    by_cases hn : n < 10
    · rw [decimal_of_lt hn]
      simp [digitsValue, digitByte_toNat hn]
    · rw [decimal_of_le (by omega), digitsValue_append_singleton, ih (n / 10) (by omega),
        digitByte_toNat (Nat.mod_lt n (by omega))]
      omega

theorem takeWhile_decimal (n : ℕ) {c : UInt8} (hc : isDigit c = false) (r : Bytes) :
    (decimal n ++ c :: r).takeWhile isDigit = decimal n := by
  rw [List.takeWhile_append_of_pos fun _ => isDigit_of_mem_decimal,
    List.takeWhile_cons_of_neg (by simp [hc]), List.append_nil]

theorem dropWhile_decimal (n : ℕ) {c : UInt8} (hc : isDigit c = false) (r : Bytes) :
    (decimal n ++ c :: r).dropWhile isDigit = c :: r := by
  rw [List.dropWhile_append_of_pos fun _ => isDigit_of_mem_decimal,
    List.dropWhile_cons_of_neg (by simp [hc])]

/-- The numeral `%d` prints. -/
def signed (z : ℤ) : Bytes := if z < 0 then 45 :: decimal z.natAbs else decimal z.natAbs

theorem signed_of_neg {z : ℤ} (h : z < 0) : signed z = 45 :: decimal z.natAbs := if_pos h

theorem signed_of_nonneg {z : ℤ} (h : 0 ≤ z) : signed z = decimal z.natAbs :=
  if_neg (by omega)

theorem signed_ne_nil (z : ℤ) : signed z ≠ [] := by
  unfold signed
  split_ifs
  · exact List.cons_ne_nil _ _
  · exact decimal_ne_nil _

/-- What a numeral is made of. -/
theorem mem_signed {z : ℤ} {c : UInt8} (h : c ∈ signed z) : c = 45 ∨ isDigit c = true := by
  unfold signed at h
  split_ifs at h
  · rw [List.mem_cons] at h
    exact h.imp id fun hc => isDigit_of_mem_decimal hc
  · exact Or.inr (isDigit_of_mem_decimal h)

theorem notMem_signed {c : UInt8} (hc : c ≠ 45 ∧ isDigit c = false) (z : ℤ) : c ∉ signed z := by
  intro h
  rcases mem_signed h with he | hd
  · exact hc.1 he
  · exact Bool.false_ne_true (hc.2.symm.trans hd)

@[simp] theorem signed_natCast (n : ℕ) : signed n = decimal n := by
  rw [signed_of_nonneg (by omega), Int.natAbs_natCast]

theorem signed_length_le {z : ℤ} {k : ℕ} (hk : 0 < k) (h : z.natAbs < 10 ^ k) :
    (signed z).length ≤ k + 1 := by
  have hd := decimal_length_le hk h
  unfold signed
  split_ifs
  · simpa using hd
  · omega

/-- A numeral read back. -/
def readDigits (ds : Bytes) : Option ℕ :=
  if ds ≠ [] ∧ ∀ c ∈ ds, isDigit c = true then some (digitsValue ds) else none

def readInt (s : Bytes) : Option ℤ :=
  if s.head? = some 45 then (readDigits s.tail).map fun n : ℕ => -(n : ℤ)
  else (readDigits s).map fun n : ℕ => (n : ℤ)

theorem readDigits_decimal (n : ℕ) : readDigits (decimal n) = some n := by
  rw [readDigits, if_pos ⟨decimal_ne_nil n, fun c hc => isDigit_of_mem_decimal hc⟩,
    digitsValue_decimal]

theorem readInt_decimal (n : ℕ) : readInt (decimal n) = some (n : ℤ) := by
  have hhead : (decimal n).head? ≠ some 45 := by
    intro h
    exact absurd (isDigit_of_mem_decimal (List.mem_of_mem_head? h)) (by decide)
  rw [readInt, if_neg hhead, readDigits_decimal, Option.map_some]

theorem readInt_signed (z : ℤ) : readInt (signed z) = some z := by
  by_cases hz : z < 0
  · rw [signed_of_neg hz, readInt, List.head?_cons, if_pos rfl, List.tail_cons,
      readDigits_decimal, Option.map_some]
    congr 1
    omega
  · rw [signed_of_nonneg (by omega), readInt_decimal]
    congr 1
    omega

def hexDigit (d : ℕ) : UInt8 := if d < 10 then (48 + d).toUInt8 else (55 + d).toUInt8

/-- The two digits `%02X` prints of a byte. -/
def hex2 (b : UInt8) : Bytes := [hexDigit (b.toNat / 16), hexDigit (b.toNat % 16)]

theorem flatMap_hex2_length (b : Bytes) : (b.flatMap hex2).length = 2 * b.length := by
  induction b with
  | nil => rfl
  | cons c b ih =>
    rw [List.flatMap_cons, List.length_append, ih, List.length_cons, hex2]
    simp only [List.length_cons, List.length_nil]
    omega

/-- The value of a hexadecimal digit of either case. -/
def hexValue (b : UInt8) : Option ℕ :=
  if 48 ≤ b && b ≤ 57 then some (b.toNat - 48)
  else if 65 ≤ b && b ≤ 70 then some (b.toNat - 55)
  else if 97 ≤ b && b ≤ 102 then some (b.toNat - 87)
  else none

theorem hexValue_hexDigit {d : ℕ} (h : d < 16) : hexValue (hexDigit d) = some d := by
  interval_cases d <;> rfl

theorem zero_notMem_flatMap_hex2 (b : Bytes) : 0 ∉ b.flatMap hex2 := by
  intro h
  obtain ⟨c, -, hc⟩ := List.mem_flatMap.mp h
  have hlt := c.toNat_lt
  rw [hex2, List.mem_cons, List.mem_singleton] at hc
  have hnone : hexValue 0 = none := rfl
  obtain hc | hc := hc
  · rw [hc, hexValue_hexDigit (by omega)] at hnone
    cases hnone
  · rw [hc, hexValue_hexDigit (by omega)] at hnone
    cases hnone

/-- A byte from exactly two hexadecimal digits. -/
def unhex2 : Bytes → Option UInt8
  | [a, b] =>
    match hexValue a, hexValue b with
    | some hi, some lo => some (16 * hi + lo).toUInt8
    | _, _ => none
  | _ => none

@[simp] theorem unhex2_hex2 (b : UInt8) : unhex2 (hex2 b) = some b := by
  have hb : b.toNat < 256 := b.toNat_lt
  simp only [unhex2, hex2, hexValue_hexDigit (by omega : b.toNat / 16 < 16),
    hexValue_hexDigit (by omega : b.toNat % 16 < 16), Nat.div_add_mod, Nat.toUInt8,
    UInt8.ofNat_toNat]

end IotLabTraining
