import IotLabTraining.Json

/-!
# Texts that are read back

`Parses py t v` says that the reader takes exactly `t` off the front of any
input and returns `v`. Numerals, plain string literals, arrays and objects of
such texts have it. `scanString_boundary` is the converse for one literal: if
the reader gets back the bytes that were put between the quotes, those bytes
need no escaping.
-/
namespace IotLabTraining.Json

/-- Bytes that may stand between the quotes as they are. -/
def Plain (s : Bytes) : Prop := ∀ b ∈ s, 32 ≤ b ∧ b ≠ 34 ∧ b ≠ 92

instance (s : Bytes) : Decidable (Plain s) :=
  inferInstanceAs (Decidable (∀ b ∈ s, 32 ≤ b ∧ b ≠ 34 ∧ b ≠ 92))

@[simp] theorem plain_nil : Plain [] := by simp [Plain]

theorem plain_cons {b : UInt8} {s : Bytes} :
    Plain (b :: s) ↔ (32 ≤ b ∧ b ≠ 34 ∧ b ≠ 92) ∧ Plain s := by simp [Plain]

theorem skipWs_cons {c : UInt8} (h : isWs c = false) (r : Bytes) : skipWs (c :: r) = c :: r := by
  simp [skipWs, h]

@[simp] theorem skipWs_space (r : Bytes) : skipWs (32 :: r) = skipWs r := by
  simp [skipWs, isWs]

theorem expect_cons {c : UInt8} (h : isWs c = false) (r : Bytes) : expect c (c :: r) = some r := by
  simp [expect, skipWs_cons h]

theorem expect_ne {c d : UInt8} (hd : isWs d = false) (h : d ≠ c) (r : Bytes) :
    expect c (d :: r) = none := by
  rw [expect, skipWs_cons hd]
  exact if_neg h

/-! ## String literals -/

theorem scanString_quote (r : Bytes) : scanString (34 :: r) = some ([], r) := by
  rw [scanString.eq_def]
  simp

theorem scanString_byte {c : UInt8} (hc : 32 ≤ c ∧ c ≠ 34 ∧ c ≠ 92) (r : Bytes) :
    scanString (c :: r) = (scanString r).map fun p => (.byte c :: p.1, p.2) := by
  have hlt : ¬ c < 32 := by simpa using hc.1
  rw [scanString.eq_def]
  simp only [if_neg hc.2.1, if_neg hc.2.2, if_neg hlt]

theorem scanString_plain {s : Bytes} (hs : Plain s) (rest : Bytes) :
    scanString (s ++ 34 :: rest) = some (s.map .byte, rest) := by
  induction s with
  | nil => exact scanString_quote rest
  | cons c s ih =>
    obtain ⟨hc, hs⟩ := plain_cons.mp hs
    rw [List.cons_append, scanString_byte hc, ih hs]
    rfl

@[simp] theorem assemble_map_byte (s : Bytes) : assemble (s.map .byte) = s := by
  induction s with
  | nil => rfl
  | cons c s ih => simp [assemble, ih]

theorem encodePoint_length_le (u : ℕ) : (encodePoint u).length ≤ 4 := by
  unfold encodePoint
  split_ifs <;> simp

theorem assemble_unit {u : ℕ} (h : isHighSurrogate u = false) (l : List Piece) :
    assemble (.unit u :: l) = encodePoint u ++ assemble l := by
  match l with
  | [] => simp [assemble]
  | .byte b :: l => simp [assemble]
  | .unit lo :: l => simp [assemble, h]

/-- A short escape or a plain byte adds one byte, a `\u` escape at most four. -/
def width : Piece → ℕ
  | .byte _ => 1
  | .unit _ => 4

theorem assemble_cons_length_le (p : Piece) (l : List Piece) :
    (assemble (p :: l)).length ≤ width p + (assemble l).length := by
  cases p with
  | byte b => simp only [assemble, List.length_cons, width]; omega
  | unit hi =>
    have hhi := encodePoint_length_le hi
    by_cases hs : isHighSurrogate hi = true
    · match l with
      | [] => simp only [assemble, List.length_append, width]; omega
      | .byte b :: l => simp only [assemble, List.length_append, width]; omega
      | .unit lo :: l =>
        by_cases hl : isLowSurrogate lo = true
        · have hpair := encodePoint_length_le (0x10000 + (hi - 0xD800) * 0x400 + (lo - 0xDC00))
          have hlo : isHighSurrogate lo = false := by
            simp only [isLowSurrogate, Bool.and_eq_true, decide_eq_true_eq] at hl
            simp only [isHighSurrogate, Bool.and_eq_false_iff, decide_eq_false_iff_not]
            omega
          rw [assemble, if_pos (by simp [hs, hl]), assemble_unit hlo]
          simp only [List.length_append, width]
          omega
        · rw [assemble, if_neg (by simp [hl])]
          simp only [List.length_append, width]
          omega
    · rw [assemble_unit (by simpa using hs)]
      simp only [List.length_append, width]
      omega

theorem assemble_append_byte (l : List Piece) (b : UInt8) :
    assemble (l ++ [.byte b]) = assemble l ++ [b] := by
  induction l using assemble.induct with
  | case1 => rfl
  | case2 c l ih => simp [assemble, ih]
  | case3 hi lo l hs ih => simp [assemble, hs, ih]
  | case4 hi lo l hs ih =>
    simp only [List.cons_append] at ih ⊢
    rw [assemble, assemble, if_neg hs, if_neg hs, ih, List.append_assoc]
  | case5 u l hne ih =>
    match l with
    | [] => simp [assemble]
    | .byte c :: l => simpa [assemble] using ih
    | .unit lo :: l => exact absurd rfl (hne lo l)

theorem scanString_control {c : UInt8} (hc : c < 32) (r : Bytes) : scanString (c :: r) = none := by
  have hq : c ≠ 34 := by rintro rfl; exact absurd hc (by decide)
  have hb : c ≠ 92 := by rintro rfl; exact absurd hc (by decide)
  rw [scanString.eq_def]
  simp only [if_neg hq, if_neg hb, if_pos hc]

theorem scanString_short {e : UInt8} (he : e ≠ 117) (r : Bytes) :
    scanString (92 :: e :: r) =
      (shortEscape e).bind fun b => (scanString r).map fun p => (.byte b :: p.1, p.2) := by
  rw [scanString.eq_def]
  simp only [if_neg he]
  cases shortEscape e <;> rfl

theorem scanString_unit (x y z w : UInt8) (r : Bytes) :
    scanString (92 :: 117 :: x :: y :: z :: w :: r) =
      (hex4 x y z w).bind fun u => (scanString r).map fun p => (.unit u :: p.1, p.2) := by
  rw [scanString.eq_def]
  dsimp only
  rw [if_neg (by decide), if_pos rfl, if_pos rfl]
  cases hex4 x y z w <;> rfl

/-- A quote is no hexadecimal digit, so a `\u` escape cannot reach over it. -/
theorem hex4_quote (x y z w : UInt8) (h : x = 34 ∨ y = 34 ∨ z = 34 ∨ w = 34) :
    hex4 x y z w = none := by
  have hq : hexValue 34 = none := rfl
  unfold hex4
  rcases h with rfl | rfl | rfl | rfl
  · rw [hq]; rfl
  · rw [hq]; cases hexValue x <;> rfl
  · rw [hq]; cases hexValue x <;> cases hexValue y <;> rfl
  · rw [hq]; cases hexValue x <;> cases hexValue y <;> cases hexValue z <;> rfl

/-- Reading `m` up to a closing quote that a comma and a quote follow. Either
escapes made the value shorter than the text, or the text is plain and was read
as it stands, or a backslash at its end took the closing quote and the reader
ran on to the next one. -/
def Boundary (m rest : Bytes) (l : List Piece) (r : Bytes) : Prop :=
  (assemble l).length < m.length ∨ (Plain m ∧ l = m.map .byte ∧ r = 44 :: 34 :: rest) ∨
    ((∃ l', l = l' ++ [.byte 44]) ∧ m.getLast? = some 92)

/-- An escape is longer than its value, whatever was read after it. -/
theorem boundary_escape (pre : Bytes) {m rest r : Bytes} {p : Piece} {l : List Piece}
    (hw : width p < pre.length) (h : Boundary m rest l r) :
    Boundary (pre ++ m) rest (p :: l) r := by
  have hbound := assemble_cons_length_le p l
  unfold Boundary
  rw [List.length_append]
  rcases h with hlt | ⟨-, he, -⟩ | ⟨⟨l', he⟩, hlast⟩
  · left; omega
  · left
    have hlen : (assemble l).length = m.length := by rw [he, assemble_map_byte]
    omega
  · refine Or.inr (Or.inr ⟨⟨p :: l', by simp [he]⟩, ?_⟩)
    rw [List.getLast?_append, hlast]
    rfl

theorem boundary_byte {c : UInt8} {m rest r : Bytes} {l : List Piece}
    (hc : 32 ≤ c ∧ c ≠ 34 ∧ c ≠ 92) (h : Boundary m rest l r) :
    Boundary (c :: m) rest (.byte c :: l) r := by
  rcases h with hlt | ⟨hm, he, hr⟩ | ⟨⟨l', he⟩, hlast⟩
  · exact Or.inl (by simpa [assemble] using hlt)
  · exact Or.inr (Or.inl ⟨plain_cons.mpr ⟨hc, hm⟩, by simp [he], hr⟩)
  · refine Or.inr (Or.inr ⟨⟨.byte c :: l', by simp [he]⟩, ?_⟩)
    rw [List.getLast?_cons, hlast]
    rfl

/-- The case of a text that begins with a backslash, from shorter texts. -/
theorem boundary_backslash {m rest r : Bytes} {l : List Piece}
    (ih : ∀ m' l', m'.length ≤ m.length →
      scanString (m' ++ 34 :: 44 :: 34 :: rest) = some (l', r) → Boundary m' rest l' r)
    (h : scanString (92 :: (m ++ 34 :: 44 :: 34 :: rest)) = some (l, r)) :
    Boundary (92 :: m) rest l r := by
  rcases m with _ | ⟨e, m⟩
  · -- The escaped quote and the comma are part of the value.
    rw [List.nil_append, scanString_short (by decide), scanString_byte (by decide),
      scanString_quote] at h
    obtain ⟨rfl, -⟩ := Prod.mk.inj (Option.some.inj h)
    exact Or.inr (Or.inr ⟨⟨[.byte 34], rfl⟩, rfl⟩)
  by_cases hu : e = 117
  · subst hu
    -- Four digits must follow before the quote.
    rcases m with _ | ⟨x, _ | ⟨y, _ | ⟨z, _ | ⟨w, m⟩⟩⟩⟩
    · cases rest with
      | nil =>
        simp only [List.cons_append, List.nil_append] at h
        rw [scanString.eq_def] at h
        simp at h
      | cons x rest => simp [scanString_unit, hex4_quote] at h
    · simp [scanString_unit, hex4_quote] at h
    · simp [scanString_unit, hex4_quote] at h
    · simp [scanString_unit, hex4_quote] at h
    · simp only [List.cons_append, scanString_unit, Option.bind_eq_some_iff,
        Option.map_eq_some_iff] at h
      obtain ⟨u, -, p, hp, he⟩ := h
      obtain ⟨rfl, rfl⟩ := Prod.mk.inj he
      have hm := ih m p.1 (by simp only [List.length_cons]; omega) hp
      exact boundary_escape [92, 117, x, y, z, w] (by simp [width]) hm
  · simp only [List.cons_append, scanString_short hu, Option.bind_eq_some_iff,
      Option.map_eq_some_iff] at h
    obtain ⟨b, -, p, hp, he⟩ := h
    obtain ⟨rfl, rfl⟩ := Prod.mk.inj he
    have hm := ih m p.1 (by simp) hp
    exact boundary_escape [92, e] (by simp [width]) hm

theorem scanString_boundary (n : ℕ) (m rest r : Bytes) (l : List Piece) (hn : m.length ≤ n)
    (h : scanString (m ++ 34 :: 44 :: 34 :: rest) = some (l, r)) : Boundary m rest l r := by
  induction n generalizing m l with
  | zero =>
    obtain rfl := List.length_eq_zero_iff.mp (by omega : m.length = 0)
    rw [List.nil_append, scanString_quote] at h
    obtain ⟨rfl, rfl⟩ := Prod.mk.inj (Option.some.inj h)
    exact Or.inr (Or.inl ⟨plain_nil, rfl, rfl⟩)
  | succ n ih =>
    rcases m with _ | ⟨c, m⟩
    · exact ih [] l (by simp) h
    rw [List.cons_append] at h
    have hm : m.length ≤ n := by simpa using hn
    by_cases hq : c = 34
    · subst hq
      rw [scanString_quote] at h
      obtain ⟨rfl, -⟩ := Prod.mk.inj (Option.some.inj h)
      exact Or.inl (by simp [assemble])
    by_cases hb : c = 92
    · subst hb
      exact boundary_backslash (fun m' l' hle hs => ih m' l' (by omega) hs) h
    by_cases hlt : c < 32
    · rw [scanString_control hlt] at h
      cases h
    have hc : 32 ≤ c ∧ c ≠ 34 ∧ c ≠ 92 := ⟨by simpa using hlt, hq, hb⟩
    simp only [scanString_byte hc, Option.map_eq_some_iff] at h
    obtain ⟨p, hp, he⟩ := h
    obtain ⟨rfl, rfl⟩ := Prod.mk.inj he
    exact boundary_byte hc (ih m p.1 hm hp)

/-- If a literal is read back as the bytes between its quotes, they are plain. -/
theorem plain_of_scanString {m rest r : Bytes} {l : List Piece}
    (h : scanString (m ++ 34 :: 44 :: 34 :: rest) = some (l, r)) (he : assemble l = m) :
    Plain m := by
  rcases scanString_boundary m.length m rest r l le_rfl h with hlt | ⟨hm, -, -⟩ | ⟨⟨l', rfl⟩, hlast⟩
  · rw [he] at hlt
    omega
  · exact hm
  · rw [← he, assemble_append_byte, List.getLast?_append] at hlast
    cases hlast

/-! ## Numerals -/

/-- What follows a numeral does not continue it. -/
def NumberEnd (rest : Bytes) : Prop :=
  ∀ c ∈ rest.head?, isDigit c = false ∧ c ≠ 46 ∧ c ≠ 101 ∧ c ≠ 69

@[simp] theorem numberEnd_nil : NumberEnd [] := by simp [NumberEnd]

theorem numberEnd_cons {c : UInt8} (h : c = 44 ∨ c = 93 ∨ c = 123 ∨ c = 125 ∨ c = 10)
    (r : Bytes) : NumberEnd (c :: r) := by
  rcases h with rfl | rfl | rfl | rfl | rfl <;> simp [NumberEnd, isDigit]

theorem takeWhile_digits {ds rest : Bytes} (hd : ∀ b ∈ ds, isDigit b = true)
    (hr : NumberEnd rest) : (ds ++ rest).takeWhile isDigit = ds := by
  have hrest : rest.takeWhile isDigit = [] := by
    cases rest with
    | nil => rfl
    | cons c rest => simp [(hr c (by simp)).1]
  rw [List.takeWhile_append_of_pos hd, hrest, List.append_nil]

theorem scanFraction_end {rest : Bytes} (hr : NumberEnd rest) : scanFraction rest = ([], rest) := by
  cases rest with
  | nil => rfl
  | cons c rest => simp [scanFraction, (hr c (by simp)).2.1]

theorem scanExponent_end {rest : Bytes} (hr : NumberEnd rest) : scanExponent rest = (0, rest) := by
  cases rest with
  | nil => rfl
  | cons c rest => simp [scanExponent, (hr c (by simp)).2.2]

theorem scanInteger_decimal (n : ℕ) {rest : Bytes} (hr : NumberEnd rest) :
    scanInteger (decimal n ++ rest) = decimal n := by
  by_cases hn : n = 0
  · subst hn
    simp [scanInteger, decimal_of_lt, digitByte]
  · obtain ⟨d, ds, he, hd, -⟩ := decimal_eq_cons (n := n) (by omega)
    have hhead : (decimal n ++ rest).head? ≠ some 48 := by simpa [he] using hd
    rw [scanInteger, if_neg hhead]
    exact takeWhile_digits (fun b hb => isDigit_of_mem_decimal hb) hr

theorem scanSign_decimal (n : ℕ) (rest : Bytes) :
    scanSign (decimal n ++ rest) = (false, decimal n ++ rest) := by
  cases hd : decimal n with
  | nil => exact absurd hd (decimal_ne_nil n)
  | cons c ds =>
    have hc : isDigit c = true := isDigit_of_mem_decimal (n := n) (by simp [hd])
    have hne : c ≠ 45 := by rintro rfl; exact absurd hc (by decide)
    simp [scanSign, hne]

theorem scanNumber_signed (z : ℤ) {rest : Bytes} (hr : NumberEnd rest) :
    scanNumber (signed z ++ rest) = some (.num z 0, rest) := by
  have hmag (n : ℕ) : digitsValue (decimal n ++ []) = n := by simp
  by_cases hz : z < 0
  · have hsign : scanSign (signed z ++ rest) = (true, decimal z.natAbs ++ rest) := by
      simp [signed_of_neg hz, scanSign]
    simp only [scanNumber, hsign, scanInteger_decimal _ hr, decimal_ne_nil, if_false,
      List.drop_left, scanFraction_end hr, scanExponent_end hr, hmag, if_true]
    have hval : -(z.natAbs : ℤ) = z := by omega
    simpa using hval
  · have hsign : scanSign (signed z ++ rest) = (false, decimal z.natAbs ++ rest) := by
      rw [signed_of_nonneg (by omega), scanSign_decimal]
    simp only [scanNumber, hsign, scanInteger_decimal _ hr, decimal_ne_nil, if_false,
      List.drop_left, scanFraction_end hr, scanExponent_end hr, hmag]
    have hval : (z.natAbs : ℤ) = z := by omega
    simpa using hval

/-- A numeral begins with a digit, or with a minus and a digit. -/
theorem signed_cases (z : ℤ) :
    (∃ c r, signed z = c :: r ∧ isDigit c = true) ∨
      ∃ c r, signed z = 45 :: c :: r ∧ isDigit c = true := by
  have hdec : ∃ c r, decimal z.natAbs = c :: r ∧ isDigit c = true := by
    cases hd : decimal z.natAbs with
    | nil => exact absurd hd (decimal_ne_nil _)
    | cons c r => exact ⟨c, r, rfl, isDigit_of_mem_decimal (n := z.natAbs) (by simp [hd])⟩
  obtain ⟨c, r, he, hc⟩ := hdec
  by_cases hz : z < 0
  · exact Or.inr ⟨c, r, by rw [signed_of_neg hz, he], hc⟩
  · exact Or.inl ⟨c, r, by rw [signed_of_nonneg (by omega), he], hc⟩

theorem literal_ne {t : String} {a : UInt8} {as : Bytes} (ht : ascii t = a :: as) (v : Value)
    {c : UInt8} (h : a ≠ c) (r : Bytes) : literal t v (c :: r) = none := by
  simp [literal, ht, List.isPrefixOf, h]

theorem scanAtom_digit (py : Bool) {c : UInt8} (hc : isDigit c = true) (r : Bytes) :
    scanAtom py (c :: r) = scanNumber (c :: r) := by
  have hne : ∀ a : UInt8, isDigit a = false → a ≠ c := by
    rintro a ha rfl
    rw [ha] at hc
    cases hc
  simp only [scanAtom, special, literal_ne (show ascii "true" = 116 :: _ from rfl) _ (hne _ rfl),
    literal_ne (show ascii "false" = 102 :: _ from rfl) _ (hne _ rfl),
    literal_ne (show ascii "null" = 110 :: _ from rfl) _ (hne _ rfl),
    literal_ne (show ascii "NaN" = 78 :: _ from rfl) _ (hne _ rfl),
    literal_ne (show ascii "Infinity" = 73 :: _ from rfl) _ (hne _ rfl),
    literal_ne (show ascii "-Infinity" = 45 :: _ from rfl) _ (hne _ rfl), ite_self]
  rfl

theorem scanAtom_minus (py : Bool) {c : UInt8} (hc : isDigit c = true) (r : Bytes) :
    scanAtom py (45 :: c :: r) = scanNumber (45 :: c :: r) := by
  have hne : (73 : UInt8) ≠ c := by rintro rfl; exact absurd hc (by decide)
  have hinf : literal "-Infinity" (.special (ascii "-Infinity")) (45 :: c :: r) = none := by
    have ht : ascii "-Infinity" = 45 :: 73 :: ascii "nfinity" := rfl
    simp [literal, ht, List.isPrefixOf, hne]
  simp only [scanAtom, special, hinf,
    literal_ne (show ascii "true" = 116 :: _ from rfl) _ (show (116 : UInt8) ≠ 45 by decide),
    literal_ne (show ascii "false" = 102 :: _ from rfl) _ (show (102 : UInt8) ≠ 45 by decide),
    literal_ne (show ascii "null" = 110 :: _ from rfl) _ (show (110 : UInt8) ≠ 45 by decide),
    literal_ne (show ascii "NaN" = 78 :: _ from rfl) _ (show (78 : UInt8) ≠ 45 by decide),
    literal_ne (show ascii "Infinity" = 73 :: _ from rfl) _ (show (73 : UInt8) ≠ 45 by decide),
    ite_self]
  rfl

/-! ## Values -/

/-- The reader takes exactly `t` off the front and returns `v`. -/
def Parses (py : Bool) (t : Bytes) (v : Value) : Prop :=
  ∀ n rest, 2 * t.length ≤ n → NumberEnd rest → parseValue py n (t ++ rest) = some (v, rest)

theorem parseValue_atom (py : Bool) (n : ℕ) {c : UInt8} (r : Bytes) (hw : isWs c = false)
    (hc : c ≠ 123 ∧ c ≠ 91 ∧ c ≠ 34) :
    parseValue py (n + 1) (c :: r) = scanAtom py (c :: r) := by
  simp only [parseValue, skipWs_cons hw, if_neg hc.1, if_neg hc.2.1, if_neg hc.2.2]

theorem parses_signed (py : Bool) (z : ℤ) : Parses py (signed z) (.num z 0) := by
  intro n rest hn hr
  have hnum := scanNumber_signed z hr
  have hdig : ∀ c : UInt8, isDigit c = true →
      isWs c = false ∧ c ≠ 123 ∧ c ≠ 91 ∧ c ≠ 34 := by
    intro c hc
    rw [isDigit_iff] at hc
    simp only [isWs, ne_eq, ← UInt8.toNat_inj, UInt8.reduceToNat, Bool.or_eq_false_iff,
      decide_eq_false_iff_not]
    omega
  rcases signed_cases z with ⟨c, r, he, hc⟩ | ⟨c, r, he, hc⟩
  · obtain ⟨k, rfl⟩ : ∃ k, n = k + 1 := ⟨n - 1, by simp [he] at hn; omega⟩
    rw [he, List.cons_append] at hnum ⊢
    rw [parseValue_atom py k _ (hdig c hc).1 (hdig c hc).2, scanAtom_digit py hc, hnum]
  · obtain ⟨k, rfl⟩ : ∃ k, n = k + 1 := ⟨n - 1, by simp [he] at hn; omega⟩
    rw [he, List.cons_append, List.cons_append] at hnum ⊢
    rw [parseValue_atom py k _ (by decide) (by decide), scanAtom_minus py hc, hnum]

theorem parseValue_quote (py : Bool) (n : ℕ) (r : Bytes) :
    parseValue py (n + 1) (34 :: r) =
      (scanString r).map fun p => (.str (assemble p.1), p.2) := by
  simp [parseValue, skipWs_cons (show isWs 34 = false by decide)]

theorem parses_str (py : Bool) {s : Bytes} (hs : Plain s) :
    Parses py (34 :: (s ++ [34])) (.str s) := by
  intro n rest hn _
  obtain ⟨k, rfl⟩ : ∃ k, n = k + 1 := ⟨n - 1, by simp at hn; omega⟩
  have hscan := scanString_plain hs rest
  simp [parseValue_quote, hscan]

theorem parseValue_members (py : Bool) (n : ℕ) (r : Bytes) :
    parseValue py (n + 1) (123 :: 34 :: r) =
      (parseMembers py n (34 :: r)).map fun p => (.obj p.1, p.2) := by
  have hnot : expect 125 (34 :: r) = none := by
    simp [expect, skipWs_cons (show isWs 34 = false by decide)]
  rw [parseValue, skipWs_cons (by decide)]
  dsimp only
  rw [if_pos rfl, hnot]

/-- A member name does not begin with a single quote. -/
theorem parse_single_quote (py : Bool) (r : Bytes) : parse py (123 :: 39 :: r) = none := by
  have hclose : expect 125 (39 :: r) = none := expect_ne (by decide) (by decide) r
  have hquote : expect 34 (39 :: r) = none := expect_ne (by decide) (by decide) r
  have hmembers (n : ℕ) : parseMembers py n (39 :: r) = none := by
    cases n with
    | zero => rw [parseMembers]
    | succ n => rw [parseMembers, hquote, Option.bind_none]
  rw [parse, parseValue, skipWs_cons (by decide)]
  dsimp only
  rw [if_pos rfl, hclose]
  dsimp only
  rw [hmembers, Option.map_none, Option.bind_none]

theorem parseValue_elements (py : Bool) (n : ℕ) {c : UInt8} (hw : isWs c = false) (hc : c ≠ 93)
    (r : Bytes) : parseValue py (n + 1) (91 :: c :: r) =
      (parseElements py n (c :: r)).map fun p => (.arr p.1, p.2) := by
  have hnot : expect 93 (c :: r) = none := by simp [expect, skipWs_cons hw, hc]
  rw [parseValue, skipWs_cons (by decide)]
  dsimp only
  rw [if_neg (by decide), if_pos rfl, hnot]

theorem parseValue_space (py : Bool) (n : ℕ) (s : Bytes) :
    parseValue py n (32 :: s) = parseValue py n s := by
  cases n with
  | zero => simp only [parseValue]
  | succ n => simp only [parseValue, skipWs_space]

theorem parses_space {py : Bool} {t : Bytes} {v : Value} (h : Parses py t v) :
    Parses py (32 :: t) v := by
  intro n rest hn hr
  simp only [List.length_cons] at hn
  rw [List.cons_append, parseValue_space]
  exact h n rest (by omega) hr

/-- No value begins with a closing bracket or brace. -/
theorem parseValue_close (py : Bool) (n : ℕ) {c : UInt8} {s r : Bytes} (hc : c = 93 ∨ c = 125)
    (h : expect c s = some r) : parseValue py n s = none := by
  have hs : skipWs s = c :: r := by
    unfold expect at h
    cases hsk : skipWs s with
    | nil => simp [hsk] at h
    | cons b t => simp_all
  have hatom : scanAtom py (c :: r) = none := by
    rcases hc with rfl | rfl <;> cases py <;> rfl
  cases n with
  | zero => rfl
  | succ n =>
    rw [parseValue, hs]
    rcases hc with rfl | rfl <;> simpa using hatom

theorem expect_close_of_parses {py : Bool} {t : Bytes} {v : Value} (h : Parses py t v)
    {rest : Bytes} (hr : NumberEnd rest) {c : UInt8} (hc : c = 93 ∨ c = 125) :
    expect c (t ++ rest) = none := by
  have ht := h (2 * t.length) rest le_rfl hr
  cases he : expect c (t ++ rest) with
  | none => rfl
  | some r =>
    rw [parseValue_close py _ hc he] at ht
    cases ht

/-! ## Arrays -/

/-- Whatever follows, the first element read is what the reader finds first. -/
theorem parseElements_head {py : Bool} {n : ℕ} {s : Bytes} {q : List Value × Bytes}
    (h : parseElements py (n + 1) s = some q) :
    ∃ p vs, parseValue py n s = some p ∧ q.1 = p.1 :: vs := by
  rw [parseElements, Option.bind_eq_some_iff] at h
  obtain ⟨p, hp, hq⟩ := h
  refine ⟨p, ?_⟩
  split at hq
  · cases hq
  · rename_i c r _
    by_cases hc : c = 44
    · rw [if_pos hc, Option.map_eq_some_iff] at hq
      obtain ⟨q', -, rfl⟩ := hq
      exact ⟨q'.1, hp, rfl⟩
    · rw [if_neg hc] at hq
      split_ifs at hq
      · obtain rfl := Option.some.inj hq
        exact ⟨[], hp, rfl⟩

theorem parseElements_cons {py : Bool} {t : Bytes} {v : Value} (h : Parses py t v) {n : ℕ}
    (hn : 2 * t.length ≤ n) (rest : Bytes) :
    parseElements py (n + 1) (t ++ 44 :: rest) =
      (parseElements py n rest).map fun q => (v :: q.1, q.2) := by
  have ht := h n (44 :: rest) hn (numberEnd_cons (by simp) rest)
  rw [parseElements, ht]
  simp [skipWs_cons (show isWs 44 = false by decide)]

theorem parseElements_last {py : Bool} {t : Bytes} {v : Value} (h : Parses py t v) {n : ℕ}
    (hn : 2 * t.length ≤ n) (rest : Bytes) :
    parseElements py (n + 1) (t ++ 93 :: rest) = some ([v], rest) := by
  have ht := h n (93 :: rest) hn (numberEnd_cons (by simp) rest)
  rw [parseElements, ht]
  simp [skipWs_cons (show isWs 93 = false by decide)]

theorem parseElements_join {py : Bool} {t : Bytes} {v : Value} {ts : List Bytes}
    {vs : List Value} (h : Parses py t v) (hs : List.Forall₂ (Parses py) ts vs) (n : ℕ)
    (hn : 2 * ([44].intercalate (t :: ts)).length + 1 ≤ n) (rest : Bytes) :
    parseElements py n ([44].intercalate (t :: ts) ++ 93 :: rest) = some (v :: vs, rest) := by
  induction hs generalizing t v n with
  | nil =>
    rw [List.intercalate_singleton] at hn ⊢
    obtain ⟨k, rfl⟩ : ∃ k, n = k + 1 := ⟨n - 1, by omega⟩
    exact parseElements_last h (by omega) rest
  | @cons t' v' ts vs h' _ ih =>
    rw [List.intercalate_cons_cons] at hn ⊢
    simp only [List.length_append, List.length_cons, List.length_nil] at hn
    obtain ⟨k, rfl⟩ : ∃ k, n = k + 1 := ⟨n - 1, by omega⟩
    have hrest := ih h' k (by omega)
    simp only [List.append_assoc, List.cons_append, List.nil_append]
    rw [parseElements_cons h (by omega), hrest]
    rfl

theorem parses_arr {py : Bool} {ts : List Bytes} {vs : List Value}
    (hs : List.Forall₂ (Parses py) ts vs) :
    Parses py (91 :: ([44].intercalate ts ++ [93])) (.arr vs) := by
  intro n rest hn hr
  simp only [List.length_cons, List.length_append, List.length_nil] at hn
  obtain ⟨k, rfl⟩ : ∃ k, n = k + 1 := ⟨n - 1, by omega⟩
  have hopen : skipWs (91 :: ([44].intercalate ts ++ [93]) ++ rest) =
      91 :: ([44].intercalate ts ++ 93 :: rest) := by
    rw [List.cons_append, skipWs_cons (by decide), List.append_assoc]
    rfl
  rw [parseValue, hopen]
  cases hs with
  | nil => simp [expect_cons (show isWs 93 = false by decide)]
  | @cons t v ts vs h hs =>
    have hjoin := parseElements_join h hs k (by omega) rest
    have hnot : expect 93 ([44].intercalate (t :: ts) ++ 93 :: rest) = none := by
      cases ts with
      | nil =>
        rw [List.intercalate_singleton]
        exact expect_close_of_parses h (numberEnd_cons (by simp) rest) (by simp)
      | cons t' ts =>
        rw [List.intercalate_cons_cons, List.append_assoc, List.append_assoc]
        exact expect_close_of_parses h (numberEnd_cons (by simp) _) (by simp)
    simp [hnot, hjoin]

/-! ## Objects -/

/-- A member with its key in quotes. -/
def memberText (m : Bytes × Bytes) : Bytes := 34 :: (m.1 ++ 34 :: 58 :: m.2)

/-- What the reader does between the key of a member and what follows the value. -/
theorem parseMembers_key {py : Bool} {k : Bytes} (hk : Plain k) (n : ℕ) (rest : Bytes) :
    parseMembers py (n + 1) (34 :: (k ++ 34 :: 58 :: rest)) =
      (parseValue py n rest).bind fun p =>
        match skipWs p.2 with
        | [] => none
        | c :: r =>
          if c = 44 then (parseMembers py n r).map fun q => ((k, p.1) :: q.1, q.2)
          else if c = 125 then some ([(k, p.1)], r)
          else none := by
  rw [parseMembers, expect_cons (by decide), Option.bind_some, scanString_plain hk,
    Option.bind_some, expect_cons (by decide), Option.bind_some]
  refine congrArg (Option.bind _) ?_
  ext1 p
  cases skipWs p.2 with
  | nil => rfl
  | cons c r =>
    dsimp only
    rw [assemble_map_byte]

/-- Whatever follows, the first member read is the first one printed. -/
theorem parseMembers_head {py : Bool} {k : Bytes} (hk : Plain k) {n : ℕ} {rest : Bytes}
    {q : List (Bytes × Value) × Bytes}
    (h : parseMembers py (n + 1) (34 :: (k ++ 34 :: 58 :: rest)) = some q) :
    ∃ p ms, parseValue py n rest = some p ∧ q.1 = (k, p.1) :: ms := by
  rw [parseMembers_key hk, Option.bind_eq_some_iff] at h
  obtain ⟨p, hp, hq⟩ := h
  refine ⟨p, ?_⟩
  split at hq
  · cases hq
  · rename_i c r _
    by_cases hc : c = 44
    · rw [if_pos hc, Option.map_eq_some_iff] at hq
      obtain ⟨q', -, rfl⟩ := hq
      exact ⟨q'.1, hp, rfl⟩
    · rw [if_neg hc] at hq
      split_ifs at hq
      · obtain rfl := Option.some.inj hq
        exact ⟨[], hp, rfl⟩

theorem parseMembers_cons {py : Bool} {k t : Bytes} {v : Value} (hk : Plain k)
    (h : Parses py t v) {n : ℕ} (hn : 2 * t.length ≤ n) (rest : Bytes) :
    parseMembers py (n + 1) (memberText (k, t) ++ 44 :: rest) =
      (parseMembers py n rest).map fun q => ((k, v) :: q.1, q.2) := by
  have ht := h n (44 :: rest) hn (numberEnd_cons (by simp) rest)
  simp only [memberText, List.cons_append, List.append_assoc]
  rw [parseMembers_key hk, ht]
  simp [skipWs_cons (show isWs 44 = false by decide)]

theorem parseMembers_last {py : Bool} {k t : Bytes} {v : Value} (hk : Plain k)
    (h : Parses py t v) {n : ℕ} (hn : 2 * t.length ≤ n) (rest : Bytes) :
    parseMembers py (n + 1) (memberText (k, t) ++ 125 :: rest) = some ([(k, v)], rest) := by
  have ht := h n (125 :: rest) hn (numberEnd_cons (by simp) rest)
  simp only [memberText, List.cons_append, List.append_assoc]
  rw [parseMembers_key hk, ht]
  simp [skipWs_cons (show isWs 125 = false by decide)]

/-- A member text and the key and value it is read as. -/
def ParsesMember (py : Bool) (m : Bytes × Bytes) (kv : Bytes × Value) : Prop :=
  m.1 = kv.1 ∧ Plain m.1 ∧ Parses py m.2 kv.2

theorem parsesMember {py : Bool} {k t : Bytes} {v : Value} (hk : Plain k) (h : Parses py t v) :
    ParsesMember py (k, t) (k, v) := ⟨rfl, hk, h⟩

theorem parseMembers_join {py : Bool} {m : Bytes × Bytes} {kv : Bytes × Value}
    {ms : List (Bytes × Bytes)} {kvs : List (Bytes × Value)} (h : ParsesMember py m kv)
    (hs : List.Forall₂ (ParsesMember py) ms kvs) (n : ℕ)
    (hn : 2 * ([44].intercalate ((m :: ms).map memberText)).length ≤ n) (rest : Bytes) :
    parseMembers py n ([44].intercalate ((m :: ms).map memberText) ++ 125 :: rest) =
      some (kv :: kvs, rest) := by
  have hlen (m : Bytes × Bytes) : (memberText m).length = m.1.length + m.2.length + 3 := by
    simp only [memberText, List.length_cons, List.length_append]
    omega
  induction hs generalizing m kv n with
  | nil =>
    obtain ⟨hkey, hplain, hval⟩ := h
    rw [List.map_singleton, List.intercalate_singleton] at hn ⊢
    have hm := hlen m
    obtain ⟨k, rfl⟩ : ∃ k, n = k + 1 := ⟨n - 1, by omega⟩
    rw [parseMembers_last hplain hval (by omega), hkey]
  | @cons m' kv' ms kvs h' _ ih =>
    obtain ⟨hkey, hplain, hval⟩ := h
    rw [List.map_cons, List.map_cons, List.intercalate_cons_cons] at hn ⊢
    simp only [List.length_append, List.length_cons, List.length_nil] at hn
    have hm := hlen m
    obtain ⟨k, rfl⟩ : ∃ k, n = k + 1 := ⟨n - 1, by omega⟩
    have hrest := ih h' k (by rw [List.map_cons]; omega)
    rw [List.map_cons] at hrest
    simp only [List.append_assoc, List.cons_append, List.nil_append]
    rw [parseMembers_cons hplain hval (by omega), hrest, hkey]
    rfl

theorem parses_obj {py : Bool} {m : Bytes × Bytes} {kv : Bytes × Value}
    {ms : List (Bytes × Bytes)} {kvs : List (Bytes × Value)} (h : ParsesMember py m kv)
    (hs : List.Forall₂ (ParsesMember py) ms kvs) :
    Parses py (123 :: ([44].intercalate ((m :: ms).map memberText) ++ [125]))
      (.obj (kv :: kvs)) := by
  intro n rest hn hr
  simp only [List.length_cons, List.length_append, List.length_nil] at hn
  obtain ⟨k, rfl⟩ : ∃ k, n = k + 1 := ⟨n - 1, by omega⟩
  have hbody : ∃ r, [44].intercalate ((m :: ms).map memberText) ++ 125 :: rest = 34 :: r := by
    cases ms with
    | nil => simp [memberText]
    | cons m' ms => simp [List.intercalate_cons_cons, memberText]
  have hjoin := parseMembers_join h hs k (by omega) rest
  rw [List.cons_append, List.append_assoc, List.singleton_append]
  obtain ⟨r, hr⟩ := hbody
  rw [hr] at hjoin ⊢
  rw [parseValue_members, hjoin]
  rfl

/-! ## Whole texts -/

theorem parse_line {py : Bool} {t : Bytes} {v : Value} (h : Parses py t v) :
    parse py (t ++ [10]) = some v := by
  have ht := h (2 * (t ++ [10]).length + 2) [10] (by simp; omega) (numberEnd_cons (by simp) [])
  rw [parse, ht]
  rfl

theorem parse_text {py : Bool} {t : Bytes} {v : Value} (h : Parses py t v) :
    parse py t = some v := by
  have ht := h (2 * t.length + 2) [] (by omega) numberEnd_nil
  rw [List.append_nil] at ht
  rw [parse, ht]
  rfl

end IotLabTraining.Json
