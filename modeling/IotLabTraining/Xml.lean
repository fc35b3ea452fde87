import IotLabTraining.JsonText

/-!
# XML documents of one empty tag

A reader for XML documents that consist of one tag without content: a name,
attributes that are each set off by white space, and `/>`. Names are made of ASCII
characters, and the values have no references. White space is that of JSON.

Bytes: 34 and 39 quotes, 38 ampersand, 47 slash, 60 and 62 angle brackets, 61 equals
sign.
-/
namespace IotLabTraining.Xml
open Json

def isNameStart (c : UInt8) : Bool :=
  (65 ≤ c && c ≤ 90) || (97 ≤ c && c ≤ 122) || c = 95 || c = 58

def isNameChar (c : UInt8) : Bool := isNameStart c || isDigit c || c = 45 || c = 46

/-- A name, and what follows it. -/
def scanName : Bytes → Option (Bytes × Bytes)
  | [] => none
  | c :: r =>
    if isNameStart c then some (c :: r.takeWhile isNameChar, r.dropWhile isNameChar) else none

/-- A value up to the quote that it began with. -/
def scanValue : Bytes → Option (Bytes × Bytes)
  | [] => none
  | quote :: r =>
    let v := r.takeWhile fun c => c ≠ quote
    if (quote = 34 ∨ quote = 39) ∧ quote ∈ r ∧ 60 ∉ v ∧ 38 ∉ v then
      some (v, (r.dropWhile fun c => c ≠ quote).tail)
    else none

def scanAttribute (s : Bytes) : Option ((Bytes × Bytes) × Bytes) :=
  (scanName s).bind fun n => (expect 61 n.2).bind fun r =>
    (scanValue (skipWs r)).map fun v => ((n.1, v.1), v.2)

/-- The attributes up to the end of the tag, and what follows it. -/
def scanAttributes : ℕ → Bytes → Option (List (Bytes × Bytes) × Bytes)
  | 0, _ => none
  | fuel + 1, s =>
    if [47, 62].isPrefixOf (skipWs s) then some ([], (skipWs s).drop 2)
    else if skipWs s = s then none
    else (scanAttribute (skipWs s)).bind fun a =>
      (scanAttributes fuel a.2).map fun p => (a.1 :: p.1, p.2)

/-- The name and the attributes of the one tag. -/
def parse (s : Bytes) : Option (Bytes × List (Bytes × Bytes)) :=
  (expect 60 s).bind fun r => (scanName r).bind fun n =>
    (scanAttributes (s.length + 1) n.2).bind fun p =>
      if skipWs p.2 = [] ∧ (p.1.map Prod.fst).Nodup then some (n.1, p.1) else none

/-! ## Tags that are read back -/

/-- A name of the reader. -/
def IsName (n : Bytes) : Prop :=
  (∃ c ∈ n.head?, isNameStart c = true) ∧ ∀ c ∈ n, isNameChar c = true

instance (n : Bytes) : Decidable (IsName n) := inferInstanceAs (Decidable (_ ∧ _))

/-- A value that stands between double quotes as it is. -/
def IsValue (v : Bytes) : Prop := 34 ∉ v ∧ 60 ∉ v ∧ 38 ∉ v

def attributeText (a : Bytes × Bytes) : Bytes := 32 :: (a.1 ++ [61, 34] ++ a.2 ++ [34])

def tagText (name : Bytes) (attributes : List (Bytes × Bytes)) : Bytes :=
  60 :: (name ++ attributes.flatMap attributeText ++ [47, 62])

theorem scanName_append {n : Bytes} (h : IsName n) {c : UInt8} (hc : isNameChar c = false)
    (r : Bytes) : scanName (n ++ c :: r) = some (n, c :: r) := by
  obtain ⟨⟨d, hd, hstart⟩, hall⟩ := h
  obtain ⟨n', rfl⟩ : ∃ n', n = d :: n' := List.head?_eq_some_iff.mp hd
  have hrest : ∀ b ∈ n', isNameChar b = true := fun b hb => hall b (List.mem_cons_of_mem d hb)
  rw [List.cons_append, scanName, if_pos hstart, List.takeWhile_append_of_pos hrest,
    List.dropWhile_append_of_pos hrest, List.takeWhile_cons_of_neg (by simp [hc]),
    List.dropWhile_cons_of_neg (by simp [hc]), List.append_nil]

theorem scanValue_append {v : Bytes} (h : IsValue v) (r : Bytes) :
    scanValue (34 :: (v ++ 34 :: r)) = some (v, r) := by
  have hall : ∀ c ∈ v, decide (c ≠ 34) = true := by
    intro c hc
    simpa using fun he : c = 34 => h.1 (he ▸ hc)
  have htake : (v ++ 34 :: r).takeWhile (fun c => decide (c ≠ 34)) = v := by
    rw [List.takeWhile_append_of_pos hall]
    simp
  have hdrop : (v ++ 34 :: r).dropWhile (fun c => decide (c ≠ 34)) = 34 :: r := by
    rw [List.dropWhile_append_of_pos hall]
    rfl
  simp only [scanValue, htake, hdrop, List.tail_cons]
  rw [if_pos ⟨Or.inl trivial, by simp, h.2⟩]

theorem nameStart_ne {c : UInt8} (h : isNameStart c = true) : isWs c = false ∧ c ≠ 47 := by
  constructor
  · by_contra hws
    simp only [Bool.not_eq_false, isWs, Bool.or_eq_true, decide_eq_true_eq] at hws
    rcases hws with ((rfl | rfl) | rfl) | rfl
    all_goals exact absurd h (by decide)
  · rintro rfl
    exact absurd h (by decide)

theorem skipWs_name {n : Bytes} (h : IsName n) (r : Bytes) :
    skipWs (n ++ r) = n ++ r ∧ [47, 62].isPrefixOf (n ++ r) = false := by
  obtain ⟨⟨d, hd, hstart⟩, -⟩ := h
  obtain ⟨n', rfl⟩ : ∃ n', n = d :: n' := List.head?_eq_some_iff.mp hd
  obtain ⟨hws, hslash⟩ := nameStart_ne hstart
  exact ⟨skipWs_cons hws _, by simp [List.isPrefixOf, hslash.symm]⟩

theorem scanAttribute_append {a : Bytes × Bytes} (hname : IsName a.1) (hvalue : IsValue a.2)
    (r : Bytes) : scanAttribute (a.1 ++ 61 :: 34 :: (a.2 ++ 34 :: r)) = some (a, r) := by
  rw [scanAttribute, scanName_append hname (by decide), Option.bind_some, expect_cons (by decide),
    Option.bind_some, skipWs_cons (by decide), scanValue_append hvalue, Option.map_some]

theorem scanAttributes_append {attributes : List (Bytes × Bytes)}
    (h : ∀ a ∈ attributes, IsName a.1 ∧ IsValue a.2) {fuel : ℕ} (hfuel : attributes.length < fuel)
    (r : Bytes) : scanAttributes fuel (attributes.flatMap attributeText ++ 47 :: 62 :: r) =
      some (attributes, r) := by
  induction attributes generalizing fuel with
  | nil =>
    obtain ⟨fuel, rfl⟩ : ∃ f, fuel = f + 1 := ⟨fuel - 1, by simp at hfuel; omega⟩
    rw [List.flatMap_nil, List.nil_append, scanAttributes, skipWs_cons (by decide)]
    rfl
  | cons a as ih =>
    rw [List.length_cons] at hfuel
    obtain ⟨fuel, rfl⟩ : ∃ f, fuel = f + 1 := ⟨fuel - 1, by omega⟩
    obtain ⟨hname, hvalue⟩ := h a List.mem_cons_self
    have htext : (a :: as).flatMap attributeText ++ 47 :: 62 :: r = 32 :: (a.1 ++ 61 :: 34 ::
        (a.2 ++ 34 :: (as.flatMap attributeText ++ 47 :: 62 :: r))) := by
      simp [attributeText]
    obtain ⟨hskip, hslash⟩ := skipWs_name hname
      (61 :: 34 :: (a.2 ++ 34 :: (as.flatMap attributeText ++ 47 :: 62 :: r)))
    rw [htext, scanAttributes, skipWs_space, hskip, hslash, if_neg Bool.false_ne_true, if_neg ?_,
      scanAttribute_append hname hvalue, Option.bind_some,
      ih (fun b hb => h b (List.mem_cons_of_mem a hb)) (by omega), Option.map_some]
    intro heq
    have hlen := congrArg List.length heq
    simp at hlen

/-- A tag is read back. -/
theorem parse_tagText {name : Bytes} {attributes : List (Bytes × Bytes)} (hname : IsName name)
    (h : ∀ a ∈ attributes, IsName a.1 ∧ IsValue a.2)
    (hnodup : (attributes.map Prod.fst).Nodup) :
    parse (tagText name attributes) = some (name, attributes) := by
  have hlen : attributes.length < (tagText name attributes).length + 1 := by
    have hall (as : List (Bytes × Bytes)) : as.length ≤ (as.flatMap attributeText).length := by
      induction as with
      | nil => exact le_rfl
      | cons a as ih =>
        rw [List.flatMap_cons, List.length_append, List.length_cons, attributeText,
          List.length_cons]
        omega
    have hattributes := hall attributes
    rw [tagText, List.length_cons, List.length_append, List.length_append]
    omega
  have hname' : scanName (name ++ (attributes.flatMap attributeText ++ [47, 62])) =
      some (name, attributes.flatMap attributeText ++ [47, 62]) := by
    cases attributes with
    | nil => exact scanName_append hname (by decide) _
    | cons a as => exact scanName_append hname (by decide) _
  have hexpect : expect 60 (tagText name attributes) =
      some (name ++ (attributes.flatMap attributeText ++ [47, 62])) := by
    rw [tagText, expect_cons (by decide), List.append_assoc]
  rw [parse, hexpect, Option.bind_some, hname', Option.bind_some,
    scanAttributes_append h hlen, Option.bind_some, if_pos ⟨rfl, hnodup⟩]

/-- A value without an attribute name is no tag. -/
theorem parse_nameless {name : Bytes} (hname : IsName name) (r : Bytes) :
    parse (60 :: (name ++ 32 :: 61 :: r)) = none := by
  have hskip : skipWs (32 :: 61 :: r) = 61 :: r := by rw [skipWs_space, skipWs_cons (by decide)]
  have hlen : (61 :: r) ≠ 32 :: 61 :: r := fun h => by simpa using congrArg List.length h
  have hattribute : scanAttribute (61 :: r) = none := rfl
  rw [parse, expect_cons (by decide), Option.bind_some, scanName_append hname (by decide),
    Option.bind_some, scanAttributes, hskip, if_neg (by simp [List.isPrefixOf]), if_neg hlen,
    hattribute, Option.bind_none, Option.bind_none]

end IotLabTraining.Xml
