import IotLabTraining.JsonPrefix

/-!
# Documents read line by line

A file holds JSON documents one behind the other, and is read in text mode, one
document from each line. Without line ends of its own it has only the CR bytes
in the whitespace around its documents, and all of them are read back when these
part the documents and do nothing else.
-/
namespace IotLabTraining.Json

/-! ## Text mode -/

/-- Text mode reading: CR and CR LF become LF. The flag says that the last
character was a CR. -/
def universalNewlines : Bool → Bytes → Bytes
  | _, [] => []
  | cr, c :: r =>
    if c = 13 then 10 :: universalNewlines true r
    else if c = 10 ∧ cr = true then universalNewlines false r
    else c :: universalNewlines false r

/-- `readlines`: each line keeps its LF. -/
def readlines : Bytes → List Bytes
  | [] => []
  | c :: r =>
    if c = 10 then [10] :: readlines r
    else match readlines r with
      | [] => [[c]]
      | l :: ls => (c :: l) :: ls

theorem universalNewlines_append {t : Bytes} (h : 13 ∉ t) (s : Bytes) :
    universalNewlines false (t ++ s) = t ++ universalNewlines false s := by
  induction t with
  | nil => rfl
  | cons c t ih =>
    rw [List.mem_cons, not_or] at h
    rw [List.cons_append, universalNewlines, if_neg (Ne.symm h.1), if_neg (by simp), ih h.2]
    rfl

theorem universalNewlines_cr {s : Bytes} (h : 10 ∉ s) :
    universalNewlines true s = universalNewlines false s := by
  cases s with
  | nil => rfl
  | cons c s =>
    have hc : c ≠ 10 := fun he => h (he ▸ List.mem_cons_self)
    simp only [universalNewlines, hc, false_and, if_false]

theorem readlines_append {t s l : Bytes} {ls : List Bytes} (h : 10 ∉ t)
    (hs : readlines s = l :: ls) : readlines (t ++ s) = (t ++ l) :: ls := by
  induction t with
  | nil => exact hs
  | cons c t ih =>
    rw [List.mem_cons, not_or] at h
    rw [List.cons_append, readlines, if_neg (Ne.symm h.1), ih h.2]
    rfl

theorem readlines_line {t : Bytes} (h : 10 ∉ t) (hne : t ≠ []) : readlines t = [t] := by
  induction t with
  | nil => exact absurd rfl hne
  | cons c t ih =>
    rw [List.mem_cons, not_or] at h
    cases t with
    | nil => rw [readlines, if_neg (Ne.symm h.1)]; rfl
    | cons d t => rw [readlines, if_neg (Ne.symm h.1), ih h.2 (List.cons_ne_nil _ _)]

/-- A text without LF is cut behind each CR. -/
theorem readlines_universalNewlines_cr {a s : Bytes} (ha : 13 ∉ a) (h : 10 ∉ a ++ 13 :: s) :
    readlines (universalNewlines false (a ++ 13 :: s)) =
      (a ++ [10]) :: readlines (universalNewlines false s) := by
  have hs : 10 ∉ s := fun hm => h (List.mem_append_right _ (List.mem_cons_of_mem _ hm))
  rw [universalNewlines_append ha, universalNewlines, if_pos rfl, universalNewlines_cr hs]
  apply readlines_append (fun hm => h (List.mem_append_left _ hm))
  rw [readlines, if_pos rfl]

theorem readlines_universalNewlines_line {a : Bytes} (ha : 13 ∉ a) (h : 10 ∉ a) (hne : a ≠ []) :
    readlines (universalNewlines false a) = [a] := by
  have hread := universalNewlines_append ha []
  rw [List.append_nil, universalNewlines, List.append_nil] at hread
  rw [hread, readlines_line h hne]

/-! ## One object from each line -/

/-- The object that a line holds. -/
def parseObject (py : Bool) (line : Bytes) : Option Value :=
  (parse py line).bind fun v => match v with
    | .obj ms => some (.obj ms)
    | _ => none

/-- The objects of a file that is read line by line. -/
def objectLines (py : Bool) (s : Bytes) : Option (List Value) :=
  (readlines (universalNewlines false s)).mapM (parseObject py)

theorem parseObject_eq_some {py : Bool} {s : Bytes} {v : Value} :
    parseObject py s = some v ↔ parse py s = some v ∧ ∃ ms, v = .obj ms := by
  rw [parseObject, Option.bind_eq_some_iff]
  constructor
  · intro h
    obtain ⟨w, hw, hv⟩ := h
    cases w with
    | obj ms =>
      obtain rfl := Option.some.inj hv
      exact ⟨hw, ms, rfl⟩
    | _ => cases hv
  · intro h
    obtain ⟨hv, ms, rfl⟩ := h
    exact ⟨_, hv, rfl⟩

theorem parseObject_eq_none {py : Bool} {s : Bytes} (h : (skipWs s).head? ≠ some 123) :
    parseObject py s = none := by
  cases hp : parseObject py s with
  | none => rfl
  | some v =>
    obtain ⟨hv, ms, rfl⟩ := parseObject_eq_some.mp hp
    exact absurd (skipWs_of_parse_obj hv) h

theorem ObjectText.parseObject {py : Bool} {c w : Bytes} {ms : List (Bytes × Value)}
    (h : ObjectText py c (.obj ms)) (hw : skipWs w = []) (x : Bytes) :
    parseObject py (w ++ (c ++ x)) = if skipWs x = [] then some (.obj ms) else none := by
  rw [Json.parseObject, h.reads w x hw]
  split_ifs <;> rfl

theorem skipWs_brace {w c : Bytes} (hw : skipWs w = []) (hc : c.head? = some 123) :
    skipWs (w ++ c) = c := by
  cases c with
  | nil => cases hc
  | cons a c =>
    obtain rfl := Option.some.inj hc
    rw [skipWs_append hw, skipWs_cons (by decide)]

theorem skipWs_ne_nil_of_getLast {x : Bytes} (h : x.getLast? = some 125) : skipWs x ≠ [] := by
  intro hx
  have hbrace := skipWs_eq_nil.mp hx 125 (List.mem_of_getLast? h)
  cases hbrace

/-- A proper beginning of an object is no document. -/
theorem ObjectText.parse_beginning {py : Bool} {c x w r : Bytes} {v : Value}
    (h : ObjectText py (c ++ x) v) (hx : x ≠ []) (hw : skipWs w = []) (hr : skipWs r = []) :
    parse py (w ++ (c ++ r)) = none := by
  cases hp : parse py (w ++ (c ++ r)) with
  | none => rfl
  | some v' =>
    have hne : c ≠ [] := by
      rintro rfl
      rw [parse_ws (by rw [skipWs_append hw]; exact hr)] at hp
      cases hp
    have hhead : (c ++ r).head? = some 123 := by
      have hbrace := h.head
      rwa [List.head?_append_of_ne_nil _ hne] at hbrace ⊢
    have hskip := skipWs_brace hw hhead
    obtain ⟨w', c', r', hsplit, hw', hr', hc', -⟩ := objectText_of_parse hp (by rw [hskip, hhead])
    have hhead' : (c' ++ r').head? = some 123 := by
      rw [List.head?_append, hc'.head]
      rfl
    rw [hsplit, skipWs_brace hw' hhead'] at hskip
    -- The document ends inside of `c`, up to whitespace.
    have hinside : ∃ a, c = c' ++ a := by
      rcases List.append_eq_append_iff.mp hskip with ⟨a, ha, -⟩ | ⟨a, rfl, ha⟩
      · exact ⟨a, ha⟩
      · have hnil : a = [] := by
          by_contra hane
          have hlast := hc'.last
          rw [List.getLast?_append_of_ne_nil _ hane] at hlast
          exact skipWs_ne_nil_of_getLast hlast
            (skipWs_eq_nil.mpr fun b hb => skipWs_eq_nil.mp hr b (ha ▸ List.mem_append_left _ hb))
        exact ⟨[], by rw [hnil]; simp⟩
    obtain ⟨a, rfl⟩ := hinside
    have hread := h.reads [] [] rfl
    have hlast : (a ++ x).getLast? = some 125 := by
      have hbrace := h.last
      rw [List.getLast?_append_of_ne_nil _ hx] at hbrace ⊢
      exact hbrace
    have hnone := hc'.reads [] (a ++ x) rfl
    rw [if_neg (skipWs_ne_nil_of_getLast hlast)] at hnone
    rw [List.append_nil, List.append_assoc, hnone] at hread
    cases hread

/-! ## Where the CR bytes stand -/

/-- The whitespace before the document of a text. -/
def lead (t : Bytes) : Bytes := t.takeWhile isWs

/-- The document without the whitespace around it. -/
def core (t : Bytes) : Bytes := (skipWs t).rdropWhile isWs

/-- The whitespace behind the document. -/
def trail (t : Bytes) : Bytes := (skipWs t).rtakeWhile isWs

/-- Behind a document and the whitespace `gap`: one CR before each further document, none in
one, and behind the last one none but as the last byte. -/
def Parted : Bytes → List Bytes → Prop
  | gap, [] => 13 ∉ gap.dropLast
  | gap, t :: ts => (gap ++ lead t).count 13 = 1 ∧ 13 ∉ core t ∧ Parted (trail t) ts

/-- The CR bytes of the texts part their documents and do nothing else. -/
def LineByLine : List Bytes → Prop
  | [] => True
  | t :: ts => 13 ∉ lead t ∧ 13 ∉ core t ∧ Parted (trail t) ts

theorem lead_core_trail (t : Bytes) : lead t ++ (core t ++ trail t) = t := by
  rw [core, trail, List.rdropWhile_append_rtakeWhile]
  exact List.takeWhile_append_dropWhile

theorem lead_core_trail_append (t s : Bytes) : lead t ++ (core t ++ (trail t ++ s)) = t ++ s := by
  rw [← List.append_assoc (core t), ← List.append_assoc (lead t), lead_core_trail]

theorem skipWs_lead (t : Bytes) : skipWs (lead t) = [] :=
  skipWs_eq_nil.mpr fun _ hb => List.mem_takeWhile_imp hb

theorem skipWs_trail (t : Bytes) : skipWs (trail t) = [] :=
  skipWs_eq_nil.mpr fun _ hb => List.mem_rtakeWhile_imp hb

theorem skipWs_ne_nil_of_parse {py : Bool} {t : Bytes} (h : (parse py t).isSome = true) :
    skipWs t ≠ [] := by
  intro hnil
  rw [parse_ws hnil] at h
  cases h

/-- The document begins where the whitespace ends. -/
theorem core_cons {t : Bytes} (h : skipWs t ≠ []) :
    ∃ b c, core t = b :: c ∧ isWs b = false ∧ (skipWs t).head? = some b := by
  have hsplit : core t ++ trail t = skipWs t := List.rdropWhile_append_rtakeWhile ..
  obtain ⟨b, s, hbs⟩ := List.exists_cons_of_ne_nil h
  obtain ⟨-, -, hb, -, -⟩ := skipWs_prefix hbs
  cases hcore : core t with
  | nil =>
    have hskip := skipWs_trail t
    rw [hcore, List.nil_append, hbs] at hsplit
    rw [hsplit, skipWs_cons hb] at hskip
    cases hskip
  | cons a c =>
    rw [hcore, hbs] at hsplit
    obtain ⟨rfl, -⟩ := List.cons.inj hsplit
    exact ⟨a, c, rfl, hb, by rw [hbs]; rfl⟩

/-- Around a text from brace to brace. -/
theorem around_braces {w c r : Bytes} (hfirst : c.head? = some 123)
    (hlast : c.getLast? = some 125) (hw : skipWs w = []) (hr : skipWs r = []) :
    lead (w ++ (c ++ r)) = w ∧ core (w ++ (c ++ r)) = c ∧ trail (w ++ (c ++ r)) = r := by
  have hhead : (c ++ r).head? = some 123 := by
    rw [List.head?_append, hfirst]
    rfl
  have hskip := skipWs_brace hw hhead
  have hlead : lead (w ++ (c ++ r)) = w := by
    rw [lead, List.takeWhile_append_of_pos (skipWs_eq_nil.mp hw), List.append_right_eq_self]
    cases hcr : c ++ r with
    | nil => rfl
    | cons a s =>
      rw [hcr] at hhead
      obtain rfl := Option.some.inj hhead
      rfl
  have hclose : c.reverse.takeWhile isWs = [] := by
    rw [← List.head?_reverse] at hlast
    cases hrev : c.reverse with
    | nil => rfl
    | cons a s =>
      rw [hrev] at hlast
      obtain rfl := Option.some.inj hlast
      rfl
  have htrail : trail (w ++ (c ++ r)) = r := by
    have hrev : ∀ b ∈ r.reverse, isWs b = true := by simpa using skipWs_eq_nil.mp hr
    rw [trail, hskip, List.rtakeWhile, List.reverse_append, List.takeWhile_append_of_pos hrev,
      hclose, List.append_nil, List.reverse_reverse]
  have hsplit := lead_core_trail (w ++ (c ++ r))
  rw [hlead, htrail] at hsplit
  exact ⟨hlead, List.append_cancel_right (List.append_cancel_left hsplit), htrail⟩

/-! ## What is read back -/

@[simp] theorem objectLines_nil (py : Bool) : objectLines py [] = some [] := rfl

theorem objectLines_line (py : Bool) {a : Bytes} (ha : 13 ∉ a) (h : 10 ∉ a) (hne : a ≠ []) :
    objectLines py a = (parseObject py a).map fun v => [v] := by
  rw [objectLines, readlines_universalNewlines_line ha h hne]
  cases hp : parseObject py a <;> simp [hp]

theorem objectLines_cr (py : Bool) {a s : Bytes} (ha : 13 ∉ a) (h : 10 ∉ a ++ 13 :: s) :
    objectLines py (a ++ 13 :: s) =
      (parseObject py (a ++ [10])).bind fun v => (objectLines py s).map fun vs => v :: vs := by
  rw [objectLines, readlines_universalNewlines_cr ha h]
  cases hp : parseObject py (a ++ [10]) with
  | none => simp [hp]
  | some v =>
    cases hs : objectLines py s with
    | none =>
      rw [objectLines] at hs
      simp [hp, hs]
    | some vs =>
      rw [objectLines] at hs
      simp [hp, hs]

/-- A first line that holds no object whatever it goes on with. -/
theorem objectLines_eq_none {py : Bool} {a y : Bytes} (ha : 13 ∉ a) (hne : a ≠ [])
    (hlf : 10 ∉ a ++ y) (h : ∀ x, parseObject py (a ++ x) = none) :
    objectLines py (a ++ y) = none := by
  by_cases hy : 13 ∈ y
  · obtain ⟨b, s, rfl, hb⟩ := List.eq_append_cons_of_mem hy
    rw [← List.append_assoc] at hlf ⊢
    rw [objectLines_cr py (by simp [ha, hb]) hlf, List.append_assoc, h]
    rfl
  · rw [objectLines_line py (by simp [ha, hy]) hlf (by simp [hne]), h]
    rfl

/-- A line of whitespace. -/
theorem objectLines_ws_cr (py : Bool) {w y : Bytes} (hw : skipWs w = []) (hcr : 13 ∈ w)
    (hlf : 10 ∉ w ++ y) : objectLines py (w ++ y) = none := by
  obtain ⟨a, s, rfl, ha⟩ := List.eq_append_cons_of_mem hcr
  rw [List.append_assoc, List.cons_append] at hlf ⊢
  have hws : skipWs (a ++ [10]) = [] := by
    rw [skipWs_eq_nil] at hw ⊢
    intro b hb
    rcases List.mem_append.mp hb with hb | hb
    · exact hw b (List.mem_append_left _ hb)
    · rw [List.mem_singleton.mp hb]
      rfl
  rw [objectLines_cr py ha hlf, parseObject, parse_ws hws]
  rfl

theorem objectLines_ws (py : Bool) {w : Bytes} (hw : skipWs w = []) (hne : w ≠ [])
    (hlf : 10 ∉ w) : objectLines py w = none := by
  by_cases hcr : 13 ∈ w
  · rw [← List.append_nil w] at hlf ⊢
    exact objectLines_ws_cr py hw hcr hlf
  · rw [objectLines_line py hcr hlf hne, parseObject, parse_ws hw]
    rfl

section
variable {py : Bool} {w c : Bytes} {ms : List (Bytes × Value)} (hc : ObjectText py c (.obj ms))
  (hw : skipWs w = []) (hwcr : 13 ∉ w)
include hc hw hwcr

/-- An object is read from its line, and the next line begins behind the CR. -/
theorem objectLines_object_cr {a s : Bytes} (hccr : 13 ∉ c) (ha : skipWs a = [])
    (hacr : 13 ∉ a) (hlf : 10 ∉ w ++ (c ++ (a ++ 13 :: s))) :
    objectLines py (w ++ (c ++ (a ++ 13 :: s))) =
      (objectLines py s).map fun vs => .obj ms :: vs := by
  have hws : skipWs (a ++ [10]) = [] := by
    rw [skipWs_append ha]
    rfl
  have hline : w ++ (c ++ (a ++ 13 :: s)) = (w ++ (c ++ a)) ++ 13 :: s := by simp
  rw [hline] at hlf ⊢
  rw [objectLines_cr py (by simp [hwcr, hccr, hacr]) hlf, List.append_assoc, List.append_assoc,
    hc.parseObject hw, if_pos hws, Option.bind_some]

theorem objectLines_object {a : Bytes} (hccr : 13 ∉ c) (ha : skipWs a = []) (hacr : 13 ∉ a)
    (hlf : 10 ∉ w ++ (c ++ a)) : objectLines py (w ++ (c ++ a)) = some [.obj ms] := by
  have hne : c ≠ [] := by
    rintro rfl
    cases hc.head
  rw [objectLines_line py (by simp [hwcr, hccr, hacr]) hlf (by simp [hne]), hc.parseObject hw,
    if_pos ha]
  rfl

/-- An object with a CR inside is cut. -/
theorem objectLines_cut {y : Bytes} (hccr : 13 ∈ c) (hlf : 10 ∉ w ++ (c ++ y)) :
    objectLines py (w ++ (c ++ y)) = none := by
  obtain ⟨a, s, rfl, ha⟩ := List.eq_append_cons_of_mem hccr
  have hline : w ++ (a ++ 13 :: s ++ y) = (w ++ a) ++ 13 :: (s ++ y) := by simp
  rw [hline] at hlf ⊢
  rw [objectLines_cr py (by simp [hwcr, ha]) hlf, List.append_assoc, parseObject,
    hc.parse_beginning (List.cons_ne_nil _ _) hw (r := [10]) rfl]
  rfl

/-- Something else behind an object on its line. -/
theorem objectLines_joined {g y : Bytes} {b : UInt8} (hccr : 13 ∉ c) (hg : skipWs g = [])
    (hgcr : 13 ∉ g) (hb : isWs b = false) (hlf : 10 ∉ w ++ (c ++ (g ++ b :: y))) :
    objectLines py (w ++ (c ++ (g ++ b :: y))) = none := by
  have hbcr : b ≠ 13 := by
    rintro rfl
    cases hb
  have hline : w ++ (c ++ (g ++ b :: y)) = (w ++ (c ++ (g ++ [b]))) ++ y := by simp
  rw [hline] at hlf ⊢
  apply objectLines_eq_none (by simp [hwcr, hccr, hgcr, hbcr.symm]) (by simp) hlf
  intro x
  have hmore : skipWs (g ++ b :: x) ≠ [] := by
    rw [skipWs_append hg, skipWs_cons hb]
    exact List.cons_ne_nil _ _
  have htext : w ++ (c ++ (g ++ [b])) ++ x = w ++ (c ++ (g ++ b :: x)) := by simp
  rw [htext, hc.parseObject hw, if_neg hmore]

end

/-- A document that is no object. -/
theorem objectLines_other {py : Bool} {w t y : Bytes} (hw : skipWs w = []) (hwcr : 13 ∉ w)
    (ht : skipWs t ≠ []) (hother : (skipWs t).head? ≠ some 123)
    (hlf : 10 ∉ w ++ (core t ++ y)) : objectLines py (w ++ (core t ++ y)) = none := by
  obtain ⟨b, c, hcore, hb, hhead⟩ := core_cons ht
  have hbcr : b ≠ 13 := by
    rintro rfl
    cases hb
  rw [hcore] at hlf ⊢
  have hline : w ++ (b :: c ++ y) = (w ++ [b]) ++ (c ++ y) := by simp
  rw [hline] at hlf ⊢
  apply objectLines_eq_none (by simp [hwcr, hbcr.symm]) (by simp) hlf
  intro x
  apply parseObject_eq_none
  rwa [List.append_assoc, skipWs_append hw, List.singleton_append, skipWs_cons hb, List.head?_cons,
    ← hhead]

/-- A document that begins on a line is an object without CR, or ends the reading. -/
theorem document_cases {py : Bool} {w t : Bytes} (hw : skipWs w = []) (hwcr : 13 ∉ w)
    (ht : (parse py t).isSome = true) :
    (∃ ms, ObjectText py (core t) (.obj ms) ∧ parseObject py t = some (.obj ms) ∧ 13 ∉ core t) ∨
      (13 ∈ core t ∨ parseObject py t = none) ∧
        ∀ y, 10 ∉ w ++ (core t ++ y) → objectLines py (w ++ (core t ++ y)) = none := by
  obtain ⟨v, hv⟩ := Option.isSome_iff_exists.mp ht
  by_cases hobj : (skipWs t).head? = some 123
  · obtain ⟨w', c, r, rfl, hw', hr, hc, ms, rfl⟩ := objectText_of_parse hv hobj
    rw [(around_braces hc.head hc.last hw' hr).2.1]
    by_cases hcr : 13 ∈ c
    · exact Or.inr ⟨Or.inl hcr, fun y hlf => objectLines_cut hc hw hwcr hcr hlf⟩
    · exact Or.inl ⟨ms, hc, parseObject_eq_some.mpr ⟨hv, ms, rfl⟩, hcr⟩
  · exact Or.inr ⟨Or.inr (parseObject_eq_none hobj),
      fun y hlf => objectLines_other hw hwcr (skipWs_ne_nil_of_parse ht) hobj hlf⟩

section
variable {py : Bool} {w c : Bytes} {ms : List (Bytes × Value)} (hc : ObjectText py c (.obj ms))
  (hw : skipWs w = []) (hwcr : 13 ∉ w) (hccr : 13 ∉ c) {g : Bytes} (hg : skipWs g = [])
include hc hw hwcr hccr hg

/-- Behind the last object. -/
theorem objectLines_last (hlf : 10 ∉ w ++ (c ++ g)) {vs : List Value} :
    objectLines py (w ++ (c ++ g)) = some vs ↔ 13 ∉ g.dropLast ∧ vs = [.obj ms] := by
  by_cases hgcr : 13 ∈ g
  · obtain ⟨a, s, rfl, hacr⟩ := List.eq_append_cons_of_mem hgcr
    rw [skipWs_eq_nil, List.forall_mem_append, List.forall_mem_cons] at hg
    rw [objectLines_object_cr hc hw hwcr hccr (skipWs_eq_nil.mpr hg.1) hacr hlf]
    cases s with
    | nil => simp [hacr, eq_comm]
    | cons b s =>
      have hs : 10 ∉ b :: s := fun hm => hlf (by simp only [List.mem_append]; simp_all)
      rw [objectLines_ws py (skipWs_eq_nil.mpr hg.2.2) (List.cons_ne_nil _ _) hs]
      simp
  · rw [objectLines_object hc hw hwcr hccr hg hgcr hlf]
    have hdrop : 13 ∉ g.dropLast := fun hm => hgcr (List.mem_of_mem_dropLast hm)
    simp [hdrop, eq_comm]

/-- Between two documents. -/
theorem objectLines_next {b : UInt8} {y : Bytes} (hb : isWs b = false)
    (hlf : 10 ∉ w ++ (c ++ (g ++ b :: y))) {vs : List Value} :
    objectLines py (w ++ (c ++ (g ++ b :: y))) = some vs ↔
      ∃ a w', g = a ++ 13 :: w' ∧ 13 ∉ a ∧ 13 ∉ w' ∧
        ∃ vs', objectLines py (w' ++ b :: y) = some vs' ∧ vs = .obj ms :: vs' := by
  by_cases hgcr : 13 ∈ g
  · obtain ⟨a, s, rfl, hacr⟩ := List.eq_append_cons_of_mem hgcr
    have hline : w ++ (c ++ (a ++ 13 :: s ++ b :: y)) = w ++ (c ++ (a ++ 13 :: (s ++ b :: y))) := by
      simp
    have hs : 10 ∉ s ++ b :: y := fun hm => hlf (by simp only [List.mem_append] at hm ⊢; simp_all)
    rw [skipWs_eq_nil, List.forall_mem_append, List.forall_mem_cons] at hg
    rw [hline] at hlf ⊢
    rw [objectLines_object_cr hc hw hwcr hccr (skipWs_eq_nil.mpr hg.1) hacr hlf,
      Option.map_eq_some_iff]
    constructor
    · intro h
      obtain ⟨vs', hvs', rfl⟩ := h
      have hscr : 13 ∉ s := by
        intro hscr
        rw [objectLines_ws_cr py (skipWs_eq_nil.mpr hg.2.2) hscr hs] at hvs'
        cases hvs'
      exact ⟨a, s, rfl, hacr, hscr, vs', hvs', rfl⟩
    · intro h
      obtain ⟨a', s', hsplit, ha', hs', vs', hvs', rfl⟩ := h
      obtain ⟨rfl, -, rfl⟩ := (List.append_cons_inj_of_notMem ha' hs').mp hsplit.symm
      exact ⟨vs', hvs', rfl⟩
  · rw [objectLines_joined hc hw hwcr hccr hg hgcr hb hlf]
    constructor
    · intro h
      cases h
    · intro h
      obtain ⟨a, s, rfl, -⟩ := h
      exact absurd (by simp) hgcr

end

theorem count_eq_one_iff {g : Bytes} :
    g.count 13 = 1 ↔ ∃ a w, g = a ++ 13 :: w ∧ 13 ∉ a ∧ 13 ∉ w := by
  constructor
  · intro h
    have hmem : (13 : UInt8) ∈ g := List.count_pos_iff.mp (by omega)
    obtain ⟨a, w, rfl, ha⟩ := List.eq_append_cons_of_mem hmem
    rw [List.count_append, List.count_cons_self, List.count_eq_zero_of_not_mem ha] at h
    exact ⟨a, w, rfl, ha, List.count_eq_zero.mp (by omega)⟩
  · intro h
    obtain ⟨a, w, rfl, ha, hw⟩ := h
    rw [List.count_append, List.count_cons_self, List.count_eq_zero_of_not_mem ha,
      List.count_eq_zero_of_not_mem hw]

theorem mapM_parseObject_cons {py : Bool} {t : Bytes} {ts : List Bytes} {v : Value}
    {vs : List Value} (h : parseObject py t = some v) :
    (t :: ts).mapM (parseObject py) = some vs ↔
      ∃ vs', ts.mapM (parseObject py) = some vs' ∧ vs = v :: vs' := by
  rw [List.mapM_cons, h, Option.bind_eq_bind, Option.bind_some, Option.bind_eq_bind,
    Option.bind_eq_some_iff]
  simp only [Option.pure_def, Option.some.injEq, eq_comm (a := vs)]

/-- By induction on the documents that follow; `w` is what stands before the first one
on its line. -/
theorem objectLines_documents {py : Bool} {w t : Bytes} {ts : List Bytes} {vs : List Value}
    (hw : skipWs w = []) (hwcr : 13 ∉ w) (hts : ∀ s ∈ t :: ts, (parse py s).isSome = true)
    (hlf : 10 ∉ w ++ (core t ++ (trail t ++ ts.flatten))) :
    objectLines py (w ++ (core t ++ (trail t ++ ts.flatten))) = some vs ↔
      13 ∉ core t ∧ Parted (trail t) ts ∧ (t :: ts).mapM (parseObject py) = some vs := by
  rw [List.forall_mem_cons] at hts
  induction ts generalizing w t vs with
  | nil =>
    rcases document_cases hw hwcr hts.1 with ⟨ms, hc, hobj, hcr⟩ | ⟨hfail, hnone⟩
    · rw [List.flatten_nil, List.append_nil] at hlf ⊢
      rw [objectLines_last hc hw hwcr hcr (skipWs_trail t) hlf]
      simp [Parted, hcr, hobj, eq_comm]
    · rw [hnone _ hlf]
      rcases hfail with h | h <;> simp [h]
  | cons t' ts ih =>
    rcases document_cases hw hwcr hts.1 with ⟨ms, hc, hobj, hcr⟩ | ⟨hfail, hnone⟩
    · obtain ⟨b, c, hcore, hb, -⟩ :=
        core_cons (skipWs_ne_nil_of_parse (hts.2 t' List.mem_cons_self))
      have hline : trail t ++ (t' :: ts).flatten =
          trail t ++ lead t' ++ b :: (c ++ (trail t' ++ ts.flatten)) := by
        rw [List.flatten_cons, ← List.cons_append, ← hcore, List.append_assoc,
          lead_core_trail_append]
      have hgap : skipWs (trail t ++ lead t') = [] := by
        rw [skipWs_append (skipWs_trail t), skipWs_lead]
      rw [hline] at hlf ⊢
      rw [objectLines_next hc hw hwcr hcr hgap hb hlf, Parted, count_eq_one_iff]
      -- Behind the one CR of the gap the next document begins.
      have hnext : ∀ a w', trail t ++ lead t' = a ++ 13 :: w' → 13 ∉ w' → ∀ vs',
          (objectLines py (w' ++ b :: (c ++ (trail t' ++ ts.flatten))) = some vs' ↔
            13 ∉ core t' ∧ Parted (trail t') ts ∧ (t' :: ts).mapM (parseObject py) = some vs') := by
        intro a w' hsplit hw'cr vs'
        rw [hsplit] at hgap hlf
        rw [skipWs_eq_nil, List.forall_mem_append, List.forall_mem_cons] at hgap
        rw [← List.cons_append, ← hcore]
        apply ih (skipWs_eq_nil.mpr hgap.2.2) hw'cr (List.forall_mem_cons.mp hts.2)
        rw [hcore]
        intro hm
        apply hlf
        simp only [List.mem_append, List.mem_cons] at hm ⊢
        tauto
      rw [mapM_parseObject_cons hobj]
      constructor
      · intro h
        obtain ⟨a, w', hsplit, ha, hw', vs', hvs', hcons⟩ := h
        obtain ⟨hcore', hparted, hmap⟩ := (hnext a w' hsplit hw' vs').mp hvs'
        exact ⟨hcr, ⟨⟨a, w', hsplit, ha, hw'⟩, hcore', hparted⟩, vs', hmap, hcons⟩
      · intro h
        obtain ⟨-, ⟨⟨a, w', hsplit, ha, hw'⟩, hcore', hparted⟩, vs', hmap, hcons⟩ := h
        exact ⟨a, w', hsplit, ha, hw', vs', (hnext a w' hsplit hw' vs').mpr
          ⟨hcore', hparted, hmap⟩, hcons⟩
    · rw [hnone _ hlf]
      rcases hfail with h | h <;> simp [h]

/-- The documents are read back line by line exactly when the CR bytes part them. -/
theorem objectLines_flatten {py : Bool} {ts : List Bytes} {vs : List Value}
    (hts : ∀ t ∈ ts, (parse py t).isSome = true) (hlf : ∀ t ∈ ts, 10 ∉ t) :
    objectLines py ts.flatten = some vs ↔
      LineByLine ts ∧ ts.mapM (parseObject py) = some vs := by
  cases ts with
  | nil => simp [LineByLine]
  | cons t ts =>
    have hlf' : 10 ∉ (t :: ts).flatten := by
      intro hm
      obtain ⟨s, hs, hm⟩ := List.mem_flatten.mp hm
      exact hlf s hs hm
    have htext : (t :: ts).flatten = lead t ++ (core t ++ (trail t ++ ts.flatten)) := by
      rw [List.flatten_cons, lead_core_trail_append]
    rw [htext] at hlf' ⊢
    by_cases hcr : 13 ∈ lead t
    · rw [objectLines_ws_cr py (skipWs_lead t) hcr hlf']
      simp [LineByLine, hcr]
    · rw [objectLines_documents (skipWs_lead t) hcr hts hlf']
      simp [LineByLine, hcr, and_assoc]

end IotLabTraining.Json
