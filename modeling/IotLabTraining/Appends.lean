import IotLabTraining.Buffers

/-!
# Texts appended to a buffer

Texts are printed one behind the other with `snprintf`, at a position that grows by
the whole length of each of them. The size argument is what is left up to `max` and
the terminator behind it, computed as a signed number and converted to a `size_t`. A
group of texts is skipped where the position is behind `max` already, and is appended
without another test otherwise.
-/
namespace IotLabTraining.Appends
open Buffers

/-- The position of a call, and its size argument before the conversion. -/
structure Call where
  pos : ℕ
  size : ℤ

structure Printer where
  buffer : Buffer
  pos : ℕ
  calls : List Call

def start (buffer : Buffer) : Printer := ⟨buffer, 0, []⟩

section
variable (max sizeBits : ℕ)

def sizeArgument (pos : ℕ) : ℤ := (max : ℤ) - pos + 1

def append (p : Printer) (t : Bytes) : Printer :=
  let size := sizeArgument max p.pos
  let printed := snprintf p.buffer p.pos (size % 2 ^ sizeBits).toNat t
  ⟨printed.1, p.pos + printed.2, p.calls ++ [⟨p.pos, size⟩]⟩

def appendGroup (p : Printer) (texts : List Bytes) : Printer :=
  if p.pos ≤ max then texts.foldl (append max sizeBits) p else p

def appendGroups (p : Printer) (groups : List (List Bytes)) : Printer :=
  groups.foldl (appendGroup max sizeBits) p

/-- Every call is made inside the buffer, with a size that is positive as it stands. -/
def Inside (p : Printer) : Prop := ∀ c ∈ p.calls, c.pos ≤ max ∧ 1 ≤ c.size

/-- Each group that is begun up to `max` begins its last text there too. -/
inductive Room : ℕ → List (List Bytes) → Prop where
  | nil (pos : ℕ) : Room pos []
  | cons {pos : ℕ} {g : List Bytes} {gs : List (List Bytes)}
      (first : pos ≤ max → pos + g.dropLast.flatten.length ≤ max)
      (rest : Room (pos + g.flatten.length) gs) : Room pos (g :: gs)

end

variable {max sizeBits : ℕ}

/-! ## Positions -/

@[simp] theorem append_pos (p : Printer) (t : Bytes) :
    (append max sizeBits p t).pos = p.pos + t.length := rfl

@[simp] theorem foldl_append_pos (p : Printer) (texts : List Bytes) :
    (texts.foldl (append max sizeBits) p).pos = p.pos + texts.flatten.length := by
  induction texts generalizing p with
  | nil => rfl
  | cons t texts ih =>
    rw [List.foldl_cons, ih, append_pos, List.flatten_cons, List.length_append, Nat.add_assoc]

theorem appendGroup_of_le {p : Printer} (h : p.pos ≤ max) (texts : List Bytes) :
    appendGroup max sizeBits p texts = texts.foldl (append max sizeBits) p := if_pos h

theorem appendGroup_of_lt {p : Printer} (h : max < p.pos) (texts : List Bytes) :
    appendGroup max sizeBits p texts = p := if_neg (by omega)

/-- Behind `max` nothing more is printed. -/
theorem appendGroups_of_lt {p : Printer} (h : max < p.pos) (groups : List (List Bytes)) :
    appendGroups max sizeBits p groups = p := by
  induction groups with
  | nil => rfl
  | cons g gs ih =>
    unfold appendGroups at ih ⊢
    rw [List.foldl_cons, appendGroup_of_lt h, ih]

theorem appendGroups_cons_of_le {p : Printer} (h : p.pos ≤ max) (g : List Bytes)
    (gs : List (List Bytes)) : appendGroups max sizeBits p (g :: gs) =
      appendGroups max sizeBits (g.foldl (append max sizeBits) p) gs := by
  rw [appendGroups, List.foldl_cons, appendGroup_of_le h, appendGroups]

/-- The position passes `max` exactly when the texts do. -/
theorem appendGroups_pos_le_iff (p : Printer) (groups : List (List Bytes)) :
    (appendGroups max sizeBits p groups).pos ≤ max ↔
      p.pos + groups.flatten.flatten.length ≤ max := by
  induction groups generalizing p with
  | nil => exact Iff.rfl
  | cons g gs ih =>
    by_cases h : p.pos ≤ max
    · rw [appendGroups_cons_of_le h, ih, foldl_append_pos, List.flatten_cons,
        List.flatten_append, List.length_append, Nat.add_assoc]
    · rw [appendGroups_of_lt (by omega)]
      omega

theorem appendGroups_pos {p : Printer} {groups : List (List Bytes)}
    (h : p.pos + groups.flatten.flatten.length ≤ max) :
    (appendGroups max sizeBits p groups).pos = p.pos + groups.flatten.flatten.length := by
  induction groups generalizing p with
  | nil => rfl
  | cons g gs ih =>
    rw [List.flatten_cons, List.flatten_append, List.length_append, ← Nat.add_assoc] at h ⊢
    rw [appendGroups_cons_of_le (by omega), ih (by rwa [foldl_append_pos]), foldl_append_pos]

/-! ## Calls -/

theorem inside_append (p : Printer) (t : Bytes) :
    Inside max (append max sizeBits p t) ↔ Inside max p ∧ p.pos ≤ max := by
  unfold Inside append
  rw [List.forall_mem_append, List.forall_mem_singleton]
  apply and_congr_right
  intro _
  dsimp only [sizeArgument]
  omega

theorem inside_foldl_append (p : Printer) (t : Bytes) (texts : List Bytes) :
    Inside max ((t :: texts).foldl (append max sizeBits) p) ↔
      Inside max p ∧ p.pos + (t :: texts).dropLast.flatten.length ≤ max := by
  induction texts generalizing p t with
  | nil => exact inside_append p t
  | cons u texts ih =>
    rw [List.foldl_cons, ih, inside_append, append_pos, and_assoc, List.dropLast_cons_cons,
      List.flatten_cons, List.length_append]
    apply and_congr_right
    intro _
    omega

theorem inside_appendGroup (p : Printer) (texts : List Bytes) :
    Inside max (appendGroup max sizeBits p texts) ↔
      Inside max p ∧ (p.pos ≤ max → p.pos + texts.dropLast.flatten.length ≤ max) := by
  by_cases h : p.pos ≤ max
  · rw [appendGroup_of_le h, imp_iff_right h]
    cases texts with
    | nil => exact (and_iff_left h).symm
    | cons t texts => exact inside_foldl_append p t texts
  · rw [appendGroup_of_lt (by omega), and_iff_left (fun hle => absurd hle h)]

theorem room_cons_iff {pos : ℕ} {g : List Bytes} {gs : List (List Bytes)} :
    Room max pos (g :: gs) ↔ (pos ≤ max → pos + g.dropLast.flatten.length ≤ max) ∧
      Room max (pos + g.flatten.length) gs := by
  constructor
  · intro h
    cases h with
    | cons first rest => exact ⟨first, rest⟩
  · intro h
    exact .cons h.1 h.2

theorem room_of_lt {pos : ℕ} (h : max < pos) (groups : List (List Bytes)) :
    Room max pos groups := by
  induction groups generalizing pos with
  | nil => exact .nil pos
  | cons g gs ih => exact .cons (fun hle => by omega) (ih (by omega))

/-- The calls stay inside exactly when the groups have room. -/
theorem inside_appendGroups (p : Printer) (groups : List (List Bytes)) :
    Inside max (appendGroups max sizeBits p groups) ↔ Inside max p ∧ Room max p.pos groups := by
  induction groups generalizing p with
  | nil => exact (and_iff_left (Room.nil p.pos)).symm
  | cons g gs ih =>
    rw [appendGroups, List.foldl_cons, ← appendGroups, ih, inside_appendGroup, and_assoc,
      room_cons_iff]
    apply and_congr_right
    intro _
    apply and_congr_right
    intro _
    by_cases h : p.pos ≤ max
    · rw [appendGroup_of_le h, foldl_append_pos]
    · rw [appendGroup_of_lt (by omega)]
      exact iff_of_true (room_of_lt (by omega) gs) (room_of_lt (by omega) gs)

theorem room_append (pos : ℕ) (gs hs : List (List Bytes)) : Room max pos (gs ++ hs) ↔
    Room max pos gs ∧ Room max (pos + gs.flatten.flatten.length) hs := by
  induction gs generalizing pos with
  | nil => exact (and_iff_right (Room.nil pos)).symm
  | cons g gs ih =>
    rw [List.cons_append, room_cons_iff, room_cons_iff, ih, and_assoc, List.flatten_cons,
      List.flatten_append, List.length_append, Nat.add_assoc]

/-- A group of one text needs no room. -/
theorem room_of_singletons {groups : List (List Bytes)} (h : ∀ g ∈ groups, ∃ t, g = [t])
    (pos : ℕ) : Room max pos groups := by
  induction groups generalizing pos with
  | nil => exact .nil pos
  | cons g gs ih =>
    rw [List.forall_mem_cons] at h
    obtain ⟨⟨t, rfl⟩, hgs⟩ := h
    exact .cons id (ih hgs _)

/-- Texts that fit have room. -/
theorem room_of_le {pos : ℕ} {groups : List (List Bytes)}
    (h : pos + groups.flatten.flatten.length ≤ max) : Room max pos groups := by
  induction groups generalizing pos with
  | nil => exact .nil pos
  | cons g gs ih =>
    rw [List.flatten_cons, List.flatten_append, List.length_append] at h
    have hlast : g.dropLast.flatten.length ≤ g.flatten.length :=
      (List.dropLast_sublist g).flatten.length_le
    exact .cons (fun _ => by omega) (ih (by omega))

/-! ## What the buffer holds -/

/-- The buffer holds a text as far as `max`, and is what it was behind. -/
structure Holds (max : ℕ) (old : Buffer) (p : Printer) (text : Bytes) : Prop where
  pos : p.pos = text.length
  content : window p.buffer 0 (min max text.length) = text.take max
  behind : ∀ i > max, p.buffer i = old i

theorem holds_start (old : Buffer) : Holds max old (start old) [] where
  pos := rfl
  content := by simp [window]
  behind _ _ := rfl

/-- A text appended up to `max`. -/
theorem holds_append (hbits : max + 1 < 2 ^ sizeBits) {old : Buffer} {p : Printer} {text : Bytes}
    (h : Holds max old p text) (hle : p.pos ≤ max) (t : Bytes) :
    Holds max old (append max sizeBits p t) (text ++ t) := by
  have hsize : (sizeArgument max p.pos % 2 ^ sizeBits).toNat = max - p.pos + 1 := by
    have hcast : sizeArgument max p.pos = ((max - p.pos + 1 : ℕ) : ℤ) := by
      unfold sizeArgument
      omega
    have hlt : max - p.pos + 1 < 2 ^ sizeBits := by omega
    rw [hcast, ← Nat.cast_two, ← Nat.cast_pow, ← Int.natCast_mod, Int.toNat_natCast,
      Nat.mod_eq_of_lt hlt]
  have hpos := h.pos
  refine ⟨?_, ?_, ?_⟩
  · rw [append_pos, hpos, List.length_append]
  · have hold : window p.buffer 0 text.length = text := by
      have hcontent := h.content
      rwa [Nat.min_eq_right (by omega), List.take_of_length_le (by omega)] at hcontent
    have hsplit : min max (text ++ t).length = p.pos + min (max - p.pos) t.length := by
      rw [List.length_append]
      omega
    have hshown : t.take (min (max - p.pos) t.length) = t.take (max - p.pos) := by
      rw [← List.take_take, List.take_length]
    have hfront : text.take max = text := List.take_of_length_le (by omega)
    dsimp only [append]
    rw [hsplit, hsize, window_add, window_snprintf_before _ _ _ (by omega), Nat.zero_add,
      window_snprintf _ (Nat.min_le_right _ _) (by omega), hshown, List.take_append, hfront,
      hpos, hold]
  · intro i hi
    rw [← h.behind i hi]
    dsimp only [append]
    rw [hsize]
    exact snprintf_of_le _ _ (by omega)

theorem holds_foldl_append (hbits : max + 1 < 2 ^ sizeBits) {old : Buffer} {p : Printer}
    {text : Bytes} (h : Holds max old p text) {texts : List Bytes}
    (hroom : p.pos + texts.dropLast.flatten.length ≤ max) :
    Holds max old (texts.foldl (append max sizeBits) p) (text ++ texts.flatten) := by
  induction texts generalizing p text with
  | nil => simpa using h
  | cons t texts ih =>
    have hstep := holds_append hbits h (Nat.le_trans (Nat.le_add_right _ _) hroom) t
    rw [List.foldl_cons, List.flatten_cons, ← List.append_assoc]
    cases texts with
    | nil => simpa using hstep
    | cons u texts =>
      rw [List.dropLast_cons_cons, List.flatten_cons, List.length_append] at hroom
      apply ih hstep
      rw [append_pos]
      omega

/-- Groups with room are shown one behind the other, until they pass `max`. -/
theorem exists_holds_appendGroups (hbits : max + 1 < 2 ^ sizeBits) {old : Buffer} {p : Printer}
    {text : Bytes} (h : Holds max old p text) {groups : List (List Bytes)}
    (hroom : Room max p.pos groups) :
    ∃ shown, Holds max old (appendGroups max sizeBits p groups) shown ∧
      shown <+: text ++ groups.flatten.flatten ∧
        (shown = text ++ groups.flatten.flatten ∨ max < shown.length) := by
  induction groups generalizing p text with
  | nil => exact ⟨text, h, by simp, Or.inl (by simp)⟩
  | cons g gs ih =>
    rw [room_cons_iff] at hroom
    by_cases hle : p.pos ≤ max
    · have hgroup := holds_foldl_append hbits h (hroom.1 hle)
      have hrest : Room max (g.foldl (append max sizeBits) p).pos gs := by
        rw [foldl_append_pos]
        exact hroom.2
      rw [appendGroups_cons_of_le hle, List.flatten_cons, List.flatten_append, ← List.append_assoc]
      exact ih hgroup hrest
    · have hpos := h.pos
      rw [appendGroups_of_lt (by omega)]
      exact ⟨text, h, List.prefix_append _ _, Or.inr (by omega)⟩

/-- What groups with room leave in an empty buffer. -/
theorem window_appendGroups (hbits : max + 1 < 2 ^ sizeBits) (old : Buffer)
    {groups : List (List Bytes)} (hroom : Room max 0 groups) :
    window (appendGroups max sizeBits (start old) groups).buffer 0
      (min max groups.flatten.flatten.length) = groups.flatten.flatten.take max := by
  obtain ⟨shown, hholds, hprefix, hall⟩ :=
    exists_holds_appendGroups hbits (holds_start old) hroom
  rw [List.nil_append] at hprefix hall
  have hcontent := hholds.content
  have hle := hprefix.length_le
  obtain rfl | hlt := hall
  · exact hcontent
  · rw [Nat.min_eq_left (by omega)] at hcontent ⊢
    rw [hcontent, List.prefix_iff_eq_take.mp hprefix, List.take_take, Nat.min_eq_left (by omega)]

/-- Groups with room write nothing behind `max`. -/
theorem appendGroups_behind (hbits : max + 1 < 2 ^ sizeBits) (old : Buffer)
    {groups : List (List Bytes)} (hroom : Room max 0 groups) {i : ℕ} (h : max < i) :
    (appendGroups max sizeBits (start old) groups).buffer i = old i := by
  obtain ⟨shown, hholds, -, -⟩ := exists_holds_appendGroups hbits (holds_start old) hroom
  exact hholds.behind i h

end IotLabTraining.Appends
