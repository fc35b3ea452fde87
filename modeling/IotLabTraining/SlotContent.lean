import IotLabTraining.Text

/-!
# The content of a storage slot

`storage_content` prints a part of a storage as hexadecimal digits. The end of the
loop is computed in `size_t`, which has `32 + w` bits, while the offset has 32. There
is no result when a byte behind the content is read.
-/
namespace IotLabTraining.SlotContent

/-- How many values a `size_t` has. -/
def sizeCount (w : ℕ) : ℕ := 2 ^ (32 + w)

/-- What a storage holds at a location. -/
structure Content (w : ℕ) where
  bytes : Bytes
  length_lt : bytes.length < sizeCount w

/-- A storage with its locations; it may have no pointer to read from. -/
structure Storage (w : ℕ) where
  hasReadptr : Bool
  readPtr : Bytes → Content w

/-- What the command takes from RIOT and the C library. -/
structure Riot (w : ℕ) where
  storageFindById : Bytes → Option (Storage w)
  atoi : Bytes → BitVec 32

variable {w : ℕ}

/-- The conversion of an offset to `size_t`. -/
def toSize (offset : UInt32) : BitVec (32 + w) := offset.toBitVec.setWidth (32 + w)

/-- `to_print` -/
def toPrint (available : BitVec (32 + w)) (offset : UInt32) (len : BitVec (32 + w)) :
    BitVec (32 + w) :=
  if available < toSize offset + len then available - toSize offset else len

/-- The loop from index `i` on, with the number of its rounds. -/
def printBytes (buf : Bytes) : ℕ → ℕ → Option Bytes
  | _, 0 => some []
  | i, rounds + 1 =>
    buf[i]?.bind fun b => (printBytes buf (i + 1) rounds).map fun out => hex2 b ++ out

/-- The part of the command behind its checks. -/
def printContent (content : Content w) (offset : UInt32) (len : BitVec (32 + w)) :
    Option Bytes :=
  let available := BitVec.ofNat (32 + w) content.bytes.length
  let stop := toPrint available offset len
  (printBytes content.bytes offset.toNat (stop.toNat - offset.toNat)).map fun out => out ++ [10]

/-- `cmd_print_slot_content`, with its return value; the `int` of the length is extended
with its sign. -/
def cmdPrintSlotContent (riot : Riot w) (name : Bytes) : List Bytes → Option (ℤ × Bytes)
  | slot :: addr :: len :: _ =>
    match riot.storageFindById slot with
    | none => some (-1, ascii "No storage with id \"" ++ slot ++ ascii "\" present\n")
    | some storage =>
      if storage.hasReadptr then
        (printContent (storage.readPtr slot) ⟨riot.atoi addr⟩
          ((riot.atoi len).signExtend (32 + w))).map fun out => (0, out)
      else some (0, [])
  | _ => some (-1, ascii "usage: " ++ name ++ ascii " <storage_id> <addr> <len>\n")

/-! ## The requested window -/

/-- The bytes from `offset` on, up to `offset + len` or the end. -/
def requested (content : Content w) (offset : UInt32) (len : BitVec (32 + w)) : Bytes :=
  (content.bytes.take (offset.toNat + len.toNat)).drop offset.toNat

/-- The requested bytes are printed, and no others are read. -/
def PrintsWindow (content : Content w) (offset : UInt32) (len : BitVec (32 + w)) : Prop :=
  printContent content offset len = some ((requested content offset len).flatMap hex2 ++ [10])

/-- The windows that are printed as requested: those at the front, the empty ones inside,
and the few where a wrong or wrapped end makes no difference. -/
def Printable (w available offset len : ℕ) : Prop :=
  let sum := (offset + len) % sizeCount w
  offset = 0 ∨ (len = 0 ∧ offset ≤ available) ∨
    (available < sum ∧ (offset = available ∨ sizeCount w + available ≤ 2 * offset)) ∨
    (sum ≤ available ∧ sizeCount w ≤ offset + len ∧
      (len = available ∨ (len ≤ offset ∧ available ≤ offset)))

theorem toNat_lt_sizeCount (offset : UInt32) : offset.toNat < sizeCount w := by
  have hoffset : offset.toNat < 2 ^ 32 := offset.toNat_lt
  have hsize : 2 ^ 32 ≤ sizeCount w := Nat.pow_le_pow_right (by omega) (Nat.le_add_right 32 w)
  omega

@[simp] theorem toSize_toNat (offset : UInt32) :
    (toSize offset : BitVec (32 + w)).toNat = offset.toNat := by
  rw [toSize, BitVec.toNat_setWidth, UInt32.toNat_toBitVec]
  exact Nat.mod_eq_of_lt (toNat_lt_sizeCount offset)

/-- The end of the loop, computed with numbers that wrap around. -/
theorem toPrint_toNat (content : Content w) (offset : UInt32) (len : BitVec (32 + w)) :
    (toPrint (BitVec.ofNat (32 + w) content.bytes.length) offset len).toNat =
      if content.bytes.length < (offset.toNat + len.toNat) % sizeCount w then
        (sizeCount w - offset.toNat + content.bytes.length) % sizeCount w
      else len.toNat := by
  have havailable : (BitVec.ofNat (32 + w) content.bytes.length).toNat = content.bytes.length :=
    Nat.mod_eq_of_lt content.length_lt
  have hsum : (toSize offset + len).toNat = (offset.toNat + len.toNat) % sizeCount w := by
    rw [BitVec.toNat_add, toSize_toNat, sizeCount]
  unfold toPrint
  simp only [BitVec.lt_def, hsum, havailable]
  split_ifs
  · rw [BitVec.toNat_sub, toSize_toNat, havailable, sizeCount]
  · rfl

/-- The loop prints what lies in the buffer and stops short of reading behind it. -/
theorem printBytes_eq (buf : Bytes) (i rounds : ℕ) :
    printBytes buf i rounds =
      if rounds = 0 ∨ i + rounds ≤ buf.length then
        some (((buf.drop i).take rounds).flatMap hex2)
      else none := by
  induction rounds generalizing i with
  | zero => simp [printBytes]
  | succ rounds ih =>
    rw [printBytes, ih]
    by_cases hi : i < buf.length
    · rw [List.getElem?_eq_getElem hi, Option.bind_some, List.drop_eq_getElem_cons hi]
      by_cases hend : i + (rounds + 1) ≤ buf.length
      · rw [if_pos (by omega), if_pos (by omega), Option.map_some, List.take_succ_cons,
          List.flatMap_cons]
      · rw [if_neg (by omega), if_neg (by omega), Option.map_none]
    · have hbehind : ¬ (rounds + 1 = 0 ∨ i + (rounds + 1) ≤ buf.length) := by omega
      rw [List.getElem?_eq_none (by omega), Option.bind_none, if_neg hbehind]

/-- A loop that ends at `stop` prints the part from `offset` to `last` exactly when it ends
there, or both are empty. -/
theorem printBytes_eq_some_iff {buf : Bytes} {offset stop last : ℕ}
    (hlast : last ≤ max offset buf.length) :
    printBytes buf offset (stop - offset) = some (((buf.take last).drop offset).flatMap hex2) ↔
      max offset stop = max offset last := by
  rw [printBytes_eq, List.drop_take]
  constructor
  · intro h
    split_ifs at h with hcond
    have hlength := congrArg List.length (Option.some.inj h)
    rw [flatMap_hex2_length, flatMap_hex2_length, List.length_take, List.length_take,
      List.length_drop] at hlength
    omega
  · intro h
    have hrounds : stop - offset = last - offset := by omega
    rw [hrounds, if_pos (by omega)]

theorem printsWindow_iff_end (content : Content w) (offset : UInt32) (len : BitVec (32 + w)) :
    PrintsWindow content offset len ↔
      max offset.toNat (toPrint (BitVec.ofNat (32 + w) content.bytes.length) offset len).toNat =
        max offset.toNat (min (offset.toNat + len.toNat) content.bytes.length) := by
  have hrequested : requested content offset len =
      (content.bytes.take (min (offset.toNat + len.toNat) content.bytes.length)).drop
        offset.toNat := by
    rw [requested, ← List.take_eq_take_min]
  have hlast : min (offset.toNat + len.toNat) content.bytes.length ≤
      max offset.toNat content.bytes.length := by omega
  rw [PrintsWindow, printContent, hrequested, ← printBytes_eq_some_iff hlast]
  constructor
  · intro h
    obtain ⟨out, hout, he⟩ := Option.map_eq_some_iff.mp h
    rw [hout, List.append_cancel_right he]
  · intro h
    rw [h, Option.map_some]

/-- When the end that is computed is the one that was asked for. -/
theorem end_eq_iff {available offset len : ℕ} (havailable : available < sizeCount w)
    (hoffset : offset < sizeCount w) (hlen : len < sizeCount w) :
    max offset (if available < (offset + len) % sizeCount w then
        (sizeCount w - offset + available) % sizeCount w else len) =
      max offset (min (offset + len) available) ↔ Printable w available offset len := by
  unfold Printable
  have hsum : (offset + len) % sizeCount w =
      if offset + len < sizeCount w then offset + len else offset + len - sizeCount w := by
    split_ifs with hwrap
    · exact Nat.mod_eq_of_lt hwrap
    · rw [Nat.mod_eq_sub_mod (by omega), Nat.mod_eq_of_lt (by omega)]
  have hdiff : (sizeCount w - offset + available) % sizeCount w =
      if offset ≤ available then available - offset
      else sizeCount w - offset + available := by
    split_ifs with hle
    · have hturn : sizeCount w - offset + available = available - offset + sizeCount w := by omega
      rw [hturn, Nat.add_mod_right, Nat.mod_eq_of_lt (by omega)]
    · exact Nat.mod_eq_of_lt (by omega)
  rw [hdiff, hsum]
  generalize sizeCount w = m at *
  split_ifs <;> omega

/-- The requested bytes are printed, and no others, exactly for these windows: the end of
the loop is meant as a count and used as an index. -/
theorem content_printed_iff (content : Content w) (offset : UInt32) (len : BitVec (32 + w)) :
    PrintsWindow content offset len ↔
      Printable w content.bytes.length offset.toNat len.toNat := by
  rw [printsWindow_iff_end, toPrint_toNat]
  exact end_eq_iff content.length_lt (toNat_lt_sizeCount offset) len.isLt

/-- So is the command, for a storage that can be read. -/
theorem cmd_prints_iff (riot : Riot w) {storage : Storage w} (name : Bytes) {slot : Bytes}
    (hfound : riot.storageFindById slot = some storage) (hptr : storage.hasReadptr = true)
    (addr len : Bytes) (more : List Bytes) :
    let offset : UInt32 := ⟨riot.atoi addr⟩
    let count := (riot.atoi len).signExtend (32 + w)
    cmdPrintSlotContent riot name (slot :: addr :: len :: more) =
        some (0, (requested (storage.readPtr slot) offset count).flatMap hex2 ++ [10]) ↔
      PrintsWindow (storage.readPtr slot) offset count := by
  simp only [cmdPrintSlotContent, hfound, hptr, if_true, PrintsWindow, Option.map_eq_some_iff,
    Prod.mk.injEq, true_and, exists_eq_right]

/-- A storage of eight bytes, with a `size_t` of 32 bits. -/
def eightBytes : Content 0 := ⟨[0, 1, 2, 3, 4, 5, 6, 7], by decide⟩

/-- Of two bytes from offset 2 on none is printed, and from offset 10 on the loop reads
behind the storage. -/
theorem later_windows_wrong :
    ¬ PrintsWindow eightBytes 2 2 ∧ printContent eightBytes 10 1 = none := by
  constructor
  · intro h
    have hend := (printsWindow_iff_end eightBytes 2 2).mp h
    exact absurd hend (by decide)
  · have hstop := toPrint_toNat eightBytes 10 1
    rw [printContent, hstop, printBytes_eq, if_neg (by decide), Option.map_none]

end IotLabTraining.SlotContent
