import IotLabTraining.Text

/-!
# Base64

The encoder writes four characters for three bytes and pads the last group. The reader is
Python's: it skips every character outside the alphabet, stops behind a group that padding
completes, and returns `none` where Python raises.
-/
namespace IotLabTraining.Base64

/-- The character of a six-bit value. -/
def sextet (v : ℕ) : UInt8 :=
  if v < 26 then (65 + v).toUInt8
  else if v < 52 then (71 + v).toUInt8
  else if v < 62 then (v - 4).toUInt8
  else if v = 62 then 43
  else 47

def sextetValue (c : UInt8) : Option ℕ :=
  if 65 ≤ c ∧ c ≤ 90 then some (c.toNat - 65)
  else if 97 ≤ c ∧ c ≤ 122 then some (c.toNat - 71)
  else if 48 ≤ c ∧ c ≤ 57 then some (c.toNat + 4)
  else if c = 43 then some 62
  else if c = 47 then some 63
  else none

/-- `=`. -/
def pad : UInt8 := 61

/-- `base64.b64encode`. -/
def b64encode : Bytes → Bytes
  | [] => []
  | [a] => [sextet (a.toNat / 4), sextet (a.toNat % 4 * 16), pad, pad]
  | [a, b] =>
    [sextet (a.toNat / 4), sextet (a.toNat % 4 * 16 + b.toNat / 16), sextet (b.toNat % 16 * 4), pad]
  | a :: b :: c :: r =>
    sextet (a.toNat / 4) :: sextet (a.toNat % 4 * 16 + b.toNat / 16) ::
      sextet (b.toNat % 16 * 4 + c.toNat / 64) :: sextet (c.toNat % 64) :: b64encode r

/-- The loop of the reader: the characters of the group so far, the bits of the last one that
are left over, and the padding behind it. -/
def decodeFrom (quadPos leftchar pads : ℕ) : Bytes → Option Bytes
  | [] => if quadPos = 0 then some [] else none
  | c :: r =>
    if c = pad then
      if 2 ≤ quadPos then
        if 4 ≤ quadPos + (pads + 1) then some [] else decodeFrom quadPos leftchar (pads + 1) r
      else decodeFrom quadPos leftchar pads r
    else
      match sextetValue c with
      | none => decodeFrom quadPos leftchar pads r
      | some v =>
        match quadPos with
        | 0 => decodeFrom 1 v 0 r
        | 1 => (decodeFrom 2 (v % 16) 0 r).map fun t => (leftchar * 4 + v / 16).toUInt8 :: t
        | 2 => (decodeFrom 3 (v % 4) 0 r).map fun t => (leftchar * 16 + v / 4).toUInt8 :: t
        | _ => (decodeFrom 0 0 0 r).map fun t => (leftchar * 64 + v).toUInt8 :: t

/-- `base64.b64decode`. -/
def b64decode (s : Bytes) : Option Bytes := decodeFrom 0 0 0 s

/-- The example of the notebook. -/
example : b64decode (ascii "SDogNDkuOCUsIFQ6MjcuM0M=") = some (ascii "H: 49.8%, T:27.3C") := by
  decide +kernel

/-! ## The alphabet -/

theorem sextetValue_sextet {v : ℕ} (h : v < 64) : sextetValue (sextet v) = some v := by
  have hall : ∀ v < 64, sextetValue (sextet v) = some v := by decide
  exact hall v h

theorem sextet_ne_pad {v : ℕ} (h : v < 64) : sextet v ≠ pad := by
  have hall : ∀ v < 64, sextet v ≠ pad := by decide
  exact hall v h

/-! ## Reading one character -/

section
variable {v : ℕ} (leftchar pads : ℕ) (r : Bytes)

theorem decodeFrom_first (h : v < 64) :
    decodeFrom 0 leftchar pads (sextet v :: r) = decodeFrom 1 v 0 r := by
  rw [decodeFrom, if_neg (sextet_ne_pad h), sextetValue_sextet h]
  rfl

theorem decodeFrom_second (h : v < 64) : decodeFrom 1 leftchar pads (sextet v :: r) =
    (decodeFrom 2 (v % 16) 0 r).map fun t => (leftchar * 4 + v / 16).toUInt8 :: t := by
  rw [decodeFrom, if_neg (sextet_ne_pad h), sextetValue_sextet h]
  rfl

theorem decodeFrom_third (h : v < 64) : decodeFrom 2 leftchar pads (sextet v :: r) =
    (decodeFrom 3 (v % 4) 0 r).map fun t => (leftchar * 16 + v / 4).toUInt8 :: t := by
  rw [decodeFrom, if_neg (sextet_ne_pad h), sextetValue_sextet h]
  rfl

theorem decodeFrom_fourth (h : v < 64) : decodeFrom 3 leftchar pads (sextet v :: r) =
    (decodeFrom 0 0 0 r).map fun t => (leftchar * 64 + v).toUInt8 :: t := by
  rw [decodeFrom, if_neg (sextet_ne_pad h), sextetValue_sextet h]
  rfl

end

/-- A byte is put together from the bits of two characters. -/
theorem toUInt8_of_toNat {n : ℕ} {a : UInt8} (h : n = a.toNat) : n.toUInt8 = a := by
  rw [h]
  exact UInt8.ofNat_toNat

/-! ## Round trips -/

/-- What was encoded is read back. -/
theorem b64decode_b64encode (b : Bytes) : b64decode (b64encode b) = some b := by
  unfold b64decode
  induction b using b64encode.induct with
  | case1 => rfl
  | case2 a =>
    have ha := a.toNat_lt
    have hfirst : a.toNat / 4 < 64 := by omega
    have hsecond : a.toNat % 4 * 16 < 64 := by omega
    have hbyte : a.toNat / 4 * 4 + a.toNat % 4 * 16 / 16 = a.toNat := by omega
    have hend (l : ℕ) : decodeFrom 2 l 0 [pad, pad] = some [] := rfl
    rw [b64encode, decodeFrom_first _ _ _ hfirst, decodeFrom_second _ _ _ hsecond, hend,
      Option.map_some, toUInt8_of_toNat hbyte]
  | case3 a b =>
    have ha := a.toNat_lt
    have hb := b.toNat_lt
    have hfirst : a.toNat / 4 < 64 := by omega
    have hsecond : a.toNat % 4 * 16 + b.toNat / 16 < 64 := by omega
    have hthird : b.toNat % 16 * 4 < 64 := by omega
    have hbyte : a.toNat / 4 * 4 + (a.toNat % 4 * 16 + b.toNat / 16) / 16 = a.toNat := by omega
    have hbyte' : (a.toNat % 4 * 16 + b.toNat / 16) % 16 * 16 + b.toNat % 16 * 4 / 4 = b.toNat := by
      omega
    have hend (l : ℕ) : decodeFrom 3 l 0 [pad] = some [] := rfl
    rw [b64encode, decodeFrom_first _ _ _ hfirst, decodeFrom_second _ _ _ hsecond,
      decodeFrom_third _ _ _ hthird, hend, Option.map_some, Option.map_some,
      toUInt8_of_toNat hbyte, toUInt8_of_toNat hbyte']
  | case4 a b c r ih =>
    have ha := a.toNat_lt
    have hb := b.toNat_lt
    have hc := c.toNat_lt
    have hfirst : a.toNat / 4 < 64 := by omega
    have hsecond : a.toNat % 4 * 16 + b.toNat / 16 < 64 := by omega
    have hthird : b.toNat % 16 * 4 + c.toNat / 64 < 64 := by omega
    have hfourth : c.toNat % 64 < 64 := by omega
    have hbyte : a.toNat / 4 * 4 + (a.toNat % 4 * 16 + b.toNat / 16) / 16 = a.toNat := by omega
    have hbyte' : (a.toNat % 4 * 16 + b.toNat / 16) % 16 * 16 +
        (b.toNat % 16 * 4 + c.toNat / 64) / 4 = b.toNat := by
      omega
    have hbyte'' : (b.toNat % 16 * 4 + c.toNat / 64) % 4 * 64 + c.toNat % 64 = c.toNat := by omega
    rw [b64encode, decodeFrom_first _ _ _ hfirst, decodeFrom_second _ _ _ hsecond,
      decodeFrom_third _ _ _ hthird, decodeFrom_fourth _ _ _ hfourth, ih, Option.map_some,
      Option.map_some, Option.map_some, toUInt8_of_toNat hbyte, toUInt8_of_toNat hbyte',
      toUInt8_of_toNat hbyte'']

end IotLabTraining.Base64
