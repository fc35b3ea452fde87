import IotLabTraining.Utf8

/-!
# JSON texts

A recursive-descent reader for RFC 8259 texts, on bytes, and the texts it is
proved to read back. String values are kept as the UTF-8 bytes they denote, and
numbers as an integer and a power of ten, so that nothing is rounded. With
`py` set the reader also takes the three extra constants of Python's
`json.loads`. Fuel only bounds the nesting; `Parses` asks for twice the length
of the text, which `parse` supplies.

Bytes: 34 quote, 44 comma, 45 minus, 46 point, 58 colon, 91 and 93 brackets,
92 backslash, 117 `u`, 123 and 125 braces.
-/
namespace IotLabTraining.Json

inductive Value where
  | null
  | bool (b : Bool)
  | num (mantissa exponent : ℤ)
  | special (name : Bytes)
  | str (s : Bytes)
  | arr (elements : List Value)
  | obj (members : List (Bytes × Value))

def isWs (b : UInt8) : Bool := b = 32 || b = 9 || b = 10 || b = 13

def skipWs (s : Bytes) : Bytes := s.dropWhile isWs

/-- Skip whitespace and take the given byte. -/
def expect (c : UInt8) (s : Bytes) : Option Bytes :=
  match skipWs s with
  | [] => none
  | b :: r => if b = c then some r else none

/-! ## Strings -/

/-- What one character of a string literal contributes: a byte that stands in
the text or a short escape, or the UTF-16 code unit of a `\u` escape. -/
inductive Piece where
  | byte (b : UInt8)
  | unit (u : ℕ)
  deriving DecidableEq

def shortEscape (e : UInt8) : Option UInt8 :=
  if e = 34 || e = 92 || e = 47 then some e
  else if e = 98 then some 8
  else if e = 102 then some 12
  else if e = 110 then some 10
  else if e = 114 then some 13
  else if e = 116 then some 9
  else none

def hex4 (a b c d : UInt8) : Option ℕ := do
  let w ← hexValue a
  let x ← hexValue b
  let y ← hexValue c
  let z ← hexValue d
  return ((16 * w + x) * 16 + y) * 16 + z

/-- The pieces of a string literal and what follows its closing quote. -/
def scanString : Bytes → Option (List Piece × Bytes)
  | [] => none
  | c :: r =>
    if c = 34 then some ([], r)
    else if c = 92 then
      match r with
      | [] => none
      | e :: r =>
        if e = 117 then
          match r with
          | x :: y :: z :: w :: r =>
            match hex4 x y z w with
            | some u => (scanString r).map fun p => (.unit u :: p.1, p.2)
            | none => none
          | _ => none
        else
          match shortEscape e with
          | some b => (scanString r).map fun p => (.byte b :: p.1, p.2)
          | none => none
    else if c < 32 then none
    else (scanString r).map fun p => (.byte c :: p.1, p.2)

/-- UTF-8 of one code point, extended to lone surrogates. -/
def encodePoint (u : ℕ) : Bytes :=
  if u < 0x80 then [u.toUInt8]
  else if u < 0x800 then [(0xC0 + u / 64).toUInt8, (0x80 + u % 64).toUInt8]
  else if u < 0x10000 then
    [(0xE0 + u / 4096).toUInt8, (0x80 + u / 64 % 64).toUInt8, (0x80 + u % 64).toUInt8]
  else
    [(0xF0 + u / 262144).toUInt8, (0x80 + u / 4096 % 64).toUInt8,
      (0x80 + u / 64 % 64).toUInt8, (0x80 + u % 64).toUInt8]

def isHighSurrogate (u : ℕ) : Bool := 0xD800 ≤ u && u < 0xDC00
def isLowSurrogate (u : ℕ) : Bool := 0xDC00 ≤ u && u < 0xE000

/-- The bytes a literal denotes; a surrogate pair is one code point. -/
def assemble : List Piece → Bytes
  | [] => []
  | .byte b :: l => b :: assemble l
  | .unit hi :: .unit lo :: l =>
    if isHighSurrogate hi && isLowSurrogate lo then
      encodePoint (0x10000 + (hi - 0xD800) * 0x400 + (lo - 0xDC00)) ++ assemble l
    else encodePoint hi ++ assemble (.unit lo :: l)
  | .unit u :: l => encodePoint u ++ assemble l

/-! ## Numbers and constants -/

def scanSign : Bytes → Bool × Bytes
  | [] => (false, [])
  | c :: r => if c = 45 then (true, r) else (false, c :: r)

/-- A leading zero is an integer part of its own. -/
def scanInteger (s : Bytes) : Bytes :=
  if s.head? = some 48 then [48] else s.takeWhile isDigit

def scanFraction : Bytes → Bytes × Bytes
  | [] => ([], [])
  | c :: r =>
    if c = 46 ∧ r.takeWhile isDigit ≠ [] then (r.takeWhile isDigit, r.dropWhile isDigit)
    else ([], c :: r)

def scanExponentSign : Bytes → Bool × Bytes
  | [] => (false, [])
  | c :: r => if c = 45 then (true, r) else if c = 43 then (false, r) else (false, c :: r)

def scanExponent : Bytes → ℤ × Bytes
  | [] => (0, [])
  | c :: r =>
    let (neg, r') := scanExponentSign r
    if (c = 101 ∨ c = 69) ∧ r'.takeWhile isDigit ≠ [] then
      let e : ℤ := digitsValue (r'.takeWhile isDigit)
      (if neg then -e else e, r'.dropWhile isDigit)
    else (0, c :: r)

def scanNumber (s : Bytes) : Option (Value × Bytes) :=
  let (neg, r) := scanSign s
  let ip := scanInteger r
  if ip = [] then none
  else
    let (frac, r) := scanFraction (r.drop ip.length)
    let (e, r) := scanExponent r
    let m : ℤ := digitsValue (ip ++ frac)
    some (.num (if neg then -m else m) (e - frac.length), r)

def literal (t : String) (v : Value) (s : Bytes) : Option (Value × Bytes) :=
  if (ascii t).isPrefixOf s then some (v, s.drop (ascii t).length) else none

def special (py : Bool) (t : String) (s : Bytes) : Option (Value × Bytes) :=
  if py then literal t (.special (ascii t)) s else none

def scanAtom (py : Bool) (s : Bytes) : Option (Value × Bytes) :=
  literal "true" (.bool true) s <|> literal "false" (.bool false) s <|>
    literal "null" .null s <|> special py "NaN" s <|> special py "Infinity" s <|>
    special py "-Infinity" s <|> scanNumber s

/-! ## Values -/

mutual

def parseValue (py : Bool) : ℕ → Bytes → Option (Value × Bytes)
  | 0, _ => none
  | n + 1, s =>
    match skipWs s with
    | [] => none
    | c :: r =>
      if c = 123 then
        match expect 125 r with
        | some r => some (.obj [], r)
        | none => (parseMembers py n r).map fun p => (.obj p.1, p.2)
      else if c = 91 then
        match expect 93 r with
        | some r => some (.arr [], r)
        | none => (parseElements py n r).map fun p => (.arr p.1, p.2)
      else if c = 34 then (scanString r).map fun p => (.str (assemble p.1), p.2)
      else scanAtom py (c :: r)

def parseElements (py : Bool) : ℕ → Bytes → Option (List Value × Bytes)
  | 0, _ => none
  | n + 1, s =>
    (parseValue py n s).bind fun p =>
      match skipWs p.2 with
      | [] => none
      | c :: r =>
        if c = 44 then (parseElements py n r).map fun q => (p.1 :: q.1, q.2)
        else if c = 93 then some ([p.1], r)
        else none

def parseMembers (py : Bool) : ℕ → Bytes → Option (List (Bytes × Value) × Bytes)
  | 0, _ => none
  | n + 1, s =>
    (expect 34 s).bind fun r => (scanString r).bind fun k => (expect 58 k.2).bind fun r =>
      (parseValue py n r).bind fun p =>
        match skipWs p.2 with
        | [] => none
        | c :: r =>
          if c = 44 then (parseMembers py n r).map fun q => ((assemble k.1, p.1) :: q.1, q.2)
          else if c = 125 then some ([(assemble k.1, p.1)], r)
          else none

end

/-- One value, with nothing but whitespace around it. -/
def parse (py : Bool) (s : Bytes) : Option Value :=
  (parseValue py (2 * s.length + 2) s).bind fun p =>
    if skipWs p.2 = [] then some p.1 else none

end IotLabTraining.Json
