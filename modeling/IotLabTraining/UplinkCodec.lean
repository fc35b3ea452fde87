import IotLabTraining.Text

/-!
# The LoRaWAN uplink message

`main` (of `chirpstack-mqtt` and `ttn-mqtt`) prints the readings, and the formatter
`decodeUplink` takes them out again with two regular expressions. Bytes are the
characters of the JavaScript string. In both expressions the whitespace, the
class `[\d.]` and the closing character exclude each other, so greedy matching
never has to backtrack. Numbers are exact decimals; rounding to a double is left
out.
-/
namespace IotLabTraining.UplinkCodec

/-! ## The encoder -/

/-- `"H: %d.%d%%, T:%d.%dC"`; both `/` and `%` of C follow the sign. -/
def message (humidity : UInt16) (temperature : Int16) : Bytes :=
  let h : ℤ := humidity.toNat
  let t := temperature.toInt
  ascii "H: " ++ signed (h.tdiv 10) ++ ascii "." ++ signed (h.tmod 10) ++
    ascii "%, T:" ++ signed (t.tdiv 10) ++ ascii "." ++ signed (t.tmod 10) ++ ascii "C"

/-- `char message[64]`. -/
def messageSize : ℕ := 64

/-! ## The decoder -/

/-- `\s`, as far as one byte goes. -/
def isJsSpace (c : UInt8) : Bool := (9 ≤ c && c ≤ 13) || c = 32 || c = 160

/-- `[\d.]`. -/
def isNumeral (c : UInt8) : Bool := isDigit c || c = 46

/-- The capture of `letter:\s*([\d.]+)close` at the head of the string. -/
def matchAt (letter close : UInt8) : Bytes → Option Bytes
  | c :: d :: r =>
    if c = letter ∧ d = 58 then
      let s := r.dropWhile isJsSpace
      if s.takeWhile isNumeral ≠ [] ∧ (s.dropWhile isNumeral).head? = some close then
        some (s.takeWhile isNumeral)
      else none
    else none
  | _ => none

/-- `String.match` without flags: the leftmost match. -/
def search (letter close : UInt8) : Bytes → Option Bytes
  | [] => none
  | c :: r => matchAt letter close (c :: r) <|> search letter close r

/-- A field of the decoded object. -/
inductive Field where
  | null
  | nan
  | value (q : ℚ)
  deriving DecidableEq

def fractionDigits : Bytes → Bytes
  | [] => []
  | c :: r => if c = 46 then r.takeWhile isDigit else []

/-- `parseFloat` on digits and points: it stops at the second point. -/
def parseFloat (s : Bytes) : Field :=
  let ip := s.takeWhile isDigit
  let frac := fractionDigits (s.dropWhile isDigit)
  if ip = [] ∧ frac = [] then .nan
  else .value (digitsValue (ip ++ frac) / 10 ^ frac.length)

structure Uplink where
  humidity : Field
  temperature : Field
  deriving DecidableEq

def decodeUplink (bytes : Bytes) : Uplink where
  humidity := (search 72 37 bytes).elim .null parseFloat
  temperature := (search 84 67 bytes).elim .null parseFloat

/-- The message fits its buffer and is decoded to the readings it was made of. -/
def RoundTrip (humidity : UInt16) (temperature : Int16) : Prop :=
  (message humidity temperature).length + 1 ≤ messageSize ∧
    decodeUplink (message humidity temperature) =
      ⟨.value (humidity.toNat / 10), .value (temperature.toInt / 10)⟩

/-! ## Searching -/

theorem matchAt_ne {letter close c : UInt8} (h : c ≠ letter) (r : Bytes) :
    matchAt letter close (c :: r) = none := by
  cases r with
  | nil => rfl
  | cons d r => rw [matchAt, if_neg (fun hc => h hc.1)]

theorem search_append {letter : UInt8} (close : UInt8) {p : Bytes} (h : letter ∉ p) (s : Bytes) :
    search letter close (p ++ s) = search letter close s := by
  induction p with
  | nil => rfl
  | cons c p ih =>
    rw [List.mem_cons, not_or] at h
    rw [List.cons_append, search, matchAt_ne (Ne.symm h.1), ih h.2]
    rfl

theorem search_eq_none {letter close : UInt8} {s : Bytes} (h : letter ∉ s) :
    search letter close s = none := by
  have hs := search_append close h []
  rwa [List.append_nil] at hs

theorem isNumeral_of_mem_decimal {n : ℕ} {c : UInt8} (h : c ∈ decimal n) : isNumeral c = true := by
  rw [isNumeral, isDigit_of_mem_decimal h]
  rfl

/-- The printed decimal `a.b`. -/
def pointed (a b : ℕ) : Bytes := decimal a ++ 46 :: decimal b

theorem isNumeral_of_mem_pointed {a b : ℕ} {c : UInt8} (h : c ∈ pointed a b) :
    isNumeral c = true := by
  rw [pointed, List.mem_append, List.mem_cons] at h
  rcases h with h | rfl | h
  · exact isNumeral_of_mem_decimal h
  · rfl
  · exact isNumeral_of_mem_decimal h

/-- A numeral starts where the whitespace ends. -/
theorem dropWhile_pointed (a b : ℕ) (r : Bytes) :
    (pointed a b ++ r).dropWhile isJsSpace = pointed a b ++ r := by
  cases hd : decimal a with
  | nil => exact absurd hd (decimal_ne_nil a)
  | cons d ds =>
    have hdigit : isDigit d = true := isDigit_of_mem_decimal (n := a) (by simp [hd])
    have hspace : isJsSpace d = false := by
      rw [isDigit_iff] at hdigit
      simp only [isJsSpace, Bool.or_eq_false_iff, Bool.and_eq_false_iff, decide_eq_false_iff_not,
        UInt8.le_iff_toNat_le, ← UInt8.toNat_inj, UInt8.reduceToNat]
      omega
    rw [pointed, hd]
    simp [hspace]

theorem matchAt_pointed (letter : UInt8) {close : UInt8} (hclose : isNumeral close = false)
    {sp : Bytes} (hsp : ∀ c ∈ sp, isJsSpace c = true) (a b : ℕ) (r : Bytes) :
    matchAt letter close (letter :: 58 :: (sp ++ (pointed a b ++ close :: r))) =
      some (pointed a b) := by
  have hnum : ∀ c ∈ pointed a b, isNumeral c = true := fun c => isNumeral_of_mem_pointed
  have hskip : (sp ++ (pointed a b ++ close :: r)).dropWhile isJsSpace =
      pointed a b ++ close :: r := by
    rw [List.dropWhile_append_of_pos hsp, dropWhile_pointed]
  have htake : (pointed a b ++ close :: r).takeWhile isNumeral = pointed a b := by
    rw [List.takeWhile_append_of_pos hnum, List.takeWhile_cons_of_neg (by simp [hclose]),
      List.append_nil]
  have hdrop : (pointed a b ++ close :: r).dropWhile isNumeral = close :: r := by
    rw [List.dropWhile_append_of_pos hnum, List.dropWhile_cons_of_neg (by simp [hclose])]
  have hne : pointed a b ≠ [] := by simp [pointed]
  rw [matchAt, if_pos ⟨rfl, rfl⟩]
  simp only [hskip, htake, hdrop]
  rw [if_pos ⟨hne, rfl⟩]

/-- The quotient and the remainder by ten are put together again. -/
theorem parseFloat_pointed (n : ℕ) : parseFloat (pointed (n / 10) (n % 10)) = .value (n / 10) := by
  have hlt : n % 10 < 10 := Nat.mod_lt n (by omega)
  have hlast : decimal (n % 10) = [digitByte (n % 10)] := decimal_of_lt hlt
  have hdigits : ∀ c ∈ decimal (n / 10), isDigit c = true := fun c => isDigit_of_mem_decimal
  have hpoint : isDigit 46 = false := rfl
  have hip : (pointed (n / 10) (n % 10)).takeWhile isDigit = decimal (n / 10) := by
    rw [pointed, List.takeWhile_append_of_pos hdigits,
      List.takeWhile_cons_of_neg (by simp [hpoint]), List.append_nil]
  have hfrac : fractionDigits ((pointed (n / 10) (n % 10)).dropWhile isDigit) =
      [digitByte (n % 10)] := by
    rw [pointed, List.dropWhile_append_of_pos hdigits,
      List.dropWhile_cons_of_neg (by simp [hpoint]), fractionDigits, if_pos rfl, hlast]
    simp [isDigit_digitByte hlt]
  have hvalue : digitsValue (decimal (n / 10) ++ [digitByte (n % 10)]) = n := by
    rw [digitsValue_append_singleton, digitsValue_decimal, digitByte_toNat hlt]
    omega
  simp only [parseFloat, hip, hfrac, hvalue]
  rw [if_neg (by simp)]
  simp

/-! ## The message -/

theorem signed_quotient (n : ℕ) : signed ((n : ℤ).tdiv 10) = decimal (n / 10) := by
  rw [← signed_natCast]
  rfl

theorem signed_remainder (n : ℕ) : signed ((n : ℤ).tmod 10) = decimal (n % 10) := by
  rw [← signed_natCast]
  rfl

/-- What `sprintf` writes of the humidity and of the temperature. -/
def humidityText (humidity : UInt16) : Bytes :=
  72 :: 58 :: 32 :: (pointed (humidity.toNat / 10) (humidity.toNat % 10) ++ [37, 44, 32])

def temperatureText (z : ℤ) : Bytes :=
  84 :: 58 :: (signed (z.tdiv 10) ++ 46 :: (signed (z.tmod 10) ++ [67]))

theorem message_eq (humidity : UInt16) (temperature : Int16) :
    message humidity temperature = humidityText humidity ++ temperatureText temperature.toInt := by
  have hfirst : ascii "H: " = [72, 58, 32] := rfl
  have hpoint : ascii "." = [46] := rfl
  have hmiddle : ascii "%, T:" = [37, 44, 32, 84, 58] := rfl
  have hlast : ascii "C" = [67] := rfl
  simp only [message, humidityText, temperatureText, pointed, signed_quotient, signed_remainder,
    hfirst, hpoint, hmiddle, hlast, List.append_assoc, List.cons_append, List.nil_append]

theorem search_humidity (humidity : UInt16) (temperature : Int16) :
    search 72 37 (message humidity temperature) =
      some (pointed (humidity.toNat / 10) (humidity.toNat % 10)) := by
  have hmatch := matchAt_pointed 72 (show isNumeral 37 = false from rfl)
    (show ∀ c ∈ ([32] : Bytes), isJsSpace c = true by decide)
    (humidity.toNat / 10) (humidity.toNat % 10) (44 :: 32 :: temperatureText temperature.toInt)
  simp only [List.cons_append, List.nil_append] at hmatch
  simp only [message_eq, humidityText, List.cons_append, List.append_assoc, List.nil_append]
  rw [search, hmatch]
  rfl

/-- The only `T` of the message is the one before the temperature. -/
theorem search_temperature (humidity : UInt16) (temperature : Int16) :
    search 84 67 (message humidity temperature) =
      matchAt 84 67 (temperatureText temperature.toInt) := by
  have hletter : (84 : UInt8) ≠ 45 ∧ isDigit 84 = false := by decide
  have hbefore : 84 ∉ humidityText humidity := by
    have hnat (n : ℕ) : 84 ∉ decimal n := by
      rw [← signed_natCast]
      exact notMem_signed hletter n
    simp [humidityText, pointed, hnat]
  have hbehind : 84 ∉ 58 :: (signed (temperature.toInt.tdiv 10) ++
      46 :: (signed (temperature.toInt.tmod 10) ++ [67])) := by
    simp [notMem_signed hletter]
  rw [message_eq, search_append 67 hbefore, temperatureText, search, search_eq_none hbehind]
  cases matchAt 84 67 _ <;> rfl

theorem matchAt_nonneg (n : ℕ) :
    matchAt 84 67 (temperatureText n) = some (pointed (n / 10) (n % 10)) := by
  have hmatch := matchAt_pointed 84 (show isNumeral 67 = false from rfl)
    (show ∀ c ∈ ([] : Bytes), isJsSpace c = true by simp) (n / 10) (n % 10) []
  have htext : temperatureText n = 84 :: 58 :: ([] ++ (pointed (n / 10) (n % 10) ++ [67])) := by
    simp only [temperatureText, pointed, signed_quotient, signed_remainder, List.append_assoc,
      List.cons_append, List.nil_append]
  rw [htext, hmatch]

/-- The sign stands in the quotient or, when that is zero, in the remainder. -/
theorem matchAt_neg {z : ℤ} (hz : z < 0) : matchAt 84 67 (temperatureText z) = none := by
  obtain ⟨n, rfl⟩ : ∃ n : ℕ, z = -n := ⟨z.natAbs, by omega⟩
  have hquot : (-(n : ℤ)).tdiv 10 = -((n / 10 : ℕ) : ℤ) := by
    rw [Int.neg_tdiv]
    rfl
  have hrem : (-(n : ℤ)).tmod 10 = -((n % 10 : ℕ) : ℤ) := by
    rw [Int.neg_tmod]
    rfl
  by_cases hq : n / 10 = 0
  · have hr : -((n % 10 : ℕ) : ℤ) < 0 := by omega
    have hzero : signed (-((0 : ℕ) : ℤ)) = [48] := rfl
    simp only [temperatureText, hquot, hrem, hq, hzero, signed_of_neg hr]
    simp [matchAt, isJsSpace, isNumeral, isDigit]
  · have hneg : -((n / 10 : ℕ) : ℤ) < 0 := by omega
    simp only [temperatureText, hquot, hrem, signed_of_neg hneg]
    simp [matchAt, isJsSpace, isNumeral, isDigit]

theorem message_length_le (humidity : UInt16) (temperature : Int16) :
    (message humidity temperature).length + 1 ≤ messageSize := by
  have hhum := humidity.toNat_lt
  have hlow := Int16.le_toInt temperature
  have hhigh := Int16.toInt_lt temperature
  have hquot : (decimal (humidity.toNat / 10)).length ≤ 4 := decimal_length_le (by omega) (by omega)
  have hrem : (decimal (humidity.toNat % 10)).length ≤ 1 := decimal_length_le (by omega) (by omega)
  have htquot : (signed (temperature.toInt.tdiv 10)).length ≤ 4 + 1 :=
    signed_length_le (by omega) (by rw [Int.natAbs_tdiv]; change _ / 10 < _; omega)
  have htrem : (signed (temperature.toInt.tmod 10)).length ≤ 1 + 1 :=
    signed_length_le (by omega) (by rw [Int.natAbs_tmod]; change _ % 10 < _; omega)
  simp only [message_eq, humidityText, temperatureText, pointed, messageSize, List.length_append,
    List.length_cons, List.length_nil]
  omega

/-- A minus sign hides the temperature from the decoder. -/
theorem decodeUplink_neg (humidity : UInt16) {temperature : Int16} (h : temperature.toInt < 0) :
    (decodeUplink (message humidity temperature)).temperature = .null := by
  rw [decodeUplink, search_temperature, matchAt_neg h]
  rfl

/-- The decoder gives the readings back exactly when the temperature is not
negative. -/
theorem roundTrip_iff (humidity : UInt16) (temperature : Int16) :
    RoundTrip humidity temperature ↔ 0 ≤ temperature.toInt := by
  constructor
  · rintro ⟨-, hdecode⟩
    by_contra hneg
    have hnull := decodeUplink_neg humidity (lt_of_not_ge hneg)
    rw [hdecode] at hnull
    cases hnull
  · intro hnonneg
    obtain ⟨n, hn⟩ := Int.eq_ofNat_of_zero_le hnonneg
    refine ⟨message_length_le humidity temperature, ?_⟩
    rw [decodeUplink, search_humidity, search_temperature, hn, matchAt_nonneg]
    simp [parseFloat_pointed]

/-- 45.0 % and half a degree below zero. -/
theorem minus_half_not_roundTrip : ¬ RoundTrip 450 (-5) := by
  rintro ⟨-, hdecode⟩
  have hnull := decodeUplink_neg 450 (show (-5 : Int16).toInt < 0 by decide)
  rw [hdecode] at hnull
  cases hnull

end IotLabTraining.UplinkCodec
