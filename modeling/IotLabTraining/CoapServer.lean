import IotLabTraining.GcoapMessage
import IotLabTraining.ValueResource

/-!
# The CoAP server of the exercise

`main.c` with the resources that the notebook adds to it: the texts of the board, the CPU
and the sensor, and `/value`. A text that does not fit behind the options gives 5.00; the
numeral of `_value` is written without a check. gcoap finds the resource for a request.
-/
namespace IotLabTraining.CoapServer
open GcoapClient (Output puts decimal02 COAP_FORMAT_TEXT)
open GcoapMessage (Message Nanocoap)
open Runs ValueResource

/-- A response: its code, its format and its payload. -/
structure Reply where
  codeClass : ℕ
  codeDetail : ℕ
  format : Option ℕ
  payload : Bytes
  deriving DecidableEq

def Reply.content (text : Bytes) : Reply := ⟨2, 5, some COAP_FORMAT_TEXT, text⟩

/-- `gcoap_response`. -/
def gcoapResponse (codeClass codeDetail : ℕ) : Reply := ⟨codeClass, codeDetail, none, []⟩

/-- What the server takes from RIOT: the names, the room behind the options of a response,
how far `unsigned long` is wider than 32 bits, the path of a request, and the answer to
a request that no entry of the table is for. -/
structure Node where
  board : Bytes
  cpu : Bytes
  room : ℕ
  more : ℕ
  uriPath : List Bytes → Bytes
  refuse : Message → Reply
  board_nul_free : 0 ∉ board
  cpu_nul_free : 0 ∉ cpu

variable (node : Node)

/-! ## The handlers -/

/-- `%2i`. -/
def integer2 (z : ℤ) : Bytes := if (signed z).length < 2 then 32 :: signed z else signed z

/-- `%02i`; a sign and a digit are wide enough. -/
def integer02 (z : ℤ) : Bytes := if z < 0 then signed z else decimal02 z.toNat

/-- `°C`. -/
def DEGREES : Bytes := [0xC2, 0xB0, 67]

/-- `"%2i.%02i°C"` of the quotient and the rest, both with the sign of the reading. -/
def temperatureText (temp : Int16) : Bytes :=
  integer2 (temp.toInt.tdiv 100) ++ 46 :: (integer02 (temp.toInt.tmod 100) ++ DEGREES)

/-- `char response[32]`. -/
def responseSize : ℕ := 32

/-- The handlers that write a text. -/
def textHandler (tooSmall : String) (text : Bytes) (room : ℕ) : List Output × Reply :=
  if text.length ≤ room then ([], .content text) else ([puts tooSmall], gcoapResponse 5 0)

/-- `_riot_board_handler`. -/
def riotBoardHandler : List Output × Reply :=
  textHandler "gcoap_cli: msg buffer too small" node.board node.room

/-- `_riot_cpu_handler`. -/
def riotCpuHandler : List Output × Reply :=
  textHandler "gcoap_cli: msg buffer too small" node.cpu node.room

/-- `_temperature_handler`. -/
def temperatureHandler (temp : Int16) : List Output × Reply :=
  textHandler "gcoap: msg buffer too small" (temperatureText temp) node.room

def Reply.ofValue (r : Response) : Reply :=
  match r.code with
  | .changed => ⟨2, 4, r.format, r.payload⟩
  | .content => ⟨2, 5, r.format, r.payload⟩
  | .badRequest => ⟨4, 0, r.format, r.payload⟩

/-- `_value_handler` in the packet; `none` is a write behind its end. -/
def valueInPacket (value : UInt16) (r : Request) : Option (Reply × UInt16) :=
  let p := valueHandler node.more value r
  if p.1.payload.length ≤ node.room then some (.ofValue p.1, p.2) else none

/-! ## The table -/

inductive Handler where
  | riotBoard
  | riotCpu
  | temperature
  | value
  deriving DecidableEq

structure Resource where
  path : Bytes
  methods : List Method
  handler : Handler
  deriving DecidableEq

/-- `_resources`. -/
def resources : List Resource := [
  ⟨ascii "/riot/board", [.get], .riotBoard⟩,
  ⟨ascii "/riot/cpu", [.get], .riotCpu⟩,
  ⟨ascii "/temperature", [.get], .temperature⟩,
  ⟨ascii "/value", [.get, .put, .post], .value⟩]

/-- "Must be sorted by path (ASCII order)." -/
theorem resources_sorted : resources.Pairwise fun r r' => r.path < r'.path := by decide

/-- `coap_method2flag` of the code. -/
def methodOf : ℕ → Option Method
  | 1 => some .get
  | 2 => some .post
  | 3 => some .put
  | _ => none

/-- The entry with the path and the method of a request. -/
def lookup (m : Message) : Option (Resource × Method) :=
  (methodOf m.code).bind fun method =>
    (resources.find? fun r => r.path = node.uriPath m.segments ∧ method ∈ r.methods).map (·, method)

/-- One request; `temp` is what the sensor gives if it is read. -/
def serve : Step UInt16 (Message × Int16) (List Output × Reply) := fun value q =>
  match lookup node q.1 with
  | none => some (([], node.refuse q.1), value)
  | some (r, method) =>
    match r.handler with
    | .riotBoard => some (riotBoardHandler node, value)
    | .riotCpu => some (riotCpuHandler node, value)
    | .temperature => some (temperatureHandler node q.2, value)
    | .value => (valueInPacket node value ⟨method, q.1.payload⟩).map fun p => (([], p.1), p.2)

/-! ## The text of the temperature -/

/-- Hundredths of a degree, where a text is a numeral with two decimals. -/
def readUnsigned (s : Bytes) : Option ℕ :=
  match s.dropWhile isDigit with
  | point :: tenths :: hundredths :: unit =>
    if point = 46 ∧ isDigit tenths ∧ isDigit hundredths ∧ unit = DEGREES ∧
        s.takeWhile isDigit ≠ [] then
      some (digitsValue (s.takeWhile isDigit ++ [tenths, hundredths]))
    else none
  | _ => none

/-- The reading that a text denotes, white space and a sign in front of the numeral. -/
def readTemperature (t : Bytes) : Option ℤ :=
  let s := t.dropWhile (· = 32)
  if s.head? = some 45 then (readUnsigned s.tail).map fun n : ℕ => -(n : ℤ)
  else (readUnsigned s).map fun n : ℕ => (n : ℤ)

theorem decimal02_eq {n : ℕ} (h : n < 100) :
    decimal02 n = [digitByte (n / 10), digitByte (n % 10)] := by
  unfold decimal02
  split_ifs with hlt
  · rw [decimal_of_lt hlt, Nat.div_eq_of_lt hlt, Nat.mod_eq_of_lt hlt]
    rfl
  · rw [decimal_of_le (by omega), decimal_of_lt (by omega)]
    rfl

/-- A quotient and a rest are put together again. -/
theorem readUnsigned_decimal (n : ℕ) {rest : ℕ} (h : rest < 100) :
    readUnsigned (decimal n ++ 46 :: (decimal02 rest ++ DEGREES)) = some (100 * n + rest) := by
  have hpoint : isDigit 46 = false := rfl
  have htenths : rest / 10 < 10 := by omega
  have hhundredths : rest % 10 < 10 := by omega
  have hlast : decimal n ++ [digitByte (rest / 10), digitByte (rest % 10)] =
      decimal n ++ [digitByte (rest / 10)] ++ [digitByte (rest % 10)] := by simp
  have hvalue : digitsValue (decimal n ++ [digitByte (rest / 10), digitByte (rest % 10)]) =
      100 * n + rest := by
    rw [hlast, digitsValue_append_singleton, digitsValue_append_singleton, digitsValue_decimal,
      digitByte_toNat htenths, digitByte_toNat hhundredths]
    omega
  rw [readUnsigned, dropWhile_decimal n hpoint, takeWhile_decimal n hpoint, decimal02_eq h]
  simp [isDigit_digitByte htenths, isDigit_digitByte hhundredths, hvalue, decimal_ne_nil]

/-- A sign behind the point is no digit. -/
theorem readUnsigned_sign (n : ℕ) (r : Bytes) :
    readUnsigned (decimal n ++ 46 :: 45 :: r) = none := by
  have hpoint : isDigit 46 = false := rfl
  have hsign : isDigit 45 = false := rfl
  rw [readUnsigned, dropWhile_decimal n hpoint]
  cases r with
  | nil => rfl
  | cons c r => simp [hsign]

/-- The blank of a short numeral is skipped. -/
theorem dropWhile_integer2 (z : ℤ) (r : Bytes) :
    (integer2 z ++ r).dropWhile (· = 32) = signed z ++ r := by
  have hsigned : (signed z ++ r).dropWhile (· = 32) = signed z ++ r := by
    cases hd : signed z with
    | nil => exact absurd hd (signed_ne_nil z)
    | cons c cs =>
      have hc : c ≠ 32 := by
        intro h
        have hblank : (32 : UInt8) ∈ signed z := by simp [hd, h]
        exact notMem_signed (show (32 : UInt8) ≠ 45 ∧ isDigit 32 = false by decide) z hblank
      rw [List.cons_append, List.dropWhile_cons_of_neg (by simpa using hc)]
  unfold integer2
  split_ifs
  · rw [List.cons_append, List.dropWhile_cons_of_pos (by simp), hsigned]
  · exact hsigned

/-- A text without a sign in front. -/
theorem readTemperature_decimal (z : ℤ) (hz : 0 ≤ z) (r : Bytes) :
    readTemperature (integer2 z ++ r) =
      (readUnsigned (decimal z.natAbs ++ r)).map fun n : ℕ => (n : ℤ) := by
  have hhead : (decimal z.natAbs ++ r).head? ≠ some 45 := by
    cases hd : decimal z.natAbs with
    | nil => exact absurd hd (decimal_ne_nil _)
    | cons c cs =>
      have hc : isDigit c = true := isDigit_of_mem_decimal (n := z.natAbs) (by simp [hd])
      intro h
      obtain rfl := Option.some.inj h
      exact absurd hc (by decide)
  rw [readTemperature, dropWhile_integer2, signed_of_nonneg hz]
  exact if_neg hhead

theorem readTemperature_sign (z : ℤ) (hz : z < 0) (r : Bytes) :
    readTemperature (integer2 z ++ r) =
      (readUnsigned (decimal z.natAbs ++ r)).map fun n : ℕ => -(n : ℤ) := by
  rw [readTemperature, dropWhile_integer2, signed_of_neg hz]
  exact if_pos rfl

/-- `sprintf` writes the text and its terminator into the array. -/
theorem temperatureText_length (temp : Int16) : (temperatureText temp).length < responseSize := by
  have hlow := Int16.le_toInt temp
  have hhigh := Int16.toInt_lt temp
  have hquot : (signed (temp.toInt.tdiv 100)).length ≤ 3 + 1 :=
    signed_length_le (by omega) (by rw [Int.natAbs_tdiv]; change _ / 100 < _; omega)
  have hrest : (temp.toInt.tmod 100).natAbs < 10 ^ 2 := by
    rw [Int.natAbs_tmod]
    exact Nat.mod_lt _ (by decide)
  have hsigned : (signed (temp.toInt.tmod 100)).length ≤ 2 + 1 := signed_length_le (by omega) hrest
  have hinteger2 : (integer2 (temp.toInt.tdiv 100)).length ≤ 4 := by
    unfold integer2
    split_ifs with h
    · rw [List.length_cons]
      omega
    · exact hquot
  have hinteger02 : (integer02 (temp.toInt.tmod 100)).length ≤ 3 := by
    unfold integer02
    split_ifs with h
    · exact hsigned
    · rw [decimal02_eq (by omega)]
      exact Nat.le_succ 2
  have hunit : DEGREES.length = 3 := rfl
  simp only [temperatureText, responseSize, List.length_append, List.length_cons, hunit]
  omega

/-- The quotient and the rest of a reading below zero. -/
theorem tdiv_tmod_neg (n : ℕ) : (-(n : ℤ)).tdiv 100 = -((n / 100 : ℕ) : ℤ) ∧
    (-(n : ℤ)).tmod 100 = -((n % 100 : ℕ) : ℤ) := by
  constructor
  · rw [Int.neg_tdiv]
    rfl
  · rw [Int.neg_tmod]
    rfl

/-- The text stays in its array, and it denotes the reading exactly when that is not negative
or a whole number of degrees: the rest of a negative reading is printed with its own sign. -/
theorem readTemperature_text_iff (temp : Int16) :
    (temperatureText temp).length < responseSize ∧
      (readTemperature (temperatureText temp) = some temp.toInt ↔
        0 ≤ temp.toInt ∨ (100 : ℤ) ∣ temp.toInt) := by
  refine ⟨temperatureText_length temp, ?_⟩
  unfold temperatureText
  by_cases hz : 0 ≤ temp.toInt
  · have hparts := Int.mul_tdiv_add_tmod temp.toInt 100
    have hquot : 0 ≤ temp.toInt.tdiv 100 := Int.tdiv_nonneg hz (by decide)
    have hrest : 0 ≤ temp.toInt.tmod 100 := Int.tmod_nonneg 100 hz
    have hlt : temp.toInt.tmod 100 < 100 := Int.tmod_lt_of_pos _ (by decide)
    refine iff_of_true ?_ (Or.inl hz)
    rw [readTemperature_decimal _ hquot, integer02, if_neg (by omega),
      readUnsigned_decimal _ (by omega), Option.map_some]
    congr 1
    omega
  · obtain ⟨n, hn⟩ : ∃ n : ℕ, temp.toInt = -n := ⟨temp.toInt.natAbs, by omega⟩
    obtain ⟨hquot, hrest⟩ := tdiv_tmod_neg n
    rw [hn, hquot, hrest]
    by_cases hwhole : n % 100 = 0
    · have hneg : -((n / 100 : ℕ) : ℤ) < 0 := by omega
      have hzero : (0 : ℕ) < 100 := by decide
      refine iff_of_true ?_ (Or.inr (by omega))
      rw [readTemperature_sign _ hneg, hwhole, integer02, if_neg (by decide),
        show (-((0 : ℕ) : ℤ)).toNat = 0 from rfl, readUnsigned_decimal _ hzero, Option.map_some]
      congr 1
      omega
    · have hsign : integer02 (-((n % 100 : ℕ) : ℤ)) = 45 :: decimal (n % 100) := by
        rw [integer02, if_pos (by omega), signed_of_neg (by omega), Int.natAbs_neg,
          Int.natAbs_natCast]
      refine iff_of_false ?_ (by omega)
      rw [hsign, List.cons_append]
      by_cases hq : n / 100 = 0
      · rw [hq, readTemperature_decimal _ (by decide), readUnsigned_sign]
        simp
      · rw [readTemperature_sign _ (by omega), readUnsigned_sign]
        simp

theorem zero_notMem_temperatureText (temp : Int16) : 0 ∉ temperatureText temp := by
  have hsigned (z : ℤ) : 0 ∉ signed z := notMem_signed (by decide) z
  have hinteger2 (z : ℤ) : 0 ∉ integer2 z := by
    unfold integer2
    split_ifs
    · simp [hsigned]
    · exact hsigned z
  have hinteger02 (z : ℤ) : 0 ∉ integer02 z := by
    unfold integer02 decimal02
    split_ifs
    · exact hsigned z
    · simp [zero_notMem_decimal]
    · exact zero_notMem_decimal _
  simp [temperatureText, DEGREES, hinteger2, hinteger02]

/-! ## Requests -/

variable {node}

/-- Five digits fit wherever a response has room for them. -/
theorem valueInPacket_eq (h : 5 ≤ node.room) (value : UInt16) (r : Request) :
    valueInPacket node value r =
      some (.ofValue (valueHandler node.more value r).1, (valueHandler node.more value r).2) := by
  refine if_pos (le_trans ?_ h)
  have hempty (payload : Bytes) : (update node.more value payload).1.payload.length ≤ 5 := by
    unfold update
    split_ifs
    · exact Nat.zero_le 5
    · exact Nat.zero_le 5
  unfold valueHandler
  cases r.method with
  | get =>
    have hvalue := value.toNat_lt
    exact decimal_length_le (by decide) (by omega)
  | put => exact hempty r.payload
  | post => exact hempty r.payload

theorem ofValue_get (value : UInt16) (payload : Bytes) :
    Reply.ofValue (valueHandler node.more value ⟨.get, payload⟩).1 =
      .content (decimal value.toNat) := rfl

/-- Up to five bytes are taken for a number. -/
theorem ofValue_update (value : UInt16) {method : Method} (h : method ≠ .get) (payload : Bytes) :
    Reply.ofValue (valueHandler node.more value ⟨method, payload⟩).1 =
      if payload.length ≤ 5 then gcoapResponse 2 4 else gcoapResponse 4 0 := by
  have hupdate : Reply.ofValue (update node.more value payload).1 =
      if payload.length ≤ 5 then gcoapResponse 2 4 else gcoapResponse 4 0 := by
    unfold update
    split_ifs
    · rfl
    · rfl
  cases method with
  | get => exact absurd rfl h
  | put => exact hupdate
  | post => exact hupdate

/-- The text of a resource, unless it is the value. -/
def resourceText (node : Node) (temp : Int16) : Handler → Option Bytes
  | .riotBoard => some node.board
  | .riotCpu => some node.cpu
  | .temperature => some (temperatureText temp)
  | .value => none

theorem serve_text {m : Message} {r : Resource} {method : Method}
    (hlookup : lookup node m = some (r, method)) {temp : Int16} {text : Bytes}
    (htext : resourceText node temp r.handler = some text) (value : UInt16) : ∃ tooSmall,
      serve node value (m, temp) = some (textHandler tooSmall text node.room, value) ∧
        0 ∉ text := by
  simp only [serve, hlookup]
  cases hhandler : r.handler with
  | riotBoard =>
    rw [hhandler] at htext
    obtain rfl := Option.some.inj htext
    exact ⟨_, rfl, node.board_nul_free⟩
  | riotCpu =>
    rw [hhandler] at htext
    obtain rfl := Option.some.inj htext
    exact ⟨_, rfl, node.cpu_nul_free⟩
  | temperature =>
    rw [hhandler] at htext
    obtain rfl := Option.some.inj htext
    exact ⟨_, rfl, zero_notMem_temperatureText temp⟩
  | value =>
    rw [hhandler] at htext
    cases htext

theorem handler_of_resourceText {temp : Int16} {handler : Handler}
    (h : resourceText node temp handler = none) : handler = .value := by
  cases handler with
  | value => rfl
  | _ => cases h

/-- A request that puts `v` in the place of the value. -/
def Stores (node : Node) (m : Message) (v : UInt16) : Prop :=
  ∃ r method, lookup node m = some (r, method) ∧ r.handler = .value ∧ method ≠ .get ∧
    m.payload.length ≤ 5 ∧ v = (strtoul node.more (cString m.payload)).toUInt16

theorem serve_value (h : 5 ≤ node.room) {m : Message} {r : Resource} {method : Method}
    (hlookup : lookup node m = some (r, method)) (hvalue : r.handler = .value) (value : UInt16)
    (temp : Int16) : serve node value (m, temp) =
      some (([], .ofValue (valueHandler node.more value ⟨method, m.payload⟩).1),
        (valueHandler node.more value ⟨method, m.payload⟩).2) := by
  simp only [serve, hlookup, hvalue, valueInPacket_eq h, Option.map_some]

/-- The server answers every request, and only a request that stores changes the value. -/
theorem serve_spec (h : 5 ≤ node.room) (value : UInt16) (m : Message) (temp : Int16) :
    ∃ out reply value', serve node value (m, temp) = some ((out, reply), value') ∧
      (value' = value ∨ Stores node m value') := by
  cases hlookup : lookup node m with
  | none => exact ⟨[], node.refuse m, value, by rw [serve, hlookup], Or.inl rfl⟩
  | some p =>
    obtain ⟨r, method⟩ := p
    cases htext : resourceText node temp r.handler with
    | some text =>
      obtain ⟨_, hserve, -⟩ := serve_text hlookup htext value
      exact ⟨_, _, value, hserve, Or.inl rfl⟩
    | none =>
      have hhandler := handler_of_resourceText htext
      refine ⟨_, _, _, serve_value h hlookup hhandler value temp, ?_⟩
      by_cases hmethod : method = .get
      · rw [hmethod]
        exact Or.inl rfl
      · rw [valueHandler_update node.more ⟨value, []⟩ hmethod, update]
        split_ifs with hlen
        · exact Or.inr ⟨r, method, hlookup, hhandler, hmethod, hlen, rfl⟩
        · exact Or.inl rfl

end IotLabTraining.CoapServer
