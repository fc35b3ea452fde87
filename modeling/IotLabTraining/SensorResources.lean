import IotLabTraining.CoapResource
import IotLabTraining.Xml

/-!
# The sensor resources

Temperature, battery, light and SHT11: each handler prints its reading as a text, as
XML or as JSON. A response is correct when a reader of the announced format gets the
reading out of it, scaled as the handler documents.
-/
namespace IotLabTraining.SensorResources
open Buffers CoapResource

def MAX_AGE : ℕ := 60

/-- The texts that a handler prints for a reading, and its answer to other formats. -/
structure Representations where
  plain : Bytes
  xml : Option Bytes
  json : Bytes
  message : Bytes
  maxAge : Option ℕ

def Representations.text (rep : Representations) (format : UInt16) : Option Bytes :=
  if format = TEXT_PLAIN then some rep.plain
  else if format = APPLICATION_XML then rep.xml
  else if format = APPLICATION_JSON then some rep.json
  else none

/-- `res_get_handler` of the four resources; without the option the format is text. The setter
of the payload keeps to the size of a chunk. -/
def resGetHandler (COAP_MAX_CHUNK_SIZE : ℕ) (rep : Representations) (accept : Option UInt16)
    (buffer : Buffer) (offset : ℤ) : Response :=
  let format := accept.getD TEXT_PLAIN
  match rep.text format with
  | some text =>
    let printed := (snprintf buffer 0 COAP_MAX_CHUNK_SIZE text).1
    { contentFormat := some format
      maxAge := rep.maxAge
      payload := cString (window printed 0 COAP_MAX_CHUNK_SIZE)
      buffer := printed
      offset := offset }
  | none =>
    { statusCode := some .notAcceptable
      maxAge := rep.maxAge
      payload := rep.message.take COAP_MAX_CHUNK_SIZE
      buffer := buffer
      offset := offset }

def twoFormats : Bytes := ascii "Supporting content-types text/plain and application/json"

def threeFormats : Bytes :=
  ascii "Supporting content-types text/plain, application/xml, and application/json"

/-- A value stored in a `uint16_t`. -/
def toUint16 (z : ℤ) : ℕ := (z % 65536).toNat

/-- `res-temperature.c`. -/
def resTemperature (temperature : Int32) : Representations where
  plain := signed temperature.toInt
  xml := none
  json := ascii "\x7b'temperature':" ++ signed temperature.toInt ++ ascii "\x7d"
  message := twoFormats
  maxAge := some MAX_AGE

/-- `res-battery.c`. -/
def resBattery (battery : Int32) : Representations where
  plain := signed battery.toInt
  xml := none
  json := ascii "\x7b'battery':" ++ signed battery.toInt ++ ascii "\x7d"
  message := twoFormats
  maxAge := none

/-- `light_sensor.value(0) / LIGHT_SENSOR_VALUE_SCALE`. -/
def scaledLight (LIGHT_SENSOR_VALUE_SCALE : ℤ) (light : Int32) : ℤ :=
  light.toInt.tdiv LIGHT_SENSOR_VALUE_SCALE

/-- `res-light.c`. -/
def resLight (LIGHT_SENSOR_VALUE_SCALE : ℤ) (light : Int32) : Representations :=
  let lightAmbient := decimal (toUint16 (scaledLight LIGHT_SENSOR_VALUE_SCALE light))
  { plain := lightAmbient
    xml := some (ascii "<light ambient=\"" ++ lightAmbient ++ ascii "\"/>")
    json := ascii "\x7b'light':\x7b'ambient':" ++ lightAmbient ++ ascii "\x7d\x7d"
    message := threeFormats
    maxAge := none }

/-- `res-sht11.c`. -/
def resSht11 (sht11Temp sht11Humidity : Int32) : Representations :=
  let temperature := decimal (toUint16 ((sht11Temp.toInt.tdiv 10 - 396).tdiv 10))
  let rh := decimal (toUint16 sht11Humidity.toInt)
  { plain := temperature ++ ascii ";" ++ rh
    xml := some (ascii "<Temperature =\"" ++ temperature ++ ascii "\" Humidity=\"" ++ rh ++
      ascii "\"/>")
    json := ascii "\x7b'Sht11':\x7b'Temperature':" ++ temperature ++ ascii ",'Humidity':" ++ rh ++
      ascii "\x7d\x7d"
    message := threeFormats
    maxAge := none }

/-! ## What a response says -/

mutual

/-- The numbers in a JSON value. -/
def numbers : Json.Value → List ℚ
  | .num m e => [(m : ℚ) * 10 ^ e]
  | .arr l => elementNumbers l
  | .obj l => memberNumbers l
  | _ => []

def elementNumbers : List Json.Value → List ℚ
  | [] => []
  | v :: l => numbers v ++ elementNumbers l

def memberNumbers : List (Bytes × Json.Value) → List ℚ
  | [] => []
  | m :: l => numbers m.2 ++ memberNumbers l

end

/-- The numbers that a reader of the format gets; a text has numerals with semicolons
between them. -/
def numbersOf (format : UInt16) (payload : Bytes) : Option (List ℚ) :=
  if format = TEXT_PLAIN then
    ((payload.splitOn 59).mapM readInt).map fun l => l.map fun z : ℤ => (z : ℚ)
  else if format = APPLICATION_XML then
    (Xml.parse payload).bind fun d =>
      (d.2.mapM fun a => readInt a.2).map fun l => l.map fun z : ℤ => (z : ℚ)
  else if format = APPLICATION_JSON then (Json.parse false payload).map numbers
  else none

/-- A reading of a driver. -/
inductive Reading where
  | temperature (value : Int32)
  | battery (value : Int32)
  | light (value : Int32)
  | sht11 (temperature humidity : Int32)

variable (LIGHT_SENSOR_VALUE_SCALE : ℤ)

def Reading.representations : Reading → Representations
  | .temperature value => resTemperature value
  | .battery value => resBattery value
  | .light value => resLight LIGHT_SENSOR_VALUE_SCALE value
  | .sht11 t h => resSht11 t h

def Reading.supports : Reading → UInt16 → Bool
  | .temperature _, format => format = TEXT_PLAIN || format = APPLICATION_JSON
  | .battery _, format => format = TEXT_PLAIN || format = APPLICATION_JSON
  | .light _, format =>
    format = TEXT_PLAIN || format = APPLICATION_XML || format = APPLICATION_JSON
  | .sht11 _ _, format =>
    format = TEXT_PLAIN || format = APPLICATION_XML || format = APPLICATION_JSON

/-- The numbers are the reading as the handler documents it. For the SHT11 that is
T = -39.60 + 0.01*t and RH = -4 + 0.0405*h - 2.8e-6*(h*h), up to what an integer cannot
show. -/
def Reading.Agrees : Reading → List ℚ → Prop
  | .temperature value, ns => ns = [(value.toInt : ℚ)]
  | .battery value, ns => ns = [(value.toInt : ℚ)]
  | .light value, ns => ns = [(scaledLight LIGHT_SENSOR_VALUE_SCALE value : ℚ)]
  | .sht11 t h, ns => ∃ temperature rh : ℚ, ns = [temperature, rh] ∧
    |temperature - (-39.6 + 0.01 * t.toInt)| < 1 ∧
    |rh - (-4 + 0.0405 * h.toInt - 0.0000028 * (h.toInt * h.toInt))| < 1

/-- A response is a whole document of the format that it announces, with the numbers of the
reading; a format that is not supported is not acceptable. -/
def Correct (reading : Reading) (format : UInt16) (r : Response) : Prop :=
  if reading.supports format then
    r.statusCode = none ∧ r.contentFormat = some format ∧
      (reading.representations LIGHT_SENSOR_VALUE_SCALE).text format = some r.payload ∧
      ∃ ns, numbersOf format r.payload = some ns ∧ reading.Agrees LIGHT_SENSOR_VALUE_SCALE ns
  else r.statusCode = some .notAcceptable

/-- The formats that work: a temperature or a battery level as text, and light as text or
XML when the scaled value is in the range of `uint16_t`, with room for the numeral. -/
def Reading.Works (COAP_MAX_CHUNK_SIZE : ℕ) : Reading → UInt16 → Prop
  | .temperature value, format =>
    format = TEXT_PLAIN ∧ (signed value.toInt).length < COAP_MAX_CHUNK_SIZE
  | .battery value, format =>
    format = TEXT_PLAIN ∧ (signed value.toInt).length < COAP_MAX_CHUNK_SIZE
  | .light value, format =>
    let scaled := scaledLight LIGHT_SENSOR_VALUE_SCALE value
    0 ≤ scaled ∧ scaled < 65536 ∧
      ((format = TEXT_PLAIN ∧ (signed scaled).length < COAP_MAX_CHUNK_SIZE) ∨
        (format = APPLICATION_XML ∧ (signed scaled).length + 19 < COAP_MAX_CHUNK_SIZE))
  | .sht11 _ _, _ => False

variable {LIGHT_SENSOR_VALUE_SCALE}

/-! ## Readers -/

theorem mapM_readInt (zs : List ℤ) : (zs.map signed).mapM readInt = some zs := by
  induction zs with
  | nil => rfl
  | cons z zs ih =>
    rw [List.map_cons, List.mapM_cons, readInt_signed, ih]
    rfl

/-- Numerals with semicolons between them are read back. -/
theorem numbersOf_plain (zs : List ℤ) (hne : zs ≠ []) :
    numbersOf TEXT_PLAIN ([59].intercalate (zs.map signed)) =
      some (zs.map fun z : ℤ => (z : ℚ)) := by
  have hfree : ∀ l ∈ zs.map signed, 59 ∉ l := by
    intro l hl
    obtain ⟨z, -, rfl⟩ := List.mem_map.mp hl
    exact notMem_signed (by decide) z
  rw [numbersOf, if_pos rfl, List.splitOn_intercalate 59 hfree (by simpa using hne), mapM_readInt,
    Option.map_some]

theorem numbersOf_xml {name attr : Bytes} (hname : Xml.IsName name) (hattr : Xml.IsName attr)
    (z : ℤ) : numbersOf APPLICATION_XML (Xml.tagText name [(attr, signed z)]) = some [(z : ℚ)] := by
  have hvalue : Xml.IsValue (signed z) :=
    ⟨notMem_signed (by decide) z, notMem_signed (by decide) z, notMem_signed (by decide) z⟩
  have hall : ∀ a ∈ [(attr, signed z)], Xml.IsName a.1 ∧ Xml.IsValue a.2 := by
    simpa using ⟨hattr, hvalue⟩
  have hparse := Xml.parse_tagText hname hall (by simp)
  rw [numbersOf, if_neg (by decide), if_pos rfl, hparse, Option.bind_some]
  simp [readInt_signed]

/-- Names in single quotes are no JSON. -/
theorem numbersOf_json (t : Bytes) : numbersOf APPLICATION_JSON (123 :: 39 :: t) = none := by
  rw [numbersOf, if_neg (by decide), if_neg (by decide), if_pos rfl, Json.parse_single_quote,
    Option.map_none]

/-! ## Which responses are correct -/

section
variable (COAP_MAX_CHUNK_SIZE : ℕ) {reading : Reading} {accept : Option UInt16} {text : Bytes}
  (buffer : Buffer) (offset : ℤ)

theorem resGetHandler_text {rep : Representations}
    (htext : rep.text (accept.getD TEXT_PLAIN) = some text) :
    ∃ printed, resGetHandler COAP_MAX_CHUNK_SIZE rep accept buffer offset =
      { contentFormat := some (accept.getD TEXT_PLAIN)
        maxAge := rep.maxAge
        payload := cString (window (snprintf buffer 0 COAP_MAX_CHUNK_SIZE text).1 0
          COAP_MAX_CHUNK_SIZE)
        buffer := printed
        offset := offset } := by
  unfold resGetHandler
  dsimp only
  rw [htext]
  exact ⟨_, rfl⟩

theorem text_isSome (reading : Reading) (format : UInt16) :
    ((reading.representations LIGHT_SENSOR_VALUE_SCALE).text format).isSome =
      reading.supports format := by
  have htextXml : TEXT_PLAIN ≠ APPLICATION_XML := by decide
  have hxmlJson : APPLICATION_XML ≠ APPLICATION_JSON := by decide
  cases reading
  all_goals
    simp only [Reading.representations, Representations.text, Reading.supports, resTemperature,
      resBattery, resLight, resSht11]
    split_ifs
    all_goals simp_all

/-- A document that is printed as a whole and read back. -/
theorem correct_iff_of_read (hsupports : reading.supports (accept.getD TEXT_PLAIN) = true)
    (htext : (reading.representations LIGHT_SENSOR_VALUE_SCALE).text (accept.getD TEXT_PLAIN) =
      some text) (hnul : 0 ∉ text) (hne : text ≠ []) {ns : List ℚ}
    (hread : numbersOf (accept.getD TEXT_PLAIN) text = some ns) :
    Correct LIGHT_SENSOR_VALUE_SCALE reading (accept.getD TEXT_PLAIN)
      (resGetHandler COAP_MAX_CHUNK_SIZE (reading.representations LIGHT_SENSOR_VALUE_SCALE) accept
        buffer offset) ↔
      text.length < COAP_MAX_CHUNK_SIZE ∧ reading.Agrees LIGHT_SENSOR_VALUE_SCALE ns := by
  obtain ⟨printed, hr⟩ := resGetHandler_text COAP_MAX_CHUNK_SIZE buffer offset htext
  have hfits := cString_window_snprintf_eq_iff buffer COAP_MAX_CHUNK_SIZE hnul hne
  rw [Correct, if_pos hsupports, hr, htext, ← hfits]
  constructor
  · rintro ⟨-, -, hpayload, ns', hns', hagrees⟩
    have hwhole := Option.some.inj hpayload
    rw [← hwhole, hread] at hns'
    exact ⟨hwhole.symm, Option.some.inj hns' ▸ hagrees⟩
  · rintro ⟨hwhole, hagrees⟩
    exact ⟨rfl, rfl, congrArg some hwhole.symm, ns, by rw [hwhole, hread], hagrees⟩

/-- A document that no reader accepts, or that says something else. -/
theorem not_correct_of_read {format : UInt16} (hsupports : reading.supports format = true)
    (htext : (reading.representations LIGHT_SENSOR_VALUE_SCALE).text format = some text)
    (hread : ∀ ns, numbersOf format text = some ns →
      ¬ reading.Agrees LIGHT_SENSOR_VALUE_SCALE ns) (r : Response) :
    ¬ Correct LIGHT_SENSOR_VALUE_SCALE reading format r := by
  intro h
  rw [Correct, if_pos hsupports] at h
  obtain ⟨-, -, hpayload, ns, hns, hagrees⟩ := h
  obtain rfl := Option.some.inj (htext.symm.trans hpayload)
  exact hread ns hns hagrees

/-- A format that the handler does not have is refused. -/
theorem correct_of_not_supports (hsupports : reading.supports (accept.getD TEXT_PLAIN) = false) :
    Correct LIGHT_SENSOR_VALUE_SCALE reading (accept.getD TEXT_PLAIN)
      (resGetHandler COAP_MAX_CHUNK_SIZE (reading.representations LIGHT_SENSOR_VALUE_SCALE) accept
        buffer offset) := by
  have htext : (reading.representations LIGHT_SENSOR_VALUE_SCALE).text (accept.getD TEXT_PLAIN) =
      none := by
    rw [← Option.not_isSome_iff_eq_none, text_isSome, hsupports]
    exact Bool.false_ne_true
  rw [Correct, if_neg (by simp [hsupports]), resGetHandler]
  dsimp only
  rw [htext]

end

/-- The humidity that is printed is never the documented one. -/
theorem humidity_not_scaled (h : ℤ) :
    ¬ |((toUint16 h : ℕ) : ℚ) - (-4 + 0.0405 * h - 0.0000028 * (h * h))| < 1 := by
  have hmod : (toUint16 h : ℤ) = h % 65536 := by
    unfold toUint16
    omega
  have hnonneg : (0 : ℚ) ≤ (toUint16 h : ℕ) := Nat.cast_nonneg _
  have hsquare := mul_self_nonneg (h : ℚ)
  have hfar : (4 : ℚ) ≤ (toUint16 h : ℕ) - (-4 + 0.0405 * h - 0.0000028 * (h * h)) := by
    rcases lt_or_ge h 0 with hneg | hpos
    · have hneg' : (h : ℚ) < 0 := Int.cast_lt_zero.mpr hneg
      linarith
    · rcases lt_or_ge h 65536 with hlt | hge
      · have heq : ((toUint16 h : ℕ) : ℚ) = h := by
          have hint : (toUint16 h : ℤ) = h := by omega
          exact_mod_cast hint
        have hpos' : (0 : ℚ) ≤ h := Int.cast_nonneg hpos
        rw [heq]
        linarith
      · have hge' : (65536 : ℚ) ≤ h := by exact_mod_cast hge
        have hgrow := mul_le_mul_of_nonneg_right hge' (by linarith : (0 : ℚ) ≤ h)
        linarith
  intro hnear
  have habs := le_abs_self ((toUint16 h : ℕ) - (-4 + 0.0405 * (h : ℚ) - 0.0000028 * (h * h)))
  linarith

section
variable (COAP_MAX_CHUNK_SIZE : ℕ) (accept : Option UInt16) (buffer : Buffer) (offset : ℤ)

/-- No reading is correct as JSON. -/
theorem not_correct_json {reading : Reading} (r : Response) :
    ¬ Correct LIGHT_SENSOR_VALUE_SCALE reading APPLICATION_JSON r := by
  have hsupports : reading.supports APPLICATION_JSON = true := by
    cases reading
    all_goals rfl
  obtain ⟨t, ht⟩ : ∃ t, (reading.representations LIGHT_SENSOR_VALUE_SCALE).text
      APPLICATION_JSON = some (123 :: 39 :: t) := by
    cases reading
    all_goals exact ⟨_, rfl⟩
  refine not_correct_of_read hsupports ht (fun ns hns => ?_) r
  rw [numbersOf_json] at hns
  cases hns

theorem correct_signed_iff {reading : Reading} {value : ℤ}
    (hformat : accept.getD TEXT_PLAIN = TEXT_PLAIN)
    (hsupports : reading.supports TEXT_PLAIN = true)
    (htext : (reading.representations LIGHT_SENSOR_VALUE_SCALE).text TEXT_PLAIN =
      some (signed value)) :
    Correct LIGHT_SENSOR_VALUE_SCALE reading (accept.getD TEXT_PLAIN)
      (resGetHandler COAP_MAX_CHUNK_SIZE (reading.representations LIGHT_SENSOR_VALUE_SCALE) accept
        buffer offset) ↔
      (signed value).length < COAP_MAX_CHUNK_SIZE ∧
        reading.Agrees LIGHT_SENSOR_VALUE_SCALE [(value : ℚ)] := by
  have hread := numbersOf_plain [value] (by simp)
  refine correct_iff_of_read COAP_MAX_CHUNK_SIZE buffer offset (by rw [hformat, hsupports])
    (by rw [hformat, htext]) (notMem_signed (by decide) value) (signed_ne_nil value) ?_
  rw [hformat]
  simpa using hread

/-- A reading that is printed as it is, as text or as JSON. -/
theorem correct_unscaled_iff {reading : Reading} {value : ℤ}
    (hsupports : reading.supports (accept.getD TEXT_PLAIN) = true)
    (hformats : ∀ format, reading.supports format =
      (decide (format = TEXT_PLAIN) || decide (format = APPLICATION_JSON)))
    (htext : (reading.representations LIGHT_SENSOR_VALUE_SCALE).text TEXT_PLAIN =
      some (signed value))
    (hagrees : reading.Agrees LIGHT_SENSOR_VALUE_SCALE [(value : ℚ)]) :
    Correct LIGHT_SENSOR_VALUE_SCALE reading (accept.getD TEXT_PLAIN)
      (resGetHandler COAP_MAX_CHUNK_SIZE (reading.representations LIGHT_SENSOR_VALUE_SCALE) accept
        buffer offset) ↔
      accept.getD TEXT_PLAIN = TEXT_PLAIN ∧ (signed value).length < COAP_MAX_CHUNK_SIZE := by
  have hformat : accept.getD TEXT_PLAIN = TEXT_PLAIN ∨
      accept.getD TEXT_PLAIN = APPLICATION_JSON := by
    simpa [hformats] using hsupports
  rcases hformat with hformat | hformat
  · rw [correct_signed_iff COAP_MAX_CHUNK_SIZE accept buffer offset hformat
      (by rw [hformats]; rfl) htext]
    exact ⟨fun h => ⟨hformat, h.1⟩, fun h => ⟨h.2, hagrees⟩⟩
  · rw [hformat]
    exact iff_of_false (not_correct_json _) fun h => absurd h.1 (by decide)

theorem toUint16_eq_iff (z : ℤ) : ((toUint16 z : ℕ) : ℚ) = z ↔ 0 ≤ z ∧ z < 65536 := by
  have hcast : ((toUint16 z : ℕ) : ℚ) = z ↔ (toUint16 z : ℤ) = z := by
    exact_mod_cast Iff.rfl
  rw [hcast, toUint16]
  omega

theorem toUint16_eq {z : ℤ} (h : 0 ≤ z ∧ z < 65536) : (toUint16 z : ℤ) = z := by
  unfold toUint16
  omega

/-- The reading that the light handler prints. -/
theorem light_agrees_iff (value : Int32) :
    (Reading.light value).Agrees LIGHT_SENSOR_VALUE_SCALE
        [((toUint16 (scaledLight LIGHT_SENSOR_VALUE_SCALE value) : ℤ) : ℚ)] ↔
      0 ≤ scaledLight LIGHT_SENSOR_VALUE_SCALE value ∧
        scaledLight LIGHT_SENSOR_VALUE_SCALE value < 65536 := by
  rw [← toUint16_eq_iff, Reading.Agrees, List.cons.injEq, Int.cast_natCast]
  exact and_iff_left rfl

theorem correct_light_iff {format : UInt16} {value : Int32} (overhead : ℕ) {text : Bytes}
    (hformat : accept.getD TEXT_PLAIN = format)
    (hsupports : (Reading.light value).supports format = true)
    (htext : (resLight LIGHT_SENSOR_VALUE_SCALE value).text format = some text)
    (hnul : 0 ∉ text)
    (hlen : text.length = (signed (toUint16 (scaledLight LIGHT_SENSOR_VALUE_SCALE value))).length +
      overhead)
    (hread : numbersOf format text =
      some [((toUint16 (scaledLight LIGHT_SENSOR_VALUE_SCALE value) : ℤ) : ℚ)]) :
    Correct LIGHT_SENSOR_VALUE_SCALE (.light value) (accept.getD TEXT_PLAIN)
      (resGetHandler COAP_MAX_CHUNK_SIZE (resLight LIGHT_SENSOR_VALUE_SCALE value) accept
        buffer offset) ↔
      0 ≤ scaledLight LIGHT_SENSOR_VALUE_SCALE value ∧
        scaledLight LIGHT_SENSOR_VALUE_SCALE value < 65536 ∧
          (signed (scaledLight LIGHT_SENSOR_VALUE_SCALE value)).length + overhead <
            COAP_MAX_CHUNK_SIZE := by
  have hpos := List.length_pos_of_ne_nil
    (signed_ne_nil (toUint16 (scaledLight LIGHT_SENSOR_VALUE_SCALE value)))
  have hne : text ≠ [] := List.ne_nil_of_length_pos (by omega)
  subst hformat
  have hiff := correct_iff_of_read COAP_MAX_CHUNK_SIZE buffer offset hsupports htext hnul hne hread
  rw [light_agrees_iff, hlen] at hiff
  refine hiff.trans ⟨?_, ?_⟩
  · rintro ⟨hroom, hrange⟩
    rw [toUint16_eq hrange] at hroom
    exact ⟨hrange.1, hrange.2, hroom⟩
  · rintro ⟨hlow, hhigh, hroom⟩
    rw [toUint16_eq ⟨hlow, hhigh⟩]
    exact ⟨hroom, hlow, hhigh⟩

/-- The light as text, and as XML. -/
theorem correct_light_plain_iff (value : Int32) (hformat : accept.getD TEXT_PLAIN = TEXT_PLAIN) :
    Correct LIGHT_SENSOR_VALUE_SCALE (.light value) (accept.getD TEXT_PLAIN)
      (resGetHandler COAP_MAX_CHUNK_SIZE (resLight LIGHT_SENSOR_VALUE_SCALE value) accept
        buffer offset) ↔
      0 ≤ scaledLight LIGHT_SENSOR_VALUE_SCALE value ∧
        scaledLight LIGHT_SENSOR_VALUE_SCALE value < 65536 ∧
          (signed (scaledLight LIGHT_SENSOR_VALUE_SCALE value)).length < COAP_MAX_CHUNK_SIZE := by
  have hread := numbersOf_plain [(toUint16 (scaledLight LIGHT_SENSOR_VALUE_SCALE value) : ℤ)]
    (by simp)
  refine correct_light_iff COAP_MAX_CHUNK_SIZE accept buffer offset 0 hformat rfl
    (congrArg some (signed_natCast _).symm) (notMem_signed (by decide) _) rfl ?_
  simpa using hread

theorem correct_light_xml_iff (value : Int32) (hformat : accept.getD TEXT_PLAIN = APPLICATION_XML) :
    Correct LIGHT_SENSOR_VALUE_SCALE (.light value) (accept.getD TEXT_PLAIN)
      (resGetHandler COAP_MAX_CHUNK_SIZE (resLight LIGHT_SENSOR_VALUE_SCALE value) accept
        buffer offset) ↔
      0 ≤ scaledLight LIGHT_SENSOR_VALUE_SCALE value ∧
        scaledLight LIGHT_SENSOR_VALUE_SCALE value < 65536 ∧
          (signed (scaledLight LIGHT_SENSOR_VALUE_SCALE value)).length + 19 <
            COAP_MAX_CHUNK_SIZE := by
  have htag (z : ℤ) : ascii "<light ambient=\"" ++ signed z ++ ascii "\"/>" =
      Xml.tagText (ascii "light") [(ascii "ambient", signed z)] := by
    simp [Xml.tagText, Xml.attributeText]
    rfl
  have htext : (resLight LIGHT_SENSOR_VALUE_SCALE value).text APPLICATION_XML =
      some (Xml.tagText (ascii "light") [(ascii "ambient",
        signed (toUint16 (scaledLight LIGHT_SENSOR_VALUE_SCALE value) : ℤ))]) := by
    rw [← htag, signed_natCast]
    rfl
  refine correct_light_iff COAP_MAX_CHUNK_SIZE accept buffer offset 19 hformat rfl
    htext ?_ ?_ (numbersOf_xml (by decide) (by decide) _)
  · rw [← htag, List.mem_append, List.mem_append]
    rintro ((hfront | hnumeral) | hback)
    · exact absurd hfront (by decide)
    · exact notMem_signed (by decide) _ hnumeral
    · exact absurd hback (by decide)
  · have hfront : (ascii "<light ambient=\"").length = 16 := rfl
    have hback : (ascii "\"/>").length = 3 := rfl
    rw [← htag, List.length_append, List.length_append, hfront, hback]
    omega

/-- The text of the SHT11 is read, with the humidity as the driver returns it. -/
theorem not_correct_sht11_plain (t h : Int32) (r : Response) :
    ¬ Correct LIGHT_SENSOR_VALUE_SCALE (.sht11 t h) TEXT_PLAIN r := by
  let printed : List ℤ := [toUint16 ((t.toInt.tdiv 10 - 396).tdiv 10), toUint16 h.toInt]
  have htext : (resSht11 t h).text TEXT_PLAIN = some ([59].intercalate (printed.map signed)) := by
    rw [Representations.text, if_pos rfl, List.map_cons, List.map_cons, List.map_nil,
      List.intercalate_cons_cons, List.intercalate_singleton]
    rfl
  refine not_correct_of_read (by rfl) (by exact htext) (fun ns hns => ?_) r
  rw [numbersOf_plain printed (List.cons_ne_nil _ _)] at hns
  rintro ⟨temperature, rh, hnumbers, -, hhumidity⟩
  have hrh : rh = (toUint16 h.toInt : ℕ) := by
    rw [← Option.some.inj hns, List.map_cons, List.map_cons, List.map_nil] at hnumbers
    injection hnumbers with _ htail
    injection htail with hhead
    rw [← hhead, Int.cast_natCast]
  rw [hrh] at hhumidity
  exact humidity_not_scaled h.toInt hhumidity

/-- In its XML the first attribute has no name. -/
theorem not_correct_sht11_xml (t h : Int32) (r : Response) :
    ¬ Correct LIGHT_SENSOR_VALUE_SCALE (.sht11 t h) APPLICATION_XML r := by
  obtain ⟨rest, htext⟩ : ∃ rest, (resSht11 t h).text APPLICATION_XML =
      some (60 :: (ascii "Temperature" ++ 32 :: 61 :: rest)) := ⟨_, rfl⟩
  refine not_correct_of_read (by rfl) (by exact htext) (fun ns hns => ?_) r
  rw [numbersOf, if_neg (by decide), if_pos rfl, Xml.parse_nameless (by decide),
    Option.bind_none] at hns
  cases hns

/-- The SHT11 is not right in any format. -/
theorem not_correct_sht11 {t h : Int32} {format : UInt16}
    (hsupports : (Reading.sht11 t h).supports format = true) (r : Response) :
    ¬ Correct LIGHT_SENSOR_VALUE_SCALE (.sht11 t h) format r := by
  have hformats : format = TEXT_PLAIN ∨ format = APPLICATION_XML ∨ format = APPLICATION_JSON := by
    simpa [Reading.supports, or_assoc] using hsupports
  rcases hformats with rfl | rfl | rfl
  · exact not_correct_sht11_plain t h r
  · exact not_correct_sht11_xml t h r
  · exact not_correct_json r

theorem correct_light_works_iff {value : Int32}
    (hsupports : (Reading.light value).supports (accept.getD TEXT_PLAIN) = true) :
    Correct LIGHT_SENSOR_VALUE_SCALE (.light value) (accept.getD TEXT_PLAIN)
      (resGetHandler COAP_MAX_CHUNK_SIZE (resLight LIGHT_SENSOR_VALUE_SCALE value) accept
        buffer offset) ↔
      (Reading.light value).Works LIGHT_SENSOR_VALUE_SCALE COAP_MAX_CHUNK_SIZE
        (accept.getD TEXT_PLAIN) := by
  have hformats : accept.getD TEXT_PLAIN = TEXT_PLAIN ∨ accept.getD TEXT_PLAIN = APPLICATION_XML ∨
      accept.getD TEXT_PLAIN = APPLICATION_JSON := by
    simpa [Reading.supports, or_assoc] using hsupports
  have htextXml : TEXT_PLAIN ≠ APPLICATION_XML := by decide
  have hxmlJson : APPLICATION_XML ≠ APPLICATION_JSON := by decide
  have htextJson : TEXT_PLAIN ≠ APPLICATION_JSON := by decide
  rcases hformats with hformat | hformat | hformat
  · rw [correct_light_plain_iff COAP_MAX_CHUNK_SIZE accept buffer offset value hformat]
    simp [Reading.Works, hformat, htextXml]
  · rw [correct_light_xml_iff COAP_MAX_CHUNK_SIZE accept buffer offset value hformat]
    simp [Reading.Works, hformat, htextXml.symm]
  · rw [hformat]
    refine iff_of_false (not_correct_json _) ?_
    simp [Reading.Works, htextJson.symm, hxmlJson.symm]

/-- A response is correct exactly when the format is not supported, and refused, or is one of
those that work for the reading. -/
theorem sensor_correct_iff (LIGHT_SENSOR_VALUE_SCALE : ℤ) (COAP_MAX_CHUNK_SIZE : ℕ)
    (reading : Reading) (accept : Option UInt16) (buffer : Buffer) (offset : ℤ) :
    Correct LIGHT_SENSOR_VALUE_SCALE reading (accept.getD TEXT_PLAIN)
      (resGetHandler COAP_MAX_CHUNK_SIZE (reading.representations LIGHT_SENSOR_VALUE_SCALE) accept
        buffer offset) ↔
      reading.supports (accept.getD TEXT_PLAIN) = false ∨
        reading.Works LIGHT_SENSOR_VALUE_SCALE COAP_MAX_CHUNK_SIZE (accept.getD TEXT_PLAIN) := by
  by_cases hsupports : reading.supports (accept.getD TEXT_PLAIN) = false
  · exact ⟨fun _ => Or.inl hsupports, fun _ => correct_of_not_supports _ buffer offset hsupports⟩
  · have htrue := Bool.eq_true_of_not_eq_false hsupports
    rw [or_iff_right hsupports]
    cases reading with
    | temperature value =>
      exact correct_unscaled_iff COAP_MAX_CHUNK_SIZE accept buffer offset htrue
        (fun _ => rfl) rfl rfl
    | battery value =>
      exact correct_unscaled_iff COAP_MAX_CHUNK_SIZE accept buffer offset htrue
        (fun _ => rfl) rfl rfl
    | light value => exact correct_light_works_iff COAP_MAX_CHUNK_SIZE accept buffer offset htrue
    | sht11 t h => exact iff_of_false (not_correct_sht11 htrue _) id

/-- Single quotes are no JSON. -/
theorem temperature_json_not_read :
    ¬ ∀ (reading : Reading) (accept : Option UInt16) (buffer : Buffer),
      Correct 10 reading (accept.getD TEXT_PLAIN)
        (resGetHandler 64 (reading.representations 10) accept buffer 0) := by
  intro h
  exact not_correct_json _ (h (.temperature 21) (some APPLICATION_JSON) fun _ => 0)

end

/-! ## The accelerometer -/

/-- `res-accel.c` with the body of the notebook. -/
def resAccel (x y z : Int32) : Representations where
  plain := signed x.toInt ++ ascii ";" ++ signed y.toInt ++ ascii ";" ++ signed z.toInt
  xml := some (ascii "<accelerometer x=\"" ++ signed x.toInt ++ ascii "\" y=\"" ++
    signed y.toInt ++ ascii "\" z=\"" ++ signed z.toInt ++ ascii "\"/>")
  json := ascii "\x7b'accelerometer':\x7b'x':" ++ signed x.toInt ++ ascii ",'y':" ++
    signed y.toInt ++ ascii ",'z':" ++ signed z.toInt ++ ascii "\x7d\x7d"
  message := threeFormats
  maxAge := none

/-- The response is a whole document of the format that was asked for, with the three values. -/
structure TellsAccel (x y z : Int32) (format : UInt16) (r : Response) : Prop where
  statusCode_eq : r.statusCode = none
  contentFormat_eq : r.contentFormat = some format
  whole : (resAccel x y z).text format = some r.payload
  numbers_eq : numbersOf format r.payload =
    some [(x.toInt : ℚ), (y.toInt : ℚ), (z.toInt : ℚ)]

/-- The characters of the three numerals. -/
def accelLength (x y z : Int32) : ℕ :=
  (signed x.toInt).length + (signed y.toInt).length + (signed z.toInt).length

theorem accel_plain_eq (x y z : Int32) :
    (resAccel x y z).plain = [59].intercalate ([x.toInt, y.toInt, z.toInt].map signed) := by
  have hsemicolon : ascii ";" = [59] := rfl
  simp only [resAccel, hsemicolon, List.map_cons, List.map_nil, List.intercalate_cons_cons,
    List.intercalate_singleton, List.append_assoc]

/-- The attributes of the XML document. -/
def accelAttributes (x y z : Int32) : List (Bytes × Bytes) :=
  [(ascii "x", signed x.toInt), (ascii "y", signed y.toInt), (ascii "z", signed z.toInt)]

theorem accel_xml_eq (x y z : Int32) : (resAccel x y z).xml =
    some (Xml.tagText (ascii "accelerometer") (accelAttributes x y z)) := by
  simp [resAccel, accelAttributes, Xml.tagText, Xml.attributeText, ascii]

theorem numbersOf_accel_plain (x y z : Int32) : numbersOf TEXT_PLAIN (resAccel x y z).plain =
    some [(x.toInt : ℚ), (y.toInt : ℚ), (z.toInt : ℚ)] := by
  rw [accel_plain_eq]
  exact numbersOf_plain _ (List.cons_ne_nil _ _)

theorem numbersOf_accel_xml (x y z : Int32) :
    numbersOf APPLICATION_XML (Xml.tagText (ascii "accelerometer") (accelAttributes x y z)) =
      some [(x.toInt : ℚ), (y.toInt : ℚ), (z.toInt : ℚ)] := by
  have hvalue (w : ℤ) : Xml.IsValue (signed w) :=
    ⟨notMem_signed (by decide) w, notMem_signed (by decide) w, notMem_signed (by decide) w⟩
  have hall : ∀ a ∈ accelAttributes x y z, Xml.IsName a.1 ∧ Xml.IsValue a.2 := by
    simp only [accelAttributes, List.forall_mem_cons, hvalue, and_true]
    exact ⟨by decide, by decide, by decide, by simp⟩
  have hparse := Xml.parse_tagText (by decide : Xml.IsName (ascii "accelerometer")) hall
    (by simp [accelAttributes]; decide)
  rw [numbersOf, if_neg (by decide), if_pos rfl, hparse, Option.bind_some]
  simp [accelAttributes, readInt_signed]

section
variable (COAP_MAX_CHUNK_SIZE : ℕ) (accept : Option UInt16) (buffer : Buffer) (offset : ℤ)

/-- A document that is read back is told if it fits with its terminator. -/
theorem tellsAccel_iff_of_read {x y z : Int32} {text : Bytes}
    (htext : (resAccel x y z).text (accept.getD TEXT_PLAIN) = some text) (hnul : 0 ∉ text)
    (hne : text ≠ []) (hread : numbersOf (accept.getD TEXT_PLAIN) text =
      some [(x.toInt : ℚ), (y.toInt : ℚ), (z.toInt : ℚ)]) :
    TellsAccel x y z (accept.getD TEXT_PLAIN)
      (resGetHandler COAP_MAX_CHUNK_SIZE (resAccel x y z) accept buffer offset) ↔
      text.length < COAP_MAX_CHUNK_SIZE := by
  obtain ⟨printed, hr⟩ := resGetHandler_text COAP_MAX_CHUNK_SIZE buffer offset htext
  rw [hr, ← cString_window_snprintf_eq_iff buffer COAP_MAX_CHUNK_SIZE hnul hne]
  constructor
  · intro h
    have hwhole := h.whole
    rw [htext] at hwhole
    exact (Option.some.inj hwhole).symm
  · intro hwhole
    exact ⟨rfl, rfl, htext.trans (congrArg some hwhole.symm), by rw [hwhole, hread]⟩

theorem tellsAccel_plain_iff (x y z : Int32) (hformat : accept.getD TEXT_PLAIN = TEXT_PLAIN) :
    TellsAccel x y z (accept.getD TEXT_PLAIN)
      (resGetHandler COAP_MAX_CHUNK_SIZE (resAccel x y z) accept buffer offset) ↔
      accelLength x y z + 2 < COAP_MAX_CHUNK_SIZE := by
  have htext : (resAccel x y z).text (accept.getD TEXT_PLAIN) = some (resAccel x y z).plain := by
    rw [hformat]
    rfl
  have hsemicolon : (ascii ";").length = 1 ∧ 0 ∉ ascii ";" := by decide
  have hnumeral (w : ℤ) : 0 ∉ signed w := notMem_signed (by decide) w
  have hlen : (resAccel x y z).plain.length = accelLength x y z + 2 := by
    simp only [resAccel, List.length_append, hsemicolon, accelLength]
    omega
  have hnul : 0 ∉ (resAccel x y z).plain := by
    simp only [resAccel, List.mem_append, hnumeral, hsemicolon, or_self, not_false_eq_true]
  rw [← hlen]
  refine tellsAccel_iff_of_read COAP_MAX_CHUNK_SIZE accept buffer offset htext hnul
    (List.ne_nil_of_length_pos (by omega)) ?_
  rw [hformat]
  exact numbersOf_accel_plain x y z

theorem tellsAccel_xml_iff (x y z : Int32) (hformat : accept.getD TEXT_PLAIN = APPLICATION_XML) :
    TellsAccel x y z (accept.getD TEXT_PLAIN)
      (resGetHandler COAP_MAX_CHUNK_SIZE (resAccel x y z) accept buffer offset) ↔
      accelLength x y z + 31 < COAP_MAX_CHUNK_SIZE := by
  have htext : (resAccel x y z).text (accept.getD TEXT_PLAIN) =
      some (Xml.tagText (ascii "accelerometer") (accelAttributes x y z)) := by
    rw [hformat]
    exact accel_xml_eq x y z
  have hnames : 0 ∉ ascii "accelerometer" ∧ 0 ∉ ascii "x" ∧ 0 ∉ ascii "y" ∧ 0 ∉ ascii "z" := by
    decide
  have hlengths : (ascii "accelerometer").length = 13 ∧ (ascii "x").length = 1 ∧
      (ascii "y").length = 1 ∧ (ascii "z").length = 1 := by
    decide
  have hnumeral (w : ℤ) : 0 ∉ signed w := notMem_signed (by decide) w
  have hlen : (Xml.tagText (ascii "accelerometer") (accelAttributes x y z)).length =
      accelLength x y z + 31 := by
    simp only [Xml.tagText, Xml.attributeText, accelAttributes, List.flatMap_cons,
      List.flatMap_nil, List.length_cons, List.length_append, List.length_nil, hlengths,
      accelLength]
    omega
  have hnul : 0 ∉ Xml.tagText (ascii "accelerometer") (accelAttributes x y z) := by
    simp [Xml.tagText, Xml.attributeText, accelAttributes, hnames, hnumeral]
  rw [← hlen]
  refine tellsAccel_iff_of_read COAP_MAX_CHUNK_SIZE accept buffer offset htext hnul
    (List.ne_nil_of_length_pos (by omega)) ?_
  rw [hformat]
  exact numbersOf_accel_xml x y z

/-- JSON with single quotes is not read, and other formats are refused. -/
theorem not_tellsAccel {x y z : Int32} {format : UInt16} (hplain : format ≠ TEXT_PLAIN)
    (hxml : format ≠ APPLICATION_XML) (r : Response) : ¬ TellsAccel x y z format r := by
  intro h
  have hwhole := h.whole
  have hread := h.numbers_eq
  rw [Representations.text, if_neg hplain, if_neg hxml] at hwhole
  split_ifs at hwhole with hjson
  obtain ⟨rest, hrest⟩ : ∃ rest, (resAccel x y z).json = 123 :: 39 :: rest := ⟨_, rfl⟩
  rw [← Option.some.inj hwhole, hrest, hjson, numbersOf_json] at hread
  cases hread

/-- Whatever the accelerometer reads and whatever is asked for, the response tells the three
values exactly if text or XML is asked for and the document fits into the chunk. -/
theorem accel_tells_iff (x y z : Int32) : TellsAccel x y z (accept.getD TEXT_PLAIN)
      (resGetHandler COAP_MAX_CHUNK_SIZE (resAccel x y z) accept buffer offset) ↔
    (accept.getD TEXT_PLAIN = TEXT_PLAIN ∧ accelLength x y z + 2 < COAP_MAX_CHUNK_SIZE) ∨
    (accept.getD TEXT_PLAIN = APPLICATION_XML ∧
      accelLength x y z + 31 < COAP_MAX_CHUNK_SIZE) := by
  have htextXml : TEXT_PLAIN ≠ APPLICATION_XML := by decide
  by_cases hplain : accept.getD TEXT_PLAIN = TEXT_PLAIN
  · rw [tellsAccel_plain_iff COAP_MAX_CHUNK_SIZE accept buffer offset x y z hplain]
    simp [hplain, htextXml]
  · by_cases hxml : accept.getD TEXT_PLAIN = APPLICATION_XML
    · rw [tellsAccel_xml_iff COAP_MAX_CHUNK_SIZE accept buffer offset x y z hxml]
      simp [hxml, htextXml.symm]
    · refine iff_of_false (not_tellsAccel hplain hxml _) ?_
      simp [hplain, hxml]

/-- The longest XML has one character too many for a chunk of 64. -/
example : ¬ accelLength Int32.minValue Int32.minValue Int32.minValue + 31 < 64 := by decide

end

end IotLabTraining.SensorResources
