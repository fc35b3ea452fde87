import IotLabTraining.CoapResource

/-!
# The resources with query values

The LEDs and the radio compare the value of a variable with the words that they know, by
`strncmp` up to the length of the value. So the beginning of a word is taken for it, and
also a word with a NUL and more bytes behind it. A value ends where its length says; there
is nothing behind it.
-/
namespace IotLabTraining.QueryResources
open Buffers
open CoapResource (TEXT_PLAIN APPLICATION_JSON)

variable {α : Type*}

/-- What the comparison takes for the word. -/
def Passes (word value : Bytes) : Prop := value ≠ [] ∧ (value <+: word ∨ word ++ [0] <+: value)

instance (word value : Bytes) : Decidable (Passes word value) := inferInstanceAs (Decidable (_ ∧ _))

/-- The words of a ladder of comparisons and what each stands for; none passes for
another. -/
structure Words (α : Type*) where
  entries : List (Bytes × α)
  nonempty : ∀ word ∈ entries.map Prod.fst, word ≠ []
  nulFree : ∀ word ∈ entries.map Prod.fst, 0 ∉ word
  apart : ∀ word ∈ entries.map Prod.fst, ∀ value ∈ entries.map Prod.fst,
    Passes word value → word = value

/-- `if(strncmp(value, word, len) == 0) .. else if ..`, for a value that is there. -/
def Words.ladder (words : Words α) (value : Bytes) : Option α :=
  if value.length ≠ 0 then
    (words.entries.find? fun w => strncmp value w.1 value.length = 0).map Prod.snd
  else none

/-- What a whole word stands for. -/
def Words.named (words : Words α) (value : Bytes) : Option α :=
  (words.entries.find? fun w => w.1 = value).map Prod.snd

/-- A value that is no word and passes for one. -/
def Words.Loose (words : Words α) (value : Bytes) : Prop :=
  value ∉ words.entries.map Prod.fst ∧ ∃ word ∈ words.entries.map Prod.fst, Passes word value

/-- What the resources take from Contiki: the getters, which return an empty value for a
variable that is not there, and the masks of the LEDs. -/
structure Contiki where
  COAP_MAX_CHUNK_SIZE : ℕ
  getQueryVariable : Bytes → Bytes → Bytes
  getPostVariable : Bytes → Bytes → Bytes
  LEDS_RED : UInt8
  LEDS_GREEN : UInt8
  LEDS_BLUE : UInt8
  chunk_le : 16 ≤ COAP_MAX_CHUNK_SIZE

inductive StatusCode where
  | badRequest400
  | notAcceptable406
  deriving DecidableEq

inductive LedAction where
  | on (leds : UInt8)
  | off (leds : UInt8)
  deriving DecidableEq

variable (contiki : Contiki)

def colors : Words UInt8 where
  entries := [(ascii "r", contiki.LEDS_RED), (ascii "g", contiki.LEDS_GREEN),
    (ascii "b", contiki.LEDS_BLUE)]
  nonempty := by
    change ∀ word ∈ [ascii "r", ascii "g", ascii "b"], word ≠ []
    decide
  nulFree := by
    change ∀ word ∈ [ascii "r", ascii "g", ascii "b"], 0 ∉ word
    decide
  apart := by
    change ∀ word ∈ [ascii "r", ascii "g", ascii "b"], ∀ value ∈ [ascii "r", ascii "g", ascii "b"],
      Passes word value → word = value
    decide

def modes : Words (UInt8 → LedAction) where
  entries := [(ascii "on", .on), (ascii "off", .off)]
  nonempty := by decide
  nulFree := by decide
  apart := by decide

def parameters : Words Unit where
  entries := [(ascii "rssi", ())]
  nonempty := by decide
  nulFree := by decide
  apart := by decide

/-- `res_post_put_handler` of `res-leds.c`: what is switched, and the status that is set. -/
def resPostPutHandler (query body : Bytes) : Option LedAction × Option StatusCode :=
  match (colors contiki).ladder (contiki.getQueryVariable query (ascii "color")) with
  | none => (none, some .badRequest400)
  | some led =>
    match modes.ladder (contiki.getPostVariable body (ascii "mode")) with
    | none => (none, some .badRequest400)
    | some switch => (some (switch led), none)

structure RadioResponse where
  statusCode : Option StatusCode := none
  contentFormat : Option UInt16 := none
  payload : Bytes := []
  deriving DecidableEq

def plainText (rssi : Int8) : Bytes := signed rssi.toInt

def jsonText (rssi : Int8) : Bytes := ascii "\x7b'rssi':" ++ signed rssi.toInt ++ ascii "\x7d"

/-- A text printed into the buffer and sent up to its terminator. -/
def printed (buffer : Buffer) (text : Bytes) : Bytes :=
  cString (window (snprintf buffer 0 contiki.COAP_MAX_CHUNK_SIZE text).1 0
    contiki.COAP_MAX_CHUNK_SIZE)

/-- `res_get_handler` of `res-radio.c`; `reading` is the value of `get_value`, unless it
fails. -/
def resGetHandler (query : Bytes) (accept : Option UInt16) (reading : Option Int32)
    (buffer : Buffer) : RadioResponse :=
  let rssi := (parameters.ladder (contiki.getQueryVariable query (ascii "p"))).bind fun _ =>
    reading.map Int32.toInt8
  match rssi with
  | some rssi =>
    if accept = none ∨ accept = some TEXT_PLAIN then
      { contentFormat := some TEXT_PLAIN, payload := printed contiki buffer (plainText rssi) }
    else if accept = some APPLICATION_JSON then
      { contentFormat := some APPLICATION_JSON, payload := printed contiki buffer (jsonText rssi) }
    else
      { statusCode := some .notAcceptable406
        payload := (ascii "Supporting content-types text/plain and application/json").take
          contiki.COAP_MAX_CHUNK_SIZE }
  | none => { statusCode := some .badRequest400 }

/-! ## The comparisons -/

namespace Words
variable (words : Words α) {value : Bytes}

/-- A value that is there compares equal to the words that it passes for. -/
theorem strncmp_iff_passes (hne : value ≠ []) {w : Bytes × α} (hw : w ∈ words.entries) :
    strncmp value w.1 value.length = 0 ↔ Passes w.1 value := by
  have hnul := words.nulFree w.1 (List.mem_map_of_mem hw)
  rw [strncmp_eq_zero_iff value hnul, Passes, and_iff_right hne]

theorem ladder_of_ne_nil (hne : value ≠ []) : words.ladder value =
    (words.entries.find? fun w => strncmp value w.1 value.length = 0).map Prod.snd :=
  if_pos (by simpa using hne)

/-- The ladder takes a value exactly when it passes for a word. -/
theorem ladder_isSome_iff : (words.ladder value).isSome = true ↔
    ∃ word ∈ words.entries.map Prod.fst, Passes word value := by
  by_cases hne : value = []
  · subst hne
    constructor
    · intro h
      cases h
    · intro h
      obtain ⟨word, -, hpass⟩ := h
      exact absurd rfl hpass.1
  · rw [words.ladder_of_ne_nil hne, Option.isSome_map, List.find?_isSome]
    constructor
    · intro h
      obtain ⟨w, hw, hcmp⟩ := h
      exact ⟨w.1, List.mem_map_of_mem hw,
        (words.strncmp_iff_passes hne hw).mp (of_decide_eq_true hcmp)⟩
    · intro h
      obtain ⟨word, hword, hpass⟩ := h
      obtain ⟨w, hw, rfl⟩ := List.mem_map.mp hword
      exact ⟨w, hw, decide_eq_true ((words.strncmp_iff_passes hne hw).mpr hpass)⟩

theorem named_isSome_iff : (words.named value).isSome = true ↔
    value ∈ words.entries.map Prod.fst := by
  rw [named, Option.isSome_map, List.find?_isSome, List.mem_map]
  simp

/-- A loose value is taken although it stands for nothing. -/
theorem Loose.ladder_isSome {words : Words α} (h : words.Loose value) :
    (words.ladder value).isSome = true := words.ladder_isSome_iff.mpr h.2

theorem Loose.named_eq_none {words : Words α} (h : words.Loose value) :
    words.named value = none := by
  rw [← Option.not_isSome_iff_eq_none, named_isSome_iff]
  exact h.1

/-- Any other value is taken for what it stands for. -/
theorem ladder_of_not_loose (h : ¬ words.Loose value) : words.ladder value = words.named value := by
  by_cases hne : value = []
  · subst hne
    have hnamed : words.named [] = none := by
      rw [← Option.not_isSome_iff_eq_none, named_isSome_iff]
      exact fun hmem => words.nonempty [] hmem rfl
    exact hnamed.symm
  · rw [words.ladder_of_ne_nil hne, named]
    congr 1
    apply List.find?_congr
    intro w hw
    rw [decide_eq_decide, words.strncmp_iff_passes hne hw]
    have hmem : w.1 ∈ words.entries.map Prod.fst := List.mem_map_of_mem hw
    constructor
    · intro hpass
      by_cases hvalue : value ∈ words.entries.map Prod.fst
      · exact words.apart w.1 hmem value hvalue hpass
      · exact absurd ⟨hvalue, w.1, hmem, hpass⟩ h
    · intro heq
      subst heq
      exact ⟨hne, Or.inl (List.prefix_refl _)⟩

/-- What is not taken stands for nothing. -/
theorem named_of_ladder_eq_none (h : words.ladder value = none) : words.named value = none := by
  have hloose : ¬ words.Loose value := by
    intro hloose
    have htaken := hloose.ladder_isSome
    rw [h] at htaken
    cases htaken
  rw [← words.ladder_of_not_loose hloose, h]

end Words

/-! ## The LEDs -/

section
variable (query body : Bytes)

def color : Bytes := contiki.getQueryVariable query (ascii "color")
def mode : Bytes := contiki.getPostVariable body (ascii "mode")

/-- An LED is switched for two listed words, the one of the color in the direction of the
mode, and every other request is a bad one. -/
structure LedsExact : Prop where
  switched : ∀ action, (resPostPutHandler contiki query body).1 = some action ↔
    ∃ led, (colors contiki).named (color contiki query) = some led ∧
      ∃ switch, modes.named (mode contiki body) = some switch ∧ action = switch led
  refused : (resPostPutHandler contiki query body).2 = some .badRequest400 ↔
    (resPostPutHandler contiki query body).1 = none

/-- If both values are taken, both are listed words. -/
def LedsWhole : Prop :=
  ((colors contiki).ladder (color contiki query)).isSome = true →
    (modes.ladder (mode contiki body)).isSome = true →
      ¬ (colors contiki).Loose (color contiki query) ∧ ¬ modes.Loose (mode contiki body)

end

variable {contiki} {query body : Bytes}

theorem switched_iff (action : LedAction) :
    (resPostPutHandler contiki query body).1 = some action ↔
      ∃ led, (colors contiki).ladder (color contiki query) = some led ∧
        ∃ switch, modes.ladder (mode contiki body) = some switch ∧ action = switch led := by
  unfold resPostPutHandler color mode
  cases (colors contiki).ladder (contiki.getQueryVariable query (ascii "color")) with
  | none => simp
  | some led =>
    cases modes.ladder (contiki.getPostVariable body (ascii "mode")) with
    | none => simp
    | some switch => simp [eq_comm]

theorem refused_iff : (resPostPutHandler contiki query body).2 = some .badRequest400 ↔
    (resPostPutHandler contiki query body).1 = none := by
  unfold resPostPutHandler
  split
  · exact iff_of_true rfl rfl
  · split
    · exact iff_of_true rfl rfl
    · simp

/-- The words are matched exactly, but for two values that are both taken although one of
them is no listed word. -/
theorem leds_exact_iff : LedsExact contiki query body ↔ LedsWhole contiki query body := by
  constructor
  · intro h hcolor hmode
    obtain ⟨led, hled⟩ := Option.isSome_iff_exists.mp hcolor
    obtain ⟨switch, hswitch⟩ := Option.isSome_iff_exists.mp hmode
    have hdone := (switched_iff (switch led)).mpr ⟨led, hled, switch, hswitch, rfl⟩
    obtain ⟨led', hled', switch', hswitch', -⟩ := (h.switched (switch led)).mp hdone
    constructor
    · intro hloose
      rw [hloose.named_eq_none] at hled'
      cases hled'
    · intro hloose
      rw [hloose.named_eq_none] at hswitch'
      cases hswitch'
  · intro h
    refine ⟨fun action => ?_, refused_iff⟩
    rw [switched_iff]
    cases hled : (colors contiki).ladder (color contiki query) with
    | none => simp [Words.named_of_ladder_eq_none _ hled]
    | some led =>
      cases hswitch : modes.ladder (mode contiki body) with
      | none => simp [Words.named_of_ladder_eq_none _ hswitch]
      | some switch =>
        obtain ⟨hcolor, hmode⟩ := h (by rw [hled]; rfl) (by rw [hswitch]; rfl)
        rw [← Words.ladder_of_not_loose _ hcolor, ← Words.ladder_of_not_loose _ hmode, hled,
          hswitch]

/-! ## The radio -/

section
variable (contiki) (query : Bytes) (accept : Option UInt16) (reading : Option Int32)

def parameter : Bytes := contiki.getQueryVariable query (ascii "p")

def Supported : Prop :=
  accept = none ∨ accept = some TEXT_PLAIN ∨ accept = some APPLICATION_JSON

instance : Decidable (Supported accept) := inferInstanceAs (Decidable (_ ∨ _))

/-- The response with a reading, in the format that is asked for. -/
def reported (rssi : Int8) : RadioResponse where
  contentFormat := some (accept.getD TEXT_PLAIN)
  payload := if accept = some APPLICATION_JSON then jsonText rssi else plainText rssi

def Reports (r : RadioResponse) : Prop :=
  ∃ value, reading = some value ∧ r = reported accept value.toInt8

/-- The reading is reported for the whole word and a format that is supported; for another
format the request is not acceptable, and without the word or the reading a bad one. -/
structure RadioExact (r : RadioResponse) : Prop where
  reports_iff : Reports accept reading r ↔
    (parameter contiki query = ascii "rssi" ∧ reading.isSome = true) ∧ Supported accept
  notAcceptable_iff : r.statusCode = some .notAcceptable406 ↔
    (parameter contiki query = ascii "rssi" ∧ reading.isSome = true) ∧ ¬ Supported accept
  badRequest_iff : r.statusCode = some .badRequest400 ↔
    ¬ (parameter contiki query = ascii "rssi" ∧ reading.isSome = true)

/-- If the value is taken and there is a reading, the value is the word. -/
def RadioWhole : Prop :=
  (parameters.ladder (parameter contiki query)).isSome = true → reading.isSome = true →
    ¬ parameters.Loose (parameter contiki query)

end

theorem printed_eq {text : Bytes} (hnul : 0 ∉ text) (hne : text ≠ []) (hlen : text.length < 16)
    (buffer : Buffer) : printed contiki buffer text = text := by
  have hchunk := contiki.chunk_le
  exact (cString_window_snprintf_eq_iff buffer _ hnul hne).mpr (by omega)

theorem signed_rssi_length_le (rssi : Int8) : (signed rssi.toInt).length ≤ 4 := by
  have hlow : -128 ≤ rssi.toInt := rssi.le_toInt
  have hhigh : rssi.toInt < 128 := rssi.toInt_lt
  exact signed_length_le (by decide : 0 < 3) (by omega)

theorem printed_plainText (rssi : Int8) (buffer : Buffer) :
    printed contiki buffer (plainText rssi) = plainText rssi := by
  have hlen := signed_rssi_length_le rssi
  unfold plainText
  apply printed_eq (notMem_signed (by decide) _) (signed_ne_nil _)
  omega

theorem printed_jsonText (rssi : Int8) (buffer : Buffer) :
    printed contiki buffer (jsonText rssi) = jsonText rssi := by
  have hlen := signed_rssi_length_le rssi
  have hopen : (ascii "\x7b'rssi':").length = 8 := rfl
  have hclose : (ascii "\x7d").length = 1 := rfl
  apply printed_eq
  · unfold jsonText
    rw [List.mem_append, List.mem_append, not_or, not_or]
    exact ⟨⟨by decide, notMem_signed (by decide) _⟩, by decide⟩
  · simp [jsonText, ascii]
  · rw [jsonText, List.length_append, List.length_append, hopen, hclose]
    omega

variable {accept : Option UInt16} {reading : Option Int32}

/-- The value is taken and the radio is read. -/
def Taken (contiki : Contiki) (query : Bytes) (reading : Option Int32) : Prop :=
  (parameters.ladder (parameter contiki query)).isSome = true ∧ reading.isSome = true

theorem resGetHandler_of_not_taken (h : ¬ Taken contiki query reading) (buffer : Buffer) :
    resGetHandler contiki query accept reading buffer = { statusCode := some .badRequest400 } := by
  have hnone : ((parameters.ladder (parameter contiki query)).bind fun _ =>
      reading.map Int32.toInt8) = none := by
    cases hladder : parameters.ladder (parameter contiki query) with
    | none => rfl
    | some _ =>
      cases reading with
      | none => rfl
      | some value => exact absurd ⟨by rw [hladder]; rfl, rfl⟩ h
  rw [resGetHandler, ← parameter, hnone]

theorem resGetHandler_of_taken {value : Int32} (h : Taken contiki query (some value))
    (buffer : Buffer) : resGetHandler contiki query accept (some value) buffer =
      if Supported accept then reported accept value.toInt8
      else
        { statusCode := some .notAcceptable406
          payload := (ascii "Supporting content-types text/plain and application/json").take
            contiki.COAP_MAX_CHUNK_SIZE } := by
  obtain ⟨u, hu⟩ := Option.isSome_iff_exists.mp h.1
  unfold parameter at hu
  simp only [resGetHandler, hu, Option.bind_some, Option.map_some, printed_plainText,
    printed_jsonText]
  by_cases hplain : accept = none ∨ accept = some TEXT_PLAIN
  · have hsupported : Supported accept := hplain.imp_right Or.inl
    rw [if_pos hplain, if_pos hsupported]
    obtain rfl | rfl := hplain
    · rfl
    · rfl
  · by_cases hjson : accept = some APPLICATION_JSON
    · have hsupported : Supported accept := Or.inr (Or.inr hjson)
      rw [if_neg hplain, if_pos hjson, if_pos hsupported]
      subst hjson
      rfl
    · have hsupported : ¬ Supported accept := by
        rintro (h | h | h)
        · exact hplain (Or.inl h)
        · exact hplain (Or.inr h)
        · exact hjson h
      rw [if_neg hplain, if_neg hjson, if_neg hsupported]

/-- What the handler answers, by what it takes for the word. -/
theorem radio_cases (buffer : Buffer) :
    (Reports accept reading (resGetHandler contiki query accept reading buffer) ↔
      Taken contiki query reading ∧ Supported accept) ∧
    ((resGetHandler contiki query accept reading buffer).statusCode = some .notAcceptable406 ↔
      Taken contiki query reading ∧ ¬ Supported accept) ∧
    ((resGetHandler contiki query accept reading buffer).statusCode = some .badRequest400 ↔
      ¬ Taken contiki query reading) := by
  by_cases htaken : Taken contiki query reading
  · obtain ⟨value, rfl⟩ := Option.isSome_iff_exists.mp htaken.2
    rw [resGetHandler_of_taken htaken]
    by_cases hsupported : Supported accept
    · simp [htaken, hsupported, Reports, reported]
    · simp [htaken, hsupported, Reports, reported]
  · rw [resGetHandler_of_not_taken htaken]
    simp [htaken, Reports, reported]

theorem ladder_rssi : (parameters.ladder (ascii "rssi")).isSome = true := by decide

theorem not_loose_rssi : ¬ parameters.Loose (ascii "rssi") := by
  intro h
  exact h.1 (List.mem_singleton.mpr rfl)

theorem eq_rssi_of_not_loose {value : Bytes} (h : (parameters.ladder value).isSome = true)
    (hloose : ¬ parameters.Loose value) : value = ascii "rssi" := by
  rw [parameters.ladder_of_not_loose hloose, Words.named_isSome_iff] at h
  exact List.mem_singleton.mp h

theorem taken_iff (h : RadioWhole contiki query reading) : Taken contiki query reading ↔
    parameter contiki query = ascii "rssi" ∧ reading.isSome = true := by
  constructor
  · intro htaken
    exact ⟨eq_rssi_of_not_loose htaken.1 (h htaken.1 htaken.2), htaken.2⟩
  · intro hword
    refine ⟨?_, hword.2⟩
    rw [hword.1]
    exact ladder_rssi

/-- The word is matched exactly, but for a reading reported for another value that is
taken. -/
theorem radio_exact_iff (buffer : Buffer) :
    RadioExact contiki query accept reading
      (resGetHandler contiki query accept reading buffer) ↔ RadioWhole contiki query reading := by
  obtain ⟨hreports, hnotAcceptable, hbadRequest⟩ :=
    @radio_cases contiki query accept reading buffer
  constructor
  · intro h hvalue hreading
    have hword := not_iff_not.mp (hbadRequest.symm.trans h.badRequest_iff)
    rw [(hword.mp ⟨hvalue, hreading⟩).1]
    exact not_loose_rssi
  · intro h
    rw [taken_iff h] at hreports hnotAcceptable hbadRequest
    exact ⟨hreports, hnotAcceptable, hbadRequest⟩

/-- Unless a value that is no listed word is taken for one, the LEDs and the radio match
whole words. -/
theorem query_values_matched (contiki : Contiki) (query body : Bytes) (accept : Option UInt16)
    (reading : Option Int32) (buffer : Buffer) :
    (LedsWhole contiki query body → LedsExact contiki query body) ∧
      (RadioWhole contiki query reading → RadioExact contiki query accept reading
        (resGetHandler contiki query accept reading buffer)) :=
  ⟨leds_exact_iff.mpr, (radio_exact_iff buffer).mpr⟩

/-- The value behind `name=`, up to the next `&`. -/
def getVariable (text name : Bytes) : Bytes :=
  (((text.splitOn 38).find? fun part => name ++ [61] <+: part).map
    fun part => part.drop (name.length + 1)).getD []

def exampleContiki : Contiki where
  COAP_MAX_CHUNK_SIZE := 64
  getQueryVariable := getVariable
  getPostVariable := getVariable
  LEDS_RED := 1
  LEDS_GREEN := 2
  LEDS_BLUE := 4
  chunk_le := by decide

theorem whole_words_matched :
    LedsExact exampleContiki (ascii "color=g") (ascii "mode=off") ∧
      RadioExact exampleContiki (ascii "p=rssi") (some APPLICATION_JSON) (some (-71))
        (resGetHandler exampleContiki (ascii "p=rssi") (some APPLICATION_JSON) (some (-71))
          fun _ => 0) := by
  obtain ⟨hleds, -⟩ := query_values_matched exampleContiki (ascii "color=g") (ascii "mode=off")
    none none fun _ => 0
  obtain ⟨-, hradio⟩ := query_values_matched exampleContiki (ascii "p=rssi") []
    (some APPLICATION_JSON) (some (-71)) fun _ => 0
  refine ⟨hleds fun _ _ => ⟨fun h => h.1 ?_, fun h => h.1 ?_⟩, hradio fun _ _ h => h.1 ?_⟩
  · decide
  · decide
  · decide

/-- The beginning of a word switches an LED, and a reading in another format is not
acceptable. -/
theorem beginning_switches_led :
    ¬ LedsExact exampleContiki (ascii "color=r") (ascii "mode=o") ∧
      ¬ (Reports (some 41) (some (-71)) (resGetHandler exampleContiki (ascii "p=rssi") (some 41)
          (some (-71)) fun _ => 0) ↔
        parameter exampleContiki (ascii "p=rssi") = ascii "rssi" ∧
          (some (-71 : Int32)).isSome = true) := by
  constructor
  · intro h
    have hnone : (modes.named (mode exampleContiki (ascii "mode=o"))).isSome = false := by decide
    obtain ⟨-, -, switch, hswitch, -⟩ := (h.switched (.on 1)).mp (by decide)
    rw [hswitch] at hnone
    cases hnone
  · intro h
    have hnone : (resGetHandler exampleContiki (ascii "p=rssi") (some 41) (some (-71))
        fun _ => 0).contentFormat = none := by decide
    obtain ⟨value, -, hr⟩ := h.mpr ⟨by decide, rfl⟩
    rw [hr] at hnone
    cases hnone

end IotLabTraining.QueryResources
