import IotLabTraining.Appends
import IotLabTraining.EventResources

/-!
# The mirror resource

`/debug/mirror` prints the options, the token and the payload of a request into the
buffer of its response. An option is tested for room before it is printed, the bytes of
the token and of the ETag are not. A request is what the getters return for it: they
give the length of a string or an array, which is zero where there is none. No position
leaves the range of an `int`.
-/
namespace IotLabTraining.MirrorResource
open Appends Buffers CoapResource
open EventResources (toUlong)

/-- The size of the buffer, which has one more byte, and the widths of `size_t` and
`unsigned long`. -/
structure Platform where
  REST_MAX_CHUNK_SIZE : ℕ
  sizeBits : ℕ
  ulongBits : ℕ
  pos : 0 < REST_MAX_CHUNK_SIZE
  lt : REST_MAX_CHUNK_SIZE + 1 < 2 ^ sizeBits

structure Block where
  num : UInt32
  more : UInt8
  size : UInt16

structure Request where
  contentFormat : Option UInt16 := none
  accept : Option UInt16 := none
  maxAge : Option UInt32 := none
  size1 : Option UInt32 := none
  uriHost : Bytes := []
  uriPath : Bytes := []
  uriQuery : Bytes := []
  locationPath : Bytes := []
  locationQuery : Bytes := []
  token : Bytes := []
  observe : Option Int32 := none
  etag : Option Bytes := none
  block2 : Option Block := none
  block1 : Option Block := none
  payload : Bytes := []

/-- What is printed under one test: texts as they are, or a string between two of them,
which `%.*s` prints up to its first NUL. -/
inductive Part where
  | plain (texts : List Bytes)
  | string (label value rest : Bytes)

def Part.texts (render : Bytes → Bytes) : Part → List Bytes
  | .plain texts => texts
  | .string label value rest => [label ++ render value ++ rest]

def number (label : String) (n : Option ℕ) : List Part :=
  n.toList.map fun n => .plain [ascii label ++ decimal n ++ ascii "\n"]

def string (label : String) (value rest : Bytes) : List Part :=
  if value = [] then [] else [.string (ascii label) value rest]

/-- The loop over a token or an ETag, with what is printed around it. -/
def hexBytes (label : String) (b : Bytes) : Part :=
  .plain (ascii label :: b.map hex2 ++ [ascii "\n"])

def block (label : String) (b : Option Block) : List Part :=
  b.toList.map fun b => .plain [ascii label ++ decimal b.num.toNat ++
    (if b.more ≠ 0 then ascii "+" else []) ++ ascii " (" ++ decimal b.size.toNat ++ ascii ")\n"]

namespace Request
variable (req : Request)

def options : List Part :=
  number "CF " (req.contentFormat.map UInt16.toNat) ++ number "Ac " (req.accept.map UInt16.toNat) ++
    number "MA " (req.maxAge.map UInt32.toNat) ++ number "SZ " (req.size1.map UInt32.toNat) ++
    string "UH " req.uriHost (ascii "\n") ++ string "UP " req.uriPath (ascii "\n") ++
    string "UQ " req.uriQuery (ascii "\n") ++ string "LP " req.locationPath (ascii "\n") ++
    string "LQ " req.locationQuery (ascii "\n")

def tokenPart : List Part := if req.token = [] then [] else [hexBytes "To 0x" req.token]

def observePart (ulongBits : ℕ) : List Part := number "Ob " (req.observe.map (toUlong ulongBits))

def etagPart : List Part := req.etag.toList.map (hexBytes "ET 0x")

def blocksAndPayload : List Part :=
  block "B2 " req.block2 ++ block "B1 " req.block1 ++ string "" req.payload []

/-- Everything that is mirrored, in the order of the handler. -/
def parts (ulongBits : ℕ) : List Part :=
  req.options ++ req.tokenPart ++ req.observePart ulongBits ++ req.etagPart ++ req.blocksAndPayload

end Request

/-- A response with the headers that this handler sets besides. -/
structure MirrorResponse extends Response where
  etag : Bytes
  locationPath : Bytes
  size1 : ℕ
  uriHost : Bytes
  observe : ℕ
  proxyUri : Bytes
  block2 : Block
  block1 : Block
  accept : UInt16
  ifNoneMatch : Bool

variable (platform : Platform) (req : Request) (buffer : Buffer)

/-- The buffer and the position behind all calls of `snprintf`; the source does not test the
position for the first option, which is at 0. -/
def mirrored : Printer :=
  appendGroups platform.REST_MAX_CHUNK_SIZE platform.sizeBits (start buffer)
    ((req.parts platform.ulongBits).map (Part.texts cString))

/-- The buffer with the mark for a text that was cut. -/
def marked : Buffer :=
  let p := mirrored platform req buffer
  if platform.REST_MAX_CHUNK_SIZE ≤ p.pos then
    store p.buffer (platform.REST_MAX_CHUNK_SIZE - 1) [0xBB]
  else p.buffer

/-- `res_any_handler`; the setter of the payload keeps to the size of the buffer. -/
def resAnyHandler (offset : ℤ) : MirrorResponse where
  contentFormat := some TEXT_PLAIN
  maxAge := some 17
  payload := window (marked platform req buffer) 0
    (min platform.REST_MAX_CHUNK_SIZE (mirrored platform req buffer).pos)
  buffer := marked platform req buffer
  offset := offset
  etag := [0x0A, 0xBC]
  locationPath := ascii "/f/a?k&e"
  size1 := (mirrored platform req buffer).pos
  uriHost := ascii "tiki"
  observe := 10
  proxyUri := ascii "ftp://x"
  block2 := ⟨42, 0, 64⟩
  block1 := ⟨23, 0, 16⟩
  accept := TEXT_PLAIN
  ifNoneMatch := true

/-! ## Room for the bytes of the token and the ETag -/

/-- What a reader gets to see of parts: their texts one behind the other. -/
def text (render : Bytes → Bytes) (ps : List Part) : Bytes :=
  (ps.map (Part.texts render)).flatten.flatten

/-- The text of the calls, and the request as it was decoded. -/
def printedText : Bytes := text cString (req.parts platform.ulongBits)
def decodedText : Bytes := text id (req.parts platform.ulongBits)

/-- Bytes printed behind `before` others leave the line end inside the buffer, unless
they are not begun. -/
def HexFits (before : ℕ) (b : Bytes) : Prop :=
  before ≤ platform.REST_MAX_CHUNK_SIZE → before + 5 + 2 * b.length ≤ platform.REST_MAX_CHUNK_SIZE

/-- There is room for the token and for the ETag where they are begun. -/
structure Roomy : Prop where
  token : req.token ≠ [] → HexFits platform (text cString req.options).length req.token
  etag : ∀ e, req.etag = some e → HexFits platform (text cString
    (req.options ++ req.tokenPart ++ req.observePart platform.ulongBits)).length e

/-- Every call of `snprintf` is made inside the buffer with a size of at least one, and
what lies behind the buffer stays. -/
structure StaysInside : Prop where
  calls : ∀ c ∈ (mirrored platform req buffer).calls,
    c.pos ≤ platform.REST_MAX_CHUNK_SIZE ∧ 1 ≤ c.size
  behind : ∀ offset, ∀ i > platform.REST_MAX_CHUNK_SIZE,
    (resAnyHandler platform req buffer offset).buffer i = buffer i

variable {platform req buffer}

theorem forall_number {P : Part → Prop} {label : String}
    (h : ∀ n, P (.plain [ascii label ++ decimal n ++ ascii "\n"])) (n : Option ℕ) :
    ∀ p ∈ number label n, P p := by
  intro p hp
  obtain ⟨n, -, rfl⟩ := List.mem_map.mp hp
  exact h n

theorem forall_string {P : Part → Prop} {label : String} {value rest : Bytes}
    (h : P (.string (ascii label) value rest)) : ∀ p ∈ string label value rest, P p := by
  intro p hp
  unfold string at hp
  split_ifs at hp
  · cases hp
  · obtain rfl := List.mem_singleton.mp hp
    exact h

/-- Parts that are printed with one call each. -/
def Lines (ps : List Part) : Prop := ∀ p ∈ ps, ∀ render, ∃ t, p.texts render = [t]

theorem lines_append {ps qs : List Part} (hp : Lines ps) (hq : Lines qs) : Lines (ps ++ qs) :=
  List.forall_mem_append.mpr ⟨hp, hq⟩

theorem lines_number (label : String) (n : Option ℕ) : Lines (number label n) :=
  forall_number (fun _ _ => ⟨_, rfl⟩) n

theorem lines_string (label : String) (value rest : Bytes) : Lines (string label value rest) :=
  forall_string fun _ => ⟨_, rfl⟩

theorem lines_block (label : String) (b : Option Block) : Lines (block label b) := by
  intro p hp render
  obtain ⟨b, -, rfl⟩ := List.mem_map.mp hp
  exact ⟨_, rfl⟩

theorem lines_options (req : Request) : Lines req.options := by
  unfold Request.options
  repeat' apply lines_append
  all_goals first | apply lines_number | apply lines_string

theorem lines_blocksAndPayload (req : Request) : Lines req.blocksAndPayload :=
  lines_append (lines_append (lines_block _ _) (lines_block _ _)) (lines_string _ _ _)

theorem room_of_lines {ps : List Part} (h : Lines ps) (render : Bytes → Bytes) (max pos : ℕ) :
    Room max pos (ps.map (Part.texts render)) := by
  apply room_of_singletons
  intro g hg
  obtain ⟨p, hp, rfl⟩ := List.mem_map.mp hg
  exact h p hp render

/-- The last text of a line of bytes begins behind the label and the digits. -/
theorem hexBytes_front {label : String} (hlabel : (ascii label).length = 5) (b : Bytes)
    (render : Bytes → Bytes) :
    ((hexBytes label b).texts render).dropLast.flatten.length = 5 + 2 * b.length := by
  rw [hexBytes, Part.texts, List.dropLast_concat, List.flatten_cons, List.length_append, hlabel,
    ← List.flatMap_def, flatMap_hex2_length]

theorem room_hexBytes {label : String} (hlabel : (ascii label).length = 5) (b : Bytes)
    (render : Bytes → Bytes) (pos : ℕ) :
    Room platform.REST_MAX_CHUNK_SIZE pos [(hexBytes label b).texts render] ↔
      HexFits platform pos b := by
  rw [room_cons_iff, and_iff_left (Room.nil _), hexBytes_front hlabel, HexFits, Nat.add_assoc]

theorem room_tokenPart (req : Request) (pos : ℕ) :
    Room platform.REST_MAX_CHUNK_SIZE pos (req.tokenPart.map (Part.texts cString)) ↔
      (req.token ≠ [] → HexFits platform pos req.token) := by
  unfold Request.tokenPart
  by_cases h : req.token = []
  · rw [if_pos h]
    exact iff_of_true (Room.nil pos) fun hne => absurd h hne
  · rw [if_neg h, imp_iff_right h]
    exact room_hexBytes (by decide) req.token cString pos

theorem room_etagPart (req : Request) (pos : ℕ) :
    Room platform.REST_MAX_CHUNK_SIZE pos (req.etagPart.map (Part.texts cString)) ↔
      ∀ e, req.etag = some e → HexFits platform pos e := by
  unfold Request.etagPart
  cases req.etag with
  | none => exact iff_of_true (Room.nil pos) fun e he => by cases he
  | some e =>
    simp only [Option.some.injEq, forall_eq']
    exact room_hexBytes (by decide) e cString pos

theorem room_parts_append (render : Bytes → Bytes) (max pos : ℕ) (ps qs : List Part) :
    Room max pos ((ps ++ qs).map (Part.texts render)) ↔
      Room max pos (ps.map (Part.texts render)) ∧
        Room max (pos + (text render ps).length) (qs.map (Part.texts render)) := by
  rw [List.map_append, room_append, text]

theorem room_parts_iff : Room platform.REST_MAX_CHUNK_SIZE 0
    ((req.parts platform.ulongBits).map (Part.texts cString)) ↔ Roomy platform req := by
  have hoptions := room_of_lines (lines_options req) cString platform.REST_MAX_CHUNK_SIZE
  have hnumber : Lines (req.observePart platform.ulongBits) := lines_number _ _
  have hobserve := room_of_lines hnumber cString platform.REST_MAX_CHUNK_SIZE
  have hrest := room_of_lines (lines_blocksAndPayload req) cString platform.REST_MAX_CHUNK_SIZE
  simp only [Request.parts, room_parts_append, hoptions, hobserve, hrest, true_and, and_true,
    room_tokenPart, room_etagPart, Nat.zero_add]
  constructor
  · intro h
    exact ⟨h.1, h.2⟩
  · intro h
    exact ⟨h.token, h.etag⟩

theorem inside_mirrored_iff :
    Inside platform.REST_MAX_CHUNK_SIZE (mirrored platform req buffer) ↔ Roomy platform req := by
  have hstart : Inside platform.REST_MAX_CHUNK_SIZE (start buffer) := by simp [Inside, start]
  rw [mirrored, inside_appendGroups, and_iff_right hstart, start, room_parts_iff]

theorem mirrored_behind (h : Roomy platform req) {i : ℕ} (hi : platform.REST_MAX_CHUNK_SIZE < i) :
    (mirrored platform req buffer).buffer i = buffer i := by
  unfold mirrored
  exact appendGroups_behind platform.lt buffer (room_parts_iff.mpr h) hi

/-- The mark lies inside the buffer. -/
theorem marked_behind {i : ℕ} (h : platform.REST_MAX_CHUNK_SIZE < i) :
    marked platform req buffer i = (mirrored platform req buffer).buffer i := by
  unfold marked
  split_ifs
  · apply store_of_le
    rw [List.length_singleton]
    omega
  · rfl

/-- The calls stay inside the buffer exactly when there is room for the bytes of the token
and of the ETag where they are begun. -/
theorem mirror_inside_iff (platform : Platform) (req : Request) (buffer : Buffer) :
    StaysInside platform req buffer ↔ Roomy platform req := by
  constructor
  · intro h
    have hinside : Inside platform.REST_MAX_CHUNK_SIZE (mirrored platform req buffer) := h.calls
    rwa [inside_mirrored_iff] at hinside
  · intro hroomy
    have hinside : Inside platform.REST_MAX_CHUNK_SIZE (mirrored platform req buffer) := by
      rwa [inside_mirrored_iff]
    refine ⟨hinside, fun offset i hi => ?_⟩
    exact (marked_behind hi).trans (mirrored_behind hroomy hi)

/-- The default Max-Age, a path and a query that fill the buffer of 64 bytes, and a token of one
byte. -/
def fullRequest : Request where
  maxAge := some 60
  uriPath := ascii "debug/mirror"
  uriQuery := ascii "01234567890123456789012345678901234567"
  token := [0x2A]

/-- 64-byte chunks, 32-bit words. -/
def smallPlatform : Platform where
  REST_MAX_CHUNK_SIZE := 64
  sizeBits := 32
  ulongBits := 32
  pos := by decide
  lt := by decide

theorem token_overruns : ¬ ∀ buffer, StaysInside smallPlatform fullRequest buffer := by
  intro h
  have hcalls := (h fun _ => 0).calls
  exact absurd hcalls (by decide)

/-! ## The payload -/

theorem mirrored_pos_le_iff : (mirrored platform req buffer).pos ≤ platform.REST_MAX_CHUNK_SIZE ↔
    (printedText platform req).length ≤ platform.REST_MAX_CHUNK_SIZE := by
  rw [mirrored, appendGroups_pos_le_iff, start, Nat.zero_add, printedText, text]

theorem mirrored_pos (h : (printedText platform req).length ≤ platform.REST_MAX_CHUNK_SIZE) :
    (mirrored platform req buffer).pos = (printedText platform req).length := by
  have hpos : (mirrored platform req buffer).pos = (start buffer).pos + _ :=
    appendGroups_pos (by rwa [start, Nat.zero_add])
  rwa [start, Nat.zero_add] at hpos

/-- A text that fits has room for all its parts. -/
theorem roomy_of_le (h : (printedText platform req).length ≤ platform.REST_MAX_CHUNK_SIZE) :
    Roomy platform req :=
  room_parts_iff.mp (room_of_le (by rwa [Nat.zero_add]))

/-- The printer leaves the text as far as the buffer goes. -/
theorem window_mirrored (h : Roomy platform req) : window (mirrored platform req buffer).buffer 0
    (min platform.REST_MAX_CHUNK_SIZE (printedText platform req).length) =
      (printedText platform req).take platform.REST_MAX_CHUNK_SIZE :=
  window_appendGroups platform.lt buffer (room_parts_iff.mpr h)

theorem payload_of_lt (h : (printedText platform req).length < platform.REST_MAX_CHUNK_SIZE)
    (offset : ℤ) :
    (resAnyHandler platform req buffer offset).payload = printedText platform req := by
  have hpos : (mirrored platform req buffer).pos = (printedText platform req).length :=
    mirrored_pos h.le
  have hwindow : window (mirrored platform req buffer).buffer 0 _ = _ :=
    window_mirrored (roomy_of_le h.le)
  rw [List.take_of_length_le h.le] at hwindow
  simp only [resAnyHandler, marked, hpos, if_neg h.not_ge, hwindow]

/-- A text that fills the buffer loses its last byte to the mark. -/
theorem payload_of_le (h : platform.REST_MAX_CHUNK_SIZE ≤ (printedText platform req).length)
    (hroomy : Roomy platform req) (offset : ℤ) :
    (resAnyHandler platform req buffer offset).payload =
      (printedText platform req).take (platform.REST_MAX_CHUNK_SIZE - 1) ++ [0xBB] := by
  have hmax := platform.pos
  have hpos : platform.REST_MAX_CHUNK_SIZE ≤ (mirrored platform req buffer).pos := by
    by_contra hlt
    have hle : (mirrored platform req buffer).pos ≤ platform.REST_MAX_CHUNK_SIZE := by omega
    have hsame : (mirrored platform req buffer).pos = _ :=
      mirrored_pos (mirrored_pos_le_iff.mp hle)
    omega
  have hwindow : window (mirrored platform req buffer).buffer 0 _ = _ := window_mirrored hroomy
  rw [Nat.min_eq_left h] at hwindow
  have hfront : window (mirrored platform req buffer).buffer 0 (platform.REST_MAX_CHUNK_SIZE - 1) =
      (printedText platform req).take (platform.REST_MAX_CHUNK_SIZE - 1) := by
    rw [← window_take _ _ (Nat.sub_le _ 1), hwindow, List.take_take, Nat.min_eq_left (by omega)]
  simp only [resAnyHandler, marked]
  rw [Nat.min_eq_left hpos, if_pos hpos, window_store_last _ _ hmax, hfront]

/-! ## The decoded request -/

/-- The handler's own texts have no NUL. -/
def Part.NulFree : Part → Prop
  | .plain texts => 0 ∉ texts.flatten
  | .string label _ rest => 0 ∉ label ∧ 0 ∉ rest

def NulFree (ps : List Part) : Prop := ∀ p ∈ ps, p.NulFree

theorem nulFree_append {ps qs : List Part} (hp : NulFree ps) (hq : NulFree qs) :
    NulFree (ps ++ qs) := List.forall_mem_append.mpr ⟨hp, hq⟩

theorem nulFree_number {label : String} (h : 0 ∉ ascii label) (n : Option ℕ) :
    NulFree (number label n) := by
  have hend : 0 ∉ ascii "\n" := by decide
  apply forall_number
  intro n
  simp [Part.NulFree, h, hend, zero_notMem_decimal]

theorem nulFree_string {label : String} {rest : Bytes} (h : 0 ∉ ascii label) (hrest : 0 ∉ rest)
    (value : Bytes) : NulFree (string label value rest) := forall_string ⟨h, hrest⟩

theorem nulFree_block {label : String} (h : 0 ∉ ascii label) (b : Option Block) :
    NulFree (block label b) := by
  intro p hp
  obtain ⟨b, -, rfl⟩ := List.mem_map.mp hp
  have hmore : 0 ∉ (if b.more ≠ 0 then ascii "+" else []) := by
    split_ifs
    · decide
    · decide
  have hopen : 0 ∉ ascii " (" := by decide
  have hend : 0 ∉ ascii ")\n" := by decide
  simp only [Part.NulFree, List.flatten_singleton, List.mem_append, not_or]
  exact ⟨⟨⟨⟨⟨h, zero_notMem_decimal _⟩, hmore⟩, hopen⟩, zero_notMem_decimal _⟩, hend⟩

theorem nulFree_hexBytes {label : String} (h : 0 ∉ ascii label) (b : Bytes) :
    (hexBytes label b).NulFree := by
  have hend : 0 ∉ ascii "\n" := by decide
  simp only [hexBytes, Part.NulFree, List.cons_append, List.flatten_cons, List.flatten_append,
    List.flatten_nil, List.append_nil, ← List.flatMap_def, List.mem_append, not_or]
  exact ⟨h, zero_notMem_flatMap_hex2 b, hend⟩

theorem nulFree_options (req : Request) : NulFree req.options := by
  have hend : 0 ∉ ascii "\n" := by decide
  unfold Request.options
  repeat' apply nulFree_append
  all_goals first
    | exact nulFree_number (by decide) _
    | exact nulFree_string (by decide) hend _

theorem nulFree_tokenPart (req : Request) : NulFree req.tokenPart := by
  intro p hp
  unfold Request.tokenPart at hp
  split_ifs at hp
  · cases hp
  · obtain rfl := List.mem_singleton.mp hp
    exact nulFree_hexBytes (by decide) _

theorem nulFree_etagPart (req : Request) : NulFree req.etagPart := by
  intro p hp
  obtain ⟨e, -, rfl⟩ := List.mem_map.mp hp
  exact nulFree_hexBytes (by decide) e

theorem nulFree_parts (req : Request) (ulongBits : ℕ) : NulFree (req.parts ulongBits) := by
  have hobserve : NulFree (req.observePart ulongBits) := nulFree_number (by decide) _
  have hrest : NulFree req.blocksAndPayload :=
    nulFree_append (nulFree_append (nulFree_block (by decide) _) (nulFree_block (by decide) _))
      (nulFree_string (by decide) (by decide) _)
  exact nulFree_append (nulFree_append (nulFree_append (nulFree_append (nulFree_options req)
    (nulFree_tokenPart req)) hobserve) (nulFree_etagPart req)) hrest

theorem text_cons (render : Bytes → Bytes) (p : Part) (ps : List Part) :
    text render (p :: ps) = (p.texts render).flatten ++ text render ps := by
  simp [text]

theorem text_string (render : Bytes → Bytes) (label value rest : Bytes) :
    ((Part.string label value rest).texts render).flatten = label ++ render value ++ rest := by
  rw [Part.texts, List.flatten_singleton]

theorem zero_notMem_text {ps : List Part} (h : NulFree ps) : 0 ∉ text cString ps := by
  induction ps with
  | nil => exact List.not_mem_nil
  | cons p ps ih =>
    obtain ⟨hp, hps⟩ := List.forall_mem_cons.mp h
    rw [text_cons, List.mem_append, not_or]
    refine ⟨?_, ih hps⟩
    cases p with
    | plain texts => exact hp
    | string label value rest =>
      rw [text_string, List.mem_append, List.mem_append, not_or, not_or]
      exact ⟨⟨hp.1, zero_notMem_cString value⟩, hp.2⟩

/-- What is printed is the decoded text less what strings have from their first NUL on. -/
theorem text_sublist (ps : List Part) : (text cString ps).Sublist (text id ps) := by
  induction ps with
  | nil => exact List.Sublist.refl _
  | cons p ps ih =>
    rw [text_cons, text_cons]
    apply List.Sublist.append _ ih
    cases p with
    | plain texts => exact List.Sublist.refl _
    | string label value rest =>
      rw [text_string, text_string]
      have hvalue : (cString value).Sublist value := List.takeWhile_sublist _
      exact ((List.Sublist.refl label).append hvalue).append (List.Sublist.refl rest)

theorem text_eq_of_notMem {ps : List Part} (h : 0 ∉ text id ps) :
    text cString ps = text id ps := by
  induction ps with
  | nil => rfl
  | cons p ps ih =>
    rw [text_cons, List.mem_append, not_or] at h
    rw [text_cons, text_cons, ih h.2]
    cases p with
    | plain texts => rfl
    | string label value rest =>
      have hvalue : 0 ∉ value := by
        intro hmem
        apply h.1
        rw [text_string]
        exact List.mem_append_left _ (List.mem_append_right _ hmem)
      rw [text_string, text_string, cString_of_nul_free hvalue, id]

/-- The payload is the decoded request, or its front with the mark where it does not fit,
and the size that is announced is the one of the payload. -/
structure Mirrors (platform : Platform) (req : Request) (r : MirrorResponse) : Prop where
  whole : (decodedText platform req).length ≤ platform.REST_MAX_CHUNK_SIZE →
    r.payload = decodedText platform req
  cut : platform.REST_MAX_CHUNK_SIZE < (decodedText platform req).length →
    r.payload = (decodedText platform req).take (platform.REST_MAX_CHUNK_SIZE - 1) ++ [0xBB]
  size1 : r.size1 = r.payload.length

/-- The requests that are mirrored: without a NUL they leave a byte of the buffer free, or
their last byte in a full buffer is the mark itself; with one, what is printed fills the
buffer, and agrees with the request up to the mark. -/
def Mirrorable (platform : Platform) (req : Request) : Prop :=
  (0 ∉ decodedText platform req ∧
    ((decodedText platform req).length < platform.REST_MAX_CHUNK_SIZE ∨
      ((decodedText platform req).length = platform.REST_MAX_CHUNK_SIZE ∧
        (decodedText platform req).getLast? = some 0xBB))) ∨
  (platform.REST_MAX_CHUNK_SIZE < (decodedText platform req).length ∧
    (printedText platform req).length = platform.REST_MAX_CHUNK_SIZE ∧
    (printedText platform req).take (platform.REST_MAX_CHUNK_SIZE - 1) =
      (decodedText platform req).take (platform.REST_MAX_CHUNK_SIZE - 1))

theorem printedText_eq_iff : printedText platform req = decodedText platform req ↔
    0 ∉ decodedText platform req := by
  constructor
  · intro h
    rw [← h]
    exact zero_notMem_text (nulFree_parts req platform.ulongBits)
  · intro h
    exact text_eq_of_notMem h

theorem printedText_length_le :
    (printedText platform req).length ≤ (decodedText platform req).length :=
  (text_sublist _).length_le

theorem printedText_length_lt (h : 0 ∈ decodedText platform req) :
    (printedText platform req).length < (decodedText platform req).length := by
  apply lt_of_le_of_ne printedText_length_le
  intro hlength
  exact printedText_eq_iff.mp ((text_sublist _).eq_of_length hlength) h

theorem size1_eq (offset : ℤ) : (resAnyHandler platform req buffer offset).size1 =
    (mirrored platform req buffer).pos := by
  rw [resAnyHandler]

theorem payload_length (offset : ℤ) : (resAnyHandler platform req buffer offset).payload.length =
    min platform.REST_MAX_CHUNK_SIZE (mirrored platform req buffer).pos := window_length _ _ _

/-- With a text that passes the end of the buffer, more is announced than is sent. -/
theorem not_mirrors_of_lt
    (h : platform.REST_MAX_CHUNK_SIZE < (printedText platform req).length) (offset : ℤ) :
    ¬ Mirrors platform req (resAnyHandler platform req buffer offset) := by
  intro hmirrors
  have hannounced : (mirrored platform req buffer).pos ≤ platform.REST_MAX_CHUNK_SIZE := by
    have hsize := hmirrors.size1
    rw [size1_eq, payload_length] at hsize
    omega
  rw [mirrored_pos_le_iff] at hannounced
  omega

/-- A text that leaves a byte free is sent as it was printed. -/
theorem mirrors_iff_of_lt
    (h : (printedText platform req).length < platform.REST_MAX_CHUNK_SIZE) (offset : ℤ) :
    Mirrors platform req (resAnyHandler platform req buffer offset) ↔
      0 ∉ decodedText platform req := by
  have hpayload : (resAnyHandler platform req buffer offset).payload = _ := payload_of_lt h offset
  have hsize : (resAnyHandler platform req buffer offset).size1 =
      (printedText platform req).length := by rw [size1_eq, mirrored_pos h.le]
  constructor
  · intro hmirrors
    by_cases hle : (decodedText platform req).length ≤ platform.REST_MAX_CHUNK_SIZE
    · have hwhole := hmirrors.whole hle
      rwa [hpayload, printedText_eq_iff] at hwhole
    · have hcut := congrArg List.length (hmirrors.cut (by omega))
      rw [hpayload, List.length_append, List.length_take, List.length_singleton] at hcut
      omega
  · intro hnul
    have hsame := printedText_eq_iff.mpr hnul
    refine ⟨fun _ => hpayload.trans hsame, fun hlt => ?_, ?_⟩
    · rw [← hsame] at hlt
      omega
    · rw [hsize, hpayload]

/-- Of a text that fills the buffer, the last byte is lost. -/
theorem mirrors_iff_of_eq
    (h : (printedText platform req).length = platform.REST_MAX_CHUNK_SIZE) (offset : ℤ) :
    Mirrors platform req (resAnyHandler platform req buffer offset) ↔
      if 0 ∈ decodedText platform req then
        (printedText platform req).take (platform.REST_MAX_CHUNK_SIZE - 1) =
          (decodedText platform req).take (platform.REST_MAX_CHUNK_SIZE - 1)
      else (decodedText platform req).getLast? = some 0xBB := by
  have hmax := platform.pos
  have hpayload : (resAnyHandler platform req buffer offset).payload = _ :=
    payload_of_le h.ge (roomy_of_le h.le) offset
  have hsize : (resAnyHandler platform req buffer offset).size1 =
      (resAnyHandler platform req buffer offset).payload.length := by
    have hpos : (mirrored platform req buffer).pos = _ := mirrored_pos h.le
    rw [size1_eq, payload_length, hpos, h, Nat.min_self]
  split_ifs with hnul
  · have hlt := printedText_length_lt hnul
    constructor
    · intro hmirrors
      have hcut := hmirrors.cut (by omega)
      rw [hpayload] at hcut
      exact List.append_cancel_right hcut
    · intro hfront
      refine ⟨fun hle => absurd hle (by omega), fun _ => ?_, hsize⟩
      rw [hpayload, hfront]
  · have hsame := printedText_eq_iff.mpr hnul
    rw [hsame] at h hpayload
    have hlast : (decodedText platform req).take (platform.REST_MAX_CHUNK_SIZE - 1) =
        (decodedText platform req).dropLast := by
      rw [List.dropLast_eq_take, h]
    rw [hlast] at hpayload
    constructor
    · intro hmirrors
      rw [← hmirrors.whole h.le, hpayload, List.getLast?_concat]
    · intro hmark
      refine ⟨fun _ => ?_, fun hlt => absurd hlt (by omega), hsize⟩
      rw [hpayload]
      exact List.dropLast_append_getLast? _ hmark

theorem mirrorable_iff_of_mem (h : 0 ∈ decodedText platform req) : Mirrorable platform req ↔
    (printedText platform req).length = platform.REST_MAX_CHUNK_SIZE ∧
      (printedText platform req).take (platform.REST_MAX_CHUNK_SIZE - 1) =
        (decodedText platform req).take (platform.REST_MAX_CHUNK_SIZE - 1) := by
  have hlonger := printedText_length_lt h
  unfold Mirrorable
  constructor
  · intro hm
    rcases hm with ⟨hfree, -⟩ | ⟨-, hfront⟩
    · exact absurd h hfree
    · exact hfront
  · intro hfront
    have hlength := hfront.1
    exact Or.inr ⟨by omega, hfront⟩

theorem mirrorable_iff_of_notMem (h : 0 ∉ decodedText platform req) : Mirrorable platform req ↔
    (printedText platform req).length < platform.REST_MAX_CHUNK_SIZE ∨
      ((printedText platform req).length = platform.REST_MAX_CHUNK_SIZE ∧
        (decodedText platform req).getLast? = some 0xBB) := by
  have hsame := printedText_eq_iff.mpr h
  unfold Mirrorable
  rw [hsame, and_iff_right h, or_iff_left]
  intro hm
  have hlt := hm.1
  have heq := hm.2.1
  omega

/-- The request is mirrored exactly when its text leaves a byte of the buffer free, but for
the few cases in which the mark makes no difference. -/
theorem mirror_decoded_iff (platform : Platform) (req : Request) (buffer : Buffer) (offset : ℤ) :
    Mirrors platform req (resAnyHandler platform req buffer offset) ↔
      Mirrorable platform req := by
  obtain hlt | heq | hgt :=
    Nat.lt_trichotomy (printedText platform req).length platform.REST_MAX_CHUNK_SIZE
  · rw [mirrors_iff_of_lt hlt]
    by_cases hnul : 0 ∈ decodedText platform req
    · rw [mirrorable_iff_of_mem hnul]
      exact iff_of_false (fun h => h hnul) fun h => hlt.ne h.1
    · rw [mirrorable_iff_of_notMem hnul]
      exact iff_of_true hnul (Or.inl hlt)
  · rw [mirrors_iff_of_eq heq]
    by_cases hnul : 0 ∈ decodedText platform req
    · rw [mirrorable_iff_of_mem hnul, if_pos hnul, and_iff_right heq]
    · rw [mirrorable_iff_of_notMem hnul, if_neg hnul, and_iff_right heq, or_iff_right]
      omega
  · apply iff_of_false (not_mirrors_of_lt hgt offset)
    by_cases hnul : 0 ∈ decodedText platform req
    · rw [mirrorable_iff_of_mem hnul]
      exact fun h => hgt.ne' h.1
    · rw [mirrorable_iff_of_notMem hnul]
      omega

/-- A path and a query that fill the buffer, and the last line end is lost. -/
theorem full_buffer_loses_byte : ¬ Mirrors smallPlatform { fullRequest with token := [] }
    (resAnyHandler smallPlatform { fullRequest with token := [] } (fun _ => 0) 0) := by
  intro h
  have hwhole := h.whole (by decide)
  exact absurd hwhole (by decide)

end IotLabTraining.MirrorResource
