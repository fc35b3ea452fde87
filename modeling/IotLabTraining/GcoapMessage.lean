import IotLabTraining.GcoapClient

/-!
# The message of a command

The command once more, now with its reads of `argv` and with the packet it builds. RIOT
adds options to a packet one by one as long as the buffer and the table of options have
room; the command takes no notice of the results and goes on with what is there. What
it prints and keeps is in the client.
-/
namespace IotLabTraining.GcoapMessage
open GcoapClient

/-- The sizes that RIOT is built with, and the Uri-Path options of a path. -/
structure Nanocoap where
  bufSize : ℕ
  noptsMax : ℕ
  headerLen : ℕ
  headerLen_le : headerLen ≤ bufSize
  segments : Bytes → List Bytes
  segmentLen : Bytes → ℕ

/-- A Content-Format option of text, one byte behind Uri-Path as in front. -/
def FORMAT_OPTION_LEN : ℕ := 1
def PAYLOAD_MARKER_LEN : ℕ := 1
def ENOSPC : ℤ := 28

/-- What a reader finds in a packet. -/
structure Message where
  type : CoapType
  code : ℕ
  segments : List Bytes
  format : Option ℕ
  payload : Bytes
  deriving DecidableEq

/-- A packet in its buffer: the bytes in front of the payload pointer, and the entries in
the table of options. -/
structure Pdu where
  message : Message
  used : ℕ
  optionsLen : ℕ

variable (n : Nanocoap)

/-! ## RIOT -/

/-- One more option, if the table and the buffer have room for it. -/
def addOption (pdu : Pdu) (len : ℕ) (message : Message) : Pdu × Bool :=
  if pdu.optionsLen < n.noptsMax ∧ pdu.used + len ≤ n.bufSize then
    (⟨message, pdu.used + len, pdu.optionsLen + 1⟩, true)
  else (pdu, false)

def addSegment (pdu : Pdu) (segment : Bytes) : Pdu × Bool :=
  addOption n pdu (n.segmentLen segment)
    { pdu.message with segments := pdu.message.segments ++ [segment] }

/-- The segments one by one; the first that does not fit ends it. -/
def addUriPath (pdu : Pdu) : List Bytes → Pdu × Bool
  | [] => (pdu, true)
  | segment :: rest =>
    let added := addSegment n pdu segment
    if added.2 then addUriPath added.1 rest else (added.1, false)

def gcoapReqInit (code : ℕ) (path : Bytes) : Pdu × Bool :=
  addUriPath n ⟨⟨.non, code, [], none, []⟩, n.headerLen, 0⟩ (n.segments path)

def optAddFormat (pdu : Pdu) (format : ℕ) : Pdu × Bool :=
  addOption n pdu FORMAT_OPTION_LEN { pdu.message with format := some format }

/-- The length so far and the room for a payload. -/
def optFinish (pdu : Pdu) (payload : Bool) : ℤ × ℕ :=
  if payload then
    if pdu.used < n.bufSize then
      (pdu.used + PAYLOAD_MARKER_LEN, n.bufSize - pdu.used - PAYLOAD_MARKER_LEN)
    else (-ENOSPC, 0)
  else (pdu.used, 0)

/-! ## The command -/

/-- The packet with its header and options, as far as they went in. -/
def requestOptions (r : Request) : Pdu :=
  let pdu := (gcoapReqInit n r.code r.path).1
  let pdu := { pdu with message := { pdu.message with type := r.msgType } }
  if r.data.length = 0 then pdu else (optAddFormat n pdu COAP_FORMAT_TEXT).1

/-- The message and its length; `none` when the data does not fit. -/
def requestMessage (r : Request) : Option (Message × ℤ) :=
  let pdu := requestOptions n r
  if r.data.length = 0 then some (pdu.message, (optFinish n pdu false).1)
  else
    let finish := optFinish n pdu true
    if r.data.length ≤ finish.2 then
      some ({ pdu.message with payload := r.data }, finish.1 + r.data.length)
    else none

/-- How a command ends: with one of its texts, or with a message that `_send` is handed
together with the words for address and port. -/
inductive Outcome where
  | usage (name : Bytes)
  | info
  | requestUsage (name : Bytes)
  | tooSmall
  | handed (message : Message) (len : ℤ) (addr port : Bytes)

def requestOutcome (r : Request) : Outcome :=
  match requestMessage n r with
  | none => .tooSmall
  | some (message, len) => .handed message len r.addr r.port

/-- Whether the first word is `-c`, and the position of the address. -/
def parseFlag (argv : List Bytes) : Option (Bool × ℕ) :=
  if 2 < argv.length then
    argv[2]?.map fun w => if w = ascii "-c" then (true, 3) else (false, 2)
  else some (false, 2)

/-- The words from the address on: "get" (code 0) has three of them, "post" and "put" four. -/
def requestAt (argv : List Bytes) (codePos : ℕ) (confirmable : Bool) (apos : ℕ) :
    Option Outcome := do
  if (argv.length = apos + 3 ∧ codePos = 0) ∨ (argv.length = apos + 4 ∧ codePos ≠ 0) then
    let path ← argv[apos + 2]?
    let data ← if argv.length = apos + 4 then argv[apos + 3]? else some []
    let addr ← argv[apos]?
    let port ← argv[apos + 1]?
    return requestOutcome n ⟨codePos + 1, confirmable, addr, port, path, data⟩
  else return .requestUsage (← argv[0]?)

/-- `gcoap_cli_cmd`; `none` is a read of `argv` at or behind `argc`. -/
def gcoapCliCmd (argv : List Bytes) : Option Outcome := do
  if argv.length = 1 then return .usage (← argv[0]?)
  let word ← argv[1]?
  if word = ascii "info" then return .info
  match methodCodes.idxOf? word with
  | none => return .usage (← argv[0]?)
  | some codePos =>
    let (confirmable, apos) ← parseFlag argv
    requestAt n argv codePos confirmable apos

/-! ## What was typed -/

def flag (confirmable : Bool) : List Bytes := if confirmable then [ascii "-c"] else []

/-- The commands that ask for a request; a first word `-c` is the option. -/
inductive Grammar : List Bytes → Request → Prop where
  | get (c : Bool) (addr port path : Bytes) (h : c = false → addr ≠ ascii "-c") :
      Grammar (ascii "get" :: (flag c ++ [addr, port, path])) ⟨1, c, addr, port, path, []⟩
  | post (c : Bool) (addr port path data : Bytes) (h : c = false → addr ≠ ascii "-c") :
      Grammar (ascii "post" :: (flag c ++ [addr, port, path, data]))
        ⟨2, c, addr, port, path, data⟩
  | put (c : Bool) (addr port path data : Bytes) (h : c = false → addr ≠ ascii "-c") :
      Grammar (ascii "put" :: (flag c ++ [addr, port, path, data]))
        ⟨3, c, addr, port, path, data⟩

def segmentsLen (segments : List Bytes) : ℕ := (segments.map n.segmentLen).sum

/-- The length of a request with its whole path and data. -/
def encodedLen (r : Request) : ℕ :=
  n.headerLen + segmentsLen n (n.segments r.path) +
    if r.data.length = 0 then 0 else FORMAT_OPTION_LEN + PAYLOAD_MARKER_LEN + r.data.length

def Fits (r : Request) : Prop := encodedLen n r ≤ n.bufSize

/-- The length of a message with all that is in it. -/
def messageLen (message : Message) : ℕ :=
  n.headerLen + segmentsLen n message.segments +
    (if message.format.isSome then FORMAT_OPTION_LEN else 0) +
    if message.payload.length = 0 then 0 else PAYLOAD_MARKER_LEN + message.payload.length

/-- The message is the request that was typed, and all of it is sent. -/
structure Says (r : Request) (message : Message) (len : ℤ) : Prop where
  code_eq : message.code = r.code
  type_eq : message.type = r.msgType
  segments_eq : message.segments = n.segments r.path
  payload_eq : message.payload = r.data
  len_eq : len = messageLen n message

/-- The command reads its own words only, hands out a message for exactly the requests
that fit, and that message says what was typed. -/
structure SendsTyped (name : Bytes) (args : List Bytes) : Prop where
  inRange : (gcoapCliCmd n (name :: args)).isSome = true
  handed_iff : (∃ message len addr port,
      gcoapCliCmd n (name :: args) = some (.handed message len addr port)) ↔
    ∃ r, Grammar args r ∧ Fits n r
  message_says : ∀ message len addr port,
    gcoapCliCmd n (name :: args) = some (.handed message len addr port) →
    ∃ r, Grammar args r ∧ Says n r message len ∧ addr = r.addr ∧ port = r.port

/-- The front of a path for which the table and the buffer have room. -/
def fitting (slots room : ℕ) : List Bytes → List Bytes
  | [] => []
  | segment :: rest =>
    if 0 < slots ∧ n.segmentLen segment ≤ room then
      segment :: fitting (slots - 1) (room - n.segmentLen segment) rest
    else []

/-- The segments of a path that go into an empty packet. -/
def front (path : Bytes) : List Bytes :=
  fitting n n.noptsMax (n.bufSize - n.headerLen) (n.segments path)

/-- The data does not fit behind the segments that go in, and the format if the table
has room for it. -/
def DataRefused (r : Request) : Prop :=
  r.data.length ≠ 0 ∧
    n.bufSize < n.headerLen + segmentsLen n (front n r.path) +
      (if (front n r.path).length < n.noptsMax then FORMAT_OPTION_LEN else 0) +
      PAYLOAD_MARKER_LEN + r.data.length

/-- A request that fits has no more segments than the table has room for; of one that
does not fit, the data is refused. -/
def Checked (args : List Bytes) : Prop :=
  ∀ r, Grammar args r →
    (Fits n r ∧ (n.segments r.path).length ≤ n.noptsMax) ∨ (¬ Fits n r ∧ DataRefused n r)

variable {n}

@[simp] theorem segmentsLen_nil : segmentsLen n [] = 0 := rfl

@[simp] theorem segmentsLen_cons (segment : Bytes) (rest : List Bytes) :
    segmentsLen n (segment :: rest) = n.segmentLen segment + segmentsLen n rest := by
  simp [segmentsLen]

/-! ## What goes in -/

theorem fitting_length_le (slots room : ℕ) (segments : List Bytes) :
    (fitting n slots room segments).length ≤ slots := by
  induction segments generalizing slots room with
  | nil => simp [fitting]
  | cons segment rest ih =>
    unfold fitting
    split_ifs with h
    · have hrest := ih (slots - 1) (room - n.segmentLen segment)
      rw [List.length_cons]
      omega
    · exact Nat.zero_le _

theorem segmentsLen_fitting_le (slots room : ℕ) (segments : List Bytes) :
    segmentsLen n (fitting n slots room segments) ≤ room := by
  induction segments generalizing slots room with
  | nil => simp [fitting]
  | cons segment rest ih =>
    unfold fitting
    split_ifs with h
    · have hrest := ih (slots - 1) (room - n.segmentLen segment)
      rw [segmentsLen_cons]
      omega
    · exact Nat.zero_le _

/-- All of a path goes in when and only when there is room for all of it. -/
theorem fitting_eq_self_iff (slots room : ℕ) (segments : List Bytes) :
    fitting n slots room segments = segments ↔
      segments.length ≤ slots ∧ segmentsLen n segments ≤ room := by
  constructor
  · intro h
    have hlength := fitting_length_le (n := n) slots room segments
    have hlen := segmentsLen_fitting_le (n := n) slots room segments
    rw [h] at hlength hlen
    exact ⟨hlength, hlen⟩
  · intro h
    induction segments generalizing slots room with
    | nil => rfl
    | cons segment rest ih =>
      rw [List.length_cons, segmentsLen_cons] at h
      rw [fitting, if_pos (by omega), ih (slots - 1) (room - n.segmentLen segment) (by omega)]

/-- A packet behind `gcoap_req_init`: the front of the path is in it. -/
theorem addUriPath_fst (pdu : Pdu) (segments : List Bytes) (hoptions : pdu.optionsLen ≤ n.noptsMax)
    (hused : pdu.used ≤ n.bufSize) :
    (addUriPath n pdu segments).1 =
      let added := fitting n (n.noptsMax - pdu.optionsLen) (n.bufSize - pdu.used) segments
      ⟨{ pdu.message with segments := pdu.message.segments ++ added },
        pdu.used + segmentsLen n added, pdu.optionsLen + added.length⟩ := by
  induction segments generalizing pdu with
  | nil => simp [addUriPath, fitting]
  | cons segment rest ih =>
    by_cases hroom : pdu.optionsLen < n.noptsMax ∧ pdu.used + n.segmentLen segment ≤ n.bufSize
    · have hslots : n.noptsMax - (pdu.optionsLen + 1) = n.noptsMax - pdu.optionsLen - 1 := by omega
      have hleft : n.bufSize - (pdu.used + n.segmentLen segment) =
          n.bufSize - pdu.used - n.segmentLen segment := by omega
      have hfits : 0 < n.noptsMax - pdu.optionsLen ∧
          n.segmentLen segment ≤ n.bufSize - pdu.used := by omega
      rw [addUriPath, addSegment, addOption, if_pos hroom]
      simp only [if_pos]
      rw [ih _ (by dsimp only; omega) hroom.2, fitting, if_pos hfits]
      simp only [hslots, hleft, segmentsLen_cons, List.length_cons, List.append_assoc,
        List.singleton_append, Pdu.mk.injEq, true_and]
      omega
    · have hfull : ¬ (0 < n.noptsMax - pdu.optionsLen ∧
          n.segmentLen segment ≤ n.bufSize - pdu.used) := by omega
      rw [addUriPath, addSegment, addOption, if_neg hroom, fitting, if_neg hfull]
      simp

theorem segmentsLen_front_le (path : Bytes) :
    n.headerLen + segmentsLen n (front n path) ≤ n.bufSize := by
  have hfront := segmentsLen_fitting_le (n := n) n.noptsMax (n.bufSize - n.headerLen)
    (n.segments path)
  have hheader := n.headerLen_le
  unfold front
  omega

theorem gcoapReqInit_fst (code : ℕ) (path : Bytes) : (gcoapReqInit n code path).1 =
    ⟨⟨.non, code, front n path, none, []⟩, n.headerLen + segmentsLen n (front n path),
      (front n path).length⟩ := by
  rw [gcoapReqInit, addUriPath_fst _ _ (Nat.zero_le _) n.headerLen_le]
  simp [front]

/-- Without data the front of the path is sent, whatever is missing. -/
theorem requestMessage_of_empty {r : Request} (h : r.data.length = 0) :
    requestMessage n r = some ((⟨r.msgType, r.code, front n r.path, none, []⟩ : Message),
      ((n.headerLen + segmentsLen n (front n r.path) : ℕ) : ℤ)) := by
  unfold requestMessage
  simp only [if_pos h, requestOptions, gcoapReqInit_fst]
  simp [optFinish]

/-- The format goes in when the table and the buffer have room for it. -/
theorem requestOptions_of_data {r : Request} (h : r.data.length ≠ 0) : requestOptions n r =
    if (front n r.path).length < n.noptsMax ∧
        n.headerLen + segmentsLen n (front n r.path) + FORMAT_OPTION_LEN ≤ n.bufSize then
      ⟨⟨r.msgType, r.code, front n r.path, some COAP_FORMAT_TEXT, []⟩,
        n.headerLen + segmentsLen n (front n r.path) + FORMAT_OPTION_LEN,
        (front n r.path).length + 1⟩
    else ⟨⟨r.msgType, r.code, front n r.path, none, []⟩,
      n.headerLen + segmentsLen n (front n r.path), (front n r.path).length⟩ := by
  unfold requestOptions
  simp only [if_neg h, gcoapReqInit_fst, optAddFormat, addOption]
  split_ifs
  · rfl
  · rfl

/-- The data goes behind the marker when there is room for both. -/
theorem requestMessage_isSome_iff {r : Request} (h : r.data.length ≠ 0) :
    (requestMessage n r).isSome = true ↔
      (requestOptions n r).used + PAYLOAD_MARKER_LEN + r.data.length ≤ n.bufSize := by
  unfold requestMessage
  simp only [if_neg h, optFinish, if_true]
  have hpos : 0 < r.data.length := Nat.pos_of_ne_zero h
  split_ifs with hmarker hdata hdata
  · simp only [Option.isSome_some, true_iff]
    omega
  · simp only [Option.isSome_none, Bool.false_eq_true, false_iff]
    omega
  · omega
  · simp only [Option.isSome_none, Bool.false_eq_true, false_iff]
    omega

theorem refused_iff (r : Request) : requestMessage n r = none ↔ DataRefused n r := by
  rw [← Option.isNone_iff_eq_none, ← Option.not_isSome, DataRefused]
  by_cases hempty : r.data.length = 0
  · simp [requestMessage_of_empty hempty, hempty]
  · have hroom := segmentsLen_front_le (n := n) r.path
    have hpos : 0 < r.data.length := Nat.pos_of_ne_zero hempty
    rw [Bool.not_eq_true', ← Bool.not_eq_true, requestMessage_isSome_iff hempty,
      requestOptions_of_data hempty, not_le, and_iff_right hempty]
    by_cases hslot : (front n r.path).length < n.noptsMax
    · simp only [hslot, true_and, if_true]
      split_ifs with hbyte
      · exact Iff.rfl
      · simp only [FORMAT_OPTION_LEN, PAYLOAD_MARKER_LEN] at hbyte ⊢
        omega
    · simp only [hslot, false_and, if_false, Nat.add_zero]

theorem requestOptions_used {r : Request} (h : r.data.length ≠ 0) :
    (requestOptions n r).used = n.headerLen +
      segmentsLen n (requestOptions n r).message.segments +
        if (requestOptions n r).message.format.isSome then FORMAT_OPTION_LEN else 0 := by
  rw [requestOptions_of_data h]
  by_cases hroom : (front n r.path).length < n.noptsMax ∧
      n.headerLen + segmentsLen n (front n r.path) + FORMAT_OPTION_LEN ≤ n.bufSize
  · rw [if_pos hroom]
    rfl
  · rw [if_neg hroom]
    rfl

/-- The length that is handed over is that of the whole message. -/
theorem requestMessage_len {r : Request} {message : Message} {len : ℤ}
    (h : requestMessage n r = some (message, len)) : len = messageLen n message := by
  by_cases hempty : r.data.length = 0
  · rw [requestMessage_of_empty hempty] at h
    obtain ⟨rfl, rfl⟩ := Prod.mk.inj (Option.some.inj h)
    simp [messageLen]
  · have hused := requestOptions_used (n := n) hempty
    unfold requestMessage at h
    simp only [if_neg hempty] at h
    split_ifs at h with hdata
    obtain ⟨rfl, rfl⟩ := Prod.mk.inj (Option.some.inj h)
    rw [messageLen, if_neg hempty, ← hused]
    -- Without room for the marker no data would fit.
    have hmarker : (requestOptions n r).used < n.bufSize := by
      by_contra hfull
      rw [optFinish, if_pos rfl, if_neg hfull] at hdata
      omega
    rw [optFinish, if_pos rfl, if_pos hmarker]
    push_cast
    omega

/-- What is handed over says everything but the end of the path. -/
theorem requestMessage_fields {r : Request} {message : Message} {len : ℤ}
    (h : requestMessage n r = some (message, len)) : message.code = r.code ∧
      message.type = r.msgType ∧ message.segments = front n r.path ∧ message.payload = r.data := by
  by_cases hempty : r.data.length = 0
  · rw [requestMessage_of_empty hempty] at h
    obtain ⟨rfl, -⟩ := Prod.mk.inj (Option.some.inj h)
    exact ⟨rfl, rfl, rfl, (List.length_eq_zero_iff.mp hempty).symm⟩
  · unfold requestMessage at h
    simp only [if_neg hempty] at h
    split_ifs at h with hdata
    obtain ⟨rfl, -⟩ := Prod.mk.inj (Option.some.inj h)
    rw [requestOptions_of_data hempty]
    split_ifs
    · exact ⟨rfl, rfl, rfl, rfl⟩
    · exact ⟨rfl, rfl, rfl, rfl⟩

theorem says_iff {r : Request} {message : Message} {len : ℤ}
    (h : requestMessage n r = some (message, len)) :
    Says n r message len ↔ front n r.path = n.segments r.path := by
  obtain ⟨hcode, htype, hsegments, hpayload⟩ := requestMessage_fields h
  constructor
  · intro hsays
    rw [← hsegments, hsays.segments_eq]
  · intro hfront
    exact ⟨hcode, htype, hsegments.trans hfront, hpayload, requestMessage_len h⟩

theorem front_eq_segments_iff (path : Bytes) : front n path = n.segments path ↔
    (n.segments path).length ≤ n.noptsMax ∧
      n.headerLen + segmentsLen n (n.segments path) ≤ n.bufSize := by
  have hheader := n.headerLen_le
  rw [front, fitting_eq_self_iff]
  apply and_congr_right
  intro _
  omega

/-- A request is taken if and only if it fits, and then as it was typed, exactly under
the condition. -/
theorem request_iff (r : Request) :
    (((requestMessage n r ≠ none) ↔ Fits n r) ∧
      (requestMessage n r ≠ none → front n r.path = n.segments r.path)) ↔
    (Fits n r ∧ (n.segments r.path).length ≤ n.noptsMax) ∨ (¬ Fits n r ∧ DataRefused n r) := by
  rw [Ne, refused_iff]
  constructor
  · rintro ⟨hiff, hwhole⟩
    by_cases hfits : Fits n r
    · exact Or.inl ⟨hfits, ((front_eq_segments_iff _).mp (hwhole (hiff.mpr hfits))).1⟩
    · exact Or.inr ⟨hfits, not_not.mp fun h => hfits (hiff.mp h)⟩
  · rintro (⟨hfits, hlength⟩ | ⟨hfits, hrefused⟩)
    · have hlen := hfits
      rw [Fits, encodedLen] at hlen
      have hwhole : front n r.path = n.segments r.path :=
        (front_eq_segments_iff _).mpr ⟨hlength, by omega⟩
      have hgoes : ¬ DataRefused n r := by
        rintro ⟨hdata, hfull⟩
        rw [hwhole] at hfull
        rw [if_neg hdata] at hlen
        split_ifs at hfull
        · omega
        · omega
      exact ⟨iff_of_true hgoes hfits, fun _ => hwhole⟩
    · exact ⟨iff_of_false (fun h => h hrefused) hfits, fun h => absurd hrefused h⟩

/-! ## The words -/

/-- The end of a command whose words are parsed. -/
def commandOutcome (n : Nanocoap) (name : Bytes) : Command → Outcome
  | .usage => .usage name
  | .info => .info
  | .requestUsage => .requestUsage name
  | .request r => requestOutcome n r

/-- The flag is read in range, and the words behind it are the ones at and behind `apos`. -/
theorem parseFlag_eq (name word : Bytes) (ws : List Bytes) :
    ∃ apos, parseFlag (name :: word :: ws) = some ((parseOptions ws).1, apos) ∧
      (name :: word :: ws).length = apos + (parseOptions ws).2.length ∧
      ∀ k, (name :: word :: ws)[apos + k]? = (parseOptions ws).2[k]? := by
  cases ws with
  | nil => exact ⟨2, rfl, rfl, fun k => by simp [parseOptions, Nat.add_comm 2 k]⟩
  | cons w ws =>
    rw [parseFlag, if_pos (by simp), parseOptions]
    by_cases hflag : w = ascii "-c"
    · refine ⟨3, by simp [hflag], by simp [hflag]; omega, fun k => ?_⟩
      simp [hflag, Nat.add_comm 3 k]
    · refine ⟨2, by simp [hflag], by simp [hflag]; omega, fun k => ?_⟩
      simp [hflag, Nat.add_comm 2 k]

/-- Three words are a "get", four a "post" or a "put", and the reads stay among them. -/
theorem requestAt_eq {n : Nanocoap} {argv rest : List Bytes} {name : Bytes} {apos : ℕ}
    (hname : argv[0]? = some name) (hlength : argv.length = apos + rest.length)
    (hread : ∀ k, argv[apos + k]? = rest[k]?) (codePos : ℕ) (confirmable : Bool) :
    requestAt n argv codePos confirmable apos =
      some (commandOutcome n name (parseRequest codePos confirmable rest)) := by
  have haddr : argv[apos]? = rest[0]? := hread 0
  rw [requestAt, hlength, hname, haddr, hread 1, hread 2, hread 3]
  rcases rest with _ | ⟨w₀, _ | ⟨w₁, _ | ⟨w₂, _ | ⟨w₃, _ | ⟨w₄, rest⟩⟩⟩⟩⟩
  · simp [parseRequest, commandOutcome]
  · simp [parseRequest, commandOutcome]
  · simp [parseRequest, commandOutcome]
  · by_cases hget : codePos = 0
    · simp [parseRequest, commandOutcome, hget]
    · simp [parseRequest, commandOutcome, hget]
  · by_cases hget : codePos = 0
    · simp [parseRequest, commandOutcome, hget]
    · simp [parseRequest, commandOutcome, hget]
  · have hthree : ¬ rest.length + 1 + 1 + 1 + 1 + 1 = 3 := by omega
    have hfour : ¬ rest.length + 1 + 1 + 1 + 1 + 1 = 4 := by omega
    simp [parseRequest, commandOutcome, hthree, hfour]

/-- The command reads its own words only, and takes them as the client does. -/
theorem gcoapCliCmd_eq (n : Nanocoap) (name : Bytes) (args : List Bytes) :
    gcoapCliCmd n (name :: args) = some (commandOutcome n name (parseCommand args)) := by
  cases args with
  | nil => rfl
  | cons word ws =>
    obtain ⟨apos, hflag, hlength, hread⟩ := parseFlag_eq name word ws
    have hnot : ¬ (name :: word :: ws).length = 1 := by simp
    rw [gcoapCliCmd, parseCommand, if_neg hnot]
    by_cases hinfo : word = ascii "info"
    · simp [hinfo, commandOutcome]
    · cases hcode : methodCodes.idxOf? word with
      | none => simp [hinfo, hcode, commandOutcome]
      | some codePos =>
        have hrequest := requestAt_eq (n := n) rfl hlength hread codePos (parseOptions ws).1
        simp [hinfo, hcode, hflag, hrequest]

theorem parseOptions_flag (c : Bool) {addr : Bytes} (h : c = false → addr ≠ ascii "-c")
    (rest : List Bytes) : parseOptions (flag c ++ addr :: rest) = (c, addr :: rest) := by
  cases c with
  | true => simp [flag, parseOptions]
  | false => simp [flag, parseOptions, h rfl]

theorem parseOptions_eq {ws rest : List Bytes} {c : Bool} {addr : Bytes}
    (h : parseOptions ws = (c, addr :: rest)) :
    ws = flag c ++ addr :: rest ∧ (c = false → addr ≠ ascii "-c") := by
  cases ws with
  | nil => cases h
  | cons w ws =>
    rw [parseOptions] at h
    split_ifs at h with hflag
    · obtain ⟨rfl, rfl⟩ := Prod.mk.inj h
      exact ⟨by simp [flag, hflag], by simp⟩
    · obtain ⟨rfl, hws⟩ := Prod.mk.inj h
      obtain ⟨rfl, rfl⟩ := List.cons.inj hws
      exact ⟨by simp [flag], fun _ => hflag⟩

theorem methodCodes_idxOf {word : Bytes} {codePos : ℕ}
    (h : methodCodes.idxOf? word = some codePos) :
    (codePos = 0 ∧ word = ascii "get") ∨ (codePos = 1 ∧ word = ascii "post") ∨
      (codePos = 2 ∧ word = ascii "put") := by
  by_cases hget : word = ascii "get"
  · subst hget
    exact Or.inl ⟨(Option.some.inj h).symm, rfl⟩
  · by_cases hpost : word = ascii "post"
    · subst hpost
      exact Or.inr (Or.inl ⟨(Option.some.inj h).symm, rfl⟩)
    · by_cases hput : word = ascii "put"
      · subst hput
        exact Or.inr (Or.inr ⟨(Option.some.inj h).symm, rfl⟩)
      · have hnone : methodCodes.idxOf? word = none := by
          rw [List.idxOf?_eq_none_iff]
          simp [methodCodes, hget, hpost, hput]
        rw [hnone] at h
        cases h

/-- The words behind the flag of a request: three for a "get", four otherwise. -/
theorem parseRequest_eq_request {codePos : ℕ} {c : Bool} {rest : List Bytes} {r : Request}
    (h : parseRequest codePos c rest = .request r) :
    (codePos = 0 ∧ ∃ addr port path, rest = [addr, port, path] ∧
      r = ⟨codePos + 1, c, addr, port, path, []⟩) ∨
    (codePos ≠ 0 ∧ ∃ addr port path data, rest = [addr, port, path, data] ∧
      r = ⟨codePos + 1, c, addr, port, path, data⟩) := by
  unfold parseRequest at h
  split at h
  · split_ifs at h with hget
    exact Or.inl ⟨hget, _, _, _, rfl, (Command.request.inj h).symm⟩
  · split_ifs at h with hget
    exact Or.inr ⟨hget, _, _, _, _, rfl, (Command.request.inj h).symm⟩
  · cases h

/-- Only the words of the grammar ask for a request. -/
theorem grammar_of_parseCommand {args : List Bytes} {r : Request}
    (h : parseCommand args = .request r) : Grammar args r := by
  cases args with
  | nil => cases h
  | cons word ws =>
    rw [parseCommand] at h
    split_ifs at h
    cases hcode : methodCodes.idxOf? word with
    | none =>
      rw [hcode] at h
      cases h
    | some codePos =>
      rw [hcode] at h
      obtain ⟨⟨c, rest⟩, hoptions⟩ : ∃ p, parseOptions ws = p := ⟨_, rfl⟩
      rw [hoptions] at h
      rcases parseRequest_eq_request h with
        ⟨hget, addr, port, path, rfl, rfl⟩ | ⟨hget, addr, port, path, data, rfl, rfl⟩
      · obtain ⟨rfl, haddr⟩ := parseOptions_eq hoptions
        rcases methodCodes_idxOf hcode with ⟨rfl, rfl⟩ | ⟨rfl, -⟩ | ⟨rfl, -⟩
        · exact Grammar.get c addr port path haddr
        · cases hget
        · cases hget
      · obtain ⟨rfl, haddr⟩ := parseOptions_eq hoptions
        rcases methodCodes_idxOf hcode with ⟨rfl, -⟩ | ⟨rfl, rfl⟩ | ⟨rfl, rfl⟩
        · exact absurd rfl hget
        · exact Grammar.post c addr port path data haddr
        · exact Grammar.put c addr port path data haddr

/-- A method, the option or none, and the words behind it. -/
theorem parseCommand_of_method (word : Bytes) (codePos : ℕ) (hinfo : word ≠ ascii "info")
    (hcode : methodCodes.idxOf? word = some codePos) {c : Bool} {addr : Bytes}
    (h : c = false → addr ≠ ascii "-c") (rest : List Bytes) :
    parseCommand (word :: (flag c ++ addr :: rest)) = parseRequest codePos c (addr :: rest) := by
  simp only [parseCommand, if_neg hinfo, hcode, parseOptions_flag c h]

/-- The words of a request are those of the grammar. -/
theorem parseCommand_eq_request_iff (args : List Bytes) (r : Request) :
    parseCommand args = .request r ↔ Grammar args r := by
  constructor
  · exact grammar_of_parseCommand
  · intro h
    cases h with
    | get c addr port path h =>
      exact parseCommand_of_method (ascii "get") 0 (by decide) (by decide) h [port, path]
    | post c addr port path data h =>
      exact parseCommand_of_method (ascii "post") 1 (by decide) (by decide) h [port, path, data]
    | put c addr port path data h =>
      exact parseCommand_of_method (ascii "put") 2 (by decide) (by decide) h [port, path, data]

theorem grammar_unique {args : List Bytes} {r r' : Request} (h : Grammar args r)
    (h' : Grammar args r') : r = r' := by
  rw [← parseCommand_eq_request_iff] at h h'
  rw [h] at h'
  exact Command.request.inj h'

theorem requestOutcome_eq_handed_iff (r : Request) (message : Message) (len : ℤ)
    (addr port : Bytes) : requestOutcome n r = .handed message len addr port ↔
      requestMessage n r = some (message, len) ∧ addr = r.addr ∧ port = r.port := by
  unfold requestOutcome
  cases requestMessage n r with
  | none => simp
  | some p =>
    obtain ⟨message', len'⟩ := p
    simp only [Outcome.handed.injEq, Option.some.injEq, Prod.mk.injEq, and_assoc, eq_comm]

/-- A message is handed over for a request of the grammar only. -/
theorem handed_iff_request (name : Bytes) (args : List Bytes) (message : Message) (len : ℤ)
    (addr port : Bytes) :
    gcoapCliCmd n (name :: args) = some (.handed message len addr port) ↔
      ∃ r, Grammar args r ∧ requestMessage n r = some (message, len) ∧ addr = r.addr ∧
        port = r.port := by
  rw [gcoapCliCmd_eq, Option.some.injEq]
  constructor
  · intro h
    cases hargs : parseCommand args with
    | request r =>
      rw [hargs] at h
      exact ⟨r, (parseCommand_eq_request_iff args r).mp hargs,
        (requestOutcome_eq_handed_iff r message len addr port).mp h⟩
    | usage =>
      rw [hargs] at h
      cases h
    | info =>
      rw [hargs] at h
      cases h
    | requestUsage =>
      rw [hargs] at h
      cases h
  · rintro ⟨r, hr, hrest⟩
    rw [(parseCommand_eq_request_iff args r).mpr hr]
    exact (requestOutcome_eq_handed_iff r message len addr port).mpr hrest

/-- A request of the grammar is handed over when its message can be made. -/
theorem handed_iff_made {args : List Bytes} {r : Request} (hr : Grammar args r) (name : Bytes) :
    (∃ message len addr port,
      gcoapCliCmd n (name :: args) = some (.handed message len addr port)) ↔
      requestMessage n r ≠ none := by
  rw [Option.ne_none_iff_exists']
  constructor
  · intro h
    obtain ⟨message, len, addr, port, hhanded⟩ := h
    obtain ⟨r', hr', hmessage, -⟩ := (handed_iff_request name args _ _ _ _).mp hhanded
    exact ⟨_, grammar_unique hr hr' ▸ hmessage⟩
  · intro h
    obtain ⟨⟨message, len⟩, hmessage⟩ := h
    exact ⟨message, len, r.addr, r.port,
      (handed_iff_request name args _ _ _ _).mpr ⟨r, hr, hmessage, rfl, rfl⟩⟩

/-- What is handed over for a request says it when all of its path went in. -/
theorem says_iff_whole {args : List Bytes} {r : Request} (hr : Grammar args r) (name : Bytes) :
    (∀ message len addr port,
      gcoapCliCmd n (name :: args) = some (.handed message len addr port) →
        ∃ r, Grammar args r ∧ Says n r message len ∧ addr = r.addr ∧ port = r.port) ↔
      (requestMessage n r ≠ none → front n r.path = n.segments r.path) := by
  constructor
  · intro h hmade
    obtain ⟨⟨message, len⟩, hmessage⟩ := Option.ne_none_iff_exists'.mp hmade
    obtain ⟨r', hr', hsays, -⟩ := h message len r.addr r.port
      ((handed_iff_request name args _ _ _ _).mpr ⟨r, hr, hmessage, rfl, rfl⟩)
    rw [← grammar_unique hr hr'] at hsays
    exact (says_iff hmessage).mp hsays
  · intro h message len addr port hhanded
    obtain ⟨r', hr', hmessage, haddr, hport⟩ := (handed_iff_request name args _ _ _ _).mp hhanded
    obtain rfl := grammar_unique hr hr'
    have hmade : requestMessage n r ≠ none := by
      rw [hmessage]
      exact Option.some_ne_none _
    exact ⟨r, hr, (says_iff hmessage).mpr (h hmade), haddr, hport⟩

/-- Other words hand nothing over. -/
theorem sendsTyped_of_other {args : List Bytes} (h : ∀ r, ¬ Grammar args r) (name : Bytes) :
    SendsTyped n name args := by
  have hnone : ∀ message len addr port,
      gcoapCliCmd n (name :: args) ≠ some (.handed message len addr port) := by
    intro message len addr port hhanded
    obtain ⟨r, hr, -⟩ := (handed_iff_request name args _ _ _ _).mp hhanded
    exact h r hr
  refine ⟨?_, ⟨?_, ?_⟩, ?_⟩
  · rw [gcoapCliCmd_eq, Option.isSome_some]
  · rintro ⟨message, len, addr, port, hhanded⟩
    exact absurd hhanded (hnone message len addr port)
  · rintro ⟨r, hr, -⟩
    exact absurd hr (h r)
  · intro message len addr port hhanded
    exact absurd hhanded (hnone message len addr port)

/-- The command reads its own words only, and it sends what was typed, all of it or
nothing, exactly when the segments of what fits have room in the table of options and
the data of what does not fit is refused: no result of the option calls is looked at. -/
theorem commands_send_typed_iff (n : Nanocoap) (name : Bytes) (args : List Bytes) :
    SendsTyped n name args ↔ Checked n args := by
  by_cases hgrammar : ∃ r, Grammar args r
  · obtain ⟨r, hr⟩ := hgrammar
    have hfits : (∃ r', Grammar args r' ∧ Fits n r') ↔ Fits n r :=
      ⟨fun ⟨r', hr', hfits⟩ => grammar_unique hr hr' ▸ hfits, fun hfits => ⟨r, hr, hfits⟩⟩
    have hchecked : Checked n args ↔
        (Fits n r ∧ (n.segments r.path).length ≤ n.noptsMax) ∨ (¬ Fits n r ∧ DataRefused n r) :=
      ⟨fun h => h r hr, fun h r' hr' => grammar_unique hr hr' ▸ h⟩
    rw [hchecked, ← request_iff, ← says_iff_whole hr name, ← handed_iff_made hr name, ← hfits]
    constructor
    · intro h
      exact ⟨h.handed_iff, h.message_says⟩
    · rintro ⟨hhanded, hsays⟩
      exact ⟨by rw [gcoapCliCmd_eq, Option.isSome_some], hhanded, hsays⟩
  · have hother : ∀ r, ¬ Grammar args r := fun r hr => hgrammar ⟨r, hr⟩
    exact iff_of_true (sendsTyped_of_other hother name) fun r hr => absurd hr (hother r)

/-- RIOT as it comes: 128 bytes, sixteen options, a token of two bytes, and the segments
between the slashes. -/
def exampleNanocoap : Nanocoap where
  bufSize := 128
  noptsMax := 16
  headerLen := 6
  headerLen_le := by decide
  segments path := (path.splitOn 47).filter fun s => s ≠ []
  segmentLen s := 1 + (if s.length < 13 then 0 else if s.length < 269 then 1 else 2) + s.length

/-- `coap get 2001:db8::1 5683 /a/a/a/a/a/a/a/a/a/a/a/a/a/a/a/a/a`: of seventeen segments
sixteen are sent. -/
theorem seventeen_segments_shortened :
    ¬ ∀ (n : Nanocoap) (name : Bytes) (args : List Bytes), SendsTyped n name args := by
  intro h
  let path := (List.replicate 17 (ascii "/a")).flatten
  have hget := h exampleNanocoap (ascii "coap")
    [ascii "get", ascii "2001:db8::1", ascii "5683", path]
  have hgrammar : Grammar [ascii "get", ascii "2001:db8::1", ascii "5683", path]
      ⟨1, false, ascii "2001:db8::1", ascii "5683", path, []⟩ :=
    Grammar.get false _ _ path fun _ => by decide
  have hmessage := requestMessage_of_empty (n := exampleNanocoap)
    (r := ⟨1, false, ascii "2001:db8::1", ascii "5683", path, []⟩) rfl
  obtain ⟨r, hr, hsays, -⟩ := hget.message_says _ _ _ _
    ((handed_iff_request (ascii "coap") _ _ _ _ _).mpr ⟨_, hgrammar, hmessage, rfl, rfl⟩)
  rw [← grammar_unique hgrammar hr] at hsays
  exact absurd ((says_iff hmessage).mp hsays) (by decide)

end IotLabTraining.GcoapMessage
