import IotLabTraining.Runs
import IotLabTraining.Text

/-!
# The gcoap command and its response handler

`coap get|post|put` builds a request, and `_resp_handler` answers a response that
has more blocks with a request of its own. What the handler knows of the request
before is the path in `_last_req_path`; method and type it takes from elsewhere.
A session puts the command, the handler and the requests in flight together.
RIOT is a parameter.
-/
namespace IotLabTraining.GcoapClient
open Runs

def COAP_METHOD_GET : ℕ := 1
def COAP_CLASS_SUCCESS : ℕ := 2
def COAP_CLASS_CLIENT_FAILURE : ℕ := 4
def COAP_CLASS_SERVER_FAILURE : ℕ := 5
def COAP_FORMAT_TEXT : ℕ := 0
def COAP_FORMAT_LINK : ℕ := 40
def SOCK_ADDR_ANY_NETIF : UInt16 := 0
def LAST_REQ_PATH_MAX : ℕ := 32

inductive CoapType where
  | con
  | non
  | ack
  | rst
  deriving DecidableEq

/-- `coap_block1_t`, the value of a block option. -/
structure Block1 where
  blknum : ℕ
  szx : ℕ
  more : Bool
  deriving DecidableEq

/-- A request as it stands in its buffer; `block2` is the block that it asks for. -/
structure CoapReq where
  id : UInt16
  type : CoapType
  code : ℕ
  path : Bytes
  format : Option ℕ
  block2 : Option (ℕ × ℕ)
  payload : Bytes
  deriving DecidableEq

namespace CoapReq

def hdrSetType (pdu : CoapReq) (type : CoapType) : CoapReq := { pdu with type := type }

def optAddFormat (pdu : CoapReq) (format : ℕ) : CoapReq := { pdu with format := some format }

/-- A request has no more flag: the option holds the number and the size. -/
def optAddBlock2Control (pdu : CoapReq) (block : Block1) : CoapReq :=
  { pdu with block2 := some (block.blknum, block.szx) }

end CoapReq

/-- What the handler reads of a response. -/
structure Response where
  id : UInt16
  type : CoapType
  codeClass : ℕ
  codeDetail : ℕ
  block2 : Option Block1
  contentType : ℕ
  payload : Bytes

/-- The state of a `gcoap_request_memo_t` when the handler is called. -/
inductive MemoState where
  | resp
  | timeout
  | err
  deriving DecidableEq

/-- `sock_udp_ep_t`. -/
structure Remote where
  netif : UInt16
  addr : Bytes
  port : UInt16

/-- What the client takes from RIOT: the configured port, requests with the next
message id, the length behind the options with the room left for a payload, and
the network interfaces and addresses. -/
structure Riot where
  gcoapPort : ℕ
  reqInit : UInt16 → ℕ → Bytes → CoapReq
  optFinish : CoapReq → Bool → ℕ × ℕ
  splitIface : Bytes → Bytes × Option Bytes
  netifs : List UInt16
  netifGetByPid : ℤ → Bool
  addrFromStr : Bytes → Option Bytes
  isLinkLocal : Bytes → Bool
  reqInit_type : ∀ id code path, (reqInit id code path).type = .non
  reqInit_code : ∀ id code path, (reqInit id code path).code = code
  reqInit_path : ∀ id code path, path.length < LAST_REQ_PATH_MAX →
    (reqInit id code path).path = path
  reqInit_block2 : ∀ id code path, (reqInit id code path).block2 = none

/-- What is printed: text, a payload as `%.*s`, or a hex dump. -/
inductive Output where
  | text (t : Bytes)
  | payload (p : Bytes)
  | hexDump (p : Bytes)
  deriving DecidableEq

/-- A line with its newline. -/
def puts (s : String) : Output := .text (ascii s ++ [10])

/-- The numeral `%02u` prints. -/
def decimal02 (n : ℕ) : Bytes := if n < 10 then 48 :: decimal n else decimal n

/-- The static variables: the string in `_last_req_path`, and `req_count`. -/
structure State where
  lastReqPath : Bytes
  reqCount : UInt16

def initial : State where
  lastReqPath := []
  reqCount := 0

variable (riot : Riot)

/-! ## The response handler -/

/-- The first line, when there is a block and it is block 0. -/
def blockStart (pdu : Response) : List Output :=
  match pdu.block2 with
  | some block => if block.blknum = 0 then [puts "--- blockwise start ---"] else []
  | none => []

def responseLine (pdu : Response) : Output :=
  .text (ascii "gcoap: response " ++
    ascii (if pdu.codeClass = COAP_CLASS_SUCCESS then "Success" else "Error") ++
    ascii ", code " ++ decimal pdu.codeClass ++ ascii "." ++ decimal02 pdu.codeDetail)

/-- Text and link formats and the payload of failures are printed, others dumped. -/
def printsPayload (pdu : Response) : Bool :=
  pdu.contentType = COAP_FORMAT_TEXT || pdu.contentType = COAP_FORMAT_LINK ||
    pdu.codeClass = COAP_CLASS_CLIENT_FAILURE || pdu.codeClass = COAP_CLASS_SERVER_FAILURE

def payloadOutput (pdu : Response) : List Output :=
  if pdu.payload.length = 0 then [.text (ascii ", empty payload\n")]
  else
    let size := Output.text (ascii ", " ++ decimal pdu.payload.length ++ ascii " bytes\n")
    -- `%.*s` stops at a NUL before the length is reached.
    if printsPayload pdu then [size, .payload (cString pdu.payload), .text [10]]
    else [size, .hexDump pdu.payload]

/-- The request for the block after `block`, in the buffer of the response. -/
def nextRequest (lastReqPath : Bytes) (msgType : CoapType) (block : Block1) (id : UInt16) :
    CoapReq :=
  let pdu := riot.reqInit id COAP_METHOD_GET lastReqPath
  let pdu := if msgType = .ack then pdu.hdrSetType .con else pdu
  pdu.optAddBlock2Control { block with blknum := block.blknum + 1 }

/-- The last part of the handler: what it prints, and the request that it sends. -/
def askNext (lastReqPath : Bytes) (pdu : Response) (id : UInt16) : List Output × Option CoapReq :=
  match pdu.block2 with
  | none => ([], none)
  | some block =>
    if block.more then
      if block.blknum = 0 ∧ lastReqPath.length = 0 then
        ([puts "Path too long; can't complete blockwise"], none)
      else ([], some (nextRequest riot lastReqPath pdu.type block id))
    else ([puts "--- blockwise complete ---"], none)

/-- `_resp_handler`; a request goes to the remote that the response came from. -/
def respHandler (lastReqPath : Bytes) (memo : MemoState) (pdu : Response) (remote : Remote)
    (id : UInt16) : List Output × Option (CoapReq × Remote) :=
  match memo with
  | .timeout =>
    ([.text (ascii "gcoap: timeout for msg ID " ++ decimal02 pdu.id.toNat ++ [10])], none)
  | .err => ([puts "gcoap: error in response"], none)
  | .resp =>
    let next := askNext riot lastReqPath pdu id
    (blockStart pdu ++ responseLine pdu :: payloadOutput pdu ++ next.1,
      next.2.map fun r => (r, remote))

/-! ## The command -/

def isSpace (c : UInt8) : Bool := c = 32 || (9 ≤ c && c ≤ 13)

/-- `atoi`: white space, a sign, and as many digits as follow. -/
def atoi (s : Bytes) : ℤ :=
  match s.dropWhile isSpace with
  | [] => 0
  | c :: cs =>
    if c = 45 then -(digitsValue (cs.takeWhile isDigit) : ℤ)
    else if c = 43 then digitsValue (cs.takeWhile isDigit)
    else digitsValue ((c :: cs).takeWhile isDigit)

/-- What starts with a digit is read up to the first byte that is none. -/
theorem atoi_of_digit {c : UInt8} (hc : isDigit c = true) (cs : Bytes) :
    atoi (c :: cs) = digitsValue ((c :: cs).takeWhile isDigit) := by
  have hspace : isSpace c = false := by
    cases hs : isSpace c with
    | false => rfl
    | true =>
      simp only [isSpace, isDigit, Bool.or_eq_true, Bool.and_eq_true, decide_eq_true_eq,
        UInt8.le_iff_toNat_le, ← UInt8.toNat_inj] at hs hc
      simp at hs hc
      omega
  have hminus : c ≠ 45 := by
    rintro rfl
    exact absurd hc (by decide)
  have hplus : c ≠ 43 := by
    rintro rfl
    exact absurd hc (by decide)
  rw [atoi, List.dropWhile_cons_of_neg (by simp [hspace])]
  simp only [if_neg hminus, if_neg hplus]

/-- A numeral without a sign is read as a whole. -/
theorem atoi_of_readDigits {s : Bytes} {n : ℕ} (h : readDigits s = some n) : atoi s = n := by
  unfold readDigits at h
  split_ifs at h with hdigits
  obtain ⟨hne, hall⟩ := hdigits
  obtain rfl := Option.some.inj h
  cases s with
  | nil => exact absurd rfl hne
  | cons c cs =>
    rw [atoi_of_digit (hall c List.mem_cons_self), List.takeWhile_eq_self_iff.mpr hall]

/-- Conversion of an `int` to `uint16_t`. -/
def toUint16 (z : ℤ) : UInt16 := (z % 65536).toNat.toUInt16

/-- The interface of `_send`: the named one, the only one, or any. -/
def chooseNetif (iface : Option Bytes) : Option UInt16 :=
  match iface with
  | none =>
    match riot.netifs with
    | [pid] => some pid
    | _ => some SOCK_ADDR_ANY_NETIF
  | some w => if riot.netifGetByPid (atoi w) then some (toUint16 (atoi w)) else none

/-- `_send` up to the call of gcoap: the remote, or the message of a refusal. -/
def parseRemote (addrStr portStr : Bytes) : Except Output Remote :=
  match chooseNetif riot (riot.splitIface addrStr).2 with
  | none => .error (puts "gcoap_cli: interface not valid")
  | some netif =>
    match riot.addrFromStr (riot.splitIface addrStr).1 with
    | none => .error (puts "gcoap_cli: unable to parse destination address")
    | some addr =>
      if netif = SOCK_ADDR_ANY_NETIF ∧ riot.isLinkLocal addr then
        .error (puts "gcoap_cli: must specify interface for link local target")
      else if toUint16 (atoi portStr) = 0 then
        .error (puts "gcoap_cli: unable to parse destination port")
      else .ok ⟨netif, addr, toUint16 (atoi portStr)⟩

/-- The words of a complete request command; no data is the empty string. -/
structure Request where
  code : ℕ
  confirmable : Bool
  addr : Bytes
  port : Bytes
  path : Bytes
  data : Bytes
  deriving DecidableEq

def Request.msgType (r : Request) : CoapType := if r.confirmable then .con else .non

/-- What the words behind the name of the command ask for. -/
inductive Command where
  | usage
  | info
  | requestUsage
  | request (r : Request)
  deriving DecidableEq

/-- In the order of the method codes, off by one. -/
def methodCodes : List Bytes := [ascii "get", ascii "post", ascii "put"]

def parseOptions : List Bytes → Bool × List Bytes
  | [] => (false, [])
  | w :: ws => if w = ascii "-c" then (true, ws) else (false, w :: ws)

/-- "get" has three more words, "post" and "put" four. -/
def parseRequest (codePos : ℕ) (confirmable : Bool) : List Bytes → Command
  | [addr, port, path] =>
    if codePos = 0 then .request ⟨codePos + 1, confirmable, addr, port, path, []⟩
    else .requestUsage
  | [addr, port, path, data] =>
    if codePos ≠ 0 then .request ⟨codePos + 1, confirmable, addr, port, path, data⟩
    else .requestUsage
  | _ => .requestUsage

def parseCommand : List Bytes → Command
  | [] => .usage
  | w :: ws =>
    if w = ascii "info" then .info
    else
      match methodCodes.idxOf? w with
      | none => .usage
      | some codePos => parseRequest codePos (parseOptions ws).1 (parseOptions ws).2

/-- The request with its length; `none` when the data does not fit in the buffer. -/
def buildRequest (r : Request) (id : UInt16) : Option (CoapReq × ℕ) :=
  let pdu := (riot.reqInit id r.code r.path).hdrSetType r.msgType
  if r.data.length = 0 then some (pdu, (riot.optFinish pdu false).1)
  else
    let pdu := pdu.optAddFormat COAP_FORMAT_TEXT
    let finish := riot.optFinish pdu true
    if r.data.length ≤ finish.2 then
      some ({ pdu with payload := r.data }, finish.1 + r.data.length)
    else none

/-- A path that does not fit leaves the buffer empty. -/
def storedPath (path : Bytes) : Bytes := if path.length < LAST_REQ_PATH_MAX then path else []

/-- The end of a command: its return value, what it printed, the static variables,
and the request that gcoap took. -/
structure CmdResult where
  rc : ℕ
  out : List Output
  state : State
  sent : Option (CoapReq × Remote)

/-- A complete request command; `taken` is whether gcoap sends the request. -/
def requestCmd (s : State) (r : Request) (id : UInt16) (taken : Bool) : CmdResult :=
  let s := { s with lastReqPath := storedPath r.path }
  match buildRequest riot r id with
  | none => ⟨1, [puts "gcoap_cli: msg buffer too small"], s, none⟩
  | some (pdu, len) =>
    let sending := Output.text (ascii "gcoap_cli: sending msg ID " ++ decimal pdu.id.toNat ++
      ascii ", " ++ decimal len ++ ascii " bytes\n")
    match parseRemote riot r.addr r.port with
    | .error refusal => ⟨0, [sending, refusal, puts "gcoap_cli: msg send failed"], s, none⟩
    | .ok remote =>
      if taken then
        ⟨0, [sending], { s with reqCount := s.reqCount + 1 }, some (pdu, remote)⟩
      else ⟨0, [sending, puts "gcoap_cli: msg send failed"], s, none⟩

/-- `gcoap_cli_cmd`; `args` are the words behind the name. -/
def gcoapCliCmd (s : State) (name : Bytes) (args : List Bytes) (id : UInt16) (taken : Bool) :
    CmdResult :=
  match parseCommand args with
  | .usage => ⟨1, [.text (ascii "usage: " ++ name ++ ascii " <get|post|put|info>\n")], s, none⟩
  | .info =>
    ⟨0, [.text (ascii "CoAP server is listening on port " ++ decimal riot.gcoapPort ++ [10])],
      s, none⟩
  | .requestUsage =>
    ⟨1, [.text (ascii "usage: " ++ name ++
        ascii " <get|post|put> [-c] <addr>[%iface] <port> <path> [data]\n"),
      puts "Options", puts "    -c  Send confirmably (defaults to non-confirmable)"], s, none⟩
  | .request r => requestCmd riot s r id taken

/-! ## Sessions -/

/-- What the request that starts a transfer was: method, path and `-c`. -/
structure Origin where
  code : ℕ
  path : Bytes
  confirmable : Bool
  deriving DecidableEq

def Origin.type (o : Origin) : CoapType := if o.confirmable then .con else .non

def Request.origin (r : Request) : Origin := ⟨r.code, r.path, r.confirmable⟩

/-- A request that gcoap has not answered yet, with the start of its transfer. -/
structure Pending where
  request : CoapReq
  origin : Origin

/-- The client with its open requests; their origins are not known to the code. -/
structure Session where
  state : State
  pending : List Pending

def Session.initial : Session where
  state := GcoapClient.initial
  pending := []

/-- A command is entered, or the handler is called for the open request at an index. -/
inductive Event where
  | command (name : Bytes) (args : List Bytes) (id : UInt16) (taken : Bool)
  | answer (index : ℕ) (memo : MemoState) (pdu : Response) (remote : Remote) (id : UInt16)
      (taken : Bool)

/-- The open request of a command that sent one. -/
def commandPending (args : List Bytes) (sent : Option (CoapReq × Remote)) : List Pending :=
  match parseCommand args, sent with
  | .request r, some p => [⟨p.1, r.origin⟩]
  | _, _ => []

/-- The open request of a handler that sent one: a part of the same transfer. -/
def followOnPending (origin : Origin) (taken : Bool) (sent : Option (CoapReq × Remote)) :
    List Pending :=
  if taken then (sent.map fun p => Pending.mk p.1 origin).toList else []

/-- What is printed and the request that is handed to gcoap. The handler is called
once for a request; an answer that matches none does nothing. -/
def step : Step Session Event (List Output × Option (CoapReq × Remote)) := fun t e =>
  match e with
  | .command name args id taken =>
    let res := gcoapCliCmd riot t.state name args id taken
    some ((res.out, res.sent), ⟨res.state, t.pending ++ commandPending args res.sent⟩)
  | .answer index memo pdu remote id taken =>
    match t.pending[index]? with
    | none => some (([], none), t)
    | some p =>
      let handled := respHandler riot t.state.lastReqPath memo pdu remote id
      let pending := t.pending.eraseIdx index ++ followOnPending p.origin taken handled.2
      some (handled, { t with pending := pending })

/-! ## Follow-on requests -/

/-- A path that the comment on the path buffer has in mind. -/
def Origin.fits (o : Origin) : Prop := 0 < o.path.length ∧ o.path.length < LAST_REQ_PATH_MAX

/-- A success response with a block and more to come. -/
structure Continues (memo : MemoState) (pdu : Response) (block : Block1) : Prop where
  memo_eq : memo = .resp
  class_eq : pdu.codeClass = COAP_CLASS_SUCCESS
  block_eq : pdu.block2 = some block
  more_eq : block.more = true

/-- The request that started the transfer once more, for the block after `block`. -/
structure Repeats (o : Origin) (block : Block1) (r : CoapReq) : Prop where
  code_eq : r.code = o.code
  path_eq : r.path = o.path
  type_eq : r.type = o.type
  block_eq : r.block2 = some (block.blknum + 1, block.szx)

/-- Every follow-on request repeats the one that started its transfer. -/
def RepeatsAt (t : Session) : Event → Prop
  | .command _ _ _ _ => True
  | .answer index memo pdu remote id _ =>
    ∀ p block, t.pending[index]? = some p → p.origin.fits → Continues memo pdu block →
      ∀ r, (respHandler riot t.state.lastReqPath memo pdu remote id).2 = some r →
        Repeats p.origin block r.1

/-- A complete command is only entered while all open requests are for its path. -/
def DisciplinedAt (t : Session) : Event → Prop
  | .command _ args _ _ => ∀ r, parseCommand args = .request r →
      ∀ p ∈ t.pending, p.origin.path = r.path
  | .answer _ _ _ _ _ _ => True

/-- What continues is a GET, a confirmable one when and only when the response is
an acknowledgement. -/
def AnsweredAlikeAt (t : Session) : Event → Prop
  | .command _ _ _ _ => True
  | .answer index memo pdu _ _ _ =>
    ∀ p block, t.pending[index]? = some p → p.origin.fits → Continues memo pdu block →
      p.origin.code = COAP_METHOD_GET ∧ (p.origin.confirmable = true ↔ pdu.type = .ack)

/-- The path buffer has the path of every open transfer. -/
def KeepsPath (t : Session) : Prop :=
  ∀ p ∈ t.pending, t.state.lastReqPath = storedPath p.origin.path

theorem storedPath_of_fits {o : Origin} (h : o.fits) : storedPath o.path = o.path :=
  if_pos h.2

variable {riot}

@[simp] theorem nextRequest_code (path : Bytes) (type : CoapType) (block : Block1) (id : UInt16) :
    (nextRequest riot path type block id).code = COAP_METHOD_GET := by
  unfold nextRequest
  split_ifs
  · exact riot.reqInit_code id COAP_METHOD_GET path
  · exact riot.reqInit_code id COAP_METHOD_GET path

@[simp] theorem nextRequest_type (path : Bytes) (type : CoapType) (block : Block1) (id : UInt16) :
    (nextRequest riot path type block id).type = if type = .ack then .con else .non := by
  unfold nextRequest
  split_ifs
  · rfl
  · exact riot.reqInit_type id COAP_METHOD_GET path

theorem nextRequest_path {path : Bytes} (h : path.length < LAST_REQ_PATH_MAX) (type : CoapType)
    (block : Block1) (id : UInt16) : (nextRequest riot path type block id).path = path := by
  unfold nextRequest
  split_ifs
  · exact riot.reqInit_path id COAP_METHOD_GET path h
  · exact riot.reqInit_path id COAP_METHOD_GET path h

@[simp] theorem nextRequest_block2 (path : Bytes) (type : CoapType) (block : Block1)
    (id : UInt16) :
    (nextRequest riot path type block id).block2 = some (block.blknum + 1, block.szx) := rfl

/-- With a stored path every response with more blocks is followed by a request. -/
theorem respHandler_more {path : Bytes} (hpath : 0 < path.length) {memo : MemoState}
    {pdu : Response} {block : Block1} (h : Continues memo pdu block) (remote : Remote)
    (id : UInt16) : (respHandler riot path memo pdu remote id).2 =
      some (nextRequest riot path pdu.type block id, remote) := by
  have hlong : ¬ (block.blknum = 0 ∧ path.length = 0) := by
    rintro ⟨-, hzero⟩
    omega
  rw [h.memo_eq, respHandler]
  simp only [askNext, h.block_eq, if_pos h.more_eq, if_neg hlong, Option.map_some]

theorem originType_eq_iff (o : Origin) (type : CoapType) :
    (if type = .ack then CoapType.con else .non) = o.type ↔
      (o.confirmable = true ↔ type = .ack) := by
  rw [Origin.type]
  split_ifs with htype hconf hconf
  · simp [htype, hconf]
  · simp [htype, hconf]
  · simp [htype, hconf]
  · simp [htype, hconf]

/-- What the handler sends repeats the start of a transfer for a GET of the type
that the handler takes from the response. -/
theorem repeats_nextRequest_iff {o : Origin} (h : o.fits) (type : CoapType) (block : Block1)
    (id : UInt16) : Repeats o block (nextRequest riot o.path type block id) ↔
      o.code = COAP_METHOD_GET ∧ (o.confirmable = true ↔ type = .ack) := by
  rw [← originType_eq_iff]
  constructor
  · intro hrep
    have hcode := hrep.code_eq
    have htype := hrep.type_eq
    rw [nextRequest_code] at hcode
    rw [nextRequest_type] at htype
    exact ⟨hcode.symm, htype⟩
  · rintro ⟨hcode, htype⟩
    exact {
      code_eq := by rw [nextRequest_code, hcode]
      path_eq := nextRequest_path h.2 type block id
      type_eq := by rw [nextRequest_type, htype]
      block_eq := nextRequest_block2 o.path type block id }

theorem repeatsAt_iff {t : Session} (ht : KeepsPath t) (e : Event) :
    RepeatsAt riot t e ↔ AnsweredAlikeAt t e := by
  cases e with
  | command name args id taken => exact Iff.rfl
  | answer index memo pdu remote id taken =>
    have hiff : ∀ p block, t.pending[index]? = some p → p.origin.fits →
        Continues memo pdu block →
        ((∀ r, (respHandler riot t.state.lastReqPath memo pdu remote id).2 = some r →
            Repeats p.origin block r.1) ↔
          p.origin.code = COAP_METHOD_GET ∧ (p.origin.confirmable = true ↔ pdu.type = .ack)) := by
      intro p block hp hfits hmore
      have hpath : t.state.lastReqPath = p.origin.path := by
        rw [ht p (List.mem_of_getElem? hp), storedPath_of_fits hfits]
      have hiff : Repeats p.origin block (nextRequest riot p.origin.path pdu.type block id) ↔ _ :=
        repeats_nextRequest_iff hfits pdu.type block id
      rw [hpath, respHandler_more hfits.1 hmore, ← hiff]
      simp
    constructor
    · intro h p block hp hfits hmore
      exact (hiff p block hp hfits hmore).mp (h p block hp hfits hmore)
    · intro h p block hp hfits hmore
      exact (hiff p block hp hfits hmore).mpr (h p block hp hfits hmore)

/-- A command stores the path of a complete request, whatever comes of it. -/
theorem gcoapCliCmd_lastReqPath (s : State) (name : Bytes) (args : List Bytes) (id : UInt16)
    (taken : Bool) : (gcoapCliCmd riot s name args id taken).state.lastReqPath =
      match parseCommand args with
      | .request r => storedPath r.path
      | _ => s.lastReqPath := by
  unfold gcoapCliCmd
  cases parseCommand args with
  | usage => rfl
  | info => rfl
  | requestUsage => rfl
  | request r =>
    dsimp only
    unfold requestCmd
    split
    · rfl
    · split
      · rfl
      · split_ifs
        · rfl
        · rfl

theorem commandPending_request {args : List Bytes} {r : Request}
    (h : parseCommand args = .request r) (q : CoapReq × Remote) :
    commandPending args (some q) = [⟨q.1, r.origin⟩] := by
  unfold commandPending
  rw [h]

/-- The open request of a command has the path that the command stores. -/
theorem mem_commandPending {args : List Bytes} {sent : Option (CoapReq × Remote)} {p : Pending}
    (h : p ∈ commandPending args sent) :
    ∃ r, parseCommand args = .request r ∧ p.origin = r.origin := by
  unfold commandPending at h
  split at h
  · rename_i r q hr
    rw [List.mem_singleton] at h
    exact ⟨r, hr, by rw [h]⟩
  · cases h

theorem mem_followOnPending {o : Origin} {taken : Bool} {sent : Option (CoapReq × Remote)}
    {p : Pending} (h : p ∈ followOnPending o taken sent) : p.origin = o := by
  unfold followOnPending at h
  split_ifs at h
  · obtain ⟨q, -, rfl⟩ := Option.map_eq_some_iff.mp (Option.mem_toList.mp h)
    rfl
  · cases h

/-- The discipline keeps the path of every open transfer in the buffer. -/
theorem keepsPath_step {t t' : Session} {e : Event} {eff : List Output × Option (CoapReq × Remote)}
    (ht : KeepsPath t) (hd : DisciplinedAt t e) (h : step riot t e = some (eff, t')) :
    KeepsPath t' := by
  cases e with
  | command name args id taken =>
    obtain ⟨-, rfl⟩ := Prod.mk.inj (Option.some.inj h)
    intro p hp
    dsimp only at hp ⊢
    rw [gcoapCliCmd_lastReqPath]
    rcases List.mem_append.mp hp with hold | hnew
    · cases hr : parseCommand args with
      | usage => exact ht p hold
      | info => exact ht p hold
      | requestUsage => exact ht p hold
      | request r =>
        dsimp only
        rw [hd r hr p hold]
    · obtain ⟨r, hr, horigin⟩ := mem_commandPending hnew
      rw [hr, horigin]
      rfl
  | answer index memo pdu remote id taken =>
    unfold step at h
    dsimp only at h
    cases hp : t.pending[index]? with
    | none =>
      rw [hp] at h
      obtain ⟨-, rfl⟩ := Prod.mk.inj (Option.some.inj h)
      exact ht
    | some q =>
      rw [hp] at h
      obtain ⟨-, rfl⟩ := Prod.mk.inj (Option.some.inj h)
      intro p hmem
      rcases List.mem_append.mp hmem with hold | hnew
      · exact ht p (List.mem_of_mem_eraseIdx hold)
      · rw [mem_followOnPending hnew]
        exact ht q (List.mem_of_getElem? hp)

theorem keepsPath_initial : KeepsPath Session.initial := by
  intro p hp
  cases hp

/-- In a disciplined session the follow-on requests repeat the original ones exactly
when all that continues are GETs, answered by an acknowledgement if and only if
they are confirmable: the handler always asks with GET and takes the type of the
request from the type of the response. -/
theorem followOns_repeat_iff (riot : Riot) (events : List Event)
    (hd : Along (step riot) DisciplinedAt Session.initial events) :
    Along (step riot) (RepeatsAt riot) Session.initial events ↔
      Along (step riot) AnsweredAlikeAt Session.initial events := by
  apply along_congr_of (I := KeepsPath) _ _ keepsPath_initial hd
  · intro t e ht _
    exact repeatsAt_iff ht e
  · intro t e eff t' ht hde h
    exact keepsPath_step ht hde h

/-- 2001:db8::1. -/
def exampleAddr : Bytes := [0x20, 0x01, 0x0d, 0xb8, 0, 0, 0, 0, 0, 0, 0, 0, 0, 0, 0, 1]

/-- One interface, packets of 128 bytes with a token of two, paths of one segment. -/
def exampleRiot : Riot where
  gcoapPort := 5683
  reqInit id code path := ⟨id, .non, code, path, none, none, []⟩
  optFinish pdu payload :=
    let len := 6 + pdu.path.length + (if pdu.format.isSome then 1 else 0) +
      (if payload then 1 else 0)
    (len, 128 - len)
  splitIface addrStr := (addrStr, none)
  netifs := [6]
  netifGetByPid pid := pid = 6
  addrFromStr w := if w = ascii "2001:db8::1" then some exampleAddr else none
  isLinkLocal addr := addr.take 2 = [0xfe, 0x80]
  reqInit_type _ _ _ := rfl
  reqInit_code _ _ _ := rfl
  reqInit_path _ _ _ _ := rfl
  reqInit_block2 _ _ _ := rfl

/-- A command, and the first block of the answer to it. -/
def exchange (args : List Bytes) (type : CoapType) (codeDetail : ℕ) : List Event :=
  [.command (ascii "coap") args 1 true,
    .answer 0 .resp ⟨1, type, COAP_CLASS_SUCCESS, codeDetail, some ⟨0, 0, true⟩,
      COAP_FORMAT_TEXT, List.replicate 16 97⟩ ⟨6, exampleAddr, 5683⟩ 2 true]

theorem exchange_disciplined (args : List Bytes) (type : CoapType) (codeDetail : ℕ) :
    Along (step riot) DisciplinedAt Session.initial (exchange args type codeDetail) := by
  constructor
  · intro r _ p hp
    cases hp
  · intro eff t _
    exact ⟨trivial, fun _ _ _ => trivial⟩

/-- `coap put -c 2001:db8::1 5683 /led on`. -/
def putLed : List Bytes :=
  [ascii "put", ascii "-c", ascii "2001:db8::1", ascii "5683", ascii "/led", ascii "on"]

/-- `coap get -c 2001:db8::1 5683 /board`. -/
def getBoard : List Bytes :=
  [ascii "get", ascii "-c", ascii "2001:db8::1", ascii "5683", ascii "/board"]

/-- A confirmable GET with a piggybacked answer is repeated as it was. -/
theorem getBoard_followed :
    Along (step exampleRiot) (RepeatsAt exampleRiot) Session.initial (exchange getBoard .ack 5) ↔
      Along (step exampleRiot) AnsweredAlikeAt Session.initial (exchange getBoard .ack 5) :=
  followOns_repeat_iff exampleRiot _ (exchange_disciplined getBoard .ack 5)

/-- A PUT goes on as a GET, and a confirmable GET with a separate answer goes on
as a non-confirmable one. -/
theorem put_and_separate_not_repeated :
    (Along (step exampleRiot) DisciplinedAt Session.initial (exchange putLed .ack 4) ∧
      ¬ Along (step exampleRiot) (RepeatsAt exampleRiot) Session.initial
        (exchange putLed .ack 4)) ∧
    (Along (step exampleRiot) DisciplinedAt Session.initial (exchange getBoard .con 5) ∧
      ¬ Along (step exampleRiot) (RepeatsAt exampleRiot) Session.initial
        (exchange getBoard .con 5)) := by
  refine ⟨⟨exchange_disciplined putLed .ack 4, ?_⟩, exchange_disciplined getBoard .con 5, ?_⟩
  · rintro ⟨-, h⟩
    obtain ⟨hrep, -⟩ := h _ _ rfl
    have hfits : Origin.fits ⟨3, ascii "/led", true⟩ := ⟨by decide, by decide⟩
    have hput := hrep ⟨_, 3, ascii "/led", true⟩ ⟨0, 0, true⟩ rfl hfits ⟨rfl, rfl, rfl, rfl⟩ _ rfl
    exact absurd hput.code_eq (by decide)
  · rintro ⟨-, h⟩
    obtain ⟨hrep, -⟩ := h _ _ rfl
    have hfits : Origin.fits ⟨1, ascii "/board", true⟩ := ⟨by decide, by decide⟩
    have hget := hrep ⟨_, 1, ascii "/board", true⟩ ⟨0, 0, true⟩ rfl hfits ⟨rfl, rfl, rfl, rfl⟩ _ rfl
    exact absurd hget.type_eq (by decide)

end IotLabTraining.GcoapClient
