import IotLabTraining.GcoapClient
import IotLabTraining.Slices

/-!
# Block-wise GET

A `coap get` against a server that answers every request for a block with that
block of a resource. The handler's part of the transfer is one answer after the
other until no request is open; what it asks for and prints is then known block by
block.
-/
namespace IotLabTraining.Blockwise
open Runs GcoapClient Slices

abbrev Effect := List Output × Option (CoapReq × Remote)

/-- A complete `get` command whose remote can be parsed. -/
structure GetCommand (riot : Riot) where
  name : Bytes
  confirmable : Bool
  addr : Bytes
  port : Bytes
  path : Bytes
  remote : Remote
  addr_ne : addr ≠ ascii "-c"
  remote_eq : parseRemote riot addr port = .ok remote
  path_pos : 0 < path.length
  path_lt : path.length < LAST_REQ_PATH_MAX

namespace GetCommand
variable {riot : Riot} (c : GetCommand riot)

def request : Request := ⟨COAP_METHOD_GET, c.confirmable, c.addr, c.port, c.path, []⟩

def args : List Bytes :=
  ascii "get" :: ((if c.confirmable then [ascii "-c"] else []) ++ [c.addr, c.port, c.path])

def event (id : UInt16) : Event := .command c.name c.args id true

theorem parseOptions_args : parseOptions
    ((if c.confirmable then [ascii "-c"] else []) ++ [c.addr, c.port, c.path]) =
      (c.confirmable, [c.addr, c.port, c.path]) := by
  cases h : c.confirmable with
  | false => exact if_neg c.addr_ne
  | true => rfl

theorem parseCommand_args : parseCommand c.args = .request c.request := by
  have hget : methodCodes.idxOf? (ascii "get") = some 0 := rfl
  rw [args, parseCommand, if_neg (by decide), hget]
  dsimp only
  rw [c.parseOptions_args]
  rfl

end GetCommand

/-- A server with one resource. The types of its responses and their message ids are
its own. -/
structure BlockServer where
  body : Bytes
  szx : ℕ
  contentType : ℕ
  answerType : ℕ → CoapType
  answerId : ℕ → UInt16

namespace BlockServer
variable (srv : BlockServer)

def size : ℕ := 2 ^ (srv.szx + 4)

def blockCount : ℕ := sliceCount srv.body.length srv.size

theorem size_pos : 0 < srv.size := Nat.pow_pos (by omega)

/-- The response with block `k`: its slice, and whether bytes remain. -/
def answer (k : ℕ) : Response where
  id := srv.answerId k
  type := srv.answerType k
  codeClass := COAP_CLASS_SUCCESS
  codeDetail := 5
  block2 := some ⟨k, srv.szx, (k + 1) * srv.size < srv.body.length⟩
  contentType := srv.contentType
  payload := slice srv.body srv.size k

end BlockServer

/-- The block that a request asks for; without the option it is the first one. -/
def blockOf (r : CoapReq) : ℕ := (r.block2.map Prod.fst).getD 0

variable (riot : Riot)

/-- The answers of the server to the open request, until there is none; `none` when
the fuel is used up before. `ids` are the message ids that gcoap gives out. -/
def transfer (srv : BlockServer) (ids : ℕ → UInt16) (remote : Remote) :
    ℕ → Session → Option (List Effect)
  | 0, _ => none
  | fuel + 1, t =>
    match t.pending with
    | [] => some []
    | p :: _ =>
      let k := blockOf p.request
      (step riot t (.answer 0 .resp (srv.answer k) remote (ids (k + 1)) true)).bind fun r =>
        (transfer srv ids remote fuel r.2).map fun effs => r.1 :: effs

/-- The handler's part of a `coap get`, entered while no request is open. -/
def blockwiseGet {riot : Riot} (c : GetCommand riot) (srv : BlockServer) (ids : ℕ → UInt16)
    (s : State) (fuel : ℕ) : Option (List Effect) :=
  (step riot ⟨s, []⟩ (c.event (ids 0))).bind fun r => transfer riot srv ids c.remote fuel r.2

/-- The payload bytes that an output shows. -/
def shown : Output → Bytes
  | .text _ => []
  | .payload p => p
  | .hexDump p => p

/-- The requests for the blocks behind the first one, in order and once each; both
lines once; and the body. -/
structure Delivers (srv : BlockServer) (effs : List Effect) : Prop where
  requested : (effs.filterMap fun e => e.2.map fun r => blockOf r.1) =
    List.range' 1 (srv.blockCount - 1)
  start_once : (effs.flatMap Prod.fst).count (puts "--- blockwise start ---") = 1
  complete_once : (effs.flatMap Prod.fst).count (puts "--- blockwise complete ---") = 1
  shown_eq : (effs.flatMap Prod.fst).flatMap shown = srv.body

/-! ## The transfer, block by block -/

variable {riot}

/-- What the handler does with the answer for block `k`. -/
def blockEffect (c : GetCommand riot) (srv : BlockServer) (ids : ℕ → UInt16) (k : ℕ) : Effect :=
  respHandler riot c.path .resp (srv.answer k) c.remote (ids (k + 1))

/-- An open request for block `k` of the command's transfer, and no other one. -/
structure AtBlock (c : GetCommand riot) (k : ℕ) (t : Session) : Prop where
  path_eq : t.state.lastReqPath = c.path
  pending_eq : ∃ p, t.pending = [p] ∧ blockOf p.request = k

theorem more_answer (srv : BlockServer) (k : ℕ) :
    (decide ((k + 1) * srv.size < srv.body.length)) = decide (k + 1 < srv.blockCount) := by
  rw [BlockServer.blockCount, decide_eq_decide]
  exact (succ_lt_sliceCount_iff srv.size_pos srv.body.length k).symm

/-- The follow-on request of block `k` asks for the next block; the last block has
none. -/
theorem blockEffect_request (c : GetCommand riot) (srv : BlockServer) (ids : ℕ → UInt16) (k : ℕ) :
    ((blockEffect c srv ids k).2.map fun r => blockOf r.1) =
      if k + 1 < srv.blockCount then some (k + 1) else none := by
  have hpath : ¬ (k = 0 ∧ c.path.length = 0) := fun h => absurd h.2 c.path_pos.ne'
  rw [blockEffect, respHandler]
  simp only [askNext, BlockServer.answer, more_answer, decide_eq_true_eq, if_neg hpath]
  split_ifs
  · rfl
  · rfl

theorem step_answer {c : GetCommand riot} {k : ℕ} {t : Session} (ht : AtBlock c k t)
    (srv : BlockServer) (ids : ℕ → UInt16) : ∃ origin,
      step riot t (.answer 0 .resp (srv.answer k) c.remote (ids (k + 1)) true) =
        some (blockEffect c srv ids k,
          ⟨t.state, followOnPending origin true (blockEffect c srv ids k).2⟩) := by
  obtain ⟨p, hp, -⟩ := ht.pending_eq
  exact ⟨p.origin, by simp [step, hp, blockEffect, ht.path_eq]⟩

/-- The answer for a block that is not the last one opens the request for the next. -/
theorem step_atBlock {c : GetCommand riot} (srv : BlockServer) (ids : ℕ → UInt16) {k : ℕ}
    {t : Session} (ht : AtBlock c k t) (hk : k + 1 < srv.blockCount) :
    ∃ t', step riot t (.answer 0 .resp (srv.answer k) c.remote (ids (k + 1)) true) =
      some (blockEffect c srv ids k, t') ∧ AtBlock c (k + 1) t' := by
  obtain ⟨origin, hstep⟩ := step_answer ht srv ids
  have hreq := blockEffect_request c srv ids k
  rw [if_pos hk, Option.map_eq_some_iff] at hreq
  obtain ⟨r, hr, hblock⟩ := hreq
  rw [hr] at hstep
  exact ⟨_, hstep, {
    path_eq := ht.path_eq
    pending_eq := ⟨⟨r.1, origin⟩, rfl, hblock⟩ }⟩

theorem step_lastBlock {c : GetCommand riot} (srv : BlockServer) (ids : ℕ → UInt16) {k : ℕ}
    {t : Session} (ht : AtBlock c k t) (hk : ¬ k + 1 < srv.blockCount) :
    ∃ t', step riot t (.answer 0 .resp (srv.answer k) c.remote (ids (k + 1)) true) =
      some (blockEffect c srv ids k, t') ∧ t'.pending = [] := by
  obtain ⟨origin, hstep⟩ := step_answer ht srv ids
  have hreq := blockEffect_request c srv ids k
  rw [if_neg hk, Option.map_eq_none_iff] at hreq
  rw [hreq] at hstep
  exact ⟨_, hstep, rfl⟩

theorem transfer_step {srv : BlockServer} {ids : ℕ → UInt16} {remote : Remote} {t t' : Session}
    {p : Pending} {ps : List Pending} {eff : Effect} (hp : t.pending = p :: ps)
    (hstep : step riot t (.answer 0 .resp (srv.answer (blockOf p.request)) remote
      (ids (blockOf p.request + 1)) true) = some (eff, t')) (fuel : ℕ) :
    transfer riot srv ids remote (fuel + 1) t =
      (transfer riot srv ids remote fuel t').map fun effs => eff :: effs := by
  rw [transfer, hp]
  dsimp only
  rw [hstep, Option.bind_some]

/-- From block `k` on, with `m` blocks behind it. -/
theorem transfer_atBlock (c : GetCommand riot) (srv : BlockServer) (ids : ℕ → UInt16) {m k fuel : ℕ}
    {t : Session} (ht : AtBlock c k t) (hm : k + m + 1 = srv.blockCount) (hfuel : m + 1 < fuel) :
    transfer riot srv ids c.remote fuel t =
      some ((List.range' k (m + 1)).map (blockEffect c srv ids)) := by
  induction m generalizing k fuel t with
  | zero =>
    obtain ⟨fuel, rfl⟩ := Nat.exists_eq_add_of_lt hfuel
    obtain ⟨p, hp, hblock⟩ := ht.pending_eq
    obtain ⟨t', hstep, hend⟩ := step_lastBlock srv ids ht (by omega)
    rw [← hblock] at hstep
    have hfuel' : 0 + 1 + fuel + 1 = fuel + 1 + 1 := by omega
    rw [hfuel', transfer_step hp hstep, transfer, hend, hblock]
    rfl
  | succ m ih =>
    obtain ⟨fuel, rfl⟩ := Nat.exists_eq_add_of_lt hfuel
    obtain ⟨p, hp, hblock⟩ := ht.pending_eq
    obtain ⟨t', hstep, hnext⟩ := step_atBlock srv ids ht (by omega)
    rw [← hblock] at hstep
    rw [transfer_step hp hstep, ih hnext (by omega) (by omega), hblock]
    rfl

/-- The command sends the request for the first block. -/
theorem step_event (c : GetCommand riot) (s : State) (id : UInt16) :
    ∃ eff t, step riot ⟨s, []⟩ (c.event id) = some (eff, t) ∧ AtBlock c 0 t := by
  refine ⟨_, _, rfl, ?_⟩
  have hcmd : gcoapCliCmd riot s c.name c.args id true = requestCmd riot s c.request id true := by
    rw [gcoapCliCmd, c.parseCommand_args]
  have hbuild : buildRequest riot c.request id =
      some ((riot.reqInit id COAP_METHOD_GET c.path).hdrSetType c.request.msgType,
        (riot.optFinish ((riot.reqInit id COAP_METHOD_GET c.path).hdrSetType c.request.msgType)
          false).1) := rfl
  have hremote : parseRemote riot c.request.addr c.request.port = .ok c.remote := c.remote_eq
  have hstored : storedPath c.path = c.path := if_pos c.path_lt
  have hblock : blockOf ((riot.reqInit id COAP_METHOD_GET c.path).hdrSetType c.request.msgType) =
      0 := by
    rw [blockOf, CoapReq.hdrSetType, riot.reqInit_block2]
    rfl
  rw [hcmd, requestCmd, hbuild]
  dsimp only
  rw [hremote]
  dsimp only
  rw [if_pos rfl]
  exact {
    path_eq := hstored
    pending_eq := ⟨_, by rw [commandPending_request c.parseCommand_args]; rfl, hblock⟩ }

/-- The transfer ends, after one answer for each block. -/
theorem blockwiseGet_eq (c : GetCommand riot) (srv : BlockServer) (ids : ℕ → UInt16) (s : State)
    {fuel : ℕ} (hfuel : srv.blockCount < fuel) : blockwiseGet c srv ids s fuel =
      some ((List.range srv.blockCount).map (blockEffect c srv ids)) := by
  obtain ⟨eff, t, hstep, ht⟩ := step_event c s (ids 0)
  have hpos : 0 < srv.blockCount := sliceCount_pos _ _
  have hcount : srv.blockCount - 1 + 1 = srv.blockCount := Nat.sub_add_cancel hpos
  have hall := transfer_atBlock c srv ids (m := srv.blockCount - 1) ht (by omega)
    (hcount.symm ▸ hfuel)
  rw [blockwiseGet, hstep, Option.bind_some, hall, hcount, List.range_eq_range']

/-! ## What is asked for and printed -/

/-- What the handler prints for block `k`. -/
theorem blockEffect_out (c : GetCommand riot) (srv : BlockServer) (ids : ℕ → UInt16) (k : ℕ) :
    (blockEffect c srv ids k).1 =
      (if k = 0 then [puts "--- blockwise start ---"] else []) ++
        (responseLine (srv.answer k) :: payloadOutput (srv.answer k)) ++
        (if k + 1 < srv.blockCount then [] else [puts "--- blockwise complete ---"]) := by
  have hpath : ¬ (k = 0 ∧ c.path.length = 0) := fun h => absurd h.2 c.path_pos.ne'
  have hmore : (askNext riot c.path (srv.answer k) (ids (k + 1))).1 =
      if k + 1 < srv.blockCount then [] else [puts "--- blockwise complete ---"] := by
    simp only [askNext, BlockServer.answer, more_answer, decide_eq_true_eq, if_neg hpath]
    split_ifs
    · rfl
    · rfl
  rw [blockEffect, respHandler, ← hmore]
  rfl

/-- Neither the line of the response nor the ones of its payload begin with a dash. -/
theorem head_ne_dash {pdu : Response} {t : Bytes}
    (h : Output.text t ∈ responseLine pdu :: payloadOutput pdu) : t.head? ≠ some 45 := by
  have hhead : t.head? = some 103 ∨ t.head? = some 44 ∨ t.head? = some 10 := by
    rw [List.mem_cons] at h
    rcases h with h | h
    · rw [Output.text.inj h]
      exact Or.inl rfl
    · unfold payloadOutput at h
      split_ifs at h
      · rw [List.mem_singleton] at h
        rw [Output.text.inj h]
        exact Or.inr (Or.inl rfl)
      · simp only [List.mem_cons, List.not_mem_nil, or_false, Output.text.injEq, reduceCtorEq,
          false_or] at h
        rcases h with rfl | rfl
        · exact Or.inr (Or.inl rfl)
        · exact Or.inr (Or.inr rfl)
      · simp only [List.mem_cons, List.not_mem_nil, or_false, Output.text.injEq,
          reduceCtorEq] at h
        rw [h]
        exact Or.inr (Or.inl rfl)
  intro hdash
  rw [hdash] at hhead
  exact absurd hhead (by decide)

/-- A line of dashes is printed for a block as often as its own part prints it. -/
theorem count_blockEffect (c : GetCommand riot) (srv : BlockServer) (ids : ℕ → UInt16) (k : ℕ)
    {line : Bytes} (hline : line.head? = some 45) :
    (blockEffect c srv ids k).1.count (.text line) =
      (if k = 0 then [puts "--- blockwise start ---"] else []).count (.text line) +
        (if k + 1 < srv.blockCount then [] else
          [puts "--- blockwise complete ---"]).count (.text line) := by
  have hzero : (responseLine (srv.answer k) :: payloadOutput (srv.answer k)).count (.text line) =
      0 := List.count_eq_zero.mpr fun h => head_ne_dash h hline
  rw [blockEffect_out, List.count_append, List.count_append, hzero, Nat.add_zero]

theorem count_start (c : GetCommand riot) (srv : BlockServer) (ids : ℕ → UInt16) (k : ℕ) :
    (blockEffect c srv ids k).1.count (puts "--- blockwise start ---") =
      if k = 0 then 1 else 0 := by
  rw [puts, count_blockEffect c srv ids k (by decide)]
  split_ifs
  all_goals decide

theorem count_complete (c : GetCommand riot) (srv : BlockServer) (ids : ℕ → UInt16) {k : ℕ}
    (hk : k < srv.blockCount) :
    (blockEffect c srv ids k).1.count (puts "--- blockwise complete ---") =
      if k = srv.blockCount - 1 then 1 else 0 := by
  have hlast : k = srv.blockCount - 1 ↔ ¬ k + 1 < srv.blockCount := by omega
  rw [puts, count_blockEffect c srv ids k (by decide)]
  simp only [hlast, ite_not]
  split_ifs
  all_goals decide

/-- The bytes of a payload that are shown: text ends at a NUL, a dump has them all. -/
theorem shown_payloadOutput (pdu : Response) : (payloadOutput pdu).flatMap shown =
    if printsPayload pdu then cString pdu.payload else pdu.payload := by
  unfold payloadOutput
  split_ifs with hempty hprints hprints
  · rw [List.length_eq_zero_iff.mp hempty]
    rfl
  · rw [List.length_eq_zero_iff.mp hempty]
    rfl
  · simp [shown]
  · simp [shown]

theorem printsPayload_answer (srv : BlockServer) (k : ℕ) : printsPayload (srv.answer k) =
    (srv.contentType = COAP_FORMAT_TEXT || srv.contentType = COAP_FORMAT_LINK) := by
  have hclient : decide (COAP_CLASS_SUCCESS = COAP_CLASS_CLIENT_FAILURE) = false := rfl
  have hserver : decide (COAP_CLASS_SUCCESS = COAP_CLASS_SERVER_FAILURE) = false := rfl
  rw [printsPayload, BlockServer.answer, hclient, hserver, Bool.or_false, Bool.or_false]

theorem shown_blockEffect (c : GetCommand riot) (srv : BlockServer) (ids : ℕ → UInt16) (k : ℕ) :
    (blockEffect c srv ids k).1.flatMap shown =
      if srv.contentType = COAP_FORMAT_TEXT ∨ srv.contentType = COAP_FORMAT_LINK then
        cString (slice srv.body srv.size k)
      else slice srv.body srv.size k := by
  have hfirst : (if k = 0 then [puts "--- blockwise start ---"] else []).flatMap shown = [] := by
    split_ifs
    · rfl
    · rfl
  have hlast : (if k + 1 < srv.blockCount then [] else
      [puts "--- blockwise complete ---"]).flatMap shown = [] := by
    split_ifs
    · rfl
    · rfl
  have hline : shown (responseLine (srv.answer k)) = [] := rfl
  rw [blockEffect_out, List.flatMap_append, List.flatMap_append, List.flatMap_cons, hfirst, hlast,
    hline, shown_payloadOutput, printsPayload_answer]
  simp [BlockServer.answer]

/-- Slices that are cut at a NUL make up the body when it has none. -/
theorem flatMap_cString_slice_iff (srv : BlockServer) :
    (List.range srv.blockCount).flatMap (fun k => cString (slice srv.body srv.size k)) = srv.body ↔
      0 ∉ srv.body := by
  constructor
  · intro h hzero
    rw [← h] at hzero
    obtain ⟨k, -, hk⟩ := List.mem_flatMap.mp hzero
    exact zero_notMem_cString _ hk
  · intro h
    have hslices : (fun k => cString (slice srv.body srv.size k)) = slice srv.body srv.size := by
      ext1 k
      exact cString_of_nul_free fun hzero => h (mem_of_mem_slice hzero)
    rw [hslices]
    exact flatMap_slice_sliceCount srv.body srv.size_pos

/-- The bytes shown in a whole transfer are the body, except for text with a NUL. -/
theorem shown_transfer_iff (c : GetCommand riot) (srv : BlockServer) (ids : ℕ → UInt16) :
    (((List.range srv.blockCount).map (blockEffect c srv ids)).flatMap Prod.fst).flatMap shown =
        srv.body ↔
      (srv.contentType ≠ COAP_FORMAT_TEXT ∧ srv.contentType ≠ COAP_FORMAT_LINK) ∨
        0 ∉ srv.body := by
  rw [List.flatMap_map, List.flatMap_assoc]
  simp only [shown_blockEffect]
  by_cases htext : srv.contentType = COAP_FORMAT_TEXT ∨ srv.contentType = COAP_FORMAT_LINK
  · simp only [if_pos htext, flatMap_cString_slice_iff]
    tauto
  · simp only [if_neg htext]
    have hbody : (List.range srv.blockCount).flatMap (fun k => slice srv.body srv.size k) =
        srv.body := flatMap_slice_sliceCount srv.body srv.size_pos
    exact ⟨fun _ => Or.inl (not_or.mp htext), fun _ => hbody⟩

theorem requested_transfer (c : GetCommand riot) (srv : BlockServer) (ids : ℕ → UInt16) :
    (((List.range srv.blockCount).map (blockEffect c srv ids)).filterMap
      fun e => e.2.map fun r => blockOf r.1) = List.range' 1 (srv.blockCount - 1) := by
  have hcount : srv.blockCount = srv.blockCount - 1 + 1 := by
    have hpos : 0 < srv.blockCount := sliceCount_pos _ _
    omega
  rw [List.filterMap_map, ← filterMap_range_succ, ← hcount]
  apply List.filterMap_congr
  intro k _
  exact blockEffect_request c srv ids k

/-- A transfer delivers the body exactly when it is dumped or holds no NUL: the
text formats are printed with `%.*s`, which stops at a NUL in every block. -/
theorem get_delivers_iff (riot : Riot) (c : GetCommand riot) (srv : BlockServer)
    (ids : ℕ → UInt16) (s : State) :
    (∃ effs, (∀ fuel, srv.blockCount < fuel → blockwiseGet c srv ids s fuel = some effs) ∧
        Delivers srv effs) ↔
      (srv.contentType ≠ COAP_FORMAT_TEXT ∧ srv.contentType ≠ COAP_FORMAT_LINK) ∨
        0 ∉ srv.body := by
  rw [← shown_transfer_iff c srv ids]
  constructor
  · rintro ⟨effs, hrun, hdel⟩
    have heffs := hrun _ (Nat.lt_succ_self _)
    rw [blockwiseGet_eq c srv ids s (Nat.lt_succ_self _)] at heffs
    rw [Option.some.inj heffs]
    exact hdel.shown_eq
  · intro hshown
    have hpos : 0 < srv.blockCount := sliceCount_pos _ _
    refine ⟨_, fun fuel hfuel => blockwiseGet_eq c srv ids s hfuel, ?_⟩
    exact {
      requested := requested_transfer c srv ids
      start_once := by
        rw [List.flatMap_map, count_flatMap_range fun k _ => count_start c srv ids k, if_pos hpos]
      complete_once := by
        rw [List.flatMap_map, count_flatMap_range fun k hk => count_complete c srv ids hk,
          if_pos (Nat.sub_lt hpos Nat.one_pos)]
      shown_eq := hshown }

/-- `coap get -c 2001:db8::1 5683 /board`. -/
def boardCommand : GetCommand exampleRiot where
  name := ascii "coap"
  confirmable := true
  addr := ascii "2001:db8::1"
  port := ascii "5683"
  path := ascii "/board"
  remote := ⟨6, exampleAddr, 5683⟩
  addr_ne := by decide
  remote_eq := rfl
  path_pos := by decide
  path_lt := by decide

/-- A text of three bytes, the second one a NUL, in piggybacked responses. -/
def nulText : BlockServer where
  body := [97, 0, 98]
  szx := 2
  contentType := COAP_FORMAT_TEXT
  answerType _ := .ack
  answerId _ := 1

/-- Of the text only what stands before the NUL is printed. -/
theorem nul_text_not_delivered :
    ¬ ∃ effs, (∀ fuel, nulText.blockCount < fuel →
        blockwiseGet boardCommand nulText (fun _ => 1) initial fuel = some effs) ∧
      Delivers nulText effs := by
  rintro ⟨effs, hrun, hdel⟩
  have heffs := hrun 2 (by decide)
  have hshown := hdel.shown_eq
  rw [← Option.some.inj heffs] at hshown
  exact absurd hshown (by decide)

end IotLabTraining.Blockwise
