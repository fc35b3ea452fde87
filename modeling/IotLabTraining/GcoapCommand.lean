import IotLabTraining.GcoapClient

/-!
# Commands that send nothing

A command can end without a request at every step between its first word and the
call of gcoap. The path buffer is written in the middle of that way, before the
refusals for want of room and the ones of `_send`, while `req_count` only counts
what gcoap takes.
-/
namespace IotLabTraining.GcoapCommand
open GcoapClient

variable (riot : Riot)

/-- The data of a request fits behind its options. -/
def DataFits (r : Request) (id : UInt16) : Prop :=
  r.data.length = 0 ∨ r.data.length ≤ (riot.optFinish
    (((riot.reqInit id r.code r.path).hdrSetType r.msgType).optAddFormat COAP_FORMAT_TEXT) true).2

/-- Interface, address and port of a request are accepted. -/
structure Addressed (r : Request) (netif : UInt16) (addr : Bytes) : Prop where
  netif_eq : chooseNetif riot (riot.splitIface r.addr).2 = some netif
  addr_eq : riot.addrFromStr (riot.splitIface r.addr).1 = some addr
  scope : ¬ (netif = SOCK_ADDR_ANY_NETIF ∧ riot.isLinkLocal addr = true)
  port : toUint16 (atoi r.port) ≠ 0

/-- Nothing stands in the way of a request: the data fits, the remote is accepted, and
gcoap takes it. -/
def Goes (r : Request) (id : UInt16) (taken : Bool) : Prop :=
  DataFits riot r id ∧ (∃ netif addr, Addressed riot r netif addr) ∧ taken = true

/-- The static variables are as before, and so is what the handler answers to every
response of a transfer in progress. -/
structure Untouched (s s' : State) : Prop where
  lastReqPath_eq : s'.lastReqPath = s.lastReqPath
  reqCount_eq : s'.reqCount = s.reqCount
  followOn_eq : ∀ memo pdu remote id,
    respHandler riot s'.lastReqPath memo pdu remote id =
      respHandler riot s.lastReqPath memo pdu remote id

/-- A command that sends nothing changes nothing. -/
def Harmless (s : State) (name : Bytes) (args : List Bytes) (id : UInt16) (taken : Bool) : Prop :=
  (gcoapCliCmd riot s name args id taken).sent = none →
    Untouched riot s (gcoapCliCmd riot s name args id taken).state

variable {riot}

theorem untouched_iff (s s' : State) :
    Untouched riot s s' ↔ s'.lastReqPath = s.lastReqPath ∧ s'.reqCount = s.reqCount := by
  constructor
  · intro h
    exact ⟨h.lastReqPath_eq, h.reqCount_eq⟩
  · rintro ⟨hpath, hcount⟩
    exact ⟨hpath, hcount, fun memo pdu remote id => by rw [hpath]⟩

theorem buildRequest_isSome_iff (r : Request) (id : UInt16) :
    (buildRequest riot r id).isSome = true ↔ DataFits riot r id := by
  rw [buildRequest, DataFits]
  by_cases hempty : r.data.length = 0
  · rw [if_pos hempty]
    exact iff_of_true rfl (Or.inl hempty)
  · rw [if_neg hempty, or_iff_right hempty]
    dsimp only
    split_ifs with hroom
    · exact iff_of_true rfl hroom
    · exact iff_of_false Bool.false_ne_true hroom

/-- `_send` finds a remote for what is addressed well, and for nothing else. -/
theorem parseRemote_eq_ok_iff (r : Request) (remote : Remote) :
    parseRemote riot r.addr r.port = .ok remote ↔
      Addressed riot r remote.netif remote.addr ∧ remote.port = toUint16 (atoi r.port) := by
  unfold parseRemote
  constructor
  · intro h
    cases hnetif : chooseNetif riot (riot.splitIface r.addr).2 with
    | none =>
      rw [hnetif] at h
      cases h
    | some netif =>
      rw [hnetif] at h
      cases haddr : riot.addrFromStr (riot.splitIface r.addr).1 with
      | none =>
        simp only [haddr] at h
        cases h
      | some addr =>
        simp only [haddr] at h
        split_ifs at h with hscope hport
        obtain rfl := Except.ok.inj h
        exact ⟨⟨hnetif, haddr, hscope, hport⟩, rfl⟩
  · rintro ⟨⟨hnetif, haddr, hscope, hport⟩, hremote⟩
    simp only [hnetif, haddr, if_neg hscope, if_neg hport]
    rw [← hremote]

/-- The ways through a complete command: it is refused for want of room, refused by
`_send`, not taken, or sent. Only what is sent is counted. -/
theorem requestCmd_cases (riot : Riot) (s : State) (r : Request) (id : UInt16) (taken : Bool) :
    (Goes riot r id taken ∧ (requestCmd riot s r id taken).sent.isSome = true) ∨
    (¬ Goes riot r id taken ∧ (requestCmd riot s r id taken).sent = none ∧
      (requestCmd riot s r id taken).state = ⟨storedPath r.path, s.reqCount⟩) := by
  unfold requestCmd
  cases hbuild : buildRequest riot r id with
  | none =>
    refine Or.inr ⟨?_, rfl, rfl⟩
    intro h
    obtain ⟨hfits, -⟩ := h
    rw [← buildRequest_isSome_iff, hbuild] at hfits
    exact Bool.false_ne_true hfits
  | some b =>
    have hfits : DataFits riot r id := by rw [← buildRequest_isSome_iff, hbuild, Option.isSome_some]
    cases hremote : parseRemote riot r.addr r.port with
    | error refusal =>
      refine Or.inr ⟨?_, rfl, rfl⟩
      intro h
      obtain ⟨-, ⟨netif, addr, haddressed⟩, -⟩ := h
      have hok := (parseRemote_eq_ok_iff r ⟨netif, addr, toUint16 (atoi r.port)⟩).mpr
        ⟨haddressed, rfl⟩
      rw [hremote] at hok
      cases hok
    | ok remote =>
      have haddressed := ((parseRemote_eq_ok_iff r remote).mp hremote).1
      cases taken with
      | true => exact Or.inl ⟨⟨hfits, ⟨_, _, haddressed⟩, rfl⟩, rfl⟩
      | false => exact Or.inr ⟨fun hgoes => Bool.false_ne_true hgoes.2.2, rfl, rfl⟩

theorem gcoapCliCmd_request {args : List Bytes} {r : Request} (h : parseCommand args = .request r)
    (s : State) (name : Bytes) (id : UInt16) (taken : Bool) :
    gcoapCliCmd riot s name args id taken = requestCmd riot s r id taken := by
  rw [gcoapCliCmd, h]

/-- Help, `info` and an incomplete request leave the static variables alone. -/
theorem gcoapCliCmd_other {args : List Bytes} (h : ∀ r, parseCommand args ≠ .request r)
    (s : State) (name : Bytes) (id : UInt16) (taken : Bool) :
    (gcoapCliCmd riot s name args id taken).state = s := by
  unfold gcoapCliCmd
  cases hargs : parseCommand args with
  | usage => rfl
  | info => rfl
  | requestUsage => rfl
  | request r => exact absurd hargs (h r)

/-- A command that sends nothing changes nothing exactly when it is no complete request,
goes out, or is for the path that the buffer has anyway: the path is stored before the
refusals. -/
theorem commands_harmless_iff (riot : Riot) (s : State) (name : Bytes) (args : List Bytes)
    (id : UInt16) (taken : Bool) : Harmless riot s name args id taken ↔
      ∀ r, parseCommand args = .request r →
        Goes riot r id taken ∨ storedPath r.path = s.lastReqPath := by
  by_cases hrequest : ∃ r, parseCommand args = .request r
  · obtain ⟨r, hr⟩ := hrequest
    have honly : (∀ r', parseCommand args = .request r' →
        Goes riot r' id taken ∨ storedPath r'.path = s.lastReqPath) ↔
        Goes riot r id taken ∨ storedPath r.path = s.lastReqPath := by
      rw [hr]
      simp
    rw [honly, Harmless, gcoapCliCmd_request hr]
    rcases requestCmd_cases riot s r id taken with ⟨hgoes, hsent⟩ | ⟨hstays, hnone, hstate⟩
    · refine iff_of_true (fun hnone => ?_) (Or.inl hgoes)
      rw [hnone] at hsent
      exact absurd hsent Bool.false_ne_true
    · rw [or_iff_right hstays, hstate, untouched_iff]
      simp [hnone]
  · have hother : ∀ r, parseCommand args ≠ .request r := fun r hr => hrequest ⟨r, hr⟩
    refine iff_of_true (fun _ => ?_) fun r hr => absurd hr (hother r)
    rw [gcoapCliCmd_other hother, untouched_iff]
    exact ⟨rfl, rfl⟩

/-- During a transfer of `/board`, `coap get nowhere 5683 /led` sends nothing and sets the
path that the transfer goes on with. -/
theorem refused_get_moves_transfer :
    ¬ ∀ (riot : Riot) (s : State) (name : Bytes) (args : List Bytes) (id : UInt16) (taken : Bool),
      Harmless riot s name args id taken := by
  intro h
  have hled := h exampleRiot ⟨ascii "/board", 1⟩ (ascii "coap")
    [ascii "get", ascii "nowhere", ascii "5683", ascii "/led"] 2 true rfl
  exact absurd hled.lastReqPath_eq (by decide)

end IotLabTraining.GcoapCommand
