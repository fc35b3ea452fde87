import IotLabTraining.GcoapClient

/-!
# The endpoint of a request

`_send` reads the interface and the port with `atoi` and stores both in fields of 16
bits; the only checks are that the interface exists and that the port is not zero, and
they come behind the narrowing. Here an `int` has 32 bits, and a numeral that does not
fit in one is read as whatever the C library makes of it.
-/
namespace IotLabTraining.GcoapEndpoint
open GcoapClient (atoi toUint16 Remote Output puts SOCK_ADDR_ANY_NETIF)

/-- What `_send` takes from RIOT and the C library: the parts of an address, the ids of
the interfaces, and `atoi` outside of the range of an `int`. No interface has id 0. -/
structure Net where
  splitIface : Bytes → Bytes × Option Bytes
  netifs : List UInt16
  addrFromStr : Bytes → Option Bytes
  isLinkLocal : Bytes → Bool
  overflow : Bytes → ℤ
  any_notMem : SOCK_ADDR_ANY_NETIF ∉ netifs

variable (net : Net)

/-- `atoi` with an `int` of 32 bits. -/
def atoi32 (s : Bytes) : ℤ :=
  if -2 ^ 31 ≤ atoi s ∧ atoi s < 2 ^ 31 then atoi s else net.overflow s

/-- `gnrc_netif_get_by_pid`, whose argument has 16 bits. -/
def netifGetByPid (pid : ℤ) : Bool := toUint16 pid ∈ net.netifs

/-- The interface without one in the address: the only one, or any. -/
def defaultNetif : UInt16 :=
  match net.netifs with
  | [pid] => pid
  | _ => SOCK_ADDR_ANY_NETIF

def chooseNetif (iface : Option Bytes) : Option UInt16 :=
  match iface with
  | none => some (defaultNetif net)
  | some w => if netifGetByPid net (atoi32 net w) then some (toUint16 (atoi32 net w)) else none

/-- The end of `_send`: its return value, what it printed, the remote that gcoap was
handed, and `req_count`. -/
structure SendResult where
  bytesSent : ℕ
  out : List Output
  handed : Option Remote
  reqCount : UInt16

/-- `_send`; `reqSend` is what `gcoap_req_send` returns for a remote. -/
def send (reqSend : Remote → ℕ) (reqCount : UInt16) (addrStr portStr : Bytes) : SendResult :=
  match chooseNetif net (net.splitIface addrStr).2 with
  | none => ⟨0, [puts "gcoap_cli: interface not valid"], none, reqCount⟩
  | some netif =>
    match net.addrFromStr (net.splitIface addrStr).1 with
    | none => ⟨0, [puts "gcoap_cli: unable to parse destination address"], none, reqCount⟩
    | some addr =>
      if netif = SOCK_ADDR_ANY_NETIF ∧ net.isLinkLocal addr then
        ⟨0, [puts "gcoap_cli: must specify interface for link local target"], none, reqCount⟩
      else if toUint16 (atoi32 net portStr) = 0 then
        ⟨0, [puts "gcoap_cli: unable to parse destination port"], none, reqCount⟩
      else
        let remote : Remote := ⟨netif, addr, toUint16 (atoi32 net portStr)⟩
        ⟨reqSend remote, [], some remote, if 0 < reqSend remote then reqCount + 1 else reqCount⟩

/-! ## What was typed -/

/-- The interface is the one whose id is written; without one it is the only interface, or any
where there is none or a choice. -/
def IfaceTyped (iface : Option Bytes) (netif : UInt16) : Prop :=
  match iface with
  | none => net.netifs = [netif] ∨ (netif = SOCK_ADDR_ANY_NETIF ∧ net.netifs.length ≠ 1)
  | some w => readDigits w = some netif.toNat ∧ netif ∈ net.netifs

/-- The remote is the endpoint that the two strings spell. -/
structure Typed (addrStr portStr : Bytes) (remote : Remote) : Prop where
  iface : IfaceTyped net (net.splitIface addrStr).2 remote.netif
  addr_eq : net.addrFromStr (net.splitIface addrStr).1 = some remote.addr
  scope : net.isLinkLocal remote.addr = true → remote.netif ≠ SOCK_ADDR_ANY_NETIF
  port_eq : readDigits portStr = some remote.port.toNat
  port_ne_zero : remote.port ≠ 0

/-- What is handed to gcoap is the endpoint that was typed, and nothing otherwise. -/
structure Targets (reqSend : Remote → ℕ) (reqCount : UInt16) (addrStr portStr : Bytes) :
    Prop where
  handed_iff : ∀ remote, (send net reqSend reqCount addrStr portStr).handed = some remote ↔
    Typed net addrStr portStr remote
  silent : (send net reqSend reqCount addrStr portStr).handed = none →
    (send net reqSend reqCount addrStr portStr).bytesSent = 0 ∧
      (send net reqSend reqCount addrStr portStr).reqCount = reqCount

/-- A numeral of a number that fits in 16 bits. -/
def Numeral16 (s : Bytes) : Prop := ∃ n : UInt16, readDigits s = some n.toNat

/-- The checks of `_send` pass with this interface and address. -/
structure Passes (addrStr portStr : Bytes) (netif : UInt16) (addr : Bytes) : Prop where
  netif_eq : chooseNetif net (net.splitIface addrStr).2 = some netif
  addr_eq : net.addrFromStr (net.splitIface addrStr).1 = some addr
  scope : ¬ (netif = SOCK_ADDR_ANY_NETIF ∧ net.isLinkLocal addr = true)
  port : toUint16 (atoi32 net portStr) ≠ 0

/-- Strings that pass the checks are numerals of 16 bits, the interface where there is
one and the port. -/
def ReadWhole (addrStr portStr : Bytes) : Prop :=
  ∀ netif addr, Passes net addrStr portStr netif addr →
    (∀ w, (net.splitIface addrStr).2 = some w → Numeral16 w) ∧ Numeral16 portStr

variable {net}

theorem toUint16_natCast (n : UInt16) : toUint16 (n.toNat : ℤ) = n := by
  have hn : n.toNat < 65536 := n.toNat_lt
  have hmod : ((n.toNat : ℤ) % 65536).toNat = n.toNat := by omega
  rw [toUint16, hmod]
  exact UInt16.ofNat_toNat

/-- A numeral of 16 bits comes through `atoi` and the narrowing as it is. -/
theorem toUint16_atoi32 {s : Bytes} {n : UInt16} (h : readDigits s = some n.toNat) :
    toUint16 (atoi32 net s) = n := by
  have hn : n.toNat < 65536 := n.toNat_lt
  rw [atoi32, GcoapClient.atoi_of_readDigits h, if_pos (by omega), toUint16_natCast]

theorem readDigits_toUint16 {s : Bytes} (h : Numeral16 s) :
    readDigits s = some (toUint16 (atoi32 net s)).toNat := by
  obtain ⟨n, hn⟩ := h
  rw [toUint16_atoi32 hn, hn]

theorem send_handed_iff (reqSend : Remote → ℕ) (reqCount : UInt16) (addrStr portStr : Bytes)
    (remote : Remote) : (send net reqSend reqCount addrStr portStr).handed = some remote ↔
      Passes net addrStr portStr remote.netif remote.addr ∧
        remote.port = toUint16 (atoi32 net portStr) := by
  unfold send
  constructor
  · intro h
    cases hnetif : chooseNetif net (net.splitIface addrStr).2 with
    | none =>
      rw [hnetif] at h
      cases h
    | some netif =>
      rw [hnetif] at h
      cases haddr : net.addrFromStr (net.splitIface addrStr).1 with
      | none =>
        simp only [haddr] at h
        cases h
      | some addr =>
        simp only [haddr] at h
        by_cases hscope : netif = SOCK_ADDR_ANY_NETIF ∧ net.isLinkLocal addr = true
        · rw [if_pos hscope] at h
          cases h
        · by_cases hport : toUint16 (atoi32 net portStr) = 0
          · rw [if_neg hscope, if_pos hport] at h
            cases h
          · rw [if_neg hscope, if_neg hport] at h
            obtain rfl := Option.some.inj h
            exact ⟨⟨hnetif, haddr, hscope, hport⟩, rfl⟩
  · rintro ⟨⟨hnetif, haddr, hscope, hport⟩, hremote⟩
    simp only [hnetif, haddr, if_neg hscope, if_neg hport]
    rw [← hremote]

theorem send_silent (reqSend : Remote → ℕ) (reqCount : UInt16) (addrStr portStr : Bytes)
    (h : (send net reqSend reqCount addrStr portStr).handed = none) :
    (send net reqSend reqCount addrStr portStr).bytesSent = 0 ∧
      (send net reqSend reqCount addrStr portStr).reqCount = reqCount := by
  rw [send] at h ⊢
  split
  · exact ⟨rfl, rfl⟩
  · rename_i netif hnetif
    rw [hnetif] at h
    split
    · exact ⟨rfl, rfl⟩
    · rename_i addr haddr
      simp only [haddr] at h
      split_ifs at h ⊢
      · exact ⟨rfl, rfl⟩
      · exact ⟨rfl, rfl⟩

theorem defaultNetif_eq_iff (netif : UInt16) : defaultNetif net = netif ↔
    net.netifs = [netif] ∨ (netif = SOCK_ADDR_ANY_NETIF ∧ net.netifs.length ≠ 1) := by
  unfold defaultNetif
  rcases net.netifs with _ | ⟨pid, _ | ⟨pid', pids⟩⟩
  · simp [eq_comm]
  · simp
  · simp [eq_comm]

/-- The interface that is chosen is the one typed, if the id is a numeral of 16 bits. -/
theorem chooseNetif_eq_some_iff {iface : Option Bytes} (h : ∀ w, iface = some w → Numeral16 w)
    (netif : UInt16) : chooseNetif net iface = some netif ↔ IfaceTyped net iface netif := by
  cases iface with
  | none => rw [chooseNetif, Option.some.injEq, IfaceTyped, defaultNetif_eq_iff]
  | some w =>
    obtain ⟨n, hn⟩ := h w rfl
    simp only [chooseNetif, IfaceTyped, netifGetByPid, toUint16_atoi32 hn, hn,
      decide_eq_true_eq, Option.some.injEq, UInt16.toNat_inj]
    split_ifs with hmem
    · rw [Option.some.injEq]
      exact ⟨fun he => ⟨he, he ▸ hmem⟩, fun he => he.1⟩
    · exact iff_of_false (fun he => by cases he) fun he => hmem (he.1 ▸ he.2)

theorem numeral16_of_ifaceTyped {iface : Option Bytes} {netif : UInt16}
    (h : IfaceTyped net iface netif) : ∀ w, iface = some w → Numeral16 w := by
  rintro w rfl
  exact ⟨netif, h.1⟩

/-- With numerals of 16 bits, what passes the checks is what was typed. -/
theorem passes_iff_typed {addrStr portStr : Bytes}
    (hiface : ∀ w, (net.splitIface addrStr).2 = some w → Numeral16 w)
    (hport : Numeral16 portStr) (remote : Remote) :
    (Passes net addrStr portStr remote.netif remote.addr ∧
      remote.port = toUint16 (atoi32 net portStr)) ↔ Typed net addrStr portStr remote := by
  constructor
  · rintro ⟨⟨hnetif, haddr, hscope, hzero⟩, hremote⟩
    exact {
      iface := (chooseNetif_eq_some_iff hiface _).mp hnetif
      addr_eq := haddr
      scope := fun hlocal hany => hscope ⟨hany, hlocal⟩
      port_eq := by rw [hremote, readDigits_toUint16 hport]
      port_ne_zero := by rwa [hremote] }
  · intro h
    have hremote : remote.port = toUint16 (atoi32 net portStr) := (toUint16_atoi32 h.port_eq).symm
    refine ⟨⟨(chooseNetif_eq_some_iff hiface _).mpr h.iface, h.addr_eq, ?_, ?_⟩, hremote⟩
    · rintro ⟨hany, hlocal⟩
      exact h.scope hlocal hany
    · rw [← hremote]
      exact h.port_ne_zero

/-- `_send` hands out exactly what was typed when and only when the strings that pass its
checks are numerals of 16 bits. -/
theorem send_targets_iff (net : Net) (reqSend : Remote → ℕ) (reqCount : UInt16)
    (addrStr portStr : Bytes) :
    Targets net reqSend reqCount addrStr portStr ↔ ReadWhole net addrStr portStr := by
  constructor
  · intro h netif addr hpasses
    have htyped := (h.handed_iff ⟨netif, addr, toUint16 (atoi32 net portStr)⟩).mp
      ((send_handed_iff reqSend reqCount addrStr portStr _).mpr ⟨hpasses, rfl⟩)
    exact ⟨numeral16_of_ifaceTyped htyped.iface, _, htyped.port_eq⟩
  · intro h
    refine ⟨fun remote => ?_, send_silent reqSend reqCount addrStr portStr⟩
    rw [send_handed_iff]
    constructor
    · intro hpasses
      obtain ⟨hiface, hport⟩ := h _ _ hpasses.1
      exact (passes_iff_typed hiface hport remote).mp hpasses
    · intro htyped
      exact (passes_iff_typed (numeral16_of_ifaceTyped htyped.iface) ⟨_, htyped.port_eq⟩
        remote).mpr htyped

/-! ## The command -/

/-- The network of a client, where an `int` takes the low bits of any numeral. -/
structure Describes (net : Net) (riot : GcoapClient.Riot) : Prop where
  splitIface_eq : riot.splitIface = net.splitIface
  netifs_eq : riot.netifs = net.netifs
  netifGetByPid_eq : ∀ pid, riot.netifGetByPid pid = netifGetByPid net pid
  addrFromStr_eq : riot.addrFromStr = net.addrFromStr
  isLinkLocal_eq : riot.isLinkLocal = net.isLinkLocal
  overflow_eq : ∀ s, toUint16 (net.overflow s) = toUint16 (atoi s)

theorem toUint16_atoi32_of_describes {riot : GcoapClient.Riot} (h : Describes net riot)
    (s : Bytes) : toUint16 (atoi32 net s) = toUint16 (atoi s) := by
  unfold atoi32
  split_ifs
  · rfl
  · exact h.overflow_eq s

theorem chooseNetif_of_describes {riot : GcoapClient.Riot} (h : Describes net riot)
    (iface : Option Bytes) : GcoapClient.chooseNetif riot iface = chooseNetif net iface := by
  cases iface with
  | none =>
    rw [GcoapClient.chooseNetif, chooseNetif, defaultNetif, h.netifs_eq]
    rcases net.netifs with _ | ⟨pid, _ | ⟨pid', pids⟩⟩
    · rfl
    · rfl
    · rfl
  | some w =>
    rw [GcoapClient.chooseNetif, chooseNetif]
    simp only [h.netifGetByPid_eq, netifGetByPid, toUint16_atoi32_of_describes h]

/-- The remote of the client's command is the one that `_send` hands out. -/
theorem parseRemote_eq_ok_iff_handed {riot : GcoapClient.Riot} (h : Describes net riot)
    (reqSend : Remote → ℕ) (reqCount : UInt16) (addrStr portStr : Bytes) (remote : Remote) :
    GcoapClient.parseRemote riot addrStr portStr = .ok remote ↔
      (send net reqSend reqCount addrStr portStr).handed = some remote := by
  rw [GcoapClient.parseRemote, send, h.splitIface_eq, chooseNetif_of_describes h, h.addrFromStr_eq,
    h.isLinkLocal_eq]
  simp only [toUint16_atoi32_of_describes h]
  cases chooseNetif net (net.splitIface addrStr).2 with
  | none => simp
  | some netif =>
    cases net.addrFromStr (net.splitIface addrStr).1 with
    | none => simp
    | some addr =>
      dsimp only
      by_cases hscope : netif = SOCK_ADDR_ANY_NETIF ∧ net.isLinkLocal addr = true
      · simp [hscope]
      · by_cases hport : toUint16 (atoi portStr) = 0
        · simp [hscope, hport]
        · simp [hscope, hport]

/-- The part before a `%`, and the rest behind it when there is one. -/
def splitAtPercent (s : Bytes) : Bytes × Option Bytes :=
  (s.takeWhile fun c => c ≠ 37, if 37 ∈ s then some (s.dropWhile fun c => c ≠ 37).tail else none)

/-- One interface and one address; numerals that are too large wrap around. -/
def exampleNet : Net where
  splitIface := splitAtPercent
  netifs := [6]
  addrFromStr w := if w = ascii "2001:db8::1" then some GcoapClient.exampleAddr else none
  isLinkLocal addr := addr.take 2 = [0xfe, 0x80]
  overflow := atoi
  any_notMem := by decide

/-- Port 65537 is taken for port 1. -/
theorem wrapped_port_sent :
    ¬ ∀ (net : Net) (reqSend : Remote → ℕ) (reqCount : UInt16) (addrStr portStr : Bytes),
      Targets net reqSend reqCount addrStr portStr := by
  intro h
  have hport := h exampleNet (fun _ => 20) 0 (ascii "2001:db8::1") (ascii "65537")
  have htyped := (hport.handed_iff ⟨6, GcoapClient.exampleAddr, 1⟩).mp rfl
  exact absurd htyped.port_eq (by decide)

end IotLabTraining.GcoapEndpoint
