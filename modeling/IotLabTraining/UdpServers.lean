import IotLabTraining.Buffers
import IotLabTraining.Runs

/-!
# The UDP servers

The receive loops of the two UDP exercises with the bodies of the notebooks. Each keeps
one buffer of 128 bytes for all datagrams; the receive call copies a datagram to its
start and leaves the rest. What is printed is the string in the buffer, and there is no
result when that string runs past the buffer.
-/
namespace IotLabTraining.UdpServers
open Buffers Runs

/-- The size of `server_buffer` and of `buf`. -/
def BUFFER_SIZE : ℕ := 128

/-- What the receive call returns: an error, or a datagram. -/
inductive Received where
  | error
  | datagram (bytes : Bytes)

/-- What one turn of a loop prints, and the datagram that it sends back. -/
structure Output where
  printed : Bytes
  reply : Option Bytes

/-- The string in the buffer behind the words that announce it. -/
def printBuffer (buffer : Buffer) : Option Bytes :=
  (strlen (window buffer 0 BUFFER_SIZE)).map fun len =>
    ascii "Message received: " ++ window buffer 0 len ++ [10]

/-- The loop of `udp/server`. -/
def udpServer (buffer : Buffer) : Received → Option (Output × Buffer)
  | .error => some (⟨ascii "Error on receive\n", none⟩, buffer)
  | .datagram bytes =>
    let serverBuffer := store buffer 0 bytes
    if bytes.length = 0 then some (⟨ascii "Peer did shut down\n", none⟩, serverBuffer)
    else (printBuffer serverBuffer).map fun out => (⟨out, none⟩, serverBuffer)

/-- The loop of `udp-sock/server`; `sent` is whether the reply can be sent. -/
def udpSockServer (sent : Bool) (buffer : Buffer) : Received → Option (Output × Buffer)
  | .error => some (⟨[], none⟩, buffer)
  | .datagram bytes =>
    let buf := store buffer 0 bytes
    (printBuffer buf).map fun out =>
      if sent then (⟨out, some (window buf 0 bytes.length)⟩, buf)
      else (⟨out ++ ascii "Error sending reply\n", none⟩, buf)

/-! ## Runs of datagrams -/

/-- A datagram that fits into the buffer and is not empty. -/
structure Datagram where
  bytes : Bytes
  length_pos : 0 < bytes.length
  length_le : bytes.length ≤ BUFFER_SIZE

def udpStep : Step Buffer Datagram Output := fun buffer d => udpServer buffer (.datagram d.bytes)

def sockStep : Step Buffer Datagram Output := fun buffer d =>
  udpSockServer true buffer (.datagram d.bytes)

/-- The text of a datagram: its bytes up to the first NUL or the end. -/
def announced (d : Datagram) : Bytes := ascii "Message received: " ++ cString d.bytes ++ [10]

/-- The server stays within the buffer and prints the datagram, whatever came before. -/
def PrintsOwn (step : Step Buffer Datagram Output) (buffer : Buffer) (d : Datagram) : Prop :=
  ∃ o b, step buffer d = some (o, b) ∧ o.printed = announced d

/-- It also sends it back. -/
def PrintsAndEchoes (step : Step Buffer Datagram Output) (buffer : Buffer) (d : Datagram) :
    Prop :=
  ∃ o b, step buffer d = some (o, b) ∧ o.printed = announced d ∧ o.reply = some d.bytes

/-- The datagram has a NUL, or there is one behind it in the buffer. -/
def Terminated (buffer : Buffer) (d : Datagram) : Prop :=
  0 ∈ d.bytes ∨ (d.bytes.length < BUFFER_SIZE ∧ buffer d.bytes.length = 0)

instance (buffer : Buffer) (d : Datagram) : Decidable (Terminated buffer d) :=
  inferInstanceAs (Decidable (_ ∨ _ ∧ _))

/-- At first the buffer is clear. -/
def initial : Buffer := fun _ => 0

/-- The buffer behind a datagram: its bytes, and what was there before. -/
theorem window_received (buffer : Buffer) (d : Datagram) :
    window (store buffer 0 d.bytes) 0 BUFFER_SIZE =
      d.bytes ++ window buffer d.bytes.length (BUFFER_SIZE - d.bytes.length) := by
  have hsplit : BUFFER_SIZE = d.bytes.length + (BUFFER_SIZE - d.bytes.length) := by
    have hle := d.length_le
    omega
  have hbehind := window_store_behind buffer 0 d.bytes (BUFFER_SIZE - d.bytes.length)
  rw [Nat.zero_add] at hbehind
  rw [hsplit, window_add, window_store_length, Nat.zero_add, Nat.add_sub_cancel_left, hbehind]

theorem terminated_iff (buffer : Buffer) (d : Datagram) : Terminated buffer d ↔
    0 ∈ d.bytes ∨
      (window buffer d.bytes.length (BUFFER_SIZE - d.bytes.length)).head? = some 0 := by
  rw [Terminated, window, List.head?_map]
  cases hroom : BUFFER_SIZE - d.bytes.length with
  | zero =>
    have hfull : ¬ d.bytes.length < BUFFER_SIZE := by omega
    simp [hfull]
  | succ n =>
    have hlt : d.bytes.length < BUFFER_SIZE := by omega
    simp [hlt, List.range_succ_eq_map]

/-- What is printed of a buffer is the string in it. -/
theorem printBuffer_eq_some_iff (buffer : Buffer) (out : Bytes) :
    printBuffer buffer = some out ↔ 0 ∈ window buffer 0 BUFFER_SIZE ∧
      ascii "Message received: " ++ cString (window buffer 0 BUFFER_SIZE) ++ [10] = out := by
  have hfront : window buffer 0 (cString (window buffer 0 BUFFER_SIZE)).length =
      cString (window buffer 0 BUFFER_SIZE) := by
    have hprefix : cString (window buffer 0 BUFFER_SIZE) <+: window buffer 0 BUFFER_SIZE :=
      List.takeWhile_prefix _
    have hle := hprefix.length_le
    rw [window_length] at hle
    rw [← window_take buffer 0 hle, ← List.prefix_iff_eq_take.mp hprefix]
  rw [printBuffer, strlen]
  split_ifs with hmem
  · rw [Option.map_some, hfront, Option.some.injEq]
    exact (and_iff_right hmem).symm
  · exact iff_of_false (fun h => by cases h) fun h => hmem h.1

/-- A datagram is printed as it is exactly when its text ends in it or right behind it. -/
theorem printBuffer_received_iff (buffer : Buffer) (d : Datagram) :
    printBuffer (store buffer 0 d.bytes) = some (announced d) ↔ Terminated buffer d := by
  rw [printBuffer_eq_some_iff, terminated_iff, ← cString_append_eq_iff, window_received, announced,
    List.append_left_inj, List.append_right_inj]

theorem udp_printsOwn_iff (buffer : Buffer) (d : Datagram) :
    PrintsOwn udpStep buffer d ↔ Terminated buffer d := by
  rw [← printBuffer_received_iff]
  constructor
  · rintro ⟨o, b, hstep, hprinted⟩
    rw [udpStep, udpServer, if_neg d.length_pos.ne'] at hstep
    obtain ⟨out, hout, he⟩ := Option.map_eq_some_iff.mp hstep
    obtain ⟨rfl, -⟩ := Prod.mk.inj he
    rw [hout, ← hprinted]
  · intro h
    refine ⟨⟨announced d, none⟩, store buffer 0 d.bytes, ?_, rfl⟩
    rw [udpStep, udpServer, if_neg d.length_pos.ne', h, Option.map_some]

theorem sock_printsAndEchoes_iff (buffer : Buffer) (d : Datagram) :
    PrintsAndEchoes sockStep buffer d ↔ Terminated buffer d := by
  rw [← printBuffer_received_iff]
  constructor
  · rintro ⟨o, b, hstep, hprinted, -⟩
    rw [sockStep, udpSockServer] at hstep
    obtain ⟨out, hout, he⟩ := Option.map_eq_some_iff.mp hstep
    obtain ⟨rfl, -⟩ := Prod.mk.inj he
    rw [hout, ← hprinted]
  · intro h
    refine ⟨⟨announced d, some d.bytes⟩, store buffer 0 d.bytes, ?_, rfl, rfl⟩
    rw [sockStep, udpSockServer, h, Option.map_some, if_pos rfl, window_store_length]

/-- Both servers print every datagram as it is, and the second one echoes it, exactly in the
runs where each datagram has a NUL or is followed by one in the buffer. -/
theorem servers_print_iff (datagrams : List Datagram) :
    (Along udpStep (PrintsOwn udpStep) initial datagrams ↔
      Along udpStep Terminated initial datagrams) ∧
    (Along sockStep (PrintsAndEchoes sockStep) initial datagrams ↔
      Along sockStep Terminated initial datagrams) :=
  ⟨along_congr (I := fun _ => True) (fun b d _ => udp_printsOwn_iff b d)
      (fun _ _ _ _ _ _ _ => trivial) trivial datagrams,
    along_congr (I := fun _ => True) (fun b d _ => sock_printsAndEchoes_iff b d)
      (fun _ _ _ _ _ _ _ => trivial) trivial datagrams⟩

/-- Behind `Hello Server` a datagram of one letter is printed with the rest of it. -/
theorem shorter_datagram_differs :
    ¬ ∀ datagrams : List Datagram, Along udpStep (PrintsOwn udpStep) initial datagrams := by
  intro h
  let hello : Datagram := ⟨ascii "Hello Server", by decide, by decide⟩
  let letter : Datagram := ⟨[65], by decide, by decide⟩
  have hrun := h [hello, letter]
  obtain ⟨o, b, hstep, -⟩ := hrun.1
  have hbuffer : b = store initial 0 hello.bytes := by
    rw [udpStep, udpServer, if_neg hello.length_pos.ne'] at hstep
    obtain ⟨out, -, he⟩ := Option.map_eq_some_iff.mp hstep
    exact (Prod.mk.inj he).2.symm
  have hletter := (udp_printsOwn_iff b letter).mp (hrun.2 o b hstep).1
  rw [hbuffer] at hletter
  exact absurd hletter (by decide)

end IotLabTraining.UdpServers
