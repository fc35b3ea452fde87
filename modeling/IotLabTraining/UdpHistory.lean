import IotLabTraining.UdpServers

/-!
# What the UDP servers keep of earlier datagrams

The two servers in turns of any kind: errors, empty datagrams, replies that cannot be sent.
What stands in the buffer behind a datagram comes from the longer ones before it, so that the
output of a turn follows from what has been received up to then.
-/
namespace IotLabTraining.UdpHistory
open Buffers Runs UdpServers

/-- What a server meets in one turn; a datagram has room in the buffer, and `sent` is whether a
reply can be sent. -/
structure Turn where
  received : Received
  sent : Bool
  fits : ∀ bytes, received = .datagram bytes → bytes.length ≤ BUFFER_SIZE

def Turn.datagram (t : Turn) : Option Bytes :=
  match t.received with
  | .error => none
  | .datagram bytes => some bytes

def udpTurn : Step Buffer Turn Output := fun buffer t => udpServer buffer t.received

def sockTurn : Step Buffer Turn Output := fun buffer t => udpSockServer t.sent buffer t.received

/-! ## The output of a turn by itself -/

def message (bytes : Bytes) : Bytes := ascii "Message received: " ++ cString bytes ++ [10]

def udpOutput (t : Turn) : Output :=
  match t.received with
  | .error => ⟨ascii "Error on receive\n", none⟩
  | .datagram bytes =>
    if bytes.length = 0 then ⟨ascii "Peer did shut down\n", none⟩ else ⟨message bytes, none⟩

def sockOutput (t : Turn) : Output :=
  match t.received with
  | .error => ⟨[], none⟩
  | .datagram bytes =>
    if t.sent then ⟨message bytes, some bytes⟩
    else ⟨message bytes ++ ascii "Error sending reply\n", none⟩

/-! ## The buffer behind turns -/

/-- The datagrams that have been received. -/
def datagrams (past : List Turn) : List Bytes := past.filterMap Turn.datagram

def bufferAt (past : List Turn) : Buffer := storeEach initial (datagrams past)

/-- The byte that the last datagram has at a place which is long enough for it. -/
def leftAt (past : List Turn) (i : ℕ) : UInt8 :=
  (((datagrams past).filterMap fun t => t[i]?).getLast?).getD 0

/-- The datagram has a NUL, or there is one behind it that the last longer one has left. -/
def Closed (past : List Turn) (bytes : Bytes) : Prop :=
  0 ∈ bytes ∨ bytes.length < BUFFER_SIZE ∧ leftAt past bytes.length = 0

theorem bufferAt_apply (past : List Turn) (i : ℕ) : bufferAt past i = leftAt past i :=
  storeEach_apply initial (datagrams past) i

theorem bufferAt_datagram (past : List Turn) {t : Turn} {bytes : Bytes}
    (h : t.datagram = some bytes) : bufferAt (past ++ [t]) = store (bufferAt past) 0 bytes := by
  rw [bufferAt, datagrams, List.filterMap_append, List.filterMap_cons_some h, storeEach,
    List.foldl_append]
  rfl

theorem bufferAt_error (past : List Turn) {t : Turn} (h : t.datagram = none) :
    bufferAt (past ++ [t]) = bufferAt past := by
  rw [bufferAt, datagrams, List.filterMap_append, List.filterMap_cons_none h, List.filterMap_nil,
    List.append_nil]
  rfl

/-- An empty datagram is printed as the string that is still in the buffer. -/
theorem printBuffer_nil_iff (buffer : Buffer) :
    printBuffer buffer = some (message []) ↔ buffer 0 = 0 := by
  have hhead : (window buffer 0 BUFFER_SIZE).head? = some (buffer 0) := rfl
  have hfree : 0 ∈ window buffer 0 BUFFER_SIZE ∧
      cString (window buffer 0 BUFFER_SIZE) = cString [] ↔ buffer 0 = 0 := by
    rw [← List.nil_append (window buffer 0 BUFFER_SIZE), cString_append_eq_iff, hhead,
      Option.some.injEq]
    exact or_iff_right List.not_mem_nil
  rw [printBuffer_eq_some_iff, message, List.append_left_inj, List.append_right_inj, hfree]

/-- Any datagram that fits is printed as it is exactly if it is closed. -/
theorem printBuffer_store_iff (past : List Turn) {bytes : Bytes}
    (h : bytes.length ≤ BUFFER_SIZE) :
    printBuffer (store (bufferAt past) 0 bytes) = some (message bytes) ↔ Closed past bytes := by
  cases bytes with
  | nil =>
    have hsame : store (bufferAt past) 0 [] = bufferAt past := by
      funext i
      exact store_of_le _ _ (Nat.zero_le i)
    rw [hsame, printBuffer_nil_iff, bufferAt_apply]
    exact ⟨fun hzero => Or.inr ⟨by decide, hzero⟩,
      fun hclosed => (hclosed.resolve_left List.not_mem_nil).2⟩
  | cons c bytes =>
    have hbytes := printBuffer_received_iff (bufferAt past) ⟨c :: bytes, Nat.succ_pos _, h⟩
    rw [Terminated, bufferAt_apply] at hbytes
    exact hbytes

/-! ## The servers -/

/-- The server gives the turn the output that it has by itself. -/
def Answers (step : Step Buffer Turn Output) (own : Turn → Output) (buffer : Buffer) (t : Turn) :
    Prop :=
  ∃ buffer', step buffer t = some (own t, buffer')

theorem udp_next (past : List Turn) {t : Turn} {o : Output} {buffer : Buffer}
    (h : udpTurn (bufferAt past) t = some (o, buffer)) : buffer = bufferAt (past ++ [t]) := by
  obtain ⟨received, sent, fits⟩ := t
  cases received with
  | error =>
    obtain ⟨-, rfl⟩ := Prod.mk.inj (Option.some.inj h)
    exact (bufferAt_error past rfl).symm
  | datagram bytes =>
    rw [bufferAt_datagram past rfl]
    simp only [udpTurn, udpServer] at h
    split_ifs at h
    · exact (Prod.mk.inj (Option.some.inj h)).2.symm
    · obtain ⟨out, -, he⟩ := Option.map_eq_some_iff.mp h
      exact (Prod.mk.inj he).2.symm

theorem sock_next (past : List Turn) {t : Turn} {o : Output} {buffer : Buffer}
    (h : sockTurn (bufferAt past) t = some (o, buffer)) : buffer = bufferAt (past ++ [t]) := by
  obtain ⟨received, sent, fits⟩ := t
  cases received with
  | error =>
    obtain ⟨-, rfl⟩ := Prod.mk.inj (Option.some.inj h)
    exact (bufferAt_error past rfl).symm
  | datagram bytes =>
    rw [bufferAt_datagram past rfl]
    obtain ⟨out, -, he⟩ := Option.map_eq_some_iff.mp h
    split_ifs at he
    · exact (Prod.mk.inj he).2.symm
    · exact (Prod.mk.inj he).2.symm

/-- `udp/server` looks at the datagrams that are not empty. -/
theorem udp_answers_iff (past : List Turn) (t : Turn) :
    Answers udpTurn udpOutput (bufferAt past) t ↔
      ∀ bytes, t.datagram = some bytes → bytes ≠ [] → Closed past bytes := by
  obtain ⟨received, sent, fits⟩ := t
  cases received with
  | error =>
    apply iff_of_true ⟨_, rfl⟩
    intro bytes h
    cases h
  | datagram bytes =>
    have hlooked : (∀ b, some bytes = some b → b ≠ [] → Closed past b) ↔
        (bytes ≠ [] → Closed past bytes) := by simp
    refine Iff.trans ?_ hlooked.symm
    rw [← printBuffer_store_iff past (fits bytes rfl)]
    simp only [Answers, udpTurn, udpServer, udpOutput, List.length_eq_zero_iff]
    split_ifs with hnil
    · exact iff_of_true ⟨_, rfl⟩ fun hne => absurd hnil hne
    · constructor
      · intro h _
        obtain ⟨buffer, h⟩ := h
        obtain ⟨out, hout, he⟩ := Option.map_eq_some_iff.mp h
        rw [hout]
        exact congrArg (fun r => some r.1.printed) he
      · intro h
        rw [h hnil]
        exact ⟨_, rfl⟩

theorem sock_answers_iff (past : List Turn) (t : Turn) :
    Answers sockTurn sockOutput (bufferAt past) t ↔
      ∀ bytes, t.datagram = some bytes → Closed past bytes := by
  obtain ⟨received, sent, fits⟩ := t
  cases received with
  | error =>
    apply iff_of_true ⟨_, rfl⟩
    intro bytes h
    cases h
  | datagram bytes =>
    have hlooked : (∀ b, some bytes = some b → Closed past b) ↔ Closed past bytes := by simp
    refine Iff.trans ?_ hlooked.symm
    rw [← printBuffer_store_iff past (fits bytes rfl)]
    simp only [Answers, sockTurn, udpSockServer, sockOutput, window_store_length]
    constructor
    · intro h
      obtain ⟨buffer, h⟩ := h
      obtain ⟨out, hout, he⟩ := Option.map_eq_some_iff.mp h
      have hprinted := congrArg (fun r => r.1.printed) he
      rw [hout]
      split_ifs at hprinted
      · exact congrArg some hprinted
      · exact congrArg some (List.append_cancel_right hprinted)
    · intro h
      rw [h, Option.map_some]
      split_ifs
      · exact ⟨_, rfl⟩
      · exact ⟨_, rfl⟩

theorem udp_run_iff (turns : List Turn) :
    (∃ buffer, run udpTurn initial turns = some (turns.map udpOutput, buffer)) ↔
      ∀ pre t post, turns = pre ++ t :: post →
        ∀ bytes, t.datagram = some bytes → bytes ≠ [] → Closed pre bytes := by
  rw [exists_run_map_iff]
  refine along_iff_places udp_answers_iff (fun past t h => ?_) [] turns
  obtain ⟨buffer, hturn⟩ := h
  exact ⟨_, udp_next past hturn ▸ hturn⟩

theorem sock_run_iff (turns : List Turn) :
    (∃ buffer, run sockTurn initial turns = some (turns.map sockOutput, buffer)) ↔
      ∀ pre t post, turns = pre ++ t :: post →
        ∀ bytes, t.datagram = some bytes → Closed pre bytes := by
  rw [exists_run_map_iff]
  refine along_iff_places sock_answers_iff (fun past t h => ?_) [] turns
  obtain ⟨buffer, hturn⟩ := h
  exact ⟨_, sock_next past hturn ▸ hturn⟩

/-- In every run of receptions, whatever comes in whatever order, each server gives every turn
the output that it has by itself exactly if the datagrams that it looks at are closed. -/
theorem servers_answer_iff (turns : List Turn) :
    ((∃ buffer, run udpTurn initial turns = some (turns.map udpOutput, buffer)) ↔
      ∀ pre t post, turns = pre ++ t :: post →
        ∀ bytes, t.datagram = some bytes → bytes ≠ [] → Closed pre bytes) ∧
    ((∃ buffer, run sockTurn initial turns = some (turns.map sockOutput, buffer)) ↔
      ∀ pre t post, turns = pre ++ t :: post →
        ∀ bytes, t.datagram = some bytes → Closed pre bytes) :=
  ⟨udp_run_iff turns, sock_run_iff turns⟩

/-! ## The client of the exercise -/

def CLIENT_MESSAGE : Bytes := ascii "Hello Server"

/-- One round of `udp/client`: the datagram that leaves, and what is printed. -/
def udpClient (sent : Bool) : Option Bytes × Bytes :=
  if sent then (some CLIENT_MESSAGE, []) else (none, ascii "could not send\n")

/-- Behind anything else, the message of the client is shown as it is exactly if the last
datagram of more than twelve bytes has a NUL behind the first twelve. -/
theorem closed_message_iff (past : List Turn) :
    Closed past CLIENT_MESSAGE ↔ leftAt past 12 = 0 := by
  have hfree : 0 ∉ CLIENT_MESSAGE := by decide
  have hroom : CLIENT_MESSAGE.length < BUFFER_SIZE := by decide
  exact ⟨fun h => (h.resolve_left hfree).2, fun h => Or.inr ⟨hroom, h⟩⟩

/-- Among clients alone every message is shown as it is. -/
theorem clients_answered {turns : List Turn} (h : ∀ t ∈ turns, ∀ bytes,
    t.datagram = some bytes → ∃ sent, (udpClient sent).1 = some bytes) :
    ∃ buffer, run udpTurn initial turns = some (turns.map udpOutput, buffer) := by
  have hmessage (t : Turn) (ht : t ∈ turns) (bytes : Bytes) (hbytes : t.datagram = some bytes) :
      bytes = CLIENT_MESSAGE := by
    obtain ⟨sent, hsent⟩ := h t ht bytes hbytes
    cases sent with
    | true => exact (Option.some.inj hsent).symm
    | false => cases hsent
  refine (udp_run_iff turns).mpr fun pre t post he bytes hbytes _ => ?_
  have ht : t ∈ turns := by simp [he]
  rw [hmessage t ht bytes hbytes, closed_message_iff, leftAt]
  have hnone : (datagrams pre).filterMap (fun t => t[12]?) = [] := by
    rw [List.filterMap_eq_nil_iff]
    intro d hd
    obtain ⟨u, hu, hd'⟩ := List.mem_filterMap.mp hd
    rw [hmessage u (by simp [he, hu]) d hd']
    rfl
  rw [hnone]
  rfl

end IotLabTraining.UdpHistory
