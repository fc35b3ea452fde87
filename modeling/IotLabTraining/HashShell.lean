import IotLabTraining.MessageEncryption

/-!
# The hash exercise

The handlers of `sha256` and `sha3`, with the bodies of the notebook. Each of them has a static
buffer for the hash and another one for its digits, where only the digits are written: the
string ends in the zero that a static buffer begins with. The hashes and the hexadecimal text
are parameters with what is known of them.
-/
namespace IotLabTraining.HashShell
open Buffers Runs
open MessageEncryption (Line Result isHex zero_notMem_of_isHex)

def SHA256_DIGEST_LENGTH : ℕ := 32
def SHA3_256_DIGEST_LENGTH : ℕ := 32

/-- The words of a command line, the other commands, the two hashes, and `fmt_bytes_hex` with
its inverse. -/
structure Riot where
  split : Bytes → List Bytes
  other : Bytes → Result
  sha256 : Bytes → Bytes
  sha3 : Bytes → Bytes
  bytesHex : Bytes → Bytes
  hexBytes : Bytes → Bytes
  sha256_length : ∀ m, (sha256 m).length = SHA256_DIGEST_LENGTH
  sha3_length : ∀ m, (sha3 m).length = SHA3_256_DIGEST_LENGTH
  hexBytes_bytesHex : ∀ b, hexBytes (bytesHex b) = b
  bytesHex_length : ∀ b, (bytesHex b).length = b.length * 2
  isHex_bytesHex : ∀ b, ∀ c ∈ bytesHex b, isHex c = true

/-- The static buffers of one of the handlers. -/
structure Digest where
  hash : Buffer
  hashHex : Buffer

structure State where
  sha256 : Digest
  sha3 : Digest

def initial : State := ⟨⟨fun _ => 0, fun _ => 0⟩, ⟨fun _ => 0, fun _ => 0⟩⟩

def usage (argv : List Bytes) : Result :=
  ⟨ascii "usage: " ++ cString (argv.headD []) ++ ascii " <input to hash>\n", 1⟩

variable (riot : Riot)

/-- A handler for a hash of `length` bytes. -/
def hashHandler (hash : Bytes → Bytes) (length : ℕ) (label : Bytes) (argv : List Bytes)
    (d : Digest) : Option (Result × Digest) :=
  match argv with
  | [_, input] =>
    (put length d.hash 0 (hash (cString input))).bind fun hashed =>
      (put (length * 2 + 1) d.hashHex 0 (riot.bytesHex (window hashed 0 length))).bind fun hex =>
        (strlen (window hex 0 (length * 2 + 1))).map fun len =>
          (⟨label ++ window hex 0 len ++ [10], 0⟩, ⟨hashed, hex⟩)
  | _ => some (usage argv, d)

def sha256Handler (argv : List Bytes) (s : State) : Option (Result × State) :=
  (hashHandler riot riot.sha256 SHA256_DIGEST_LENGTH (ascii "SHA256: ") argv s.sha256).map
    fun r => (r.1, { s with sha256 := r.2 })

def sha3Handler (argv : List Bytes) (s : State) : Option (Result × State) :=
  (hashHandler riot riot.sha3 SHA3_256_DIGEST_LENGTH (ascii "SHA3: ") argv s.sha3).map
    fun r => (r.1, { s with sha3 := r.2 })

def sha256Name : Bytes := ascii "sha256"
def sha3Name : Bytes := ascii "sha3"

/-- A line typed into the shell. -/
def step : Step State Line Result := fun s line =>
  let argv := riot.split line.bytes
  if argv.head? = some sha256Name then sha256Handler riot argv s
  else if argv.head? = some sha3Name then sha3Handler riot argv s
  else some (riot.other line.bytes, s)

/-! ## What a command shows -/

def shown (hash : Bytes → Bytes) (label : Bytes) (argv : List Bytes) : Result :=
  match argv with
  | [_, input] => ⟨label ++ riot.bytesHex (hash (cString input)) ++ [10], 0⟩
  | _ => usage argv

/-- The answer that a line calls for by itself. -/
def answer (line : Line) : Result :=
  let argv := riot.split line.bytes
  if argv.head? = some sha256Name then shown riot riot.sha256 (ascii "SHA256: ") argv
  else if argv.head? = some sha3Name then shown riot riot.sha3 (ascii "SHA3: ") argv
  else riot.other line.bytes

/-- Behind the digits there is still the zero. -/
def Terminated (d : Digest) (length : ℕ) : Prop := d.hashHex (length * 2) = 0

/-- A handler shows the digits of the hash, and leaves the zero behind them. -/
theorem hashHandler_eq {hash : Bytes → Bytes} {length : ℕ} (h : ∀ m, (hash m).length = length)
    (label : Bytes) (argv : List Bytes) {d : Digest} (hd : Terminated d length) :
    ∃ d', hashHandler riot hash length label argv d = some (shown riot hash label argv, d') ∧
      Terminated d' length := by
  match argv with
  | [] => exact ⟨d, rfl, hd⟩
  | [_] => exact ⟨d, rfl, hd⟩
  | _ :: _ :: _ :: _ => exact ⟨d, rfl, hd⟩
  | [name, input] =>
    have hhash := h (cString input)
    have hwindow : window (store d.hash 0 (hash (cString input))) 0 length =
        hash (cString input) := by
      rw [← hhash, window_store_length]
    have hhex : (riot.bytesHex (hash (cString input))).length = length * 2 := by
      rw [riot.bytesHex_length, hhash]
    have hzero : d.hashHex (riot.bytesHex (hash (cString input))).length = 0 := by
      rw [hhex]
      exact hd
    have hspells := spells_store_of_zero hzero
    have hfree := zero_notMem_of_isHex (riot.isHex_bytesHex (hash (cString input)))
    have hlen := hspells.strlen_eq hfree (n := length * 2 + 1) (by omega)
    refine ⟨⟨store d.hash 0 (hash (cString input)),
      store d.hashHex 0 (riot.bytesHex (hash (cString input)))⟩, ?_, ?_⟩
    · rw [hashHandler, put, if_pos (by omega), Option.bind_some, hwindow, put,
        if_pos (by omega), Option.bind_some, hlen, Option.map_some, hspells.window_eq, shown]
    · have hle : 0 + (riot.bytesHex (hash (cString input))).length ≤ length * 2 := by omega
      exact (store_of_le d.hashHex _ hle).trans hd

/-! ## Sessions -/

/-- Both strings still have their end. -/
structure Consistent (s : State) : Prop where
  sha256 : Terminated s.sha256 SHA256_DIGEST_LENGTH
  sha3 : Terminated s.sha3 SHA3_256_DIGEST_LENGTH

theorem step_eq {s : State} (h : Consistent s) (line : Line) :
    ∃ s', step riot s line = some (answer riot line, s') ∧ Consistent s' := by
  simp only [step, answer]
  split_ifs
  · obtain ⟨d, hd, hterminated⟩ := hashHandler_eq riot riot.sha256_length (ascii "SHA256: ")
      (riot.split line.bytes) h.sha256
    exact ⟨{ s with sha256 := d }, by rw [sha256Handler, hd, Option.map_some], hterminated, h.sha3⟩
  · obtain ⟨d, hd, hterminated⟩ := hashHandler_eq riot riot.sha3_length (ascii "SHA3: ")
      (riot.split line.bytes) h.sha3
    exact ⟨{ s with sha3 := d }, by rw [sha3Handler, hd, Option.map_some], h.sha256, hterminated⟩
  · exact ⟨s, rfl, h⟩

/-- A hash command: its name, and the hash of its argument. -/
def digestOf (line : Line) : Option (Bytes × Bytes) :=
  match riot.split line.bytes with
  | [name, input] =>
    if name = sha256Name then some (name, riot.sha256 (cString input))
    else if name = sha3Name then some (name, riot.sha3 (cString input))
    else none
  | _ => none

def labelOf (name : Bytes) : Bytes :=
  if name = sha256Name then ascii "SHA256: " else ascii "SHA3: "

/-- The labels differ in their fourth character. -/
theorem name_eq_of_label {name name' x y : Bytes} (hname : name = sha256Name ∨ name = sha3Name)
    (hname' : name' = sha256Name ∨ name' = sha3Name)
    (h : labelOf name ++ x = labelOf name' ++ y) : name = name' := by
  have hlength (n : Bytes) (hn : n = sha256Name ∨ n = sha3Name) : 3 < (labelOf n).length := by
    rcases hn with rfl | rfl
    · decide
    · decide
  have hfourth := congrArg (fun t => t[3]?) h
  simp only [List.getElem?_append_left (hlength name hname),
    List.getElem?_append_left (hlength name' hname')] at hfourth
  rcases hname with rfl | rfl
  · rcases hname' with rfl | rfl
    · rfl
    · exact absurd hfourth (by decide)
  · rcases hname' with rfl | rfl
    · exact absurd hfourth (by decide)
    · rfl

variable {riot}

theorem answer_of_digest {line : Line} {name digest : Bytes}
    (h : digestOf riot line = some (name, digest)) :
    answer riot line = ⟨labelOf name ++ riot.bytesHex digest ++ [10], 0⟩ ∧
      (name = sha256Name ∨ name = sha3Name) := by
  unfold digestOf at h
  split at h
  · rename_i word input hargv
    simp only [answer, hargv, List.head?_cons, Option.some.injEq]
    split_ifs at h ⊢ with hsha256 hsha3
    · obtain ⟨rfl, rfl⟩ := Prod.mk.inj (Option.some.inj h)
      exact ⟨by rw [labelOf, if_pos hsha256]; rfl, Or.inl hsha256⟩
    · obtain ⟨rfl, rfl⟩ := Prod.mk.inj (Option.some.inj h)
      exact ⟨by rw [labelOf, if_neg hsha256]; rfl, Or.inr hsha3⟩
  · cases h

/-- Two hash commands show the same exactly if they are the same with the same hash. -/
theorem answer_eq_iff {line line' : Line} {d d' : Bytes × Bytes}
    (h : digestOf riot line = some d) (h' : digestOf riot line' = some d') :
    answer riot line = answer riot line' ↔ d = d' := by
  obtain ⟨name, digest⟩ := d
  obtain ⟨name', digest'⟩ := d'
  obtain ⟨hanswer, hname⟩ := answer_of_digest h
  obtain ⟨hanswer', hname'⟩ := answer_of_digest h'
  rw [hanswer, hanswer', Result.mk.injEq, and_iff_left rfl, Prod.mk.injEq]
  constructor
  · intro he
    rw [List.append_assoc, List.append_assoc] at he
    have hnames := name_eq_of_label hname hname' he
    subst hnames
    have hdigits := List.append_cancel_right (List.append_cancel_left he)
    have hbytes := congrArg riot.hexBytes hdigits
    rw [riot.hexBytes_bytesHex, riot.hexBytes_bytesHex] at hbytes
    exact ⟨rfl, hbytes⟩
  · intro ⟨hnames, hdigests⟩
    rw [hnames, hdigests]

/-- In every session each line is answered by itself, within the buffers, and hash commands show
the same exactly if they are the same command and the hashes of their arguments agree. -/
theorem session_shows_digests (riot : Riot) (lines : List Line) :
    ∃ rs s, run (step riot) initial lines = some (rs, s) ∧ rs = lines.map (answer riot) ∧
      ∀ line ∈ lines, ∀ line' ∈ lines, ∀ d d', digestOf riot line = some d →
        digestOf riot line' = some d' → (answer riot line = answer riot line' ↔ d = d') := by
  obtain ⟨s, hrun, -⟩ := exists_run_map (fun _ line h => step_eq riot h line)
    (⟨rfl, rfl⟩ : Consistent initial) lines
  exact ⟨_, s, hrun, rfl, fun _ _ _ _ _ _ h h' => answer_eq_iff h h'⟩

end IotLabTraining.HashShell
