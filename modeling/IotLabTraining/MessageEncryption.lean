import IotLabTraining.Buffers
import IotLabTraining.Runs

/-!
# The encryption exercise

The handlers of `encrypt` and `decrypt`, with the bodies of the notebook, on a shell
that takes lines of 127 characters. RIOT's shell, its hexadecimal texts and its
AES-CTR are parameters with what is known of them. The arrays have the sizes of the
source; a store outside of them gives no result.
-/
namespace IotLabTraining.MessageEncryption
open Buffers Runs

def BUF_SIZE : ℕ := 64
def SHELL_DEFAULT_BUFSIZE : ℕ := 128

def key : Bytes :=
  [0x23, 0xA0, 0x18, 0x53, 0xFA, 0xB3, 0x89, 0x23, 0x65, 0x89, 0x2A, 0xBC, 0x43, 0x99, 0xCC, 0x00]

def ctr : Bytes :=
  [0xf0, 0xf1, 0xf2, 0xf3, 0xf4, 0xf5, 0xf6, 0xf7, 0xf8, 0xf9, 0xfa, 0xfb, 0xfc, 0xfd, 0xfe, 0xff]

/-- What a command prints, and its return value. -/
structure Result where
  printed : Bytes
  code : ℕ

def isHex (c : UInt8) : Bool := (hexValue c).isSome

/-- A word that means itself on a command line: letters and digits. -/
def Plain (w : Bytes) : Prop :=
  w ≠ [] ∧ ∀ c ∈ w, isDigit c || (65 ≤ c && c ≤ 90) || (97 ≤ c && c ≤ 122)

instance (w : Bytes) : Decidable (Plain w) := inferInstanceAs (Decidable (_ ∧ _))

/-- What the exercise takes from RIOT: the words of a command line, an empty one being
typed as two quotes; the other commands; `fmt_bytes_hex` and `fmt_hex_bytes`; and the
keystream of AES-CTR with the counter that is left behind. -/
structure Riot where
  split : Bytes → List Bytes
  other : Bytes → Result
  bytesHex : Bytes → Bytes
  hexBytes : Bytes → Bytes
  keystream : Bytes → Bytes → ℕ → UInt8
  advance : Bytes → ℕ → Bytes
  split_word : ∀ name w, Plain name → Plain w → split (name ++ ascii " " ++ w) = [name, w]
  split_empty : ∀ name, Plain name → split (name ++ ascii " \"\"") = [name, []]
  split_length : ∀ line name w, split line = [name, w] →
    name.length + 1 + w.length ≤ line.length
  split_nul_free : ∀ line name w, 0 ∉ line → split line = [name, w] → 0 ∉ w
  hexBytes_bytesHex : ∀ b, hexBytes (bytesHex b) = b
  bytesHex_length : ∀ b, (bytesHex b).length = 2 * b.length
  isHex_bytesHex : ∀ b, ∀ c ∈ bytesHex b, isHex c = true
  hexBytes_length : ∀ t, (hexBytes t).length ≤ t.length / 2

/-- The static buffers. -/
structure State where
  data : Buffer
  bufStr : Buffer
  ctrCopy : Bytes

variable (riot : Riot)

/-- The text XORed with the keystream from a counter on. -/
def crypt (counter : Bytes) (t : Bytes) : Bytes :=
  t.mapIdx fun i c => c ^^^ riot.keystream key counter i

/-- The buffers behind `memset(data, 0, BUF_SIZE)` and `memcpy(ctr_copy, ctr, 16)`. -/
def prepare (s : State) : State :=
  { s with data := store s.data 0 (List.replicate BUF_SIZE 0), ctrCopy := ctr }

/-- `printf("%s\n", buf_str)`. -/
def printBufStr (s : State) : Result := ⟨cString (window s.bufStr 0 (2 * BUF_SIZE)) ++ [10], 0⟩

def usage (argv : List Bytes) (what : String) : Result :=
  ⟨ascii "usage: " ++ cString (argv.headD []) ++ ascii " <input to " ++ ascii what ++
    ascii ">\n", 1⟩

/-- A text and its terminator stored in `buf_str`, one after the other. -/
def putBufStr (s : State) (t : Bytes) : Option State :=
  (put (2 * BUF_SIZE) s.bufStr 0 t).bind fun b =>
    (put (2 * BUF_SIZE) b t.length [0]).map fun b' => { s with bufStr := b' }

/-- `_encrypt_handler`. -/
def encryptHandler (argv : List Bytes) (s : State) : Option (Result × State) :=
  match argv with
  | [_, input] =>
    let s := prepare s
    (put BUF_SIZE s.data 0 (crypt riot s.ctrCopy input)).bind fun data =>
      let s := { s with data := data, ctrCopy := riot.advance s.ctrCopy input.length }
      (putBufStr s (riot.bytesHex (window data 0 input.length))).map fun s' =>
        (printBufStr s', s')
  | _ => some (usage argv "encrypt", s)

/-- `_decrypt_handler`. -/
def decryptHandler (argv : List Bytes) (s : State) : Option (Result × State) :=
  match argv with
  | [_, input] =>
    let s := prepare s
    (put BUF_SIZE s.data 0 (riot.hexBytes input)).bind fun data =>
      let len := (riot.hexBytes input).length
      (putBufStr { s with data := data, ctrCopy := riot.advance s.ctrCopy len }
        (crypt riot s.ctrCopy (window data 0 len))).map fun s' => (printBufStr s', s')
  | _ => some (usage argv "decrypt", s)

/-- A line that can be typed. -/
structure Line where
  bytes : Bytes
  length_lt : bytes.length < SHELL_DEFAULT_BUFSIZE
  nulFree : 0 ∉ bytes

def encryptName : Bytes := ascii "encrypt"
def decryptName : Bytes := ascii "decrypt"

/-- A line typed into the shell. -/
def step : Step State Line Result := fun s line =>
  let argv := riot.split line.bytes
  if argv.head? = some encryptName then encryptHandler riot argv s
  else if argv.head? = some decryptName then decryptHandler riot argv s
  else some (riot.other line.bytes, s)

/-- A message is refused, or printed as a text that can be typed behind `decrypt`, which
then prints the message from any state. -/
def Inverts (m : Bytes) (r : Result) : Prop :=
  r.code ≠ 0 ∨ ∃ c, r.printed = c ++ [10] ∧ (∀ b ∈ c, isHex b = true) ∧
    ∃ line : Line, riot.split line.bytes = [decryptName, c] ∧
      ∀ t, ∃ r' t', step riot t line = some (r', t') ∧ r'.printed = m ++ [10]

/-- A command stays within the buffers, and what `encrypt` prints is inverted. -/
structure Inverse (s : State) (line : Line) : Prop where
  inBounds : (step riot s line).isSome = true
  inverts : ∀ m, riot.split line.bytes = [encryptName, m] →
    ∀ r s', step riot s line = some (r, s') → Inverts riot m r

/-- The messages that are short enough. -/
def Short (_ : State) (line : Line) : Prop :=
  ∀ m, riot.split line.bytes = [encryptName, m] → m.length ≤ 59

@[simp] theorem crypt_length (counter t : Bytes) : (crypt riot counter t).length = t.length :=
  List.length_mapIdx

/-- Encryption and decryption are the same XOR. -/
@[simp] theorem crypt_crypt (counter t : Bytes) :
    crypt riot counter (crypt riot counter t) = t := by
  apply List.ext_getElem
  · rw [crypt_length, crypt_length]
  · intro i _ _
    simp only [crypt, List.getElem_mapIdx, UInt8.xor_assoc, UInt8.xor_self, UInt8.xor_zero]

theorem zero_notMem_of_isHex {c : Bytes} (h : ∀ b ∈ c, isHex b = true) : 0 ∉ c := by
  intro hzero
  exact absurd (h 0 hzero) (by decide)

theorem plain_of_isHex {c : Bytes} (hne : c ≠ []) (h : ∀ b ∈ c, isHex b = true) : Plain c := by
  refine ⟨hne, fun b hb => ?_⟩
  have hhex := h b hb
  simp only [isHex, hexValue] at hhex
  simp only [isDigit, Bool.or_eq_true, Bool.and_eq_true, decide_eq_true_eq,
    UInt8.le_iff_toNat_le] at hhex ⊢
  split_ifs at hhex with hdigit hupper hlower
  · exact Or.inl (Or.inl hdigit)
  · exact Or.inl (Or.inr ⟨hupper.1, hupper.2.trans (by decide)⟩)
  · exact Or.inr ⟨hlower.1, hlower.2.trans (by decide)⟩
  · cases hhex

/-! ## The handlers -/

theorem putBufStr_isSome_iff (s : State) (t : Bytes) :
    (putBufStr s t).isSome = true ↔ t.length < 2 * BUF_SIZE := by
  simp only [putBufStr, put, Nat.zero_add, List.length_singleton]
  by_cases hall : t.length ≤ 2 * BUF_SIZE
  · rw [if_pos hall, Option.bind_some, Option.isSome_map, Option.isSome_ite, Nat.succ_le_iff]
  · rw [if_neg hall, Option.bind_none, Option.isSome_none]
    exact ⟨fun h => absurd h Bool.false_ne_true, by omega⟩

/-- What is printed of a text without a NUL. -/
theorem putBufStr_print (s : State) {t : Bytes} (hnul : 0 ∉ t) (hlen : t.length < 2 * BUF_SIZE) :
    ∃ s', putBufStr s t = some s' ∧ printBufStr s' = ⟨t ++ [10], 0⟩ := by
  refine ⟨{ s with bufStr := store s.bufStr 0 (t ++ [0]) }, ?_, ?_⟩
  · rw [putBufStr, put, if_pos (by omega), Option.bind_some, put,
      if_pos (by rw [List.length_singleton]; omega), Option.map_some, ← store_store, Nat.zero_add]
  · rw [printBufStr, cString_window_store _ hnul hlen]

theorem encryptHandler_eq (name m : Bytes) (s : State) (hlen : m.length ≤ BUF_SIZE) :
    ∃ s₁, encryptHandler riot [name, m] s =
      (putBufStr s₁ (riot.bytesHex (crypt riot ctr m))).map fun s' => (printBufStr s', s') := by
  have hwindow : window (store (prepare s).data 0 (crypt riot ctr m)) 0 m.length =
      crypt riot ctr m := by
    rw [← crypt_length riot ctr m, window_store_length]
  refine ⟨{ prepare s with
    data := store (prepare s).data 0 (crypt riot ctr m)
    ctrCopy := riot.advance ctr m.length }, ?_⟩
  have hctr : (prepare s).ctrCopy = ctr := rfl
  unfold encryptHandler
  dsimp only
  rw [hctr, put, if_pos (by rwa [crypt_length, Nat.zero_add]), Option.bind_some, hwindow]

theorem decryptHandler_eq (name t : Bytes) (s : State)
    (hlen : (riot.hexBytes t).length ≤ BUF_SIZE) :
    ∃ s₁, decryptHandler riot [name, t] s =
      (putBufStr s₁ (crypt riot ctr (riot.hexBytes t))).map fun s' => (printBufStr s', s') := by
  have hwindow := window_store_length (prepare s).data 0 (riot.hexBytes t)
  refine ⟨{ prepare s with
    data := store (prepare s).data 0 (riot.hexBytes t)
    ctrCopy := riot.advance ctr (riot.hexBytes t).length }, ?_⟩
  have hctr : (prepare s).ctrCopy = ctr := rfl
  unfold decryptHandler
  dsimp only
  rw [hctr, put, if_pos (by rwa [Nat.zero_add]), Option.bind_some, hwindow]

/-- What `encrypt` prints of a message that the buffers have room for. -/
theorem encryptHandler_print (name : Bytes) {m : Bytes} (s : State)
    (hlen : 2 * m.length < 2 * BUF_SIZE) :
    ∃ s', encryptHandler riot [name, m] s =
      some (⟨riot.bytesHex (crypt riot ctr m) ++ [10], 0⟩, s') := by
  obtain ⟨s₁, hs₁⟩ := encryptHandler_eq riot name m s (by omega)
  have hhex : (riot.bytesHex (crypt riot ctr m)).length < 2 * BUF_SIZE := by
    rwa [riot.bytesHex_length, crypt_length]
  obtain ⟨s', hput, hprint⟩ := putBufStr_print s₁
    (zero_notMem_of_isHex (riot.isHex_bytesHex (crypt riot ctr m))) hhex
  exact ⟨s', by rw [hs₁, hput, Option.map_some, hprint]⟩

/-- A message that `encrypt` has room for leaves one byte for the terminator. -/
theorem length_of_encryptHandler {name m : Bytes} {s : State}
    (h : (encryptHandler riot [name, m] s).isSome = true) : 2 * m.length < 2 * BUF_SIZE := by
  by_cases hlen : m.length ≤ BUF_SIZE
  · obtain ⟨s₁, hs₁⟩ := encryptHandler_eq riot name m s hlen
    rwa [hs₁, Option.isSome_map, putBufStr_isSome_iff, riot.bytesHex_length, crypt_length] at h
  · unfold encryptHandler at h
    dsimp only at h
    rw [put, if_neg (by rwa [crypt_length, Nat.zero_add]), Option.bind_none] at h
    cases h

theorem decryptHandler_isSome (name : Bytes) {t : Bytes} (s : State)
    (h : (riot.hexBytes t).length ≤ BUF_SIZE) :
    (decryptHandler riot [name, t] s).isSome = true := by
  obtain ⟨s₁, hs₁⟩ := decryptHandler_eq riot name t s h
  have hroom : BUF_SIZE < 2 * BUF_SIZE := by decide
  rw [hs₁, Option.isSome_map, putBufStr_isSome_iff, crypt_length]
  omega

/-- From any state, `decrypt` gives a message back from its text. -/
theorem decryptHandler_print (name : Bytes) {m : Bytes} (s : State) (hnul : 0 ∉ m)
    (hlen : m.length ≤ BUF_SIZE) :
    ∃ s', decryptHandler riot [name, riot.bytesHex (crypt riot ctr m)] s =
      some (⟨m ++ [10], 0⟩, s') := by
  have hroom : BUF_SIZE < 2 * BUF_SIZE := by decide
  have hbytes := riot.hexBytes_bytesHex (crypt riot ctr m)
  obtain ⟨s₁, hs₁⟩ := decryptHandler_eq riot name (riot.bytesHex (crypt riot ctr m)) s
    (by rwa [hbytes, crypt_length])
  rw [hbytes, crypt_crypt] at hs₁
  obtain ⟨s', hput, hprint⟩ := putBufStr_print s₁ hnul (by omega)
  exact ⟨s', by rw [hs₁, hput, Option.map_some, hprint]⟩

/-! ## The shell -/

variable {riot}

theorem step_encrypt {line : Line} {m : Bytes} (h : riot.split line.bytes = [encryptName, m])
    (s : State) : step riot s line = encryptHandler riot [encryptName, m] s := by
  rw [step]
  rw [h, List.head?_cons, if_pos rfl]

theorem step_decrypt {line : Line} {t : Bytes} (h : riot.split line.bytes = [decryptName, t])
    (s : State) : step riot s line = decryptHandler riot [decryptName, t] s := by
  rw [step]
  rw [h, List.head?_cons, if_neg (show ¬ some decryptName = some encryptName by decide), if_pos rfl]

/-- A word on a line is shorter than the line. -/
theorem typed_length {line : Line} {name w : Bytes} (h : riot.split line.bytes = [name, w]) :
    name.length + 1 + w.length < SHELL_DEFAULT_BUFSIZE :=
  (riot.split_length _ _ _ h).trans_lt line.length_lt

/-- A hexadecimal text for which the line has room can be typed behind `decrypt`. -/
theorem exists_line (riot : Riot) {c : Bytes} (hhex : ∀ b ∈ c, isHex b = true)
    (hlen : c.length ≤ 119) : ∃ line : Line, riot.split line.bytes = [decryptName, c] := by
  have hname : Plain decryptName := by decide
  by_cases hne : c = []
  · rw [hne]
    exact ⟨⟨decryptName ++ ascii " \"\"", by decide, by decide⟩, riot.split_empty _ hname⟩
  · have hfront : (decryptName ++ ascii " ").length = 8 := rfl
    refine ⟨⟨decryptName ++ ascii " " ++ c, ?_, ?_⟩,
      riot.split_word _ _ hname (plain_of_isHex hne hhex)⟩
    · rw [List.length_append, hfront, SHELL_DEFAULT_BUFSIZE]
      omega
    · rw [List.mem_append]
      rintro (hzero | hzero)
      · exact absurd hzero (by decide)
      · exact zero_notMem_of_isHex hhex hzero

/-- Every line is answered when the messages are short. -/
theorem step_isSome {s : State} {line : Line} (h : Short riot s line) :
    (step riot s line).isSome = true := by
  rw [step]
  split_ifs with hencrypt hdecrypt
  · match hargv : riot.split line.bytes with
    | [] => rfl
    | [_] => rfl
    | [name, m] =>
      obtain rfl : name = encryptName := by simpa [hargv] using hencrypt
      have hroom : 59 < BUF_SIZE := by decide
      have hshort := h m hargv
      obtain ⟨s', hs'⟩ := encryptHandler_print riot encryptName s (m := m) (by omega)
      rw [hs']
      rfl
    | _ :: _ :: _ :: _ => rfl
  · match hargv : riot.split line.bytes with
    | [] => rfl
    | [_] => rfl
    | [name, t] =>
      have htyped := typed_length hargv
      have hbytes := riot.hexBytes_length t
      have hroom : SHELL_DEFAULT_BUFSIZE = 2 * BUF_SIZE := rfl
      exact decryptHandler_isSome riot name s (by omega)
    | _ :: _ :: _ :: _ => rfl
  · rfl

/-- What is printed of a short message is inverted. -/
theorem inverts_of_short {line : Line} {m : Bytes}
    (hm : riot.split line.bytes = [encryptName, m]) (hlen : m.length ≤ 59) :
    Inverts riot m ⟨riot.bytesHex (crypt riot ctr m) ++ [10], 0⟩ := by
  have hroom : 59 < BUF_SIZE := by decide
  have hnul := riot.split_nul_free _ _ _ line.nulFree hm
  have hhex := riot.isHex_bytesHex (crypt riot ctr m)
  obtain ⟨line', hline'⟩ := exists_line riot hhex
    (by rw [riot.bytesHex_length, crypt_length]; omega)
  refine Or.inr ⟨_, rfl, hhex, line', hline', fun t => ?_⟩
  obtain ⟨t', ht'⟩ := decryptHandler_print riot decryptName t hnul (by omega)
  exact ⟨_, t', by rw [step_decrypt hline', ht'], rfl⟩

theorem inverse_iff (s : State) (line : Line) : Inverse riot s line ↔ Short riot s line := by
  constructor
  · intro h m hm
    have hroom := h.inBounds
    rw [step_encrypt hm] at hroom
    obtain ⟨s', hs'⟩ := encryptHandler_print riot encryptName s
      (length_of_encryptHandler riot hroom)
    rcases h.inverts m hm _ s' (by rw [step_encrypt hm, hs']) with
      hcode | ⟨c, hc, -, line', hline', -⟩
    · exact absurd rfl hcode
    · have htyped := typed_length hline'
      have hname : decryptName.length = 7 := rfl
      rw [← List.append_cancel_right hc, riot.bytesHex_length, crypt_length, hname,
        SHELL_DEFAULT_BUFSIZE] at htyped
      omega
  · intro h
    refine ⟨step_isSome h, fun m hm r s' hs' => ?_⟩
    have hlen := h m hm
    have hroom : 59 < BUF_SIZE := by decide
    obtain ⟨s₁, hs₁⟩ := encryptHandler_print riot encryptName s (m := m) (by omega)
    rw [step_encrypt hm, hs₁] at hs'
    obtain ⟨rfl, -⟩ := Prod.mk.inj (Option.some.inj hs')
    exact inverts_of_short hm hlen

/-- Encrypt and decrypt are inverse exactly in the runs that encrypt messages of at most 59
bytes. -/
theorem encryption_inverse_iff (riot : Riot) (s : State) (lines : List Line) :
    Along (step riot) (Inverse riot) s lines ↔ Along (step riot) (Short riot) s lines :=
  along_congr (I := fun _ => True) (fun s line _ => inverse_iff s line)
    (fun _ _ _ _ _ _ _ => trivial) trivial lines

/-! ## A shell and a cipher for runs -/

/-- Lines of one word and another one. -/
def splitTwo (line : Bytes) : List Bytes :=
  let w := (line.dropWhile fun c => c ≠ 32).tail
  if w = [] then [line]
  else if 32 ∈ w then []
  else [line.takeWhile fun c => c ≠ 32, if w = ascii "\"\"" then [] else w]

theorem ne_of_plain {w : Bytes} (h : Plain w) {c : UInt8} (hc : c = 32 ∨ c = 34) : c ∉ w := by
  intro hmem
  have hword := h.2 c hmem
  rcases hc with rfl | rfl
  · exact absurd hword (by decide)
  · exact absurd hword (by decide)

theorem splitTwo_append {name w : Bytes} (hname : Plain name) (hne : w ≠ []) (hspace : 32 ∉ w) :
    splitTwo (name ++ 32 :: w) = [name, if w = ascii "\"\"" then [] else w] := by
  have hall : ∀ c ∈ name, decide (c ≠ 32) = true := by
    intro c hc
    simpa using fun h : c = 32 => ne_of_plain hname (Or.inl rfl) (h ▸ hc)
  have hdrop : (name ++ 32 :: w).dropWhile (fun c => decide (c ≠ 32)) = 32 :: w := by
    rw [List.dropWhile_append_of_pos hall]
    rfl
  have htake : (name ++ 32 :: w).takeWhile (fun c => decide (c ≠ 32)) = name := by
    rw [List.takeWhile_append_of_pos hall]
    simp
  rw [splitTwo, hdrop, htake, List.tail_cons, if_neg hne, if_neg hspace]

theorem splitTwo_cases {line name w : Bytes} (h : splitTwo line = [name, w]) :
    name.length + 1 + w.length ≤ line.length ∧ (0 ∉ line → 0 ∉ w) := by
  have hsum := congrArg List.length (List.takeWhile_append_dropWhile (l := line)
    (p := fun c : UInt8 => decide (c ≠ 32)))
  have hsub : (line.dropWhile fun c => decide (c ≠ 32)).tail ⊆ line := fun c hc =>
    (List.dropWhile_sublist _).subset (List.mem_of_mem_tail hc)
  rw [List.length_append] at hsum
  rw [splitTwo] at h
  split_ifs at h with hne hspace hquotes
  · cases h
  · obtain ⟨rfl, htail⟩ := List.cons.inj h
    obtain ⟨rfl, -⟩ := List.cons.inj htail
    have hpos := List.length_pos_of_ne_nil (fun hnil => hne (by rw [hnil]; rfl) :
      (line.dropWhile fun c => decide (c ≠ 32)) ≠ [])
    exact ⟨by rw [List.length_nil]; omega, fun _ => List.not_mem_nil⟩
  · obtain ⟨rfl, htail⟩ := List.cons.inj h
    obtain ⟨rfl, -⟩ := List.cons.inj htail
    have hpos := List.length_pos_of_ne_nil hne
    rw [List.length_tail] at hpos
    refine ⟨?_, fun hnul hzero => hnul (hsub hzero)⟩
    rw [List.length_tail]
    omega

/-- Pairs of digits read as bytes. -/
def pairs : Bytes → Bytes
  | a :: b :: t => (unhex2 [a, b]).getD 0 :: pairs t
  | _ => []

theorem pairs_flatMap_hex2 (b : Bytes) : pairs (b.flatMap hex2) = b := by
  induction b with
  | nil => rfl
  | cons c b ih =>
    have hcons : (c :: b).flatMap hex2 =
        hexDigit (c.toNat / 16) :: hexDigit (c.toNat % 16) :: b.flatMap hex2 := rfl
    have hc : unhex2 [hexDigit (c.toNat / 16), hexDigit (c.toNat % 16)] = some c := unhex2_hex2 c
    rw [hcons, pairs, hc, ih, Option.getD_some]

theorem pairs_length (t : Bytes) : (pairs t).length = t.length / 2 := by
  fun_induction pairs t with
  | case1 a b t ih =>
    simp only [List.length_cons]
    omega
  | case2 t hshort =>
    rcases t with _ | ⟨a, _ | ⟨b, t⟩⟩
    · rfl
    · simp
    · exact absurd rfl (hshort a b t)

theorem isHex_of_mem_hex2 {b c : UInt8} (h : c ∈ hex2 b) : isHex c = true := by
  have hb := b.toNat_lt
  rw [hex2, List.mem_cons, List.mem_singleton] at h
  rcases h with rfl | rfl
  · rw [isHex, hexValue_hexDigit (by omega)]
    rfl
  · rw [isHex, hexValue_hexDigit (by omega)]
    rfl

theorem isHex_of_mem_flatMap_hex2 (b : Bytes) : ∀ c ∈ b.flatMap hex2, isHex c = true := by
  intro c hc
  obtain ⟨a, -, ha⟩ := List.mem_flatMap.mp hc
  exact isHex_of_mem_hex2 ha

/-- Two words to a line, upper-case digits, and a keystream of key and counter. -/
def exampleRiot : Riot where
  split := splitTwo
  other _ := ⟨[], 0⟩
  bytesHex b := b.flatMap hex2
  hexBytes := pairs
  keystream key ctr i := key.getD (i % 16) 0 ^^^ ctr.getD (i % 16) 0
  advance ctr _ := ctr
  split_word name w hname hw := by
    have hquotes : w ≠ ascii "\"\"" := by
      rintro rfl
      exact absurd hw (by decide)
    have happend : name ++ ascii " " ++ w = name ++ 32 :: w := List.append_assoc _ _ _
    rw [happend, splitTwo_append hname hw.1 (ne_of_plain hw (Or.inl rfl)), if_neg hquotes]
  split_empty name hname := splitTwo_append hname (by decide) (by decide)
  split_length _ _ _ h := (splitTwo_cases h).1
  split_nul_free _ _ _ hnul h := (splitTwo_cases h).2 hnul
  hexBytes_bytesHex := pairs_flatMap_hex2
  bytesHex_length := flatMap_hex2_length
  isHex_bytesHex := isHex_of_mem_flatMap_hex2
  hexBytes_length t := (pairs_length t).le

/-- `encrypt` and a message of 60 letters. -/
def encryptLine : Line where
  bytes := encryptName ++ ascii " " ++ List.replicate 60 97
  length_lt := by decide
  nulFree := by decide

/-- The text printed for a message of 60 letters is too long to be typed. -/
theorem sixty_letters_not_typed_back :
    ¬ ∀ (riot : Riot) (s : State) (lines : List Line),
      Along (step riot) (Inverse riot) s lines := by
  intro h
  have hsplit : exampleRiot.split encryptLine.bytes = [encryptName, List.replicate 60 97] :=
    exampleRiot.split_word encryptName _ (by decide) (by decide)
  have hinverse := (h exampleRiot ⟨fun _ => 0, fun _ => 0, []⟩ [encryptLine]).1
  have hlen := (inverse_iff _ _).mp hinverse _ hsplit
  exact absurd hlen (by decide)

/-! ## Two messages of a session -/

def xorBytes (t u : Bytes) : Bytes := List.zipWith (· ^^^ ·) t u

/-- A message and its text give the keystream, which gives back every other message as far as
it goes. -/
theorem xorBytes_crypt (riot : Riot) (counter : Bytes) {m m' : Bytes}
    (h : m'.length ≤ m.length) :
    xorBytes (xorBytes m (crypt riot counter m)) (crypt riot counter m') = m' := by
  apply List.ext_getElem
  · simp only [xorBytes, List.length_zipWith, crypt_length]
    omega
  · intro i _ _
    have hbyte (a b k : UInt8) : a ^^^ (a ^^^ k) ^^^ (b ^^^ k) = b := by
      rw [← UInt8.xor_assoc a a, UInt8.xor_self, UInt8.zero_xor, UInt8.xor_comm b k,
        ← UInt8.xor_assoc, UInt8.xor_self, UInt8.zero_xor]
    simp only [xorBytes, crypt, List.getElem_zipWith, List.getElem_mapIdx]
    exact hbyte _ _ _

/-- Whatever was typed before, `encrypt` shows a message under the same keystream. -/
theorem encrypted_of_mem {riot : Riot} {s s' : State} {lines : List Line} {rs : List Result}
    (hrun : run (step riot) s lines = some (rs, s')) {p : Line × Result} (hp : p ∈ lines.zip rs)
    {m : Bytes} (hm : riot.split p.1.bytes = [encryptName, m]) :
    p.2 = ⟨riot.bytesHex (crypt riot ctr m) ++ [10], 0⟩ := by
  have hlogged := (run_logged hrun).1
  have hall := run_keeps (I := fun _ => True) (K := fun _ => True)
    (Q := fun q : Line × Result => ∀ m, riot.split q.1.bytes = [encryptName, m] →
      q.2 = ⟨riot.bytesHex (crypt riot ctr m) ++ [10], 0⟩)
    (fun t line q t' _ _ hstep => ⟨fun m hm => ?_, trivial⟩) trivial (fun _ _ => trivial) hlogged
  · exact hall.1 p hp m hm
  · obtain ⟨⟨r, t₁⟩, hanswer, he⟩ := Option.map_eq_some_iff.mp hstep
    obtain ⟨rfl, rfl⟩ := Prod.mk.inj he
    dsimp only at hm ⊢
    rw [step_encrypt hm] at hanswer
    have hroom := length_of_encryptHandler riot (Option.isSome_of_eq_some hanswer)
    obtain ⟨t₂, ht₂⟩ := encryptHandler_print riot encryptName t hroom
    rw [ht₂] at hanswer
    exact (Prod.mk.inj (Option.some.inj hanswer)).1.symm

/-- In every session, whoever knows one of the messages can read off the serial line every other
one that is not longer. -/
theorem known_message_reads_others {riot : Riot} {s s' : State} {lines : List Line}
    {rs : List Result} (hrun : run (step riot) s lines = some (rs, s')) {p q : Line × Result}
    (hp : p ∈ lines.zip rs) (hq : q ∈ lines.zip rs) {m m' : Bytes}
    (hm : riot.split p.1.bytes = [encryptName, m]) (hm' : riot.split q.1.bytes = [encryptName, m'])
    (hle : m'.length ≤ m.length) :
    ∃ c c', p.2.printed = c ++ [10] ∧ q.2.printed = c' ++ [10] ∧
      xorBytes (xorBytes m (riot.hexBytes c)) (riot.hexBytes c') = m' := by
  refine ⟨_, _, congrArg Result.printed (encrypted_of_mem hrun hp hm),
    congrArg Result.printed (encrypted_of_mem hrun hq hm'), ?_⟩
  rw [riot.hexBytes_bytesHex, riot.hexBytes_bytesHex]
  exact xorBytes_crypt riot ctr hle

def encryptHello : Line := ⟨encryptName ++ ascii " hello", by decide, by decide⟩
def encryptWord : Line := ⟨encryptName ++ ascii " riot", by decide, by decide⟩

theorem hello_reads_riot : ∃ r r' s', run (step exampleRiot) ⟨fun _ => 0, fun _ => 0, []⟩
    [encryptHello, encryptWord] = some ([r, r'], s') ∧
      ∃ c c', r.printed = c ++ [10] ∧ r'.printed = c' ++ [10] ∧
        xorBytes (xorBytes (ascii "hello") (pairs c)) (pairs c') = ascii "riot" := by
  have hhello : exampleRiot.split encryptHello.bytes = [encryptName, ascii "hello"] := by decide
  have hword : exampleRiot.split encryptWord.bytes = [encryptName, ascii "riot"] := by decide
  obtain ⟨s₁, hs₁⟩ := encryptHandler_print exampleRiot encryptName (m := ascii "hello")
    ⟨fun _ => 0, fun _ => 0, []⟩ (by decide)
  obtain ⟨s₂, hs₂⟩ := encryptHandler_print exampleRiot encryptName (m := ascii "riot") s₁
    (by decide)
  rw [← step_encrypt hhello] at hs₁
  rw [← step_encrypt hword] at hs₂
  have hrun := run_cons hs₁ (run_cons hs₂ (rfl : run (step exampleRiot) s₂ [] = some ([], s₂)))
  exact ⟨_, _, _, hrun, known_message_reads_others hrun List.mem_cons_self
    (List.mem_cons_of_mem _ List.mem_cons_self) hhello hword (by decide)⟩

end IotLabTraining.MessageEncryption
