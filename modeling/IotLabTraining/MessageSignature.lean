import IotLabTraining.MessageEncryption

/-!
# The signature exercise

The handlers of `key`, `sign` and `verify` with the bodies of the notebook, on a shell that
takes lines of 159 characters. The shell, the hexadecimal texts and the signatures are
RIOT's and parameters; the arrays have the sizes of the source, and a store outside of
them gives no result.
-/
namespace IotLabTraining.MessageSignature
open Buffers Runs
open MessageEncryption (Result Plain isHex SHELL_DEFAULT_BUFSIZE zero_notMem_of_isHex
  plain_of_isHex)

def EDSIGN_SECRET_KEY_SIZE : ℕ := 32
def EDSIGN_PUBLIC_KEY_SIZE : ℕ := 32
def EDSIGN_SIGNATURE_SIZE : ℕ := 64
/-- The size of `signature_hex`. -/
def HEX_SIZE : ℕ := EDSIGN_SIGNATURE_SIZE * 2 + 1

/-- What the exercise takes from RIOT: the words of a command line with the shortest way to
type a word, the other commands, `fmt_bytes_hex`, what `fmt_hex_bytes` writes, and the
signatures. `split_length` takes the words of a line to be parted by blanks, and no way to
type a word to be shorter than `quote`. -/
structure Riot where
  split : Bytes → List Bytes
  quote : Bytes → Bytes
  other : Bytes → Result
  bytesHex : Bytes → Bytes
  hexBytes : Bytes → Bytes
  prepare : Bytes → Bytes
  secToPub : Bytes → Bytes
  sign : Bytes → Bytes → Bytes → Bytes
  verify : Bytes → Bytes → Bytes → Bool
  split_quote : ∀ line n m name x, split line = [n, m] → Plain name → Plain x →
    split (name ++ ascii " " ++ quote m ++ ascii " " ++ x) = [name, m, x]
  quote_nul_free : ∀ line n m, 0 ∉ line → split line = [n, m] → 0 ∉ quote m
  split_length : ∀ line name m x, split line = [name, m, x] →
    name.length + 1 + (quote m).length + 1 + x.length ≤ line.length
  hexBytes_bytesHex : ∀ b, hexBytes (bytesHex b) = b
  bytesHex_length : ∀ b, (bytesHex b).length = 2 * b.length
  isHex_bytesHex : ∀ b, ∀ c ∈ bytesHex b, isHex c = true
  hexBytes_length : ∀ t, (∀ c ∈ t, isHex c = true) → t.length % 2 = 0 →
    (hexBytes t).length = t.length / 2
  sign_length : ∀ pub sec m, (sign pub sec m).length = EDSIGN_SIGNATURE_SIZE
  verify_sign : ∀ sec m, verify (sign (secToPub sec) sec m) (secToPub sec) m = true

/-- The static buffers; the keys are only used as a whole. -/
structure State where
  secretKey : Bytes
  publicKey : Bytes
  signature : Buffer
  signatureHex : Buffer

def initial : State where
  secretKey := List.replicate EDSIGN_SECRET_KEY_SIZE 0
  publicKey := List.replicate EDSIGN_PUBLIC_KEY_SIZE 0
  signature _ := 0
  signatureHex _ := 0

/-- `memset(signature, 0, sizeof(signature))`. -/
def clear (signature : Buffer) : Buffer :=
  store signature 0 (List.replicate EDSIGN_SIGNATURE_SIZE 0)

def usage (argv : List Bytes) (what : String) : Result :=
  ⟨ascii "usage: " ++ cString (argv.headD []) ++ ascii " " ++ ascii what ++ [10], 1⟩

variable (riot : Riot)

/-- `_key_handler`; `random` is what `random_bytes` writes. -/
def keyHandler (random : Bytes) (s : State) : Result × State :=
  let secretKey := riot.prepare random
  let publicKey := riot.secToPub secretKey
  (⟨ascii "New keypair generated:\n  - Secret: " ++ secretKey.flatMap hex2 ++
      ascii "\n  - Public: " ++ publicKey.flatMap hex2 ++ [10], 0⟩,
    { s with secretKey := secretKey, publicKey := publicKey })

/-- `_sign_handler`. -/
def signHandler (argv : List Bytes) (s : State) : Option (Result × State) :=
  match argv with
  | [_, message] =>
    (put EDSIGN_SIGNATURE_SIZE (clear s.signature) 0
        (riot.sign s.publicKey s.secretKey message)).bind fun signature =>
      (put HEX_SIZE s.signatureHex 0
          (riot.bytesHex (window signature 0 EDSIGN_SIGNATURE_SIZE))).map fun signatureHex =>
        (⟨cString (window signatureHex 0 HEX_SIZE) ++ [10], 0⟩,
          { s with signature := signature, signatureHex := signatureHex })
  | _ => some (usage argv "<message>", s)

def verified : Result := ⟨ascii "Message verified\n", 0⟩

def notVerified : Result := ⟨ascii "Message not verified\n", 0⟩

/-- `_verify_handler`. -/
def verifyHandler (argv : List Bytes) (s : State) : Option (Result × State) :=
  match argv with
  | [_, message, hex] =>
    (put EDSIGN_SIGNATURE_SIZE (clear s.signature) 0 (riot.hexBytes hex)).map fun signature =>
      (if riot.verify (window signature 0 EDSIGN_SIGNATURE_SIZE) s.publicKey message then verified
        else notVerified, { s with signature := signature })
  | _ => some (usage argv "<message> <signature>", s)

/-! ## The shell -/

/-- A line that can be typed. -/
structure Line where
  bytes : Bytes
  length_lt : bytes.length < SHELL_DEFAULT_BUFSIZE + 32
  nulFree : 0 ∉ bytes

def keyName : Bytes := ascii "key"
def signName : Bytes := ascii "sign"
def verifyName : Bytes := ascii "verify"

/-- A line, and the random bytes for it should it be a `key` command. -/
structure Input where
  line : Line
  random : Bytes

def step : Step State Input Result := fun s i =>
  let argv := riot.split i.line.bytes
  if argv.head? = some keyName then some (keyHandler riot i.random s)
  else if argv.head? = some signName then signHandler riot argv s
  else if argv.head? = some verifyName then verifyHandler riot argv s
  else some (riot.other i.line.bytes, s)

/-! ## What the commands promise each other -/

def IsKey (i : Input) : Prop := (riot.split i.line.bytes).head? = some keyName

/-- The public key is the one of the secret key. -/
def KeyPair (s : State) : Prop := s.publicKey = riot.secToPub s.secretKey

/-- 128 hexadecimal digits. -/
def ExactHex (x : Bytes) : Prop :=
  x.length = 2 * EDSIGN_SIGNATURE_SIZE ∧ ∀ c ∈ x, isHex c = true

/-- What was printed of a message can be typed behind `verify` and the message, and is
verified from the state on that was reached, until the next `key` command. -/
def Verifiable (message : Bytes) (r : Result) (s : State) : Prop :=
  ∃ hex, r.printed = hex ++ [10] ∧
    ∃ line : Line, riot.split line.bytes = [verifyName, message, hex] ∧
      ∀ is, (∀ i ∈ is, ¬ IsKey riot i) → ∀ rs t, run (step riot) s is = some (rs, t) →
        ∀ random, ∃ t', step riot t ⟨line, random⟩ = some (verified, t')

/-- A command stays within the buffers, a signature of the key pair can be verified, and
nothing but a signature is. -/
structure Agrees (s : State) (i : Input) : Prop where
  inBounds : (step riot s i).isSome = true
  signed : ∀ message, riot.split i.line.bytes = [signName, message] → KeyPair riot s →
    ∀ r s', step riot s i = some (r, s') → Verifiable riot message r s'
  strict : ∀ message hex, riot.split i.line.bytes = [verifyName, message, hex] →
    ∀ s', step riot s i = some (verified, s') →
      ExactHex hex ∧ riot.verify (riot.hexBytes hex) s.publicKey message = true

/-- The bytes of a signature that is too short, in the cleared buffer. -/
def padded (b : Bytes) : Bytes := b ++ List.replicate (EDSIGN_SIGNATURE_SIZE - b.length) 0

/-- Messages are signed that leave room for their signature on a line, and verified with
texts that fit into the buffer and are of the right form or no signature. -/
structure Orderly (s : State) (i : Input) : Prop where
  short : ∀ message, riot.split i.line.bytes = [signName, message] → KeyPair riot s →
    (riot.quote message).length ≤ 23
  fits : ∀ message hex, riot.split i.line.bytes = [verifyName, message, hex] →
    (riot.hexBytes hex).length ≤ EDSIGN_SIGNATURE_SIZE
  form : ∀ message hex, riot.split i.line.bytes = [verifyName, message, hex] →
    ExactHex hex ∨ riot.verify (padded (riot.hexBytes hex)) s.publicKey message = false

/-- The terminator of `signature_hex`. -/
def Terminated (s : State) : Prop := s.signatureHex (2 * EDSIGN_SIGNATURE_SIZE) = 0

variable {riot}

/-! ## The handlers -/

/-- Bytes stored in the cleared buffer. -/
theorem window_clear (signature : Buffer) {b : Bytes} (h : b.length ≤ EDSIGN_SIGNATURE_SIZE) :
    window (store (clear signature) 0 b) 0 EDSIGN_SIGNATURE_SIZE = padded b := by
  have hzeros : window (clear signature) 0 EDSIGN_SIGNATURE_SIZE =
      List.replicate EDSIGN_SIGNATURE_SIZE 0 := by
    rw [clear, window_store _ _ (by rw [List.length_replicate]), List.take_replicate, Nat.min_self]
  have hbehind := window_store_behind (clear signature) 0 b (EDSIGN_SIGNATURE_SIZE - b.length)
  have hsplit : EDSIGN_SIGNATURE_SIZE = b.length + (EDSIGN_SIGNATURE_SIZE - b.length) := by omega
  have hrest : window (clear signature) b.length (EDSIGN_SIGNATURE_SIZE - b.length) =
      List.replicate (EDSIGN_SIGNATURE_SIZE - b.length) 0 := by
    have hall := hzeros
    rw [hsplit, window_add, List.replicate_add] at hall
    have hlength : (window (clear signature) 0 b.length).length =
        (List.replicate b.length (0 : UInt8)).length := by simp
    simpa using (List.append_inj hall hlength).2
  rw [Nat.zero_add] at hbehind
  conv_lhs => rw [hsplit]
  rw [window_add, window_store_length, Nat.zero_add, hbehind, hrest, padded]

theorem padded_of_length {b : Bytes} (h : b.length = EDSIGN_SIGNATURE_SIZE) : padded b = b := by
  simp [padded, h]

/-- A text stored in front of the terminator of `signature_hex`, and printed. -/
theorem cString_signatureHex {signatureHex : Buffer} {hex : Bytes}
    (hend : signatureHex (2 * EDSIGN_SIGNATURE_SIZE) = 0)
    (hlength : hex.length = 2 * EDSIGN_SIGNATURE_SIZE) (hnul : 0 ∉ hex) :
    store signatureHex 0 hex (2 * EDSIGN_SIGNATURE_SIZE) = 0 ∧
      cString (window (store signatureHex 0 hex) 0 HEX_SIZE) = hex := by
  have hterminator : store signatureHex 0 hex (2 * EDSIGN_SIGNATURE_SIZE) = 0 := by
    rw [store_of_le _ _ (by rw [hlength, Nat.zero_add]), hend]
  have hlast : window (store signatureHex 0 hex) (2 * EDSIGN_SIGNATURE_SIZE) 1 = [0] := by
    simp [window, hterminator]
  have hfront := window_store_length signatureHex 0 hex
  rw [hlength] at hfront
  refine ⟨hterminator, ?_⟩
  rw [HEX_SIZE, Nat.mul_comm, window_add, hfront, Nat.zero_add, hlast, cString_append hnul]
  simp [cString]

/-- The keys are as before, and the terminator is in its place. -/
structure Keeps (s s' : State) : Prop where
  secretKey_eq : s'.secretKey = s.secretKey
  publicKey_eq : s'.publicKey = s.publicKey
  terminated : Terminated s'

/-- `sign` prints the digits of the signature, whatever was in the buffers. -/
theorem signHandler_eq (riot : Riot) {s : State} (hs : Terminated s) (name message : Bytes) :
    ∃ s', Keeps s s' ∧ signHandler riot [name, message] s =
      some (⟨riot.bytesHex (riot.sign s.publicKey s.secretKey message) ++ [10], 0⟩, s') := by
  have hlength := riot.sign_length s.publicKey s.secretKey message
  have hhex : (riot.bytesHex (riot.sign s.publicKey s.secretKey message)).length =
      2 * EDSIGN_SIGNATURE_SIZE := by rw [riot.bytesHex_length, hlength]
  have hnul := zero_notMem_of_isHex
    (riot.isHex_bytesHex (riot.sign s.publicKey s.secretKey message))
  obtain ⟨hterminator, hprinted⟩ := cString_signatureHex hs hhex hnul
  have hroom : EDSIGN_SIGNATURE_SIZE * 2 + 1 = 2 * EDSIGN_SIGNATURE_SIZE + 1 := rfl
  refine ⟨{ s with
    signature := store (clear s.signature) 0 (riot.sign s.publicKey s.secretKey message)
    signatureHex := store s.signatureHex 0
      (riot.bytesHex (riot.sign s.publicKey s.secretKey message)) }, ⟨rfl, rfl, hterminator⟩, ?_⟩
  rw [signHandler, put, if_pos (by rw [hlength, Nat.zero_add]), Option.bind_some,
    window_clear _ hlength.le, padded_of_length hlength, put,
    if_pos (by rw [hhex, HEX_SIZE, hroom]; omega), Option.map_some, hprinted]

/-- `verify` needs room for the bytes, and looks at them behind the padding. -/
theorem verifyHandler_eq (riot : Riot) (name message : Bytes) {hex : Bytes} {s : State}
    (hs : Terminated s) (h : (riot.hexBytes hex).length ≤ EDSIGN_SIGNATURE_SIZE) :
    ∃ s', Keeps s s' ∧ verifyHandler riot [name, message, hex] s =
      some (if riot.verify (padded (riot.hexBytes hex)) s.publicKey message then verified
        else notVerified, s') := by
  refine ⟨{ s with signature := store (clear s.signature) 0 (riot.hexBytes hex) },
    ⟨rfl, rfl, hs⟩, ?_⟩
  rw [verifyHandler, put, if_pos (by rwa [Nat.zero_add]), Option.map_some, window_clear _ h]

theorem verifyHandler_isSome_iff (name message hex : Bytes) (s : State) :
    (verifyHandler riot [name, message, hex] s).isSome = true ↔
      (riot.hexBytes hex).length ≤ EDSIGN_SIGNATURE_SIZE := by
  rw [verifyHandler, Option.isSome_map, put, Option.isSome_ite, Nat.zero_add]

theorem signHandler_keeps {s s' : State} {argv : List Bytes} {r : Result} (hs : Terminated s)
    (h : signHandler riot argv s = some (r, s')) : Keeps s s' := by
  unfold signHandler at h
  split at h
  · rename_i name message
    obtain ⟨t, hkeeps, heq⟩ := signHandler_eq riot hs name message
    rw [signHandler] at heq
    rw [heq] at h
    obtain ⟨-, rfl⟩ := Prod.mk.inj (Option.some.inj h)
    exact hkeeps
  · obtain ⟨-, rfl⟩ := Prod.mk.inj (Option.some.inj h)
    exact ⟨rfl, rfl, hs⟩

theorem verifyHandler_keeps {s s' : State} {argv : List Bytes} {r : Result} (hs : Terminated s)
    (h : verifyHandler riot argv s = some (r, s')) : Keeps s s' := by
  unfold verifyHandler at h
  split at h
  · obtain ⟨signature, -, he⟩ := Option.map_eq_some_iff.mp h
    obtain ⟨-, rfl⟩ := Prod.mk.inj he
    exact ⟨rfl, rfl, hs⟩
  · obtain ⟨-, rfl⟩ := Prod.mk.inj (Option.some.inj h)
    exact ⟨rfl, rfl, hs⟩

/-! ## The shell -/

theorem step_sign {i : Input} {message : Bytes}
    (h : riot.split i.line.bytes = [signName, message]) (s : State) :
    step riot s i = signHandler riot [signName, message] s := by
  have hkey : ¬ some signName = some keyName := by decide
  rw [step, h, List.head?_cons, if_neg hkey, if_pos rfl]

theorem step_verify {i : Input} {message hex : Bytes}
    (h : riot.split i.line.bytes = [verifyName, message, hex]) (s : State) :
    step riot s i = verifyHandler riot [verifyName, message, hex] s := by
  have hkey : ¬ some verifyName = some keyName := by decide
  have hsign : ¬ some verifyName = some signName := by decide
  rw [step, h, List.head?_cons, if_neg hkey, if_neg hsign, if_pos rfl]

/-- Only `key` makes new keys, and every command leaves the terminator. -/
theorem step_keeps {s s' : State} {i : Input} {r : Result} (hs : Terminated s)
    (h : step riot s i = some (r, s')) : Terminated s' ∧ (¬ IsKey riot i → Keeps s s') := by
  rw [step] at h
  split_ifs at h with hkey hsign hverify
  · obtain ⟨-, rfl⟩ := Prod.mk.inj (Option.some.inj h)
    exact ⟨hs, fun hnot => absurd hkey hnot⟩
  · have hkeeps := signHandler_keeps hs h
    exact ⟨hkeeps.terminated, fun _ => hkeeps⟩
  · have hkeeps := verifyHandler_keeps hs h
    exact ⟨hkeeps.terminated, fun _ => hkeeps⟩
  · obtain ⟨-, rfl⟩ := Prod.mk.inj (Option.some.inj h)
    exact ⟨hs, fun _ => ⟨rfl, rfl, hs⟩⟩

/-- A command is answered when the bytes to be verified fit. -/
theorem step_isSome {s : State} {i : Input} (hs : Terminated s)
    (h : ∀ message hex, riot.split i.line.bytes = [verifyName, message, hex] →
      (riot.hexBytes hex).length ≤ EDSIGN_SIGNATURE_SIZE) : (step riot s i).isSome = true := by
  rw [step]
  split_ifs with hkey hsign hverify
  · rfl
  · rcases riot.split i.line.bytes with _ | ⟨name, _ | ⟨message, _ | ⟨w, ws⟩⟩⟩
    · rfl
    · rfl
    · obtain ⟨s', -, heq⟩ := signHandler_eq riot hs name message
      rw [heq]
      rfl
    · rfl
  · rcases hargv : riot.split i.line.bytes with _ | ⟨name, _ | ⟨message, _ | ⟨hex, _ | ⟨w, ws⟩⟩⟩⟩
    · rfl
    · rfl
    · rfl
    · obtain rfl : name = verifyName := by simpa [hargv] using hverify
      exact (verifyHandler_isSome_iff verifyName message hex s).mpr (h message hex hargv)
    · rfl
  · rfl

/-- A line for `verify` with a message that was typed behind `sign`: the name, the message
and the digits, with two blanks between them. -/
theorem exists_line {line : Line} {message : Bytes} (riot : Riot)
    (h : riot.split line.bytes = [signName, message]) (hshort : (riot.quote message).length ≤ 23)
    {hex : Bytes} (hlength : hex.length = 2 * EDSIGN_SIGNATURE_SIZE)
    (hhex : ∀ c ∈ hex, isHex c = true) :
    ∃ line' : Line, riot.split line'.bytes = [verifyName, message, hex] := by
  have hplain : Plain hex := by
    refine plain_of_isHex ?_ hhex
    rintro rfl
    cases hlength
  have hfront : (verifyName ++ ascii " ").length = 7 := rfl
  have hblank : (ascii " ").length = 1 := rfl
  refine ⟨⟨verifyName ++ ascii " " ++ riot.quote message ++ ascii " " ++ hex, ?_, ?_⟩,
    riot.split_quote _ _ _ _ _ h (by decide) hplain⟩
  · rw [List.length_append, List.length_append, List.length_append, hfront, hblank, hlength,
      EDSIGN_SIGNATURE_SIZE, SHELL_DEFAULT_BUFSIZE]
    omega
  · have hquote := riot.quote_nul_free _ _ _ line.nulFree h
    simp only [List.mem_append]
    rintro ((((hname | hone) | hword) | htwo) | hdigits)
    · exact absurd hname (by decide)
    · exact absurd hone (by decide)
    · exact hquote hword
    · exact absurd htwo (by decide)
    · exact zero_notMem_of_isHex hhex hdigits

/-- A signature that a key pair made is verified as long as the pair is kept. -/
theorem step_verified {i : Input} {message : Bytes} {sec pub : Bytes} {s : State}
    (hs : Terminated s) (hpub : pub = riot.secToPub sec) (hkeep : s.publicKey = pub)
    (h : riot.split i.line.bytes =
      [verifyName, message, riot.bytesHex (riot.sign pub sec message)]) :
    ∃ s', step riot s i = some (verified, s') := by
  have hbytes := riot.hexBytes_bytesHex (riot.sign pub sec message)
  have hlength := riot.sign_length pub sec message
  have hfits : (riot.hexBytes (riot.bytesHex (riot.sign pub sec message))).length ≤
      EDSIGN_SIGNATURE_SIZE := by rw [hbytes, hlength]
  obtain ⟨s', -, heq⟩ := verifyHandler_eq riot verifyName message hs hfits
  have hvalid : riot.verify (riot.sign pub sec message) s.publicKey message = true := by
    rw [hkeep, hpub]
    exact riot.verify_sign sec message
  rw [hbytes, padded_of_length hlength, if_pos hvalid] at heq
  exact ⟨s', by rw [step_verify h, heq]⟩

/-- What `sign` prints under a key pair can be typed and is verified from then on. -/
theorem verifiable_of_short {s s' : State} {i : Input} {message : Bytes} {r : Result}
    (hs : Terminated s) (hpair : KeyPair riot s)
    (h : riot.split i.line.bytes = [signName, message])
    (hshort : (riot.quote message).length ≤ 23) (hstep : step riot s i = some (r, s')) :
    Verifiable riot message r s' := by
  obtain ⟨s₁, hkeeps, heq⟩ := signHandler_eq riot hs signName message
  rw [step_sign h, heq] at hstep
  obtain ⟨rfl, rfl⟩ := Prod.mk.inj (Option.some.inj hstep)
  have hlength : (riot.bytesHex (riot.sign s.publicKey s.secretKey message)).length =
      2 * EDSIGN_SIGNATURE_SIZE := by rw [riot.bytesHex_length, riot.sign_length]
  obtain ⟨line, hline⟩ := exists_line riot h hshort hlength (riot.isHex_bytesHex _)
  refine ⟨_, rfl, line, hline, fun is hno rs t hrun random => ?_⟩
  have hkept : Terminated t ∧ t.publicKey = s.publicKey := by
    have hall := run_keeps (K := fun i => ¬ IsKey riot i) (Q := fun _ => True)
      (I := fun t => Terminated t ∧ t.publicKey = s.publicKey)
      (fun t i r t' ht hnot hstep => ?_) ⟨hkeeps.terminated, hkeeps.publicKey_eq⟩ hno hrun
    · exact hall.2
    · have hnext := (step_keeps ht.1 hstep).2 hnot
      exact ⟨trivial, hnext.terminated, hnext.publicKey_eq.trans ht.2⟩
  exact step_verified (i := ⟨line, random⟩) hkept.1 hpair hkept.2 hline

theorem hexBytes_length_of_exact {hex : Bytes} (h : ExactHex hex) :
    (riot.hexBytes hex).length = EDSIGN_SIGNATURE_SIZE := by
  rw [riot.hexBytes_length hex h.2 (by rw [h.1, Nat.mul_mod_right]), h.1,
    Nat.mul_div_cancel_left _ (Nat.succ_pos 1)]

/-- A message whose signature can be typed behind it leaves room for it. -/
theorem short_of_verifiable {s : State} {message : Bytes} {pub sec : Bytes}
    (h : Verifiable riot message ⟨riot.bytesHex (riot.sign pub sec message) ++ [10], 0⟩ s) :
    (riot.quote message).length ≤ 23 := by
  obtain ⟨hex, hprinted, line, hline, -⟩ := h
  have htyped := (riot.split_length _ _ _ _ hline).trans_lt line.length_lt
  have hlength : hex.length = 2 * EDSIGN_SIGNATURE_SIZE := by
    rw [← List.append_cancel_right hprinted, riot.bytesHex_length, riot.sign_length]
  have hname : verifyName.length = 6 := rfl
  rw [hlength, hname, EDSIGN_SIGNATURE_SIZE, SHELL_DEFAULT_BUFSIZE] at htyped
  omega

theorem orderly_of_agrees {s : State} (hs : Terminated s) {i : Input} (h : Agrees riot s i) :
    Orderly riot s i := by
  have hfits : ∀ message hex, riot.split i.line.bytes = [verifyName, message, hex] →
      (riot.hexBytes hex).length ≤ EDSIGN_SIGNATURE_SIZE := by
    intro message hex hargv
    have hbounds := h.inBounds
    rwa [step_verify hargv, verifyHandler_isSome_iff] at hbounds
  refine ⟨fun message hargv hpair => ?_, hfits, fun message hex hargv => ?_⟩
  · obtain ⟨s₁, -, heq⟩ := signHandler_eq riot hs signName message
    exact short_of_verifiable (h.signed message hargv hpair _ s₁ (by rw [step_sign hargv, heq]))
  · obtain ⟨s₁, -, heq⟩ := verifyHandler_eq riot verifyName message hs (hfits message hex hargv)
    cases hvalid : riot.verify (padded (riot.hexBytes hex)) s.publicKey message with
    | false => exact Or.inr rfl
    | true =>
      rw [hvalid, if_pos rfl] at heq
      exact Or.inl (h.strict message hex hargv s₁ (by rw [step_verify hargv, heq])).1

theorem agrees_of_orderly {s : State} (hs : Terminated s) {i : Input} (h : Orderly riot s i) :
    Agrees riot s i := by
  refine ⟨step_isSome hs h.fits, fun message hargv hpair r s' hstep => ?_,
    fun message hex hargv s' hstep => ?_⟩
  · exact verifiable_of_short hs hpair hargv (h.short message hargv hpair) hstep
  · obtain ⟨s₁, -, heq⟩ := verifyHandler_eq riot verifyName message hs
      (h.fits message hex hargv)
    rw [step_verify hargv, heq] at hstep
    have hvalid : riot.verify (padded (riot.hexBytes hex)) s.publicKey message = true := by
      by_contra hnot
      rw [if_neg hnot] at hstep
      have hprinted := congrArg Result.printed (Prod.mk.inj (Option.some.inj hstep)).1
      exact absurd hprinted (by decide)
    have hexact : ExactHex hex := (h.form message hex hargv).resolve_right fun hinvalid =>
      Bool.false_ne_true (hinvalid.symm.trans hvalid)
    rw [padded_of_length (hexBytes_length_of_exact hexact)] at hvalid
    exact ⟨hexact, hvalid⟩

/-- Sign and verify agree, and no command leaves its buffers, exactly in the runs where the
messages signed leave room for a signature on the line, and what is verified fits into the
buffer and is of the right form or no signature. -/
theorem signatures_agree_iff (riot : Riot) (inputs : List Input) :
    Along (step riot) (Agrees riot) initial inputs ↔
      Along (step riot) (Orderly riot) initial inputs :=
  along_congr (I := Terminated)
    (fun _ _ hs => ⟨orderly_of_agrees hs, agrees_of_orderly hs⟩)
    (fun _ _ _ _ hs _ hstep => (step_keeps hs hstep).1) (show Terminated initial from rfl) inputs

/-! ## A shell for runs -/

theorem splitOn_plain {w : Bytes} (h : Plain w) : w.splitOn 32 = [w] :=
  List.splitOn_eq_singleton (MessageEncryption.ne_of_plain h (Or.inl rfl))

/-- A word of a line with two words has no blank. -/
theorem splitOn_second {line n m : Bytes} (h : line.splitOn 32 = [n, m]) :
    m.splitOn 32 = [m] ∧ m ⊆ line := by
  have hline : n ++ 32 :: m = line := by
    have hjoin : [32].intercalate (line.splitOn 32) = line := List.intercalate_splitOn 32
    rw [h] at hjoin
    simpa [List.intercalate] using hjoin
  rw [← hline, List.splitOn_append_cons_self] at h
  constructor
  · rcases hn : n.splitOn 32 with _ | ⟨n', ns⟩
    · exact absurd hn (List.splitOn_ne_nil 32 n)
    · rw [hn, List.cons_append] at h
      obtain ⟨-, hrest⟩ := List.cons.inj h
      rcases List.append_eq_singleton_iff.mp hrest with ⟨-, hm⟩ | ⟨-, hm⟩
      · exact hm
      · exact absurd hm (List.splitOn_ne_nil 32 m)
  · rw [← hline]
    exact fun c hc => List.mem_append_right _ (List.mem_cons_of_mem _ hc)

/-- Words between blanks, upper-case digits, and signatures that anyone can make. -/
def exampleRiot : Riot where
  split line := line.splitOn 32
  quote m := m
  other _ := ⟨[], 0⟩
  bytesHex b := b.flatMap hex2
  hexBytes := MessageEncryption.pairs
  prepare random := random
  secToPub sec := sec
  sign pub _ m := (pub ++ m ++ List.replicate EDSIGN_SIGNATURE_SIZE 1).take EDSIGN_SIGNATURE_SIZE
  verify signature pub m :=
    signature = (pub ++ m ++ List.replicate EDSIGN_SIGNATURE_SIZE 1).take EDSIGN_SIGNATURE_SIZE
  split_quote line n m name x h hname hx := by
    have hwords : name ++ ascii " " ++ m ++ ascii " " ++ x = name ++ 32 :: (m ++ 32 :: x) := by
      have hblank : ascii " " = [32] := rfl
      simp [hblank]
    rw [hwords, List.splitOn_append_cons_self, List.splitOn_append_cons_self,
      splitOn_plain hname, splitOn_plain hx, (splitOn_second h).1]
    rfl
  quote_nul_free line n m hnul h := fun hzero => hnul ((splitOn_second h).2 hzero)
  split_length line name m x h := by
    have hjoin : [32].intercalate (line.splitOn 32) = line := List.intercalate_splitOn 32
    rw [h] at hjoin
    rw [← hjoin]
    simp
    omega
  hexBytes_bytesHex := MessageEncryption.pairs_flatMap_hex2
  bytesHex_length := flatMap_hex2_length
  isHex_bytesHex := MessageEncryption.isHex_of_mem_flatMap_hex2
  hexBytes_length t _ _ := MessageEncryption.pairs_length t
  sign_length pub sec m := by
    rw [List.length_take, List.length_append, List.length_replicate]
    omega
  verify_sign sec m := by simp

/-- `verify riot` and 130 digits. -/
def longVerify : Line where
  bytes := ascii "verify riot " ++ List.replicate 130 48
  length_lt := by
    rw [List.length_append, List.length_replicate]
    decide
  nulFree := by
    rw [List.mem_append, List.mem_replicate]
    decide

/-- The bytes of 130 digits do not fit into the buffer for the signature. -/
theorem long_signature_overruns :
    ¬ ∀ (riot : Riot) (inputs : List Input), Along (step riot) (Agrees riot) initial inputs := by
  intro h
  have hagrees := (h exampleRiot [⟨longVerify, []⟩]).1
  have hsplit : exampleRiot.split longVerify.bytes =
      [verifyName, ascii "riot", List.replicate 130 48] := by decide
  have hbounds := hagrees.inBounds
  have hbytes : (exampleRiot.hexBytes (List.replicate 130 48)).length = 65 := by
    rw [exampleRiot, MessageEncryption.pairs_length, List.length_replicate]
  rw [step_verify hsplit, verifyHandler_isSome_iff, hbytes] at hbounds
  exact absurd hbounds (by decide)

end IotLabTraining.MessageSignature
