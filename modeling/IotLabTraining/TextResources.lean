import IotLabTraining.CoapResource
import IotLabTraining.GcoapClient

/-!
# The resources that answer with texts

`res-hello.c` sends as much of its message as the variable `len` asks for, with the length as
the ETag, and `res-sub.c` sends the path of the sub-resource that was asked for. The value of a
variable is a pointer into the packet, which `atoi` follows past its end. An `int` has 32
bits, the least significant byte first.
-/
namespace IotLabTraining.TextResources
open Buffers CoapResource
open GcoapClient (atoi atoi_of_digit)

/-! ## The greeting -/

/-- A value that `coap_get_query_variable` finds, and what stands behind it in the packet. -/
structure QueryValue where
  value : Bytes
  behind : Bytes

structure HelloResponse where
  contentFormat : UInt16
  etag : Bytes
  payload : Bytes
  buffer : Buffer

def message : Bytes := ascii "Hello World! ABCDEFGHIJKLMNOPQRSTUVWXYZabcdefghijklmnopqrstuvwxy"

/-- The constant in memory. -/
def constant : Bytes := message ++ [0]

theorem constant_length : constant.length = 65 := by decide

/-- What the handler takes from Contiki and from the C library where it is free. -/
structure Contiki where
  REST_MAX_CHUNK_SIZE : ℕ
  atoiOverflow : Bytes → Int32

variable (contiki : Contiki)

/-- `atoi`, with whatever it makes of a numeral that does not fit into an `int`. -/
def atoi32 (s : Bytes) : ℤ :=
  if -2 ^ 31 ≤ atoi s ∧ atoi s < 2 ^ 31 then atoi s else (contiki.atoiOverflow s).toInt

/-- The two corrections of a length that was asked for. -/
def clamped (length : ℤ) : ℕ :=
  if length < 0 then 0
  else if contiki.REST_MAX_CHUNK_SIZE < length then contiki.REST_MAX_CHUNK_SIZE
  else length.toNat

/-- `length`; a value without a byte counts as none. -/
def helloLength (len : Option QueryValue) : ℕ :=
  match len with
  | none => 12
  | some v => if v.value = [] then 12 else clamped contiki (atoi32 contiki (v.value ++ v.behind))

/-- `res_get_handler` of `res-hello.c`; `none` is a copy from behind the constant. -/
def resHello (len : Option QueryValue) (buffer : Buffer) : Option HelloResponse :=
  let length := helloLength contiki len
  if length ≤ constant.length then
    let filled := store buffer 0 (constant.take length)
    some
      { contentFormat := TEXT_PLAIN
        etag := [length.toUInt8]
        payload := window filled 0 length
        buffer := filled }
  else none

variable {contiki}

theorem clamped_le (length : ℤ) : clamped contiki length ≤ contiki.REST_MAX_CHUNK_SIZE := by
  unfold clamped
  split_ifs
  · exact Nat.zero_le _
  · exact le_rfl
  · omega

theorem helloLength_le (h : contiki.REST_MAX_CHUNK_SIZE ≤ 65) (len : Option QueryValue) :
    helloLength contiki len ≤ 65 := by
  unfold helloLength
  split
  · decide
  · split_ifs
    · decide
    · exact (clamped_le _).trans h

/-- The response to a request within the constant. -/
theorem resHello_eq {len : Option QueryValue} (h : helloLength contiki len ≤ 65)
    (buffer : Buffer) : ∃ r, resHello contiki len buffer = some r ∧
      r.etag = [(helloLength contiki len).toUInt8] ∧
      r.payload = constant.take (helloLength contiki len) := by
  have hfits : helloLength contiki len ≤ constant.length := constant_length ▸ h
  refine ⟨_, if_pos hfits, rfl, ?_⟩
  have hwindow := window_store_length buffer 0 (constant.take (helloLength contiki len))
  rwa [List.length_take, Nat.min_eq_left hfits] at hwindow

/-- A numeral that no digit follows is answered with as many bytes, up to the chunk. -/
theorem helloLength_numeral {v : QueryValue} {n : ℕ} (hn : readDigits v.value = some n)
    (hend : v.behind.takeWhile isDigit = []) (hfits : n < 2 ^ 31) :
    helloLength contiki (some v) = min n contiki.REST_MAX_CHUNK_SIZE := by
  obtain ⟨value, behind⟩ := v
  have hatoi : value ≠ [] ∧ atoi (value ++ behind) = n := by
    unfold readDigits at hn
    split_ifs at hn with hdigits
    obtain ⟨hne, hall⟩ := hdigits
    obtain rfl := Option.some.inj hn
    refine ⟨hne, ?_⟩
    cases value with
    | nil => exact absurd rfl hne
    | cons c cs =>
      rw [List.cons_append, atoi_of_digit (hall c List.mem_cons_self), ← List.cons_append,
        List.takeWhile_append_of_pos hall, hend, List.append_nil]
  rw [helloLength, if_neg hatoi.1, atoi32, hatoi.2, if_pos (by omega)]
  unfold clamped
  split_ifs <;> omega

/-- Two requests are answered, and the ETags of the responses agree exactly if the payloads
do. -/
def Validates (contiki : Contiki) (len len' : Option QueryValue) (buffer buffer' : Buffer) : Prop :=
  ∃ r r', resHello contiki len buffer = some r ∧ resHello contiki len' buffer' = some r' ∧
    (r.etag = r'.etag ↔ r.payload = r'.payload)

/-- The ETags tell the representations apart, and no request reads behind the constant, if and
only if a chunk is no longer than the constant with its terminator. -/
theorem hello_validates_iff (contiki : Contiki) :
    (∀ len len' buffer buffer', Validates contiki len len' buffer buffer') ↔
      contiki.REST_MAX_CHUNK_SIZE ≤ 65 := by
  constructor
  · intro h
    by_contra hlong
    -- A request for 66 bytes is not cut.
    obtain ⟨r, -, hr, -⟩ := h (some ⟨decimal 66, []⟩) none (fun _ => 0) (fun _ => 0)
    have hlength : helloLength contiki (some ⟨decimal 66, []⟩) = 66 := by
      rw [helloLength_numeral (readDigits_decimal 66) rfl (by norm_num)]
      omega
    rw [resHello, hlength, if_neg (by decide)] at hr
    cases hr
  · intro hshort len len' buffer buffer'
    have hle := helloLength_le hshort len
    have hle' := helloLength_le hshort len'
    obtain ⟨r, hr, htag, hpayload⟩ := resHello_eq hle buffer
    obtain ⟨r', hr', htag', hpayload'⟩ := resHello_eq hle' buffer'
    refine ⟨r, r', hr, hr', ?_⟩
    rw [htag, htag', hpayload, hpayload']
    have hbytes : [(helloLength contiki len).toUInt8] = [(helloLength contiki len').toUInt8] ↔
        helloLength contiki len = helloLength contiki len' := by
      rw [List.singleton_inj, ← UInt8.toNat_inj, Nat.toUInt8,
        UInt8.toNat_ofNat_of_lt' (by change _ < 256; omega),
        UInt8.toNat_ofNat_of_lt' (by change _ < 256; omega)]
    rw [hbytes]
    constructor
    · exact fun he => by rw [he]
    · intro he
      have hlengths := congrArg List.length he
      rw [List.length_take, List.length_take, constant_length] at hlengths
      omega

/-- A digit behind the value is read with it. -/
example : helloLength ⟨64, fun _ => 0⟩ (some ⟨ascii "1", ascii "2&x"⟩) = 12 := by decide

/-! ## The sub-resources -/

/-- `res_sub.url`, as the server activates it. -/
def subUrl : Bytes := ascii "test/sub"

/-- `res_get_handler` of `res-sub.c` for a path that goes on with `rest` behind its own; Contiki
hands it no other path. -/
def resSub (COAP_MAX_CHUNK_SIZE : ℕ) (rest : Bytes) (buffer : Buffer) (offset : ℤ) : Response :=
  let text := if rest = [] then ascii "Request any sub-resource of /" ++ subUrl
    else ascii "." ++ cString rest
  let filled := (snprintf buffer 0 COAP_MAX_CHUNK_SIZE text).1
  { contentFormat := some TEXT_PLAIN
    payload := cString (window filled 0 COAP_MAX_CHUNK_SIZE)
    buffer := filled
    offset := offset }

/-- A sub-resource answers with the beginning of its path that fits. -/
theorem resSub_payload {rest : Bytes} (hne : rest ≠ []) (n : ℕ) (buffer : Buffer) (offset : ℤ) :
    (resSub (n + 2) rest buffer offset).payload = 46 :: (cString rest).take n := by
  have hnul : 0 ∉ ascii "." ++ cString rest := by
    rw [List.mem_append, not_or]
    exact ⟨by decide, zero_notMem_cString rest⟩
  simp only [resSub, if_neg hne]
  rw [cString_window_snprintf buffer hnul (Nat.succ_pos _)]
  rfl

theorem resSub_nil_payload (n : ℕ) (buffer : Buffer) (offset : ℤ) :
    (resSub (n + 2) [] buffer offset).payload.head? = some 82 := by
  have hnul : 0 ∉ ascii "Request any sub-resource of /" ++ subUrl := by decide
  simp only [resSub, if_pos]
  rw [cString_window_snprintf buffer hnul (Nat.succ_pos _)]
  rfl

/-- Two paths get the same answer exactly if both or neither is the one of the resource itself
and they agree up to a NUL, as far as the chunk goes. -/
theorem sub_answers_iff (n : ℕ) (rest rest' : Bytes) (buffer buffer' : Buffer) (offset : ℤ) :
    (resSub (n + 2) rest buffer offset).payload = (resSub (n + 2) rest' buffer' offset).payload ↔
      (rest = [] ↔ rest' = []) ∧ (cString rest).take n = (cString rest').take n := by
  have hother {r : Bytes} (hr : r ≠ []) (b b' : Buffer) :
      (resSub (n + 2) r b offset).payload ≠ (resSub (n + 2) [] b' offset).payload := by
    intro he
    have hhead := congrArg List.head? he
    rw [resSub_payload hr, resSub_nil_payload, List.head?_cons] at hhead
    exact absurd (Option.some.inj hhead) (by decide)
  by_cases hrest : rest = []
  · by_cases hrest' : rest' = []
    · subst hrest
      subst hrest'
      refine iff_of_true ?_ ⟨Iff.rfl, rfl⟩
      have hnul : 0 ∉ ascii "Request any sub-resource of /" ++ subUrl := by decide
      simp only [resSub, if_pos]
      rw [cString_window_snprintf buffer hnul (Nat.succ_pos _),
        cString_window_snprintf buffer' hnul (Nat.succ_pos _)]
    · subst hrest
      refine iff_of_false (hother hrest' buffer' buffer).symm fun h => hrest' (h.1.mp rfl)
  · by_cases hrest' : rest' = []
    · subst hrest'
      refine iff_of_false (hother hrest buffer buffer') fun h => hrest (h.1.mpr rfl)
    · rw [resSub_payload hrest, resSub_payload hrest', List.cons.injEq]
      simp [hrest, hrest']

end IotLabTraining.TextResources
