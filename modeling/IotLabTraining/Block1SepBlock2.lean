import IotLabTraining.CoapResource
import IotLabTraining.Slices

/-!
# A posted body read back block by block

`res-b1-sep-b2.c` takes a body in blocks, answers with a separate response that has
the first block, and gives out the other ones on request. `coap_block1_handler` has
put the body into `big_msg`; behind it, and in the buffers of the later responses,
anything may stand.
-/
namespace IotLabTraining.Block1SepBlock2
open Buffers CoapResource Slices

def MAX_DATA_LEN : ℕ := 256

/-- The static variables; `bigMsg` is the memory from the array on. -/
structure State where
  bigMsg : Buffer
  bigMsgLen : ℕ
  bigMsgLen_le : bigMsgLen ≤ MAX_DATA_LEN

def State.body (s : State) : Bytes := window s.bigMsg 0 s.bigMsgLen

/-- The separate response: its payload, and number, more flag and size of its Block2
option if it has one. -/
structure SeparateResponse where
  payload : Bytes
  block2 : Option (ℕ × Bool × ℕ)

inductive Outcome where
  /-- More blocks of the body are to come. -/
  | waiting
  /-- There was no transaction for the separate response. -/
  | unsent
  | separate (response : SeparateResponse)
  | direct (response : Response)

/-- The first block, for a request whose metadata has `block2Size`. -/
def sendFirstBlock (s : State) (block2Size : ℕ) : SeparateResponse where
  payload := window s.bigMsg 0 (if s.bigMsgLen > block2Size then block2Size else s.bigMsgLen)
  block2 := if s.bigMsgLen > block2Size then some (0, true, block2Size) else none

/-- The request for a later block: always 32 bytes are copied. -/
def sendMoreBlocks (s : State) (buffer : Buffer) (preferredSize offset : ℕ) : Response :=
  if s.bigMsgLen ≤ offset then blockOutOfScope buffer offset
  else
    let copied := store buffer 0 (window s.bigMsg offset 32)
    if s.bigMsgLen - offset < preferredSize then
      { payload := window copied 0 (s.bigMsgLen - offset), buffer := copied, offset := -1 }
    else
      { payload := window copied 0 preferredSize
        buffer := copied
        offset := offset + preferredSize }

/-- `res_post_handler`, with what `coap_block1_handler` and `coap_new_transaction`
return. -/
def resPostHandler (s : State) (block1More transaction : Bool) (block2Size : ℕ) (buffer : Buffer)
    (preferredSize offset : ℕ) : Outcome :=
  if offset = 0 then
    if block1More then .waiting
    else if transaction then .separate (sendFirstBlock s block2Size)
    else .unsent
  else .direct (sendMoreBlocks s buffer preferredSize offset)

/-! ## Reading the body back -/

/-- The answer to the request for block `k` of a body that has arrived. -/
def answer (s : State) (buffers : ℕ → Buffer) (size k : ℕ) : Outcome :=
  resPostHandler s false true size (buffers k) size (k * size)

def Outcome.payload : Outcome → Bytes
  | .separate r => r.payload
  | .direct r => r.payload
  | _ => []

/-- The more flag; a separate response without the option is the only block. -/
def Outcome.more : Outcome → Bool
  | .separate r => (r.block2.map fun b => b.2.1).getD false
  | .direct r => r.more
  | _ => false

def Outcome.inScope : Outcome → Bool
  | .direct r => r.statusCode != some .badOption
  | _ => true

/-- The transfer takes `n + 1` blocks: the last one and only that one is marked so, each
is in scope, and together they are the body. -/
structure Transfer (s : State) (buffers : ℕ → Buffer) (size n : ℕ) : Prop where
  more : ∀ k < n, (answer s buffers size k).more = true
  last : (answer s buffers size n).more = false
  inScope : ∀ k ≤ n, (answer s buffers size k).inScope = true
  payload_eq : (List.range (n + 1)).flatMap (fun k => (answer s buffers size k).payload) = s.body

/-- A body that can be posted. -/
structure Posted where
  body : Bytes
  length_le : body.length ≤ MAX_DATA_LEN

/-- Whatever stands behind the body and in the response buffers, the transfer gives the
body back. -/
def ReadsBack (p : Posted) (size : ℕ) : Prop :=
  ∀ s : State, s.body = p.body → ∀ buffers, ∃ n, Transfer s buffers size n

@[simp] theorem body_length (s : State) : s.body.length = s.bigMsgLen := window_length _ _ _

theorem slice_body (s : State) {size k n : ℕ} (hn : n = min size (s.bigMsgLen - k * size)) :
    slice s.body size k = window s.bigMsg (k * size) n := by
  apply List.ext_getElem
  · rw [slice, List.length_take, List.length_drop, body_length, window_length, hn]
  · intro i _ _
    simp [slice, State.body]

theorem answer_zero (s : State) (buffers : ℕ → Buffer) (size : ℕ) :
    answer s buffers size 0 = .separate (sendFirstBlock s size) := by
  simp [answer, resPostHandler]

theorem answer_later (s : State) (buffers : ℕ → Buffer) {size k : ℕ} (hsize : 0 < size)
    (hk : 0 < k) :
    answer s buffers size k = .direct (sendMoreBlocks s (buffers k) size (k * size)) := by
  rw [answer, resPostHandler, if_neg (Nat.mul_pos hk hsize).ne']

/-- What is copied of a block of at most 32 bytes. -/
theorem window_copied (s : State) (buffer : Buffer) (offset : ℕ) {n : ℕ} (h : n ≤ 32) :
    window (store buffer 0 (window s.bigMsg offset 32)) 0 n = window s.bigMsg offset n := by
  rw [window_store _ _ (by rwa [window_length]), window_take _ _ h]

/-- A block inside the body is in scope, more follow unless less than a block is left, and
its payload is right as far as the copy goes. -/
theorem answer_inside (s : State) (buffers : ℕ → Buffer) {size k : ℕ} (hsize : 0 < size)
    (hk : 0 < k) (h : k * size < s.bigMsgLen) :
    (answer s buffers size k).inScope = true ∧
      ((answer s buffers size k).more = true ↔ (k + 1) * size ≤ s.bigMsgLen) ∧
      (answer s buffers size k).payload = window (store (buffers k) 0
        (window s.bigMsg (k * size) 32)) 0 (min size (s.bigMsgLen - k * size)) := by
  have hnext : (k + 1) * size = k * size + size := Nat.succ_mul k size
  rw [answer_later s buffers hsize hk, sendMoreBlocks, if_neg (by omega)]
  split_ifs with hlast
  · rw [Nat.min_eq_right hlast.le]
    refine ⟨rfl, ⟨fun hmore => absurd hmore Bool.false_ne_true, by omega⟩, rfl⟩
  · rw [Nat.min_eq_left (by omega)]
    refine ⟨rfl, ⟨by omega, fun _ => ?_⟩, rfl⟩
    simp only [Outcome.more, Response.more, bne_iff_ne]
    omega

theorem answer_first (s : State) (buffers : ℕ → Buffer) (size : ℕ) :
    (answer s buffers size 0).inScope = true ∧
      ((answer s buffers size 0).more = true ↔ size < s.bigMsgLen) ∧
      (answer s buffers size 0).payload = slice s.body size 0 := by
  rw [answer_zero, slice_body s (n := min size s.bigMsgLen) (by simp), Nat.zero_mul]
  simp only [sendFirstBlock, Outcome.inScope, Outcome.more, Outcome.payload]
  split_ifs with hlt
  · rw [Nat.min_eq_left hlt.le]
    exact ⟨trivial, ⟨fun _ => hlt, fun _ => rfl⟩, rfl⟩
  · rw [Nat.min_eq_right (by omega)]
    exact ⟨trivial, ⟨fun h => absurd h Bool.false_ne_true, fun h => absurd h hlt⟩, rfl⟩

theorem answer_outside (s : State) (buffers : ℕ → Buffer) {size k : ℕ} (hsize : 0 < size)
    (hk : 0 < k) (h : s.bigMsgLen ≤ k * size) : (answer s buffers size k).inScope = false := by
  rw [answer_later s buffers hsize hk, sendMoreBlocks, if_pos h]
  rfl

/-- Block `k` of a body that ends inside a block, when the copy is long enough. -/
theorem answer_of_fits (s : State) (buffers : ℕ → Buffer) {size k : ℕ} (hsize : 0 < size)
    (hmod : s.bigMsgLen % size ≠ 0) (hcopy : size ≤ 32 ∨ s.bigMsgLen ≤ size + 32)
    (hk : k * size < s.bigMsgLen) :
    (answer s buffers size k).inScope = true ∧
      ((answer s buffers size k).more = true ↔ (k + 1) * size < s.bigMsgLen) ∧
      (answer s buffers size k).payload = slice s.body size k := by
  cases k with
  | zero =>
    rw [Nat.zero_add, Nat.one_mul]
    exact answer_first s buffers size
  | succ k =>
    obtain ⟨hscope, hmore, hpayload⟩ := answer_inside s buffers hsize (Nat.succ_pos k) hk
    have hfirst := Nat.le_mul_of_pos_left size (Nat.succ_pos k)
    have hne : (k + 1 + 1) * size ≠ s.bigMsgLen := fun h => hmod (by rw [← h, Nat.mul_mod_left])
    refine ⟨hscope, ?_, ?_⟩
    · rw [hmore]
      exact ⟨fun hle => lt_of_le_of_ne hle hne, Nat.le_of_lt⟩
    · rw [hpayload, window_copied s _ _ (by omega), slice_body s rfl]

/-- Its blocks are all of the body. -/
theorem transfer_of_fits (s : State) (buffers : ℕ → Buffer) {size : ℕ} (hsize : 0 < size)
    (hmod : s.bigMsgLen % size ≠ 0) (hcopy : size ≤ 32 ∨ s.bigMsgLen ≤ size + 32) :
    Transfer s buffers size (s.bigMsgLen / size) := by
  have hdiv := Nat.div_add_mod' s.bigMsgLen size
  have hmodlt := Nat.mod_lt s.bigMsgLen hsize
  have hinside (k : ℕ) (hk : k ≤ s.bigMsgLen / size) : k * size < s.bigMsgLen := by
    have hle := Nat.mul_le_mul_right size hk
    omega
  have hanswer (k : ℕ) (hk : k ≤ s.bigMsgLen / size) :=
    answer_of_fits s buffers hsize hmod hcopy (hinside k hk)
  refine ⟨?_, ?_, ?_, ?_⟩
  · intro k hk
    exact (hanswer k hk.le).2.1.mpr (hinside (k + 1) hk)
  · rw [← Bool.not_eq_true, (hanswer _ le_rfl).2.1, Nat.succ_mul]
    omega
  · intro k hk
    exact (hanswer k hk).1
  · have hslices : (List.range (s.bigMsgLen / size + 1)).flatMap
        (fun k => (answer s buffers size k).payload) =
          (List.range (s.bigMsgLen / size + 1)).flatMap (slice s.body size) := by
      apply List.flatMap_congr
      intro k hk
      exact (hanswer k (Nat.le_of_lt_succ (List.mem_range.mp hk))).2.2
    rw [hslices, flatMap_slice, List.take_of_length_le]
    rw [body_length, Nat.succ_mul]
    omega

/-- A body that fits into one block is the first response. -/
theorem transfer_of_le (s : State) (buffers : ℕ → Buffer) {size : ℕ}
    (hlen : s.bigMsgLen ≤ size) : Transfer s buffers size 0 := by
  obtain ⟨hscope, hmore, hpayload⟩ := answer_first s buffers size
  refine ⟨by omega, ?_, ?_, ?_⟩
  · rw [← Bool.not_eq_true, hmore]
    omega
  · intro k hk
    rw [Nat.le_zero.mp hk]
    exact hscope
  · rw [List.range_one, List.flatMap_singleton, hpayload, slice, Nat.zero_mul, List.drop_zero,
      List.take_of_length_le (by rwa [body_length])]

/-- A body of several full blocks ends with a request out of scope. -/
theorem not_transfer_of_mod {s : State} {buffers : ℕ → Buffer} {size n : ℕ} (hsize : 0 < size)
    (hlen : size < s.bigMsgLen) (hmod : s.bigMsgLen % size = 0) :
    ¬ Transfer s buffers size n := by
  intro h
  have hdiv := Nat.div_mul_cancel (Nat.dvd_of_mod_eq_zero hmod)
  have hpos := Nat.div_pos hlen.le hsize
  have hn : s.bigMsgLen / size ≤ n := by
    by_contra hlt
    have hlast := h.last
    rw [← Bool.not_eq_true] at hlast
    apply hlast
    by_cases hzero : n = 0
    · rw [hzero]
      exact (answer_first s buffers size).2.1.mpr hlen
    · have hle := Nat.mul_le_mul_right size (show n + 1 ≤ s.bigMsgLen / size by omega)
      have hnext : (n + 1) * size = n * size + size := Nat.succ_mul n size
      exact (answer_inside s buffers hsize (by omega) (by omega)).2.1.mpr (by omega)
  have hscope := h.inScope _ hn
  rw [answer_outside s buffers hsize hpos hdiv.ge] at hscope
  exact Bool.false_ne_true hscope

/-- Byte 32 of block 1 is what its buffer held before. -/
theorem transfer_stale {s : State} {buffers : ℕ → Buffer} {size n : ℕ} (hsize : 32 < size)
    (hlen : size + 32 < s.bigMsgLen) (h : Transfer s buffers size n) :
    s.body[size + 32]? = some (buffers 1 32) := by
  obtain ⟨-, hmore, hfirst⟩ := answer_first s buffers size
  obtain ⟨-, -, hsecond⟩ := answer_inside s buffers (show 0 < size by omega) Nat.one_pos
    (show 1 * size < s.bigMsgLen by omega)
  have hn : 0 < n := by
    by_contra hzero
    have hlast := h.last
    rw [Nat.le_zero.mp (Nat.le_of_not_lt hzero), ← Bool.not_eq_true, hmore] at hlast
    omega
  obtain ⟨m, rfl⟩ : ∃ m, n = m + 1 := ⟨n - 1, by omega⟩
  have hlength : (slice s.body size 0).length = size := by
    rw [slice, List.length_take, List.length_drop, body_length]
    omega
  rw [← h.payload_eq, flatMap_range_succ, flatMap_range_succ, hfirst, hsecond,
    List.getElem?_append_right (by omega), hlength, Nat.add_sub_cancel_left,
    List.getElem?_append_left (by rw [window_length]; omega),
    List.getElem?_eq_getElem (by rw [window_length]; omega), window_getElem,
    store_of_le _ _ (by rw [window_length]), Nat.zero_add]

/-- The state after a body has arrived, with zeros behind it. -/
def Posted.state (p : Posted) : State where
  bigMsg := fun i => p.body.getD i 0
  bigMsgLen := p.body.length
  bigMsgLen_le := p.length_le

theorem Posted.state_body (p : Posted) : p.state.body = p.body := by
  apply List.ext_getElem
  · exact body_length _
  · intro i _ hi
    simp only [State.body, window_getElem, Nat.zero_add]
    exact List.getD_eq_getElem _ _ hi

/-- A body is read back exactly when it fits into the first block, or ends inside a block
and the copy of 32 bytes is enough for every later one. -/
theorem posted_readsBack_iff (p : Posted) (szx : ℕ) :
    ReadsBack p (blockSize szx) ↔ p.body.length ≤ blockSize szx ∨
      (p.body.length % blockSize szx ≠ 0 ∧
        (blockSize szx ≤ 32 ∨ p.body.length ≤ blockSize szx + 32)) := by
  have hpos := blockSize_pos szx
  constructor
  · intro h
    by_cases hle : p.body.length ≤ blockSize szx
    · exact Or.inl hle
    · right
      constructor
      · intro hmod
        obtain ⟨n, hn⟩ := h p.state p.state_body fun _ _ => 0
        exact not_transfer_of_mod hpos (Nat.lt_of_not_le hle) hmod hn
      · by_contra hcopy
        have hlen : blockSize szx + 32 < p.body.length := by omega
        obtain ⟨n, hn⟩ := h p.state p.state_body fun _ _ => p.body[blockSize szx + 32] + 1
        have hstale := transfer_stale (by omega) hlen hn
        rw [p.state_body, List.getElem?_eq_getElem hlen, Option.some.injEq] at hstale
        exact absurd hstale (by simp)
  · intro h s hs buffers
    have hlen : s.bigMsgLen = p.body.length := by rw [← body_length, hs]
    rw [← hlen] at h
    rcases Nat.lt_or_ge (blockSize szx) s.bigMsgLen with hlt | hle
    · obtain ⟨hmod, hcopy⟩ := h.resolve_left (by omega)
      exact ⟨_, transfer_of_fits s buffers hpos hmod hcopy⟩
    · exact ⟨0, transfer_of_le s buffers hle⟩

/-- Two full blocks of 16 bytes. -/
theorem two_full_blocks_lost :
    ¬ ∀ (p : Posted) (szx : ℕ), ReadsBack p (blockSize szx) := by
  intro h
  let p : Posted := ⟨List.replicate 32 120, by decide⟩
  obtain ⟨n, hn⟩ := h p 0 p.state p.state_body fun _ _ => 0
  exact not_transfer_of_mod (by decide) (by decide) (by decide) hn

end IotLabTraining.Block1SepBlock2
