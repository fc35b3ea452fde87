import IotLabTraining.CoapResource
import IotLabTraining.Slices

/-!
# The observable counters

`/test/push` and `/sensors/button` print a text with a counter into the buffer and
give the engine the length that `snprintf` returns. The engine cuts its blocks out of
the payload of one call each. Whatever the buffers held, a client is to read the
same text block by block and in one piece.
-/
namespace IotLabTraining.EventResources
open Buffers CoapResource Slices

/-- What the two handlers differ in. -/
structure EventResource where
  label : Bytes
  maxAge : Option ℕ
  nulFree : 0 ∉ label

/-- `res-push.c`; the age is `period / CLOCK_SECOND`. -/
def resPush (period clockSecond : ℕ) : EventResource where
  label := ascii "VERY LONG EVENT "
  maxAge := some (period / clockSecond)
  nulFree := by decide

/-- `res-event.c`. -/
def resEvent : EventResource where
  label := ascii "EVENT "
  maxAge := none
  nulFree := by decide

variable (r : EventResource) (ulongBits : ℕ) (eventCounter : Int32)

/-- `(unsigned long) event_counter`. -/
def toUlong : ℕ := (eventCounter.toInt % 2 ^ ulongBits).toNat

/-- The complete text. -/
def text : Bytes := r.label ++ decimal (toUlong ulongBits eventCounter)

/-- `res_get_handler` of both resources. -/
def resGetHandler (buffer : Buffer) (preferredSize : ℕ) (offset : ℤ) : Response :=
  let printed := snprintf buffer 0 preferredSize (text r ulongBits eventCounter)
  { contentFormat := some TEXT_PLAIN
    maxAge := r.maxAge
    payload := window printed.1 0 printed.2
    buffer := printed.1
    offset := offset }

/-- Block `k` as the engine cuts it from the call for that block, and whether it says
that another one follows. -/
def block (buffers : ℕ → Buffer) (size k : ℕ) : Bytes × Bool :=
  let payload := (resGetHandler r ulongBits eventCounter (buffers k) size (k * size)).payload
  (slice payload size k, decide ((k + 1) * size < payload.length))

/-- The text is read block by block, and also in one piece, where the engine passes its
own maximum. -/
structure ReadsAlike (szx maxSize : ℕ) : Prop where
  blockwise : ∀ buffers, ∃ fuel,
    assemble (block r ulongBits eventCounter buffers (blockSize szx)) fuel 0 =
      some (text r ulongBits eventCounter)
  whole : ∀ buffer, (resGetHandler r ulongBits eventCounter buffer maxSize 0).payload =
    text r ulongBits eventCounter

theorem zero_notMem_text : 0 ∉ text r ulongBits eventCounter := by
  rw [text, List.mem_append]
  rintro (h | h)
  · exact r.nulFree h
  · exact zero_notMem_decimal _ h

theorem text_length_pos : 0 < (text r ulongBits eventCounter).length := by
  rw [text, List.length_append]
  have hpos := List.length_pos_of_ne_nil (decimal_ne_nil (toUlong ulongBits eventCounter))
  omega

theorem payload_length (buffer : Buffer) (preferredSize : ℕ) (offset : ℤ) :
    (resGetHandler r ulongBits eventCounter buffer preferredSize offset).payload.length =
      (text r ulongBits eventCounter).length := by
  rw [resGetHandler, window_length, snprintf_snd]

/-- A text that fits, with its terminator, is the payload. -/
theorem payload_of_lt {preferredSize : ℕ}
    (h : (text r ulongBits eventCounter).length < preferredSize) (buffer : Buffer) (offset : ℤ) :
    (resGetHandler r ulongBits eventCounter buffer preferredSize offset).payload =
      text r ulongBits eventCounter := by
  rw [resGetHandler, snprintf_snd, window_snprintf buffer le_rfl h, List.take_length]

/-- Of a text that does not fit, the terminator lies in the payload. -/
theorem payload_terminator {preferredSize : ℕ}
    (h : preferredSize ≤ (text r ulongBits eventCounter).length) (offset : ℤ) :
    (resGetHandler r ulongBits eventCounter (fun _ => 0) preferredSize offset).payload[
      preferredSize - 1]? = some 0 := by
  have hpos := text_length_pos r ulongBits eventCounter
  have hlt : preferredSize - 1 < (resGetHandler r ulongBits eventCounter (fun _ => 0)
      preferredSize offset).payload.length := by
    rw [payload_length]
    omega
  rw [List.getElem?_eq_getElem hlt, Option.some.injEq]
  simp only [resGetHandler, window_getElem]
  by_cases hsize : preferredSize = 0
  · rw [hsize]
    rfl
  · have hnul := snprintf_terminator (fun _ => 0) 0 (text r ulongBits eventCounter)
      (Nat.pos_of_ne_zero hsize)
    rwa [Nat.min_eq_left (by omega)] at hnul

variable {r ulongBits eventCounter}

theorem length_lt_of_whole {maxSize : ℕ}
    (h : (resGetHandler r ulongBits eventCounter (fun _ => 0) maxSize 0).payload =
      text r ulongBits eventCounter) : (text r ulongBits eventCounter).length < maxSize := by
  by_contra hle
  have hnul := payload_terminator r ulongBits eventCounter (Nat.le_of_not_lt hle) 0
  rw [h] at hnul
  exact zero_notMem_text r ulongBits eventCounter (List.mem_of_getElem? hnul)

/-- The first block is at the front of the text, and ends with the terminator when the text does
not fit. -/
theorem length_lt_of_blockwise {size fuel : ℕ} (hsize : 0 < size)
    (h : assemble (block r ulongBits eventCounter (fun _ _ => 0) size) fuel 0 =
      some (text r ulongBits eventCounter)) : (text r ulongBits eventCounter).length < size := by
  by_contra hle
  have hnul := payload_terminator r ulongBits eventCounter (Nat.le_of_not_lt hle) 0
  have hmem : 0 ∈ (block r ulongBits eventCounter (fun _ _ => 0) size 0).1 := by
    refine List.mem_of_getElem? (i := size - 1) ?_
    simp only [block, slice, List.drop_zero, Nat.cast_zero, zero_mul]
    rwa [List.getElem?_take_of_lt (by omega)]
  exact zero_notMem_text r ulongBits eventCounter ((prefix_of_assemble h).subset hmem)

/-- A text that fits is read block by block. -/
theorem blockwise_of_length_lt {size : ℕ} (h : (text r ulongBits eventCounter).length < size)
    (buffers : ℕ → Buffer) : ∃ fuel, assemble (block r ulongBits eventCounter buffers size) fuel 0 =
      some (text r ulongBits eventCounter) := by
  have hslices : block r ulongBits eventCounter buffers size = fun k =>
      (slice (text r ulongBits eventCounter) size k,
        decide ((k + 1) * size < (text r ulongBits eventCounter).length)) := by
    funext k
    simp only [block, payload_of_lt r ulongBits eventCounter h]
  rw [hslices]
  exact ⟨_, assemble_slices _ (Nat.zero_lt_of_lt h)⟩

/-- The representations are alike exactly when the text and its terminator fit. -/
theorem readsAlike_iff (szx maxSize : ℕ) :
    ReadsAlike r ulongBits eventCounter szx maxSize ↔
      (text r ulongBits eventCounter).length < blockSize szx ∧
        (text r ulongBits eventCounter).length < maxSize := by
  constructor
  · intro h
    obtain ⟨fuel, hread⟩ := h.blockwise fun _ _ => 0
    exact ⟨length_lt_of_blockwise (blockSize_pos szx) hread, length_lt_of_whole (h.whole _)⟩
  · rintro ⟨hblock, hmax⟩
    exact ⟨blockwise_of_length_lt hblock,
      fun buffer => payload_of_lt r ulongBits eventCounter hmax buffer 0⟩

/-- Both counters read alike exactly when the numeral leaves room for the label and the
terminator. -/
theorem counters_readAlike_iff (period clockSecond ulongBits : ℕ) (eventCounter : Int32)
    (szx maxSize : ℕ) :
    (ReadsAlike (resPush period clockSecond) ulongBits eventCounter szx maxSize ↔
      16 + (decimal (toUlong ulongBits eventCounter)).length < min (blockSize szx) maxSize) ∧
    (ReadsAlike resEvent ulongBits eventCounter szx maxSize ↔
      6 + (decimal (toUlong ulongBits eventCounter)).length < min (blockSize szx) maxSize) := by
  have hpush : (resPush period clockSecond).label.length = 16 := rfl
  have hevent : resEvent.label.length = 6 := rfl
  constructor
  · rw [readsAlike_iff, text, List.length_append, hpush, lt_min_iff]
  · rw [readsAlike_iff, text, List.length_append, hevent, lt_min_iff]

/-- In blocks of 16 bytes, every reading of `/test/push` has a NUL. -/
theorem push_small_blocks_differ :
    ¬ ∀ eventCounter szx, ReadsAlike (resPush 5000 128) 32 eventCounter szx 64 := by
  intro h
  have hlt := ((readsAlike_iff 0 64).mp (h 0 0)).1
  exact absurd hlt (by decide)

end IotLabTraining.EventResources
