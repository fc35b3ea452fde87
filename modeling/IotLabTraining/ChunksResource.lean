import IotLabTraining.CoapResource
import IotLabTraining.Runs

/-!
# The chunk-wise resource

`res-chunks.c` generates its text while it is read: each call prints its offset
again and again until the block is full, and cuts off what is too much. The loop runs on
fuel; a call that runs out of it gives no response.
-/
namespace IotLabTraining.ChunksResource
open Buffers CoapResource

def CHUNKS_TOTAL : ℤ := 2050

/-- What `|%ld|` prints. -/
def cell (offset : ℤ) : Bytes := ascii "|" ++ signed offset ++ ascii "|"

/-- The loop that fills the buffer. -/
def fill (preferredSize : ℕ) (text : Bytes) : ℕ → Buffer → ℕ → Option (Buffer × ℕ)
  | 0, _, _ => none
  | fuel + 1, buffer, strpos =>
    if strpos < preferredSize then
      let printed := snprintf buffer strpos (preferredSize - strpos + 1) text
      fill preferredSize text fuel printed.1 (strpos + printed.2)
    else some (buffer, strpos)

/-- `res_get_handler` of `res-chunks.c`. -/
def resGetHandler (fuel : ℕ) (buffer : Buffer) (preferredSize : ℕ) (offset : ℤ) :
    Option Response :=
  if CHUNKS_TOTAL ≤ offset then some (blockOutOfScope buffer offset)
  else
    (fill preferredSize (cell offset) fuel buffer 0).map fun filled =>
      let strpos : ℤ := if filled.2 > preferredSize then preferredSize else filled.2
      let strpos := if offset + strpos > CHUNKS_TOTAL then CHUNKS_TOTAL - offset else strpos
      let next := offset + strpos
      { payload := window filled.1 0 strpos.toNat
        buffer := filled.1
        offset := if CHUNKS_TOTAL ≤ next then -1 else next }

/-! ## The loop -/

theorem cell_length_pos (offset : ℤ) : 0 < (cell offset).length := by
  have hbar : (ascii "|").length = 1 := rfl
  rw [cell, List.length_append, List.length_append, hbar]
  omega

/-- The buffer as the loop has filled it up to `strpos`. -/
structure Filled (preferredSize : ℕ) (text : Bytes) (old buffer : Buffer) (strpos : ℕ) : Prop where
  aligned : text.length ∣ strpos
  printed : ∀ k < min strpos preferredSize, some (buffer k) = text[k % text.length]?
  untouched : ∀ k > preferredSize, buffer k = old k

theorem filled_start (preferredSize : ℕ) (text : Bytes) (old : Buffer) :
    Filled preferredSize text old old 0 where
  aligned := dvd_zero _
  printed := by
    intro k hk
    omega
  untouched _ _ := rfl

/-- Another round of the loop. -/
theorem filled_step {preferredSize : ℕ} {text : Bytes} {old buffer : Buffer} {strpos : ℕ}
    (h : Filled preferredSize text old buffer strpos) (hlt : strpos < preferredSize) :
    Filled preferredSize text old
      (snprintf buffer strpos (preferredSize - strpos + 1) text).1 (strpos + text.length) where
  aligned := Nat.dvd_add h.aligned (dvd_refl _)
  printed := by
    intro k hk
    by_cases hold : k < strpos
    · rw [snprintf_of_lt _ _ _ hold]
      exact h.printed k (by omega)
    · have hin : k - strpos < text.length := by omega
      have hread := snprintf_at buffer strpos hin
        (show k - strpos + 1 < preferredSize - strpos + 1 by omega)
      obtain ⟨c, hc⟩ := h.aligned
      have hmod : k % text.length = k - strpos := by
        have hsplit : k = (k - strpos) + text.length * c := by omega
        rw [hsplit, Nat.add_mul_mod_self_left, Nat.mod_eq_of_lt hin]
        omega
      rw [Nat.add_sub_cancel' (by omega)] at hread
      rw [hread, hmod, List.getElem?_eq_getElem hin]
  untouched := by
    intro k hk
    rw [snprintf_of_le _ _ (by omega)]
    exact h.untouched k hk

/-- The loop ends, and has filled the block. -/
theorem fill_spec {preferredSize : ℕ} {text : Bytes} (htext : 0 < text.length) {old : Buffer}
    (fuel : ℕ) {buffer : Buffer} {strpos : ℕ} (h : Filled preferredSize text old buffer strpos)
    (hfuel : preferredSize - strpos < fuel) :
    ∃ buffer' strpos', fill preferredSize text fuel buffer strpos = some (buffer', strpos') ∧
      preferredSize ≤ strpos' ∧ Filled preferredSize text old buffer' strpos' := by
  induction fuel generalizing buffer strpos with
  | zero => exact absurd hfuel (Nat.not_lt_zero _)
  | succ fuel ih =>
    by_cases hlt : strpos < preferredSize
    · rw [fill, if_pos hlt]
      exact ih (filled_step h hlt) (by rw [snprintf_snd]; omega)
    · exact ⟨buffer, strpos, by rw [fill, if_neg hlt], by omega, h⟩

/-- More fuel changes nothing. -/
theorem fill_mono {preferredSize : ℕ} {text : Bytes} {fuel more : ℕ} (hle : fuel ≤ more)
    {buffer : Buffer} {strpos : ℕ} {r : Buffer × ℕ}
    (h : fill preferredSize text fuel buffer strpos = some r) :
    fill preferredSize text more buffer strpos = some r := by
  induction fuel generalizing more buffer strpos with
  | zero => cases h
  | succ fuel ih =>
    obtain ⟨more, rfl⟩ : ∃ m, more = m + 1 := ⟨more - 1, by omega⟩
    rw [fill] at h ⊢
    split_ifs at h ⊢
    · exact ih (by omega) h
    · exact h

/-! ## One call -/

/-- What a call before the end of the resource gives for an offset. -/
structure Chunk (old : Buffer) (preferredSize : ℕ) (offset : ℤ) (r : Response) : Prop where
  status : r.statusCode = none
  length : (r.payload.length : ℤ) = min (preferredSize : ℤ) (CHUNKS_TOTAL - offset)
  printed : ∀ k < r.payload.length, r.payload[k]? = (cell offset)[k % (cell offset).length]?
  inBuffer : r.payload = window r.buffer 0 r.payload.length
  untouched : ∀ k > preferredSize, r.buffer k = old k
  next : r.offset = if offset + r.payload.length = CHUNKS_TOTAL then -1
    else offset + r.payload.length

theorem chunk_of_filled {old buffer : Buffer} {preferredSize strpos : ℕ} {offset : ℤ}
    (hend : offset < CHUNKS_TOTAL) (hle : preferredSize ≤ strpos)
    (h : Filled preferredSize (cell offset) old buffer strpos) :
    ∃ r, Chunk old preferredSize offset r ∧
      ∀ fuel, fill preferredSize (cell offset) fuel old 0 = some (buffer, strpos) →
        resGetHandler fuel old preferredSize offset = some r := by
  let n : ℕ := min preferredSize (CHUNKS_TOTAL - offset).toNat
  have hcut : (if strpos > preferredSize then (preferredSize : ℤ) else strpos) = preferredSize := by
    split_ifs
    all_goals omega
  have hn : (if offset + (preferredSize : ℤ) > CHUNKS_TOTAL then CHUNKS_TOTAL - offset
      else preferredSize) = (n : ℤ) := by
    split_ifs
    all_goals omega
  refine ⟨⟨none, none, none, window buffer 0 n, buffer,
    if CHUNKS_TOTAL ≤ offset + n then -1 else offset + n⟩, ⟨rfl, ?_, ?_, ?_, h.untouched, ?_⟩, ?_⟩
  · rw [window_length]
    omega
  · intro k hk
    rw [List.getElem?_eq_getElem hk, ← h.printed k (by rw [window_length] at hk; omega),
      window_getElem, Nat.zero_add]
  · rw [window_length]
  · rw [window_length]
    apply if_congr _ rfl rfl
    omega
  · intro fuel hfill
    rw [resGetHandler, if_neg (by omega), hfill, Option.map_some]
    simp only [hcut, hn, Int.toNat_natCast]

/-- A call ends once it has more fuel than the block has bytes, whatever the buffer
held before. -/
theorem resGetHandler_chunk (old : Buffer) (preferredSize : ℕ) {offset : ℤ}
    (hend : offset < CHUNKS_TOTAL) :
    ∃ r, Chunk old preferredSize offset r ∧
      ∀ fuel > preferredSize, resGetHandler fuel old preferredSize offset = some r := by
  obtain ⟨buffer, strpos, hfill, hle, hfilled⟩ := fill_spec (cell_length_pos offset)
    (preferredSize + 1) (filled_start preferredSize (cell offset) old) (by omega)
  obtain ⟨r, hr, hcall⟩ := chunk_of_filled hend hle hfilled
  exact ⟨r, hr, fun fuel hfuel => hcall fuel (fill_mono (by omega) hfill)⟩

/-- The payload does not depend on what the buffer held before. -/
theorem chunk_payload_eq {old old' : Buffer} {preferredSize : ℕ} {offset : ℤ} {r r' : Response}
    (h : Chunk old preferredSize offset r) (h' : Chunk old' preferredSize offset r') :
    r.payload = r'.payload := by
  have hlen : r.payload.length = r'.payload.length := by
    have h₁ := h.length
    have h₂ := h'.length
    omega
  apply List.ext_getElem?
  intro k
  by_cases hk : k < r.payload.length
  · rw [h.printed k hk, h'.printed k (by omega)]
  · rw [List.getElem?_eq_none (by omega), List.getElem?_eq_none (by omega)]

/-! ## The whole transfer -/

section
variable (sizes : ℕ → ℕ) (buffers : ℕ → Buffer)

/-- The offset before the call with number `i`, the calls being answered with `calls`. -/
def offsetAt (calls : ℕ → Response) : ℕ → ℤ
  | 0 => 0
  | i + 1 => (calls i).offset

/-- The transfer takes `n` calls: each returns and fills its block itself with its own text,
they cover the resource once, and the last one and only that one ends it. -/
structure Covers (calls : ℕ → Response) (n : ℕ) : Prop where
  returns : ∀ i < n, ∃ enough, ∀ fuel ≥ enough,
    resGetHandler fuel (buffers i) (sizes i) (offsetAt calls i) = some (calls i)
  length : ∀ i < n, ((calls i).payload.length : ℤ) =
    min (sizes i : ℤ) (CHUNKS_TOTAL - offsetAt calls i)
  inBuffer : ∀ i < n, (calls i).payload =
    window (calls i).buffer 0 (calls i).payload.length
  printed : ∀ i < n, ∀ k < (calls i).payload.length, (calls i).payload[k]? =
    (cell (offsetAt calls i))[k % (cell (offsetAt calls i)).length]?
  written : ∀ i < n, ∀ other, ∃ r enough, (∀ fuel ≥ enough,
    resGetHandler fuel other (sizes i) (offsetAt calls i) = some r) ∧ r.payload = (calls i).payload
  untouched : ∀ i < n, ∀ k > sizes i, (calls i).buffer k = buffers i k
  advances : ∀ i, i + 1 < n → offsetAt calls (i + 1) =
    offsetAt calls i + (calls i).payload.length ∧ offsetAt calls (i + 1) ≠ -1
  ends : 0 < n ∧ offsetAt calls n = -1
  total : ((List.range n).map fun i => ((calls i).payload.length : ℤ)).sum = CHUNKS_TOTAL

/-- What the blocks before the call with number `i` hold. -/
def sent : ℕ → ℕ
  | 0 => 0
  | i + 1 => min CHUNKS_TOTAL.toNat (sent i + sizes i)

variable {sizes}

theorem sent_le (i : ℕ) : (sent sizes i : ℤ) ≤ CHUNKS_TOTAL := by
  have htotal : CHUNKS_TOTAL = 2050 := rfl
  cases i with
  | zero =>
    unfold sent
    omega
  | succ i =>
    unfold sent
    omega

/-- Blocks that are not empty reach the end. -/
theorem exists_sent_all (hpos : ∀ i, 0 < sizes i) : ∃ n, (sent sizes n : ℤ) = CHUNKS_TOTAL := by
  have hreach (n : ℕ) : min CHUNKS_TOTAL.toNat n ≤ sent sizes n := by
    induction n with
    | zero => omega
    | succ n ih =>
      have hn := hpos n
      unfold sent
      omega
  refine ⟨CHUNKS_TOTAL.toNat, le_antisymm (sent_le _) ?_⟩
  have hall := hreach CHUNKS_TOTAL.toNat
  have htotal : CHUNKS_TOTAL = 2050 := rfl
  omega

/-- The calls of a transfer: each one that starts before the end cuts its chunk. -/
def Cuts (sizes : ℕ → ℕ) (buffers : ℕ → Buffer) (calls : ℕ → Response) : Prop :=
  ∀ i, (sent sizes i : ℤ) < CHUNKS_TOTAL →
    Chunk (buffers i) (sizes i) (sent sizes i) (calls i) ∧
      ∀ fuel > sizes i, resGetHandler fuel (buffers i) (sizes i) (sent sizes i) = some (calls i)

theorem exists_cuts (sizes : ℕ → ℕ) (buffers : ℕ → Buffer) :
    ∃ calls, Cuts sizes buffers calls := by
  have hcall (i : ℕ) : ∃ r, (sent sizes i : ℤ) < CHUNKS_TOTAL →
      Chunk (buffers i) (sizes i) (sent sizes i) r ∧
        ∀ fuel > sizes i, resGetHandler fuel (buffers i) (sizes i) (sent sizes i) = some r := by
    by_cases hlt : (sent sizes i : ℤ) < CHUNKS_TOTAL
    · obtain ⟨r, hr⟩ := resGetHandler_chunk (buffers i) (sizes i) hlt
      exact ⟨r, fun _ => hr⟩
    · exact ⟨blockOutOfScope (buffers i) 0, fun h => absurd h hlt⟩
  choose calls hcalls using hcall
  exact ⟨calls, hcalls⟩

variable {buffers} {calls : ℕ → Response}

theorem sent_succ (h : Cuts sizes buffers calls) {i : ℕ}
    (hlt : (sent sizes i : ℤ) < CHUNKS_TOTAL) :
    (sent sizes (i + 1) : ℤ) = sent sizes i + (calls i).payload.length := by
  have hlen := (h i hlt).1.length
  rw [sent]
  omega

/-- The offset follows what was sent, up to the call that ends the transfer. -/
theorem offsetAt_succ (h : Cuts sizes buffers calls) {i : ℕ}
    (hlt : (sent sizes i : ℤ) < CHUNKS_TOTAL) :
    offsetAt calls (i + 1) =
      if (sent sizes (i + 1) : ℤ) = CHUNKS_TOTAL then -1 else (sent sizes (i + 1) : ℤ) := by
  rw [offsetAt, (h i hlt).1.next, sent_succ h hlt]

theorem offsetAt_eq_sent (h : Cuts sizes buffers calls) {i : ℕ}
    (hlt : ∀ j ≤ i, (sent sizes j : ℤ) < CHUNKS_TOTAL) : offsetAt calls i = sent sizes i := by
  cases i with
  | zero => rfl
  | succ i =>
    rw [offsetAt_succ h (hlt i (Nat.le_succ i)), if_neg (hlt (i + 1) le_rfl).ne]

theorem sum_lengths (h : Cuts sizes buffers calls) {n : ℕ}
    (hlt : ∀ j < n, (sent sizes j : ℤ) < CHUNKS_TOTAL) :
    ((List.range n).map fun i => ((calls i).payload.length : ℤ)).sum = sent sizes n := by
  induction n with
  | zero => rfl
  | succ n ih =>
    have hinit := ih fun j hj => hlt j (Nat.lt_succ_of_lt hj)
    rw [List.range_succ, List.map_append, List.sum_append, hinit,
      sent_succ h (hlt n (Nat.lt_succ_self n))]
    simp

theorem covers_of_cuts (h : Cuts sizes buffers calls) {n : ℕ}
    (hlt : ∀ j < n, (sent sizes j : ℤ) < CHUNKS_TOTAL)
    (hn : (sent sizes n : ℤ) = CHUNKS_TOTAL) : Covers sizes buffers calls n := by
  have hoffset (i : ℕ) (hi : i < n) : offsetAt calls i = sent sizes i :=
    offsetAt_eq_sent h fun j hj => hlt j (by omega)
  have hpos : 0 < n := by
    by_contra hzero
    obtain rfl : n = 0 := by omega
    unfold sent at hn
    exact absurd hn (by decide)
  refine ⟨?_, ?_, ?_, ?_, ?_, ?_, ?_, ⟨hpos, ?_⟩, ?_⟩
  · intro i hi
    rw [hoffset i hi]
    exact ⟨sizes i + 1, (h i (hlt i hi)).2⟩
  · intro i hi
    rw [hoffset i hi]
    exact (h i (hlt i hi)).1.length
  · intro i hi
    exact (h i (hlt i hi)).1.inBuffer
  · intro i hi
    rw [hoffset i hi]
    exact (h i (hlt i hi)).1.printed
  · intro i hi other
    rw [hoffset i hi]
    obtain ⟨r, hr, hcall⟩ := resGetHandler_chunk other (sizes i) (hlt i hi)
    exact ⟨r, sizes i + 1, hcall, chunk_payload_eq hr (h i (hlt i hi)).1⟩
  · intro i hi
    exact (h i (hlt i hi)).1.untouched
  · intro i hi
    rw [hoffset i (by omega), hoffset (i + 1) hi, sent_succ h (hlt i (by omega))]
    exact ⟨rfl, by omega⟩
  · obtain ⟨m, rfl⟩ : ∃ m, n = m + 1 := ⟨n - 1, by omega⟩
    rw [offsetAt_succ h (hlt m (Nat.lt_succ_self m)), if_pos hn]
  · rw [sum_lengths h hlt, hn]

end

/-- For every sequence of block sizes, and whatever the buffers held, the chunks cover
the resource once and end. -/
theorem chunks_cover (sizes : ℕ → ℕ) (buffers : ℕ → Buffer) (hpos : ∀ i, 0 < sizes i) :
    ∃ calls n, Covers sizes buffers calls n := by
  obtain ⟨calls, hcalls⟩ := exists_cuts sizes buffers
  have hall := exists_sent_all hpos
  refine ⟨calls, Nat.find hall, covers_of_cuts hcalls ?_ (Nat.find_spec hall)⟩
  intro j hj
  exact lt_of_le_of_ne (sent_le j) (Nat.find_min hall hj)

theorem chunks_cover_smallest :
    ∃ calls n, Covers (fun _ => 16) (fun _ _ => 0) calls n :=
  chunks_cover (fun _ => 16) (fun _ _ => 0) fun _ => by decide

end IotLabTraining.ChunksResource
