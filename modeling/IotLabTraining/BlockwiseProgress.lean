import IotLabTraining.Blockwise

/-!
# Progress of a block-wise transfer

The follow-on requests of one transfer, for any sequence of responses. The handler
asks for the block after the one a response names, whatever it has asked for; the
transfer ends with the first response that is followed by no request.
-/
namespace IotLabTraining.BlockwiseProgress
open GcoapClient Blockwise

/-- Block numbers from here on do not fit into a Block2 option. -/
def BLOCK_NUM_END : ℕ := 2 ^ 20

/-- A call of the response handler, with the path it finds in the path buffer and the
message id for the request it may send. -/
structure Answer where
  lastReqPath : Bytes
  memo : MemoState
  pdu : Response
  remote : Remote
  id : UInt16

variable (riot : Riot)

/-- The follow-on requests of a transfer that is answered in this order. -/
def followOns : List Answer → List CoapReq
  | [] => []
  | a :: as =>
    match (respHandler riot a.lastReqPath a.memo a.pdu a.remote a.id).2 with
    | none => []
    | some (r, _) => r :: followOns as

/-- Block numbers that only grow, that an option can hold, and that come to an end. -/
structure Progress (numbers : List ℕ) : Prop where
  increasing : numbers.Pairwise (· < ·)
  encodable : ∀ n ∈ numbers, n < BLOCK_NUM_END
  bounded : numbers.length < BLOCK_NUM_END

/-- The number in a response that is not the last one: it names a block and says that more
follow, and the path is still known if the block is the first one. -/
def continuing (a : Answer) : Option ℕ :=
  match a.memo, a.pdu.block2 with
  | .resp, some block =>
    if block.more = true ∧ ¬ (block.blknum = 0 ∧ a.lastReqPath.length = 0) then some block.blknum
    else none
  | _, _ => none

/-- The block numbers of the responses, up to the one that ends the transfer. -/
def answered : List Answer → List ℕ
  | [] => []
  | a :: as =>
    match continuing a with
    | none => []
    | some n => n :: answered as

/-- What the handler asks for. -/
theorem respHandler_block (a : Answer) :
    ((respHandler riot a.lastReqPath a.memo a.pdu a.remote a.id).2.map fun r => blockOf r.1) =
      (continuing a).map (· + 1) := by
  simp only [respHandler, continuing]
  cases a.memo with
  | timeout => rfl
  | err => rfl
  | resp =>
    simp only [askNext]
    cases a.pdu.block2 with
    | none => rfl
    | some block =>
      dsimp only
      by_cases hmore : block.more = true
      · rw [if_pos hmore]
        by_cases hlong : block.blknum = 0 ∧ a.lastReqPath.length = 0
        · rw [if_pos hlong, if_neg fun h => h.2 hlong]
          rfl
        · rw [if_neg hlong, if_pos ⟨hmore, hlong⟩]
          rfl
      · rw [if_neg hmore, if_neg fun h => hmore h.1]
        rfl

/-- The transfer asks for the block after each one that it was given. -/
theorem blockOf_followOns (answers : List Answer) :
    (followOns riot answers).map blockOf = (answered answers).map (· + 1) := by
  induction answers with
  | nil => rfl
  | cons a as ih =>
    have hblock := respHandler_block riot a
    rw [followOns, answered]
    cases hnext : (respHandler riot a.lastReqPath a.memo a.pdu a.remote a.id).2 with
    | none =>
      rw [hnext] at hblock
      rw [Option.map_eq_none_iff.mp hblock.symm]
      rfl
    | some r =>
      rw [hnext, Option.map_some] at hblock
      obtain ⟨n, hn, hr⟩ := Option.map_eq_some_iff.mp hblock.symm
      rw [hn]
      dsimp only
      rw [List.map_cons, List.map_cons, ih, hr]

/-- Numbers that grow, start behind zero and stay below a bound are fewer than the bound. -/
theorem length_lt_of_pairwise {l : List ℕ} {bound : ℕ} (hpos : 0 < bound)
    (hinc : l.Pairwise (· < ·)) (hrange : ∀ n ∈ l, 0 < n ∧ n < bound) : l.length < bound := by
  have hnodup : l.Nodup := hinc.imp fun h => h.ne
  have hsub : l.toFinset ⊆ Finset.Ioo 0 bound := by
    intro n hn
    rw [Finset.mem_Ioo]
    exact hrange n (List.mem_toFinset.mp hn)
  have hcard := Finset.card_le_card hsub
  rw [List.toFinset_card_of_nodup hnodup, Nat.card_Ioo] at hcard
  omega

/-- A transfer makes progress exactly when the responses that it goes on from name growing
blocks, each with a successor that an option can hold. -/
theorem transfer_progresses_iff (riot : Riot) (answers : List Answer) :
    Progress ((followOns riot answers).map blockOf) ↔
      (answered answers).Pairwise (· < ·) ∧ ∀ n ∈ answered answers, n + 1 < BLOCK_NUM_END := by
  rw [blockOf_followOns]
  constructor
  · intro h
    constructor
    · have hinc := List.pairwise_map.mp h.increasing
      exact hinc.imp fun hlt => Nat.lt_of_succ_lt_succ hlt
    · intro n hn
      exact h.encodable _ (List.mem_map_of_mem hn)
  · rintro ⟨hinc, hrange⟩
    have hgrow : ((answered answers).map (· + 1)).Pairwise (· < ·) :=
      List.pairwise_map.mpr (hinc.imp fun hlt => Nat.succ_lt_succ hlt)
    have hall : ∀ n ∈ (answered answers).map (· + 1), 0 < n ∧ n < BLOCK_NUM_END := by
      intro n hn
      obtain ⟨m, hm, rfl⟩ := List.mem_map.mp hn
      exact ⟨Nat.succ_pos m, hrange m hm⟩
    exact ⟨hgrow, fun n hn => (hall n hn).2,
      length_lt_of_pairwise (Nat.pow_pos (by omega)) hgrow hall⟩

/-- A server that gives the first block, with more to come, to every request. -/
def firstAgain : Answer where
  lastReqPath := ascii "/board"
  memo := .resp
  pdu := ⟨1, .ack, COAP_CLASS_SUCCESS, 5, some ⟨0, 0, true⟩, COAP_FORMAT_TEXT,
    List.replicate 16 97⟩
  remote := ⟨6, exampleAddr, 5683⟩
  id := 2

/-- It is asked for block 1 as often as it answers. -/
theorem first_again_forever :
    (∀ n, ((followOns exampleRiot (List.replicate n firstAgain)).map blockOf) =
      List.replicate n 1) ∧
    ¬ ∀ (riot : Riot) (answers : List Answer), Progress ((followOns riot answers).map blockOf) := by
  have hsame (n : ℕ) : answered (List.replicate n firstAgain) = List.replicate n 0 := by
    induction n with
    | zero => rfl
    | succ n ih =>
      rw [List.replicate_succ, List.replicate_succ, ← ih]
      rfl
  have hones (n : ℕ) : ((followOns exampleRiot (List.replicate n firstAgain)).map blockOf) =
      List.replicate n 1 := by
    rw [blockOf_followOns, hsame, List.map_replicate]
  refine ⟨hones, fun h => ?_⟩
  have htwice := (h exampleRiot (List.replicate 2 firstAgain)).increasing
  rw [hones] at htwice
  exact absurd htwice (by decide)

end IotLabTraining.BlockwiseProgress
