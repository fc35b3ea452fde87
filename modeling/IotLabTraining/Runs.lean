import Mathlib

/-!
# Runs of a machine

A machine answers an action and moves on, or stops for good (`none`). `run`
gives the answers and the last state; a map of states that commutes with one
step commutes with runs. `Along` says that a condition on the state and the next
action holds at every step of a run; two conditions that agree wherever an
invariant holds agree along runs.
-/
namespace IotLabTraining.Runs
variable {S T A B R Q : Type*}

/-- From a state, an action is answered with a result and a next state. -/
abbrev Step (S A R : Type*) := S → A → Option (R × S)

/-- The answers to a list of actions, and the state behind the last one. -/
def run (step : Step S A R) : S → List A → Option (List R × S)
  | s, [] => some ([], s)
  | s, a :: as =>
    (step s a).bind fun p => (run step p.2 as).map fun q => (p.1 :: q.1, q.2)

/-- An abstraction that commutes with every step commutes with runs, and the
answers are the same. -/
theorem run_abstraction {step : Step S A R} {abstract : Step T A R} (f : S → T)
    (h : ∀ s a, abstract (f s) a = (step s a).map fun p => (p.1, f p.2)) (s : S) (as : List A) :
    run abstract (f s) as = (run step s as).map fun p => (p.1, f p.2) := by
  induction as generalizing s with
  | nil => rfl
  | cons a as ih =>
    rw [run, run, h]
    cases step s a with
    | none => rfl
    | some p =>
      simp only [Option.map_some, Option.bind_some, ih, Option.map_map]
      rfl

theorem run_cons {step : Step S A R} {s s₁ s₂ : S} {a : A} {as : List A} {r : R} {rs : List R}
    (h : step s a = some (r, s₁)) (h' : run step s₁ as = some (rs, s₂)) :
    run step s (a :: as) = some (r :: rs, s₂) := by
  rw [run, h, Option.bind_some, h', Option.map_some]

/-- A machine that answers every action of a kind, and stays where it does, never stops. -/
theorem exists_run_of {step : Step S A R} {K : A → Prop} {I : S → Prop}
    (h : ∀ s a, I s → K a → ∃ r s', step s a = some (r, s') ∧ I s') {s : S} (hs : I s)
    {as : List A} (hall : ∀ a ∈ as, K a) : ∃ rs s', run step s as = some (rs, s') := by
  induction as generalizing s with
  | nil => exact ⟨[], s, rfl⟩
  | cons a as ih =>
    rw [List.forall_mem_cons] at hall
    obtain ⟨r, s₁, hstep, hs₁⟩ := h s a hs hall.1
    obtain ⟨rs, s', hrun⟩ := ih hs₁ hall.2
    exact ⟨r :: rs, s', run_cons hstep hrun⟩

/-- A machine that answers every action never stops. -/
theorem exists_run {step : Step S A R} (h : ∀ s a, (step s a).isSome = true) (s : S)
    (as : List A) : ∃ rs s', run step s as = some (rs, s') := by
  apply exists_run_of (K := fun _ => True) (I := fun _ => True) _ trivial (fun _ _ => trivial)
  intro s a _ _
  obtain ⟨⟨r, s₁⟩, hstep⟩ := Option.isSome_iff_exists.mp (h s a)
  exact ⟨r, s₁, hstep, trivial⟩

/-- A run goes on where another one has ended. -/
theorem run_append {step : Step S A R} {s s₁ s₂ : S} {as bs : List A} {rs qs : List R}
    (h : run step s as = some (rs, s₁)) (h' : run step s₁ bs = some (qs, s₂)) :
    run step s (as ++ bs) = some (rs ++ qs, s₂) := by
  induction as generalizing s rs with
  | nil =>
    obtain ⟨rfl, rfl⟩ := Prod.mk.inj (Option.some.inj h)
    exact h'
  | cons a as ih =>
    obtain ⟨⟨r, s'⟩, hstep, hrest⟩ := Option.bind_eq_some_iff.mp h
    obtain ⟨⟨rs', s''⟩, hrun, he⟩ := Option.map_eq_some_iff.mp hrest
    obtain ⟨rfl, rfl⟩ := Prod.mk.inj he
    rw [List.cons_append, List.cons_append]
    exact run_cons hstep (ih hrun)

/-- A machine that also takes no action for one, and then stays as it is. -/
def optional (step : Step S A R) : Step S (Option A) (Option R) := fun s a =>
  match a with
  | none => some (none, s)
  | some a => (step s a).map fun p => (some p.1, p.2)

/-- A part of the state that has actions of its own, which are read off the answers, is run
by these alone, whatever else goes on between them. -/
theorem run_projection {step : Step S A R} {part : Step T B Q} {f : S → T} {g : R → Option B}
    {p : R → Option Q} (h : ∀ s a r s', step s a = some (r, s') →
      optional part (f s) (g r) = some (p r, f s')) {s s' : S} {as : List A} {rs : List R}
    (hrun : run step s as = some (rs, s')) :
    run part (f s) (rs.filterMap g) = some (rs.filterMap p, f s') := by
  induction as generalizing s rs with
  | nil =>
    obtain ⟨rfl, rfl⟩ := Prod.mk.inj (Option.some.inj hrun)
    rfl
  | cons a as ih =>
    obtain ⟨⟨r, s₁⟩, hstep, hrest⟩ := Option.bind_eq_some_iff.mp hrun
    obtain ⟨⟨rs', s₂⟩, hrun', he⟩ := Option.map_eq_some_iff.mp hrest
    obtain ⟨rfl, rfl⟩ := Prod.mk.inj he
    have hpart := h s a r s₁ hstep
    cases hg : g r with
    | none =>
      rw [hg] at hpart
      obtain ⟨hr, hsame⟩ := Prod.mk.inj (Option.some.inj hpart)
      rw [List.filterMap_cons_none hg, List.filterMap_cons_none hr.symm, hsame]
      exact ih hrun'
    | some b =>
      rw [hg] at hpart
      obtain ⟨⟨q, t⟩, hturn, he⟩ := Option.map_eq_some_iff.mp hpart
      obtain ⟨hr, rfl⟩ := Prod.mk.inj he
      rw [List.filterMap_cons_some hg, List.filterMap_cons_some hr.symm]
      exact run_cons hturn (ih hrun')

/-- A machine whose answers come with the actions that they are for. -/
def logged (step : Step S A R) : Step S A (A × R) := fun s a =>
  (step s a).map fun p => ((a, p.1), p.2)

theorem run_logged {step : Step S A R} {s s' : S} {as : List A} {rs : List R}
    (h : run step s as = some (rs, s')) :
    run (logged step) s as = some (as.zip rs, s') ∧ as.length = rs.length := by
  induction as generalizing s rs with
  | nil =>
    obtain ⟨rfl, rfl⟩ := Prod.mk.inj (Option.some.inj h)
    exact ⟨rfl, rfl⟩
  | cons a as ih =>
    obtain ⟨⟨r, s₁⟩, hstep, hrest⟩ := Option.bind_eq_some_iff.mp h
    obtain ⟨⟨rs', s₂⟩, hrun, he⟩ := Option.map_eq_some_iff.mp hrest
    obtain ⟨rfl, rfl⟩ := Prod.mk.inj he
    obtain ⟨hrun', hlength⟩ := ih hrun
    have hlog : logged step s a = some ((a, r), s₁) := by rw [logged, hstep, Option.map_some]
    exact ⟨run_cons hlog hrun', congrArg Nat.succ hlength⟩

/-- The same for a part whose actions are among those of the whole. -/
theorem run_component {step : Step S A R} {part : Step T B Q} {f : S → T} {g : A → Option B}
    {p : R → Option Q} (h : ∀ s a r s', step s a = some (r, s') →
      optional part (f s) (g a) = some (p r, f s')) {s s' : S} {as : List A} {rs : List R}
    (hrun : run step s as = some (rs, s')) :
    run part (f s) (as.filterMap g) = some (rs.filterMap p, f s') := by
  obtain ⟨hlogged, hlength⟩ := run_logged hrun
  have hpart : ∀ s a r s', logged step s a = some (r, s') →
      optional part (f s) ((g ∘ Prod.fst) r) = some ((p ∘ Prod.snd) r, f s') := by
    intro s a r s' hstep
    obtain ⟨q, hq, he⟩ := Option.map_eq_some_iff.mp hstep
    obtain ⟨rfl, rfl⟩ := Prod.mk.inj he
    exact h s a q.1 q.2 hq
  have hzip := run_projection hpart hlogged
  rwa [← List.filterMap_map, ← List.filterMap_map, List.map_fst_zip (le_of_eq hlength),
    List.map_snd_zip (le_of_eq hlength.symm)] at hzip

/-- What the answers show of the actions alone, in whatever state they are taken. -/
theorem run_filterMap {step : Step S A R} {p : R → Option Q} {g : A → Option Q}
    (h : ∀ s a r s', step s a = some (r, s') → p r = g a) {s s' : S} {as : List A} {rs : List R}
    (hrun : run step s as = some (rs, s')) : rs.filterMap p = as.filterMap g := by
  induction as generalizing s rs with
  | nil =>
    obtain ⟨rfl, rfl⟩ := Prod.mk.inj (Option.some.inj hrun)
    rfl
  | cons a as ih =>
    obtain ⟨⟨r, s₁⟩, hstep, hrest⟩ := Option.bind_eq_some_iff.mp hrun
    obtain ⟨⟨rs', s₂⟩, hrun', he⟩ := Option.map_eq_some_iff.mp hrest
    obtain ⟨rfl, rfl⟩ := Prod.mk.inj he
    rw [List.filterMap_cons, List.filterMap_cons, h s a r s₁ hstep, ih hrun']

/-- A machine that answers by the action alone, in every state that it comes to. -/
theorem exists_run_map {step : Step S A R} {own : A → R} {I : S → Prop}
    (h : ∀ s a, I s → ∃ s', step s a = some (own a, s') ∧ I s') {s : S} (hs : I s)
    (as : List A) : ∃ s', run step s as = some (as.map own, s') ∧ I s' := by
  induction as generalizing s with
  | nil => exact ⟨s, rfl, hs⟩
  | cons a as ih =>
    obtain ⟨s₁, hstep, hs₁⟩ := h s a hs
    obtain ⟨s', hrun, hs'⟩ := ih hs₁
    exact ⟨s', run_cons hstep hrun, hs'⟩

/-- What every action of a kind keeps, and what it is answered with, hold of every run of
such actions. -/
theorem run_keeps {step : Step S A R} {K : A → Prop} {I : S → Prop} {Q : R → Prop}
    (h : ∀ s a r s', I s → K a → step s a = some (r, s') → Q r ∧ I s') {s s' : S} {as : List A}
    {rs : List R} (hs : I s) (hall : ∀ a ∈ as, K a) (hrun : run step s as = some (rs, s')) :
    (∀ r ∈ rs, Q r) ∧ I s' := by
  induction as generalizing s rs with
  | nil =>
    obtain ⟨rfl, rfl⟩ := Prod.mk.inj (Option.some.inj hrun)
    exact ⟨by simp, hs⟩
  | cons a as ih =>
    unfold run at hrun
    obtain ⟨⟨r, s₁⟩, hstep, hrest⟩ := Option.bind_eq_some_iff.mp hrun
    obtain ⟨⟨rs', s₂⟩, hrun', he⟩ := Option.map_eq_some_iff.mp hrest
    obtain ⟨rfl, rfl⟩ := Prod.mk.inj he
    obtain ⟨hr, hs₁⟩ := h s a r s₁ hs (hall a List.mem_cons_self) hstep
    obtain ⟨hrs, hlast⟩ := ih hs₁ (fun b hb => hall b (List.mem_cons_of_mem a hb)) hrun'
    exact ⟨List.forall_mem_cons.mpr ⟨hr, hrs⟩, hlast⟩

/-- What answers give out of what is held and what actions bring, in this order, is part of all
that was brought, and so is what is still held. -/
theorem run_sublist {step : Step S A R} {I : S → Prop} {f : S → List Q} {p : R → List Q}
    {g : A → List Q} (h : ∀ s a r s', I s → step s a = some (r, s') →
      I s' ∧ (p r ++ f s').Sublist (f s ++ g a)) {s s' : S} {as : List A} {rs : List R}
    (hs : I s) (hrun : run step s as = some (rs, s')) :
    (rs.flatMap p ++ f s').Sublist (f s ++ as.flatMap g) := by
  induction as generalizing s rs with
  | nil =>
    obtain ⟨rfl, rfl⟩ := Prod.mk.inj (Option.some.inj hrun)
    simp
  | cons a as ih =>
    obtain ⟨⟨r, s₁⟩, hstep, hrest⟩ := Option.bind_eq_some_iff.mp hrun
    obtain ⟨⟨rs', s₂⟩, hrun', he⟩ := Option.map_eq_some_iff.mp hrest
    obtain ⟨rfl, rfl⟩ := Prod.mk.inj he
    obtain ⟨hs₁, hfirst⟩ := h s a r s₁ hs hstep
    have hlater := (ih hs₁ hrun').append_left (p r)
    rw [List.flatMap_cons, List.flatMap_cons, List.append_assoc, ← List.append_assoc (f s)]
    refine hlater.trans ?_
    rw [← List.append_assoc]
    exact hfirst.append_right _

/-- A potential that every action of a kind raises by what it gains and lowers by what its
answer costs balances the gains and the costs of every run of such actions. -/
theorem run_balance {step : Step S A R} {K : A → Prop} {I : S → Prop} {f : S → ℕ} {g : A → ℕ}
    {c : R → ℕ} (h : ∀ s a r s', I s → K a → step s a = some (r, s') →
      f s + g a = c r + f s' ∧ I s') {s s' : S} {as : List A} {rs : List R} (hs : I s)
    (hall : ∀ a ∈ as, K a) (hrun : run step s as = some (rs, s')) :
    f s + (as.map g).sum = (rs.map c).sum + f s' := by
  induction as generalizing s rs with
  | nil =>
    obtain ⟨rfl, rfl⟩ := Prod.mk.inj (Option.some.inj hrun)
    simp
  | cons a as ih =>
    obtain ⟨⟨r, s₁⟩, hstep, hrest⟩ := Option.bind_eq_some_iff.mp hrun
    obtain ⟨⟨rs', s₂⟩, hrun', he⟩ := Option.map_eq_some_iff.mp hrest
    obtain ⟨rfl, rfl⟩ := Prod.mk.inj he
    obtain ⟨hfirst, hs₁⟩ := h s a r s₁ hs (hall a List.mem_cons_self) hstep
    have hlater := ih hs₁ (fun b hb => hall b (List.mem_cons_of_mem a hb)) hrun'
    rw [List.map_cons, List.sum_cons, List.map_cons, List.sum_cons]
    dsimp only at hlater ⊢
    omega

/-- The condition holds of every action in the state it is taken in. -/
def Along (step : Step S A R) (P : S → A → Prop) : S → List A → Prop
  | _, [] => True
  | s, a :: as => P s a ∧ ∀ r s', step s a = some (r, s') → Along step P s' as

theorem along_cons (step : Step S A R) (P : S → A → Prop) (s : S) (a : A) (as : List A) :
    Along step P s (a :: as) ↔
      P s a ∧ ∀ r s', step s a = some (r, s') → Along step P s' as := Iff.rfl

/-- Two conditions that agree under an invariant, which the second one keeps. -/
theorem along_congr {step : Step S A R} {P Q : S → A → Prop} {I : S → Prop}
    (hiff : ∀ s a, I s → (P s a ↔ Q s a))
    (hkeep : ∀ s a r s', I s → Q s a → step s a = some (r, s') → I s') {s : S} (hs : I s)
    (as : List A) : Along step P s as ↔ Along step Q s as := by
  induction as generalizing s with
  | nil => exact Iff.rfl
  | cons a as ih =>
    rw [along_cons, along_cons, hiff s a hs]
    apply and_congr_right
    intro hQ
    apply forall_congr'
    intro r
    apply forall_congr'
    intro s'
    exact forall_congr' fun h => ih (hkeep s a r s' hs hQ h)

/-- Along a run that keeps to `D`, two conditions that agree under an invariant which
`D` keeps. -/
theorem along_congr_of {step : Step S A R} {D P Q : S → A → Prop} {I : S → Prop}
    (hiff : ∀ s a, I s → D s a → (P s a ↔ Q s a))
    (hkeep : ∀ s a r s', I s → D s a → step s a = some (r, s') → I s') {s : S} (hs : I s)
    {as : List A} (hd : Along step D s as) : Along step P s as ↔ Along step Q s as := by
  induction as generalizing s with
  | nil => exact Iff.rfl
  | cons a as ih =>
    obtain ⟨hhead, htail⟩ := hd
    rw [along_cons, along_cons, hiff s a hs hhead]
    apply and_congr_right
    intro _
    apply forall_congr'
    intro r
    apply forall_congr'
    intro s'
    exact forall_congr' fun h => ih (hkeep s a r s' hs hhead h) (htail r s' h)

/-- Where the states are made of the actions before them, a condition with which the run goes
on holds along it exactly if it holds at every place of the list. -/
theorem along_iff_places {step : Step S A R} {P : S → A → Prop} {Q : List A → A → Prop}
    {f : List A → S} (hiff : ∀ past a, P (f past) a ↔ Q past a)
    (hstep : ∀ past a, P (f past) a → ∃ r, step (f past) a = some (r, f (past ++ [a])))
    (past as : List A) : Along step P (f past) as ↔
      ∀ pre a post, as = pre ++ a :: post → Q (past ++ pre) a := by
  induction as generalizing past with
  | nil => simp [Along]
  | cons a as ih =>
    rw [along_cons]
    constructor
    · intro ⟨ha, htail⟩ pre b post he
      cases pre with
      | nil =>
        obtain ⟨rfl, -⟩ := List.cons.inj he
        rw [List.append_nil]
        exact (hiff past a).mp ha
      | cons c pre =>
        obtain ⟨rfl, he'⟩ := List.cons.inj he
        obtain ⟨r, hr⟩ := hstep past a ha
        have hplace := (ih (past ++ [a])).mp (htail r _ hr) pre b post he'
        rwa [List.append_assoc] at hplace
    · intro h
      have hhead := h [] a as rfl
      rw [List.append_nil, ← hiff] at hhead
      obtain ⟨r, hr⟩ := hstep past a hhead
      refine ⟨hhead, fun r' s' hs' => (?_ : Along step P s' as)⟩
      rw [hr] at hs'
      obtain ⟨-, rfl⟩ := Prod.mk.inj (Option.some.inj hs')
      refine (ih (past ++ [a])).mpr fun pre b post he => ?_
      rw [List.append_assoc]
      exact h (a :: pre) b post (congrArg (List.cons a) he)

/-- All answers of a run are the ones that their actions call for. -/
theorem exists_run_map_iff {step : Step S A R} (own : A → R) (s : S) (as : List A) :
    (∃ s', run step s as = some (as.map own, s')) ↔
      Along step (fun s a => ∃ s', step s a = some (own a, s')) s as := by
  induction as generalizing s with
  | nil => exact iff_of_true ⟨s, rfl⟩ trivial
  | cons a as ih =>
    rw [along_cons]
    constructor
    · intro ⟨s', hrun⟩
      obtain ⟨⟨r, s₁⟩, hstep, hrest⟩ := Option.bind_eq_some_iff.mp hrun
      obtain ⟨⟨rs, s₂⟩, hrun', he⟩ := Option.map_eq_some_iff.mp hrest
      obtain ⟨hcons, -⟩ := Prod.mk.inj he
      obtain ⟨rfl, rfl⟩ := List.cons.inj hcons
      refine ⟨⟨s₁, hstep⟩, fun r s' h => ?_⟩
      rw [hstep] at h
      obtain ⟨-, rfl⟩ := Prod.mk.inj (Option.some.inj h)
      exact (ih s₁).mp ⟨s₂, hrun'⟩
    · intro ⟨⟨s₁, hstep⟩, htail⟩
      obtain ⟨s', hrun⟩ := (ih s₁).mpr (htail _ s₁ hstep)
      exact ⟨s', run_cons hstep hrun⟩

/-- A flag that stands from the first action on that breaks the condition. -/
theorem along_iff_not_flag {step : Step S A R} {P : S → A → Prop} {I flag : S → Prop}
    (h : ∀ s a r s', I s → step s a = some (r, s') → I s' ∧ (flag s' ↔ flag s ∨ ¬ P s a))
    {s s' : S} {as : List A} {rs : List R} (hs : I s) (hrun : run step s as = some (rs, s')) :
    I s' ∧ (flag s' ↔ flag s ∨ ¬ Along step P s as) := by
  induction as generalizing s rs with
  | nil =>
    obtain ⟨rfl, rfl⟩ := Prod.mk.inj (Option.some.inj hrun)
    exact ⟨hs, by simp [Along]⟩
  | cons a as ih =>
    obtain ⟨⟨r, s₁⟩, hstep, hrest⟩ := Option.bind_eq_some_iff.mp hrun
    obtain ⟨⟨rs', s₂⟩, hrun', he⟩ := Option.map_eq_some_iff.mp hrest
    obtain ⟨rfl, rfl⟩ := Prod.mk.inj he
    obtain ⟨hs₁, hfirst⟩ := h s a r s₁ hs hstep
    obtain ⟨hlast, hlater⟩ := ih hs₁ hrun'
    have htail : (∀ r s', step s a = some (r, s') → Along step P s' as) ↔ Along step P s₁ as := by
      simp [hstep]
    rw [along_cons, htail, hlater, hfirst, not_and_or, or_assoc]
    exact ⟨hlast, Iff.rfl⟩

/-! ## Endless runs -/

/-- The state before the action with number `n` of an endless run. -/
def stateAt (next : S → A → S) (s : S) (as : ℕ → A) : ℕ → S
  | 0 => s
  | n + 1 => next (stateAt next s as n) (as n)

@[simp] theorem stateAt_zero (next : S → A → S) (s : S) (as : ℕ → A) :
    stateAt next s as 0 = s := rfl

theorem stateAt_succ (next : S → A → S) (s : S) (as : ℕ → A) (n : ℕ) :
    stateAt next s as (n + 1) = next (stateAt next s as n) (as n) := rfl

/-- What holds at first and is kept by every action holds all along. -/
theorem stateAt_invariant {next : S → A → S} {I : S → Prop} {s : S} (hs : I s)
    (hkeep : ∀ s a, I s → I (next s a)) (as : ℕ → A) (n : ℕ) : I (stateAt next s as n) := by
  induction n with
  | zero => exact hs
  | succ n ih => exact hkeep _ _ ih

end IotLabTraining.Runs
