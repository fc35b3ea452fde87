import IotLabTraining.Runs

/-!
# Traces of runs

An observer sees a list of events of every action, most often none or one. An acceptor
takes events one by one and refuses the ones that it does not allow. Where the states of a
machine correspond to states of an acceptor, and go on to correspond through every action,
the acceptor takes the traces of all runs.
-/
namespace IotLabTraining.Traces
open Runs
variable {S T A R E : Type*}

/-- What is seen of a run, as far as it gets. -/
def trace (step : Step S A R) (view : S → A → R → List E) : S → List A → List E
  | _, [] => []
  | s, a :: as =>
    match step s a with
    | none => []
    | some (r, s') => view s a r ++ trace step view s' as

abbrev Acceptor (T E : Type*) := T → E → Option T

/-- The state behind a list of events, if all of them are allowed. -/
def accept (acceptor : Acceptor T E) : T → List E → Option T
  | t, [] => some t
  | t, e :: es => (acceptor t e).bind fun t' => accept acceptor t' es

section
variable {acceptor : Acceptor T E}

@[simp] theorem accept_nil (t : T) : accept acceptor t [] = some t := rfl

@[simp] theorem accept_singleton (t : T) (e : E) : accept acceptor t [e] = acceptor t e :=
  Option.bind_fun_some _

theorem accept_append (t : T) (es fs : List E) :
    accept acceptor t (es ++ fs) = (accept acceptor t es).bind fun t' => accept acceptor t' fs := by
  induction es generalizing t with
  | nil => rfl
  | cons e es ih =>
    rw [List.cons_append, accept, accept, Option.bind_assoc]
    exact congrArg _ (funext fun t' => ih t')

end

/-- Corresponding states stay corresponding, and what is seen on the way is allowed. -/
def Simulates (step : Step S A R) (view : S → A → R → List E) (acceptor : Acceptor T E)
    (I : S → T → Prop) : Prop :=
  ∀ s t a r s', I s t → step s a = some (r, s') →
    ∃ t', accept acceptor t (view s a r) = some t' ∧ I s' t'

variable {step : Step S A R} {view : S → A → R → List E} {acceptor : Acceptor T E}
  {I : S → T → Prop}

theorem trace_cons {s s' : S} {a : A} {r : R} (h : step s a = some (r, s')) (as : List A) :
    trace step view s (a :: as) = view s a r ++ trace step view s' as := by
  rw [trace, h]

/-- Where only the answers are seen, they are seen as they come. -/
theorem trace_of_run {f : R → List E} {s s' : S} {as : List A} {rs : List R}
    (h : run step s as = some (rs, s')) : trace step (fun _ _ r => f r) s as = rs.flatMap f := by
  induction as generalizing s rs with
  | nil =>
    obtain ⟨rfl, -⟩ := Prod.mk.inj (Option.some.inj h)
    rfl
  | cons a as ih =>
    obtain ⟨⟨r, s₁⟩, hstep, hrest⟩ := Option.bind_eq_some_iff.mp h
    obtain ⟨⟨rs', s₂⟩, hrun, he⟩ := Option.map_eq_some_iff.mp hrest
    obtain ⟨rfl, rfl⟩ := Prod.mk.inj he
    rw [trace_cons hstep, ih hrun, List.flatMap_cons]

/-- The acceptor takes what is seen of a run, and the last states correspond. -/
theorem Simulates.accept_trace (h : Simulates step view acceptor I) {s : S} {t : T} (hst : I s t)
    (as : List A) : ∃ t', accept acceptor t (trace step view s as) = some t' ∧
      ∀ rs s', run step s as = some (rs, s') → I s' t' := by
  induction as generalizing s t with
  | nil =>
    refine ⟨t, rfl, fun rs s' hrun => ?_⟩
    obtain ⟨-, rfl⟩ := Prod.mk.inj (Option.some.inj hrun)
    exact hst
  | cons a as ih =>
    cases hstep : step s a with
    | none =>
      refine ⟨t, by rw [trace, hstep, accept_nil], fun rs s' hrun => ?_⟩
      rw [run, hstep] at hrun
      cases hrun
    | some p =>
      obtain ⟨r, s₁⟩ := p
      obtain ⟨t₁, ht₁, hcorr⟩ := h s t a r s₁ hst hstep
      obtain ⟨t', ht', hlast⟩ := ih hcorr
      refine ⟨t', ?_, fun rs s' hrun => ?_⟩
      · rw [trace_cons hstep, accept_append, ht₁, Option.bind_some, ht']
      · rw [run, hstep, Option.bind_some] at hrun
        obtain ⟨⟨rs', s₂⟩, hrun', he⟩ := Option.map_eq_some_iff.mp hrun
        obtain ⟨-, rfl⟩ := Prod.mk.inj he
        exact hlast rs' s₂ hrun'

/-- In corresponding states every action is answered, and the states go on to correspond. -/
def Answers (step : Step S A R) (view : S → A → R → List E) (acceptor : Acceptor T E)
    (I : S → T → Prop) : Prop :=
  ∀ s t a, I s t → ∃ r s' t', step s a = some (r, s') ∧
    accept acceptor t (view s a r) = some t' ∧ I s' t'

theorem Answers.simulates (h : Answers step view acceptor I) :
    Simulates step view acceptor I := by
  intro s t a r s' hst hstep
  obtain ⟨r₁, s₁, t₁, hstep₁, haccept, hcorr⟩ := h s t a hst
  rw [hstep] at hstep₁
  obtain ⟨rfl, rfl⟩ := Prod.mk.inj (Option.some.inj hstep₁)
  exact ⟨t₁, haccept, hcorr⟩

/-- A machine that answers in corresponding states runs to the end. -/
theorem Answers.exists_run (h : Answers step view acceptor I) {s : S} {t : T} (hst : I s t)
    (as : List A) : ∃ rs s' t', run step s as = some (rs, s') ∧
      accept acceptor t (trace step view s as) = some t' ∧ I s' t' := by
  have hrun : ∃ rs s', run step s as = some (rs, s') := by
    induction as generalizing s t with
    | nil => exact ⟨[], s, rfl⟩
    | cons a as ih =>
      obtain ⟨r, s₁, t₁, hstep, -, hcorr⟩ := h s t a hst
      obtain ⟨rs, s', hrest⟩ := ih hcorr
      exact ⟨r :: rs, s', run_cons hstep hrest⟩
  obtain ⟨rs, s', hrun⟩ := hrun
  obtain ⟨t', haccept, hlast⟩ := h.simulates.accept_trace hst as
  exact ⟨rs, s', t', hrun, haccept, hlast rs s' hrun⟩

end IotLabTraining.Traces
