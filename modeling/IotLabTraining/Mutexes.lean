import Mathlib

/-!
# Mutexes

A mutex is free or locked. A thread that locks a free one is inside; one that locks a
locked one waits for it. Unlocking hands the mutex to a thread that waits, or leaves it
free. As long as only the thread inside unlocks, there is never more than one inside, and
a thread waits only for another one.

The definitions stand for `mutex_lock` and `mutex_unlock` of RIOT, as `core/mutex.h` documents
them.
-/
namespace IotLabTraining.Mutexes
variable {ι : Type*}

/-- Where a thread stands between the calls for one mutex. -/
inductive Phase where
  | outside
  | waiting
  | inside
  deriving DecidableEq

structure Mutex (ι : Type*) where
  locked : Bool
  phase : ι → Phase

/-- `MUTEX_INIT`: nobody holds the mutex. -/
def free : Mutex ι := ⟨false, fun _ => .outside⟩

namespace Mutex

/-- Whoever is inside is the only one, and the mutex is locked exactly then; others wait
only then. -/
structure Exclusive (m : Mutex ι) : Prop where
  locked_iff : m.locked = true ↔ ∃ i, m.phase i = .inside
  unique : ∀ i j, m.phase i = .inside → m.phase j = .inside → i = j
  locked_of_waiting : ∀ i, m.phase i = .waiting → m.locked = true

theorem exclusive_free : Exclusive (free : Mutex ι) where
  locked_iff := by simp [free]
  unique _ _ h := by cases h
  locked_of_waiting _ h := by cases h

/-- A thread waits for another one, which is inside. -/
theorem Exclusive.exists_inside {m : Mutex ι} (h : Exclusive m) {i : ι}
    (hi : m.phase i = .waiting) : ∃ j, j ≠ i ∧ m.phase j = .inside := by
  obtain ⟨j, hj⟩ := h.locked_iff.mp (h.locked_of_waiting i hi)
  refine ⟨j, ?_, hj⟩
  intro he
  rw [he, hi] at hj
  cases hj

variable [DecidableEq ι]

/-- `mutex_lock`: `i` gets a free mutex, and otherwise blocks until it is handed to it. -/
def lock (m : Mutex ι) (i : ι) : Mutex ι :=
  if m.locked then { m with phase := Function.update m.phase i .waiting }
  else ⟨true, Function.update m.phase i .inside⟩

/-- `mutex_unlock` by `i`: the mutex is handed to `next`, a thread that waits, and is free
without one. -/
def unlock (m : Mutex ι) (i : ι) (next : Option ι) : Mutex ι :=
  let left := Function.update m.phase i .outside
  match next with
  | none => ⟨false, left⟩
  | some j => ⟨true, Function.update left j .inside⟩

variable {m : Mutex ι} {i : ι}

theorem lock_phase_of_ne {j : ι} (h : j ≠ i) : (m.lock i).phase j = m.phase j := by
  unfold lock
  split_ifs
  · exact Function.update_of_ne h _ _
  · exact Function.update_of_ne h _ _

theorem unlock_phase_of_ne {j : ι} (hj : j ≠ i) {next : Option ι} (hnext : next ≠ some j) :
    (m.unlock i next).phase j = m.phase j := by
  cases next with
  | none => exact Function.update_of_ne hj _ _
  | some n =>
    have hn : j ≠ n := fun he => hnext (he ▸ rfl)
    simp only [unlock, Function.update_of_ne hn, Function.update_of_ne hj]

theorem unlock_phase_self {next : Option ι} (hnext : next ≠ some i) :
    (m.unlock i next).phase i = .outside := by
  cases next with
  | none => exact Function.update_self _ _ _
  | some n =>
    have hn : i ≠ n := fun he => hnext (he ▸ rfl)
    simp only [unlock, Function.update_of_ne hn, Function.update_self]

theorem unlock_phase_next (m : Mutex ι) (i j : ι) : (m.unlock i (some j)).phase j = .inside :=
  Function.update_self _ _ _

/-- A thread that is outside locks the mutex. -/
theorem Exclusive.lock (h : Exclusive m) (hi : m.phase i = .outside) : Exclusive (m.lock i) := by
  unfold Mutex.lock
  cases hlocked : m.locked with
  | true =>
    have hphase (j : ι) : Function.update m.phase i .waiting j = .inside ↔ m.phase j = .inside := by
      by_cases hj : j = i
      · subst hj
        simp [hi]
      · rw [Function.update_of_ne hj]
    simp only [if_true]
    obtain ⟨j, hj⟩ := h.locked_iff.mp hlocked
    exact ⟨iff_of_true rfl ⟨j, (hphase j).mpr hj⟩,
      fun k l hk hl => h.unique k l ((hphase k).mp hk) ((hphase l).mp hl), fun _ _ => rfl⟩
  | false =>
    have hnone (j : ι) : m.phase j ≠ .inside := by
      intro hj
      have hyes := h.locked_iff.mpr ⟨j, hj⟩
      rw [hlocked] at hyes
      cases hyes
    have hphase (j : ι) : Function.update m.phase i .inside j = .inside ↔ j = i := by
      by_cases hj : j = i
      · simp [hj]
      · rw [Function.update_of_ne hj]
        exact iff_of_false (hnone j) hj
    simp only [Bool.false_eq_true, if_false]
    refine ⟨iff_of_true rfl ⟨i, Function.update_self _ _ _⟩, fun j k hj hk => ?_, fun _ _ => rfl⟩
    rw [(hphase j).mp hj, (hphase k).mp hk]

/-- The thread inside unlocks it, for one that waits or, when there is none, for nobody. -/
theorem Exclusive.unlock (h : Exclusive m) (hi : m.phase i = .inside) {next : Option ι}
    (hnext : next = none → ∀ j, m.phase j ≠ .waiting) : Exclusive (m.unlock i next) := by
  have hleft (j : ι) : Function.update m.phase i .outside j ≠ .inside := by
    by_cases hj : j = i
    · simp [hj]
    · rw [Function.update_of_ne hj]
      exact fun hin => hj (h.unique j i hin hi)
  cases next with
  | none =>
    refine ⟨by simp [Mutex.unlock, hleft], fun j _ hj => absurd hj (hleft j), fun j hj => ?_⟩
    have hne : j ≠ i := by
      rintro rfl
      rw [unlock_phase_self (Option.some_ne_none _).symm] at hj
      cases hj
    rw [unlock_phase_of_ne hne (Option.some_ne_none _).symm] at hj
    exact absurd hj (hnext rfl j)
  | some n =>
    have hphase (j : ι) : (m.unlock i (some n)).phase j = .inside ↔ j = n := by
      simp only [Mutex.unlock]
      by_cases hj : j = n
      · simp [hj]
      · rw [Function.update_of_ne hj]
        exact iff_of_false (hleft j) hj
    refine ⟨iff_of_true rfl ⟨n, (hphase n).mpr rfl⟩, fun j k hj hk => ?_, fun _ _ => rfl⟩
    rw [(hphase j).mp hj, (hphase k).mp hk]

end Mutex
end IotLabTraining.Mutexes
