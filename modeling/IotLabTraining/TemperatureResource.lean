import IotLabTraining.Runs

/-!
# The observable temperature

`res_periodic_handler` of `res-temperature.c`: a tick reads the sensor and notifies
the observers when the reading has changed and some ticks have passed, or when too
many have. The C standard leaves open what a comparison gives whose operands
overflow; the model takes any outcome there.
-/
namespace IotLabTraining.TemperatureResource
open Runs

def MAX_AGE : ℤ := 60
def INTERVAL_MIN : ℤ := 5
def INTERVAL_MAX : ℤ := MAX_AGE - 1
def CHANGE : ℤ := 1

def INT_MIN : ℤ := -2147483648
def INT_MAX : ℤ := 2147483647

def InInt (z : ℤ) : Prop := INT_MIN ≤ z ∧ z ≤ INT_MAX

instance (z : ℤ) : Decidable (InInt z) := inferInstanceAs (Decidable (_ ∧ _))

/-- The static variables; the counter stays far from the limits of its type. -/
structure State where
  intervalCounter : ℤ
  temperatureOld : Int32

def initial : State where
  intervalCounter := INTERVAL_MIN
  temperatureOld := Int32.minValue

/-- Neither `temperature - temperature_old` nor its absolute value overflows. -/
def NoOverflow (temperature temperatureOld : Int32) : Prop :=
  InInt (temperature.toInt - temperatureOld.toInt) ∧
    InInt |temperature.toInt - temperatureOld.toInt|

instance (temperature temperatureOld : Int32) : Decidable (NoOverflow temperature temperatureOld) :=
  inferInstanceAs (Decidable (_ ∧ _))

variable (undefined : Int32 → Int32 → Bool)

/-- `abs(temperature - temperature_old) >= CHANGE`. -/
def changed (temperature temperatureOld : Int32) : Bool :=
  if NoOverflow temperature temperatureOld then
    CHANGE ≤ |temperature.toInt - temperatureOld.toInt|
  else undefined temperature temperatureOld

/-- Whether a tick notifies. -/
def notifies (s : State) (temperature : Int32) : Bool :=
  (changed undefined temperature s.temperatureOld && INTERVAL_MIN ≤ s.intervalCounter + 1) ||
    INTERVAL_MAX ≤ s.intervalCounter + 1

/-- `res_periodic_handler`: the state behind a tick. -/
def resPeriodicHandler (s : State) (temperature : Int32) : State :=
  if notifies undefined s temperature then ⟨0, temperature⟩
  else { s with intervalCounter := s.intervalCounter + 1 }

/-- All that a tick can do. -/
theorem tick_cases (s : State) (temperature : Int32) :
    (notifies undefined s temperature = true ∧ INTERVAL_MIN ≤ s.intervalCounter + 1 ∧
      resPeriodicHandler undefined s temperature = ⟨0, temperature⟩) ∨
    (notifies undefined s temperature = false ∧ s.intervalCounter + 1 < INTERVAL_MAX ∧
      resPeriodicHandler undefined s temperature =
        { s with intervalCounter := s.intervalCounter + 1 }) := by
  have hle : INTERVAL_MIN ≤ INTERVAL_MAX := by decide
  cases h : notifies undefined s temperature with
  | true =>
    left
    refine ⟨rfl, ?_, if_pos h⟩
    simp only [notifies, Bool.or_eq_true, Bool.and_eq_true, decide_eq_true_eq] at h
    omega
  | false =>
    right
    refine ⟨rfl, ?_, if_neg (by simp [h])⟩
    simp only [notifies, Bool.or_eq_false_iff, decide_eq_false_iff_not] at h
    omega

/-! ## When observers are notified -/

variable (readings : ℕ → Int32)

/-- The state before the tick with number `t`; the first one has number 0. -/
abbrev before (t : ℕ) : State := stateAt (resPeriodicHandler undefined) initial readings t

def notifiedAt (t : ℕ) : Bool := notifies undefined (before undefined readings t) (readings t)

/-- Notifications keep their distances, and a value given out between two ticks is
refreshed within its max-age. -/
structure Timely : Prop where
  first : ∃ t < 54, notifiedAt undefined readings t = true
  spacing : ∀ i j, i < j → notifiedAt undefined readings i = true →
    notifiedAt undefined readings j = true →
    (∀ k, i < k → k < j → notifiedAt undefined readings k = false) →
    INTERVAL_MIN ≤ (j : ℤ) - i ∧ (j : ℤ) - i ≤ INTERVAL_MAX
  counter : ∀ t, 0 ≤ (before undefined readings t).intervalCounter ∧
    (before undefined readings t).intervalCounter < INTERVAL_MAX
  refreshed : ∀ t : ℕ, ∃ j : ℕ, t ≤ j ∧ (j : ℤ) + 1 - t < MAX_AGE ∧
    notifiedAt undefined readings j = true

/-- What a tick keeps of the counter. -/
theorem counter_step (s : State) (temperature : Int32)
    (h : 0 ≤ s.intervalCounter ∧ s.intervalCounter < INTERVAL_MAX) :
    0 ≤ (resPeriodicHandler undefined s temperature).intervalCounter ∧
      (resPeriodicHandler undefined s temperature).intervalCounter < INTERVAL_MAX := by
  rcases tick_cases undefined s temperature with ⟨-, -, hs⟩ | ⟨-, hlt, hs⟩
  · rw [hs]
    exact ⟨le_refl 0, show (0 : ℤ) < INTERVAL_MAX by decide⟩
  · rw [hs]
    exact ⟨Int.add_nonneg h.1 zero_le_one, hlt⟩

theorem counter_range (t : ℕ) : 0 ≤ (before undefined readings t).intervalCounter ∧
    (before undefined readings t).intervalCounter < INTERVAL_MAX :=
  stateAt_invariant
    (I := fun s : State => 0 ≤ s.intervalCounter ∧ s.intervalCounter < INTERVAL_MAX)
    (by decide) (counter_step undefined) readings t

theorem counter_notified {t : ℕ} (h : notifiedAt undefined readings t = true) :
    (before undefined readings (t + 1)).intervalCounter = 0 ∧
      INTERVAL_MIN ≤ (before undefined readings t).intervalCounter + 1 := by
  rcases tick_cases undefined (before undefined readings t) (readings t) with
    ⟨-, hmin, hs⟩ | ⟨hnot, -, -⟩
  · rw [before, stateAt_succ, hs]
    exact ⟨rfl, hmin⟩
  · exact absurd (hnot.symm.trans h) Bool.false_ne_true

/-- Ticks without a notification only count. -/
theorem counter_quiet {t n : ℕ}
    (h : ∀ k, t ≤ k → k < t + n → notifiedAt undefined readings k = false) :
    (before undefined readings (t + n)).intervalCounter =
      (before undefined readings t).intervalCounter + n := by
  induction n with
  | zero => simp
  | succ n ih =>
    have hinit := ih fun k hk hlt => h k hk (by omega)
    have hlast := h (t + n) (by omega) (by omega)
    rcases tick_cases undefined (before undefined readings (t + n)) (readings (t + n)) with
      ⟨hyes, -, -⟩ | ⟨-, -, hs⟩
    · exact absurd (hlast.symm.trans hyes) Bool.false_ne_true
    · rw [← Nat.add_assoc, before, stateAt_succ, hs]
      change (before undefined readings (t + n)).intervalCounter + 1 = _
      push_cast
      omega

/-- From a state on, a notification comes before the counter can reach its limit. -/
theorem exists_notified (t : ℕ) {n : ℕ}
    (h : INTERVAL_MAX ≤ (before undefined readings t).intervalCounter + n) :
    ∃ j, t ≤ j ∧ j < t + n ∧ notifiedAt undefined readings j = true := by
  by_contra hnone
  have hquiet : ∀ k, t ≤ k → k < t + n → notifiedAt undefined readings k = false := by
    intro k hk hlt
    by_contra hyes
    exact hnone ⟨k, hk, hlt, by simpa using hyes⟩
  have hcount := counter_quiet undefined readings hquiet
  have hlt := (counter_range undefined readings (t + n)).2
  omega

/-- Whatever the readings are, the observers of the temperature are notified in time. -/
theorem temperature_timely : Timely undefined readings where
  first := by
    have hstart : (before undefined readings 0).intervalCounter = INTERVAL_MIN := rfl
    have hlimit : INTERVAL_MAX ≤ INTERVAL_MIN + 54 := by decide
    obtain ⟨j, -, hlt, hj⟩ := exists_notified undefined readings 0 (n := 54) (by omega)
    exact ⟨j, by omega, hj⟩
  spacing := by
    intro i j hij hi hj hquiet
    obtain ⟨hzero, -⟩ := counter_notified undefined readings hi
    obtain ⟨-, hmin⟩ := counter_notified undefined readings hj
    have hcount := counter_quiet undefined readings (t := i + 1) (n := j - (i + 1))
      fun k hk hlt => hquiet k (by omega) (by omega)
    have hlt := (counter_range undefined readings j).2
    have hsum : i + 1 + (j - (i + 1)) = j := by omega
    rw [hsum, hzero] at hcount
    omega
  counter := counter_range undefined readings
  refreshed := by
    intro t
    have hmax : INTERVAL_MAX = 59 := rfl
    have hage : MAX_AGE = 60 := rfl
    have hnonneg := (counter_range undefined readings t).1
    obtain ⟨j, hle, hlt, hj⟩ := exists_notified undefined readings t (n := 59) (by omega)
    exact ⟨j, hle, by omega, hj⟩

/-! ## Changes that are noticed -/

/-- The statics beside what the observers have seen: the reading they were notified of
last, and the ticks since then. -/
structure Tracked where
  state : State
  lastNotified : Option Int32
  since : ℕ

def start : Tracked := ⟨initial, none, 0⟩

/-- A tick, answered with whether it notifies. -/
def tick (x : Tracked) (temperature : Int32) : Option (Bool × Tracked) :=
  let state := resPeriodicHandler undefined x.state temperature
  if notifies undefined x.state temperature then some (true, ⟨state, some temperature, 0⟩)
  else some (false, ⟨state, x.lastNotified, x.since + 1⟩)

/-- The reading is new to the observers, and it is time to notify them. -/
def Due (x : Tracked) (temperature : Int32) : Prop :=
  match x.lastNotified with
  | none => True
  | some v => INTERVAL_MIN ≤ (x.since : ℤ) + 1 ∧ temperature ≠ v

/-- A tick computes without overflow, and notifies of a due reading and records it. -/
structure Noticed (x : Tracked) (temperature : Int32) : Prop where
  inRange : NoOverflow temperature x.state.temperatureOld
  recorded : Due x temperature → notifies undefined x.state temperature = true ∧
    (resPeriodicHandler undefined x.state temperature).temperatureOld = temperature

/-- The readings whose differences fit: the first one lies below zero and above the
value that stands for no reading, a later one is at most `INT_MAX` away from the last one
notified. -/
def WithinReach (x : Tracked) (temperature : Int32) : Prop :=
  match x.lastNotified with
  | none => INT_MIN < temperature.toInt ∧ temperature.toInt < 0
  | some v => |temperature.toInt - v.toInt| ≤ INT_MAX

/-- The statics follow the notifications. -/
def Follows (x : Tracked) : Prop :=
  match x.lastNotified with
  | none => x.state = initial
  | some v => x.state = ⟨x.since, v⟩

theorem inInt_and_abs (z : ℤ) : InInt z ∧ InInt |z| ↔ |z| ≤ INT_MAX := by
  have hmin : INT_MIN = -2147483648 := rfl
  have hmax : INT_MAX = 2147483647 := rfl
  have hnonneg := abs_nonneg z
  have hle := le_abs_self z
  have hneg := neg_abs_le z
  simp only [InInt]
  omega

/-- A comparison that does not overflow sees every difference. -/
theorem changed_iff {temperature temperatureOld : Int32}
    (h : NoOverflow temperature temperatureOld) :
    changed undefined temperature temperatureOld = true ↔ temperature ≠ temperatureOld := by
  have hchange : CHANGE = 1 := rfl
  rw [changed, if_pos h, decide_eq_true_eq, hchange, Order.one_le_iff_pos, abs_pos,
    sub_ne_zero, ne_eq, ne_eq, Int32.toInt_inj]

theorem recorded_of_notifies {s : State} {temperature : Int32}
    (h : notifies undefined s temperature = true) :
    resPeriodicHandler undefined s temperature = ⟨0, temperature⟩ := if_pos h

/-- The first tick. -/
theorem noticed_first {x : Tracked} (hnone : x.lastNotified = none) (hx : x.state = initial)
    (temperature : Int32) :
    Noticed undefined x temperature ↔ INT_MIN < temperature.toInt ∧ temperature.toInt < 0 := by
  have hmin : INT_MIN = -2147483648 := rfl
  have hmax : INT_MAX = 2147483647 := rfl
  have hold : initial.temperatureOld.toInt = INT_MIN := rfl
  have hle : INT_MIN ≤ temperature.toInt := temperature.minValue_le_toInt
  constructor
  · intro h
    have hrange := h.inRange
    have hnotified := (h.recorded (by simp [Due, hnone])).1
    rw [hx] at hrange hnotified
    have hchanged : temperature ≠ initial.temperatureOld := by
      rw [← changed_iff undefined hrange]
      simpa [notifies, initial, INTERVAL_MIN, INTERVAL_MAX, MAX_AGE] using hnotified
    rw [ne_eq, ← Int32.toInt_inj, hold] at hchanged
    have hfits := (inInt_and_abs _).mp hrange
    rw [hold] at hfits
    have hself := le_abs_self (temperature.toInt - INT_MIN)
    omega
  · rintro ⟨hlow, hhigh⟩
    have hrange : NoOverflow temperature initial.temperatureOld := by
      rw [NoOverflow, inInt_and_abs, hold, abs_of_nonneg (by omega)]
      omega
    have hchanged : temperature ≠ initial.temperatureOld := by
      rw [ne_eq, ← Int32.toInt_inj, hold]
      omega
    have hnotified : notifies undefined initial temperature = true := by
      rw [notifies, (changed_iff undefined hrange).mpr hchanged]
      rfl
    refine ⟨hx ▸ hrange, fun _ => ?_⟩
    rw [hx, recorded_of_notifies undefined hnotified]
    exact ⟨hnotified, rfl⟩

/-- A tick behind a notification. -/
theorem noticed_later {x : Tracked} {v : Int32} (hsome : x.lastNotified = some v)
    (hx : x.state = ⟨x.since, v⟩) (temperature : Int32) :
    Noticed undefined x temperature ↔ |temperature.toInt - v.toInt| ≤ INT_MAX := by
  have hrange : NoOverflow temperature x.state.temperatureOld ↔
      |temperature.toInt - v.toInt| ≤ INT_MAX := by
    rw [hx]
    exact inInt_and_abs _
  rw [← hrange]
  refine ⟨Noticed.inRange, fun h => ⟨h, fun hdue => ?_⟩⟩
  simp only [Due, hsome] at hdue
  rw [hx] at h ⊢
  have hnotified : notifies undefined ⟨x.since, v⟩ temperature = true := by
    rw [notifies, (changed_iff undefined h).mpr hdue.2]
    simp [hdue.1]
  rw [recorded_of_notifies undefined hnotified]
  exact ⟨hnotified, rfl⟩

theorem noticed_iff {x : Tracked} (hx : Follows x) (temperature : Int32) :
    Noticed undefined x temperature ↔ WithinReach x temperature := by
  unfold Follows at hx
  unfold WithinReach
  cases hlast : x.lastNotified with
  | none =>
    rw [hlast] at hx
    exact noticed_first undefined hlast hx temperature
  | some v =>
    rw [hlast] at hx
    exact noticed_later undefined hlast hx temperature

/-- A tick that is noticed keeps the statics in step with the notifications. -/
theorem follows_tick {x x' : Tracked} {temperature : Int32} {notified : Bool} (hx : Follows x)
    (hreach : WithinReach x temperature) (h : tick undefined x temperature = some (notified, x')) :
    Follows x' := by
  cases hn : notifies undefined x.state temperature with
  | true =>
    rw [tick, if_pos hn, recorded_of_notifies undefined hn] at h
    obtain ⟨-, rfl⟩ := Prod.mk.inj (Option.some.inj h)
    rfl
  | false =>
    rw [tick, if_neg (by simp [hn])] at h
    obtain ⟨-, rfl⟩ := Prod.mk.inj (Option.some.inj h)
    cases hlast : x.lastNotified with
    | none =>
      -- nothing was notified yet, so the tick is due
      have hdue := (((noticed_iff undefined hx temperature).mpr hreach).recorded
        (by simp [Due, hlast])).1
      exact absurd (hn.symm.trans hdue) Bool.false_ne_true
    | some v =>
      simp only [Follows, hlast] at hx ⊢
      rw [resPeriodicHandler, if_neg (by simp [hn]), hx]
      simp

/-- Every change is noticed exactly in the runs whose readings keep within reach. -/
theorem changes_noticed_iff (readings : List Int32) :
    Along (tick undefined) (Noticed undefined) start readings ↔
      Along (tick undefined) WithinReach start readings :=
  along_congr (I := Follows) (fun _ temperature hx => noticed_iff undefined hx temperature)
    (fun _ _ _ _ hx hreach h => follows_tick undefined hx hreach h)
    (show Follows start from rfl) readings

/-- Zero degrees as the first reading: the difference to `INT_MIN` does not fit. -/
theorem first_reading_zero_overflows :
    ¬ ∀ (undefined : Int32 → Int32 → Bool) (readings : List Int32),
      Along (tick undefined) (Noticed undefined) start readings := by
  intro h
  have hrange := (h (fun _ _ => false) [0]).1.inRange
  exact absurd hrange (by decide)

end IotLabTraining.TemperatureResource
