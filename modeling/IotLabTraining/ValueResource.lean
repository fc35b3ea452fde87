import IotLabTraining.GcoapClient

/-!
# The value resource

`_value_handler` with the body of the notebook: a GET prints `_value`, and a PUT or a POST
stores what `strtoul` makes of up to five bytes of payload. A register of 16 bits would
take the decimal texts of the numbers from 0 to 65535 and nothing else.
-/
namespace IotLabTraining.ValueResource
open Runs GcoapClient

inductive Code where
  /-- 2.04 -/
  | changed
  /-- 2.05 -/
  | content
  /-- 4.00 -/
  | badRequest
  deriving DecidableEq

inductive Method where
  | get
  | put
  | post
  deriving DecidableEq

structure Response where
  code : Code
  format : Option ℕ
  payload : Bytes
  deriving DecidableEq

structure Request where
  method : Method
  payload : Bytes

/-- `strtoul` for base 10, where `unsigned long` has 32 bits and some more: too large a
numeral gives the maximum, and a minus sign is applied to the unsigned value. -/
def strtoul (more : ℕ) (s : Bytes) : ℕ :=
  if (atoi s).natAbs < 2 ^ (32 + more) then (atoi s % 2 ^ (32 + more)).toNat
  else 2 ^ (32 + more) - 1

variable (more : ℕ)

/-- PUT and POST; the payload is copied in front of zeros. -/
def update (value : UInt16) (payload : Bytes) : Response × UInt16 :=
  if payload.length ≤ 5 then
    (⟨.changed, none, []⟩, (strtoul more (cString payload)).toUInt16)
  else (⟨.badRequest, none, []⟩, value)

/-- `_value_handler`. -/
def valueHandler (value : UInt16) (r : Request) : Response × UInt16 :=
  match r.method with
  | .get => (⟨.content, some COAP_FORMAT_TEXT, decimal value.toNat⟩, value)
  | .put => update more value r.payload
  | .post => update more value r.payload

/-! ## The register -/

/-- The number from 0 to 65535 that a text is the numeral of. -/
def number (text : Bytes) : Option ℕ := (readDigits text).filter fun n => n < 65536

/-- `_value`, and the text that was accepted last. -/
structure Tracked where
  value : UInt16
  accepted : Bytes

def start : Tracked := ⟨0, decimal 0⟩

def step : Step Tracked Request Response := fun x r =>
  let res := valueHandler more x.value r
  some (res.1, ⟨res.2, if res.1.code = .changed then r.payload else x.accepted⟩)

/-- What is accepted is stored, what is refused changes nothing, and a GET gives the number
accepted last, as it was written if that was its canonical numeral. -/
structure Registers (x : Tracked) (r : Request) : Prop where
  accepts : r.method ≠ .get →
    ((valueHandler more x.value r).1.code = .changed ↔ (number r.payload).isSome = true)
  stores : r.method ≠ .get → ∀ n, number r.payload = some n →
    (valueHandler more x.value r).2.toNat = n
  refuses : r.method ≠ .get → number r.payload = none →
    valueHandler more x.value r = (⟨.badRequest, none, []⟩, x.value)
  reads : r.method = .get → (valueHandler more x.value r).1.code = .content ∧
    ∀ n, number x.accepted = some n → (valueHandler more x.value r).1.payload = decimal n
  canonical : r.method = .get → ∀ n, x.accepted = decimal n →
    (valueHandler more x.value r).1.payload = x.accepted

/-- The payload is the numeral of a number from 0 to 65535 exactly when it has at most five
bytes. -/
def FitsLength (_ : Tracked) (r : Request) : Prop :=
  r.method ≠ .get → ((number r.payload).isSome = true ↔ r.payload.length ≤ 5)

/-- The text accepted last is the numeral of the value. -/
def Holds (x : Tracked) : Prop := number x.accepted = some x.value.toNat

theorem holds_start : Holds start :=
  show number (decimal 0) = some 0 by decide

theorem number_eq_some_iff {text : Bytes} {n : ℕ} :
    number text = some n ↔ readDigits text = some n ∧ n < 65536 := by
  rw [number, Option.filter_eq_some_iff, decide_eq_true_eq]

/-- The conversion of a numeral that was accepted. -/
theorem strtoul_of_number {text : Bytes} {n : ℕ} (h : number text = some n) :
    (strtoul more (cString text)).toUInt16.toNat = n := by
  obtain ⟨hread, hn⟩ := number_eq_some_iff.mp h
  have hnul : 0 ∉ text := by
    unfold readDigits at hread
    split_ifs at hread with hdigits
    exact fun hzero => absurd (hdigits.2 0 hzero) (by decide)
  have hpow : 65536 ≤ 2 ^ (32 + more) := by
    have hle : 2 ^ 32 ≤ 2 ^ (32 + more) := Nat.pow_le_pow_right (by decide) (by omega)
    omega
  have hlt : n < 2 ^ (32 + more) := by omega
  have hmod : (n : ℤ) % 2 ^ (32 + more) = n := by
    exact_mod_cast Nat.mod_eq_of_lt hlt
  rw [cString_of_nul_free hnul, strtoul, atoi_of_readDigits hread, Int.natAbs_natCast, if_pos hlt,
    hmod, Int.toNat_natCast]
  exact Nat.mod_eq_of_lt hn

theorem valueHandler_update (x : Tracked) {r : Request} (h : r.method ≠ .get) :
    valueHandler more x.value r = update more x.value r.payload := by
  unfold valueHandler
  cases hm : r.method with
  | get => exact absurd hm h
  | put => rfl
  | post => rfl

theorem valueHandler_get (x : Tracked) {r : Request} (h : r.method = .get) :
    valueHandler more x.value r =
      (⟨.content, some COAP_FORMAT_TEXT, decimal x.value.toNat⟩, x.value) := by
  rw [valueHandler, h]

theorem update_changed_iff (value : UInt16) (payload : Bytes) :
    (update more value payload).1.code = .changed ↔ payload.length ≤ 5 := by
  unfold update
  split_ifs with hlen
  · exact iff_of_true rfl hlen
  · exact iff_of_false (by decide) hlen

theorem registers_iff {x : Tracked} (hx : Holds x) (r : Request) :
    Registers more x r ↔ FitsLength x r := by
  constructor
  · intro h hmethod
    have haccepts := h.accepts hmethod
    rw [valueHandler_update more x hmethod, update_changed_iff] at haccepts
    exact haccepts.symm
  · intro h
    refine ⟨?_, ?_, ?_, ?_, ?_⟩
    · intro hmethod
      rw [h hmethod, valueHandler_update more x hmethod, update_changed_iff]
    · intro hmethod n hn
      have hlen := (h hmethod).mp (by rw [hn]; rfl)
      rw [valueHandler_update more x hmethod, update, if_pos hlen]
      exact strtoul_of_number more hn
    · intro hmethod hnone
      have hlen : ¬ r.payload.length ≤ 5 := by
        rw [← h hmethod, hnone]
        exact Bool.false_ne_true
      rw [valueHandler_update more x hmethod, update, if_neg hlen]
    · intro hmethod
      rw [valueHandler_get more x hmethod]
      refine ⟨rfl, fun n hn => ?_⟩
      rw [Option.some.inj (hx.symm.trans hn)]
    · intro hmethod n hn
      have hread := (number_eq_some_iff.mp hx).1
      rw [hn, readDigits_decimal] at hread
      rw [valueHandler_get more x hmethod, hn, Option.some.inj hread]

/-- The value follows the texts that fit. -/
theorem holds_step {x x' : Tracked} {r : Request} {res : Response} (hx : Holds x)
    (hfits : FitsLength x r) (h : step more x r = some (res, x')) : Holds x' := by
  obtain ⟨-, rfl⟩ := Prod.mk.inj (Option.some.inj h)
  by_cases hmethod : r.method = .get
  · rw [valueHandler_get more x hmethod]
    exact hx
  · rw [valueHandler_update more x hmethod]
    by_cases hlen : r.payload.length ≤ 5
    · obtain ⟨n, hn⟩ := Option.isSome_iff_exists.mp ((hfits hmethod).mpr hlen)
      rw [Holds, if_pos ((update_changed_iff more _ _).mpr hlen), update, if_pos hlen]
      dsimp only
      rw [strtoul_of_number more hn, hn]
    · rw [Holds, if_neg (by rwa [update_changed_iff]), update, if_neg hlen]
      exact hx

/-- The resource is a register exactly in the runs where the numerals of the numbers from 0 to
65535 are the payloads of at most five bytes. -/
theorem value_registers_iff (more : ℕ) (requests : List Request) :
    Along (step more) (Registers more) start requests ↔
      Along (step more) FitsLength start requests :=
  along_congr (fun _ r hx => registers_iff more hx r)
    (fun _ _ _ _ hx hfits h => holds_step more hx hfits h) holds_start requests

/-- 70000 is accepted, and stored as 4464. -/
theorem put_70000_accepted :
    ¬ ∀ (more : ℕ) (requests : List Request),
      Along (step more) (Registers more) start requests := by
  intro h
  have hfirst := (h 0 [⟨.put, ascii "70000"⟩]).1
  have hfits := (registers_iff 0 holds_start _).mp hfirst (by decide)
  exact absurd (hfits.mpr (by decide)) (by decide)

end IotLabTraining.ValueResource
