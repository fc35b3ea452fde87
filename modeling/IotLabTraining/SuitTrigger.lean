import IotLabTraining.Text

/-!
# The SUIT trigger

`_trigger_handler` of `coap_handler.c` checks the payload length and then passes on
what `strlen` finds. A request is the memory from its payload on: the payload and
what the receive buffer still holds behind it. `CONFIG_SOCK_URLPATH_MAXLEN` is a
parameter.
-/
namespace IotLabTraining.SuitTrigger

inductive Code where
  /-- 2.01 -/
  | created
  /-- 4.08 -/
  | requestEntityIncomplete
  /-- 4.13 -/
  | requestEntityTooLarge
  deriving DecidableEq

/-- The reply, what is logged, and the bytes and the length that `suit_worker_trigger` is
called with. -/
structure Outcome where
  code : Code
  log : Bytes := []
  triggered : Option (Bytes × ℕ) := none

variable (CONFIG_SOCK_URLPATH_MAXLEN : ℕ)

/-- `_trigger_handler`; there is no outcome where it reads on behind the buffer. -/
def triggerHandler (payload residual : Bytes) : Option Outcome :=
  if payload.length ≠ 0 then
    if payload.length ≥ CONFIG_SOCK_URLPATH_MAXLEN then some { code := .requestEntityTooLarge }
    else
      let url := payload ++ residual
      (strlen url).map fun len =>
        { code := .created
          log := ascii "suit: received URL: \"" ++ cString url ++ ascii "\"\n"
          triggered := some (url.take len, len) }
  else some { code := .requestEntityIncomplete }

/-- The worker is triggered for a payload of the right length only, and then with the
payload and nothing else. -/
structure UsesPayload (payload : Bytes) (o : Outcome) : Prop where
  called : o.triggered.isSome = true ↔
    0 < payload.length ∧ payload.length < CONFIG_SOCK_URLPATH_MAXLEN
  exact : ∀ url len, o.triggered = some (url, len) →
    url = payload ∧ len = payload.length ∧ len < CONFIG_SOCK_URLPATH_MAXLEN
  tooLarge : 0 < payload.length → CONFIG_SOCK_URLPATH_MAXLEN ≤ payload.length →
    o.code = .requestEntityTooLarge
  incomplete : payload.length = 0 → o.code = .requestEntityIncomplete

variable {CONFIG_SOCK_URLPATH_MAXLEN}

/-- A payload of a wrong length triggers nothing. -/
theorem usesPayload_of_length {payload : Bytes} (residual : Bytes)
    (h : payload.length = 0 ∨ CONFIG_SOCK_URLPATH_MAXLEN ≤ payload.length) :
    ∃ o, triggerHandler CONFIG_SOCK_URLPATH_MAXLEN payload residual = some o ∧
      UsesPayload CONFIG_SOCK_URLPATH_MAXLEN payload o := by
  by_cases hzero : payload.length = 0
  · refine ⟨⟨.requestEntityIncomplete, [], none⟩, by simp [triggerHandler, hzero], ?_⟩
    exact ⟨by simp [hzero], fun _ _ ht => (nomatch ht), by omega, fun _ => rfl⟩
  · refine ⟨⟨.requestEntityTooLarge, [], none⟩, ?_, ?_⟩
    · rw [triggerHandler, if_pos hzero, if_pos (h.resolve_left hzero)]
    · refine ⟨?_, fun _ _ ht => (nomatch ht), fun _ _ => rfl, fun hz => absurd hz hzero⟩
      simp only [Option.isSome_none, Bool.false_eq_true, false_iff]
      omega

/-- A payload of the right length is used as it is exactly when the scan ends behind it. -/
theorem usesPayload_iff_strlen {payload : Bytes} (residual : Bytes) (hpos : payload.length ≠ 0)
    (hlt : payload.length < CONFIG_SOCK_URLPATH_MAXLEN) :
    (∃ o, triggerHandler CONFIG_SOCK_URLPATH_MAXLEN payload residual = some o ∧
      UsesPayload CONFIG_SOCK_URLPATH_MAXLEN payload o) ↔
        strlen (payload ++ residual) = some payload.length := by
  rw [triggerHandler, if_pos hpos, if_neg (by omega)]
  constructor
  · rintro ⟨o, ho, h⟩
    obtain ⟨len, hlen, rfl⟩ := Option.map_eq_some_iff.mp ho
    rw [hlen, (h.exact _ _ rfl).2.1]
  · intro hlen
    refine ⟨_, Option.map_eq_some_iff.mpr ⟨_, hlen, rfl⟩, ?_, ?_, by omega, by omega⟩
    · simp only [Option.isSome_some, true_iff]
      omega
    · intro url len ht
      obtain ⟨rfl, rfl⟩ := Prod.mk.inj (Option.some.inj ht)
      exact ⟨List.take_left, rfl, hlt⟩

/-- The trigger uses the payload and only the payload exactly when the payload triggers
nothing, or has no NUL and is followed by one in the buffer. -/
theorem trigger_usesPayload_iff (CONFIG_SOCK_URLPATH_MAXLEN : ℕ) (payload residual : Bytes) :
    (∃ o, triggerHandler CONFIG_SOCK_URLPATH_MAXLEN payload residual = some o ∧
      UsesPayload CONFIG_SOCK_URLPATH_MAXLEN payload o) ↔
        payload.length = 0 ∨ CONFIG_SOCK_URLPATH_MAXLEN ≤ payload.length ∨
          (0 ∉ payload ∧ residual.head? = some 0) := by
  rw [← strlen_append_iff]
  by_cases h : payload.length = 0 ∨ CONFIG_SOCK_URLPATH_MAXLEN ≤ payload.length
  · exact ⟨fun _ => h.elim Or.inl fun hle => Or.inr (Or.inl hle),
      fun _ => usesPayload_of_length residual h⟩
  · rw [usesPayload_iff_strlen residual (by omega) (by omega)]
    constructor
    · exact fun hlen => Or.inr (Or.inr hlen)
    · rintro (hzero | hle | hlen)
      · exact absurd (Or.inl hzero) h
      · exact absurd (Or.inr hle) h
      · exact hlen

/-- What a longer request has left behind becomes part of the URL. -/
theorem leftover_triggered :
    ¬ ∀ payload residual, ∃ o, triggerHandler 64 payload residual = some o ∧
      UsesPayload 64 payload o := by
  intro h
  obtain ⟨o, ho, huses⟩ := h (ascii "coap://[fd00::1]/a") [98, 0]
  obtain ⟨rfl⟩ := Option.some.inj ho
  exact absurd (huses.exact _ _ rfl).2.1 (by decide)

end IotLabTraining.SuitTrigger
