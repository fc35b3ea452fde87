import IotLabTraining.TemperatureObject

/-!
# The temperature reader thread

The client as the notebook completes it: after `lwm2m start` the command looks
up instance 0 once and creates a thread, which takes the instance id for its URI
and then stores a reading through the handle and notifies the observers, over and
over. Requests of the server are interleaved with these steps in any order.
-/
namespace IotLabTraining.TemperatureReader
open Runs TemperatureObject

variable {L V : Type*}

/-- What the command and its thread do next. -/
inductive Pc where
  | lookup
  | resetUri
  | store
  | notify
  deriving DecidableEq

structure Client (L V : Type*) where
  object : ObjectState L V
  tempInstance : Option Ptr
  uriInstanceId : UInt16
  pc : Pc

/-- A request of the server, or the next step of the client with the reading
that `lpsxxx_read_temp` would give. -/
inductive Event (V : Type*) where
  | request (r : Request V)
  | reader (temp : Int16)

/-- What can be seen of an event: the reply, the node that a store goes to
(`none` is NULL), or the instance of a notified URI. -/
inductive Effect (V : Type*) where
  | reply (r : Reply V)
  | started
  | stored (node : Option Ptr) (v : V)
  | notified (instanceId : UInt16)

/-- `->sensor_value = v`. -/
def storeValue (o : ObjectState L V) (p : Ptr) (v : V) : ObjectState L V :=
  { o with heap := Function.update o.heap p { o.heap p with sensorValue := v } }

/-- The list, the value `temp / 100.0` of a reading, and what a read through
NULL gives. -/
structure Platform (L V : Type*) where
  lib : Lwm2mList L
  centi : Int16 → V
  nullShortID : UInt16

variable (pf : Platform L V)

def clientStep : Step (Client L V) (Event V) (Effect V) := fun c e =>
  match e with
  | .request r => (server pf.lib c.object r).map fun p => (.reply p.1, { c with object := p.2 })
  | .reader temp =>
    match c.pc with
    | .lookup =>
      some (.started, { c with
        tempInstance := pf.lib.find c.object.instanceList 0
        pc := .resetUri })
    | .resetUri =>
      some (.started, { c with
        uriInstanceId := c.tempInstance.elim pf.nullShortID fun p => (c.object.heap p).shortID
        pc := .store })
    | .store =>
      let v := pf.centi temp
      some (.stored c.tempInstance v, { c with
        object := c.tempInstance.elim c.object fun p => storeValue c.object p v
        pc := .notify })
    | .notify => some (.notified c.uriInstanceId, { c with pc := .store })

/-- The client when `lwm2m start` has connected; `p` is the node of instance 0. -/
def started [Zero V] (p : Ptr) : Client L V where
  object := getTemperatureObject pf.lib p
  tempInstance := none
  uriInstanceId := 0
  pc := .lookup

/-! ## Safety of the handle -/

/-- A client with the value of the last store and whether a Delete of instance 0
was requested. -/
structure Tracked (L V : Type*) where
  client : Client L V
  lastStored : V
  deleted : Bool

def Event.deletesInstance : Event V → Bool
  | .request (.delete i) => i = 0
  | _ => false

def lastStored (v : V) : Effect V → V
  | .stored _ v' => v'
  | _ => v

def trackedStep : Step (Tracked L V) (Event V) (Effect V) := fun t e =>
  (clientStep pf t.client e).map fun p =>
    (p.1, ⟨p.2, lastStored t.lastStored p.1, t.deleted || e.deletesInstance⟩)

/-- The values that a Read gives back are the one stored last. -/
def ReadsLast (t : Tracked L V) (r : Reply V) : Prop :=
  ∀ l, r.resources = some l → ∀ d ∈ l, d.id = LWM2M_TEMP_RES_SENSOR_VALUE →
    d.value = .float t.lastStored

/-- Stores go to a node of the list, a notified instance is one that a Read
finds, and a Read gives back what was stored last. -/
def SafeEffect (t : Tracked L V) (e : Event V) : Effect V → Prop
  | .reply r => ∀ i data, e = .request (.read i data) → ReadsLast t r
  | .started => True
  | .stored node _ => ∃ i p, node = some p ∧ pf.lib.find t.client.object.instanceList i = some p
  | .notified i => (read pf.lib true t.client.object i []).code = .content205

def SafeAt (t : Tracked L V) (e : Event V) : Prop :=
  ∀ eff t', trackedStep pf t e = some (eff, t') → SafeEffect pf t e eff

/-- No store and no notification comes after a Delete of instance 0. -/
def AliveAt (t : Tracked L V) (e : Event V) : Prop :=
  ∀ temp, e = .reader temp → (t.client.pc = .store ∨ t.client.pc = .notify) → t.deleted = false

/-- The handle names the node `p` that the list has for instance 0 until it is
deleted; NULL is only found after a Delete. -/
structure Invariant (p : Ptr) (t : Tracked L V) : Prop where
  find_eq : ∀ i, pf.lib.find t.client.object.instanceList i =
    if i = 0 ∧ t.deleted = false then some p else none
  shortID_eq : (t.client.object.heap p).shortID = 0
  value_eq : t.deleted = false → (t.client.object.heap p).sensorValue = t.lastStored
  handle : t.client.pc ≠ .lookup → t.deleted = false → t.client.tempInstance = some p
  uri : (t.client.pc = .store ∨ t.client.pc = .notify) → t.deleted = false →
    t.client.uriInstanceId = 0

variable {pf}

/-- The kinds of step, with all that they change. -/
theorem trackedStep_cases {t t' : Tracked L V} {e : Event V} {eff : Effect V}
    (h : trackedStep pf t e = some (eff, t')) :
    (∃ r reply o, e = .request r ∧ server pf.lib t.client.object r = some (reply, o) ∧
      eff = .reply reply ∧
      t' = { t with client := { t.client with object := o }
                    deleted := t.deleted || e.deletesInstance }) ∨
    (∃ temp, e = .reader temp ∧ t.client.pc = .lookup ∧ eff = .started ∧
      t' = { t with client := { t.client with
        tempInstance := pf.lib.find t.client.object.instanceList 0
        pc := .resetUri } }) ∨
    (∃ temp, e = .reader temp ∧ t.client.pc = .resetUri ∧ eff = .started ∧
      t' = { t with client := { t.client with
        uriInstanceId := t.client.tempInstance.elim pf.nullShortID
          fun p => (t.client.object.heap p).shortID
        pc := .store } }) ∨
    (∃ temp, e = .reader temp ∧ t.client.pc = .store ∧
      eff = .stored t.client.tempInstance (pf.centi temp) ∧
      t' = { t with
        client := { t.client with
          object := t.client.tempInstance.elim t.client.object
            fun p => storeValue t.client.object p (pf.centi temp)
          pc := .notify }
        lastStored := pf.centi temp }) ∨
    (∃ temp, e = .reader temp ∧ t.client.pc = .notify ∧
      eff = .notified t.client.uriInstanceId ∧
      t' = { t with client := { t.client with pc := .store } }) := by
  obtain ⟨⟨eff', c⟩, hstep, he⟩ := Option.map_eq_some_iff.mp h
  obtain ⟨rfl, rfl⟩ := Prod.mk.inj he
  cases e with
  | request r =>
    obtain ⟨⟨reply, o⟩, hserver, hc⟩ := Option.map_eq_some_iff.mp hstep
    obtain ⟨rfl, rfl⟩ := Prod.mk.inj hc
    exact Or.inl ⟨r, reply, o, rfl, hserver, rfl, rfl⟩
  | reader temp =>
    unfold clientStep at hstep
    dsimp only at hstep
    have hdel : (t.deleted || (Event.reader temp : Event V).deletesInstance) = t.deleted :=
      Bool.or_false _
    cases hpc : t.client.pc with
    | lookup =>
      rw [hpc] at hstep
      obtain ⟨rfl, rfl⟩ := Prod.mk.inj (Option.some.inj hstep)
      exact Or.inr (Or.inl ⟨temp, rfl, rfl, rfl, by rw [hdel]; rfl⟩)
    | resetUri =>
      rw [hpc] at hstep
      obtain ⟨rfl, rfl⟩ := Prod.mk.inj (Option.some.inj hstep)
      exact Or.inr (Or.inr (Or.inl ⟨temp, rfl, rfl, rfl, by rw [hdel]; rfl⟩))
    | store =>
      rw [hpc] at hstep
      obtain ⟨rfl, rfl⟩ := Prod.mk.inj (Option.some.inj hstep)
      exact Or.inr (Or.inr (Or.inr (Or.inl ⟨temp, rfl, rfl, rfl, by rw [hdel]; rfl⟩)))
    | notify =>
      rw [hpc] at hstep
      obtain ⟨rfl, rfl⟩ := Prod.mk.inj (Option.some.inj hstep)
      exact Or.inr (Or.inr (Or.inr (Or.inr ⟨temp, rfl, rfl, rfl, by rw [hdel]; rfl⟩)))

theorem storeValue_shortID (o : ObjectState L V) (p q : Ptr) (v : V) :
    ((storeValue o p v).heap q).shortID = (o.heap q).shortID := by
  unfold storeValue
  dsimp only
  rw [Function.update_apply]
  split_ifs with hq
  · rw [hq]
  · rfl

theorem storeValue_sensorValue (o : ObjectState L V) (p : Ptr) (v : V) :
    ((storeValue o p v).heap p).sensorValue = v := by
  simp [storeValue]

theorem deletesInstance_of_ne {r : Request V} (h : ∀ i, r ≠ .delete i) :
    (Event.request r).deletesInstance = false := by
  cases r with
  | delete i => exact absurd rfl (h i)
  | read i data => rfl
  | discover i data => rfl
  | write i data writeType => rfl
  | create i data => rfl
  | execute i resourceId buffer => rfl

theorem invariant_request {p : Ptr} {t : Tracked L V} (ht : Invariant pf p t) {r : Request V}
    {reply : Reply V} {o : ObjectState L V}
    (h : server pf.lib t.client.object r = some (reply, o)) :
    Invariant pf p { t with
      client := { t.client with object := o }
      deleted := t.deleted || (Event.request r).deletesInstance } := by
  rcases server_state pf.lib h with ⟨i, rfl, rfl⟩ | ⟨hr, rfl⟩
  · have halive : (t.deleted || (Event.request (.delete i) : Event V).deletesInstance) = false →
        t.deleted = false ∧ i ≠ 0 := by simp [Event.deletesInstance]
    have hheap := heap_delete pf.lib t.client.object i
    exact {
      find_eq := by
        intro j
        rw [find_delete, ht.find_eq]
        by_cases hj : j = i
        · subst hj
          rw [if_pos rfl, if_neg]
          rintro ⟨hzero, hdel⟩
          exact (halive hdel).2 hzero
        · rw [if_neg hj]
          have hsame : (j = 0 ∧ t.deleted = false) ↔ j = 0 ∧
              (t.deleted || (Event.request (.delete i) : Event V).deletesInstance) = false := by
            constructor
            · rintro ⟨rfl, hdel⟩
              simp [hdel, Event.deletesInstance, Ne.symm hj]
            · rintro ⟨rfl, hdel⟩
              exact ⟨rfl, (halive hdel).1⟩
          simp only [hsame]
      shortID_eq := by rw [hheap]; exact ht.shortID_eq
      value_eq := fun hdel => by rw [hheap]; exact ht.value_eq (halive hdel).1
      handle := fun hpc hdel => ht.handle hpc (halive hdel).1
      uri := fun hpc hdel => ht.uri hpc (halive hdel).1 }
  · rw [deletesInstance_of_ne hr, Bool.or_false]
    exact ht

/-- The value is stored in the node of instance 0, or nowhere behind a Delete. -/
theorem invariant_store {p : Ptr} {t : Tracked L V} (ht : Invariant pf p t)
    (hpc : t.client.pc = .store) (v : V) :
    Invariant pf p { t with
      client := { t.client with
        object := t.client.tempInstance.elim t.client.object fun q => storeValue t.client.object q v
        pc := .notify }
      lastStored := v } := by
  have hhandle := ht.handle (by rw [hpc]; simp)
  have huri := ht.uri (Or.inl hpc)
  cases hinst : t.client.tempInstance with
  | none =>
    -- NULL is only found after a Delete, and the store changes nothing.
    have hdeleted : t.deleted = true := by
      by_contra hdel
      have hsome := hhandle (by simpa using hdel)
      rw [hinst] at hsome
      cases hsome
    exact {
      find_eq := ht.find_eq
      shortID_eq := ht.shortID_eq
      value_eq := fun hdel => by rw [hdeleted] at hdel; cases hdel
      handle := fun _ hdel => hinst ▸ hhandle hdel
      uri := fun _ => huri }
  | some q =>
    exact {
      find_eq := ht.find_eq
      shortID_eq := by
        rw [Option.elim_some, storeValue_shortID]
        exact ht.shortID_eq
      value_eq := by
        intro hdel
        obtain rfl : q = p := Option.some.inj (hinst ▸ hhandle hdel)
        exact storeValue_sensorValue _ _ _
      handle := fun _ hdel => hinst ▸ hhandle hdel
      uri := fun _ => huri }

/-- Every step keeps the invariant, also the ones behind a Delete. -/
theorem invariant_step {p : Ptr} {t t' : Tracked L V} {e : Event V} {eff : Effect V}
    (ht : Invariant pf p t) (h : trackedStep pf t e = some (eff, t')) : Invariant pf p t' := by
  rcases trackedStep_cases h with ⟨r, reply, o, rfl, hserver, -, rfl⟩ | ⟨temp, -, hpc, -, rfl⟩ |
    ⟨temp, -, hpc, -, rfl⟩ | ⟨temp, -, hpc, -, rfl⟩ | ⟨temp, -, hpc, -, rfl⟩
  · exact invariant_request ht hserver
  · exact {
      find_eq := ht.find_eq
      shortID_eq := ht.shortID_eq
      value_eq := ht.value_eq
      handle := fun _ hdel => by rw [ht.find_eq, if_pos ⟨rfl, hdel⟩]
      uri := by simp }
  · have hhandle := ht.handle (by rw [hpc]; simp)
    exact {
      find_eq := ht.find_eq
      shortID_eq := ht.shortID_eq
      value_eq := ht.value_eq
      handle := fun _ => hhandle
      uri := fun _ hdel => by rw [hhandle hdel]; exact ht.shortID_eq }
  · exact invariant_store ht hpc (pf.centi temp)
  · have hhandle := ht.handle (by rw [hpc]; simp)
    exact {
      find_eq := ht.find_eq
      shortID_eq := ht.shortID_eq
      value_eq := ht.value_eq
      handle := fun _ => hhandle
      uri := fun _ => ht.uri (Or.inr hpc) }

theorem readsLast {p : Ptr} {t : Tracked L V} (ht : Invariant pf p t) (i : UInt16)
    (data : List (Lwm2mData V)) :
    ReadsLast t (specRead (instances pf.lib t.client.object) i data) := by
  intro l hl d hd hid
  obtain ⟨v, ids, hv, rfl⟩ := specRead_resources hl
  obtain ⟨q, hq, rfl⟩ := Option.map_eq_some_iff.mp hv
  rw [ht.find_eq] at hq
  split_ifs at hq with halive
  obtain rfl := Option.some.inj hq
  obtain ⟨id, -, rfl⟩ := List.mem_map.mp hd
  have hvalue : id = LWM2M_TEMP_RES_SENSOR_VALUE := hid
  rw [resource, if_pos hvalue, ht.value_eq halive.2]

/-- What the next step of the reader does. -/
def readerEffect (pf : Platform L V) (t : Tracked L V) (temp : Int16) : Effect V :=
  match t.client.pc with
  | .lookup => .started
  | .resetUri => .started
  | .store => .stored t.client.tempInstance (pf.centi temp)
  | .notify => .notified t.client.uriInstanceId

theorem trackedStep_reader (pf : Platform L V) (t : Tracked L V) (temp : Int16) :
    ∃ t', trackedStep pf t (.reader temp) = some (readerEffect pf t temp, t') := by
  unfold trackedStep clientStep readerEffect
  cases t.client.pc with
  | lookup => exact ⟨_, rfl⟩
  | resetUri => exact ⟨_, rfl⟩
  | store => exact ⟨_, rfl⟩
  | notify => exact ⟨_, rfl⟩

theorem safeAt_reader (t : Tracked L V) (temp : Int16) : SafeAt pf t (.reader temp) ↔
    SafeEffect pf t (.reader temp) (readerEffect pf t temp) := by
  obtain ⟨t', hstep⟩ := trackedStep_reader pf t temp
  constructor
  · intro h
    exact h _ t' hstep
  · intro h eff t'' hstep'
    rw [hstep] at hstep'
    obtain ⟨rfl, -⟩ := Prod.mk.inj (Option.some.inj hstep')
    exact h

theorem safeAt_request {p : Ptr} {t : Tracked L V} (ht : Invariant pf p t) (r : Request V) :
    SafeAt pf t (.request r) := by
  intro eff t' h
  rcases trackedStep_cases h with ⟨r', reply, o, hr, hserver, rfl, -⟩ | ⟨temp, hr, -⟩ |
    ⟨temp, hr, -⟩ | ⟨temp, hr, -⟩ | ⟨temp, hr, -⟩
  · intro i data he
    obtain rfl : r' = .read i data := by
      cases hr
      exact Event.request.inj he
    rw [server_read] at hserver
    obtain ⟨rfl, -⟩ := Prod.mk.inj (Option.some.inj hserver)
    exact readsLast ht i data
  · cases hr
  · cases hr
  · cases hr
  · cases hr

/-- A step of the reader through the handle is safe while its instance lives. -/
theorem safeAt_reader_iff {p : Ptr} {t : Tracked L V} (ht : Invariant pf p t) (temp : Int16) :
    SafeAt pf t (.reader temp) ↔ AliveAt t (.reader temp) := by
  have halive : AliveAt t (.reader temp) ↔
      ((t.client.pc = .store ∨ t.client.pc = .notify) → t.deleted = false) := by
    constructor
    · intro h
      exact h temp rfl
    · intro h temp' _
      exact h
  rw [safeAt_reader, halive, readerEffect]
  cases hpc : t.client.pc with
  | lookup => simp [SafeEffect]
  | resetUri => simp [SafeEffect]
  | store =>
    simp only [SafeEffect, true_or, forall_const]
    constructor
    · rintro ⟨i, q, -, hq⟩
      rw [ht.find_eq] at hq
      split_ifs at hq with hlive
      exact hlive.2
    · intro hdel
      refine ⟨0, p, ht.handle (by rw [hpc]; simp) hdel, ?_⟩
      rw [ht.find_eq, if_pos ⟨rfl, hdel⟩]
  | notify =>
    simp only [SafeEffect, or_true, forall_const, read_code, ht.find_eq]
    constructor
    · rintro ⟨hsome, -⟩
      split_ifs at hsome with hlive
      · exact hlive.2
      · cases hsome
    · intro hdel
      rw [if_pos ⟨ht.uri (Or.inr hpc) hdel, hdel⟩]
      simp

theorem invariant_started [Zero V] (p : Ptr) : Invariant pf p ⟨started pf p, 0, false⟩ where
  find_eq := by
    intro i
    have hadd := pf.lib.find_add pf.lib.empty 0 p i (pf.lib.find_empty 0)
    rw [pf.lib.find_empty] at hadd
    simpa [started, getTemperatureObject] using hadd
  shortID_eq := rfl
  value_eq := fun _ => rfl
  handle := fun hpc => absurd rfl hpc
  uri := by simp [started]

/-- In every interleaving the reader is safe exactly as long as it takes no step
behind a Delete of its instance: `_delete` frees the node that the handle keeps. -/
theorem reader_safe_iff [Zero V] (p : Ptr) (events : List (Event V)) :
    Along (trackedStep pf) (SafeAt pf) ⟨started pf p, 0, false⟩ events ↔
      Along (trackedStep pf) AliveAt ⟨started pf p, 0, false⟩ events := by
  apply along_congr (I := Invariant pf p) _ _ (invariant_started p)
  · intro t e ht
    cases e with
    | request r =>
      constructor
      · rintro - temp ⟨⟩
      · intro _
        exact safeAt_request ht r
    | reader temp => exact safeAt_reader_iff ht temp
  · intro t e eff t' ht _ h
    exact invariant_step ht h

/-- The object with the list as a map, and readings in hundredths. -/
def mapPlatform : Platform (UInt16 → Option Ptr) ℚ where
  lib := mapList
  centi temp := temp.toInt / 100
  nullShortID := 0

/-- One reading, the Delete of instance 0, and the next reading. -/
theorem store_after_delete_not_safe :
    ¬ Along (trackedStep mapPlatform) (SafeAt mapPlatform) ⟨started mapPlatform 0, 0, false⟩
      [.reader 0, .reader 0, .reader 2150, .reader 0, .request (.delete 0), .reader 2160] := by
  intro h
  obtain ⟨-, h⟩ := h
  obtain ⟨-, h⟩ := h _ _ rfl
  obtain ⟨-, h⟩ := h _ _ rfl
  obtain ⟨-, h⟩ := h _ _ rfl
  obtain ⟨-, h⟩ := h _ _ rfl
  obtain ⟨hsafe, -⟩ := h _ _ rfl
  obtain ⟨i, p, -, hfind⟩ := hsafe _ _ rfl
  by_cases hi : i = 0
  · subst hi
    cases hfind
  · have hnone : mapList.find (mapList.remove (mapList.add mapList.empty 0 0) 0).1 i = none := by
      rw [mapList.find_remove, if_neg hi, mapList.find_add _ _ _ _ (mapList.find_empty 0),
        if_neg hi, mapList.find_empty]
    exact absurd (hnone.symm.trans hfind) (by simp)

end IotLabTraining.TemperatureReader
