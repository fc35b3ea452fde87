import IotLabTraining.Runs
import IotLabTraining.Text

/-!
# The LwM2M temperature object

The callbacks of `temperature_object.c`. An instance is a node of Wakaama's
`lwm2m_list`, which is a parameter with the laws of a list keyed by ids; nodes
are pointers, and the heap gives what they point to. `lwm2m_free` changes
nothing that the object still refers to. Sensor values are of any type.
-/
namespace IotLabTraining.TemperatureObject
open Runs

inductive CoapCode where
  | content205
  | deleted202
  | notFound404
  | methodNotAllowed405
  | internalServerError500
  deriving DecidableEq

def LWM2M_TEMP_RES_SENSOR_VALUE : UInt16 := 5700
def LWM2M_TEMP_RES_SENSOR_UNITS : UInt16 := 5701

/-- `_static_resources[RES_SENSOR_UNITS]`. -/
def sensorUnits : Bytes := ascii "Cel"

abbrev Ptr := ℕ

/-- Wakaama's linked list: a list of type `L` holds at most one node for an id. -/
structure Lwm2mList (L : Type*) where
  empty : L
  find : L → UInt16 → Option Ptr
  add : L → UInt16 → Ptr → L
  remove : L → UInt16 → L × Option Ptr
  find_empty : ∀ i, find empty i = none
  find_add : ∀ l i p j, find l i = none → find (add l i p) j = if j = i then some p else find l j
  find_remove : ∀ l i j, find (remove l i).1 j = if j = i then none else find l j
  remove_node : ∀ l i, (remove l i).2 = find l i

variable {L V : Type*}

structure TempInstance (V : Type*) where
  shortID : UInt16
  sensorValue : V

/-- The object's list, and the memory its nodes lie in. -/
structure ObjectState (L V : Type*) where
  instanceList : L
  heap : Ptr → TempInstance V

inductive DataValue (V : Type*) where
  | undefined
  | float (v : V)
  | string (s : Bytes)
  deriving DecidableEq

/-- `lwm2m_data_t`. -/
structure Lwm2mData (V : Type*) where
  id : UInt16
  value : DataValue V
  deriving DecidableEq

/-- The return value, `*num_dataP` and the array at `*data_arrayP`, which is
empty for NULL. -/
structure Response (V : Type*) where
  code : CoapCode
  numData : ℕ
  data : List (Lwm2mData V)
  deriving DecidableEq

/-- The array for a request without ids. -/
def allResources : List (Lwm2mData V) :=
  [⟨LWM2M_TEMP_RES_SENSOR_VALUE, .undefined⟩, ⟨LWM2M_TEMP_RES_SENSOR_UNITS, .undefined⟩]

/-- The loop of `_read`: an unknown id ends it with what was encoded so far. -/
def encodeResources (v : V) : List (Lwm2mData V) → CoapCode × List (Lwm2mData V)
  | [] => (.content205, [])
  | d :: ds =>
    if d.id = LWM2M_TEMP_RES_SENSOR_VALUE then
      let r := encodeResources v ds
      (r.1, { d with value := .float v } :: r.2)
    else if d.id = LWM2M_TEMP_RES_SENSOR_UNITS then
      let r := encodeResources v ds
      (r.1, { d with value := .string sensorUnits } :: r.2)
    else (.notFound404, d :: ds)

variable (lib : Lwm2mList L) (alloc : Bool)

/-- `_read`; `alloc` says whether `lwm2m_data_new` succeeds. -/
def read (o : ObjectState L V) (instanceId : UInt16) (data : List (Lwm2mData V)) : Response V :=
  match lib.find o.instanceList instanceId with
  | none => ⟨.notFound404, data.length, data⟩
  | some p =>
    let v := (o.heap p).sensorValue
    if data.length = 0 then
      if alloc then
        let r := encodeResources v allResources
        ⟨r.1, 2, r.2⟩
      else ⟨.internalServerError500, 2, []⟩
    else
      let r := encodeResources v data
      ⟨r.1, data.length, r.2⟩

/-- The loop of `_discover` returns in its first iteration. -/
def discoverLoop : List (Lwm2mData V) → CoapCode
  | [] => .notFound404
  | d :: _ =>
    if d.id = LWM2M_TEMP_RES_SENSOR_VALUE ∨ d.id = LWM2M_TEMP_RES_SENSOR_UNITS then .content205
    else .notFound404

/-- `_discover`; the instance id and the object are not used. -/
def discover (_o : ObjectState L V) (_instanceId : UInt16) (data : List (Lwm2mData V)) :
    Response V :=
  if data.length = 0 then
    if alloc then ⟨.content205, 2, allResources⟩ else ⟨.internalServerError500, 2, []⟩
  else ⟨discoverLoop data, data.length, data⟩

/-- `_delete`. -/
def delete (o : ObjectState L V) (instanceId : UInt16) : CoapCode × ObjectState L V :=
  match lib.remove o.instanceList instanceId with
  | (l, none) => (.notFound404, { o with instanceList := l })
  | (l, some _) => (.deleted202, { o with instanceList := l })

/-- `lwm2m_client_get_temperature_object`; `p` is what `lwm2m_malloc` returns
for the instance. -/
def getTemperatureObject [Zero V] (p : Ptr) : ObjectState L V where
  instanceList := lib.add lib.empty 0 p
  heap _ := ⟨0, 0⟩

/-- Requests with the arguments of their callbacks. -/
inductive Request (V : Type*) where
  | read (instanceId : UInt16) (data : List (Lwm2mData V))
  | discover (instanceId : UInt16) (data : List (Lwm2mData V))
  | write (instanceId : UInt16) (data : List (Lwm2mData V)) (writeType : UInt8)
  | create (instanceId : UInt16) (data : List (Lwm2mData V))
  | execute (instanceId resourceId : UInt16) (buffer : Bytes)
  | delete (instanceId : UInt16)

/-- `_write`, `_create` and `_execute` only return a code. -/
def step : Step (ObjectState L V) (Request V) (Response V) := fun o r =>
  match r with
  | .read i data => some (read lib alloc o i data, o)
  | .discover i data => some (discover alloc o i data, o)
  | .write _ data _ => some (⟨.methodNotAllowed405, data.length, data⟩, o)
  | .create _ data => some (⟨.methodNotAllowed405, data.length, data⟩, o)
  | .execute _ _ _ => some (⟨.methodNotAllowed405, 0, []⟩, o)
  | .delete i =>
    let r := delete lib o i
    some (⟨r.1, 0, []⟩, r.2)

/-! ## Read and Discover -/

/-- The resources that the object has. -/
def Known (id : UInt16) : Prop :=
  id = LWM2M_TEMP_RES_SENSOR_VALUE ∨ id = LWM2M_TEMP_RES_SENSOR_UNITS

instance (id : UInt16) : Decidable (Known id) := inferInstanceAs (Decidable (_ ∨ _))

/-- A resource with the value that the instance has for it. -/
def resource (v : V) (id : UInt16) : Lwm2mData V :=
  ⟨id, if id = LWM2M_TEMP_RES_SENSOR_VALUE then .float v else .string sensorUnits⟩

theorem encodeResources_cons_known (v : V) {d : Lwm2mData V} (h : Known d.id)
    (ds : List (Lwm2mData V)) : encodeResources v (d :: ds) =
      ((encodeResources v ds).1, resource v d.id :: (encodeResources v ds).2) := by
  unfold resource
  by_cases hvalue : d.id = LWM2M_TEMP_RES_SENSOR_VALUE
  · rw [encodeResources, if_pos hvalue, if_pos hvalue]
  · have hunits : d.id = LWM2M_TEMP_RES_SENSOR_UNITS := h.resolve_left hvalue
    rw [encodeResources, if_neg hvalue, if_pos hunits, if_neg hvalue]

theorem encodeResources_cons_unknown (v : V) {d : Lwm2mData V} (h : ¬ Known d.id)
    (ds : List (Lwm2mData V)) : encodeResources v (d :: ds) = (.notFound404, d :: ds) := by
  rw [Known, not_or] at h
  rw [encodeResources, if_neg h.1, if_neg h.2]

theorem encodeResources_known (v : V) {ds : List (Lwm2mData V)} (h : ∀ d ∈ ds, Known d.id) :
    encodeResources v ds = (.content205, ds.map fun d => resource v d.id) := by
  induction ds with
  | nil => rfl
  | cons d ds ih =>
    rw [List.forall_mem_cons] at h
    rw [encodeResources_cons_known v h.1, ih h.2, List.map_cons]

theorem encodeResources_unknown (v : V) {ds : List (Lwm2mData V)} (h : ¬ ∀ d ∈ ds, Known d.id) :
    (encodeResources v ds).1 = .notFound404 := by
  induction ds with
  | nil => exact absurd (by simp) h
  | cons d ds ih =>
    by_cases hd : Known d.id
    · rw [encodeResources_cons_known v hd]
      apply ih
      intro hds
      exact h (List.forall_mem_cons.mpr ⟨hd, hds⟩)
    · rw [encodeResources_cons_unknown v hd]

variable (o : ObjectState L V) (i : UInt16)

theorem read_absent (h : lib.find o.instanceList i = none) (data : List (Lwm2mData V)) :
    read lib alloc o i data = ⟨.notFound404, data.length, data⟩ := by
  rw [read, h]

theorem read_all {p : Ptr} (h : lib.find o.instanceList i = some p) :
    read lib true o i [] = ⟨.content205, 2,
      [resource (o.heap p).sensorValue LWM2M_TEMP_RES_SENSOR_VALUE,
        resource (o.heap p).sensorValue LWM2M_TEMP_RES_SENSOR_UNITS]⟩ := by
  rw [read, h]
  rfl

theorem read_known {p : Ptr} (h : lib.find o.instanceList i = some p) {data : List (Lwm2mData V)}
    (hne : data ≠ []) (hknown : ∀ d ∈ data, Known d.id) :
    read lib alloc o i data = ⟨.content205, data.length,
      data.map fun d => resource (o.heap p).sensorValue d.id⟩ := by
  have hlen : data.length ≠ 0 := by simpa using hne
  simp only [read, h, if_neg hlen, encodeResources_known _ hknown]

theorem read_unknown {p : Ptr} (h : lib.find o.instanceList i = some p)
    {data : List (Lwm2mData V)} (hunknown : ¬ ∀ d ∈ data, Known d.id) :
    (read lib alloc o i data).code = .notFound404 := by
  have hlen : data.length ≠ 0 := by
    intro hzero
    obtain rfl := List.length_eq_zero_iff.mp hzero
    exact hunknown (by simp)
  simp only [read, h, if_neg hlen, encodeResources_unknown _ hunknown]

/-- With memory to allocate, Discover succeeds exactly when Read does, and
without ids both announce the same resources. -/
structure Agree (data : List (Lwm2mData V)) : Prop where
  code : (discover true o i data).code = .content205 ↔ (read lib true o i data).code = .content205
  ids : data = [] →
    (discover true o i data).data.map Lwm2mData.id = (read lib true o i data).data.map Lwm2mData.id

theorem discoverLoop_cons (d : Lwm2mData V) (ds : List (Lwm2mData V)) :
    discoverLoop (d :: ds) = if Known d.id then .content205 else .notFound404 := rfl

theorem discover_code (data : List (Lwm2mData V)) :
    (discover true o i data).code = .content205 ↔ ∀ d ∈ data.head?, Known d.id := by
  cases data with
  | nil => simp [discover]
  | cons d ds => simp [discover, discoverLoop_cons]

theorem read_code (data : List (Lwm2mData V)) : (read lib true o i data).code = .content205 ↔
    (lib.find o.instanceList i).isSome = true ∧ ∀ d ∈ data, Known d.id := by
  cases h : lib.find o.instanceList i with
  | none => simp [read_absent lib true o i h]
  | some p =>
    by_cases hknown : ∀ d ∈ data, Known d.id
    · by_cases hne : data = []
      · subst hne
        simp [read_all lib o i h]
      · simpa [read_known lib true o i h hne hknown] using hknown
    · rw [read_unknown lib true o i h hknown]
      simp [hknown]

/-- Discover looks at no instance and at no id but the first, so it agrees with
Read only where the first id already decides. -/
theorem discover_agrees_iff (data : List (Lwm2mData V)) : Agree lib o i data ↔
    ((∀ d ∈ data.head?, Known d.id) →
      (lib.find o.instanceList i).isSome = true ∧ ∀ d ∈ data, Known d.id) := by
  constructor
  · intro h hhead
    exact (read_code lib o i data).mp (h.code.mp ((discover_code o i data).mpr hhead))
  · intro h
    constructor
    · rw [discover_code, read_code]
      constructor
      · exact h
      · rintro ⟨-, hknown⟩ d hd
        exact hknown d (List.mem_of_mem_head? hd)
    · rintro rfl
      obtain ⟨p, hp⟩ := Option.isSome_iff_exists.mp (h (by simp)).1
      rw [read_all lib o i hp]
      rfl

/-- The list as a map from ids to nodes. -/
def mapList : Lwm2mList (UInt16 → Option Ptr) where
  empty _ := none
  find l i := l i
  add l i p := Function.update l i (some p)
  remove l i := (Function.update l i none, l i)
  find_empty _ := rfl
  find_add l i p j _ := Function.update_apply l i (some p) j
  find_remove l i j := Function.update_apply l i none j
  remove_node _ _ := rfl

/-- A known and an unknown resource of the instance that exists. -/
theorem discover_first_only : ¬ Agree mapList (getTemperatureObject mapList 0 : ObjectState _ ℚ) 0
    [⟨5700, .undefined⟩, ⟨5601, .undefined⟩] := by
  intro h
  have hread := (read_code mapList _ 0 _).mp (h.code.mp (by decide))
  exact absurd (hread.2 ⟨5601, .undefined⟩ (by simp)) (by decide)

/-! ## The object as a finite map -/

/-- What the server sees of a response: an error carries no data. -/
structure Reply (V : Type*) where
  code : CoapCode
  resources : Option (List (Lwm2mData V))
  deriving DecidableEq

def Response.reply (r : Response V) : Reply V :=
  ⟨r.code, if r.code = .content205 then some r.data else none⟩

/-- The object behind its server interface, when memory can be allocated. -/
def server : Step (ObjectState L V) (Request V) (Reply V) := fun o r =>
  (step lib true o r).map fun p => (p.1.reply, p.2)

/-- The instances and their values. -/
def instances (o : ObjectState L V) : UInt16 → Option V :=
  fun i => (lib.find o.instanceList i).map fun p => (o.heap p).sensorValue

/-- A Read on the map: no ids stand for all of them. -/
def specRead (m : UInt16 → Option V) (i : UInt16) (data : List (Lwm2mData V)) : Reply V :=
  let ids := if data = [] then [LWM2M_TEMP_RES_SENSOR_VALUE, LWM2M_TEMP_RES_SENSOR_UNITS]
    else data.map Lwm2mData.id
  match m i with
  | none => ⟨.notFound404, none⟩
  | some v =>
    if ∀ id ∈ ids, Known id then ⟨.content205, some (ids.map (resource v))⟩
    else ⟨.notFound404, none⟩

/-- Discover as it is: it does not look at the map. -/
def specDiscover (data : List (Lwm2mData V)) : Reply V :=
  if data = [] then ⟨.content205, some allResources⟩
  else if ∀ d ∈ data.head?, Known d.id then ⟨.content205, some data⟩
  else ⟨.notFound404, none⟩

/-- The abstract object: a finite map that only a Delete changes. -/
def spec : Step (UInt16 → Option V) (Request V) (Reply V) := fun m r =>
  match r with
  | .read i data => some (specRead m i data, m)
  | .discover _ data => some (specDiscover data, m)
  | .write _ _ _ => some (⟨.methodNotAllowed405, none⟩, m)
  | .create _ _ => some (⟨.methodNotAllowed405, none⟩, m)
  | .execute _ _ _ => some (⟨.methodNotAllowed405, none⟩, m)
  | .delete i =>
    if (m i).isSome then some (⟨.deleted202, none⟩, Function.update m i none)
    else some (⟨.notFound404, none⟩, m)

theorem specRead_resources {m : UInt16 → Option V} {i : UInt16} {data l : List (Lwm2mData V)}
    (h : (specRead m i data).resources = some l) :
    ∃ (v : V) (ids : List UInt16), m i = some v ∧ l = ids.map (resource v) := by
  unfold specRead at h
  cases hm : m i with
  | none =>
    rw [hm] at h
    cases h
  | some v =>
    rw [hm] at h
    dsimp only at h
    split_ifs at h
    · exact ⟨v, _, rfl, (Option.some.inj h).symm⟩
    · exact ⟨v, _, rfl, (Option.some.inj h).symm⟩

theorem forall_mem_ids {data : List (Lwm2mData V)} :
    (∀ id ∈ data.map Lwm2mData.id, Known id) ↔ ∀ d ∈ data, Known d.id := by
  simp

theorem read_reply (data : List (Lwm2mData V)) :
    (read lib true o i data).reply = specRead (instances lib o) i data := by
  cases h : lib.find o.instanceList i with
  | none =>
    have hm : instances lib o i = none := by rw [instances, h, Option.map_none]
    rw [read_absent lib true o i h, specRead, hm]
    rfl
  | some p =>
    have hm : instances lib o i = some (o.heap p).sensorValue := by
      rw [instances, h, Option.map_some]
    by_cases hne : data = []
    · subst hne
      rw [read_all lib o i h, specRead, hm]
      rfl
    · rw [specRead, hm, if_neg hne]
      dsimp only
      by_cases hknown : ∀ d ∈ data, Known d.id
      · rw [read_known lib true o i h hne hknown, if_pos (forall_mem_ids.mpr hknown), List.map_map]
        rfl
      · rw [if_neg (fun hids => hknown (forall_mem_ids.mp hids)), Response.reply,
          read_unknown lib true o i h hknown]
        rfl

theorem discover_reply (data : List (Lwm2mData V)) :
    (discover true o i data).reply = specDiscover data := by
  cases data with
  | nil => rfl
  | cons d ds =>
    by_cases hknown : Known d.id
    · simp [discover, discoverLoop_cons, Response.reply, specDiscover, hknown]
    · simp [discover, discoverLoop_cons, Response.reply, specDiscover, hknown]

theorem delete_eq : delete lib o i =
    (if (lib.find o.instanceList i).isSome then .deleted202 else .notFound404,
      { o with instanceList := (lib.remove o.instanceList i).1 }) := by
  have hnode := lib.remove_node o.instanceList i
  unfold delete
  rw [← hnode]
  cases lib.remove o.instanceList i with
  | mk l node => cases node <;> rfl

theorem find_delete (j : UInt16) : lib.find (delete lib o i).2.instanceList j =
    if j = i then none else lib.find o.instanceList j := by
  rw [delete_eq, lib.find_remove]

theorem heap_delete : (delete lib o i).2.heap = o.heap := by
  rw [delete_eq]

theorem instances_delete :
    instances lib (delete lib o i).2 = Function.update (instances lib o) i none := by
  ext j : 1
  rw [Function.update_apply, instances, find_delete, heap_delete]
  split_ifs
  · rfl
  · rfl

theorem delete_code : (delete lib o i).1 =
    if (instances lib o i).isSome then .deleted202 else .notFound404 := by
  rw [delete_eq, instances, Option.isSome_map]

/-- One request, answered by the object and by the map. -/
theorem spec_instances (o : ObjectState L V) (r : Request V) :
    spec (instances lib o) r = (server lib o r).map fun p => (p.1, instances lib p.2) := by
  cases r with
  | read i data =>
    rw [server, step, Option.map_some, read_reply]
    rfl
  | discover i data =>
    rw [server, step, Option.map_some, discover_reply]
    rfl
  | write i data writeType => rfl
  | create i data => rfl
  | execute i resourceId buffer => rfl
  | delete i =>
    rw [server, step, Option.map_some, Option.map_some, instances_delete, delete_code, spec]
    split_ifs with hsome
    · rfl
    · have hnone : instances lib o i = none := by simpa using hsome
      have hsame : Function.update (instances lib o) i none = instances lib o := by
        rw [← hnone, Function.update_eq_self]
      rw [hsame]
      rfl

/-- Only a Delete changes the object. -/
theorem server_state {o o' : ObjectState L V} {r : Request V} {reply : Reply V}
    (h : server lib o r = some (reply, o')) :
    (∃ i, r = .delete i ∧ o' = (delete lib o i).2) ∨ ((∀ i, r ≠ .delete i) ∧ o' = o) := by
  obtain ⟨p, hp, he⟩ := Option.map_eq_some_iff.mp h
  obtain ⟨-, rfl⟩ := Prod.mk.inj he
  have hstate : ∀ {q}, some q = some p → p.2 = q.2 :=
    fun hq => congrArg Prod.snd (Option.some.inj hq).symm
  cases r with
  | delete i => exact Or.inl ⟨i, rfl, hstate hp⟩
  | read i data => exact Or.inr ⟨by simp, hstate hp⟩
  | discover i data => exact Or.inr ⟨by simp, hstate hp⟩
  | write i data writeType => exact Or.inr ⟨by simp, hstate hp⟩
  | create i data => exact Or.inr ⟨by simp, hstate hp⟩
  | execute i resourceId buffer => exact Or.inr ⟨by simp, hstate hp⟩

theorem server_read (data : List (Lwm2mData V)) :
    server lib o (.read i data) = some (specRead (instances lib o) i data, o) := by
  rw [server, step, Option.map_some, read_reply]

theorem spec_step {r : Request V} {m m' : UInt16 → Option V} {reply : Reply V}
    (h : spec m r = some (reply, m')) (j : UInt16) (v : V) :
    m' j = some v ↔ m j = some v ∧ r ≠ .delete j := by
  have hsame : (∀ i, r ≠ .delete i) → m' = m → (m' j = some v ↔ m j = some v ∧ r ≠ .delete j) := by
    rintro hr rfl
    simp [hr j]
  cases r with
  | delete i =>
    rw [spec] at h
    split_ifs at h with hi
    · obtain ⟨-, rfl⟩ := Prod.mk.inj (Option.some.inj h)
      by_cases hj : j = i
      · subst hj
        simp
      · have hi : i ≠ j := Ne.symm hj
        simp [hj, hi]
    · obtain ⟨-, rfl⟩ := Prod.mk.inj (Option.some.inj h)
      constructor
      · intro hv
        refine ⟨hv, ?_⟩
        rintro ⟨⟩
        rw [hv] at hi
        exact hi rfl
      · exact And.left
  | read i data => exact hsame (by simp) (Prod.mk.inj (Option.some.inj h)).2.symm
  | discover i data => exact hsame (by simp) (Prod.mk.inj (Option.some.inj h)).2.symm
  | write i data writeType => exact hsame (by simp) (Prod.mk.inj (Option.some.inj h)).2.symm
  | create i data => exact hsame (by simp) (Prod.mk.inj (Option.some.inj h)).2.symm
  | execute i resourceId buffer => exact hsame (by simp) (Prod.mk.inj (Option.some.inj h)).2.symm

/-- A map loses exactly the instances that are deleted. -/
theorem spec_run {requests : List (Request V)} {m m' : UInt16 → Option V} {out : List (Reply V)}
    (h : run spec m requests = some (out, m')) (j : UInt16) (v : V) :
    m' j = some v ↔ m j = some v ∧ .delete j ∉ requests := by
  induction requests generalizing m out with
  | nil =>
    obtain ⟨-, rfl⟩ := Prod.mk.inj (Option.some.inj h)
    simp
  | cons r requests ih =>
    obtain ⟨⟨reply, m₁⟩, hstep, hrest⟩ := Option.bind_eq_some_iff.mp h
    obtain ⟨⟨out', m₂⟩, hrun, he⟩ := Option.map_eq_some_iff.mp hrest
    obtain ⟨rfl, rfl⟩ := Prod.mk.inj he
    rw [ih hrun, spec_step hstep j v, List.mem_cons, not_or, and_assoc, ne_comm]

/-- The instances that exist after `lwm2m_client_get_temperature_object`. -/
def created [Zero V] : UInt16 → Option V := fun j => if j = 0 then some 0 else none

theorem instances_getTemperatureObject [Zero V] (p : Ptr) :
    instances lib (getTemperatureObject lib p : ObjectState L V) = created := by
  ext j : 1
  rw [instances, getTemperatureObject, lib.find_add _ _ _ _ (lib.find_empty 0), created]
  split_ifs
  · rfl
  · rw [lib.find_empty]
    rfl

/-- Every sequence of requests is answered as by a finite map from instance ids
to values, and the map holds exactly what was created and not yet deleted. -/
theorem server_refines_map [Zero V] (p : Ptr) (requests : List (Request V)) :
    ∃ out o, run (server lib) (getTemperatureObject lib p) requests = some (out, o) ∧
      run spec created requests = some (out, instances lib o) ∧
      ∀ j v, instances lib o j = some v ↔ (j = 0 ∧ v = 0) ∧ .delete j ∉ requests := by
  have hanswers : ∀ (o : ObjectState L V) r, (server lib o r).isSome = true := by
    intro o r
    cases r <;> rfl
  obtain ⟨out, o, hrun⟩ := exists_run hanswers (getTemperatureObject lib p) requests
  have hspec : run spec created requests = some (out, instances lib o) := by
    rw [← instances_getTemperatureObject lib p,
      run_abstraction (instances lib) (spec_instances lib) _ requests, hrun, Option.map_some]
  refine ⟨out, o, hrun, hspec, fun j v => ?_⟩
  have hcreated : created j = some v ↔ j = 0 ∧ v = 0 := by
    unfold created
    split_ifs with hj
    · simp [hj, eq_comm]
    · simp [hj]
  rw [spec_run hspec j v, hcreated]

end IotLabTraining.TemperatureObject
