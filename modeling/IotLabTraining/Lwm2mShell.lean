import IotLabTraining.TemperatureReader

/-!
# The shell of the LwM2M client

`lwm2m_cli_cmd` as the notebook completes it. `start` is no single step: once the client
runs, its thread answers requests of the server while the shell is at the sensor, at the
list or at the creation of the reader. `connected` is set before all of these, and nothing
takes it back.
-/
namespace IotLabTraining.Lwm2mShell
open Runs TemperatureObject TemperatureReader

variable {L V : Type*}

/-- Where the shell is in the body of `start`. -/
inductive ShellAt where
  | prompt
  | sensor
  | lookup
  | create
  deriving DecidableEq

/-- `DEVELHELP`, and what `lwm2m_tlsf_status` prints. -/
structure Build where
  develhelp : Bool
  tlsfStatus : Bytes

/-- The node: `connected`, the shell, whether the reader thread exists, and the object with
the handle, which the shell looks up and the thread uses. -/
structure Node (L V : Type*) where
  connected : Bool
  shell : ShellAt
  reader : Bool
  client : Client L V

/-- A line at the shell, with what `lwm2m_client_run` returns if it is called; the next turn
of the shell, with what `lpsxxx_init` returns; a request; and a turn of the thread. -/
inductive Action (V : Type*) where
  | command (name : Bytes) (args : List Bytes) (runs : Bool)
  | shell (initialised : Bool)
  | request (r : Request V)
  | reader (temp : Int16)

inductive Effect (V : Type*) where
  | quiet
  /-- The command returns `rc`. -/
  | returned (rc : ℕ) (out : Bytes)
  /-- `lwm2m_client_run` has started the client. -/
  | connected
  | sensorReady
  /-- The message of the failure, and the command returns 1. -/
  | sensorFailed (out : Bytes)
  /-- `thread_create`, and the command returns. -/
  | created
  /-- A step at the object or through the handle. -/
  | seen (e : Event V) (eff : TemperatureReader.Effect V)

variable (pf : Platform L V) (build : Build)

def usage (name : Bytes) : Bytes :=
  ascii "usage: " ++ name ++
    if build.develhelp then ascii " <start|mem>\n" else ascii " <start>\n"

/-- `lwm2m_cli_cmd` up to the call of `lpsxxx_init`; `args` is `argv` behind its name. -/
def lwm2mCliCmd (s : Node L V) (name : Bytes) (args : List Bytes) (runs : Bool) :
    Effect V × Node L V :=
  match args with
  | [] => (.returned 1 (usage build name), s)
  | w :: _ =>
    if w = ascii "start" then
      if s.connected = false ∧ runs then
        (.connected, { s with connected := true, shell := .sensor })
      else (.returned 0 [], s)
    else if build.develhelp ∧ w = ascii "mem" then (.returned 0 build.tlsfStatus, s)
    else (.returned 1 (usage build name), s)

/-- One step at the object or through the handle. -/
def see (s : Node L V) (e : Event V) : Option (Effect V × Node L V) :=
  (clientStep pf s.client e).map fun p => (.seen e p.1, { s with client := p.2 })

def step : Step (Node L V) (Action V) (Effect V) := fun s a =>
  match a with
  | .command name args runs =>
    if s.shell = .prompt then some (lwm2mCliCmd build s name args runs) else some (.quiet, s)
  | .shell initialised =>
    match s.shell with
    | .prompt => some (.quiet, s)
    | .sensor =>
      if initialised then some (.sensorReady, { s with shell := .lookup })
      else
        some (.sensorFailed (ascii "LPS331AP initialization failed\n"), { s with shell := .prompt })
    | .lookup => (see pf s (.reader 0)).map fun p => (p.1, { p.2 with shell := .create })
    | .create => some (.created, { s with shell := .prompt, reader := true })
  | .request r => if s.connected then see pf s (.request r) else some (.quiet, s)
  | .reader temp => if s.reader then see pf s (.reader temp) else some (.quiet, s)

/-- Behind `lwm2m_cli_init`; `p` is the node of instance 0. -/
def boot [Zero V] (p : Ptr) : Node L V := ⟨false, .prompt, false, started pf p⟩

def Effect.event : Effect V → Option (Event V)
  | .seen e _ => some e
  | _ => none

def Effect.answer : Effect V → Option (TemperatureReader.Effect V)
  | .seen _ eff => some eff
  | _ => none

/-! ## The life of the client -/

inductive Milestone where
  | connected
  | sensorReady
  | sensorFailed
  | created
  deriving DecidableEq

def Effect.milestones : Effect V → List Milestone
  | .connected => [.connected]
  | .sensorReady => [.sensorReady]
  | .sensorFailed _ => [.sensorFailed]
  | .created => [.created]
  | _ => []

/-- How far the one start of the client has come. -/
inductive Phase where
  | off
  | sensor
  | lookup
  | create
  | running
  | failed
  deriving DecidableEq

def Phase.history : Phase → List Milestone
  | .off => []
  | .sensor => [.connected]
  | .lookup => [.connected, .sensorReady]
  | .create => [.connected, .sensorReady]
  | .running => [.connected, .sensorReady, .created]
  | .failed => [.connected, .sensorFailed]

/-- The state of a node in a phase; where the thread runs, the handle has been looked up. -/
def Fits (s : Node L V) : Phase → Prop
  | .off => s.connected = false ∧ s.shell = .prompt ∧ s.reader = false ∧ s.client.pc = .lookup
  | .sensor => s.connected = true ∧ s.shell = .sensor ∧ s.reader = false ∧ s.client.pc = .lookup
  | .lookup => s.connected = true ∧ s.shell = .lookup ∧ s.reader = false ∧ s.client.pc = .lookup
  | .create => s.connected = true ∧ s.shell = .create ∧ s.reader = false ∧ s.client.pc = .resetUri
  | .running => s.connected = true ∧ s.shell = .prompt ∧ s.reader = true
  | .failed => s.connected = true ∧ s.shell = .prompt ∧ s.reader = false ∧ s.client.pc = .lookup

/-- Before there is a reader nothing has been stored. -/
structure Consistent [Zero V] (s : Node L V) (phase : Phase) : Prop where
  fits : Fits s phase
  zero : phase ≠ .running → ∀ q, (s.client.object.heap q).sensorValue = 0

/-- A reply to a Read that gives the value zero, if it gives one. -/
def ReadsZero [Zero V] (eff : TemperatureReader.Effect V) : Prop :=
  ∀ reply l, eff = .reply reply → reply.resources = some l → ∀ d ∈ l,
    d.id = LWM2M_TEMP_RES_SENSOR_VALUE → d.value = .float 0

/-- A step without the reader: a request, or the lookup of the handle. -/
def WithoutReader [Zero V] : Effect V → Prop
  | .seen (.request (.read _ _)) eff => ReadsZero eff
  | .seen (.request _) _ => True
  | .seen (.reader _) eff => eff = .started
  | _ => True

variable {pf build}

/-- The command starts the client if it has not been started, or ends at once. -/
theorem lwm2mCliCmd_cases (s : Node L V) (name : Bytes) (args : List Bytes) (runs : Bool) :
    (s.connected = false ∧ lwm2mCliCmd build s name args runs =
      (.connected, { s with connected := true, shell := .sensor })) ∨
    ∃ rc out, lwm2mCliCmd build s name args runs = (.returned rc out, s) := by
  cases args with
  | nil => exact Or.inr ⟨_, _, rfl⟩
  | cons w ws =>
    simp only [lwm2mCliCmd]
    split_ifs with hstart hruns hmem
    · exact Or.inl ⟨hruns.1, rfl⟩
    · exact Or.inr ⟨_, _, rfl⟩
    · exact Or.inr ⟨_, _, rfl⟩
    · exact Or.inr ⟨_, _, rfl⟩

theorem projection_see {s t : Node L V} {e : Event V} {eff : Effect V}
    (h : see pf s e = some (eff, t)) :
    optional (clientStep pf) s.client eff.event = some (eff.answer, t.client) := by
  obtain ⟨⟨eff', c⟩, hstep, he⟩ := Option.map_eq_some_iff.mp h
  obtain ⟨rfl, rfl⟩ := Prod.mk.inj he
  exact Option.map_eq_some_iff.mpr ⟨(eff', c), hstep, rfl⟩

/-- What is seen at the object and through the handle are steps of the reader's client. -/
theorem projection_step {s s' : Node L V} {a : Action V} {e : Effect V}
    (h : step pf build s a = some (e, s')) :
    optional (clientStep pf) s.client e.event = some (e.answer, s'.client) := by
  cases a with
  | command name args runs =>
    simp only [step] at h
    split_ifs at h with hprompt
    · rcases lwm2mCliCmd_cases s name args runs with ⟨-, hcmd⟩ | ⟨rc, out, hcmd⟩
      · rw [hcmd] at h
        obtain ⟨rfl, rfl⟩ := Prod.mk.inj (Option.some.inj h)
        rfl
      · rw [hcmd] at h
        obtain ⟨rfl, rfl⟩ := Prod.mk.inj (Option.some.inj h)
        rfl
    · obtain ⟨rfl, rfl⟩ := Prod.mk.inj (Option.some.inj h)
      rfl
  | shell initialised =>
    simp only [step] at h
    split at h
    · obtain ⟨rfl, rfl⟩ := Prod.mk.inj (Option.some.inj h)
      rfl
    · split_ifs at h
      · obtain ⟨rfl, rfl⟩ := Prod.mk.inj (Option.some.inj h)
        rfl
      · obtain ⟨rfl, rfl⟩ := Prod.mk.inj (Option.some.inj h)
        rfl
    · obtain ⟨⟨eff, t⟩, ht, he⟩ := Option.map_eq_some_iff.mp h
      obtain ⟨rfl, rfl⟩ := Prod.mk.inj he
      have hclient := projection_see ht
      exact hclient
    · obtain ⟨rfl, rfl⟩ := Prod.mk.inj (Option.some.inj h)
      rfl
  | request r =>
    simp only [step] at h
    split_ifs at h
    · exact projection_see h
    · obtain ⟨rfl, rfl⟩ := Prod.mk.inj (Option.some.inj h)
      rfl
  | reader temp =>
    simp only [step] at h
    split_ifs at h
    · exact projection_see h
    · obtain ⟨rfl, rfl⟩ := Prod.mk.inj (Option.some.inj h)
      rfl

variable (pf) in
/-- A request is answered, and changes neither the values nor what the client does next. -/
theorem see_request (s : Node L V) (r : Request V) : ∃ reply c,
    see pf s (.request r) = some (.seen (.request r) (.reply reply), { s with client := c }) ∧
      c.pc = s.client.pc ∧ c.object.heap = s.client.object.heap ∧
      server pf.lib s.client.object r = some (reply, c.object) := by
  obtain ⟨⟨reply, o⟩, hserver⟩ : ∃ p, server pf.lib s.client.object r = some p := by
    cases r <;> exact ⟨_, rfl⟩
  refine ⟨reply, { s.client with object := o }, ?_, rfl, ?_, hserver⟩
  · rw [see, clientStep, hserver]
    rfl
  · rcases server_state pf.lib hserver with ⟨i, -, rfl⟩ | ⟨-, rfl⟩
    · exact heap_delete pf.lib s.client.object i
    · rfl

/-- A Read gives zero when all values are zero. -/
theorem withoutReader_request [Zero V] {s : Node L V}
    (hzero : ∀ q, (s.client.object.heap q).sensorValue = 0) {r : Request V} {reply : Reply V}
    {o : ObjectState L V} (h : server pf.lib s.client.object r = some (reply, o)) :
    WithoutReader (.seen (.request r) (.reply reply)) := by
  cases r with
  | read i data =>
    intro reply' l hreply hl d hd hid
    obtain rfl := TemperatureReader.Effect.reply.inj hreply
    rw [server_read] at h
    obtain ⟨rfl, -⟩ := Prod.mk.inj (Option.some.inj h)
    obtain ⟨v, ids, hv, rfl⟩ := specRead_resources hl
    obtain ⟨q, -, rfl⟩ := Option.map_eq_some_iff.mp hv
    obtain ⟨id, -, rfl⟩ := List.mem_map.mp hd
    have hvalue : id = LWM2M_TEMP_RES_SENSOR_VALUE := hid
    rw [resource, if_pos hvalue, hzero]
  | _ => trivial

variable (pf) in
/-- The handle is looked up. -/
theorem see_lookup {s : Node L V} (h : s.client.pc = .lookup) : ∃ c,
    see pf s (.reader 0) = some (.seen (.reader 0) .started, { s with client := c }) ∧
      c.pc = .resetUri ∧ c.object = s.client.object := by
  refine ⟨{ s.client with
    tempInstance := pf.lib.find s.client.object.instanceList 0, pc := .resetUri }, ?_, rfl, rfl⟩
  simp only [see, clientStep, h, Option.map_some]

/-- A turn goes on in the history of the one start. -/
structure Advances [Zero V] (phase : Phase) (e : Effect V) (s' : Node L V) (phase' : Phase) :
    Prop where
  consistent : Consistent s' phase'
  history_eq : phase'.history = phase.history ++ e.milestones
  withoutReader : phase' ≠ .running → WithoutReader e

variable [Zero V]

theorem advances_quiet {s : Node L V} {phase : Phase} (h : Consistent s phase) :
    Advances phase .quiet s phase :=
  ⟨h, (List.append_nil _).symm, fun _ => trivial⟩

theorem advances_returned {s : Node L V} {phase : Phase} (h : Consistent s phase) (rc : ℕ)
    (out : Bytes) : Advances phase (.returned rc out) s phase :=
  ⟨h, (List.append_nil _).symm, fun _ => trivial⟩

theorem command_advances {s : Node L V} {phase : Phase} (h : Consistent s phase) (name : Bytes)
    (args : List Bytes) (runs : Bool) : ∃ e s' phase',
      step pf build s (.command name args runs) = some (e, s') ∧ Advances phase e s' phase' := by
  by_cases hprompt : s.shell = .prompt
  · rcases lwm2mCliCmd_cases s name args runs with
      ⟨hoff, hcmd⟩ | ⟨rc, out, hcmd⟩
    · obtain rfl : phase = .off := by
        have hfits := h.fits
        cases phase with
        | off => rfl
        | _ => exact absurd (hoff.symm.trans hfits.1) Bool.false_ne_true
      obtain ⟨-, -, hreader, hpc⟩ := h.fits
      refine ⟨.connected, _, .sensor, by rw [step, if_pos hprompt, hcmd], ?_, rfl,
        fun _ => trivial⟩
      exact ⟨⟨rfl, rfl, hreader, hpc⟩, fun _ => h.zero (by decide)⟩
    · exact ⟨_, _, phase, by rw [step, if_pos hprompt, hcmd], advances_returned h rc out⟩
  · exact ⟨_, _, phase, by rw [step, if_neg hprompt], advances_quiet h⟩

theorem shell_advances {s : Node L V} {phase : Phase} (h : Consistent s phase)
    (initialised : Bool) : ∃ e s' phase',
      step pf build s (.shell initialised) = some (e, s') ∧ Advances phase e s' phase' := by
  have hidle (hprompt : s.shell = .prompt) : ∃ e s' phase',
      step pf build s (.shell initialised) = some (e, s') ∧ Advances phase e s' phase' :=
    ⟨_, _, phase, by simp only [step, hprompt], advances_quiet h⟩
  have hfits := h.fits
  cases phase with
  | off => exact hidle hfits.2.1
  | running => exact hidle hfits.2.1
  | failed => exact hidle hfits.2.1
  | sensor =>
    obtain ⟨hconnected, hshell, hreader, hpc⟩ := hfits
    have hzero := h.zero (by decide)
    cases initialised with
    | true =>
      refine ⟨.sensorReady, _, .lookup, by simp [step, hshell]; rfl, ?_, rfl, fun _ => trivial⟩
      exact ⟨⟨hconnected, rfl, hreader, hpc⟩, fun _ => hzero⟩
    | false =>
      refine ⟨.sensorFailed _, _, .failed, by simp [step, hshell]; exact ⟨rfl, rfl⟩, ?_, rfl,
        fun _ => trivial⟩
      exact ⟨⟨hconnected, rfl, hreader, hpc⟩, fun _ => hzero⟩
  | lookup =>
    obtain ⟨hconnected, hshell, hreader, hpc⟩ := hfits
    obtain ⟨c, hsee, hresetUri, hobject⟩ := see_lookup pf hpc
    refine ⟨.seen (.reader 0) .started, _, .create,
      by simp only [step, hshell, hsee, Option.map_some]; rfl, ?_, rfl, fun _ => rfl⟩
    refine ⟨⟨hconnected, rfl, hreader, hresetUri⟩, fun _ => ?_⟩
    rw [hobject]
    exact h.zero (by decide)
  | create =>
    obtain ⟨hconnected, hshell, -, -⟩ := hfits
    refine ⟨.created, _, .running, by simp only [step, hshell]; rfl, ?_, rfl,
      fun hne => absurd rfl hne⟩
    exact ⟨⟨hconnected, rfl, rfl⟩, fun hne => absurd rfl hne⟩

theorem request_advances {s : Node L V} {phase : Phase} (h : Consistent s phase) (r : Request V) :
    ∃ e s' phase', step pf build s (.request r) = some (e, s') ∧ Advances phase e s' phase' := by
  by_cases hconnected : s.connected = true
  · obtain ⟨reply, c, hsee, hpc, hheap, hserver⟩ := see_request pf s r
    refine ⟨_, _, phase, by rw [step, if_pos hconnected, hsee], ⟨?_, fun hne => ?_⟩, ?_, ?_⟩
    · have hfits := h.fits
      cases phase with
      | running => exact hfits
      | _ => exact ⟨hfits.1, hfits.2.1, hfits.2.2.1, hpc.trans hfits.2.2.2⟩
    · rw [hheap]
      exact h.zero hne
    · exact (List.append_nil _).symm
    · intro hne
      exact withoutReader_request (h.zero hne) hserver
  · exact ⟨_, _, phase, by rw [step, if_neg hconnected], advances_quiet h⟩

theorem reader_advances {s : Node L V} {phase : Phase} (h : Consistent s phase) (temp : Int16) :
    ∃ e s' phase', step pf build s (.reader temp) = some (e, s') ∧ Advances phase e s' phase' := by
  by_cases hreader : s.reader = true
  · obtain rfl : phase = .running := by
      have hfits := h.fits
      cases phase with
      | running => rfl
      | _ => exact absurd (hfits.2.2.1.symm.trans hreader) Bool.false_ne_true
    obtain ⟨⟨eff, c⟩, hstep⟩ : ∃ p, clientStep pf s.client (.reader temp) = some p := by
      unfold clientStep
      cases s.client.pc <;> exact ⟨_, rfl⟩
    refine ⟨_, _, .running, by rw [step, if_pos hreader, see, hstep, Option.map_some], ?_, rfl,
      fun hne => absurd rfl hne⟩
    exact ⟨h.fits, fun hne => absurd rfl hne⟩
  · exact ⟨_, _, phase, by rw [step, if_neg hreader], advances_quiet h⟩

variable (pf build) in
theorem step_advances {s : Node L V} {phase : Phase} (h : Consistent s phase) (a : Action V) :
    ∃ e s' phase', step pf build s a = some (e, s') ∧ Advances phase e s' phase' := by
  cases a with
  | command name args runs => exact command_advances h name args runs
  | shell initialised => exact shell_advances h initialised
  | request r => exact request_advances h r
  | reader temp => exact reader_advances h temp

omit [Zero V] in
theorem history_length_lt {phase : Phase} (h : phase ≠ .running) : phase.history.length < 3 := by
  cases phase with
  | running => exact absurd rfl h
  | _ => decide

variable (pf build) in
theorem run_advances {s : Node L V} {phase : Phase} (h : Consistent s phase)
    (as : List (Action V)) : ∃ es s' phase', run (step pf build) s as = some (es, s') ∧
      Consistent s' phase' ∧ phase'.history = phase.history ++ es.flatMap Effect.milestones ∧
      (phase' ≠ .running → ∀ e ∈ es, WithoutReader e) := by
  induction as generalizing s phase with
  | nil => exact ⟨[], s, phase, rfl, h, (List.append_nil _).symm, by simp⟩
  | cons a as ih =>
    obtain ⟨e, s₁, phase₁, hstep, hadvances⟩ := step_advances pf build h a
    obtain ⟨es, s', phase', hrun, hs', hhistory, hwithout⟩ := ih hadvances.consistent
    refine ⟨e :: es, s', phase', run_cons hstep hrun, hs', ?_, fun hne => ?_⟩
    · rw [hhistory, hadvances.history_eq, List.flatMap_cons, List.append_assoc]
    · -- A phase that leads to another one than the last is no last phase itself.
      have hfirst : phase₁ ≠ .running := by
        rintro rfl
        have hlength := congrArg List.length hhistory
        have hshort := history_length_lt hne
        have hlong : Phase.running.history.length = 3 := rfl
        rw [List.length_append] at hlength
        omega
      exact List.forall_mem_cons.mpr ⟨hadvances.withoutReader hfirst, hwithout hne⟩

theorem consistent_boot (p : Ptr) : Consistent (boot pf p) .off :=
  ⟨⟨rfl, rfl, rfl, rfl⟩, fun _ _ => rfl⟩

/-- What happens in a session is the beginning of one start, whatever is typed, returned and
requested: the client, the sensor and the thread are started at most once each. The steps
at the object and through the handle are a run of the reader's client. Until the thread is
created, which is never when the sensor has failed, nothing is stored and a Read gives zero. -/
theorem session_starts_once (pf : Platform L V) (build : Build) (p : Ptr) (as : List (Action V)) :
    ∃ es s phase, run (step pf build) (boot pf p) as = some (es, s) ∧
      es.flatMap Effect.milestones = Phase.history phase ∧
      run (clientStep pf) (started pf p) (es.filterMap Effect.event) =
        some (es.filterMap Effect.answer, s.client) ∧
      (phase ≠ .running → ∀ e ∈ es, WithoutReader e) := by
  obtain ⟨es, s, phase, hrun, -, hhistory, hwithout⟩ :=
    run_advances pf build (consistent_boot p) as
  have hprojection : run (clientStep pf) (boot pf p).client (es.filterMap Effect.event) =
      some (es.filterMap Effect.answer, s.client) :=
    run_projection (fun _ _ _ _ hstep => projection_step hstep) hrun
  exact ⟨es, s, phase, hrun, hhistory.symm, hprojection, hwithout⟩

end IotLabTraining.Lwm2mShell
