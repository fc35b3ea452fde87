import IotLabTraining.AutoadvShell

/-!
# From the shells of the nodes to the plotted values

Nodes advertise what is typed at their shells, one more node scans them and the devices of
others with `scan json`, and the notebook reads its serial log. A scan list has at most one
entry for each device; the same node stands in the lists of several cycles, each time behind
as much of its session as it has performed by then.
-/
namespace IotLabTraining.BleScan
open AdFields Advertising AutoadvShell Json Runs ScanLog ScanReport
open ScanShell (Board cmdScan scanCycles scanTimeOut)

/-- A node behind a session at its shell, with advertising active. -/
structure Advertiser where
  nim : Nimble
  flags : UInt8
  flagged : Flagged nim flags
  board : Board
  commands : List Command
  replies : List Reply
  state : State
  session : run (shellStep nim board) (initial nim) commands = some (replies, state)
  active : state.active = true
  adv : Advertisement
  adv_eq : state.adv = some adv

/-- The last name that its stack accepted. -/
def Advertiser.name (a : Advertiser) : Bytes :=
  nameAfter a.nim.defaultName (a.commands.filterMap (Command.call a.board))

theorem Advertiser.advertises (a : Advertiser) :
    Advertises a.nim a.flags a.state a.adv.payload a.name :=
  advertises_of_session a.board a.flagged a.session a.active a.adv_eq

/-- An entry of a scan list, heard from a node or from another device. -/
inductive Heard where
  | node (a : Advertiser) (e : ScanlistEntry) (received : Received e a.adv.payload)
  | other (e : ScanlistEntry)

def Heard.entry : Heard → ScanlistEntry
  | .node _ e _ => e
  | .other e => e

/-- The name that was typed at the shell of the node, or what the device advertises. -/
def Heard.name (b : Bluetil) : Heard → Bytes
  | .node a _ _ => a.name
  | .other e => advertisedName b e

/-- What is heard from a node advertises the name of its shell. -/
theorem Heard.advertisedName_entry {b : Bluetil} (hfinds : FindsStr b) (h : Heard) :
    advertisedName b h.entry = h.name b := by
  cases h with
  | node a e he =>
    obtain ⟨hname, hnul, hconsists⟩ := a.advertises
    exact (advertisedName_of_received hfinds hnul he hconsists).trans hname
  | other e => rfl

/-! ## The scanning node and its log -/

/-- A command line `scan json`, what is heard in each cycle, and the serial log: the reports are
whole lines, and no other line is JSON. -/
structure Exercise where
  board : Board
  finds : FindsStr board.bluetil
  heard : ℕ → List Heard
  scanned_eq : ∀ i, board.scanned i = (heard i).map Heard.entry
  command : Bytes
  timeout : Bytes
  count : Bytes
  rest : List Bytes
  lines : List LogLine
  printed : (lines.filterMap LogLine.reported).map (· ++ [10]) =
    (cmdScan board (command :: ascii "json" :: timeout :: count :: rest)).events.filterMap
      ScanEvent.printed
  lf_notMem : ∀ t, LogLine.other t ∈ lines → 10 ∉ t
  other_rejected : ∀ t, LogLine.other t ∈ lines → ¬ IsJson t

/-- ASCII without control bytes, quotes and backslashes. -/
def Typed (name : Bytes) : Prop := Ascii name ∧ Plain name

instance (name : Bytes) : Decidable (Typed name) := inferInstanceAs (Decidable (_ ∧ _))

namespace Exercise
variable (x : Exercise)

def bytes : Bytes := x.lines.flatMap fun line => line.text ++ [10]

/-- The number of cycles that the command performs. -/
def cycles : ℕ := (scanCycles x.board x.count).toNat

/-- All that is heard, in order. -/
def allHeard : List Heard := (List.range x.cycles).flatMap x.heard

/-- The signal strengths of the devices of a name. -/
def samples (name : Key) : List Value :=
  (x.allHeard.filter fun h => Key.str (h.name x.board.bluetil) = name).map fun h =>
    .num h.entry.lastRssi.toInt 0

/-- The lines besides the reports that `json.loads` takes as they are decoded, and the reports
among them. -/
def noise : List Bytes := x.lines.filterMap LogLine.noise

def kept : List Bytes := x.lines.filterMap LogLine.kept

/-- The cells run through, and the dictionary holds the signal strengths of every name but the
one that stands for no name. -/
def Collects : Prop :=
  ∃ d, parsingCell (cleaningCell x.bytes) = some d ∧ ∀ name, d.lookup name =
    if name = .str (ascii "undefined") ∨ x.samples name = [] then none else some (x.samples name)

/-- The names that are heard are typed ones. -/
def AllTyped : Prop := ∀ h ∈ x.allHeard, Typed (h.name x.board.bluetil)

theorem mem_allHeard {i : ℕ} (hi : i < x.cycles) {h : Heard} (hh : h ∈ x.heard i) :
    h ∈ x.allHeard :=
  List.mem_flatMap.mpr ⟨i, List.mem_range.mpr hi, hh⟩

/-- The names of an entry that is scanned. -/
theorem forall_scanned {p : Bytes → Prop} (hp : ∀ h ∈ x.allHeard, p (h.name x.board.bluetil))
    {i : ℕ} (hi : i < x.cycles) :
    ∀ e ∈ x.board.scanned i, p (advertisedName x.board.bluetil e) := by
  intro e he
  rw [x.scanned_eq] at he
  obtain ⟨h, hh, rfl⟩ := List.mem_map.mp he
  rw [h.advertisedName_entry x.finds]
  exact hp h (x.mem_allHeard hi hh)

/-- The scan as one command of the log. -/
def scanCommand : ScanCommand :=
  ⟨scanTimeOut x.board x.timeout, scanCycles x.board x.count, x.board.scanned⟩

theorem printed_eq : (x.lines.filterMap LogLine.reported).map (· ++ [10]) =
    [x.scanCommand].flatMap fun c =>
      (c.events x.board.bluetil).filterMap ScanEvent.printed := by
  rw [x.printed, List.flatMap_singleton]
  rfl

/-- A report is the line of a cycle. -/
theorem exists_cycle {t : Bytes} (ht : LogLine.report t ∈ x.lines) :
    ∃ i < x.cycles, t = reportText x.board.bluetil (x.board.scanned i) := by
  have hmem : t ++ [10] ∈ (x.lines.filterMap LogLine.reported).map (· ++ [10]) :=
    List.mem_map_of_mem (List.mem_filterMap.mpr ⟨_, ht, rfl⟩)
  rw [x.printed_eq, List.flatMap_singleton, RawLog.printed_events] at hmem
  obtain ⟨i, hi, he⟩ := List.mem_map.mp hmem
  have hline : t ++ [10] = reportText x.board.bluetil (x.board.scanned i) ++ [10] := by
    rw [← he]
    exact scanlistJsonPrint_eq x.board.bluetil (x.board.scanned i)
  exact ⟨i, List.mem_range.mp hi, List.append_cancel_right hline⟩

/-- With typed names the log is one that the cells are made for. -/
def rawLog (h : x.AllTyped) : RawLog x.board.bluetil where
  commands := [x.scanCommand]
  lines := x.lines
  lf_notMem := by
    intro line hline
    cases line with
    | other t => exact x.lf_notMem t hline
    | report t =>
      obtain ⟨i, hi, rfl⟩ := x.exists_cycle hline
      change 10 ∉ reportText _ _
      rw [mem_reportText_iff (by decide)]
      intro hlf
      obtain ⟨e, he, hmem⟩ := hlf
      exact absurd (x.forall_scanned (fun a ha => (h a ha).2) hi e he 10 hmem).1 (by decide)
  printed := x.printed_eq
  report_valid := by
    intro t ht
    obtain ⟨i, hi, rfl⟩ := x.exists_cycle ht
    refine ⟨ascii_reportText (x.forall_scanned (fun a ha => (h a ha).1) hi), ?_⟩
    rw [nodesOf_reportText (x.forall_scanned (fun a ha => (h a ha).2) hi)]
    rfl
  other_rejected := x.other_rejected

/-! ## What the notebook collects -/

variable {x}

theorem reports_rawLog (h : x.AllTyped) : (x.rawLog h).reports =
    (List.range x.cycles).map fun i => reportText x.board.bluetil (x.board.scanned i) := by
  rw [RawLog.reports_eq]
  exact List.flatMap_singleton ..

/-- The entries of the report of a cycle. -/
theorem nodesOf_cycle (h : x.AllTyped) {i : ℕ} (hi : i < x.cycles) :
    nodesOf (reportText x.board.bluetil (x.board.scanned i)) =
      some ((x.board.scanned i).map (entryValue x.board.bluetil)) :=
  nodesOf_reportText (x.forall_scanned (fun a ha => (h a ha).2) hi)

theorem entries_rawLog (h : x.AllTyped) : (x.rawLog h).entries = x.allHeard.map fun a =>
    (Key.str (a.name x.board.bluetil), Value.num a.entry.lastRssi.toInt 0) := by
  rw [RawLog.entries, reports_rawLog, List.flatMap_map, allHeard, List.map_flatMap]
  apply List.flatMap_congr
  intro i hi
  rw [nodesOf_cycle h (List.mem_range.mp hi), Option.getD_some, filterMap_entryOf, x.scanned_eq,
    List.map_map]
  apply List.map_congr_left
  intro a _
  exact Prod.ext (congrArg Key.str (a.advertisedName_entry x.finds)) rfl

theorem valuesOf_rawLog (h : x.AllTyped) (name : Key) :
    valuesOf (x.rawLog h).entries name = x.samples name := by
  rw [entries_rawLog, valuesOf, List.filter_map, List.map_map]
  rfl

theorem collects_iff_works (h : x.AllTyped) : x.Collects ↔ (x.rawLog h).Works := by
  unfold Collects RawLog.Works RawLog.rssiOf
  simp only [valuesOf_rawLog]
  rfl

/-- Each entry of a report of typed names is taken. -/
theorem taken_reports (h : x.AllTyped) {t : Bytes} (ht : t ∈ (x.rawLog h).reports) : Taken t := by
  rw [RawLog.taken_report _ ht]
  rw [reports_rawLog] at ht
  obtain ⟨i, hi, rfl⟩ := List.mem_map.mp ht
  rw [nodesOf_cycle h (List.mem_range.mp hi), Option.getD_some]
  intro node hnode
  obtain ⟨e, -, rfl⟩ := List.mem_map.mp hnode
  exact recorded_entryValue _ e

theorem collects_iff_kept (h : x.AllTyped) :
    x.Collects ↔ LineByLine x.kept ∧ ∀ t ∈ x.noise, Silent t := by
  rw [collects_iff_works h, RawLog.works_iff_kept]
  constructor
  · intro hworks
    obtain ⟨hlines, -, hsilent⟩ := hworks
    exact ⟨hlines, hsilent⟩
  · intro hworks
    obtain ⟨hlines, hsilent⟩ := hworks
    refine ⟨hlines, fun t ht => ?_, hsilent⟩
    rcases (RawLog.mem_kept _).mp ht with hr | hn
    · exact taken_reports h hr
    · exact (hsilent t hn).taken

/-- Reports of typed names are parted when there is at most one. -/
theorem lineByLine_kept (h : x.AllTyped) (hnoise : x.noise = []) :
    LineByLine x.kept ↔ x.cycles ≤ 1 := by
  change LineByLine (x.rawLog h).kept ↔ _
  rw [(x.rawLog h).kept_of_noise hnoise, RawLog.lineByLine_reports, RawLog.cr_notMem_reports,
    reports_rawLog, List.length_map, List.length_range]
  apply and_iff_left
  intro c hc i hi e he hcr
  obtain rfl := List.mem_singleton.mp hc
  have hplain := x.forall_scanned (fun a ha => (h a ha).2) hi e he
  exact absurd (hplain 13 hcr).1 (by decide)

/-- The number of cycles is kept in 16 bits. -/
theorem cycles_eq {n : ℕ} (hn : readDigits x.count = some n) (hfits : n < 2 ^ 31) :
    x.cycles = n % 2 ^ 16 := by
  have hcast : ((n : ℤ) % 65536).toNat = n % 65536 := by omega
  rw [cycles, scanCycles, ScanShell.atoi32_toInt hn hfits, GcoapClient.toUint16, hcast]
  exact UInt16.toNat_ofNat_of_lt' (Nat.mod_lt n (by decide))

/-- Whatever is typed at the shells of the nodes, whatever else is in the air and in the log: if
the names are typed ones, the notebook collects the signal strengths of the nodes by the names
of their shells exactly when the CR bytes of what is kept part its documents and no line that
is kept besides the reports has an entry with a name. Where `json.loads` takes no such line,
that is when the number of cycles is at most one behind its cut to 16 bits. -/
theorem collects_iff (x : Exercise) {n : ℕ} (hn : readDigits x.count = some n)
    (hfits : n < 2 ^ 31) (htyped : x.AllTyped) :
    (x.Collects ↔ LineByLine x.kept ∧ ∀ t ∈ x.noise, Silent t) ∧
      (x.noise = [] → (x.Collects ↔ n % 2 ^ 16 ≤ 1)) := by
  refine ⟨collects_iff_kept htyped, fun hnoise => ?_⟩
  rw [collects_iff_kept htyped, lineByLine_kept htyped hnoise, hnoise, cycles_eq hn hfits]
  simp

end Exercise
/-! ## Two nodes -/

/-- A node that was given a name and started. -/
def namedAdvertiser : Advertiser where
  nim := legacyNimble
  flags := 6
  flagged := legacyNimble_flagged
  board := ScanShell.quietBoard
  commands := [⟨[ascii "autoadv", ascii "name", ascii "node-1"], true⟩,
    ⟨[ascii "autoadv", ascii "start"], true⟩]
  replies := _
  state := _
  session := rfl
  active := rfl
  adv := _
  adv_eq := rfl

/-- A node that was started with the name of its stack. -/
def defaultAdvertiser : Advertiser where
  nim := legacyNimble
  flags := 6
  flagged := legacyNimble_flagged
  board := ScanShell.quietBoard
  commands := [⟨[ascii "autoadv", ascii "start"], true⟩]
  replies := _
  state := _
  session := rfl
  active := rfl
  adv := _
  adv_eq := rfl

def heardFrom (a : Advertiser) (h : a.adv.payload.length < 256) : Heard :=
  .node a (TxPower.entryOf a.adv.payload) (received_entryOf h)

theorem namedAdvertiser_fits : namedAdvertiser.adv.payload.length < 256 := by decide

theorem defaultAdvertiser_fits : defaultAdvertiser.adv.payload.length < 256 := by decide

def scanning : Board := { ScanShell.quietBoard with
  scanned := fun _ => [TxPower.entryOf namedAdvertiser.adv.payload,
    TxPower.entryOf defaultAdvertiser.adv.payload] }

/-- The echo of the command, and one cycle. -/
def scanningLog : List LogLine :=
  [.other (ascii "> scan json 100 1"), .report (reportText walkBluetil
    [TxPower.entryOf namedAdvertiser.adv.payload, TxPower.entryOf defaultAdvertiser.adv.payload])]

theorem scanningLog_printed : (scanningLog.filterMap LogLine.reported).map (· ++ [10]) =
    (cmdScan scanning [ascii "scan", ascii "json", ascii "100", ascii "1"]).events.filterMap
      ScanEvent.printed := by
  change [_ ++ [10]] = [scanlistJsonPrint _ _]
  rw [scanlistJsonPrint_eq]
  rfl

theorem scanningLog_other {t : Bytes} (ht : LogLine.other t ∈ scanningLog) :
    t = ascii "> scan json 100 1" := by
  simpa only [scanningLog, List.mem_cons, LogLine.other.injEq, List.not_mem_nil, or_false,
    reduceCtorEq] using ht

theorem scanningLog_notMem (t : Bytes) (ht : LogLine.other t ∈ scanningLog) : 10 ∉ t := by
  rw [scanningLog_other ht]
  decide

theorem scanningLog_rejected (t : Bytes) (ht : LogLine.other t ∈ scanningLog) : ¬ IsJson t := by
  intro hjson
  rw [scanningLog_other ht] at hjson
  exact absurd hjson.2 (by decide +kernel)

theorem scanningLog_noise : scanningLog.filterMap LogLine.noise = [] := by
  have hecho : loads (readDecoded (ascii "> scan json 100 1")) = none := by
    rw [← Option.isNone_iff_eq_none]
    decide +kernel
  simp [scanningLog, LogLine.noise, hecho]

/-- One cycle in which both nodes are heard. -/
def twoNodes : Exercise where
  board := scanning
  finds := walkBluetil_findsStr
  heard _ := [heardFrom namedAdvertiser namedAdvertiser_fits,
    heardFrom defaultAdvertiser defaultAdvertiser_fits]
  scanned_eq _ := rfl
  command := ascii "scan"
  timeout := ascii "100"
  count := ascii "1"
  rest := []
  lines := scanningLog
  printed := scanningLog_printed
  lf_notMem := scanningLog_notMem
  other_rejected := scanningLog_rejected

theorem twoNodes_collects : twoNodes.Collects := by
  have htyped : twoNodes.AllTyped := by
    unfold Exercise.AllTyped
    decide +kernel
  exact ((twoNodes.collects_iff (n := 1) (by decide) (by decide) htyped).2
    scanningLog_noise).mpr (by decide)

end IotLabTraining.BleScan
