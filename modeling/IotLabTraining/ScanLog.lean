import IotLabTraining.JsonLines
import IotLabTraining.ScanReport

/-!
# From the scan loop to the plotted values

The firmware loop `ble_rss_scan` prints one report for each cycle, a serial log
mixes them with other lines, and two notebook cells clean the log and collect
the signal strengths by device name. A cell returns `none` where Python raises;
the limits of the interpreter on nesting and on digits are not modelled, and
numbers are not rounded.
-/
namespace IotLabTraining.ScanLog
open Json ScanReport

/-! ## The scan loop -/

inductive ScanEvent where
  | clear
  | start
  | sleep (usec : UInt32)
  | stop
  | print (text : Bytes)

def ScanEvent.printed : ScanEvent → Option Bytes
  | .print text => some text
  | _ => none

inductive BleScanOutputFmt where
  | txt
  | json

/-- `ble_rss_scan`; `scanned i` is the scan list at the end of cycle `i`, and
`scanlistPrint` is RIOT's own listing. -/
def bleRssScan (b : Bluetil) (scanlistPrint : List ScanlistEntry → Bytes)
    (scanned : ℕ → List ScanlistEntry) (scanTimeOut : UInt32) (scanCycles : UInt16)
    (outputFormat : BleScanOutputFmt) : List ScanEvent :=
  (List.range scanCycles.toNat).flatMap fun i =>
    [.clear, .start, .sleep scanTimeOut, .stop,
      .print (match outputFormat with
        | .json => scanlistJsonPrint b (scanned i)
        | .txt => scanlistPrint (scanned i))]

/-! ## The cells -/

/-- `json.loads` on a line of text. -/
def loads (line : Bytes) : Option Value := parse true line

/-- The byte-wise `decode()`: a byte that is no character of its own is skipped. -/
def readDecoded (raw : Bytes) : Bytes := raw.filter (fun c => c < 128)

/-- The cleaning cell: what it writes to `scan_clean.log`. -/
def cleaningCell (raw : Bytes) : Bytes :=
  (((readDecoded raw).splitOn 10).filter fun line => (loads line).isSome).flatten

/-- `v[k]` with a string key; of equal keys in the text the last one counts. -/
def getItem (v : Value) (k : Bytes) : Option Value :=
  match v with
  | .obj ms => (ms.reverse.find? fun m => m.1 = k).map Prod.snd
  | _ => none

/-- What a `for` loop runs over. The characters of a string and the keys of a
dictionary are strings and have no items, so the first one ends the cell. -/
def iterate : Value → Option (List Value)
  | .arr vs => some vs
  | .obj [] => some []
  | .str [] => some []
  | _ => none

/-- A key of a dictionary. Numbers that are equal are one key, `true` and `1` too. -/
inductive Key where
  | null
  | num (q : ℚ)
  | special (name : Bytes)
  | str (s : Bytes)
  deriving DecidableEq

/-- Lists and dictionaries are not hashable. -/
def keyOf : Value → Option Key
  | .null => some .null
  | .bool b => some (.num (if b then 1 else 0))
  | .num m e => some (.num (m * 10 ^ e))
  | .special name => some (.special name)
  | .str s => some (.str s)
  | .arr _ => none
  | .obj _ => none

/-- The comparison with the string that stands for no name. -/
def isUndefined : Value → Bool
  | .str s => s = ascii "undefined"
  | _ => false

/-- A dictionary from device names to lists of values. -/
abbrev NodeData := AList fun _ : Key => List Value

def addRssi (d : NodeData) (name : Key) (rssi : Value) : NodeData :=
  match d.lookup name with
  | some l => d.insert name (l ++ [rssi])
  | none => d.insert name [rssi]

/-- The body of the inner loop. -/
def addNode (d : NodeData) (node : Value) : Option NodeData := do
  let name ← getItem node (ascii "name")
  if isUndefined name then return d
  let rssi ← getItem node (ascii "last_rssi")
  return addRssi d (← keyOf name) rssi

def addLine (d : NodeData) (line : Bytes) : Option NodeData := do
  let lineDict ← loads line
  let nodes ← getItem lineDict (ascii "nodes")
  (← iterate nodes).foldlM addNode d

/-- The parsing cell on the text of `scan_clean.log`. -/
def parsingCell (clean : Bytes) : Option NodeData :=
  (readlines (universalNewlines false clean)).foldlM addLine ∅

/-! ## Logs -/

/-- The name and the `last_rssi` of an entry of a report. -/
def entryOf (node : Value) : Option (Key × Value) := do
  let name ← getItem node (ascii "name")
  return (← keyOf name, ← getItem node (ascii "last_rssi"))

/-- The values of a name in order. -/
def valuesOf (es : List (Key × Value)) (name : Key) : List Value :=
  (es.filter fun e => e.1 = name).map Prod.snd

/-- The array of a document `{"nodes": [...]}`. -/
def reportNodes : Value → Option (List Value)
  | .obj [(k, .arr vs)] => if k = ascii "nodes" then some vs else none
  | _ => none

/-- The entries of a line that is one RFC 8259 document of the form of a report. -/
def nodesOf (line : Bytes) : Option (List Value) := (parse false line).bind reportNodes

/-- An RFC 8259 text. -/
def IsJson (line : Bytes) : Prop := Utf8 line ∧ (parse false line).isSome = true

inductive LogLine where
  | report (text : Bytes)
  | other (text : Bytes)

def LogLine.text : LogLine → Bytes
  | .report text => text
  | .other text => text

def LogLine.reported : LogLine → Option Bytes
  | .report text => some text
  | .other _ => none

/-- What the cleaning cell reads of a line that is no report, where `json.loads` takes it. -/
def LogLine.noise : LogLine → Option Bytes
  | .report _ => none
  | .other text => if (loads (readDecoded text)).isSome then some (readDecoded text) else none

/-- A report, or such a line. -/
def LogLine.kept (line : LogLine) : Option Bytes := line.reported <|> line.noise

/-- One call of `ble_rss_scan` with JSON output. -/
structure ScanCommand where
  scanTimeOut : UInt32
  scanCycles : UInt16
  scanned : ℕ → List ScanlistEntry

def ScanCommand.events (c : ScanCommand) (b : Bluetil) : List ScanEvent :=
  bleRssScan b (fun _ => []) c.scanned c.scanTimeOut c.scanCycles .json

/-- A raw log: LF-terminated lines, where the reports that the scan commands
print are whole lines of ASCII JSON of the form of a report, and no other line
is JSON. -/
structure RawLog (b : Bluetil) where
  commands : List ScanCommand
  lines : List LogLine
  lf_notMem : ∀ line ∈ lines, 10 ∉ line.text
  printed : (lines.filterMap LogLine.reported).map (· ++ [10]) =
    commands.flatMap fun c => (c.events b).filterMap ScanEvent.printed
  report_valid : ∀ t, LogLine.report t ∈ lines → Ascii t ∧ (nodesOf t).isSome = true
  other_rejected : ∀ t, LogLine.other t ∈ lines → ¬ IsJson t

namespace RawLog
variable {b : Bluetil} (log : RawLog b)

def bytes : Bytes := log.lines.flatMap fun line => line.text ++ [10]

def reports : List Bytes := log.lines.filterMap LogLine.reported

def noise : List Bytes := log.lines.filterMap LogLine.noise

/-- The lines that are documents for `json.loads`, as they are decoded. -/
def kept : List Bytes := log.lines.filterMap LogLine.kept

/-- All entries of all reports, in the order they were printed. -/
def entries : List (Key × Value) :=
  log.reports.flatMap fun t => ((nodesOf t).getD []).filterMap entryOf

/-- What the dictionary has to hold for a name. -/
def rssiOf (name : Key) : Option (List Value) :=
  if name = .str (ascii "undefined") ∨ valuesOf log.entries name = [] then none
  else some (valuesOf log.entries name)

/-- Both cells run through, and the dictionary is the one of all reports. -/
def Works : Prop :=
  ∃ d, parsingCell (cleaningCell log.bytes) = some d ∧ ∀ name, d.lookup name = log.rssiOf name

end RawLog

/-- An entry that the parsing cell passes over. -/
def Undefined (node : Value) : Prop := (getItem node (ascii "name")).any isUndefined = true

/-- An entry that it takes, with a key for a name. -/
def Recorded (node : Value) : Prop := Undefined node ∨ (entryOf node).isSome = true

/-- What the outer loop of the parsing cell finds in a line. -/
def lineNodes (line : Bytes) : Option (List Value) := do
  let lineDict ← loads line
  iterate (← getItem lineDict (ascii "nodes"))

/-- A document that the parsing cell takes nothing from. -/
def Silent (line : Bytes) : Prop := ∃ vs, lineNodes line = some vs ∧ ∀ node ∈ vs, Undefined node

/-! ## The cleaning cell keeps the documents, end to end -/

theorem readDecoded_ascii {t : Bytes} (h : Ascii t) : readDecoded t = t := by
  apply List.filter_eq_self.mpr
  intro c hc
  exact decide_eq_true (h c hc)

theorem readDecoded_append (s t : Bytes) :
    readDecoded (s ++ t) = readDecoded s ++ readDecoded t := List.filter_append ..

theorem loads_nil : loads [] = none := by decide

theorem loads_of_nodesOf {t : Bytes} {vs : List Value} (h : nodesOf t = some vs) :
    loads t = some (.obj [(ascii "nodes", .arr vs)]) := by
  obtain ⟨doc, hdoc, hvs⟩ := Option.bind_eq_some_iff.mp h
  unfold reportNodes at hvs
  split at hvs
  · split_ifs at hvs with hk
    obtain rfl := Option.some.inj hvs
    obtain rfl := hk
    exact parse_python hdoc
  · cases hvs

theorem lineNodes_of_nodesOf {t : Bytes} {vs : List Value} (h : nodesOf t = some vs) :
    lineNodes t = some vs := by
  rw [lineNodes, loads_of_nodesOf h]
  simp [getItem, iterate]

theorem splitOn_lines {ls : List Bytes} (h : ∀ l ∈ ls, 10 ∉ l) :
    (ls.flatMap fun l => l ++ [10]).splitOn 10 = ls ++ [[]] := by
  induction ls with
  | nil => rfl
  | cons l ls ih =>
    rw [List.forall_mem_cons] at h
    rw [List.flatMap_cons, List.append_assoc, List.singleton_append,
      List.splitOn_append_cons_self_of_not_mem h.1, ih h.2, List.cons_append]

namespace RawLog
variable {b : Bluetil} (log : RawLog b)

theorem readDecoded_bytes :
    readDecoded log.bytes =
      (log.lines.map fun l => readDecoded l.text).flatMap fun l => l ++ [10] := by
  have hlf : readDecoded [10] = [10] := rfl
  unfold bytes
  induction log.lines with
  | nil => rfl
  | cons l ls ih =>
    simp only [List.flatMap_cons, readDecoded_append, ih, hlf, List.map_cons]

/-- The test of the cell keeps the reports, each as it was printed. -/
theorem filter_lines {ls : List LogLine} (h : ls ⊆ log.lines) :
    (ls.map fun l => readDecoded l.text).filter (fun line => (loads line).isSome) =
      ls.filterMap LogLine.kept := by
  induction ls with
  | nil => rfl
  | cons l ls ih =>
    obtain ⟨hl, hls⟩ := List.cons_subset.mp h
    rw [List.map_cons, List.filter_cons, ih hls, List.filterMap_cons]
    cases l with
    | report t =>
      obtain ⟨hascii, hvalid⟩ := log.report_valid t hl
      obtain ⟨vs, hvs⟩ := Option.isSome_iff_exists.mp hvalid
      rw [LogLine.text, readDecoded_ascii hascii, loads_of_nodesOf hvs]
      rfl
    | other t =>
      rw [LogLine.text]
      by_cases hload : (loads (readDecoded t)).isSome = true
      · simp [LogLine.kept, LogLine.reported, LogLine.noise, hload]
      · simp [LogLine.kept, LogLine.reported, LogLine.noise, hload]

theorem cleaningCell_bytes : cleaningCell log.bytes = log.kept.flatten := by
  have hlf : ∀ l ∈ log.lines.map fun l => readDecoded l.text, 10 ∉ l := by
    intro t ht
    obtain ⟨l, hl, rfl⟩ := List.mem_map.mp ht
    exact fun hmem => log.lf_notMem l hl (List.mem_filter.mp hmem).1
  have hempty : [([] : Bytes)].filter (fun line => (loads line).isSome) = [] := by
    rw [List.filter_cons_of_neg (by rw [loads_nil]; simp), List.filter_nil]
  rw [cleaningCell, readDecoded_bytes, splitOn_lines hlf, List.filter_append,
    log.filter_lines (fun _ => id), hempty, List.append_nil, kept]

/-- What is kept is a document, and one line of the log. -/
theorem loads_kept {t : Bytes} (h : t ∈ log.kept) : (loads t).isSome = true ∧ 10 ∉ t := by
  obtain ⟨l, hl, ht⟩ := List.mem_filterMap.mp h
  cases l with
  | report t' =>
    obtain rfl := Option.some.inj ht
    obtain ⟨vs, hvs⟩ := Option.isSome_iff_exists.mp (log.report_valid _ hl).2
    rw [loads_of_nodesOf hvs]
    exact ⟨rfl, log.lf_notMem _ hl⟩
  | other t' =>
    change LogLine.noise (.other t') = some t at ht
    rw [LogLine.noise] at ht
    split_ifs at ht with hload
    obtain rfl := Option.some.inj ht
    exact ⟨hload, fun hmem => log.lf_notMem _ hl (List.mem_filter.mp hmem).1⟩

theorem mem_reports {t : Bytes} : t ∈ log.reports ↔ LogLine.report t ∈ log.lines := by
  unfold reports
  rw [List.mem_filterMap]
  constructor
  · rintro ⟨l, hl, ht⟩
    cases l with
    | report t' =>
      obtain rfl := Option.some.inj ht
      exact hl
    | other t' => cases ht
  · exact fun h => ⟨_, h, rfl⟩

theorem printed_events (c : ScanCommand) : (c.events b).filterMap ScanEvent.printed =
    (List.range c.scanCycles.toNat).map fun i => scanlistJsonPrint b (c.scanned i) := by
  unfold ScanCommand.events bleRssScan
  induction List.range c.scanCycles.toNat with
  | nil => rfl
  | cons i l ih =>
    rw [List.flatMap_cons, List.filterMap_append, ih]
    rfl

/-- The reports are the lines that the cycles of all commands print. -/
theorem reports_eq : log.reports = log.commands.flatMap fun c =>
    (List.range c.scanCycles.toNat).map fun i => reportText b (c.scanned i) := by
  have hlf : Function.Injective fun t : Bytes => t ++ [10] := fun _ _ => List.append_cancel_right
  apply hlf.list_map
  rw [reports, log.printed, List.map_flatMap]
  apply List.flatMap_congr
  intro c _
  rw [printed_events, List.map_map]
  apply List.map_congr_left
  intro i _
  exact scanlistJsonPrint_eq b (c.scanned i)

theorem reports_length :
    log.reports.length = (log.commands.map fun c => c.scanCycles.toNat).sum := by
  simp [reports_eq, List.length_flatMap]

theorem exists_of_mem_reports {t : Bytes} (h : t ∈ log.reports) :
    ∃ c ∈ log.commands, ∃ i < c.scanCycles.toNat, t = reportText b (c.scanned i) := by
  rw [reports_eq, List.mem_flatMap] at h
  obtain ⟨c, hc, ht⟩ := h
  obtain ⟨i, hi, rfl⟩ := List.mem_map.mp ht
  exact ⟨c, hc, i, List.mem_range.mp hi, rfl⟩

end RawLog

theorem mem_entry_iff {c : UInt8} (hc : c < 32) (b : Bluetil) (e : ScanlistEntry) :
    c ∈ scanlistJsonPrintEntry b e ↔ c ∈ advertisedName b e := by
  obtain ⟨pre, post, he, hpre, hpost⟩ := scanlistJsonPrintEntry_printable b e
  have hout : ∀ t, Printable t → c ∉ t := fun t ht hmem => absurd (ht c hmem).1 (by simpa using hc)
  have hquote : c ≠ 34 := by rintro rfl; exact absurd hc (by decide)
  rw [he, deviceName_eq, List.mem_append, List.mem_append, List.mem_cons]
  simp [hout pre hpre, hout post hpost, hquote]

theorem reportText_split (b : Bluetil) (l : List ScanlistEntry) : reportText b l =
    (123 :: 34 :: (ascii "nodes" ++ [34, 58, 32, 91])) ++ printEntries b l ++ [93, 125] := by
  simp [reportText, memberText]

/-- A control byte of a report stands in a name. -/
theorem mem_reportText_iff {c : UInt8} (hc : c < 32) (b : Bluetil) (l : List ScanlistEntry) :
    c ∈ reportText b l ↔ ∃ e ∈ l, c ∈ advertisedName b e := by
  have hout : ∀ t, Printable t → c ∉ t := fun t ht hmem => absurd (ht c hmem).1 (by simpa using hc)
  have hentries : c ∈ printEntries b l ↔ ∃ e ∈ l, c ∈ advertisedName b e := by
    induction l with
    | nil => simp [printEntries]
    | cons e l ih =>
      have hsep : c ∉ (if l ≠ [] then ascii ", " else []) := by
        apply hout
        split_ifs <;> decide
      rw [printEntries, List.mem_append, List.mem_append, mem_entry_iff hc, ih, or_iff_left hsep]
      simp
  have hopen : c ∉ (123 :: 34 :: (ascii "nodes" ++ [34, 58, 32, 91])) := hout _ (by decide)
  have hclose : c ∉ ([93, 125] : Bytes) := hout _ (by decide)
  rw [reportText_split, List.mem_append, List.mem_append, hentries]
  simp [hopen, hclose]

namespace RawLog
variable {b : Bluetil} (log : RawLog b)

theorem cr_notMem_reports : (∀ t ∈ log.reports, 13 ∉ t) ↔
    ∀ c ∈ log.commands, ∀ i < c.scanCycles.toNat, ∀ e ∈ c.scanned i, 13 ∉ advertisedName b e := by
  have hreport (l : List ScanlistEntry) :
      13 ∉ reportText b l ↔ ∀ e ∈ l, 13 ∉ advertisedName b e := by
    rw [mem_reportText_iff (by decide)]
    simp
  rw [reports_eq]
  simp only [List.mem_flatMap, List.mem_map, List.mem_range]
  constructor
  · intro h c hc i hi
    exact (hreport _).mp (h _ ⟨c, hc, i, hi, rfl⟩)
  · rintro h t ⟨c, hc, i, hi, rfl⟩
    exact (hreport _).mpr (h c hc i hi)

/-- A report begins and ends with the braces of its document. -/
theorem braces_of_mem_reports {t : Bytes} (h : t ∈ log.reports) :
    t.head? = some 123 ∧ t.getLast? = some 125 := by
  obtain ⟨c, -, i, -, rfl⟩ := log.exists_of_mem_reports h
  exact ⟨rfl, by simp [reportText, List.getLast?_cons]⟩

end RawLog

/-! ## The parsing cell reads documents -/

/-- The outer loop behind `json.loads`. -/
def addDoc (d : NodeData) (doc : Value) : Option NodeData := do
  (← iterate (← getItem doc (ascii "nodes"))).foldlM addNode d

/-- A line that is no object ends the cell. -/
theorem addLine_eq (d : NodeData) (line : Bytes) :
    addLine d line = (parseObject true line).bind (addDoc d) := by
  unfold addLine parseObject addDoc
  rw [loads]
  cases parse true line with
  | none => rfl
  | some v => cases v <;> rfl

theorem foldlM_addLine (ls : List Bytes) (d : NodeData) :
    ls.foldlM addLine d = (ls.mapM (parseObject true)).bind fun vs => vs.foldlM addDoc d := by
  induction ls generalizing d with
  | nil => rfl
  | cons l ls ih =>
    rw [List.foldlM_cons, addLine_eq, List.mapM_cons]
    cases parseObject true l with
    | none => rfl
    | some v =>
      simp only [Option.bind_eq_bind, Option.bind_some, Option.pure_def]
      cases hd : addDoc d v with
      | none =>
        cases ls.mapM (parseObject true) <;> simp [hd]
      | some d' =>
        rw [Option.bind_some, ih]
        cases ls.mapM (parseObject true) <;> simp [hd]

/-- Documents behind one another are read in turn where the CR bytes part them. -/
theorem parsingCell_flatten {ts : List Bytes} (hts : ∀ t ∈ ts, (loads t).isSome = true ∧ 10 ∉ t)
    {d : NodeData} :
    parsingCell ts.flatten = some d ↔ LineByLine ts ∧ ts.foldlM addLine ∅ = some d := by
  rw [parsingCell, foldlM_addLine, foldlM_addLine, Option.bind_eq_some_iff,
    Option.bind_eq_some_iff]
  constructor
  · intro h
    obtain ⟨vs, hvs, hd⟩ := h
    obtain ⟨hlines, hmap⟩ :=
      (objectLines_flatten (fun t ht => (hts t ht).1) fun t ht => (hts t ht).2).mp hvs
    exact ⟨hlines, vs, hmap, hd⟩
  · intro h
    obtain ⟨hlines, vs, hmap, hd⟩ := h
    exact ⟨vs, (objectLines_flatten (fun t ht => (hts t ht).1) fun t ht => (hts t ht).2).mpr
      ⟨hlines, hmap⟩, hd⟩

/-! ## The dictionary of a list of entries -/

def addEntry (d : NodeData) (e : Key × Value) : NodeData :=
  if e.1 = .str (ascii "undefined") then d else addRssi d e.1 e.2

theorem isUndefined_iff {name : Value} {k : Key} (h : keyOf name = some k) :
    isUndefined name = true ↔ k = .str (ascii "undefined") := by
  cases name with
  | str s =>
    obtain rfl := Option.some.inj h
    simp [isUndefined]
  | arr _ => cases h
  | obj _ => cases h
  | _ =>
    obtain rfl := Option.some.inj h
    simp [isUndefined]

theorem entryOf_eq_some {node : Value} {e : Key × Value} : entryOf node = some e ↔
    ∃ name, getItem node (ascii "name") = some name ∧ keyOf name = some e.1 ∧
      getItem node (ascii "last_rssi") = some e.2 := by
  simp only [entryOf, Option.bind_eq_bind, Option.bind_eq_some_iff, Option.pure_def,
    Option.some.injEq, Prod.ext_iff]
  constructor
  · intro h
    obtain ⟨name, hname, k, hk, rssi, hrssi, rfl, rfl⟩ := h
    exact ⟨name, hname, hk, hrssi⟩
  · intro h
    obtain ⟨name, hname, hk, hrssi⟩ := h
    exact ⟨name, hname, _, hk, _, hrssi, rfl, rfl⟩

theorem undefined_iff {node : Value} {e : Key × Value} (h : entryOf node = some e) :
    Undefined node ↔ e.1 = .str (ascii "undefined") := by
  obtain ⟨name, hname, hk, -⟩ := entryOf_eq_some.mp h
  rw [Undefined, hname, Option.any_some, isUndefined_iff hk]

/-- The inner loop runs through when each entry is passed over or has a key and a value. -/
theorem addNode_eq_some (d d' : NodeData) (node : Value) : addNode d node = some d' ↔
    Recorded node ∧ d' = (entryOf node).toList.foldl addEntry d := by
  cases hname : getItem node (ascii "name") with
  | none => simp [addNode, Recorded, Undefined, entryOf, hname]
  | some name =>
    by_cases hu : isUndefined name = true
    · have hundef : Undefined node := by rw [Undefined, hname, Option.any_some, hu]
      have hsame : (entryOf node).toList.foldl addEntry d = d := by
        cases he : entryOf node with
        | none => rfl
        | some e => simp [addEntry, (undefined_iff he).mp hundef]
      have hnode : addNode d node = some d := by simp [addNode, hname, hu]
      rw [hsame, hnode, Option.some.injEq]
      exact ⟨fun h => ⟨Or.inl hundef, h.symm⟩, fun h => h.2.symm⟩
    · have hundef : ¬ Undefined node := by rwa [Undefined, hname, Option.any_some]
      have hnode : addNode d node = (entryOf node).map fun e => addRssi d e.1 e.2 := by
        cases hk : keyOf name <;> cases hr : getItem node (ascii "last_rssi") <;>
          simp [addNode, entryOf, hname, hu, hk, hr]
      rw [hnode]
      cases he : entryOf node with
      | none => simp [Recorded, hundef, he]
      | some e =>
        have hne : e.1 ≠ .str (ascii "undefined") := fun h => hundef ((undefined_iff he).mpr h)
        simp [Recorded, he, addEntry, hne, eq_comm]

/-- A loop whose steps each need something and add a list of entries. -/
theorem foldlM_eq_some_iff {α : Type*} {f : NodeData → α → Option NodeData} {P : α → Prop}
    {es : α → List (Key × Value)}
    (h : ∀ d d' x, f d x = some d' ↔ P x ∧ d' = (es x).foldl addEntry d) {xs : List α}
    {d d' : NodeData} :
    xs.foldlM f d = some d' ↔ (∀ x ∈ xs, P x) ∧ d' = (xs.flatMap es).foldl addEntry d := by
  induction xs generalizing d with
  | nil => simp [eq_comm]
  | cons x xs ih =>
    rw [List.foldlM_cons, Option.bind_eq_bind, Option.bind_eq_some_iff, List.forall_mem_cons,
      List.flatMap_cons, List.foldl_append]
    constructor
    · intro hrun
      obtain ⟨d₁, hx, hxs⟩ := hrun
      obtain ⟨hP, rfl⟩ := (h d d₁ x).mp hx
      exact ⟨⟨hP, (ih.mp hxs).1⟩, (ih.mp hxs).2⟩
    · intro hrun
      obtain ⟨⟨hP, hall⟩, rfl⟩ := hrun
      exact ⟨_, (h d _ x).mpr ⟨hP, rfl⟩, ih.mpr ⟨hall, rfl⟩⟩

/-- The entries that a line adds. -/
def lineEntries (line : Bytes) : List (Key × Value) :=
  ((lineNodes line).getD []).filterMap entryOf

/-- A document whose entries can all be taken. -/
def Taken (line : Bytes) : Prop := ∃ vs, lineNodes line = some vs ∧ ∀ node ∈ vs, Recorded node

theorem addLine_eq_some (d d' : NodeData) (line : Bytes) : addLine d line = some d' ↔
    Taken line ∧ d' = (lineEntries line).foldl addEntry d := by
  have hline : addLine d line = (lineNodes line).bind fun vs => vs.foldlM addNode d := by
    simp only [addLine, lineNodes, Option.bind_eq_bind, Option.bind_assoc]
  rw [hline, Option.bind_eq_some_iff]
  unfold Taken lineEntries
  cases lineNodes line with
  | none => simp
  | some vs =>
    simp only [Option.some.injEq, exists_eq_left', Option.getD_some]
    rw [foldlM_eq_some_iff addNode_eq_some, List.filterMap_eq_flatMap_toList]

theorem lookup_addRssi (d : NodeData) (name k : Key) (rssi : Value) :
    (addRssi d name rssi).lookup k =
      if name = k then some ((d.lookup k).getD [] ++ [rssi]) else d.lookup k := by
  unfold addRssi
  by_cases hk : name = k
  · subst hk
    cases hd : d.lookup name <;> simp
  · have hne : k ≠ name := Ne.symm hk
    cases hd : d.lookup name <;> simp [hk, hne]

/-- What a run over entries adds to a dictionary. -/
theorem lookup_foldl_addEntry (es : List (Key × Value)) (d : NodeData) (name : Key) :
    (es.foldl addEntry d).lookup name =
      if name = .str (ascii "undefined") ∨ valuesOf es name = [] then d.lookup name
      else some ((d.lookup name).getD [] ++ valuesOf es name) := by
  induction es generalizing d with
  | nil => simp [valuesOf]
  | cons e es ih =>
    have hvalues : valuesOf (e :: es) name =
        if e.1 = name then e.2 :: valuesOf es name else valuesOf es name := by
      unfold valuesOf
      rw [List.filter_cons]
      split_ifs <;> simp_all
    rw [List.foldl_cons, ih, hvalues]
    by_cases hu : e.1 = .str (ascii "undefined")
    · rw [addEntry, if_pos hu]
      by_cases he : e.1 = name
      · have hname : name = .str (ascii "undefined") := he ▸ hu
        rw [if_pos (Or.inl hname), if_pos (Or.inl hname)]
      · rw [if_neg he]
    · rw [addEntry, if_neg hu, lookup_addRssi]
      by_cases he : e.1 = name
      · have hname : name ≠ .str (ascii "undefined") := he ▸ hu
        rw [if_pos he, if_pos he]
        by_cases hnil : valuesOf es name = []
        · simp [hname, hnil]
        · simp [hname, hnil]
      · rw [if_neg he, if_neg he]

/-! ## Reports of plain names -/

theorem entryOf_entryValue (b : Bluetil) (e : ScanlistEntry) :
    entryOf (entryValue b e) = some (.str (advertisedName b e), .num e.lastRssi.toInt 0) := by
  rw [entryOf_eq_some]
  refine ⟨.str (deviceName b e), ?_, by rw [deviceName_eq]; rfl, ?_⟩
  · simp [getItem, entryValue, entryFields, ascii]
  · simp [getItem, entryValue, entryFields, ascii]

theorem nodesOf_reportText {b : Bluetil} {l : List ScanlistEntry}
    (h : ∀ e ∈ l, Plain (advertisedName b e)) :
    nodesOf (reportText b l) = some (l.map (entryValue b)) := by
  have hplain : ∀ e ∈ l, Plain (deviceName b e) := by simpa only [deviceName_eq] using h
  rw [nodesOf, parse_text (parses_report false hplain)]
  rfl

/-- The names and the signal strengths of a scan list. -/
theorem filterMap_entryOf (b : Bluetil) (l : List ScanlistEntry) :
    (l.map (entryValue b)).filterMap entryOf =
      l.map fun e => (Key.str (advertisedName b e), Value.num e.lastRssi.toInt 0) := by
  rw [List.filterMap_map, ← List.filterMap_eq_map]
  apply List.filterMap_congr
  intro e _
  exact entryOf_entryValue b e

theorem recorded_entryValue (b : Bluetil) (e : ScanlistEntry) : Recorded (entryValue b e) :=
  Or.inr (by rw [entryOf_entryValue]; rfl)

theorem ascii_entry {b : Bluetil} {e : ScanlistEntry} (h : Ascii (advertisedName b e)) :
    Ascii (scanlistJsonPrintEntry b e) := by
  obtain ⟨pre, post, he, hpre, hpost⟩ := scanlistJsonPrintEntry_printable b e
  rw [he, deviceName_eq]
  simp only [Ascii, List.forall_mem_append, List.forall_mem_cons]
  exact ⟨hpre.ascii, h, by decide, hpost.ascii⟩

theorem ascii_reportText {b : Bluetil} {l : List ScanlistEntry}
    (h : ∀ e ∈ l, Ascii (advertisedName b e)) : Ascii (reportText b l) := by
  have hentries : Ascii (printEntries b l) := by
    induction l with
    | nil => simp [printEntries, Ascii]
    | cons e l ih =>
      rw [List.forall_mem_cons] at h
      have hsep : Ascii (if l ≠ [] then ascii ", " else []) := by split_ifs <;> decide
      simp only [printEntries, Ascii, List.forall_mem_append]
      exact ⟨⟨ascii_entry h.1, hsep⟩, ih h.2⟩
  have hopen : Ascii (123 :: 34 :: (ascii "nodes" ++ [34, 58, 32, 91])) := by decide
  have hclose : Ascii [93, 125] := by decide
  rw [reportText_split]
  simp only [Ascii, List.forall_mem_append]
  exact ⟨⟨hopen, hentries⟩, hclose⟩

/-! ## Whole logs -/

theorem silent_iff {t : Bytes} (h : Taken t) : Silent t ↔
    ∀ name, name ≠ .str (ascii "undefined") → valuesOf (lineEntries t) name = [] := by
  obtain ⟨vs, hvs, hall⟩ := h
  rw [Silent, lineEntries, hvs, Option.getD_some]
  simp only [Option.some.injEq, exists_eq_left']
  constructor
  · intro hsilent name hname
    rw [valuesOf, List.map_eq_nil_iff, List.filter_eq_nil_iff]
    intro e he
    obtain ⟨node, hnode, hentry⟩ := List.mem_filterMap.mp he
    have hundef := (undefined_iff hentry).mp (hsilent node hnode)
    simpa [hundef] using hname.symm
  · intro hnone node hnode
    rcases hall node hnode with hundef | hsome
    · exact hundef
    · obtain ⟨e, he⟩ := Option.isSome_iff_exists.mp hsome
      rw [undefined_iff he]
      by_contra hname
      have hnil := hnone e.1 hname
      rw [valuesOf, List.map_eq_nil_iff, List.filter_eq_nil_iff] at hnil
      exact hnil e (List.mem_filterMap.mpr ⟨node, hnode, he⟩) (by simp)

theorem Silent.taken {t : Bytes} (h : Silent t) : Taken t := by
  obtain ⟨vs, hvs, hall⟩ := h
  exact ⟨vs, hvs, fun node hnode => Or.inl (hall node hnode)⟩

/-- Parts that are kept or left out one by one add up to the same only if nothing is left out. -/
theorem flatMap_eq_flatMap_iff {α β : Type*} {f g : α → List β} {l : List α}
    (h : ∀ x ∈ l, g x = f x ∨ g x = []) : l.flatMap f = l.flatMap g ↔ ∀ x ∈ l, g x = f x := by
  induction l with
  | nil => simp
  | cons x l ih =>
    rw [List.forall_mem_cons] at h ⊢
    rw [List.flatMap_cons, List.flatMap_cons]
    rcases h.1 with hx | hx
    · rw [hx, List.append_cancel_left_eq, ih h.2]
      simp
    · have hle : (l.flatMap g).length ≤ (l.flatMap f).length := by
        rw [List.length_flatMap, List.length_flatMap]
        apply List.sum_le_sum
        intro y hy
        rcases h.2 y hy with hgy | hgy <;> simp [hgy]
      rw [hx, List.nil_append]
      constructor
      · intro hsum
        have hlen := congrArg List.length hsum
        rw [List.length_append] at hlen
        have hnil : f x = [] := List.length_eq_zero_iff.mp (by omega)
        rw [hnil, List.nil_append] at hsum
        exact ⟨hnil.symm, (ih h.2).mp hsum⟩
      · intro hall
        rw [← hall.1, List.nil_append]
        exact (ih h.2).mpr hall.2

namespace RawLog
variable {b : Bluetil} (log : RawLog b)

theorem mem_kept {t : Bytes} : t ∈ log.kept ↔ t ∈ log.reports ∨ t ∈ log.noise := by
  unfold kept reports noise
  simp only [List.mem_filterMap]
  constructor
  · intro h
    obtain ⟨l, hl, ht⟩ := h
    cases l with
    | report t' => exact Or.inl ⟨_, hl, ht⟩
    | other t' => exact Or.inr ⟨_, hl, ht⟩
  · intro h
    rcases h with ⟨l, hl, ht⟩ | ⟨l, hl, ht⟩
    · cases l with
      | report t' => exact ⟨_, hl, ht⟩
      | other t' => cases ht
    · cases l with
      | report t' => cases ht
      | other t' => exact ⟨_, hl, ht⟩

theorem lineNodes_report {t : Bytes} (ht : t ∈ log.reports) :
    lineNodes t = some ((nodesOf t).getD []) := by
  obtain ⟨vs, hvs⟩ := Option.isSome_iff_exists.mp (log.report_valid t (log.mem_reports.mp ht)).2
  rw [lineNodes_of_nodesOf hvs, hvs]
  rfl

theorem taken_report {t : Bytes} (ht : t ∈ log.reports) :
    Taken t ↔ ∀ node ∈ (nodesOf t).getD [], Recorded node := by
  simp [Taken, log.lineNodes_report ht]

theorem entries_eq : log.entries = log.reports.flatMap lineEntries := by
  apply List.flatMap_congr
  intro t ht
  rw [lineEntries, log.lineNodes_report ht, Option.getD_some]

/-- The noise adds nothing under a name. -/
theorem valuesOf_kept_iff (name : Key) :
    valuesOf (log.kept.flatMap lineEntries) name = valuesOf log.entries name ↔
      ∀ t ∈ log.noise, valuesOf (lineEntries t) name = [] := by
  have hflat (f : LogLine → Option Bytes) :
      valuesOf ((log.lines.filterMap f).flatMap lineEntries) name =
        log.lines.flatMap fun l => (f l).toList.flatMap fun t => valuesOf (lineEntries t) name := by
    rw [List.filterMap_eq_flatMap_toList, List.flatMap_assoc]
    simp only [valuesOf, List.filter_flatMap, List.map_flatMap]
  rw [entries_eq, kept, reports, hflat, hflat, flatMap_eq_flatMap_iff]
  · unfold noise
    simp only [List.mem_filterMap]
    constructor
    · intro h t ht
      obtain ⟨l, hl, hnoise⟩ := ht
      cases l with
      | report t' => cases hnoise
      | other t' =>
        have hline := h _ hl
        change _ = (LogLine.noise (.other t')).toList.flatMap _ at hline
        rw [hnoise] at hline
        simpa [LogLine.reported] using hline.symm
    · intro h l hl
      cases l with
      | report t' => rfl
      | other t' =>
        change [] = (LogLine.noise (.other t')).toList.flatMap _
        cases hnoise : LogLine.noise (.other t') with
        | none => rfl
        | some t => simpa using (h t ⟨_, hl, hnoise⟩).symm
  · intro l _
    cases l with
    | report t' => exact Or.inl rfl
    | other t' => exact Or.inr rfl

/-- The dictionary is right when the noise adds nothing to it. -/
theorem lookup_kept_iff (name : Key) :
    ((log.kept.flatMap lineEntries).foldl addEntry ∅).lookup name = log.rssiOf name ↔
      (name ≠ .str (ascii "undefined") →
        ∀ t ∈ log.noise, valuesOf (lineEntries t) name = []) := by
  rw [← valuesOf_kept_iff, lookup_foldl_addEntry, rssiOf]
  by_cases hname : name = .str (ascii "undefined")
  · simp [hname]
  · generalize valuesOf (log.kept.flatMap lineEntries) name = vs
    generalize valuesOf log.entries name = ws
    cases vs <;> cases ws <;> simp [hname]

theorem works_iff_kept : log.Works ↔
    LineByLine log.kept ∧ (∀ t ∈ log.kept, Taken t) ∧ ∀ t ∈ log.noise, Silent t := by
  unfold Works
  simp only [cleaningCell_bytes, parsingCell_flatten fun t ht => log.loads_kept ht,
    foldlM_eq_some_iff addLine_eq_some]
  constructor
  · intro h
    obtain ⟨d, ⟨hlines, htaken, rfl⟩, hd⟩ := h
    refine ⟨hlines, htaken, fun t ht => ?_⟩
    rw [silent_iff (htaken t (log.mem_kept.mpr (Or.inr ht)))]
    exact fun name hname => (log.lookup_kept_iff name).mp (hd name) hname t ht
  · intro h
    obtain ⟨hlines, htaken, hsilent⟩ := h
    exact ⟨_, ⟨hlines, htaken, rfl⟩, fun name => (log.lookup_kept_iff name).mpr
      fun hname t ht => (silent_iff (hsilent t ht).taken).mp (hsilent t ht) name hname⟩

/-- The cells work on a log exactly when the CR bytes of what is kept part its documents, no
line that is kept besides the reports has an entry with a name, and each entry of a report has
a name that is a key and a signal strength. -/
theorem works_iff : log.Works ↔
    LineByLine log.kept ∧ (∀ t ∈ log.noise, Silent t) ∧
      ∀ t ∈ log.reports, ∀ node ∈ (nodesOf t).getD [], Recorded node := by
  rw [works_iff_kept]
  constructor
  · intro h
    obtain ⟨hlines, htaken, hsilent⟩ := h
    exact ⟨hlines, hsilent, fun t ht =>
      (log.taken_report ht).mp (htaken t (log.mem_kept.mpr (Or.inl ht)))⟩
  · intro h
    obtain ⟨hlines, hsilent, hrecorded⟩ := h
    refine ⟨hlines, fun t ht => ?_, hsilent⟩
    rcases log.mem_kept.mp ht with hr | hn
    · exact (log.taken_report hr).mpr (hrecorded t hr)
    · exact (hsilent t hn).taken

/-! ## Logs without noise -/

theorem kept_of_noise (h : log.noise = []) : log.kept = log.reports := by
  apply List.filterMap_congr
  intro l hl
  have hnone := List.filterMap_eq_nil_iff.mp h l hl
  cases l with
  | report t => rfl
  | other t => exact hnone

/-- Reports have braces at both ends, and no CR between them. -/
theorem lineByLine_reports :
    LineByLine log.reports ↔ log.reports.length ≤ 1 ∧ ∀ t ∈ log.reports, 13 ∉ t := by
  have haround : ∀ t ∈ log.reports, lead t = [] ∧ core t = t ∧ trail t = [] := by
    intro t ht
    obtain ⟨hfirst, hlast⟩ := log.braces_of_mem_reports ht
    simpa using around_braces hfirst hlast (w := []) (r := []) rfl rfl
  cases h : log.reports with
  | nil => simp [LineByLine]
  | cons t ts =>
    rw [h] at haround
    obtain ⟨hlead, hcore, htrail⟩ := haround t (by simp)
    cases ts with
    | nil => simp [LineByLine, Parted, hlead, hcore, htrail]
    | cons t' ts =>
      obtain ⟨hlead', -, -⟩ := haround t' (by simp)
      simp [LineByLine, Parted, hlead', htrail]

/-- Where `json.loads` takes no other line, the log holds at most one report, without CR. -/
theorem works_iff_of_noise (h : log.noise = []) : log.Works ↔
    (log.commands.map fun c => c.scanCycles.toNat).sum ≤ 1 ∧
      (∀ c ∈ log.commands, ∀ i < c.scanCycles.toNat, ∀ e ∈ c.scanned i,
        13 ∉ advertisedName b e) ∧
      ∀ t ∈ log.reports, ∀ node ∈ (nodesOf t).getD [], Recorded node := by
  have htaken : (∀ t ∈ log.reports, Taken t) ↔
      ∀ t ∈ log.reports, ∀ node ∈ (nodesOf t).getD [], Recorded node :=
    forall₂_congr fun t ht => log.taken_report ht
  rw [works_iff_kept, log.kept_of_noise h, lineByLine_reports, cr_notMem_reports, reports_length,
    htaken, h, and_assoc]
  simp

end RawLog

/-! ## Two cycles -/

/-- Flags, and the complete name `A`. -/
def plainEntry : ScanlistEntry where
  addrVal i := [0x70, 0x63, 0x71, 0x19, 0x3E, 0xCC].getD i 0
  addrType := 1
  type := 0
  ad i := [0x02, 0x01, 0x06, 0x02, 0x09, 0x41].getD i 0
  adLen := 6
  lastRssi := -53
  advMsgCnt := 826
  firstUpdate := 1115111832
  lastUpdate := 1145030423

theorem plainEntry_name : advertisedName walkBluetil plainEntry = [65] := by decide +kernel

/-- `scan json 100 2` with one device in range, and the echo of the command. -/
def twoCycleLog : RawLog walkBluetil where
  commands := [⟨100000, 2, fun _ => [plainEntry]⟩]
  lines := [.other (ascii "> scan json 100 2"), .report (reportText walkBluetil [plainEntry]),
    .report (reportText walkBluetil [plainEntry])]
  lf_notMem := by
    have hreport : 10 ∉ reportText walkBluetil [plainEntry] := by
      rw [mem_reportText_iff (by decide)]
      simp [plainEntry_name]
    simp only [List.forall_mem_cons, LogLine.text, hreport]
    decide
  printed := by
    have hline := scanlistJsonPrint_eq walkBluetil [plainEntry]
    simp only [List.flatMap_cons, List.flatMap_nil, RawLog.printed_events, hline]
    rfl
  report_valid := by
    have hreport : Ascii (reportText walkBluetil [plainEntry]) ∧
        (nodesOf (reportText walkBluetil [plainEntry])).isSome = true := by
      constructor
      · exact ascii_reportText (by simp only [List.forall_mem_cons, plainEntry_name]; decide)
      · rw [nodesOf_reportText (by simp only [List.forall_mem_cons, plainEntry_name]; decide)]
        rfl
    intro t ht
    simp only [List.mem_cons, LogLine.report.injEq, List.not_mem_nil, or_false, reduceCtorEq,
      false_or, or_self] at ht
    rw [ht]
    exact hreport
  other_rejected := by
    intro t ht
    simp only [List.mem_cons, LogLine.other.injEq, List.not_mem_nil, or_false, reduceCtorEq] at ht
    intro hjson
    rw [ht] at hjson
    exact absurd hjson.2 (by decide +kernel)

theorem twoCycleLog_noise : twoCycleLog.noise = [] := by
  have hecho : loads (readDecoded (ascii "> scan json 100 2")) = none := by
    rw [← Option.isNone_iff_eq_none]
    decide +kernel
  simp [RawLog.noise, twoCycleLog, LogLine.noise, hecho]

theorem twoCycleLog_not_works : ¬ twoCycleLog.Works := by
  rw [RawLog.works_iff_of_noise _ twoCycleLog_noise]
  exact fun h => absurd h.1 (by decide)

end IotLabTraining.ScanLog
