import IotLabTraining.JsonText

/-!
# The JSON report of a BLE scan

`ble_rss_scan.c` prints one line for each scan: an object whose `nodes` array
has one object for each entry of the scan list. Pointers are the bytes from
their target on. RIOT's `bluetil_ad_find` and `bluetil_ad_find_str` and NimBLE's
buffer size are parameters. A report is faithful when an RFC 8259 reader gets
the scan list back from the printed bytes.
-/
namespace IotLabTraining.ScanReport
open Json

/-- The bytes from a pointer on. -/
abbrev Memory := ℕ → UInt8

def bytesAt (p : Memory) (n : ℕ) : Bytes := (List.range n).map p

@[simp] theorem bytesAt_length (p : Memory) (n : ℕ) : (bytesAt p n).length = n := by
  simp [bytesAt]

/-- `nimble_scanlist_entry_t`; `ad` points at the received payload, of which
`adLen` bytes were received. -/
structure ScanlistEntry where
  addrVal : Memory
  addrType : UInt8
  type : UInt8
  ad : Memory
  adLen : UInt8
  lastRssi : Int8
  advMsgCnt : UInt32
  firstUpdate : UInt32
  lastUpdate : UInt32

/-- `bluetil_ad_t` as `BLUETIL_AD_INIT(buf, pos, size)` builds it. -/
structure BluetilAd where
  buf : Memory
  pos : ℕ
  size : ℕ

/-- What the report takes from RIOT and NimBLE: the search for an advertisement
field (offset and length of its data), the search for a field read as a string
into a buffer (the bytes written before the NUL), and `BLE_ADV_PDU_LEN`, which
has room for a legacy payload. -/
structure Bluetil where
  adFind : BluetilAd → UInt8 → Option (ℕ × ℕ)
  adFindStr : BluetilAd → UInt8 → ℕ → Option Bytes
  advPduLen : ℕ
  advPduLen_ge : 31 ≤ advPduLen

def BLE_GAP_AD_NAME_SHORT : UInt8 := 0x08
def BLE_GAP_AD_NAME : UInt8 := 0x09
def BLE_GAP_AD_TX_POWER_LEVEL : UInt8 := 0x0a

/-! ## The printer -/

/-- `_print_buffer`: both loops print a comma behind every byte but the last. -/
def printBuffer (addr : Memory) (size : UInt8) (reverse : Bool) : Bytes :=
  let cell (i : ℕ) : Bytes := ascii "\"" ++ hex2 (addr i) ++ ascii "\""
  ascii "[" ++
    (if reverse then
      (List.range size.toNat).reverse.flatMap fun i => cell i ++ if 0 < i then ascii "," else []
    else
      (List.range size.toNat).flatMap fun i =>
        cell i ++ if i < size.toNat - 1 then ascii "," else []) ++
    ascii "]"

def entryAd (e : ScanlistEntry) : BluetilAd := ⟨e.ad, e.adLen.toNat, e.adLen.toNat⟩

/-- The string in `name` when it is printed with `%s`: the complete name, else
the short one, else a constant. -/
def deviceName (b : Bluetil) (e : ScanlistEntry) : Bytes :=
  match b.adFindStr (entryAd e) BLE_GAP_AD_NAME (b.advPduLen + 1) with
  | some s => cString s
  | none =>
    match b.adFindStr (entryAd e) BLE_GAP_AD_NAME_SHORT (b.advPduLen + 1) with
    | some s => cString s
    | none => cString ((ascii "undefined").take (b.advPduLen + 1))

/-- `phy_txpwr_dbm`: the byte at the data pointer of the field, else INT8_MAX. -/
def phyTxpwrDbm (b : Bluetil) (e : ScanlistEntry) : Int8 :=
  match b.adFind (entryAd e) BLE_GAP_AD_TX_POWER_LEVEL with
  | some (data, _) => (e.ad data).toInt8
  | none => Int8.maxValue

def scanlistJsonPrintEntry (b : Bluetil) (e : ScanlistEntry) : Bytes :=
  ascii "\x7b" ++
  ascii "\"addr\":" ++ printBuffer e.addrVal 6 true ++
  ascii ",\"addr_type\":" ++ signed e.addrType.toNat ++
  ascii ",\"name\":\"" ++ deviceName b e ++ ascii "\"" ++
  ascii ",\"adv_type\":" ++ signed e.type.toNat ++
  ascii ",\"ad_data\":" ++ printBuffer e.ad e.adLen false ++
  ascii ",\"last_rssi\":" ++ signed e.lastRssi.toInt ++
  ascii ",\"txpwr_dbm\":" ++ signed (phyTxpwrDbm b e).toInt ++
  ascii ",\"adv_msg_cnt\":" ++ decimal e.advMsgCnt.toNat ++
  ascii ",\"first_update\":" ++ decimal e.firstUpdate.toNat ++
  ascii ",\"last_update\":" ++ decimal e.lastUpdate.toNat ++
  ascii "\x7d"

/-- The `while` loop of `_scanlist_json_print` over the remaining entries. -/
def printEntries (b : Bluetil) : List ScanlistEntry → Bytes
  | [] => []
  | e :: l =>
    scanlistJsonPrintEntry b e ++ (if l ≠ [] then ascii ", " else []) ++ printEntries b l

def scanlistJsonPrint (b : Bluetil) (l : List ScanlistEntry) : Bytes :=
  ascii "\x7b\"nodes\": [" ++ printEntries b l ++ ascii "]\x7d\n"

/-! ## The reader -/

/-- One entry of a report as its reader sees it. -/
structure Node where
  addr : Bytes
  addrType : ℤ
  name : Bytes
  advType : ℤ
  adData : Bytes
  lastRssi : ℤ
  txpwrDbm : ℤ
  advMsgCnt : ℤ
  firstUpdate : ℤ
  lastUpdate : ℤ
  deriving DecidableEq

/-- The name a device advertises: the string of the first complete name field,
else of the first short one, else none. -/
def advertisedName (b : Bluetil) (e : ScanlistEntry) : Bytes :=
  let found := b.adFindStr (entryAd e) BLE_GAP_AD_NAME (b.advPduLen + 1) <|>
    b.adFindStr (entryAd e) BLE_GAP_AD_NAME_SHORT (b.advPduLen + 1)
  found.elim (ascii "undefined") cString

/-- The buffer is large enough for the constant, so nothing is cut off. -/
theorem deviceName_eq (b : Bluetil) (e : ScanlistEntry) : deviceName b e = advertisedName b e := by
  have hlen : (ascii "undefined").length ≤ b.advPduLen + 1 := by
    have hpdu := b.advPduLen_ge
    have hascii : (ascii "undefined").length = 9 := by simp [ascii]
    omega
  have hconst : cString ((ascii "undefined").take (b.advPduLen + 1)) = ascii "undefined" := by
    rw [List.take_of_length_le hlen]
    exact cString_of_nul_free (by decide)
  unfold deviceName advertisedName
  cases b.adFindStr (entryAd e) BLE_GAP_AD_NAME (b.advPduLen + 1) with
  | some s => rfl
  | none =>
    cases b.adFindStr (entryAd e) BLE_GAP_AD_NAME_SHORT (b.advPduLen + 1) with
    | some s => rfl
    | none => exact hconst

/-- What the report of an entry has to say. -/
def nodeOf (b : Bluetil) (e : ScanlistEntry) : Node where
  addr := (bytesAt e.addrVal 6).reverse
  addrType := e.addrType.toNat
  name := advertisedName b e
  advType := e.type.toNat
  adData := bytesAt e.ad e.adLen.toNat
  lastRssi := e.lastRssi.toInt
  txpwrDbm := (phyTxpwrDbm b e).toInt
  advMsgCnt := e.advMsgCnt.toNat
  firstUpdate := e.firstUpdate.toNat
  lastUpdate := e.lastUpdate.toNat

def decodeByte : Value → Option UInt8
  | .str s => unhex2 s
  | _ => none

def decodeBytes : Value → Option Bytes
  | .arr l => l.mapM decodeByte
  | _ => none

def decodeInt : Value → Option ℤ
  | .num m e => if e = 0 then some m else none
  | _ => none

def decodeStr : Value → Option Bytes
  | .str s => some s
  | _ => none

def nodeKeys : List Bytes :=
  [ascii "addr", ascii "addr_type", ascii "name", ascii "adv_type", ascii "ad_data",
    ascii "last_rssi", ascii "txpwr_dbm", ascii "adv_msg_cnt", ascii "first_update",
    ascii "last_update"]

def decodeNode : Value → Option Node
  | .obj [(k₀, v₀), (k₁, v₁), (k₂, v₂), (k₃, v₃), (k₄, v₄), (k₅, v₅), (k₆, v₆), (k₇, v₇),
      (k₈, v₈), (k₉, v₉)] =>
    if [k₀, k₁, k₂, k₃, k₄, k₅, k₆, k₇, k₈, k₉] = nodeKeys then do
      let addr ← decodeBytes v₀
      let addrType ← decodeInt v₁
      let name ← decodeStr v₂
      let advType ← decodeInt v₃
      let adData ← decodeBytes v₄
      let lastRssi ← decodeInt v₅
      let txpwrDbm ← decodeInt v₆
      let advMsgCnt ← decodeInt v₇
      let firstUpdate ← decodeInt v₈
      let lastUpdate ← decodeInt v₉
      return ⟨addr, addrType, name, advType, adData, lastRssi, txpwrDbm, advMsgCnt,
        firstUpdate, lastUpdate⟩
    else none
  | _ => none

/-- The entries of a document `{"nodes": [...]}`. -/
def decodeReport : Value → Option (List Node)
  | .obj [(k, .arr l)] => if k = ascii "nodes" then l.mapM decodeNode else none
  | _ => none

/-- The line is one JSON document in UTF-8, and it says what the list holds. -/
def Faithful (b : Bluetil) (l : List ScanlistEntry) : Prop :=
  Utf8 (scanlistJsonPrint b l) ∧
    (parse false (scanlistJsonPrint b l)).bind decodeReport = some (l.map (nodeOf b))

/-! ## Printed text in the shape of the JSON library -/

theorem intercalate_concat {α : Type*} (sep : Bytes) (f : α → Bytes) (l : List α) (x : α) :
    sep.intercalate ((l ++ [x]).map f) = l.flatMap (fun i => f i ++ sep) ++ f x := by
  induction l with
  | nil => simp
  | cons a l ih =>
    have hne : (l ++ [x]).map f ≠ [] := by simp
    rw [List.cons_append, List.map_cons, List.intercalate_cons_of_ne_nil hne, ih]
    simp

/-- A loop that prints a separator behind all but the last iteration. -/
theorem flatMap_separated {α : Type*} (sep : Bytes) (f : α → Bytes) (more : α → Prop)
    [DecidablePred more] {l : List α} {x : α} (hl : ∀ i ∈ l, more i) (hx : ¬ more x) :
    ((l ++ [x]).flatMap fun i => f i ++ if more i then sep else []) =
      sep.intercalate ((l ++ [x]).map f) := by
  rw [intercalate_concat, List.flatMap_append, List.flatMap_singleton, if_neg hx,
    List.append_nil]
  congr 1
  apply List.flatMap_congr
  intro i hi
  rw [if_pos (hl i hi)]

/-- The bytes `printBuffer` prints, in print order. -/
def bufferBytes (addr : Memory) (size : UInt8) (reverse : Bool) : Bytes :=
  if reverse then (bytesAt addr size.toNat).reverse else bytesAt addr size.toNat

theorem printBuffer_eq (addr : Memory) (size : UInt8) (reverse : Bool) :
    printBuffer addr size reverse = 91 :: ([44].intercalate
      ((bufferBytes addr size reverse).map fun c => 34 :: (hex2 c ++ [34])) ++ [93]) := by
  have hquote : ascii "\"" = [34] := rfl
  have hcomma : ascii "," = [44] := rfl
  have hopen : ascii "[" = [91] := rfl
  have hclose : ascii "]" = [93] := rfl
  simp only [printBuffer, bufferBytes, bytesAt, hquote, hcomma, hopen, hclose,
    List.cons_append, List.nil_append]
  congr 2
  cases hs : size.toNat with
  | zero => cases reverse <;> rfl
  | succ m =>
    cases reverse with
    | false =>
      simp only [Bool.false_eq_true, if_false, List.range_succ, List.map_map]
      exact flatMap_separated [44] (fun i => 34 :: (hex2 (addr i) ++ [34]))
        (fun i => i < m + 1 - 1) (fun i hi => by simpa using hi) (by simp)
    | true =>
      simp only [if_true, List.range_succ_eq_map, List.reverse_cons, ← List.map_reverse,
        List.map_map]
      exact flatMap_separated [44] (fun i => 34 :: (hex2 (addr i) ++ [34]))
        (fun i => 0 < i) (fun i hi => by simp only [List.mem_map] at hi; omega) (by simp)

/-- The members of an entry's object, as printed. -/
def entryMembers (b : Bluetil) (e : ScanlistEntry) : List (Bytes × Bytes) :=
  [(ascii "addr", printBuffer e.addrVal 6 true),
    (ascii "addr_type", signed e.addrType.toNat),
    (ascii "name", 34 :: (deviceName b e ++ [34])),
    (ascii "adv_type", signed e.type.toNat),
    (ascii "ad_data", printBuffer e.ad e.adLen false),
    (ascii "last_rssi", signed e.lastRssi.toInt),
    (ascii "txpwr_dbm", signed (phyTxpwrDbm b e).toInt),
    (ascii "adv_msg_cnt", decimal e.advMsgCnt.toNat),
    (ascii "first_update", decimal e.firstUpdate.toNat),
    (ascii "last_update", decimal e.lastUpdate.toNat)]

theorem scanlistJsonPrintEntry_eq (b : Bluetil) (e : ScanlistEntry) :
    scanlistJsonPrintEntry b e =
      123 :: ([44].intercalate ((entryMembers b e).map memberText) ++ [125]) := by
  -- Each literal between two values is a comma, a key in quotes and a colon.
  have hopen : ascii "\x7b" = [123] := by simp [ascii]
  have hclose : ascii "\x7d" = [125] := by simp [ascii]
  have hquote : ascii "\"" = [34] := by simp [ascii]
  have haddr : ascii "\"addr\":" = 34 :: (ascii "addr" ++ [34, 58]) := by simp [ascii]
  have haddrType : ascii ",\"addr_type\":" = 44 :: 34 :: (ascii "addr_type" ++ [34, 58]) := by
    simp [ascii]
  have hname : ascii ",\"name\":\"" = 44 :: 34 :: (ascii "name" ++ [34, 58, 34]) := by simp [ascii]
  have hadvType : ascii ",\"adv_type\":" = 44 :: 34 :: (ascii "adv_type" ++ [34, 58]) := by
    simp [ascii]
  have hadData : ascii ",\"ad_data\":" = 44 :: 34 :: (ascii "ad_data" ++ [34, 58]) := by
    simp [ascii]
  have hrssi : ascii ",\"last_rssi\":" = 44 :: 34 :: (ascii "last_rssi" ++ [34, 58]) := by
    simp [ascii]
  have htxpwr : ascii ",\"txpwr_dbm\":" = 44 :: 34 :: (ascii "txpwr_dbm" ++ [34, 58]) := by
    simp [ascii]
  have hcnt : ascii ",\"adv_msg_cnt\":" = 44 :: 34 :: (ascii "adv_msg_cnt" ++ [34, 58]) := by
    simp [ascii]
  have hfirst : ascii ",\"first_update\":" =
      44 :: 34 :: (ascii "first_update" ++ [34, 58]) := by simp [ascii]
  have hlast : ascii ",\"last_update\":" = 44 :: 34 :: (ascii "last_update" ++ [34, 58]) := by
    simp [ascii]
  unfold scanlistJsonPrintEntry entryMembers
  generalize printBuffer e.addrVal 6 true = addr
  generalize printBuffer e.ad e.adLen false = adData
  simp only [memberText, List.map_cons, List.map_nil,
    List.intercalate_cons_cons, List.intercalate_singleton, hopen, hclose, hquote, haddr,
    haddrType, hname, hadvType, hadData, hrssi, htxpwr, hcnt, hfirst, hlast, List.append_assoc,
    List.cons_append, List.nil_append]

theorem printEntries_cons (b : Bluetil) (e : ScanlistEntry) (l : List ScanlistEntry) :
    printEntries b (e :: l) = [44].intercalate
      (scanlistJsonPrintEntry b e :: l.map fun e => 32 :: scanlistJsonPrintEntry b e) := by
  induction l generalizing e with
  | nil => simp [printEntries]
  | cons e' l ih =>
    have hsep : ascii ", " = [44, 32] := rfl
    rw [printEntries, ih e', List.map_cons, List.intercalate_cons_cons,
      List.intercalate_cons_cons_left, if_pos (by simp), hsep]
    simp

theorem scanlistJsonPrint_eq (b : Bluetil) (l : List ScanlistEntry) :
    scanlistJsonPrint b l =
      123 :: (memberText (ascii "nodes", 32 :: 91 :: (printEntries b l ++ [93])) ++ [125]) ++
        [10] := by
  simp [scanlistJsonPrint, memberText, ascii]

/-! ## Reading a report whose names are plain -/

def bufferValue (l : Bytes) : Value := .arr (l.map fun c => .str (hex2 c))

theorem plain_hex2 (c : UInt8) : Plain (hex2 c) := by
  have hdig : ∀ d < 16, 32 ≤ hexDigit d ∧ hexDigit d ≠ 34 ∧ hexDigit d ≠ 92 := by decide
  have hc : c.toNat < 256 := c.toNat_lt
  intro x hx
  simp only [hex2, List.mem_cons, List.not_mem_nil, or_false] at hx
  rcases hx with rfl | rfl
  · exact hdig _ (by omega)
  · exact hdig _ (by omega)

theorem parses_printBuffer (py : Bool) (addr : Memory) (size : UInt8) (reverse : Bool) :
    Parses py (printBuffer addr size reverse) (bufferValue (bufferBytes addr size reverse)) := by
  rw [printBuffer_eq]
  apply parses_arr
  rw [List.forall₂_map_left_iff, List.forall₂_map_right_iff]
  exact List.forall₂_same.mpr fun c _ => parses_str py (plain_hex2 c)

/-- The members of an entry's object, as read. -/
def entryFields (b : Bluetil) (e : ScanlistEntry) : List (Bytes × Value) :=
  [(ascii "addr", bufferValue (bufferBytes e.addrVal 6 true)),
    (ascii "addr_type", .num e.addrType.toNat 0),
    (ascii "name", .str (deviceName b e)),
    (ascii "adv_type", .num e.type.toNat 0),
    (ascii "ad_data", bufferValue (bufferBytes e.ad e.adLen false)),
    (ascii "last_rssi", .num e.lastRssi.toInt 0),
    (ascii "txpwr_dbm", .num (phyTxpwrDbm b e).toInt 0),
    (ascii "adv_msg_cnt", .num e.advMsgCnt.toNat 0),
    (ascii "first_update", .num e.firstUpdate.toNat 0),
    (ascii "last_update", .num e.lastUpdate.toNat 0)]

def entryValue (b : Bluetil) (e : ScanlistEntry) : Value := .obj (entryFields b e)

def reportValue (b : Bluetil) (l : List ScanlistEntry) : Value :=
  .obj [(ascii "nodes", .arr (l.map (entryValue b)))]

theorem parses_decimal (py : Bool) (n : ℕ) : Parses py (decimal n) (.num n 0) := by
  simpa using parses_signed py n

theorem parses_entry (py : Bool) {b : Bluetil} {e : ScanlistEntry} (h : Plain (deviceName b e)) :
    Parses py (scanlistJsonPrintEntry b e) (entryValue b e) := by
  rw [scanlistJsonPrintEntry_eq]
  apply parses_obj
  · exact parsesMember (by decide) (parses_printBuffer py _ _ _)
  · exact .cons (parsesMember (by decide) (parses_signed py _)) <|
      .cons (parsesMember (by decide) (parses_str py h)) <|
      .cons (parsesMember (by decide) (parses_signed py _)) <|
      .cons (parsesMember (by decide) (parses_printBuffer py _ _ _)) <|
      .cons (parsesMember (by decide) (parses_signed py _)) <|
      .cons (parsesMember (by decide) (parses_signed py _)) <|
      .cons (parsesMember (by decide) (parses_decimal py _)) <|
      .cons (parsesMember (by decide) (parses_decimal py _)) <|
      .cons (parsesMember (by decide) (parses_decimal py _)) .nil

theorem parses_printEntries (py : Bool) {b : Bluetil} {l : List ScanlistEntry}
    (h : ∀ e ∈ l, Plain (deviceName b e)) :
    Parses py (91 :: (printEntries b l ++ [93])) (.arr (l.map (entryValue b))) := by
  cases l with
  | nil => exact parses_arr .nil
  | cons e l =>
    rw [printEntries_cons]
    apply parses_arr
    rw [List.map_cons]
    refine .cons (parses_entry py (h e (by simp))) ?_
    rw [List.forall₂_map_left_iff, List.forall₂_map_right_iff]
    exact List.forall₂_same.mpr fun e' he => parses_space (parses_entry py (h e' (by simp [he])))

/-- The printed line without its line feed. -/
def reportText (b : Bluetil) (l : List ScanlistEntry) : Bytes :=
  123 :: (memberText (ascii "nodes", 32 :: 91 :: (printEntries b l ++ [93])) ++ [125])

theorem parses_report (py : Bool) {b : Bluetil} {l : List ScanlistEntry}
    (h : ∀ e ∈ l, Plain (deviceName b e)) : Parses py (reportText b l) (reportValue b l) := by
  have hval := parses_space (parses_printEntries py h)
  have hmem : ParsesMember py (ascii "nodes", 32 :: 91 :: (printEntries b l ++ [93]))
      (ascii "nodes", .arr (l.map (entryValue b))) := parsesMember (by decide) hval
  have hobj := parses_obj hmem .nil
  rwa [List.map_singleton, List.intercalate_singleton] at hobj

theorem decodeBytes_bufferValue (l : Bytes) : decodeBytes (bufferValue l) = some l := by
  simp only [decodeBytes, bufferValue]
  induction l with
  | nil => rfl
  | cons c l ih => simp [decodeByte, ih]

theorem decodeNode_entryValue (b : Bluetil) (e : ScanlistEntry) :
    decodeNode (entryValue b e) = some (nodeOf b e) := by
  have hsize : (6 : UInt8).toNat = 6 := rfl
  simp [entryValue, entryFields, decodeNode, nodeKeys, decodeBytes_bufferValue, decodeInt,
    decodeStr, nodeOf, bufferBytes, hsize, deviceName_eq]

theorem decodeReport_reportValue (b : Bluetil) (l : List ScanlistEntry) :
    decodeReport (reportValue b l) = some (l.map (nodeOf b)) := by
  simp only [reportValue, decodeReport, if_true]
  induction l with
  | nil => rfl
  | cons e l ih => simp [decodeNode_entryValue, ih]

/-! ## What a faithful report says about the names -/

/-- An entry's text up to its name and the two bytes behind the closing quote. -/
theorem scanlistJsonPrintEntry_name (b : Bluetil) (e : ScanlistEntry) :
    ∃ rest, scanlistJsonPrintEntry b e =
      123 :: (memberText (ascii "addr", printBuffer e.addrVal 6 true) ++
        44 :: (memberText (ascii "addr_type", signed e.addrType.toNat) ++
        44 :: 34 :: (ascii "name" ++ 34 :: 58 :: 34 :: (deviceName b e ++
        34 :: 44 :: 34 :: rest)))) := by
  rw [scanlistJsonPrintEntry_eq, entryMembers]
  generalize printBuffer e.addrVal 6 true = addr
  generalize printBuffer e.ad e.adLen false = adData
  simp only [memberText, List.map_cons, List.map_nil, List.intercalate_cons_cons,
    List.append_assoc, List.cons_append, List.nil_append]
  exact ⟨_, rfl⟩

theorem decodeNode_name {m₀ m₁ : Bytes × Value} {k s : Bytes} {ms : List (Bytes × Value)}
    {node : Node} (h : decodeNode (.obj (m₀ :: m₁ :: (k, .str s) :: ms)) = some node) :
    node.name = s := by
  unfold decodeNode at h
  split at h
  · rename_i heq
    simp only [Value.obj.injEq, List.cons.injEq, Prod.mk.injEq] at heq
    obtain ⟨-, -, ⟨-, rfl⟩, -⟩ := heq
    split_ifs at h
    simp only [decodeStr, Option.bind_eq_bind, Option.bind_some, Option.bind_eq_some_iff,
      Option.pure_def, Option.some.injEq] at h
    obtain ⟨_, _, _, _, _, _, _, _, _, _, _, _, _, _, _, _, _, _, rfl⟩ := h
    rfl
  · cases h

theorem plain_of_parse_entry {b : Bluetil} {e : ScanlistEntry} {n : ℕ} {tail : Bytes}
    {p : Value × Bytes} {node : Node} (hn : 2 * (scanlistJsonPrintEntry b e).length ≤ n)
    (h : parseValue false n (scanlistJsonPrintEntry b e ++ tail) = some p)
    (hd : decodeNode p.1 = some node) (hname : node.name = deviceName b e) :
    Plain (deviceName b e) := by
  obtain ⟨rest, he⟩ := scanlistJsonPrintEntry_name b e
  have haddr := parses_printBuffer false e.addrVal 6 true
  have htype := parses_signed false (e.addrType.toNat : ℤ)
  rw [he] at h hn
  generalize printBuffer e.addrVal 6 true = addr at *
  simp only [memberText, List.length_cons, List.length_append] at hn
  obtain ⟨k, rfl⟩ : ∃ k, n = k + 5 := ⟨n - 5, by omega⟩
  simp only [memberText, List.cons_append, List.append_assoc] at h
  rw [parseValue_members, Option.map_eq_some_iff] at h
  obtain ⟨q, hq, rfl⟩ := h
  have haddrMember := parseMembers_cons (show Plain (ascii "addr") by decide) haddr
    (n := k + 3) (by omega)
  have htypeMember := parseMembers_cons (show Plain (ascii "addr_type") by decide) htype
    (n := k + 2) (by omega)
  simp only [memberText, List.cons_append, List.append_assoc] at haddrMember htypeMember
  rw [haddrMember, htypeMember, Option.map_map, Option.map_eq_some_iff] at hq
  obtain ⟨q', hq', rfl⟩ := hq
  obtain ⟨v, ms, hv, hms⟩ := parseMembers_head (by decide) hq'
  rw [parseValue_quote, Option.map_eq_some_iff] at hv
  obtain ⟨⟨l, r⟩, hl, rfl⟩ := hv
  have hfields : decodeNode (.obj ((ascii "addr", bufferValue (bufferBytes e.addrVal 6 true)) ::
      (ascii "addr_type", .num e.addrType.toNat 0) :: (ascii "name", .str (assemble l)) :: ms)) =
      some node := by simpa [hms] using hd
  have hs := decodeNode_name hfields
  exact plain_of_scanString hl (hs ▸ hname)

/-- An entry as an array element: all but the first have a space before them. -/
def EntryText (b : Bluetil) (e : ScanlistEntry) (t : Bytes) : Prop :=
  t = scanlistJsonPrintEntry b e ∨ t = 32 :: scanlistJsonPrintEntry b e

theorem parses_entryText {b : Bluetil} {e : ScanlistEntry} {t : Bytes} (ht : EntryText b e t)
    (h : Plain (deviceName b e)) : Parses false t (entryValue b e) := by
  rcases ht with ht | ht
  · exact ht ▸ parses_entry false h
  · exact ht ▸ parses_space (parses_entry false h)

theorem plain_of_parse_entryText {b : Bluetil} {e : ScanlistEntry} {t tail : Bytes} {n : ℕ}
    {p : Value × Bytes} (ht : EntryText b e t) (hn : 2 * t.length ≤ n)
    (h : parseValue false n (t ++ tail) = some p) (hd : decodeNode p.1 = some (nodeOf b e)) :
    Plain (deviceName b e) := by
  rcases ht with ht | ht
  · rw [ht] at hn h
    exact plain_of_parse_entry hn h hd (deviceName_eq b e).symm
  · rw [ht, List.cons_append, parseValue_space] at h
    rw [ht, List.length_cons] at hn
    exact plain_of_parse_entry (by omega) h hd (deviceName_eq b e).symm

/-- The first element that is read is the one that is decoded first. -/
theorem parseElements_decode {n : ℕ} {s : Bytes} {q : List Value × Bytes} {node : Node}
    {nodes : List Node} (h : parseElements false (n + 1) s = some q)
    (hd : q.1.mapM decodeNode = some (node :: nodes)) :
    ∃ p vs, parseValue false n s = some p ∧ q.1 = p.1 :: vs ∧ decodeNode p.1 = some node ∧
      vs.mapM decodeNode = some nodes := by
  obtain ⟨p, vs, hp, hq⟩ := parseElements_head h
  rw [hq] at hd
  simp only [List.mapM_cons, Option.bind_eq_bind, Option.bind_eq_some_iff, Option.pure_def,
    Option.some.injEq, List.cons.injEq] at hd
  obtain ⟨_, hnode, _, hnodes, rfl, rfl⟩ := hd
  exact ⟨p, vs, hp, hq, hnode, hnodes⟩

theorem plain_of_parseElements {b : Bluetil} {e : ScanlistEntry} {l : List ScanlistEntry}
    {t : Bytes} {ts : List Bytes} (ht : EntryText b e t) (hts : List.Forall₂ (EntryText b) l ts)
    {n : ℕ} (hn : 2 * ([44].intercalate (t :: ts)).length + 1 ≤ n) {rest : Bytes}
    {q : List Value × Bytes}
    (h : parseElements false n ([44].intercalate (t :: ts) ++ 93 :: rest) = some q)
    (hd : q.1.mapM decodeNode = some ((e :: l).map (nodeOf b))) :
    ∀ x ∈ e :: l, Plain (deviceName b x) := by
  induction hts generalizing e t n q with
  | nil =>
    rw [List.intercalate_singleton] at h hn
    obtain ⟨k, rfl⟩ : ∃ k, n = k + 1 := ⟨n - 1, by omega⟩
    obtain ⟨p, vs, hp, -, hnode, -⟩ := parseElements_decode h hd
    have he := plain_of_parse_entryText ht (by omega) hp hnode
    simpa using he
  | @cons e' t' l ts ht' _ ih =>
    rw [List.intercalate_cons_cons] at h hn
    simp only [List.length_append, List.length_cons, List.length_nil] at hn
    obtain ⟨k, rfl⟩ : ∃ k, n = k + 1 := ⟨n - 1, by omega⟩
    obtain ⟨p, vs, hp, hq, hnode, hnodes⟩ := parseElements_decode h hd
    have he : Plain (deviceName b e) := by
      simp only [List.append_assoc] at hp
      exact plain_of_parse_entryText ht (by omega) hp hnode
    -- The first entry is plain, so the reader stands exactly behind its comma.
    simp only [List.append_assoc, List.cons_append, List.nil_append] at h
    rw [parseElements_cons (parses_entryText ht he) (by omega), Option.map_eq_some_iff] at h
    obtain ⟨q', hq', rfl⟩ := h
    obtain ⟨-, rfl⟩ := List.cons.inj hq
    have hrest := ih ht' (by omega) hq' hnodes
    intro x hx
    rcases List.mem_cons.mp hx with rfl | hx
    · exact he
    · exact hrest x hx

theorem plain_of_decodeReport {b : Bluetil} {l : List ScanlistEntry}
    (h : (parse false (scanlistJsonPrint b l)).bind decodeReport = some (l.map (nodeOf b))) :
    ∀ e ∈ l, Plain (deviceName b e) := by
  cases l with
  | nil => simp
  | cons e l =>
    obtain ⟨doc, hdoc, hdec⟩ := Option.bind_eq_some_iff.mp h
    rw [parse, Option.bind_eq_some_iff] at hdoc
    obtain ⟨p, hp, hdoc⟩ := hdoc
    split_ifs at hdoc
    obtain rfl := Option.some.inj hdoc
    have hlen : 2 * (printEntries b (e :: l)).length + 20 ≤
        2 * (scanlistJsonPrint b (e :: l)).length := by
      have hkey : (ascii "nodes").length = 5 := by simp [ascii]
      simp only [scanlistJsonPrint_eq, memberText, List.length_append, List.length_cons,
        List.length_nil, hkey]
      omega
    obtain ⟨k, hk⟩ : ∃ k, 2 * (scanlistJsonPrint b (e :: l)).length + 2 = k + 4 :=
      ⟨_, (Nat.sub_add_cancel (by omega)).symm⟩
    rw [hk, scanlistJsonPrint_eq] at hp
    simp only [memberText, List.cons_append, List.append_assoc, List.nil_append] at hp
    rw [parseValue_members, Option.map_eq_some_iff] at hp
    obtain ⟨q, hq, rfl⟩ := hp
    obtain ⟨v, ms, hv, hms⟩ := parseMembers_head (by decide) hq
    have hentries : ∃ r, printEntries b (e :: l) = 123 :: r := by
      rw [printEntries, scanlistJsonPrintEntry_eq]
      exact ⟨_, rfl⟩
    obtain ⟨r, hr⟩ := hentries
    rw [parseValue_space, hr, List.cons_append, parseValue_elements _ _ (by decide) (by decide),
      ← List.cons_append, ← hr, Option.map_eq_some_iff] at hv
    obtain ⟨w, hw, rfl⟩ := hv
    have hnodes : w.1.mapM decodeNode = some ((e :: l).map (nodeOf b)) := by
      rw [hms] at hdec
      cases ms with
      | nil => simpa [decodeReport] using hdec
      | cons m ms => simp [decodeReport] at hdec
    rw [printEntries_cons] at hw hlen
    have hspaced : List.Forall₂ (EntryText b) l
        (l.map fun e => 32 :: scanlistJsonPrintEntry b e) := by
      rw [List.forall₂_map_right_iff]
      exact List.forall₂_same.mpr fun e' _ => Or.inr rfl
    exact plain_of_parseElements (Or.inl rfl) hspaced (by omega) hw hnodes

/-! ## UTF-8 -/

theorem printable_printBuffer (addr : Memory) (size : UInt8) (reverse : Bool) :
    Printable (printBuffer addr size reverse) := by
  have hcell : ∀ i (more : Prop) [Decidable more],
      Printable (ascii "\"" ++ hex2 (addr i) ++ ascii "\"" ++ if more then ascii "," else []) := by
    intro i more _
    simp only [printable_append, printable_hex2, and_true]
    refine ⟨by decide, ?_⟩
    split_ifs <;> decide
  have hloop : ∀ (l : List ℕ) (more : ℕ → Prop) [DecidablePred more],
      Printable (l.flatMap fun i =>
        ascii "\"" ++ hex2 (addr i) ++ ascii "\"" ++ if more i then ascii "," else []) := by
    intro l more _ c hc
    obtain ⟨i, -, hi⟩ := List.mem_flatMap.mp hc
    exact hcell i (more i) c hi
  have hbracket : Printable (ascii "[") ∧ Printable (ascii "]") := by decide
  unfold printBuffer
  cases reverse
  · exact printable_append.mpr ⟨printable_append.mpr ⟨hbracket.1, hloop _ _⟩, hbracket.2⟩
  · exact printable_append.mpr ⟨printable_append.mpr ⟨hbracket.1, hloop _ _⟩, hbracket.2⟩

/-- All of an entry's text but the name is printable. -/
theorem scanlistJsonPrintEntry_printable (b : Bluetil) (e : ScanlistEntry) :
    ∃ pre post, scanlistJsonPrintEntry b e = pre ++ (deviceName b e ++ 34 :: post) ∧
      Printable pre ∧ Printable post := by
  refine ⟨ascii "\x7b" ++ ascii "\"addr\":" ++ printBuffer e.addrVal 6 true ++
      ascii ",\"addr_type\":" ++ signed e.addrType.toNat ++ ascii ",\"name\":\"",
    ascii ",\"adv_type\":" ++ signed e.type.toNat ++
      ascii ",\"ad_data\":" ++ printBuffer e.ad e.adLen false ++
      ascii ",\"last_rssi\":" ++ signed e.lastRssi.toInt ++
      ascii ",\"txpwr_dbm\":" ++ signed (phyTxpwrDbm b e).toInt ++
      ascii ",\"adv_msg_cnt\":" ++ decimal e.advMsgCnt.toNat ++
      ascii ",\"first_update\":" ++ decimal e.firstUpdate.toNat ++
      ascii ",\"last_update\":" ++ decimal e.lastUpdate.toNat ++ ascii "\x7d", ?_, ?_, ?_⟩
  · have hquote : ascii "\"" = [34] := rfl
    unfold scanlistJsonPrintEntry
    simp only [hquote, List.append_assoc, List.cons_append, List.nil_append]
  · simp only [printable_append, printable_printBuffer, printable_signed, and_true]
    decide
  · simp only [printable_append, printable_printBuffer, printable_signed, printable_decimal,
      and_true]
    decide

theorem utf8_entry_append (b : Bluetil) (e : ScanlistEntry) (tail : Bytes) :
    Utf8 (scanlistJsonPrintEntry b e ++ tail) ↔ Utf8 (deviceName b e) ∧ Utf8 tail := by
  obtain ⟨pre, post, he, hpre, hpost⟩ := scanlistJsonPrintEntry_printable b e
  rw [he, List.append_assoc, utf8_ascii_append hpre.ascii, List.append_assoc, List.cons_append,
    utf8_mid (by decide), utf8_ascii_append hpost.ascii]

theorem utf8_printEntries_append (b : Bluetil) (l : List ScanlistEntry) (tail : Bytes) :
    Utf8 (printEntries b l ++ tail) ↔ (∀ e ∈ l, Utf8 (deviceName b e)) ∧ Utf8 tail := by
  induction l with
  | nil => simp [printEntries]
  | cons e l ih =>
    have hsep : Ascii (if l ≠ [] then ascii ", " else []) := by split_ifs <;> decide
    rw [printEntries, List.append_assoc, List.append_assoc, utf8_entry_append,
      utf8_ascii_append hsep, ih, List.forall_mem_cons, and_assoc]

theorem utf8_scanlistJsonPrint (b : Bluetil) (l : List ScanlistEntry) :
    Utf8 (scanlistJsonPrint b l) ↔ ∀ e ∈ l, Utf8 (deviceName b e) := by
  have hclose : Utf8 (ascii "]\x7d\n") := utf8_of_ascii (by decide)
  rw [scanlistJsonPrint, List.append_assoc, utf8_ascii_append (by decide),
    utf8_printEntries_append]
  simp [hclose]

/-! ## Faithful reports -/

/-- A name that needs no escaping and no repair: UTF-8 without control bytes,
quotes and backslashes. -/
def JsonSafe (name : Bytes) : Prop := Utf8 name ∧ Plain name

theorem parse_scanlistJsonPrint (py : Bool) {b : Bluetil} {l : List ScanlistEntry}
    (h : ∀ e ∈ l, Plain (deviceName b e)) :
    parse py (scanlistJsonPrint b l) = some (reportValue b l) := by
  rw [scanlistJsonPrint_eq]
  exact parse_line (parses_report py h)

theorem faithful_iff (b : Bluetil) (l : List ScanlistEntry) :
    Faithful b l ↔ ∀ e ∈ l, JsonSafe (deviceName b e) := by
  constructor
  · rintro ⟨hutf, hdec⟩
    have hnames := (utf8_scanlistJsonPrint b l).mp hutf
    have hplain := plain_of_decodeReport hdec
    exact fun e he => ⟨hnames e he, hplain e he⟩
  · intro h
    refine ⟨(utf8_scanlistJsonPrint b l).mpr fun e he => (h e he).1, ?_⟩
    rw [parse_scanlistJsonPrint false fun e he => (h e he).2]
    exact decodeReport_reportValue b l

/-- The printed line is one JSON document that says exactly what the scan list
holds if and only if every advertised name is free of the bytes that the
printer would have to escape. -/
theorem scanReport_faithful_iff (b : Bluetil) (l : List ScanlistEntry) :
    Faithful b l ↔ ∀ e ∈ l, JsonSafe (advertisedName b e) := by
  simpa only [deviceName_eq] using faithful_iff b l

/-! ## A name with a quote -/

/-- The walk over length-type-value fields that the helpers of RIOT make. -/
def walkFind (ad : BluetilAd) (type : UInt8) : ℕ → ℕ → Option (ℕ × ℕ)
  | 0, _ => none
  | fuel + 1, pos =>
    if pos + 1 < ad.pos then
      if ad.buf (pos + 1) = type then some (pos + 2, (ad.buf pos).toNat - 1)
      else walkFind ad type fuel (pos + (ad.buf pos).toNat + 1)
    else none

def walkBluetil : Bluetil where
  adFind ad type := walkFind ad type ad.pos 0
  adFindStr ad type size := (walkFind ad type ad.pos 0).bind fun field =>
    if field.2 + 1 ≤ size then some (bytesAt (fun i => ad.buf (field.1 + i)) field.2) else none
  advPduLen := 37
  advPduLen_ge := by decide

/-- Flags, and the complete name `A"B`. -/
def quoteEntry : ScanlistEntry where
  addrVal i := [0x70, 0x63, 0x71, 0x19, 0x3E, 0xCC].getD i 0
  addrType := 1
  type := 0
  ad i := [0x02, 0x01, 0x06, 0x04, 0x09, 0x41, 0x22, 0x42].getD i 0
  adLen := 8
  lastRssi := -53
  advMsgCnt := 826
  firstUpdate := 1115111832
  lastUpdate := 1145030423

theorem quoteEntry_not_faithful : ¬ Faithful walkBluetil [quoteEntry] := by
  intro h
  have hnone : (parse false (scanlistJsonPrint walkBluetil [quoteEntry])).isNone = true := by
    decide +kernel
  rw [Option.isNone_iff_eq_none] at hnone
  have hdec := h.2
  rw [hnone] at hdec
  cases hdec

end IotLabTraining.ScanReport
