import IotLabTraining.GcoapClient
import IotLabTraining.ScanLog

/-!
# The scan command

`_cmd_scan` reads a timeout in milliseconds and a number of cycles with `atoi`, makes
microseconds of the first in an `int`, and hands both to `ble_rss_scan` as numbers of 32 and
16 bits. Here an `int` has 32 bits; what `atoi` makes of a numeral that does not fit in one,
and what becomes of a product that does not, is left open.
-/
namespace IotLabTraining.ScanShell
open GcoapClient (atoi atoi_of_readDigits toUint16)
open ScanLog ScanReport

/-- What the command takes from the compiler and the C library where they are free, and
the reports of RIOT and the radio: `scanned i` is the scan list of cycle `i`. -/
structure Board where
  atoiOverflow : Bytes → Int32
  mulOverflow : ℤ → Int32
  bluetil : Bluetil
  scanlistPrint : List ScanlistEntry → Bytes
  scanned : ℕ → List ScanlistEntry

variable (board : Board)

/-- A number that fits in an `int`, or whatever else is made of it. -/
def toInt32 (z : ℤ) (overflow : Int32) : Int32 :=
  if -2 ^ 31 ≤ z ∧ z < 2 ^ 31 then Int32.ofInt z else overflow

def atoi32 (s : Bytes) : Int32 := toInt32 (atoi s) (board.atoiOverflow s)

/-- `atoi(argv[2]) * 1000` -/
def scaled (t : Bytes) : Int32 :=
  toInt32 ((atoi32 board t).toInt * 1000) (board.mulOverflow ((atoi32 board t).toInt * 1000))

def scanTimeOut (t : Bytes) : UInt32 := (scaled board t).toUInt32

def scanCycles (n : Bytes) : UInt16 := toUint16 (atoi32 board n).toInt

def outputFormat (fmt : Bytes) : BleScanOutputFmt := if fmt = ascii "json" then .json else .txt

def usage (name : Bytes) : Bytes :=
  ascii "usage: " ++ name ++ ascii " <output_type> <scan_timeout> <scan_cycles>\n" ++
    ascii " - output_type: json or txt for log output\n" ++
    ascii " - scan_timeout: scan timeout in milliseconds\n" ++
    ascii " - scan_cycles: the number of scan cycles\n"

/-- What the command returns and prints itself, and what the scan does. -/
structure ScanResult where
  ret : ℤ
  out : Bytes
  events : List ScanEvent

/-- `_cmd_scan`; the shell passes the name of the command as the first argument. -/
def cmdScan (argv : List Bytes) : ScanResult :=
  match argv with
  | _ :: fmt :: t :: n :: _ =>
    { ret := 0
      out := []
      events := bleRssScan board.bluetil board.scanlistPrint board.scanned (scanTimeOut board t)
        (scanCycles board n) (outputFormat fmt) }
  | _ => { ret := -1, out := usage (argv.headD []), events := [] }

/-! ## The scan that was asked for -/

/-- The report of a cycle. -/
def report (fmt : Bytes) (i : ℕ) : Bytes :=
  match outputFormat fmt with
  | .json => scanlistJsonPrint board.bluetil (board.scanned i)
  | .txt => board.scanlistPrint (board.scanned i)

/-- `n` cycles, each clearing the list, scanning for `usec` and printing one report. -/
def cycles (fmt : Bytes) (usec : UInt32) (n : ℕ) : List ScanEvent :=
  (List.range n).flatMap fun i => [.clear, .start, .sleep usec, .stop, .print (report board fmt i)]

/-- The arguments come through the product and the conversions as they are, and `n` cycles
of `t` milliseconds are performed. -/
structure Performs (fmt tArg nArg : Bytes) (t n : ℕ) (r : ScanResult) : Prop where
  product : (scaled board tArg).toInt = 1000 * t
  timeOut : (scanTimeOut board tArg).toNat = 1000 * t
  count : (scanCycles board nArg).toNat = n
  events : ∃ usec : UInt32, usec.toNat = 1000 * t ∧ r.events = cycles board fmt usec n

/-- An error without a scan, or the scan that was asked for. -/
def AsAsked (fmt tArg nArg : Bytes) (t n : ℕ) (r : ScanResult) : Prop :=
  (r.ret ≠ 0 ∧ r.events = []) ∨ Performs board fmt tArg nArg t n r

variable {board}

theorem toInt32_of_fits {z : ℤ} (h : -2 ^ 31 ≤ z ∧ z < 2 ^ 31) (overflow : Int32) :
    (toInt32 z overflow).toInt = z := by
  rw [toInt32, if_pos h]
  exact Int32.toInt_ofInt_of_le h.1 h.2

theorem atoi32_toInt {s : Bytes} {n : ℕ} (h : readDigits s = some n) (hfits : n < 2 ^ 31) :
    (atoi32 board s).toInt = n := by
  have hatoi := atoi_of_readDigits h
  rw [atoi32, toInt32_of_fits (by omega), hatoi]

theorem scaled_toInt {s : Bytes} {t : ℕ} (h : readDigits s = some t) (hfits : 1000 * t < 2 ^ 31) :
    (scaled board s).toInt = 1000 * t := by
  have hread : (atoi32 board s).toInt = t := atoi32_toInt h (by omega)
  rw [scaled, hread, toInt32_of_fits (by omega), Int.mul_comm]

theorem scanTimeOut_toNat {s : Bytes} {t : ℕ} (h : readDigits s = some t)
    (hfits : 1000 * t < 2 ^ 31) : (scanTimeOut board s).toNat = 1000 * t := by
  have hscaled : (scaled board s).toInt = 1000 * t := scaled_toInt h hfits
  have hpos : 0 ≤ scaled board s := by
    rw [Int32.le_iff_toInt_le, hscaled]
    exact Int.natCast_nonneg (1000 * t)
  rw [scanTimeOut, Int32.toNat_toUInt32_of_le hpos, Int32.toNatClampNeg, hscaled]
  exact Int.toNat_natCast (1000 * t)

theorem scanCycles_toNat {s : Bytes} {n : ℕ} (h : readDigits s = some n) (hfits : n < 65536) :
    (scanCycles board s).toNat = n := by
  have hread : (atoi32 board s).toInt = n := atoi32_toInt h (by omega)
  have hcast : toUint16 (n : ℤ) = UInt16.ofNat n := by
    rw [toUint16, Int.emod_eq_of_lt (by omega) (by omega), Int.toNat_natCast]
  rw [scanCycles, hread, hcast, UInt16.toNat_ofNat_of_lt' hfits]

/-- Numbers that are not too large for the product and the conversions are needed for the
scan that was asked for, and enough. -/
theorem scan_as_asked_iff (board : Board) (name fmt : Bytes) (rest : List Bytes)
    {tArg nArg : Bytes} {t n : ℕ} (ht : readDigits tArg = some t) (hn : readDigits nArg = some n) :
    AsAsked board fmt tArg nArg t n (cmdScan board (name :: fmt :: tArg :: nArg :: rest)) ↔
      1000 * t < 2 ^ 31 ∧ n < 2 ^ 16 := by
  constructor
  · intro h
    rcases h with ⟨herror, -⟩ | hperforms
    · exact absurd rfl herror
    · have hproduct := hperforms.product
      have hcount := hperforms.count
      have hint := (scaled board tArg).toInt_lt
      have hword := (scanCycles board nArg).toNat_lt
      constructor
      · omega
      · omega
  · intro h
    obtain ⟨htime, hcycles⟩ := h
    right
    have hcount : (scanCycles board nArg).toNat = n := scanCycles_toNat hn hcycles
    refine ⟨scaled_toInt ht htime, scanTimeOut_toNat ht htime, hcount,
      scanTimeOut board tArg, scanTimeOut_toNat ht htime, ?_⟩
    simp only [cmdScan, bleRssScan, cycles, report, hcount]
    cases outputFormat fmt with
    | txt => rfl
    | json => rfl

/-- A board that wraps around, with no device in range. -/
def quietBoard : Board where
  atoiOverflow s := Int32.ofInt (atoi s)
  mulOverflow z := Int32.ofInt z
  bluetil := walkBluetil
  scanlistPrint _ := []
  scanned _ := []

theorem hundred_milliseconds_twice :
    AsAsked quietBoard (ascii "json") (ascii "100") (ascii "2") 100 2
      (cmdScan quietBoard [ascii "scan", ascii "json", ascii "100", ascii "2"]) :=
  (scan_as_asked_iff quietBoard (ascii "scan") (ascii "json") [] (by decide) (by decide)).mpr
    ⟨by decide, by decide⟩

/-- One cycle more than a 16-bit number counts is none. -/
theorem scan_65536_performs_none :
    ¬ AsAsked quietBoard (ascii "json") (ascii "100") (ascii "65536") 100 65536
      (cmdScan quietBoard [ascii "scan", ascii "json", ascii "100", ascii "65536"]) := by
  intro h
  rcases h with ⟨herror, -⟩ | hperforms
  · exact absurd rfl herror
  · exact absurd hperforms.count (by decide)

end IotLabTraining.ScanShell
