import ZephyrApps.CStrings
import ZephyrApps.SystemRuns

/-!
# Why the board last reset

`app_reset_reason.c` over the lives of a board: what a handler records just before a reset, and what
the boot after it makes of the record.
-/
namespace ZephyrApps.ResetReasons
open CStrings EventHistories SystemRuns

/-- `RR_VERSION` -/
def rrVersion : UInt8 := 1

/-- `enum rr_mark` -/
def rrNone : UInt8 := 0
def rrWatchdog : UInt8 := 1
def rrFatal : UInt8 := 2

/-- `struct rr_record` -/
structure RrRecord where
  version : UInt8
  mark : UInt8
  wdtChannel : UInt8
  reserved : UInt8
  crashCount : UInt16
  fatalReason : UInt16
  wdtName : List UInt8
  deriving DecidableEq

/-- The sixteen bytes of `wdt_name` after `strncpy`. -/
def wdtNameOf (name : List UInt8) : List UInt8 :=
  let n := (cstr name).take 15
  n ++ List.replicate (16 - n.length) 0

/-- What a handler records: the stalled channel of the task watchdog, or a fatal error. -/
inductive Mark where
  | watchdog (channel : Int) (name : List UInt8)
  | fatal (reason : UInt32)

/-- The bits of `hwinfo`'s reset cause: those that are expected, and all the others. -/
structure Cause where
  por : Bool
  pin : Bool
  software : Bool
  lowPowerWake : Bool
  others : UInt32
  deriving DecidableEq

/-- The retention area, `none` if it holds no valid record, and `crash_count`. -/
structure Board where
  ready : Bool
  area : Option RrRecord
  crashCount : UInt16

/-- `rr_write` -/
def rrWrite (s : Board) (mark wdtChannel : UInt8) (fatalReason : UInt16) (name : List UInt8) :
    Board :=
  let r : RrRecord :=
    ⟨rrVersion, mark, wdtChannel, 0, s.crashCount, fatalReason, wdtNameOf name⟩
  if s.ready then { s with area := some r } else s

/-- `app_reset_reason_watchdog` and `k_sys_fatal_error_handler` -/
def record (s : Board) : Mark → Board
  | .watchdog channel name => rrWrite s rrWatchdog (UInt8.ofInt channel) 0 name
  | .fatal reason => rrWrite s rrFatal 0 reason.toUInt16 []

inductive Report where
  | notReady
  | watchdog (name : Text) (channel : UInt8)
  | fatal (reason : UInt16) (coredump : Bool)
  | unknown (ret : Int)
  | powerOn
  | notRequested (cause : Cause)
  | requested (cause : Cause)
  deriving DecidableEq

/-- What the boot reads beside the area: the reset cause and what `hwinfo_get_reset_cause` returns,
and `coredump_stored`. -/
structure BootCalls where
  ret : Int
  cause : Cause
  coredump : Bool

def unmarked (b : BootCalls) : Report :=
  if b.ret < 0 ∨ b.cause = ⟨false, false, false, false, 0⟩ then .unknown b.ret
  else if b.cause.por then .powerOn
  else if b.cause.others ≠ 0 then .notRequested b.cause
  else .requested b.cause

def Report.unexpected : Report → Bool
  | .watchdog _ _ => true
  | .fatal _ _ => true
  | .notRequested _ => true
  | _ => false

def kept (s : Board) (b : BootCalls) : Option RrRecord :=
  if b.cause.por then none else s.area.filter fun r => r.version = rrVersion

/-- `app_reset_reason_boot` -/
def appResetReasonBoot (s : Board) (b : BootCalls) : Report × Board :=
  if !s.ready then (.notReady, s)
  else
    let rec' := kept s b
    let report := match rec' with
      | none => unmarked b
      | some r =>
        if r.mark = rrWatchdog then .watchdog (cstr (r.wdtName.take 15)) r.wdtChannel
        else if r.mark = rrFatal then .fatal r.fatalReason b.coredump
        else unmarked b
    let before := match rec' with
      | none => s.crashCount
      | some r => r.crashCount
    let count := if report.unexpected then before + 1 else before
    (report, rrWrite { s with crashCount := count } rrNone 0 0 [])

/-- A life of a board: what its handlers have recorded, oldest first, and the boot after it. The
record is lost if the reset cuts a write short or the image that boots has another layout; after a
power cycle the area holds anything. -/
structure Life where
  marks : List Mark
  lost : Bool
  garbage : Option RrRecord
  boot : BootCalls

def fall (s : Board) (l : Life) : Board :=
  let s := l.marks.foldl record s
  let area := if l.boot.cause.por then l.garbage else if l.lost then none else s.area
  { s with area := area, crashCount := 0 }

def live (s : Board) (l : Life) : Board := (appResetReasonBoot (fall s l) l.boot).2

def Board.powerOn : Board := rrWrite ⟨true, none, 0⟩ rrNone 0 0 []

def lives (ls : List Life) : Board := run live .powerOn ls

/-- What a life should be told as, by that life alone. -/
def told (l : Life) : Report :=
  if l.boot.cause.por ∨ l.lost then unmarked l.boot
  else match l.marks.getLast? with
    | none => unmarked l.boot
    | some (.watchdog channel name) => .watchdog ((cstr name).take 15) (UInt8.ofInt channel)
    | some (.fatal reason) => .fatal reason.toUInt16 l.boot.coredump

variable {s : Board} {l : Life} {past : List Life} {b : BootCalls}

def Life.powerOff (l : Life) : Bool := l.boot.cause.por

end ZephyrApps.ResetReasons
