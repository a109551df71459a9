import ZephyrApps.CounterBlobs
import ZephyrApps.EstopVerdict

/-!
# The health service

What else `health.c` does: its boot, which loads the counters and counts the boot; the
poll of the main thread, the flush and the snapshot; and the edge detector with which
the comparator's tick observer finds presses and mismatches.
-/
namespace ZephyrApps.HealthService
open AppSettings CStrings SettingsStore HealthCounters CounterBlobs EstopVerdict Pstop

/-- The key of a name below `pstop_health`. -/
def healthKeyOf (name : Text) : Text := text "pstop_health/" ++ name

variable (steq : Text → Text → Option (Option Text))

/-- `health_settings_set` for a value of which `read_cb` returned `read`; `blob` is
`loaded_blob` once `loaded` is set. -/
def healthSettingsSet (name : Text) (value : List UInt8) (read : Int) (blob : Option (List UInt8)) :
    Option (List UInt8) × Int :=
  if steq name (text "counters") = some none then
    if value.length ≠ healthBlobLen then (blob, einval)
    else if read < 0 then (blob, eio)
    else (some value, 0)
  else (blob, enoent)

/-- `settings_load_subtree("pstop_health")`: the handler is called for every name, in the
order of `names`. -/
def loadBlob (flash : Store) (read : Text → Int) (names : List Text) : Option (List UInt8) :=
  KeyedLoads.load (fun name value blob => (healthSettingsSet steq name value (read name) blob).1)
    (fun name => flash (healthKeyOf name)) names none

/-- The counters that `health_init` starts from. -/
def startCounters (blob : Option (List UInt8)) : Counters :=
  match blob with
  | none => Counters.zero
  | some blob =>
    let (decoded, counters) := healthDecode blob Counters.zero
    if decoded then counters else Counters.zero

def unbooted : Health := ⟨Counters.zero, Board.zero, false, 0, 0, 0, 0, 0, 0⟩

/-- What the calls of `health_init` return: the reads of the load and the order of the
names, its first `uptime_s`, `evaluate_locked`'s `k_uptime_get`, and those of the flush. -/
structure InitCalls where
  read : Text → Int
  names : List Text
  started : UInt64
  evaluated : UInt64
  flush : FlushCalls

/-- The counters with the running firmware in `fw_sha`. -/
def Counters.markFw (c : Counters) (id : Text) : Counters :=
  { c with fwSha := fwIdentity id, fwSha_length := rfl }

def countBoot (cfg : HealthConfig) (c : Counters) : Counters :=
  let c := { c with boots := c.boots + 1 }
  if fwIdentity cfg.fwId ≠ c.fwSha then
    Counters.markFw { c with flashes := c.flashes + 1 } cfg.fwId
  else c

/-- `health_init`; a failed load is only logged. -/
def healthInit (cfg : HealthConfig) (s : Health) (flash : Store) (calls : InitCalls) :
    Health × Store × Int :=
  let c := countBoot cfg (startCounters (loadBlob steq flash calls.read calls.names))
  let s :=
    { s with
      counters := c
      board := Board.zero
      pressDelta := 0
      mismatchDelta := 0
      flushes := 0
      flushFails := 0
      uptimeAtBootS := c.uptimeS - uptimeS calls.started }
  (s.evaluateLocked cfg calls.evaluated).flushLocked flash calls.flush

/-- `health_flush_due` -/
def healthFlushDue (dirty : Bool) (sinceLastFlushS minIntervalS maxIntervalS : UInt32) : Bool :=
  let maxIntervalS := if maxIntervalS < minIntervalS then minIntervalS else maxIntervalS
  if maxIntervalS ≤ sinceLastFlushS then true
  else dirty && decide (minIntervalS ≤ sinceLastFlushS)

/-- `CONFIG_PROTECTIVE_STOP_HEALTH_FLUSH_MIN_S` and `_MAX_S` -/
structure FlushConfig where
  minS : UInt32
  maxS : UInt32

/-- Whole seconds from `then_` to `now`. -/
def secondsSince (then_ now : UInt64) : UInt32 := ((now - then_) / 1000).toUInt32

/-- What the calls of `health_poll` return: the three `k_uptime_get` before the flush, and
those of the flush. -/
structure PollCalls where
  folded : UInt64
  evaluated : UInt64
  asked : UInt64
  flush : FlushCalls

/-- `health_poll` -/
def healthPoll (cfg : HealthConfig) (fcfg : FlushConfig) (s : Health) (flash : Store)
    (calls : PollCalls) : Health × Store :=
  let s := (s.foldLocked calls.folded).evaluateLocked cfg calls.evaluated
  if healthFlushDue s.dirty (secondsSince s.lastFlushMs calls.asked) fcfg.minS fcfg.maxS then
    let r := s.flushLocked flash calls.flush
    (r.1, r.2.1)
  else (s, flash)

/-- `struct health_snapshot`; its `level` is a function of the board. -/
structure Snapshot where
  counters : Counters
  board : Board
  buttonRatedOps : UInt32
  buttonWearPct : ℕ
  flushes : UInt32
  flushFails : UInt32
  lastFlushAgeS : UInt32

/-- `health_snapshot_get`, which reads the clock at `folded` and at `aged`. -/
def healthSnapshotGet (cfg : HealthConfig) (s : Health) (folded aged : UInt64) :
    Health × Snapshot :=
  let s := s.foldLocked folded
  (s,
    { counters := s.counters
      board := s.board
      buttonRatedOps := cfg.ratedOps
      buttonWearPct := (healthButtonLevel s.counters.presses cfg.ratedOps cfg.warnPct).2
      flushes := s.flushes
      flushFails := s.flushFails
      lastFlushAgeS := secondsSince s.lastFlushMs aged })

/-- `struct health_edge` -/
structure HealthEdge where
  seen : Channel → Bool
  primed : Bool
  stopBoth : Bool
  mismatch : Bool
  tick : Channel → UInt32
  verdict : Channel → UInt8

def HealthEdge.zero : HealthEdge := ⟨fun _ => false, false, false, false, fun _ => 0, fun _ => 0⟩

/-- `struct health_edge_out` -/
structure EdgeOut where
  press : Bool
  mismatch : Bool
  deriving DecidableEq

/-- `health_edge_step` -/
def healthEdgeStep (st : HealthEdge) (channel : Channel) (tick : UInt32)
    (verdict stopCode : UInt8) : HealthEdge × EdgeOut :=
  let st :=
    { st with
      tick := Function.update st.tick channel tick
      verdict := Function.update st.verdict channel verdict
      seen := Function.update st.seen channel true }
  if (st.seen 0 && st.seen 1) = false ∨ st.tick 0 ≠ st.tick 1 then (st, ⟨false, false⟩)
  else
    let s0 := decide (st.verdict 0 = stopCode)
    let s1 := decide (st.verdict 1 = stopCode)
    let stopBoth := s0 && s1
    let mismatch := s0 != s1
    let out : EdgeOut :=
      if st.primed then ⟨stopBoth && !st.stopBoth, mismatch && !st.mismatch⟩ else ⟨false, false⟩
    ({ st with primed := true, stopBoth, mismatch }, out)

structure ObservedTick where
  tick : UInt32
  verdict0 : UInt8
  verdict1 : UInt8

/-- The two calls of `health_edge_step` in `observe`. -/
def observeEdge (st : HealthEdge) (t : ObservedTick) : HealthEdge × EdgeOut :=
  healthEdgeStep (healthEdgeStep st 0 t.tick t.verdict0 messageStop).1 1 t.tick t.verdict1
    messageStop

end ZephyrApps.HealthService
