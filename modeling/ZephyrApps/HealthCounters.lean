import ZephyrApps.SettingsStore

/-!
# Health counters

The counters and the warning board of `health_logic.c`, and what `health.c` does to
them when an administrator resets them: it folds the comparator's edges in, evaluates
the built-in warnings and flushes the counters to flash.
-/
namespace ZephyrApps.HealthCounters
open AppSettings CStrings SettingsStore

/-- `struct health_counters` -/
structure Counters where
  presses : UInt32
  mismatchEvents : UInt32
  uptimeS : UInt32
  boots : UInt32
  flashes : UInt32
  otas : UInt32
  fwSha : List UInt8
  buttonSwaps : UInt8
  fwSha_length : fwSha.length = 8

/-- Counters that `memset` cleared. -/
def Counters.zero : Counters := ⟨0, 0, 0, 0, 0, 0, List.replicate 8 0, 0, rfl⟩

/-- `put_u32` -/
def putU32 (v : UInt32) : List UInt8 :=
  [(v >>> 24).toUInt8, (v >>> 16).toUInt8, (v >>> 8).toUInt8, v.toUInt8]

/-- `health_encode` -/
def healthEncode (c : Counters) : List UInt8 :=
  [1] ++ putU32 c.presses ++ putU32 c.mismatchEvents ++ putU32 c.uptimeS ++ putU32 c.boots ++
    putU32 c.flashes ++ putU32 c.otas ++ c.fwSha ++ [c.buttonSwaps]

/-- `HEALTH_OK` -/
def healthOk : Int := 0
/-- `HEALTH_WARN` -/
def healthWarn : Int := 1
/-- `HEALTH_CRIT` -/
def healthCrit : Int := 2

/-- `health_button_level`, with the percentage it writes. -/
def healthButtonLevel (presses ratedOps warnPct : UInt32) : Int × ℕ :=
  if ratedOps = 0 then (healthOk, 0)
  else
    let pct := min (presses.toNat * 100 / ratedOps.toNat) 999
    if 100 ≤ pct then (healthCrit, pct)
    else if 0 < warnPct ∧ warnPct.toNat ≤ pct then (healthWarn, pct)
    else (healthOk, pct)

/-- `health_mismatch_level` -/
def healthMismatchLevel (mismatchEvents presses minEvents per1000 : UInt32) : Int :=
  if per1000 = 0 ∨ mismatchEvents < minEvents then healthOk
  else
    let basis := if presses < 1000 then 1000 else presses.toNat
    let allowed := basis * per1000.toNat / 1000
    if allowed < mismatchEvents.toNat then healthWarn else healthOk

/-- `HEALTH_MAX_WARNINGS` -/
def healthMaxWarnings : ℕ := 8
/-- `HEALTH_SRC_LEN` -/
def healthSrcLen : ℕ := 16
/-- `HEALTH_MSG_LEN` -/
def healthMsgLen : ℕ := 64

/-- `struct health_warning` -/
structure Warning where
  src : Text
  msg : Text
  level : Int
  count : UInt32
  firstMs : UInt64
  lastMs : UInt64

/-- `struct health_board`, with the entries that are in use. -/
structure Board where
  warnings : List Warning
  dropped : UInt32
  bounded : warnings.length ≤ healthMaxWarnings

def Board.zero : Board := ⟨[], 0, Nat.zero_le _⟩

/-- `find` -/
def Board.find (b : Board) (src : Text) : Option ℕ :=
  b.warnings.findIdx? fun w => decide (w.src.take healthSrcLen = src.take healthSrcLen)

/-- `copy_str` -/
def copyStr (src : Text) (cap : ℕ) : Text := src.take (cap - 1)

/-- `health_board_clear` -/
def Board.clear (b : Board) (src : Text) : Board :=
  match b.find src with
  | none => b
  | some i =>
    { b with
      warnings := b.warnings.eraseIdx i
      bounded := (List.length_eraseIdx_le _ _).trans b.bounded }

def Warning.published (w : Warning) (level : Int) (msg : Text) (now : UInt64) : Warning :=
  { w with msg := copyStr msg healthMsgLen, level, count := w.count + 1, lastMs := now }

/-- `-ENOMEM` -/
def enomem : Int := -12

/-- `health_board_publish` -/
def Board.publish (b : Board) (src : Text) (level : Int) (msg : Text) (now : UInt64) :
    Board × Int :=
  if level = healthOk then (b.clear src, 0)
  else
    match b.find src with
    | some i =>
      ({ b with
          warnings := b.warnings.modify i fun w => w.published level msg now
          bounded := by rw [List.length_modify]; exact b.bounded }, 0)
    | none =>
      if h : healthMaxWarnings ≤ b.warnings.length then ({ b with dropped := b.dropped + 1 }, enomem)
      else
        let w : Warning := ⟨copyStr src healthSrcLen, [], 0, 0, now, 0⟩
        ({ b with
            warnings := b.warnings ++ [w.published level msg now]
            bounded := by rw [List.length_append]; exact Nat.not_le.mp h }, 0)

/-- The build's identity and its `CONFIG_PROTECTIVE_STOP_*` thresholds. -/
structure HealthConfig where
  fwId : Text
  ratedOps : UInt32
  warnPct : UInt32
  mismatchWarnMin : UInt32
  mismatchWarnPer1000 : UInt32

/-- The statics of `health.c`. -/
structure Health where
  counters : Counters
  board : Board
  dirty : Bool
  uptimeAtBootS : UInt32
  lastFlushMs : UInt64
  flushes : UInt32
  flushFails : UInt32
  pressDelta : UInt32
  mismatchDelta : UInt32

/-- `HEALTH_SETTINGS_KEY` -/
def healthSettingsKey : Text := text "pstop_health/counters"

/-- `fw_identity` -/
def fwIdentity (id : Text) : List UInt8 :=
  let h : UInt64 := id.foldl (fun h c => (h ^^^ c.toUInt64) * 0x100000001B3) 0xCBF29CE484222325
  [(h >>> 56).toUInt8, (h >>> 48).toUInt8, (h >>> 40).toUInt8, (h >>> 32).toUInt8,
    (h >>> 24).toUInt8, (h >>> 16).toUInt8, (h >>> 8).toUInt8, h.toUInt8]

/-- `uptime_s`; `now` is what `k_uptime_get` returns. -/
def uptimeS (now : UInt64) : UInt32 := (now / 1000).toUInt32

/-- `fold_locked` -/
def Health.foldLocked (s : Health) (now : UInt64) : Health :=
  let p := s.pressDelta
  let m := s.mismatchDelta
  let s := { s with pressDelta := 0, mismatchDelta := 0 }
  let s :=
    if p ≠ 0 ∨ m ≠ 0 then
      { s with
        counters :=
          { s.counters with
            presses := s.counters.presses + p, mismatchEvents := s.counters.mismatchEvents + m }
        dirty := true }
    else s
  { s with counters := { s.counters with uptimeS := s.uptimeAtBootS + uptimeS now } }

/-- What the calls of `flush_locked` return: `k_uptime_get` in `fold_locked`,
`settings_save_one`, and `k_uptime_get` after it. -/
structure FlushCalls where
  folded : UInt64
  saved : Int
  flushed : UInt64

/-- `flush_locked` -/
def Health.flushLocked (s : Health) (flash : Store) (calls : FlushCalls) : Health × Store × Int :=
  let s := s.foldLocked calls.folded
  let flash := settingsSaveOne flash healthSettingsKey (healthEncode s.counters) calls.saved
  let s := { s with lastFlushMs := calls.flushed }
  if calls.saved ≠ 0 then ({ s with flushFails := s.flushFails + 1 }, flash, calls.saved)
  else ({ s with flushes := s.flushes + 1, dirty := false }, flash, 0)

/-- `evaluate_locked` -/
def Health.evaluateLocked (cfg : HealthConfig) (s : Health) (now : UInt64) : Health :=
  let (level, pct) := healthButtonLevel s.counters.presses cfg.ratedOps cfg.warnPct
  let msg := dec pct ++ text "% of rated " ++ dec cfg.ratedOps.toNat ++ text " ops"
  let board := (s.board.publish (text "button_wear") level (msg.take (healthMsgLen - 1)) now).1
  let level := healthMismatchLevel s.counters.mismatchEvents s.counters.presses
    cfg.mismatchWarnMin cfg.mismatchWarnPer1000
  let msg := dec s.counters.mismatchEvents.toNat ++ text " loop mismatches in " ++
    dec s.counters.presses.toNat ++ text " presses"
  { s with
    board := (board.publish (text "loop_mismatch") level (msg.take (healthMsgLen - 1)) now).1 }

/-- What the calls of a reset return: its first `uptime_s`, `evaluate_locked`'s
`k_uptime_get`, and those of the flush. -/
structure ResetCalls where
  started : UInt64
  evaluated : UInt64
  flush : FlushCalls

/-- `health_reset_button` -/
def Health.resetButton (cfg : HealthConfig) (s : Health) (flash : Store) (calls : ResetCalls) :
    Health × Store × Int :=
  let s := s.foldLocked calls.started
  let c : Counters := { s.counters with presses := 0, mismatchEvents := 0 }
  let c := if c.buttonSwaps < 255 then { c with buttonSwaps := c.buttonSwaps + 1 } else c
  (({ s with counters := c }).evaluateLocked cfg calls.evaluated).flushLocked flash calls.flush

/-- `health_reset_all` -/
def Health.resetAll (cfg : HealthConfig) (s : Health) (flash : Store) (calls : ResetCalls) :
    Health × Store × Int :=
  let s :=
    { s with
      pressDelta := 0
      mismatchDelta := 0
      counters := { Counters.zero with fwSha := fwIdentity cfg.fwId, fwSha_length := rfl }
      uptimeAtBootS := 0 - uptimeS calls.started }
  (s.evaluateLocked cfg calls.evaluated).flushLocked flash calls.flush

end ZephyrApps.HealthCounters
