import ZephyrApps.AdminGate
import ZephyrApps.HttpServer

/-!
# The handlers behind the server

The remaining routes of `api.c`, and the handlers as `route_handler` calls them. What
`pstop_api_state` prints of the lockstep and its sessions is a parameter.
-/
namespace ZephyrApps.RemoteApi
open AppSettings CStrings HttpUtil SettingsStore ApiReplies PeerTableRoute HealthCounters
open AdminHandlers HttpServer

structure Calls where
  saved : Int
  savedRing : Int
  savedId : Int
  savedWifi : WifiIdx → Int
  reset : ResetCalls
  now : UInt64
  folded : UInt64
  aged : UInt64

/-- The device as the handlers see it; `calls` is what comes next from the kernel. -/
structure World extends Remote where
  /-- `locate_until_ms` of `leds.c` -/
  locateUntilMs : UInt64
  /-- the snapshot of `last_log.c` -/
  lastLog : Text
  calls : Calls

/-- `pstop_api_ring_offset` -/
def pstopApiRingOffset (d : Remote) (url : Text) (cap : ℕ) (saved : Int) : Remote × Response :=
  match param url "n" 8 httpParseU32 with
  | .error _ => (d, reply cap 400 (errorBody "n must be 0..15"))
  | .ok n =>
    if 15 < n then (d, reply cap 400 (errorBody "n must be 0..15"))
    else
      let (config, ret) := d.config.setRingOffset n.toUInt8 saved
      let d := { d with config }
      if ret ≠ 0 then (d, reply cap 500 (errorBody "settings write failed"))
      else
        (d, reply cap 200 (text "\x7b\"ok\":true,\"ring_offset\":" ++ dec n.toNat ++ text "\x7d"))

/-- `RING_LOCATE_TIMEOUT_MS` -/
def ringLocateTimeoutMs : UInt64 := 300000

/-- `pstop_api_ring_led1` -/
def pstopApiRingLed1 (w : World) (url : Text) (cap : ℕ) : World × Response :=
  match httpQueryGet url (text "on") 4 with
  | .error _ => (w, reply cap 400 (errorBody "on must be 0 or 1"))
  | .ok val =>
    if val = text "0" ∨ val = text "1" then
      let on := decide (val = text "1")
      ({ w with locateUntilMs := if on then w.calls.now + ringLocateTimeoutMs else 0 },
        reply cap 200 (text "\x7b\"ok\":true,\"ring_led1\":" ++ dec on.toNat ++
          text ",\"ring_offset\":" ++ dec w.config.ram.ringOffset.toNat ++ text "\x7d"))
    else (w, reply cap 400 (errorBody "on must be 0 or 1"))

/-- `health_board_level` -/
def boardLevel (b : Board) : Int :=
  b.warnings.foldl (fun worst w => if worst < w.level then w.level else worst) healthOk

/-- What `pstop_api_health` prints of a warning. -/
def warningItem (now : UInt64) (w : Warning) : Text :=
  text "\x7b\"src\":\"" ++ w.src ++ text "\",\"level\":" ++ int w.level ++ text ",\"msg\":\"" ++
    w.msg ++ text "\",\"count\":" ++ dec w.count.toNat ++ text ",\"age_s\":" ++
    dec ((now - w.firstMs) / 1000).toUInt32.toNat ++ text "\x7d"

/-- What `pstop_api_health` prints before the warnings. -/
def countersItem (fw : Firmware) (s : Health) (aged : UInt64) : Text :=
  let c := s.counters
  text "\x7b\"ok\":true,\"level\":" ++ int (boardLevel s.board) ++
    text ",\"presses\":" ++ dec c.presses.toNat ++
    text ",\"mismatch_events\":" ++ dec c.mismatchEvents.toNat ++
    text ",\"uptime_s\":" ++ dec c.uptimeS.toNat ++ text ",\"boots\":" ++ dec c.boots.toNat ++
    text ",\"flashes\":" ++ dec c.flashes.toNat ++ text ",\"otas\":" ++ dec c.otas.toNat ++
    text ",\"button_swaps\":" ++ dec c.buttonSwaps.toNat ++
    text ",\"button_rated_ops\":" ++ dec fw.health.ratedOps.toNat ++
    text ",\"button_wear_pct\":" ++
      dec (healthButtonLevel c.presses fw.health.ratedOps fw.health.warnPct).2 ++
    text ",\"fw_sha\":\"" ++ fw.fwSha ++ text "\",\"nvs_flushes\":" ++ dec s.flushes.toNat ++
    text ",\"nvs_flush_fails\":" ++ dec s.flushFails.toNat ++
    text ",\"last_flush_age_s\":" ++ dec ((aged - s.lastFlushMs) / 1000).toUInt32.toNat ++
    text ",\"warnings\":["

/-- `pstop_api_health`; its snapshot folds the comparator's edges in, and reads the clock
twice more. -/
def pstopApiHealth (fw : Firmware) (w : World) (cap : ℕ) : World × Response :=
  let s := w.health.foldLocked w.calls.folded
  let o := (⟨cap, [], false⟩ : Out).printf (countersItem fw s w.calls.aged)
  let o := (s.board.warnings.foldl (fun (of : Out × Bool) warning =>
    (of.1.printf ((if of.2 then [] else text ",") ++ warningItem w.calls.now warning), false))
      (o, true)).1
  let o := o.printf (text "],\"dropped\":" ++ dec s.board.dropped.toNat ++ text "\x7d")
  ({ w with health := s }, finish o 200)

def onControl (h : Control → Control × Response) (w : World) : World × Response :=
  ({ w with toControl := (h w.toControl).1 }, (h w.toControl).2)

def onRemote (h : Remote → Remote × Response) (w : World) : World × Response :=
  ({ w with toRemote := (h w.toRemote).1 }, (h w.toRemote).2)

/-- The functions that `route_handler` calls, with its buffer. -/
def remoteApi (fw : Firmware) (headerBuffer : ℕ) (stateOut : World → Out)
    (crashRead : ℕ → ℕ → World → List UInt8) : Api World where
  headerBuffer
  state w := (w, finish (stateOut w) 200)
  pstopPeer url w := onControl (pstopApiPstopPeer · url pstopApiBodyMax w.calls.saved) w
  pstopPeers url w := onControl (pstopApiPstopPeers · url pstopApiBodyMax w.calls.saved) w
  role post url auth w :=
    onRemote (pstopApiRole fw (some auth) pstopApiBodyMax · post url w.calls.saved) w
  ringOffset url w := onRemote (pstopApiRingOffset · url pstopApiBodyMax w.calls.saved) w
  ringLed1 url w := pstopApiRingLed1 w url pstopApiBodyMax
  health w := pstopApiHealth fw w pstopApiBodyMax
  healthReset url auth w :=
    onRemote (pstopApiHealthReset fw (some auth) pstopApiBodyMax · url w.calls.reset) w
  lastLog w := (w, w.lastLog)
  coredump auth w :=
    let (d, rsp, size) := pstopApiCoredump fw (some auth) pstopApiBodyMax w.toRemote
    ({ w with toRemote := d }, rsp, size)
  adminPage auth w := onRemote (pstopApiAdminPage fw (some auth) pstopApiBodyMax ·) w
  adminStatus auth w :=
    onRemote (pstopApiAdminStatus fw (some auth) pstopApiBodyMax · w.calls.now) w
  adminRestart auth w := onRemote (pstopApiAdminRestart fw (some auth) pstopApiBodyMax ·) w
  adminSettings post body auth w :=
    onRemote (pstopApiAdminSettings fw (some auth) pstopApiBodyMax · post body w.calls.savedRing
      w.calls.savedId) w
  adminWifi post body auth w :=
    onRemote (pstopApiAdminWifi fw (some auth) pstopApiBodyMax · post body w.calls.savedWifi) w
  adminVerbose toggle auth w :=
    onRemote (pstopApiAdminVerbose fw (some auth) pstopApiBodyMax · toggle) w
  crashRead

/-- The routes that ask for the admin password. -/
def IsAdmin : Route → Prop
  | .role | .healthReset | .coredump | .adminPage | .adminStatus | .adminRestart
  | .adminSettings | .adminWifi | .adminVerbose | .adminVerboseToggle => True
  | _ => False

/-- Behind the server too, a request without credentials changes nothing. -/
theorem call_denied {ι : Type*} {fw : Firmware} {auth : Text}
    (h : ¬ AdminGate.Authorized fw (some auth)) (headerBuffer : ℕ) (stateOut : World → Out)
    (crashRead : ℕ → ℕ → World → List UInt8) {e : Callback ι} (he : IsAdmin e.route)
    (body : List UInt8) (w : World) :
    (remoteApi fw headerBuffer stateOut crashRead).call e auth body w =
      (w, AdminGate.denied fw.password pstopApiBodyMax, 0) := by
  have hgate := AdminGate.adminOk_denied h pstopApiBodyMax
  rw [Api.call]
  cases hr : e.route with
  | role => simp only [remoteApi, onRemote, pstopApiRole, hgate]; rfl
  | healthReset => simp only [remoteApi, onRemote, pstopApiHealthReset, hgate]; rfl
  | coredump => simp only [remoteApi, pstopApiCoredump, hgate]
  | adminPage => simp only [remoteApi, onRemote, pstopApiAdminPage, hgate]; rfl
  | adminStatus => simp only [remoteApi, onRemote, pstopApiAdminStatus, hgate]; rfl
  | adminRestart => simp only [remoteApi, onRemote, pstopApiAdminRestart, hgate]; rfl
  | adminSettings => simp only [remoteApi, onRemote, pstopApiAdminSettings, hgate]; rfl
  | adminWifi => simp only [remoteApi, onRemote, pstopApiAdminWifi, hgate]; rfl
  | adminVerbose => simp only [remoteApi, onRemote, pstopApiAdminVerbose, hgate]; rfl
  | adminVerboseToggle => simp only [remoteApi, onRemote, pstopApiAdminVerbose, hgate]; rfl
  | _ =>
    rw [hr] at he
    exact he.elim

/-- Not the status of `route_handler` itself. -/
def Plain (rsp : Response) : Prop := rsp.status ≠ 413

variable (fw : Firmware) (auth : Option Text) (cap : ℕ) (d : Remote)

end ZephyrApps.RemoteApi
