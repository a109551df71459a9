import ZephyrApps.LockstepComparator
import ZephyrApps.RemoteApi

/-!
# The telemetry of `/state.json`

What `pstop_api_state` prints of the lockstep, its sessions, the uplink and the settings.
-/
namespace ZephyrApps.ApiState
open AppSettings CStrings EstopVerdict LockstepComparator PstopSession Pstop
open ApiReplies PeerTableRoute AdminHandlers RemoteApi

/-- `enum uplink_kind` -/
inductive UplinkKind where
  | none
  | ethernet
  | wifi
  | host
  deriving DecidableEq

/-- `uplink_kind_str` -/
def uplinkKindStr : UplinkKind → Text
  | .ethernet => text "eth"
  | .wifi => text "wifi"
  | .host => text "host"
  | .none => text "none"

/-- `struct uplink_status` -/
structure UplinkStatus where
  kind : UplinkKind
  ipv4 : UInt32

/-- What is read beside the settings, health and the clock of the handlers: `located` is what
`k_uptime_get` returns to `leds_locate_active`. -/
structure Telemetry where
  lockstep : Lockstep
  uplink : UplinkStatus
  located : UInt64

/-- The values of `enum pstop_sess_state` and of `enum pstop_lockstep_event`. -/
def stateCode : SessState → ℕ
  | .idle => 0
  | .bonding => 1
  | .bonded => 2
  | .rejected => 3

def eventCode : FaultKind → UInt32
  | .none => 0
  | .timeout => 1
  | .content => 2

/-- `late_mask & 0x3` -/
def lateBits (lateMask : Channel → Bool) : UInt32 :=
  (if lateMask 0 then 1 else 0) ||| (if lateMask 1 then 2 else 0)

/-- `pack_mm_last` -/
def packMmLast (d : Diag) : UInt32 :=
  match d.lastKind with
  | .content =>
    (eventCode .content <<< 28) ||| (UInt32.ofNat (d.mismatchSlot : ℕ) <<< 24) |||
      ((UInt8.ofNat d.mismatchOffset).toUInt32 <<< 16) |||
      ((d.mismatchVerdict 0).toUInt32 <<< 8) ||| (d.mismatchVerdict 1).toUInt32
  | .timeout => (eventCode .timeout <<< 28) ||| (lateBits d.lateMask <<< 26) ||| ((0xFF : UInt32) <<< 16)
  | .none => 0

/-- `last_event_ms` -/
def lastEventMs (d : Diag) : UInt64 :=
  match d.lastKind with
  | .content => d.mismatchUptimeMs
  | .timeout => d.lateUptimeMs
  | .none => 0

/-- The counters summed over the active slots, and the last message of the slot that replied last. -/
structure Totals where
  sent : UInt32
  replies : UInt32
  sendFail : UInt32
  rebonds : UInt32
  lastReplyMs : UInt64
  lastMsg : UInt8

def Totals.add (L : Lockstep) (t : Totals) (slot : Slot) : Totals :=
  let s := (L.slots slot).session
  if !(L.slots slot).active then t
  else
    let t :=
      { t with
        sent := t.sent + s.sent
        replies := t.replies + s.replies
        sendFail := t.sendFail + s.sendFail
        rebonds := t.rebonds + s.rebonds }
    if s.lastMsg ≠ messageUnknown ∧ t.lastReplyMs ≤ s.lastReplyMs then
      { t with lastReplyMs := s.lastReplyMs, lastMsg := s.lastMsg }
    else t

def totals (L : Lockstep) : Totals :=
  (List.finRange 4).foldl (Totals.add L) ⟨0, 0, 0, 0, 0, messageUnknown⟩

variable (fw : Firmware) (w : World) (t : Telemetry)

/-- What `%d` prints of a `bool`. -/
def bit (b : Bool) : Text := dec b.toNat

/-- A number of a peer, 0 if none is configured. -/
def ofPeer (peer : Peer) (n : ℕ) : Text := dec (if peer.configured then n else 0)

def identityPieces : List Text :=
  [text "\x7b\"uptime_ms\":" ++ dec w.calls.now.toNat ++ text ",\"fw_ver\":\"" ++ fw.fwVer ++
      text "\",\"fw_sha\":\"" ++ fw.fwSha ++ text "\",",
    text "\"role\":\"" ++ roleText fw w.toRemote ++ text "\",\"device_id\":" ++
      dec w.config.ram.effectiveDeviceId.toNat ++ text ","]

def loopPieces : List Text :=
  let sampler := t.lockstep.samplers
  [text "\"l0\":" ++ dec (sampler 0).verdict.toNat ++ text ",\"l1\":" ++
      dec (sampler 1).verdict.toNat ++ text ",",
    text "\"e_hi0\":" ++ bit (sampler 0).estop.highOk ++ text ",\"e_lo0\":" ++
      bit (sampler 0).estop.lowOk ++ text ",\"e_hi1\":" ++ bit (sampler 1).estop.highOk ++
      text ",\"e_lo1\":" ++ bit (sampler 1).estop.lowOk ++ text ","]

def machinePieces : List Text :=
  let peer := w.config.ram.peers 0
  let sum := totals t.lockstep
  [text "\"pstop_peer_ip\":" ++ ofPeer peer peer.ip.toNat ++ text ",\"pstop_peer_port\":" ++
      ofPeer peer peer.port.toNat ++ text ",",
    text "\"pstop_sent\":" ++ dec sum.sent.toNat ++ text ",\"pstop_replies\":" ++
      dec sum.replies.toNat ++ text ",\"pstop_last_msg\":" ++ dec sum.lastMsg.toNat ++
      text ",\"pstop_send_fail\":" ++ dec sum.sendFail.toNat ++ text ",\"pstop_rebonds\":" ++
      dec sum.rebonds.toNat ++ text ",\"pstop_last_reply_ms\":" ++ dec sum.lastReplyMs.toNat ++
      text ","]

def faultPieces : List Text :=
  let L := t.lockstep
  [text "\"pstop_mismatch\":" ++ dec (L.mismatches + L.missedDeadlines).toNat ++
      text ",\"pstop_mm_timeout\":" ++ dec L.missedDeadlines.toNat ++
      text ",\"pstop_mm_content\":" ++ dec L.mismatches.toNat ++ text ",\"pstop_mm_last\":[" ++
      dec (packMmLast L.diag).toNat ++ text ",0," ++ dec (lastEventMs L.diag).toNat ++
      text "],\"pstop_core_lat_max_ms\":[" ++ dec (L.diag.latencyMaxMs 0).toNat ++ text "," ++
      dec (L.diag.latencyMaxMs 1).toNat ++ text "],\"pstop_gated_ticks\":" ++
      dec L.gatedTicks.toNat ++ text ","]

/-- `leds_locate_active` -/
def locateActive : Bool := decide (t.located < w.locateUntilMs)

def devicePieces : List Text :=
  [text "\"health\":" ++ int (boardLevel w.health.board) ++ text ",\"ring_offset\":" ++
      dec w.config.ram.ringOffset.toNat ++ text ",\"ring_led1\":" ++ bit (locateActive w t) ++
      text ",\"active_iface\":\"" ++ uplinkKindStr t.uplink.kind ++ text "\",\"local_ip\":\"" ++
      dotted t.uplink.ipv4 ++ text "\",\"wifi_idx\":" ++ int (wifiActive fw w.toRemote) ++
      text ",\"crash_present\":" ++ bit (decide (0 < crashSize fw w.toRemote)) ++ text ","]

/-- A number of a session, 0 if the slot is not active. -/
def ofSession (m : MachineSlot) (n : ℕ) : Text := dec (if m.active then n else 0)

def slotPiece (slot : Slot) : Text :=
  let peer := w.config.ram.peers slot
  let m := t.lockstep.slots slot
  let s := m.session
  (if slot.val = 0 then [] else text ",") ++ text "\x7b\"cfg\":" ++ bit peer.configured ++
    text ",\"ip\":" ++ ofPeer peer peer.ip.toNat ++ text ",\"port\":" ++
    ofPeer peer peer.port.toNat ++ text ",\"id\":" ++ ofPeer peer peer.id.toNat ++
    text ",\"state\":" ++ ofSession m (stateCode s.state) ++ text ",\"sent\":" ++
    ofSession m s.sent.toNat ++ text ",\"replies\":" ++ ofSession m s.replies.toNat ++
    text ",\"send_fail\":" ++ ofSession m s.sendFail.toNat ++ text ",\"rebonds\":" ++
    ofSession m s.rebonds.toNat ++ text ",\"unbonds\":" ++ ofSession m s.unbonds.toNat ++
    text ",\"hb_ms\":" ++ ofSession m s.hbMs.toNat ++ text ",\"last_msg\":" ++
    dec (if m.active then s.lastMsg else messageUnknown).toNat ++ text ",\"last_reply_ms\":" ++
    ofSession m s.lastReplyMs.toNat ++ text "\x7d"

/-- The appends of `pstop_api_state`, in their order. They are also what the whole body is: the text
that a buffer either holds or does not. -/
def statePieces : List Text :=
  identityPieces fw w ++ loopPieces t ++ machinePieces w t ++ faultPieces t ++
    devicePieces fw w t ++ [text "\"pstop_machines\":["] ++
    (List.finRange 4).map (slotPiece w t) ++ [text "]\x7d"]

/-- `pstop_api_state` -/
def pstopApiState (cap : ℕ) : Response :=
  finish ((statePieces fw w t).foldl Out.printf ⟨cap, [], false⟩) 200

def stateOut (telemetry : World → Telemetry) (w : World) : Out :=
  (statePieces fw w (telemetry w)).foldl Out.printf ⟨pstopApiBodyMax, [], false⟩

theorem remoteApi_state (headerBuffer : ℕ) (telemetry : World → Telemetry)
    (crashRead : ℕ → ℕ → World → List UInt8) :
    (remoteApi fw headerBuffer (stateOut fw telemetry) crashRead).state w =
      (w, pstopApiState fw w (telemetry w) pstopApiBodyMax) := rfl

end ZephyrApps.ApiState
