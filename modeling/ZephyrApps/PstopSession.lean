import ZephyrApps.AppSettings
import ZephyrApps.EventHistories
import ZephyrApps.PstopMessages

/-!
# One pstop session

A machine slot is its session, whether it is active, the datagrams queued on its
socket, and a log of what happened on it since boot. The log is history only: no
function of the code reads it. A session bonds, heartbeats, and is parked when
the machine answers UNBOND.
-/
namespace ZephyrApps.PstopSession
open Pstop AppSettings

/-- `PSTOP_MIN_SEND_PERIOD_MS` -/
def minSendPeriodMs : UInt32 := 100
/-- `PSTOP_MAX_SEND_PERIOD_MS` -/
def maxSendPeriodMs : UInt32 := 1000
/-- `PSTOP_BOND_RETRY_MS` -/
def bondRetryMs : UInt64 := 5000
/-- `PSTOP_REBOND_FLOOR_MS` -/
def rebondFloorMs : UInt64 := 2500
/-- `PSTOP_REBOND_MACHINE_MAX_MISSED` -/
def rebondMachineMaxMissed : UInt64 := 5
/-- `PSTOP_REBOND_JITTER_MARGIN_MS` -/
def rebondJitterMarginMs : UInt64 := 500

/-- `enum pstop_sess_state` -/
inductive SessState where
  | idle | bonding | bonded | rejected
  deriving DecidableEq

/-- `struct pstop_session`; addresses and ports are kept in host byte order. -/
structure Session where
  slot : Slot
  sock : Int
  peerAddr : UInt32
  peerPort : UInt16
  peerId : UInt32
  proto : ProtocolData
  state : SessState
  hbMs : UInt32
  lastSendMs : UInt64
  lastReplyMs : UInt64
  lastBondMs : UInt64
  sent : UInt32
  replies : UInt32
  sendFail : UInt32
  rebonds : UInt32
  unbonds : UInt32
  lastMsg : UInt8
  deriving DecidableEq

def Session.zeroed : Session :=
  ⟨0, 0, 0, 0, 0, ⟨0, 0, 0, 0⟩, .idle, 0, 0, 0, 0, 0, 0, 0, 0, 0, 0⟩

structure Datagram where
  addr : UInt32
  port : UInt16
  bytes : List UInt8
  deriving DecidableEq

/-- The buffer `zsock_recvfrom` fills, when it returns `PSTOP_MESSAGE_SIZE`: a
longer datagram is truncated, a shorter one returns less. -/
def Datagram.frame (d : Datagram) : Option Frame :=
  if h : messageSize ≤ d.bytes.length then some ⟨d.bytes.take messageSize, by simpa using h⟩
  else none

inductive Event where
  | socket (fd : Int)
  | close (fd : Int)
  | opened
  | rebond
  | send (now : UInt64) (frame : Frame) (ok : Bool)
  | reply (now : UInt64) (msg : Msg)
  | unbond
  deriving DecidableEq

/-- The session starts afresh: it was opened or rebonded. -/
def Event.isReset : Event → Bool
  | .opened | .rebond => true
  | _ => false

/-- `sessions[slot]`, `slot_active[slot]`, the queue of its socket, and its log. -/
structure MachineSlot where
  active : Bool
  session : Session
  rx : List Datagram
  log : List Event
  deriving DecidableEq

def MachineSlot.zeroed : MachineSlot := ⟨false, Session.zeroed, [], []⟩

def MachineSlot.record (m : MachineSlot) (e : Event) : MachineSlot := { m with log := m.log ++ [e] }

@[simp] theorem record_active (m : MachineSlot) (e : Event) : (m.record e).active = m.active := rfl
@[simp] theorem record_session (m : MachineSlot) (e : Event) :
    (m.record e).session = m.session := rfl
@[simp] theorem record_rx (m : MachineSlot) (e : Event) : (m.record e).rx = m.rx := rfl
@[simp] theorem record_log (m : MachineSlot) (e : Event) : (m.record e).log = m.log ++ [e] := rfl

variable (p : PstopC)

/-- `protocol_data_init`, then the peer's id. -/
def freshProto (d : ProtocolData) (peerId : UInt32) : ProtocolData :=
  { p.protocolDataInit d with remoteId := peerId }

/-- `pstop_session_open`; `sock` and `bound` are what the socket calls returned.
The result says whether it returned 0. -/
def pstopSessionOpen (slot : Slot) (peer : Peer) (sock bound : Int) (m : MachineSlot) :
    MachineSlot × Bool :=
  let m := { m with session := { m.session with sock := -1 } }
  if sock < 0 then (m, false)
  else if bound < 0 then ((m.record (.socket sock)).record (.close sock), false)
  else
    let s := m.session
    (({ m with
        rx := []
        session :=
          { slot := slot
            sock := sock
            peerAddr := peer.ip
            peerPort := peer.port
            peerId := peer.id
            proto := freshProto p s.proto peer.id
            state := .idle
            hbMs := 0
            lastSendMs := 0
            lastReplyMs := 0
            lastBondMs := 0
            sent := 0
            replies := 0
            sendFail := 0
            rebonds := 0
            unbonds := 0
            lastMsg := messageUnknown } }.record (.socket sock)).record .opened, true)

def pstopSessionClose (m : MachineSlot) : MachineSlot :=
  if 0 ≤ m.session.sock then
    { m with rx := [], session := { m.session with sock := -1, state := .idle } }.record
      (.close m.session.sock)
  else m

def pstopSessionSendPeriodMs (s : Session) : UInt32 :=
  if s.hbMs = 0 then minSendPeriodMs
  else
    let period := s.hbMs / 2
    let period := if period < minSendPeriodMs then minSendPeriodMs else period
    if maxSendPeriodMs < period then maxSendPeriodMs else period

def pstopSessionRebondAfterMs (s : Session) : UInt64 :=
  let derived := s.hbMs.toUInt64 * rebondMachineMaxMissed + rebondJitterMarginMs
  if derived < rebondFloorMs then rebondFloorMs else derived

def pstopSessionDue (s : Session) (now : UInt64) : Bool :=
  match s.state with
  | .rejected => false
  | .bonding => decide (bondRetryMs ≤ now - s.lastBondMs)
  | .idle => true
  | .bonded => decide ((pstopSessionSendPeriodMs s).toUInt64 ≤ now - s.lastSendMs)

/-- `pstop_session_build`; `me` is what `app_settings_effective_device_id()` returned. -/
def pstopSessionBuild (s : Session) (verdict : UInt8) (role : AuxRole) (now : UInt64)
    (me : UInt32) : Frame :=
  let type := if s.state = .bonded then verdict else messageBond
  let msg :=
    if type = messageBond then
      p.createBondMessage now me s.proto.remoteId (s.proto.msgCounter + 1)
    else
      p.createGenericMessage type now s.proto.lastReceivedStamp me s.proto.remoteId
        (s.proto.msgCounter + 1) s.proto.lastReceivedCounter
  p.messageEncode (p.auxEncodeRole msg role)

/-- `pstop_session_commit_send`; `n` is what `zsock_sendto` returned. -/
def pstopSessionCommitSend (buf : Frame) (now : UInt64) (n : Int) (m : MachineSlot) :
    MachineSlot :=
  let s := m.session
  if n ≠ messageSize then
    { m with session := { s with sendFail := s.sendFail + 1 } }.record (.send now buf false)
  else
    let s :=
      { s with
        proto := { s.proto with msgCounter := s.proto.msgCounter + 1 }
        lastSendMs := now
        sent := s.sent + 1 }
    let s :=
      match s.state with
      | .idle => { s with state := .bonding, lastBondMs := now }
      | .bonding => { s with lastBondMs := now }
      | _ => s
    { m with session := s }.record (.send now buf true)

def fromPeer (s : Session) (d : Datagram) : Bool :=
  decide (d.addr = s.peerAddr) && decide (d.port = s.peerPort)

/-- One frame from the peer, as `pstop_session_poll` handles it. -/
def pollFrame (now : UInt64) (m : MachineSlot) (f : Frame) : MachineSlot :=
  let msg := p.messageDecode f
  let s := m.session
  if msg.checksum ≠ msg.calculatedChecksum then m
  else if msg.message = messageUnbond then
    { m with
      session :=
        { s with state := .rejected, lastMsg := msg.message, unbonds := s.unbonds + 1 } }.record
      .unbond
  else if s.state = .rejected then m
  else
    { m with
      session :=
        { s with
          proto :=
            { s.proto with
              lastReceivedCounter := msg.counter
              lastReceivedStamp := msg.stamp }
          lastReplyMs := now
          lastMsg := msg.message
          replies := s.replies + 1
          hbMs := if msg.heartbeatTimeout ≠ 0 then msg.heartbeatTimeout else s.hbMs
          state := .bonded } }.record
      (.reply now msg)

/-- The draining loop of `pstop_session_poll` over the queued datagrams. -/
def pollLoop (now : UInt64) : List Datagram → MachineSlot → MachineSlot
  | [], m => { m with rx := [] }
  | d :: rest, m =>
    match d.frame with
    -- anything but a full frame ends the loop, the datagram itself consumed
    | none => { m with rx := rest }
    | some f => if fromPeer m.session d then pollLoop now rest (pollFrame p now m f)
      else pollLoop now rest m

def pstopSessionPoll (now : UInt64) (m : MachineSlot) : MachineSlot := pollLoop p now m.rx m

def pstopSessionRebond (m : MachineSlot) : MachineSlot :=
  let s := m.session
  { m with
    session :=
      { s with
        state := .idle
        hbMs := 0
        rebonds := s.rebonds + 1
        proto := freshProto p s.proto s.peerId } }.record .rebond

def pstopSessionWatchdog (now : UInt64) (m : MachineSlot) : MachineSlot :=
  if m.session.state ≠ .bonded then m
  else if now - m.session.lastReplyMs < pstopSessionRebondAfterMs m.session then m
  else pstopSessionRebond p m

/-- `slot_apply_config`: close what is open, then open afresh if the stored peer is
configured. -/
def slotApplyConfig (slot : Slot) (peer : Peer) (sock bound : Int) (m : MachineSlot) :
    MachineSlot :=
  let m := if m.active then pstopSessionClose m else m
  let m := { m with active := false, session := { m.session with sock := -1 } }
  if !peer.configured then m
  else
    let (m, ok) := pstopSessionOpen p slot peer sock bound m
    if ok then { m with active := true } else m

end ZephyrApps.PstopSession
