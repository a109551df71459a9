import ZephyrApps.LockstepTicks

/-!
# Where a slot's session is connected

The socket of a slot and the machine it is addressed to. Only a reconfigure changes
them: rebonding, sending, polling and the watchdog leave the endpoint as it is.
-/
namespace ZephyrApps.SessionEndpoints
open Pstop AppSettings PstopSession LockstepComparator LockstepDevice LockstepTicks

/-- Whether the slot is active, its socket, and the machine its session is for. -/
structure Endpoint where
  active : Bool
  sock : Int
  peerAddr : UInt32
  peerPort : UInt16
  peerId : UInt32
  deriving DecidableEq

def endpoint (m : MachineSlot) : Endpoint :=
  ⟨m.active, m.session.sock, m.session.peerAddr, m.session.peerPort, m.session.peerId⟩

variable (p : PstopC)

@[simp] theorem endpoint_rebond (m : MachineSlot) :
    endpoint (pstopSessionRebond p m) = endpoint m := rfl

@[simp] theorem endpoint_commit (f : Frame) (now : UInt64) (n : Int) (m : MachineSlot) :
    endpoint (pstopSessionCommitSend f now n m) = endpoint m := by
  unfold pstopSessionCommitSend
  dsimp only
  split
  case isTrue => rfl
  case isFalse => cases m.session.state <;> rfl

theorem endpoint_pollFrame (now : UInt64) (m : MachineSlot) (f : Frame) :
    endpoint (pollFrame p now m f) = endpoint m := by
  unfold pollFrame
  dsimp only
  split
  case isTrue => rfl
  case isFalse =>
    split
    case isTrue => rfl
    case isFalse => split <;> rfl

@[simp] theorem endpoint_poll (now : UInt64) (m : MachineSlot) :
    endpoint (pstopSessionPoll p now m) = endpoint m :=
  poll_induction (I := fun m' => endpoint m' = endpoint m) (fun _ _ h => h)
    (fun m' f h => (endpoint_pollFrame p now m' f).trans h) rfl

@[simp] theorem endpoint_watchdog (now : UInt64) (m : MachineSlot) :
    endpoint (pstopSessionWatchdog p now m) = endpoint m := by
  rcases watchdog_cases p now m with h | ⟨-, h⟩
  · rw [h]
  · rw [h, endpoint_rebond]

@[simp] theorem endpoint_service (now : UInt64) (arrived : List Datagram) (m : MachineSlot) :
    endpoint (serviceSlot p now arrived m) = endpoint m := by
  unfold serviceSlot
  split
  case isTrue =>
    rw [endpoint_watchdog, endpoint_poll]
    rfl
  case isFalse => rfl

/-- Rebonds aside, the start of a tick is a reconfigure or nothing. -/
theorem endpoint_beginSlot (r : BeginReads) (sock bound : Slot → Int) (s : Slot)
    (m : MachineSlot) :
    endpoint (beginSlot p r sock bound s m) =
      endpoint (if r.reconfigure s then slotApplyConfig p s (r.peer s) (sock s) (bound s) m
        else m) := by
  let c := if r.reconfigure s then slotApplyConfig p s (r.peer s) (sock s) (bound s) m else m
  change endpoint (if c.active && r.rebond s then pstopSessionRebond p c else c) = endpoint c
  split
  case isTrue => exact endpoint_rebond p c
  case isFalse => rfl

variable (d : Device) (i : Tick) (s : Slot)

/-- After its start a tick leaves every endpoint alone. -/
theorem endpoint_tick : endpoint ((d.tick p i).lk.slots s) =
    endpoint ((d.beginTick p i).lk.slots s) := by
  rw [tick_slots, endpoint_service, atPoll]
  split
  case isTrue => exact endpoint_commit _ _ _ _
  case isFalse => rfl

/-- What a reconfigure makes of a slot's endpoint when no socket call fails. -/
theorem endpoint_config (peer : Peer) {sock bound : Int} (hs : 0 ≤ sock) (hb : 0 ≤ bound)
    (m : MachineSlot) :
    (peer.configured = false → (endpoint (slotApplyConfig p s peer sock bound m)).active = false) ∧
    (peer.configured = true → endpoint (slotApplyConfig p s peer sock bound m) =
      ⟨true, sock, peer.ip, peer.port, peer.id⟩) := by
  have hs' : ¬ sock < 0 := by omega
  have hb' : ¬ bound < 0 := by omega
  constructor
  · intro hc
    simp [slotApplyConfig, hc, endpoint]
  · intro hc
    simp [slotApplyConfig, pstopSessionOpen, hc, hs', hb', endpoint]

end ZephyrApps.SessionEndpoints
