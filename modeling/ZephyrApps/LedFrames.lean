import ZephyrApps.MismatchFilter
import ZephyrApps.SettingsStore
import ZephyrApps.StatusPixel

/-!
# The thread of the LEDs

`leds.c`: what a frame of the ring and of the status pixel is made of, frame after frame.
-/
namespace ZephyrApps.LedFrames
open ApiState AppSettings LockstepComparator MismatchFilter Pstop PstopSession SettingsStore
open StatusPixel StatusRing SystemRuns

/-- What a frame reads: the lockstep, the settings, the uplink and the deadline of `leds_locate`,
and the uptime when `collect` begins and when `leds_locate_active` looks at it. -/
structure Frame where
  lockstep : Lockstep
  settings : Image
  uplink : UplinkStatus
  locateUntilMs : UInt64
  now : UInt64
  located : UInt64

variable {count : UInt32} {fs past : List Frame} {f : Frame} {inp : RingInput} {slot : Slot}

/-- The machine of a slot answers: its session is active and bonded, and the last reply is at most
two seconds old. -/
structure Answers (f : Frame) (slot : Slot) : Prop where
  active : (f.lockstep.slots slot).active = true
  bonded : (f.lockstep.slots slot).session.state = .bonded
  replied : 0 < (f.lockstep.slots slot).session.lastReplyMs.toNat
  past : (f.lockstep.slots slot).session.lastReplyMs.toNat ≤ f.now.toNat
  fresh : f.now.toNat - (f.lockstep.slots slot).session.lastReplyMs.toNat < 2000

def brightness (c : RingRgb) : ℕ := c.r.toNat + c.g.toNat

end ZephyrApps.LedFrames
