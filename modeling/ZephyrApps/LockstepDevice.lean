import ZephyrApps.ControlPlane
import ZephyrApps.LockstepComparator
import ZephyrApps.PstopReference
import ZephyrApps.SystemRuns

/-!
# Ticks and runs of the remote

A device is the comparator's state together with what the HTTP thread writes.
`Device.tick` is one tick of `pstop_lockstep_tick()` during which writes of the
HTTP thread may land before every read of the shared state, and the two sampler
passes may interleave; `Schedule.sync` is the order of the synchronous path.
-/
namespace ZephyrApps.LockstepDevice
open Pstop AppSettings ControlPlane EstopVerdict PstopSession LockstepComparator SystemRuns

structure Schedule where
  order : List (Channel × SamplerStep)
  each : ∀ c, (order.filter fun x => x.1 = c).map Prod.snd = samplerProgram

theorem samplerProgram_nodup : samplerProgram.Nodup := by decide

theorem Schedule.nodup (sched : Schedule) : sched.order.Nodup := by
  rw [List.nodup_iff_count_le_one]
  intro x
  calc sched.order.count x = (sched.order.filter fun y => y.1 = x.1).count x :=
      (List.count_filter (by simp)).symm
    _ ≤ ((sched.order.filter fun y => y.1 = x.1).map Prod.snd).count x.2 :=
      List.count_le_count_map
    _ ≤ 1 := by
      rw [sched.each]
      exact List.nodup_iff_count_le_one.mp samplerProgram_nodup x.2

/-- First channel 0, then channel 1, as `tick_sync` runs them. -/
def Schedule.sync : Schedule where
  order := samplerProgram.map (Prod.mk 0) ++ samplerProgram.map (Prod.mk 1)
  each c := by
    cases c using channel_cases with
    | zero => rfl
    | one => rfl

/-- The reads of the shared state, in the order of a tick; writes listed at a
point land before that read. -/
inductive Point where
  | reconfigure
  | rebond
  | peer (slot : Slot)
  | role
  | sampler (c : Channel) (step : SamplerStep)
  deriving DecidableEq

/-- Everything a tick takes from outside: its time, the readbacks, the results of
the socket calls, the datagrams that arrived, the writes of the HTTP thread. -/
structure Tick where
  now : UInt64
  reads : Channel → Reads
  sched : Schedule
  http : Point → List HttpStep
  sock : Slot → Int
  bound : Slot → Int
  sendto : Slot → Int
  arrivals : Slot → List Datagram
  doneMs : Channel → UInt32
  uptimeMs : UInt64
  lateMask : Channel → Bool

structure Device where
  shared : Shared
  lk : Lockstep

variable (p : PstopC)

/-- The shared state when `begin_tick` clears the reconfigure requests. -/
def Device.atReconfigure (i : Tick) (d : Device) : Shared := d.shared.after (i.http .reconfigure)

/-- The shared state when `begin_tick` clears the rebond requests. -/
def Device.atRebond (i : Tick) (d : Device) : Shared :=
  { d.atReconfigure i with reconfigureRequests := fun _ => false }.after (i.http .rebond)

/-- The shared state when `begin_tick` reads the peer of a slot. -/
def Device.atPeer (i : Tick) (d : Device) (slot : Slot) : Shared :=
  { d.atRebond i with rebondRequests := fun _ => false }.after
    (((List.finRange 4).filter (· ≤ slot)).flatMap fun s => i.http (.peer s))

/-- The shared state when `begin_tick` reads the role. -/
def Device.atRole (i : Tick) (d : Device) : Shared := (d.atPeer i 3).after (i.http .role)

def Device.beginReads (i : Tick) (d : Device) : BeginReads where
  reconfigure := (d.atReconfigure i).reconfigureRequests
  rebond := (d.atRebond i).rebondRequests
  peer s := (d.atPeer i s).settings.peers s
  operator := (d.atRole i).settings.isOperator

def Device.beginTick (i : Tick) (d : Device) : Device where
  shared := d.atRole i
  lk := d.lk.beginTick p (d.beginReads i) i.now i.sock i.bound

def Device.samplerAct (i : Tick) (d : Device) (x : Channel × SamplerStep) : Device :=
  let σ := d.shared.after (i.http (.sampler x.1 x.2))
  { shared := σ
    lk :=
      { d.lk with
        samplers := Function.update d.lk.samplers x.1
          ((d.lk.samplers x.1).step p d.lk.slots d.lk.snap x.1 (i.reads x.1)
            σ.settings.effectiveDeviceId (i.doneMs x.1) d.lk.tickGen x.2) } }

def Device.sampleBoth (i : Tick) (d : Device) : Device :=
  i.sched.order.foldl (Device.samplerAct p i) d

def Device.sampled (i : Tick) (d : Device) : Device := (d.beginTick p i).sampleBoth p i

/-- `tick_sync`, with the passes in any order. -/
def Device.tick (d : Device) (i : Tick) : Device :=
  let d := d.sampled p i
  { d with
    lk := d.lk.runTickBody p i.now d.lk.tickGen i.lateMask 0 i.sendto i.uptimeMs i.arrivals }

def Device.events (d : Device) (i : Tick) (s : Slot) : List Event :=
  ((d.tick p i).lk.slots s).log.drop (d.lk.slots s).log.length

structure Boot where
  settings : Settings
  sock : Slot → Int
  bound : Slot → Int
  observing : Bool

/-- The device after `pstop_lockstep_init()`. -/
def Boot.device (b : Boot) : Device where
  shared := ⟨b.settings, fun _ => false, fun _ => false⟩
  lk := (Lockstep.zeroed b.observing).init p b.settings.peers b.sock b.bound

def after (b : Boot) (is : List Tick) : Device := run (Device.tick p) (b.device p) is

@[simp] theorem after_nil (b : Boot) : after p b [] = b.device p := rfl

@[simp] theorem after_concat (b : Boot) (is : List Tick) (i : Tick) :
    after p b (is ++ [i]) = (after p b is).tick p i := run_concat _ _ _ _

def oneMachine : Boot where
  settings :=
    { peers := fun s => if s = 0 then ⟨0x7F000001, 8890, 0x01020304, true⟩ else Peer.zero
      deviceId := 0
      derivedId := 0xC0A80105
      isOperator := false }
  sock s := 3 + s.val
  bound _ := 0
  observing := false

/-- A tick that reads both loops as `reads`, sends without failure, and hears
nothing from the network or the HTTP thread. -/
def quietTick (now : UInt64) (reads : Channel → Reads) : Tick where
  now := now
  reads := reads
  sched := Schedule.sync
  http _ := []
  sock _ := 7
  bound _ := 0
  sendto _ := messageSize
  arrivals _ := []
  doneMs _ := 0
  uptimeMs := now
  lateMask _ := false

/-- Both loops conduct, or neither does. -/
def closedReads : Channel → Reads := fun _ => (1, 0)
def openReads : Channel → Reads := fun _ => (0, 0)

def machineReply (code : UInt8) (heartbeatMs : UInt32) : Datagram where
  addr := 0x7F000001
  port := 8890
  bytes :=
    (encodeMsg
      { genericMsg code 5000 0 0x01020304 0xC0A80105 1 1 with
        heartbeatTimeout := heartbeatMs }).bytes

def Tick.hearing (t : Tick) (datagram : Datagram) : Tick :=
  { t with arrivals := fun s => if s = 0 then [datagram] else [] }

def Tick.writing (t : Tick) (here : Point) (steps : List HttpStep) : Tick :=
  { t with http := fun point => if point = here then steps else [] }

/-- Three closed ticks; the third sends the BOND, and the machine acknowledges it
with a heartbeat window of 2 s. -/
def bondingRun : List Tick :=
  [quietTick 100 closedReads, quietTick 200 closedReads,
    (quietTick 300 closedReads).hearing (machineReply messageOk 2000)]

end ZephyrApps.LockstepDevice
