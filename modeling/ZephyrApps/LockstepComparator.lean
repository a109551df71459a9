import Mathlib.Data.List.FinRange
import ZephyrApps.EstopVerdict
import ZephyrApps.PstopSession

/-!
# The lockstep comparator

Two samplers read one channel each and encode a frame per due slot; the
comparator transmits only when the encodings are byte-identical. What
`lockstep.c` keeps per sampler is one `Sampler` record here, and what it keeps
per machine slot one `MachineSlot`; a loop over independent slots is a function
of the slot.
-/
namespace ZephyrApps.LockstepComparator
open Pstop AppSettings EstopVerdict PstopSession

/-- `estop[c]`, `sampler_verdict[c]`, `frames[c]`, `sampler_done_ms[c]` and
`sampler_gen[c]`. -/
structure Sampler where
  estop : EstopState
  verdict : UInt8
  frames : Slot → Frame
  doneMs : UInt32
  gen : UInt32

/-- `tick_now_ms`, `tick_due` and `tick_role`. -/
structure Snapshot where
  nowMs : UInt64
  due : Slot → Bool
  role : AuxRole

/-- `enum pstop_lockstep_event` -/
inductive FaultKind where
  | none | timeout | content
  deriving DecidableEq

/-- `struct pstop_lockstep_diag` -/
structure Diag where
  lastKind : FaultKind
  lateMask : Channel → Bool
  lateByMs : UInt32
  lateUptimeMs : UInt64
  mismatchSlot : Slot
  mismatchOffset : ℕ
  mismatchVerdict : Channel → UInt8
  mismatchUptimeMs : UInt64
  latencyMaxMs : Channel → UInt32

/-- The statics of `lockstep.c` that the comparator and the samplers own.
`observed` lists the calls of the tick observer, which is installed when
`observing`. -/
structure Lockstep where
  slots : Slot → MachineSlot
  samplers : Channel → Sampler
  snap : Snapshot
  tickGen : UInt32
  diag : Diag
  mismatches : UInt32
  missedDeadlines : UInt32
  gatedTicks : UInt32
  observing : Bool
  observed : List (UInt32 × UInt8 × UInt8)

variable (p : PstopC)

/-- The statements of `sampler_pass`: sample, build slot by slot, publish. -/
inductive SamplerStep where
  | sample
  | build (slot : Slot)
  | publish
  deriving DecidableEq

/-- `sampler_pass`, its loop over the slots unrolled. -/
def samplerProgram : List SamplerStep :=
  [.sample, .build 0, .build 1, .build 2, .build 3, .publish]

def Sampler.sample (c : Channel) (rb : Reads) (sm : Sampler) : Sampler :=
  let (estop, verdict) := estopChannelSample c rb sm.estop
  { sm with estop, verdict }

/-- `slot_active[slot] && tick_due[slot]` -/
def dueSlot (slots : Slot → MachineSlot) (snap : Snapshot) (slot : Slot) : Bool :=
  (slots slot).active && snap.due slot

def Sampler.build (slots : Slot → MachineSlot) (snap : Snapshot) (slot : Slot) (me : UInt32)
    (sm : Sampler) : Sampler :=
  if dueSlot slots snap slot then
    { sm with
      frames := Function.update sm.frames slot
        (pstopSessionBuild p (slots slot).session sm.verdict snap.role snap.nowMs me) }
  else sm

def Sampler.publish (doneMs gen : UInt32) (sm : Sampler) : Sampler := { sm with doneMs, gen }

/-- `me` is the device id in force when the statement runs. -/
def Sampler.step (slots : Slot → MachineSlot) (snap : Snapshot) (c : Channel) (rb : Reads)
    (me doneMs gen : UInt32) (sm : Sampler) : SamplerStep → Sampler
  | .sample => sm.sample c rb
  | .build slot => sm.build p slots snap slot me
  | .publish => sm.publish doneMs gen

/-- `samplers_published` -/
def samplersPublished (L : Lockstep) (gen : UInt32) : Bool :=
  decide ((L.samplers 0).gen = gen) && decide ((L.samplers 1).gen = gen)

def Lockstep.primed (L : Lockstep) : Bool := estopChannelsPrimed fun c => (L.samplers c).estop

def Lockstep.due (L : Lockstep) (slot : Slot) : Bool := dueSlot L.slots L.snap slot

def firstDifference (f g : Frame) : ℕ :=
  ((f.bytes.zip g.bytes).takeWhile fun b => decide (b.1 = b.2)).length

def Lockstep.recordMismatch (L : Lockstep) (uptimeMs : UInt64) (slot : Slot) : Lockstep :=
  { L with
    diag :=
      { L.diag with
        mismatchSlot := slot
        mismatchOffset := firstDifference ((L.samplers 0).frames slot) ((L.samplers 1).frames slot)
        mismatchVerdict := fun c => (L.samplers c).verdict
        mismatchUptimeMs := uptimeMs
        lastKind := .content } }

def Lockstep.recordLate (L : Lockstep) (uptimeMs : UInt64) (lateMask : Channel → Bool)
    (lateByMs : UInt32) : Lockstep :=
  { L with
    diag := { L.diag with lateMask, lateByMs, lateUptimeMs := uptimeMs, lastKind := .timeout } }

def Lockstep.recordLatency (L : Lockstep) (c : Channel) (latencyMs : UInt32) : Lockstep :=
  if L.diag.latencyMaxMs c < latencyMs then
    { L with
      diag := { L.diag with latencyMaxMs := Function.update L.diag.latencyMaxMs c latencyMs } }
  else L

def Lockstep.differs (L : Lockstep) (slot : Slot) : Bool :=
  L.due slot && decide ((L.samplers 0).frames slot ≠ (L.samplers 1).frames slot)

/-- The sending loop of `comparator_pass`. -/
def Lockstep.sendAll (L : Lockstep) (sendto : Slot → Int) : Lockstep :=
  { L with
    slots := fun s =>
      if L.due s then
        pstopSessionCommitSend ((L.samplers 0).frames s) L.snap.nowMs (sendto s) (L.slots s)
      else L.slots s }

/-- `comparator_pass`; `sendto` are the results of `zsock_sendto`. -/
def Lockstep.comparatorPass (L : Lockstep) (sendto : Slot → Int) (uptimeMs : UInt64) : Lockstep :=
  if !L.primed then { L with gatedTicks := L.gatedTicks + 1 }
  else
    match (List.finRange 4).find? L.differs with
    | some s => { L.recordMismatch uptimeMs s with mismatches := L.mismatches + 1 }
    | none => L.sendAll sendto

/-- `tick_observer(gen, sampler_verdict[0], sampler_verdict[1])` -/
def Lockstep.observe (L : Lockstep) (gen : UInt32) : Lockstep :=
  if L.observing && L.primed then
    { L with
      observed := L.observed ++ [(gen, (L.samplers 0).verdict, (L.samplers 1).verdict)] }
  else L

/-- Poll and watchdog of one slot; `arrived` joined its queue since the last tick. -/
def serviceSlot (now : UInt64) (arrived : List Datagram) (m : MachineSlot) : MachineSlot :=
  if m.active then
    pstopSessionWatchdog p now (pstopSessionPoll p now { m with rx := m.rx ++ arrived })
  else m

/-- Compare or decline, the first part of `run_tick_body`. -/
def Lockstep.compareOrDecline (L : Lockstep) (gen : UInt32) (lateMask : Channel → Bool)
    (lateByMs : UInt32) (sendto : Slot → Int) (uptimeMs : UInt64) : Lockstep :=
  let late := fun c => lateMask c || !decide ((L.samplers c).gen = gen)
  if !late 0 && !late 1 && samplersPublished L gen then
    (L.comparatorPass sendto uptimeMs).observe gen
  else
    { L with missedDeadlines := L.missedDeadlines + 1 }.recordLate uptimeMs late lateByMs

/-- `run_tick_body` -/
def Lockstep.runTickBody (L : Lockstep) (now : UInt64) (gen : UInt32) (lateMask : Channel → Bool)
    (lateByMs : UInt32) (sendto : Slot → Int) (uptimeMs : UInt64)
    (arrivals : Slot → List Datagram) : Lockstep :=
  let L := L.compareOrDecline gen lateMask lateByMs sendto uptimeMs
  { L with slots := fun s => serviceSlot p now (arrivals s) (L.slots s) }

/-- What `begin_tick` reads from the HTTP thread: the cleared request words, each
slot's stored peer, and the role. -/
structure BeginReads where
  reconfigure : Slot → Bool
  rebond : Slot → Bool
  peer : Slot → Peer
  operator : Bool

/-- Both loops of `begin_tick` over the requests, for one slot. -/
def beginSlot (r : BeginReads) (sock bound : Slot → Int) (s : Slot) (m : MachineSlot) :
    MachineSlot :=
  let m := if r.reconfigure s then slotApplyConfig p s (r.peer s) (sock s) (bound s) m else m
  if m.active && r.rebond s then pstopSessionRebond p m else m

/-- `begin_tick`; the generation it returns is the new `tickGen`. -/
def Lockstep.beginTick (L : Lockstep) (r : BeginReads) (now : UInt64) (sock bound : Slot → Int) :
    Lockstep :=
  let slots := fun s => beginSlot p r sock bound s (L.slots s)
  { L with
    slots
    snap :=
      { nowMs := now
        role := if r.operator then .operator else .stopOnly
        due := fun s => (slots s).active && pstopSessionDue (slots s).session now }
    tickGen := L.tickGen + 1 }

def Sampler.zeroed : Sampler := ⟨estopStateInit, 0, fun _ => Frame.zero, 0, 0⟩

def Diag.zeroed : Diag :=
  ⟨.none, fun _ => false, 0, 0, 0, 0, fun _ => 0, 0, fun _ => 0⟩

def Lockstep.zeroed (observing : Bool) : Lockstep where
  slots _ := MachineSlot.zeroed
  samplers _ := Sampler.zeroed
  snap := ⟨0, fun _ => false, .stopOnly⟩
  tickGen := 0
  diag := Diag.zeroed
  mismatches := 0
  missedDeadlines := 0
  gatedTicks := 0
  observing := observing
  observed := []

/-- `pstop_lockstep_init` -/
def Lockstep.init (L : Lockstep) (peer : Slot → Peer) (sock bound : Slot → Int) : Lockstep :=
  { L with
    samplers := fun c => { L.samplers c with estop := estopStateInit }
    slots := fun s =>
      slotApplyConfig p s (peer s) (sock s) (bound s) { L.slots s with active := false } }

/-- The statics differ in their counters, their diagnostics and the calls of the
observer at most. -/
structure SameWork (L L' : Lockstep) : Prop where
  samplers : L'.samplers = L.samplers
  snap : L'.snap = L.snap
  tickGen : L'.tickGen = L.tickGen
  slots : L'.slots = L.slots

theorem SameWork.refl (L : Lockstep) : SameWork L L := ⟨rfl, rfl, rfl, rfl⟩

theorem recordLatency_sameWork (L : Lockstep) (c : Channel) (ms : UInt32) :
    SameWork L (L.recordLatency c ms) := by
  unfold Lockstep.recordLatency
  split <;> exact ⟨rfl, rfl, rfl, rfl⟩

theorem observe_sameWork (L : Lockstep) (gen : UInt32) : SameWork L (L.observe gen) := by
  unfold Lockstep.observe
  split <;> exact ⟨rfl, rfl, rfl, rfl⟩

end ZephyrApps.LockstepComparator
