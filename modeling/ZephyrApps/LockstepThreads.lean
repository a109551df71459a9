import ZephyrApps.LockstepDevice

/-!
# The comparator and sampler threads

One step of `comparator_thread` or of a `sampler_thread` at a time, in any order,
with the go and done semaphores of limit 1 between them. `begun` and `samples` are
history only: the statics as `begin_tick` left them, and how often each channel was
sampled for the generation it minted.
-/
namespace ZephyrApps.LockstepThreads
open Pstop AppSettings ControlPlane EstopVerdict PstopSession LockstepComparator LockstepDevice
  SystemRuns

/-- Where `comparator_thread` stands. -/
inductive ComparatorPc where
  | beginTick
  | resetDone (c : Channel)
  | giveGo (c : Channel)
  | takeDone (c : Channel)
  | checkGen (c : Channel)
  | judge
  | published (c : Channel)
  | gate
  | compare (s : Slot)
  | send (s : Slot)
  | observe
  | poll (s : Slot)
  deriving DecidableEq

/-- Where `sampler_thread` stands; in a pass, with the generation it read and the
statements of `sampler_pass` that remain. -/
inductive SamplerPc where
  | takeGo
  | readGen
  | pass (gen : UInt32) (rest : List SamplerStep)
  deriving DecidableEq

structure Threads where
  shared : Shared
  lk : Lockstep
  pc : ComparatorPc
  -- `now_ms`, `gen` and `late_mask` of the comparator
  now : UInt64
  gen : UInt32
  late : Channel → Bool
  sampler : Channel → SamplerPc
  go : Channel → Bool
  done : Channel → Bool
  begun : Lockstep
  samples : Channel → ℕ

structure ComparatorIo where
  now : UInt64
  sock : Slot → Int
  bound : Slot → Int
  expired : Bool
  sendto : Int
  uptimeMs : UInt64
  lateByMs : UInt32
  arrived : List Datagram

/-- A step of one of the threads; the HTTP thread makes one write at a time. -/
inductive Act where
  | http (write : HttpStep)
  | comparator (io : ComparatorIo)
  | sampler (c : Channel) (reads : Reads) (doneMs : UInt32)

/-- What `begin_tick` reads of the shared state when nothing is written meanwhile. -/
def readShared (σ : Shared) : BeginReads :=
  ⟨σ.reconfigureRequests, σ.rebondRequests, σ.settings.peers, σ.settings.isOperator⟩

/-- The shared state once `begin_tick` has cleared the requests. -/
def clearRequests (σ : Shared) : Shared :=
  { σ with reconfigureRequests := fun _ => false, rebondRequests := fun _ => false }

def nextChannel (c : Channel) (loop : Channel → ComparatorPc) (exit : ComparatorPc) :
    ComparatorPc := if c = 0 then loop 1 else exit

def nextSlot (s : Slot) (loop : Slot → ComparatorPc) (exit : ComparatorPc) : ComparatorPc :=
  if h : s.val + 1 < 4 then loop ⟨s.val + 1, h⟩ else exit

def sendSlot (L : Lockstep) (s : Slot) (n : Int) : Lockstep :=
  if L.due s then
    { L with
      slots := Function.update L.slots s
        (pstopSessionCommitSend ((L.samplers 0).frames s) L.snap.nowMs n (L.slots s)) }
  else L

variable (p : PstopC)

def Threads.decline (t : Threads) (io : ComparatorIo) : Threads :=
  { t with
    pc := .poll 0
    lk := { t.lk with missedDeadlines := t.lk.missedDeadlines + 1 }.recordLate io.uptimeMs t.late
      io.lateByMs }

def Threads.comparatorStep (t : Threads) (io : ComparatorIo) : Option Threads :=
  match t.pc with
  | .beginTick =>
    let lk := t.lk.beginTick p (readShared t.shared) io.now io.sock io.bound
    some
      { t with
        shared := clearRequests t.shared
        lk := lk
        pc := .resetDone 0
        now := io.now
        gen := lk.tickGen
        late := fun _ => false
        begun := lk
        samples := fun _ => 0 }
  | .resetDone c =>
    some { t with
      done := Function.update t.done c false, pc := nextChannel c .resetDone (.giveGo 0) }
  | .giveGo c =>
    some { t with go := Function.update t.go c true, pc := nextChannel c .giveGo (.takeDone 0) }
  | .takeDone c =>
    let pc := nextChannel c .takeDone (.checkGen 0)
    -- a pending give is taken even when the deadline has passed
    if t.done c then
      some { t with
        done := Function.update t.done c false
        lk := t.lk.recordLatency c ((t.lk.samplers c).doneMs - t.now.toUInt32), pc }
    else if io.expired then some { t with late := Function.update t.late c true, pc }
    else none
  | .checkGen c =>
    some { t with
      late := if (t.lk.samplers c).gen ≠ t.gen then Function.update t.late c true else t.late
      pc := nextChannel c .checkGen .judge }
  | .judge => some (if !t.late 0 && !t.late 1 then { t with pc := .published 0 } else t.decline io)
  | .published c =>
    some (if (t.lk.samplers c).gen = t.gen then { t with pc := nextChannel c .published .gate }
      else t.decline io)
  | .gate =>
    some (if t.lk.primed then { t with pc := .compare 0 }
      else { t with pc := .observe, lk := { t.lk with gatedTicks := t.lk.gatedTicks + 1 } })
  | .compare s =>
    some (if t.lk.differs s then
      { t with
        pc := .observe
        lk := { t.lk.recordMismatch io.uptimeMs s with mismatches := t.lk.mismatches + 1 } }
      else { t with pc := nextSlot s .compare (.send 0) })
  | .send s => some { t with lk := sendSlot t.lk s io.sendto, pc := nextSlot s .send .observe }
  | .observe => some { t with lk := t.lk.observe t.gen, pc := .poll 0 }
  | .poll s =>
    some { t with
      lk :=
        { t.lk with
          slots := Function.update t.lk.slots s (serviceSlot p t.now io.arrived (t.lk.slots s)) }
      pc := nextSlot s .poll .beginTick }

def Threads.samplerStep (t : Threads) (c : Channel) (reads : Reads) (doneMs : UInt32) :
    Option Threads :=
  match t.sampler c with
  | .takeGo =>
    if t.go c then
      some { t with
        go := Function.update t.go c false, sampler := Function.update t.sampler c .readGen }
    else none
  | .readGen =>
    some { t with sampler := Function.update t.sampler c (.pass t.lk.tickGen samplerProgram) }
  | .pass gen (st :: rest) =>
    some { t with
      lk :=
        { t.lk with
          samplers := Function.update t.lk.samplers c
            ((t.lk.samplers c).step p t.lk.slots t.lk.snap c reads
              t.shared.settings.effectiveDeviceId doneMs gen st) }
      sampler := Function.update t.sampler c (.pass gen rest)
      samples := if st = .sample ∧ gen = t.lk.tickGen then
        Function.update t.samples c (t.samples c + 1) else t.samples }
  | .pass _ [] =>
    some { t with
      done := Function.update t.done c true, sampler := Function.update t.sampler c .takeGo }

def Threads.step (t : Threads) : Act → Option Threads
  | .http write => some { t with shared := write.apply t.shared }
  | .comparator io => t.comparatorStep p io
  | .sampler c reads doneMs => t.samplerStep p c reads doneMs

/-- The threads as `pstop_lockstep_start()` creates them after init. -/
def threads (b : Boot) : Threads where
  shared := (b.device p).shared
  lk := (b.device p).lk
  pc := .beginTick
  now := 0
  gen := 0
  late _ := false
  sampler _ := .takeGo
  go _ := false
  done _ := false
  begun := (b.device p).lk
  samples _ := 0

end ZephyrApps.LockstepThreads
