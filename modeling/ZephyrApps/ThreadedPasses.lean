import ZephyrApps.LockstepTransmission
import ZephyrApps.SamplerSteps

/-!
# The pass of a sampler thread in a tick

The tick that `pstop_lockstep_tick()` would have run, and how far a sampler thread
has come on its own pass through it. A pass reads the slots and the snapshot that
`begin_tick` left and writes its own sampler only, so its steps and those of the
other threads may be taken in any order.
-/
namespace ZephyrApps.ThreadedTick
open Pstop AppSettings ControlPlane EstopVerdict PstopSession LockstepComparator LockstepDevice
  LockstepTicks LockstepThreads LockstepFreshness LockstepTransmission SystemRuns

/-- The tick as `pstop_lockstep_tick()` runs it: one pass after the other, none late,
and nothing written meanwhile. -/
def synchronous (i : Tick) : Tick :=
  { i with sched := .sync, http := fun _ => [], lateMask := fun _ => false }

variable (p : PstopC) (d : Device) (i : Tick)

/-- Nothing is written before a peer is read. -/
theorem atPeer_synchronous (s : Slot) :
    d.atPeer (synchronous i) s = clearRequests d.shared := by
  have hnil : (((List.finRange 4).filter (· ≤ s)).flatMap fun t =>
      (synchronous i).http (.peer t)) = [] := List.flatMap_eq_nil_iff.mpr fun _ _ => rfl
  rw [Device.atPeer, hnil]
  rfl

theorem beginReads_synchronous : d.beginReads (synchronous i) = readShared d.shared := by
  simp only [Device.beginReads, Device.atRole, atPeer_synchronous]
  rfl

/-- What `begin_tick` leaves. -/
def begun : Lockstep := (d.beginTick p (synchronous i)).lk

theorem begun_eq : begun p d i = d.lk.beginTick p (readShared d.shared) i.now i.sock i.bound := by
  rw [begun, ← beginReads_synchronous d i]
  rfl

theorem settings_synchronous :
    (d.beginTick p (synchronous i)).shared.settings = d.shared.settings := by
  simp only [Device.beginTick, Device.atRole, atPeer_synchronous]
  rfl

def looked : Lockstep := (d.sampled p (synchronous i)).lk

@[simp] theorem looked_slots : (looked p d i).slots = (begun p d i).slots :=
  sampled_slots p d (synchronous i)

@[simp] theorem looked_snap : (looked p d i).snap = (begun p d i).snap :=
  sampled_snap p d (synchronous i)

@[simp] theorem looked_tickGen : (looked p d i).tickGen = d.lk.tickGen + 1 :=
  sampled_tickGen p d (synchronous i)

/-- Sampler `c` after the statements `did` of its pass. -/
def passed (c : Channel) (did : List SamplerStep) : Sampler :=
  did.foldl
    (fun sm st => sm.step p (begun p d i).slots (begun p d i).snap c (i.reads c)
      d.shared.settings.effectiveDeviceId (i.doneMs c) (d.lk.tickGen + 1) st)
    (d.lk.samplers c)

theorem passed_concat (c : Channel) (did : List SamplerStep) (st : SamplerStep) :
    passed p d i c (did ++ [st]) =
      (passed p d i c did).step p (begun p d i).slots (begun p d i).snap c (i.reads c)
        d.shared.settings.effectiveDeviceId (i.doneMs c) (d.lk.tickGen + 1) st := by
  simp [passed]

theorem looked_samplers (c : Channel) :
    (looked p d i).samplers c = passed p d i c samplerProgram := by
  have hkeeps : KeepsId (synchronous i) := fun c st step h => by simp [synchronous] at h
  rw [looked, sampled_samplers, passed]
  simp only [idAt_keepsId (synchronous i) hkeeps, Settings.effectiveDeviceId,
    settings_synchronous p d i]
  rfl

/-- The samplers differ in the time of their last completion at most. -/
def Redated (sm sm' : Sampler) : Prop := ∃ ms, sm' = { sm with doneMs := ms }

/-- A statement reads the time of no completion. -/
theorem Redated.step {sm sm' : Sampler} (h : Redated sm sm') (slots : Slot → MachineSlot)
    (snap : Snapshot) (c : Channel) (rb : Reads) (me ms ms' gen : UInt32) (st : SamplerStep) :
    Redated (sm.step p slots snap c rb me ms gen st) (sm'.step p slots snap c rb me ms' gen st) := by
  obtain ⟨m, rfl⟩ := h
  cases st with
  | sample => exact ⟨m, rfl⟩
  | build s =>
    simp only [Sampler.step, Sampler.build]
    split
    · exact ⟨m, rfl⟩
    · exact ⟨m, rfl⟩
  | publish => exact ⟨ms', rfl⟩

theorem step_reads (sm : Sampler) (slots : Slot → MachineSlot) (snap : Snapshot) (c : Channel)
    {rb rb' : Reads} (me ms gen : UInt32) {st : SamplerStep} (h : st = .sample → rb = rb') :
    sm.step p slots snap c rb me ms gen st = sm.step p slots snap c rb' me ms gen st := by
  cases st with
  | sample => rw [h rfl]
  | build s => rfl
  | publish => rfl

variable {p d i} {t t' : Threads} {c : Channel} {rb : Reads} {doneMs : UInt32}

variable (p d i) in
structure Finished (t : Threads) (c : Channel) : Prop where
  go : t.go c = false
  here : t.sampler c = .takeGo
  own : Redated (passed p d i c samplerProgram) (t.lk.samplers c)

variable (p d i) in
/-- How far a sampler that was given its go has come; `did` are the statements that
it has executed. -/
inductive Pass (t : Threads) (c : Channel) : Prop where
  | waiting (go : t.go c = true) (here : t.sampler c = .takeGo)
      (own : t.lk.samplers c = d.lk.samplers c)
  | reading (go : t.go c = false) (here : t.sampler c = .readGen)
      (own : t.lk.samplers c = d.lk.samplers c)
  | passing (did rest : List SamplerStep) (split : did ++ rest = samplerProgram)
      (go : t.go c = false) (here : t.sampler c = .pass (d.lk.tickGen + 1) rest)
      (own : Redated (passed p d i c did) (t.lk.samplers c))
  | finished (done : Finished p d i t c)

theorem Pass.keep (h : Pass p d i t c) (hgo : t'.go c = t.go c)
    (hs : t'.sampler c = t.sampler c) (hsm : t'.lk.samplers c = t.lk.samplers c) :
    Pass p d i t' c := by
  cases h with
  | waiting go here own => exact .waiting (hgo.trans go) (hs.trans here) (hsm.trans own)
  | reading go here own => exact .reading (hgo.trans go) (hs.trans here) (hsm.trans own)
  | passing did rest split go here own =>
    exact .passing did rest split (hgo.trans go) (hs.trans here) (hsm ▸ own)
  | finished done => exact .finished ⟨hgo.trans done.go, hs.trans done.here, hsm ▸ done.own⟩

theorem Finished.keep (h : Finished p d i t c) (hgo : t'.go c = t.go c)
    (hs : t'.sampler c = t.sampler c) (hsm : t'.lk.samplers c = t.lk.samplers c) :
    Finished p d i t' c := ⟨hgo.trans h.go, hs.trans h.here, hsm ▸ h.own⟩

/-- A finished sampler waits for a go that is not there. -/
theorem Finished.still (h : Finished p d i t c) (hm : SamplerMove p t c rb doneMs t') : False := by
  cases hm with
  | takes here go => exact Bool.false_ne_true (h.go.symm.trans go)
  | reads here => exact nomatch h.here.symm.trans here
  | runs gen st rest here => exact nomatch h.here.symm.trans here
  | gives gen here => exact nomatch h.here.symm.trans here

/-- What a sampler sees of the tick while it makes its pass. -/
structure Sees (p : PstopC) (d : Device) (i : Tick) (t : Threads) : Prop where
  slots : t.lk.slots = (begun p d i).slots
  snap : t.lk.snap = (begun p d i).snap
  tickGen : t.lk.tickGen = d.lk.tickGen + 1
  settings : t.shared.settings = d.shared.settings

def atSample : SamplerPc → Bool
  | .pass _ (.sample :: _) => true
  | _ => false

/-- The channel of a sample reads what it reads in the synchronous tick. -/
def ReadsAs (i : Tick) (t : Threads) (c : Channel) (rb : Reads) : Prop :=
  atSample (t.sampler c) = true → rb = i.reads c

instance (i : Tick) (t : Threads) (c : Channel) (rb : Reads) : Decidable (ReadsAs i t c rb) := by
  unfold ReadsAs
  infer_instance

/-- A move takes the pass one statement on; done is given by its last move only. -/
theorem Pass.move (h : Pass p d i t c) (hm : SamplerMove p t c rb doneMs t')
    (hsees : Sees p d i t) (hrb : ReadsAs i t c rb) :
    Pass p d i t' c ∧ (t'.done c = t.done c ∨ Finished p d i t' c) := by
  cases h with
  | finished done => exact (done.still hm).elim
  | waiting go here own =>
    cases hm with
    | takes => exact ⟨.reading (by simp) (by simp) own, Or.inl rfl⟩
    | reads here' => exact nomatch here.symm.trans here'
    | runs gen st rest here' => exact nomatch here.symm.trans here'
    | gives gen here' => exact nomatch here.symm.trans here'
  | reading go here own =>
    cases hm with
    | takes here' => exact nomatch here.symm.trans here'
    | reads =>
      refine ⟨.passing [] samplerProgram rfl go (by simp [hsees.tickGen]) ?_, Or.inl rfl⟩
      exact ⟨(d.lk.samplers c).doneMs, own⟩
    | runs gen st rest here' => exact nomatch here.symm.trans here'
    | gives gen here' => exact nomatch here.symm.trans here'
  | passing did rest split go here own =>
    cases hm with
    | takes here' => exact nomatch here.symm.trans here'
    | reads here' => exact nomatch here.symm.trans here'
    | runs gen st rest' here' =>
      obtain ⟨rfl, rfl⟩ : d.lk.tickGen + 1 = gen ∧ rest = st :: rest' := by
        simpa [here] using here'
      refine ⟨.passing (did ++ [st]) rest' (by simpa using split) go (by simp) ?_, Or.inl rfl⟩
      have hread : st = .sample → rb = i.reads c := by
        rintro rfl
        exact hrb (by rw [here]; rfl)
      rw [passed_concat]
      simp only [Function.update_self, hsees.slots, hsees.snap, hsees.settings,
        step_reads p _ _ _ c _ _ _ hread]
      exact own.step p _ _ c _ _ _ _ _ st
    | gives gen here' =>
      obtain ⟨-, rfl⟩ : d.lk.tickGen + 1 = gen ∧ rest = [] := by simpa [here] using here'
      obtain rfl : did = samplerProgram := by simpa using split
      have hfin : Finished p d i
          { t with
            done := Function.update t.done c true
            sampler := Function.update t.sampler c .takeGo } c := ⟨go, by simp, own⟩
      exact ⟨.finished hfin, Or.inr hfin⟩

end ZephyrApps.ThreadedTick
