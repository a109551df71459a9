import ZephyrApps.LockstepFreshness
import ZephyrApps.ThreadedTick

/-!
# The threaded tick refines the synchronous one

The schedules of one tick in which both samplers give done before the deadline,
the invariant along each of them, and what it says when the comparator is back at
the start of its loop.
-/
namespace ZephyrApps.ThreadedTick
open Pstop AppSettings ControlPlane EstopVerdict PstopSession LockstepComparator LockstepDevice
  LockstepTicks LockstepThreads LockstepFreshness SystemRuns

variable {p : PstopC} {d : Device} {i : Tick} {t t' : Threads} {c : Channel} {rb : Reads}
  {doneMs : UInt32}

/-- The comparator begins no other tick and waits for no sampler past the deadline,
and its sockets behave as in the tick `i`. -/
def Attends (i : Tick) (t : Threads) (io : ComparatorIo) : Prop :=
  t.pc ≠ .beginTick ∧
    (∀ c, t.pc = .takeDone c → t.done c = false → io.expired = false) ∧
    (∀ s, t.pc = .send s → io.sendto = i.sendto s) ∧
    ∀ s, t.pc = .poll s → io.arrived = i.arrivals s

instance (i : Tick) (t : Threads) (io : ComparatorIo) : Decidable (Attends i t io) := by
  unfold Attends
  infer_instance

/-- A step of the tick `i`, which leaves the settings and finds channels and sockets
as in `i`. -/
def InTick (i : Tick) (t : Threads) : Act → Prop
  | .http write => (write.apply t.shared).settings = t.shared.settings
  | .comparator io => Attends i t io
  | .sampler c reads _ => ReadsAs i t c reads

instance : DecidableEq Settings := fun a b =>
  decidable_of_iff ((∀ s, a.peers s = b.peers s) ∧ a.deviceId = b.deviceId ∧
    a.derivedId = b.derivedId ∧ a.isOperator = b.isOperator)
    ⟨fun ⟨h1, h2, h3, h4⟩ => by
      cases a
      cases b
      cases funext h1
      cases h2
      cases h3
      cases h4
      rfl, fun h => h ▸ ⟨fun _ => rfl, rfl, rfl, rfl⟩⟩

instance (i : Tick) (t : Threads) (a : Act) : Decidable (InTick i t a) :=
  match a with
  | .http write => decEq (write.apply t.shared).settings t.shared.settings
  | .comparator io => instDecidableAttends i t io
  | .sampler c reads _ => instDecidableReadsAs i t c reads

theorem Inside.begin {io : ComparatorIo} {t₀ t₁ : Threads} (hpc : t₀.pc = .beginTick)
    (hidle : ∀ c, t₀.sampler c = .takeGo ∧ t₀.go c = false)
    (hio : io.now = i.now ∧ io.sock = i.sock ∧ io.bound = i.bound)
    (h : t₀.comparatorStep p io = some t₁) : Inside p ⟨t₀.shared, t₀.lk⟩ i t₁ := by
  simp only [Threads.comparatorStep, hpc, Option.some.injEq] at h
  subst h
  obtain ⟨hnow, hsock, hbound⟩ := hio
  have hb : t₀.lk.beginTick p (readShared t₀.shared) io.now io.sock io.bound =
      begun p ⟨t₀.shared, t₀.lk⟩ i := by
    rw [begun_eq, hnow, hsock, hbound]
  refine
    { settings := rfl
      now := hnow
      gen := rfl
      tickGen := rfl
      snap := congrArg Lockstep.snap hb
      late := fun _ => rfl
      ungiven := fun c _ => ⟨(hidle c).2, (hidle c).1, rfl⟩
      given := fun c hc => absurd trivial hc
      done := fun c hr _ => absurd (Fin.zero_le c) hr
      taken := fun c hc => absurd trivial hc
      work := ⟨congrArg Lockstep.slots hb, rfl⟩ }

theorem Work.congr {L L' : Lockstep} {pc : ComparatorPc} (h : Work p d i L pc)
    (hslots : L'.slots = L.slots) (hcounts : counts L' = counts L) : Work p d i L' pc := by
  cases pc with
  | compare s => exact ⟨hslots.trans h.1, hcounts.trans h.2.1, h.2.2⟩
  | send s => exact ⟨h.1, hcounts.trans h.2.1, fun s' => by rw [hslots]; exact h.2.2 s'⟩
  | observe => exact ⟨hcounts.trans h.1, fun s' => by rw [hslots]; exact h.2 s'⟩
  | poll s => exact ⟨hcounts.trans h.1, fun s' => by rw [hslots]; exact h.2 s'⟩
  | beginTick => exact ⟨hcounts.trans h.1, fun s' => by rw [hslots]; exact h.2 s'⟩
  | resetDone c => exact ⟨hslots.trans h.1, hcounts.trans h.2⟩
  | giveGo c => exact ⟨hslots.trans h.1, hcounts.trans h.2⟩
  | takeDone c => exact ⟨hslots.trans h.1, hcounts.trans h.2⟩
  | checkGen c => exact ⟨hslots.trans h.1, hcounts.trans h.2⟩
  | judge => exact ⟨hslots.trans h.1, hcounts.trans h.2⟩
  | published c => exact ⟨hslots.trans h.1, hcounts.trans h.2⟩
  | gate => exact ⟨hslots.trans h.1, hcounts.trans h.2⟩

/-- Until both dones are taken, the slots are as `begin_tick` left them. -/
theorem Work.unsent {L : Lockstep} {pc : ComparatorPc} (h : Work p d i L pc)
    (hu : Untaken pc c) : L.slots = (begun p d i).slots := by
  cases pc <;> first | exact h.1 | exact hu.elim

/-- A move of one sampler leaves the rest of the tick. -/
theorem move_rest (h : SamplerMove p t c rb doneMs t') :
    t'.shared = t.shared ∧ t'.now = t.now ∧ t'.late = t.late ∧ counts t'.lk = counts t.lk ∧
      ∀ c', c' ≠ c → t'.done c' = t.done c' := by
  cases h with
  | takes => exact ⟨rfl, rfl, rfl, rfl, fun c' _ => rfl⟩
  | reads => exact ⟨rfl, rfl, rfl, rfl, fun c' _ => rfl⟩
  | runs => exact ⟨rfl, rfl, rfl, rfl, fun c' _ => rfl⟩
  | gives => exact ⟨rfl, rfl, rfl, rfl, fun c' hc => by simp [hc]⟩

theorem Inside.sampler (h : Inside p d i t) (hm : SamplerMove p t c rb doneMs t')
    (hrb : ReadsAs i t c rb) : Inside p d i t' := by
  have ho := hm.only
  obtain ⟨hshared, hnow, hlate, hcounts, hdone⟩ := move_rest hm
  -- a sampler without a go does not move, and neither does one that is finished
  have hgiven : ¬ Ungiven t.pc c := fun hu => by
    obtain ⟨hgo, hhere, -⟩ := h.ungiven c hu
    cases hm with
    | takes _ go => exact Bool.false_ne_true (hgo.symm.trans go)
    | reads here => exact nomatch hhere.symm.trans here
    | runs gen st rest here => exact nomatch hhere.symm.trans here
    | gives gen here => exact nomatch hhere.symm.trans here
  have huntaken : Untaken t.pc c := by
    by_contra hu
    exact (h.taken c hu).still hm
  have hsees : Sees p d i t := ⟨h.work.unsent huntaken, h.snap, h.tickGen, h.settings⟩
  obtain ⟨hpass, hfin⟩ := (h.given c hgiven).move hm hsees hrb
  refine
    { settings := hshared ▸ h.settings
      now := hnow.trans h.now
      gen := ho.gen.trans h.gen
      tickGen := ho.tickGen.trans h.tickGen
      snap := ho.snap.trans h.snap
      late := hlate ▸ h.late
      ungiven := fun c' hu => ?_
      given := fun c' hu => ?_
      done := fun c' hr hd => ?_
      taken := fun c' hu => ?_
      work := ho.pc ▸ h.work.congr ho.slots hcounts }
  · rw [ho.pc] at hu
    have hc : c' ≠ c := by
      rintro rfl
      exact hgiven hu
    obtain ⟨h1, h2, h3, -⟩ := ho.others c' hc
    rw [h1, h2, h3]
    exact h.ungiven c' hu
  · rw [ho.pc] at hu
    by_cases hc : c' = c
    · exact hc ▸ hpass
    · obtain ⟨h1, h2, h3, -⟩ := ho.others c' hc
      exact (h.given c' hu).keep h1 h2 h3
  · rw [ho.pc] at hr ⊢
    by_cases hc : c' = c
    · subst hc
      refine ⟨hgiven, ?_⟩
      rcases hfin with hsame | hfin
      · -- a done that was there before the move belongs to a sampler that cannot move
        exact ((h.done c' hr (hsame ▸ hd)).2.still hm).elim
      · exact hfin
    · obtain ⟨h1, h2, h3, -⟩ := ho.others c' hc
      obtain ⟨hu, hf⟩ := h.done c' hr (hdone c' hc ▸ hd)
      exact ⟨hu, hf.keep h1 h2 h3⟩
  · rw [ho.pc] at hu
    have hc : c' ≠ c := by
      rintro rfl
      exact hu huntaken
    obtain ⟨h1, h2, h3, -⟩ := ho.others c' hc
    exact (h.taken c' hu).keep h1 h2 h3

theorem Inside.comparator {io : ComparatorIo} (h : Inside p d i t)
    (hc : InTick i t (.comparator io)) (hs : t.comparatorStep p io = some t') :
    Inside p d i t' := by
  obtain ⟨hb, hexpired, hsendto, harrived⟩ := hc
  unfold Threads.comparatorStep at hs
  cases hpc : t.pc with
  | beginTick => exact absurd hpc hb
  | resetDone c =>
    simp only [hpc, Option.some.injEq] at hs
    exact hs ▸ h.resetDone hpc
  | giveGo c =>
    simp only [hpc, Option.some.injEq] at hs
    exact hs ▸ h.giveGo hpc
  | takeDone c =>
    simp only [hpc] at hs
    split at hs
    case isTrue hd =>
      cases hs
      exact h.takeDone hpc hd _
    case isFalse hd =>
      have he := hexpired c hpc (by simpa using hd)
      simp [he] at hs
  | checkGen c =>
    simp only [hpc, Option.some.injEq] at hs
    have hu : ∀ c', ¬ Untaken t.pc c' := by simp [hpc, Untaken]
    rw [if_neg (not_not_intro (h.current hu c))] at hs
    have hw := h.work
    rw [hpc] at hw
    subst hs
    refine h.goOn ⟨rfl, rfl, rfl⟩ hu ?_ ?_
    · cases c using channel_cases <;> simp [nextChannel, Untaken]
    · cases c using channel_cases <;> exact hw
  | judge =>
    simp only [hpc, Option.some.injEq] at hs
    have hw := h.work
    rw [hpc] at hw
    simp only [h.late, Bool.not_false, Bool.and_self, if_true] at hs
    subst hs
    exact h.goOn ⟨rfl, rfl, rfl⟩ (by simp [hpc, Untaken]) (by simp [Untaken]) hw
  | published c =>
    simp only [hpc, Option.some.injEq] at hs
    have hu : ∀ c', ¬ Untaken t.pc c' := by simp [hpc, Untaken]
    rw [if_pos (h.current hu c)] at hs
    have hw := h.work
    rw [hpc] at hw
    subst hs
    refine h.goOn ⟨rfl, rfl, rfl⟩ hu ?_ ?_
    · cases c using channel_cases <;> simp [nextChannel, Untaken]
    · cases c using channel_cases <;> exact hw
  | gate =>
    simp only [hpc, Option.some.injEq] at hs
    exact hs ▸ h.gate hpc
  | compare s =>
    simp only [hpc, Option.some.injEq] at hs
    exact hs ▸ h.compare hpc io.uptimeMs
  | send s =>
    simp only [hpc, Option.some.injEq] at hs
    rw [hsendto s hpc] at hs
    exact hs ▸ h.send hpc
  | observe =>
    simp only [hpc, Option.some.injEq] at hs
    exact hs ▸ h.observe hpc
  | poll s =>
    simp only [hpc, Option.some.injEq] at hs
    rw [harrived s hpc] at hs
    exact hs ▸ h.poll hpc

theorem Inside.http (h : Inside p d i t) {write : HttpStep}
    (hw : (write.apply t.shared).settings = t.shared.settings) :
    Inside p d i { t with shared := write.apply t.shared } where
  settings := hw.trans h.settings
  now := h.now
  gen := h.gen
  tickGen := h.tickGen
  snap := h.snap
  late := h.late
  ungiven := h.ungiven
  given c hc := (h.given c hc).keep rfl rfl rfl
  done c hr hd := ⟨(h.done c hr hd).1, (h.done c hr hd).2.keep rfl rfl rfl⟩
  taken c hc := (h.taken c hc).keep rfl rfl rfl
  work := h.work

theorem Inside.reaches {t₁ : Threads} (h : Inside p d i t₁)
    (hr : Reaches (Threads.step p) (InTick i) t₁ t) : Inside p d i t := by
  refine Reaches.invariant h (fun t t' a hi hc hs => ?_) hr
  cases a with
  | http write =>
    cases hs
    exact hi.http hc
  | comparator io => exact hi.comparator hc hs
  | sampler c rb doneMs => exact hi.sampler (samplerStep_moves hs) hc

/-- The slots with their sessions and what was sent on them, the samplers but for the
time of their completion, the snapshot, the generation and the counters. -/
structure SameOutcome (L L' : Lockstep) : Prop where
  slots : ∀ s, L.slots s = L'.slots s
  estop : ∀ c, (L.samplers c).estop = (L'.samplers c).estop
  verdict : ∀ c, (L.samplers c).verdict = (L'.samplers c).verdict
  frames : ∀ c, (L.samplers c).frames = (L'.samplers c).frames
  gen : ∀ c, (L.samplers c).gen = (L'.samplers c).gen
  snap : L.snap = L'.snap
  tickGen : L.tickGen = L'.tickGen
  mismatches : L.mismatches = L'.mismatches
  gatedTicks : L.gatedTicks = L'.gatedTicks
  missedDeadlines : L.missedDeadlines = L'.missedDeadlines

/-- From any state in which both samplers wait for a go, the comparator begins a tick;
once it is back at the start of its loop, along any schedule of that tick, the
statics are those that the synchronous tick leaves. -/
theorem threaded_refines_synchronous (p : PstopC) (i : Tick) (io : ComparatorIo)
    (t₀ t₁ t : Threads) (hpc : t₀.pc = .beginTick)
    (hidle : ∀ c, t₀.sampler c = .takeGo ∧ t₀.go c = false)
    (hio : io.now = i.now ∧ io.sock = i.sock ∧ io.bound = i.bound)
    (hbegin : t₀.step p (.comparator io) = some t₁)
    (hrun : Reaches (Threads.step p) (InTick i) t₁ t) (hend : t.pc = .beginTick) :
    SameOutcome t.lk ((⟨t₀.shared, t₀.lk⟩ : Device).tick p (synchronous i)).lk := by
  have h := (Inside.begin hpc hidle hio hbegin).reaches hrun
  have hl := h.looksAt (by simp [hend, Untaken])
  have hw := h.work
  rw [hend] at hw
  obtain ⟨hcounts, hslots⟩ := hw
  obtain ⟨hm, hg, hd⟩ : t.lk.mismatches = _ ∧ t.lk.gatedTicks = _ ∧ t.lk.missedDeadlines = _ := by
    simpa [counts] using hcounts
  refine ⟨hslots, ?_, ?_, ?_, ?_, ?_, ?_, hm, hg, hd⟩
  · intro c
    rw [tick_samplers]
    exact hl.estop c
  · intro c
    rw [tick_samplers]
    exact hl.verdict c
  · intro c
    rw [tick_samplers]
    exact hl.frames c
  · intro c
    rw [tick_samplers]
    exact (hl.gen c).trans (sampled_gen p _ (synchronous i) c).symm
  · exact hl.snap.trans (ended_tick p _ i).1.symm
  · exact h.tickGen.trans (ended_tick p _ i).2.symm

/-- The third tick of a remote with one machine, the samplers taking turns. -/
def turns : List Act :=
  comparatorSteps 300 4 ++
    (List.replicate 9 [.sampler 0 (1, 0) 310, .sampler 1 (1, 0) 320]).flatten ++
    comparatorSteps 300 21

theorem threaded_refines_synchronous_turns : ∃ t₀ t₁ t : Threads,
    t₀.step reference (comparatorAt 300 false) = some t₁ ∧
      runFrom (Threads.step reference) t₁ turns = some t ∧
      (t₀.lk.slots 0).log.length < (t.lk.slots 0).log.length ∧
      SameOutcome t.lk ((⟨t₀.shared, t₀.lk⟩ : Device).tick reference
        (synchronous (quietTick 300 closedReads))).lk := by
  have hrun : ∃ t₀ ∈ runFrom (Threads.step reference) (threads reference oneMachine)
      (threadedTick 100 13 ++ threadedTick 200 13),
      (t₀.pc = .beginTick ∧ ∀ c, t₀.sampler c = .takeGo ∧ t₀.go c = false) ∧
      ∃ t₁ ∈ t₀.step reference (comparatorAt 300 false),
        Allows (Threads.step reference) (InTick (quietTick 300 closedReads)) t₁ turns ∧
        ∃ t ∈ runFrom (Threads.step reference) t₁ turns,
          t.pc = .beginTick ∧ (t₀.lk.slots 0).log.length < (t.lk.slots 0).log.length := by
    decide +kernel
  obtain ⟨t₀, -, ⟨hpc, hidle⟩, t₁, hbegin, hallows, t, hturns, hend, hlog⟩ := hrun
  exact ⟨t₀, t₁, t, hbegin, hturns, hlog,
    threaded_refines_synchronous reference (quietTick 300 closedReads) _ t₀ t₁ t hpc hidle
      ⟨rfl, rfl, rfl⟩ hbegin (Reaches.start.runFrom hallows hturns) hend⟩

end ZephyrApps.ThreadedTick
