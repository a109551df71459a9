import ZephyrApps.ThreadedPasses

/-!
# A threaded tick is a synchronous one

Through every schedule of one tick in which both samplers complete in time, the
comparator thread and the two sampler threads bring the slots, the samplers and the
counters to where `pstop_lockstep_tick()` brings them.
-/
namespace ZephyrApps.ThreadedTick
open Pstop AppSettings ControlPlane EstopVerdict PstopSession LockstepComparator LockstepDevice
  LockstepTicks LockstepThreads LockstepFreshness LockstepTransmission SystemRuns

/-- The comparator has yet to drop a done left over for the sampler. -/
def Unreset : ComparatorPc → Channel → Prop
  | .resetDone c', c => c' ≤ c
  | _, _ => False

def Ungiven : ComparatorPc → Channel → Prop
  | .resetDone _, _ => True
  | .giveGo c', c => c' ≤ c
  | _, _ => False

def Untaken : ComparatorPc → Channel → Prop
  | .resetDone _, _ | .giveGo _, _ => True
  | .takeDone c', c => c' ≤ c
  | _, _ => False

def counts (L : Lockstep) : UInt32 × UInt32 × UInt32 :=
  (L.mismatches, L.gatedTicks, L.missedDeadlines)

variable (p : PstopC) (d : Device) (i : Tick)

/-- What `pstop_lockstep_tick()` leaves. -/
def ended : Lockstep := (d.tick p (synchronous i)).lk

def sentSlot (s : Slot) : MachineSlot := atPoll p d (synchronous i) s

/-- How much of the tick's work on the slots and the counters is done. -/
def Work (L : Lockstep) : ComparatorPc → Prop
  | .compare s => L.slots = (begun p d i).slots ∧ counts L = counts d.lk ∧
      (looked p d i).primed = true ∧ ∀ s' < s, (looked p d i).differs s' = false
  | .send s => Releases p d (synchronous i) ∧ counts L = counts d.lk ∧
      ∀ s', L.slots s' = if s' < s then sentSlot p d i s' else (begun p d i).slots s'
  | .observe => counts L = counts (ended p d i) ∧ ∀ s', L.slots s' = sentSlot p d i s'
  | .poll s => counts L = counts (ended p d i) ∧
      ∀ s', L.slots s' = if s' < s then (ended p d i).slots s' else sentSlot p d i s'
  | .beginTick => counts L = counts (ended p d i) ∧ ∀ s', L.slots s' = (ended p d i).slots s'
  | _ => L.slots = (begun p d i).slots ∧ counts L = counts d.lk

/-- The threads from the start of a tick to its end. -/
structure Inside (t : Threads) : Prop where
  settings : t.shared.settings = d.shared.settings
  now : t.now = i.now
  gen : t.gen = d.lk.tickGen + 1
  tickGen : t.lk.tickGen = d.lk.tickGen + 1
  snap : t.lk.snap = (begun p d i).snap
  late : ∀ c, t.late c = false
  ungiven : ∀ c, Ungiven t.pc c →
    t.go c = false ∧ t.sampler c = .takeGo ∧ t.lk.samplers c = d.lk.samplers c
  given : ∀ c, ¬ Ungiven t.pc c → Pass p d i t c
  done : ∀ c, ¬ Unreset t.pc c → t.done c = true → ¬ Ungiven t.pc c ∧ Finished p d i t c
  taken : ∀ c, ¬ Untaken t.pc c → Finished p d i t c
  work : Work p d i t.lk t.pc

theorem looked_fresh : LockstepTransmission.Fresh (looked p d i) (looked p d i).tickGen
    fun _ => false := fun c => ⟨rfl, by rw [looked_tickGen]; exact sampled_gen p d (synchronous i) c⟩

theorem ended_accounts : Accounts (looked p d i) (looked p d i).tickGen (fun _ => false) d.lk
    (ended p d i) := by
  have ht : ended p d i = ComparatorLoops.runTickBodyIn p (List.finRange 4) (looked p d i) i.now
      (looked p d i).tickGen (fun _ => false) 0 i.sendto i.uptimeMs i.arrivals := by
    rw [ComparatorLoops.runTickBodyIn_finRange]
    rfl
  rw [ht]
  exact Accounts.of_sampled p (runTickBody_accounts _ i.sendto i.uptimeMs 0 p i.now i.arrivals
    (.refl _))

theorem counts_unprimed (h : (looked p d i).primed = false) :
    counts (ended p d i) = (d.lk.mismatches, d.lk.gatedTicks + 1, d.lk.missedDeadlines) := by
  obtain ⟨h1, h2, h3⟩ := (ended_accounts p d i).unprimed (looked_fresh p d i) h
  rw [counts, h1, h2, h3]

theorem counts_mismatched (h : (looked p d i).primed = true) {s : Slot}
    (hs : (looked p d i).differs s = true) :
    counts (ended p d i) = (d.lk.mismatches + 1, d.lk.gatedTicks, d.lk.missedDeadlines) := by
  have ha : ¬ Agreed (looked p d i) := fun ha => by
    rw [agreed_iff.mp ha s] at hs
    exact Bool.false_ne_true hs
  obtain ⟨h1, h2, h3⟩ := (ended_accounts p d i).mismatched (looked_fresh p d i) h ha
  rw [counts, h1, h2, h3]

theorem releases_iff : Releases p d (synchronous i) ↔
    (looked p d i).primed = true ∧ ∀ s, (looked p d i).differs s = false := by
  constructor
  · exact fun h => h.2
  · exact fun h => ⟨fun _ => rfl, h⟩

theorem counts_released (h : Releases p d (synchronous i)) :
    counts (ended p d i) = counts d.lk := by
  obtain ⟨hp, hd⟩ := (releases_iff p d i).mp h
  obtain ⟨h1, h2, h3⟩ := (ended_accounts p d i).transmits
    ⟨looked_fresh p d i, hp, agreed_iff.mpr hd⟩
  rw [counts, h1, h2, h3, counts]

theorem sentSlot_unreleased (h : ¬ Releases p d (synchronous i)) (s : Slot) :
    sentSlot p d i s = (begun p d i).slots s := if_neg fun hr => h hr.1

theorem comparatorPass_tick (L : Lockstep) (sendto : Slot → Int) (uptimeMs : UInt64) :
    (L.comparatorPass sendto uptimeMs).snap = L.snap ∧
      (L.comparatorPass sendto uptimeMs).tickGen = L.tickGen := by
  unfold Lockstep.comparatorPass
  split
  · exact ⟨rfl, rfl⟩
  · cases (List.finRange 4).find? L.differs <;> exact ⟨rfl, rfl⟩

theorem ended_tick : (ended p d i).snap = (begun p d i).snap ∧
    (ended p d i).tickGen = d.lk.tickGen + 1 := by
  obtain ⟨hs, hg⟩ := comparatorPass_tick (looked p d i) i.sendto i.uptimeMs
  have he : ended p d i = { ((looked p d i).comparatorPass i.sendto i.uptimeMs).observe
      (looked p d i).tickGen with slots := (ended p d i).slots } := by
    have h := compareOrDecline_onTime p d (synchronous i) fun _ => rfl
    exact congrArg (fun L : Lockstep => { L with slots := (ended p d i).slots }) h
  have ho := observe_sameWork ((looked p d i).comparatorPass i.sendto i.uptimeMs)
    (looked p d i).tickGen
  rw [he]
  refine ⟨?_, ?_⟩
  · exact (ho.snap.trans hs).trans (looked_snap p d i)
  · exact (ho.tickGen.trans hg).trans (looked_tickGen p d i)

theorem ended_slots (s : Slot) :
    (ended p d i).slots s = serviceSlot p i.now (i.arrivals s) (sentSlot p d i s) :=
  tick_slots p d (synchronous i) s

variable {p d i} {t t' : Threads} {c : Channel} {L : Lockstep}

/-- The samplers are those of the synchronous tick, up to their completion times. -/
structure Looks (p : PstopC) (d : Device) (i : Tick) (L : Lockstep) : Prop where
  snap : L.snap = (begun p d i).snap
  own : ∀ c, Redated ((looked p d i).samplers c) (L.samplers c)

theorem Looks.estop (h : Looks p d i L) (c : Channel) :
    (L.samplers c).estop = ((looked p d i).samplers c).estop := by
  obtain ⟨ms, he⟩ := h.own c
  rw [he]

theorem Looks.frames (h : Looks p d i L) (c : Channel) :
    (L.samplers c).frames = ((looked p d i).samplers c).frames := by
  obtain ⟨ms, he⟩ := h.own c
  rw [he]

theorem Looks.verdict (h : Looks p d i L) (c : Channel) :
    (L.samplers c).verdict = ((looked p d i).samplers c).verdict := by
  obtain ⟨ms, he⟩ := h.own c
  rw [he]

theorem Looks.gen (h : Looks p d i L) (c : Channel) : (L.samplers c).gen = d.lk.tickGen + 1 := by
  obtain ⟨ms, he⟩ := h.own c
  rw [he]
  exact sampled_gen p d (synchronous i) c

theorem Looks.primed (h : Looks p d i L) : L.primed = (looked p d i).primed := by
  simp only [Lockstep.primed, h.estop]

theorem Looks.due (h : Looks p d i L) {s : Slot} (hs : L.slots s = (begun p d i).slots s) :
    L.due s = (looked p d i).due s := by
  simp only [Lockstep.due, dueSlot, h.snap, hs, looked_slots, looked_snap]

theorem Looks.differs (h : Looks p d i L) {s : Slot} (hs : L.slots s = (begun p d i).slots s) :
    L.differs s = (looked p d i).differs s := by
  simp only [Lockstep.differs, h.due hs, h.frames]

/-- A send that the comparator reaches is the one of the synchronous tick. -/
theorem Looks.send (h : Looks p d i L) (hr : Releases p d (synchronous i)) {s : Slot}
    (hs : L.slots s = (begun p d i).slots s) :
    (sendSlot L s (i.sendto s)).slots s = sentSlot p d i s := by
  have hn : L.snap.nowMs = i.now := by rw [h.snap]; rfl
  have hf : (L.samplers 0).frames s = frameOf p d (synchronous i) s := congrFun (h.frames 0) s
  have hd : L.due s = (begun p d i).due s := by
    rw [h.due hs]
    simp only [Lockstep.due, looked_slots, looked_snap]
  rw [ComparatorLoops.sendSlot_eq, sentSlot, atPoll]
  simp only [Function.update_self, hd, hn, hf, hs, hr, true_and]
  rfl

theorem Inside.looks (h : Inside p d i t) (hf : ∀ c, Finished p d i t c) :
    Looks p d i t.lk where
  snap := h.snap
  own c := by
    rw [looked_samplers]
    exact (hf c).own

/-- A comparator step that gives no go leaves the samplers, what they see, and the
clock reading of the tick. -/
theorem Inside.advance {pc : ComparatorPc} {late done : Channel → Bool} (h : Inside p d i t)
    (hL : L.samplers = t.lk.samplers ∧ L.snap = t.lk.snap ∧ L.tickGen = t.lk.tickGen)
    (hlate : ∀ c, late c = false) (hgiven : ∀ c, Ungiven pc c ↔ Ungiven t.pc c)
    (hdone : ∀ c, ¬ Unreset pc c → done c = true → ¬ Unreset t.pc c ∧ t.done c = true)
    (htaken : ∀ c, ¬ Untaken pc c → Finished p d i t c) (hwork : Work p d i L pc) :
    Inside p d i { t with lk := L, pc, late, done } := by
  obtain ⟨hsm, hsnap, hgen⟩ := hL
  have hown (c : Channel) : L.samplers c = t.lk.samplers c := congrFun hsm c
  have hkeep {c : Channel} (hf : Finished p d i t c) :
      Finished p d i { t with lk := L, pc, late, done } c := hf.keep rfl rfl (hown c)
  refine
    { settings := h.settings
      now := h.now
      gen := h.gen
      tickGen := hgen.trans h.tickGen
      snap := hsnap.trans h.snap
      late := hlate
      ungiven := fun c hc => ?_
      given := fun c hc => ?_
      done := fun c hr hd => ?_
      taken := fun c hc => hkeep (htaken c hc)
      work := hwork }
  · obtain ⟨hgo, hhere, hs⟩ := h.ungiven c ((hgiven c).mp hc)
    exact ⟨hgo, hhere, (hown c).trans hs⟩
  · exact (h.given c fun hu => hc ((hgiven c).mpr hu)).keep rfl rfl (hown c)
  · obtain ⟨hr', hd'⟩ := hdone c hr hd
    obtain ⟨hu, hf⟩ := h.done c hr' hd'
    exact ⟨fun hc => hu ((hgiven c).mp hc), hkeep hf⟩

/-- The comparator goes on, past the dones. -/
theorem Inside.goOn {pc : ComparatorPc} (h : Inside p d i t)
    (hL : L.samplers = t.lk.samplers ∧ L.snap = t.lk.snap ∧ L.tickGen = t.lk.tickGen)
    (hpc : ∀ c, ¬ Untaken t.pc c) (hpc' : ∀ c, ¬ Untaken pc c) (hwork : Work p d i L pc) :
    Inside p d i { t with lk := L, pc } := by
  have hungiven {pc : ComparatorPc} {c : Channel} (hu : ¬ Untaken pc c) : ¬ Ungiven pc c := by
    cases pc <;> simp_all [Untaken, Ungiven]
  have hunreset {pc : ComparatorPc} {c : Channel} (hu : ¬ Untaken pc c) : ¬ Unreset pc c := by
    cases pc <;> simp_all [Untaken, Unreset]
  exact h.advance hL h.late (fun c => iff_of_false (hungiven (hpc' c)) (hungiven (hpc c)))
    (fun c _ hd => ⟨hunreset (hpc c), hd⟩) (fun c _ => h.taken c (hpc c)) hwork

theorem Inside.resetDone (h : Inside p d i t) (hpc : t.pc = .resetDone c) :
    Inside p d i { t with
      done := Function.update t.done c false, pc := nextChannel c .resetDone (.giveGo 0) } := by
  have hw := h.work
  rw [hpc] at hw
  refine h.advance ⟨rfl, rfl, rfl⟩ h.late (fun c' => ?_) (fun c' hr hd => ?_) (fun c' hu => ?_) ?_
  · rw [hpc]
    cases c using channel_cases <;> simp [nextChannel, Ungiven]
  · -- the done that stays is one dropped before
    have hne : c' ≠ c := by
      rintro rfl
      simp at hd
    refine ⟨fun hr' => hr ?_, by simpa [hne] using hd⟩
    rw [hpc] at hr'
    cases c using channel_cases with
    | zero =>
      cases c' using channel_cases with
      | zero => exact absurd rfl hne
      | one => exact le_refl (1 : Channel)
    | one =>
      cases c' using channel_cases with
      | zero => simp [Unreset] at hr'
      | one => exact absurd rfl hne
  · exact absurd (by cases c using channel_cases <;> trivial) hu
  · cases c using channel_cases <;> exact hw

theorem Inside.giveGo (h : Inside p d i t) (hpc : t.pc = .giveGo c) :
    Inside p d i { t with
      go := Function.update t.go c true, pc := nextChannel c .giveGo (.takeDone 0) } := by
  have hw := h.work
  rw [hpc] at hw
  have hafter {c' : Channel} (hu : Ungiven (nextChannel c .giveGo (.takeDone 0)) c') :
      c' ≠ c ∧ Ungiven t.pc c' := by
    rw [hpc]
    cases c using channel_cases with
    | zero =>
      cases c' using channel_cases with
      | zero => simp [nextChannel, Ungiven] at hu
      | one => simp [Ungiven]
    | one => simp [nextChannel, Ungiven] at hu
  have hbefore {c' : Channel} (hne : c' ≠ c)
      (hu : ¬ Ungiven (nextChannel c .giveGo (.takeDone 0)) c') : ¬ Ungiven t.pc c' := by
    rw [hpc]
    cases c using channel_cases with
    | zero =>
      cases c' using channel_cases with
      | zero => exact absurd rfl hne
      | one => simp [nextChannel, Ungiven] at hu
    | one =>
      cases c' using channel_cases with
      | zero => simp [Ungiven]
      | one => exact absurd rfl hne
  refine
    { settings := h.settings
      now := h.now
      gen := h.gen
      tickGen := h.tickGen
      snap := h.snap
      late := h.late
      ungiven := fun c' hu => ?_
      given := fun c' hu => ?_
      done := fun c' _ hd => ?_
      taken := fun c' hu => absurd (by cases c using channel_cases <;> simp [nextChannel, Untaken]) hu
      work := by cases c using channel_cases <;> exact hw }
  · obtain ⟨hne, hu'⟩ := hafter hu
    simpa [hne] using h.ungiven c' hu'
  · by_cases hc : c' = c
    · subst hc
      obtain ⟨-, hhere, hs⟩ := h.ungiven c' (by simp [hpc, Ungiven])
      exact .waiting (by simp) hhere hs
    · exact (h.given c' (hbefore hc hu)).keep (by simp [hc]) rfl rfl
  · obtain ⟨hu, hf⟩ := h.done c' (by simp [hpc, Unreset]) hd
    have hc : c' ≠ c := by
      rintro rfl
      simp [hpc, Ungiven] at hu
    exact ⟨fun hu' => hu (hafter hu').2, hf.keep (by simp [hc]) rfl rfl⟩

theorem Inside.takeDone (h : Inside p d i t) (hpc : t.pc = .takeDone c) (hd : t.done c = true)
    (ms : UInt32) : Inside p d i { t with
      done := Function.update t.done c false
      lk := t.lk.recordLatency c ms
      pc := nextChannel c .takeDone (.checkGen 0) } := by
  have hw := h.work
  rw [hpc] at hw
  have hL := recordLatency_sameWork t.lk c ms
  have hf : Finished p d i t c := (h.done c (by simp [hpc, Unreset]) hd).2
  refine h.advance ⟨hL.samplers, hL.snap, hL.tickGen⟩ h.late (fun c' => ?_) (fun c' _ hd' => ?_)
    (fun c' hu => ?_) ?_
  · rw [hpc]
    cases c using channel_cases <;> simp [nextChannel, Ungiven]
  · have hne : c' ≠ c := by
      rintro rfl
      simp at hd'
    exact ⟨by simp [hpc, Unreset], by simpa [hne] using hd'⟩
  · -- either the done just taken, or one taken before
    by_cases hc : c' = c
    · exact hc ▸ hf
    · refine h.taken c' fun hu' => hu ?_
      rw [hpc] at hu'
      cases c using channel_cases with
      | zero =>
        cases c' using channel_cases with
        | zero => exact absurd rfl hc
        | one => simp [nextChannel, Untaken]
      | one =>
        cases c' using channel_cases with
        | zero => simp [Untaken] at hu'
        | one => exact absurd rfl hc
  · have hwork : (t.lk.recordLatency c ms).slots = (begun p d i).slots ∧
        counts (t.lk.recordLatency c ms) = counts d.lk := by
      refine ⟨hL.slots.trans hw.1, Eq.trans ?_ hw.2⟩
      unfold Lockstep.recordLatency
      split <;> rfl
    cases c using channel_cases <;> exact hwork

theorem Inside.looksAt (h : Inside p d i t) (hpc : ∀ c, ¬ Untaken t.pc c) : Looks p d i t.lk :=
  h.looks fun c => h.taken c (hpc c)

theorem Inside.current (h : Inside p d i t) (hpc : ∀ c, ¬ Untaken t.pc c) (c : Channel) :
    (t.lk.samplers c).gen = t.gen := ((h.looksAt hpc).gen c).trans h.gen.symm

theorem Inside.gate (h : Inside p d i t) (hpc : t.pc = .gate) :
    Inside p d i (if t.lk.primed then { t with pc := .compare 0 }
      else { t with pc := .observe, lk := { t.lk with gatedTicks := t.lk.gatedTicks + 1 } }) := by
  have hw := h.work
  have hp : t.lk.primed = (looked p d i).primed := (h.looksAt (by simp [hpc, Untaken])).primed
  rw [hpc] at hw
  obtain ⟨hslots, hcounts⟩ := hw
  have hc : t.lk.mismatches = d.lk.mismatches ∧ t.lk.gatedTicks = d.lk.gatedTicks ∧
      t.lk.missedDeadlines = d.lk.missedDeadlines := by simpa [counts] using hcounts
  split
  case isTrue hprimed =>
    exact h.goOn ⟨rfl, rfl, rfl⟩ (by simp [hpc, Untaken]) (by simp [Untaken])
      ⟨hslots, hcounts, hp ▸ hprimed, by simp⟩
  case isFalse hprimed =>
    have hn : (looked p d i).primed = false := by simpa [hp] using hprimed
    refine h.goOn ⟨rfl, rfl, rfl⟩ (by simp [hpc, Untaken]) (by simp [Untaken]) ⟨?_, fun s => ?_⟩
    · rw [counts_unprimed p d i hn]
      simp [counts, hc]
    · have hr : ¬ Releases p d (synchronous i) := fun hr => by
        rw [((releases_iff p d i).mp hr).1] at hn
        exact Bool.false_ne_true hn.symm
      rw [sentSlot_unreleased p d i hr]
      exact congrFun hslots s

/-- The next round of a loop over the slots comes after the slots up to this one. -/
theorem nextSlot_cases {P : ComparatorPc → Prop} {s : Slot} {loop : Slot → ComparatorPc}
    {exit : ComparatorPc} (round : ∀ s', (∀ s'', s'' < s' ↔ s'' ≤ s) → P (loop s'))
    (last : (∀ s'', s'' ≤ s) → P exit) : P (nextSlot s loop exit) := by
  unfold nextSlot
  split
  case isTrue h => exact round ⟨s.val + 1, h⟩ fun s'' => Nat.lt_succ_iff
  case isFalse h => exact last fun s'' => Fin.le_def.mpr (by omega)

theorem Inside.compare {s : Slot} (h : Inside p d i t) (hpc : t.pc = .compare s)
    (uptimeMs : UInt64) : Inside p d i (if t.lk.differs s then
      { t with
        pc := .observe
        lk := { t.lk.recordMismatch uptimeMs s with mismatches := t.lk.mismatches + 1 } }
      else { t with pc := nextSlot s .compare (.send 0) }) := by
  have hw := h.work
  have hl : Looks p d i t.lk := h.looksAt (by simp [hpc, Untaken])
  rw [hpc] at hw
  obtain ⟨hslots, hcounts, hprimed, hbefore⟩ := hw
  have hdiffers : t.lk.differs s = (looked p d i).differs s := hl.differs (congrFun hslots s)
  have hc : t.lk.mismatches = d.lk.mismatches ∧ t.lk.gatedTicks = d.lk.gatedTicks ∧
      t.lk.missedDeadlines = d.lk.missedDeadlines := by simpa [counts] using hcounts
  split
  case isTrue hs =>
    rw [hdiffers] at hs
    refine h.goOn ⟨rfl, rfl, rfl⟩ (by simp [hpc, Untaken]) (by simp [Untaken])
      ⟨?_, fun s' => ?_⟩
    · rw [counts_mismatched p d i hprimed hs]
      simp [counts, hc, Lockstep.recordMismatch]
    · have hr : ¬ Releases p d (synchronous i) := fun hr => by
        rw [((releases_iff p d i).mp hr).2 s] at hs
        exact Bool.false_ne_true hs
      rw [sentSlot_unreleased p d i hr]
      exact congrFun hslots s'
  case isFalse hs =>
    have hs' : ∀ s' ≤ s, (looked p d i).differs s' = false := by
      intro s' hle
      rcases hle.lt_or_eq with hlt | rfl
      · exact hbefore s' hlt
      · simpa [hdiffers] using hs
    refine nextSlot_cases (P := fun pc => Inside p d i { t with pc }) (fun s' hlt => ?_)
      fun hlast => ?_
    · exact h.goOn ⟨rfl, rfl, rfl⟩ (by simp [hpc, Untaken]) (by simp [Untaken])
        ⟨hslots, hcounts, hprimed, fun s'' hs'' => hs' s'' ((hlt s'').mp hs'')⟩
    · have hr : Releases p d (synchronous i) :=
        (releases_iff p d i).mpr ⟨hprimed, fun s' => hs' s' (hlast s')⟩
      exact h.goOn ⟨rfl, rfl, rfl⟩ (by simp [hpc, Untaken]) (by simp [Untaken])
        ⟨hr, hcounts, fun s' => by simp [hslots]⟩

theorem sendSlot_counts (L : Lockstep) (s : Slot) (n : Int) :
    counts (sendSlot L s n) = counts L := by
  rw [ComparatorLoops.sendSlot_eq]
  rfl

theorem sendSlot_other (L : Lockstep) {s s' : Slot} (hne : s' ≠ s) (n : Int) :
    (sendSlot L s n).slots s' = L.slots s' := by
  rw [ComparatorLoops.sendSlot_eq]
  exact Function.update_of_ne hne _ _

theorem Inside.send {s : Slot} (h : Inside p d i t) (hpc : t.pc = .send s) :
    Inside p d i { t with
      lk := sendSlot t.lk s (i.sendto s), pc := nextSlot s .send .observe } := by
  have hw := h.work
  have hl : Looks p d i t.lk := h.looksAt (by simp [hpc, Untaken])
  rw [hpc] at hw
  obtain ⟨hr, hcounts, hslots⟩ := hw
  have hown : t.lk.slots s = (begun p d i).slots s := by simpa using hslots s
  have hsent (s' : Slot) : (sendSlot t.lk s (i.sendto s)).slots s' =
      if s' ≤ s then sentSlot p d i s' else (begun p d i).slots s' := by
    by_cases hs : s' = s
    · subst hs
      rw [hl.send hr hown, if_pos le_rfl]
    · rw [sendSlot_other t.lk hs, hslots s']
      simp only [le_iff_lt_or_eq, hs, or_false]
  have hsame := sendSlot_same t.lk s (i.sendto s)
  refine nextSlot_cases
    (P := fun pc => Inside p d i { t with lk := sendSlot t.lk s (i.sendto s), pc })
    (fun s' hlt => ?_) fun hlast => ?_
  · refine h.goOn hsame (by simp [hpc, Untaken]) (by simp [Untaken])
      ⟨hr, (sendSlot_counts _ _ _).trans hcounts, fun s'' => ?_⟩
    rw [hsent s'']
    simp only [hlt s'']
  · refine h.goOn hsame (by simp [hpc, Untaken]) (by simp [Untaken]) ⟨?_, fun s' => ?_⟩
    · rw [sendSlot_counts, hcounts, counts_released p d i hr]
    · rw [hsent s', if_pos (hlast s')]

theorem Inside.observe (h : Inside p d i t) (hpc : t.pc = .observe) :
    Inside p d i { t with lk := t.lk.observe t.gen, pc := .poll 0 } := by
  have hw := h.work
  rw [hpc] at hw
  obtain ⟨hcounts, hslots⟩ := hw
  obtain ⟨observed, he⟩ := observe_eq t.lk t.gen
  rw [he]
  exact h.goOn ⟨rfl, rfl, rfl⟩ (by simp [hpc, Untaken]) (by simp [Untaken])
    ⟨hcounts, fun s => by simpa using hslots s⟩

theorem Inside.poll {s : Slot} (h : Inside p d i t) (hpc : t.pc = .poll s) :
    Inside p d i { t with
      lk :=
        { t.lk with
          slots := Function.update t.lk.slots s
            (serviceSlot p t.now (i.arrivals s) (t.lk.slots s)) }
      pc := nextSlot s .poll .beginTick } := by
  have hw := h.work
  rw [hpc] at hw
  obtain ⟨hcounts, hslots⟩ := hw
  have hserved (s' : Slot) : Function.update t.lk.slots s
      (serviceSlot p t.now (i.arrivals s) (t.lk.slots s)) s' =
        if s' ≤ s then (ended p d i).slots s' else sentSlot p d i s' := by
    by_cases hs : s' = s
    · subst hs
      have hown : t.lk.slots s' = sentSlot p d i s' := by simpa using hslots s'
      rw [Function.update_self, h.now, hown, if_pos le_rfl, ended_slots]
    · rw [Function.update_of_ne hs, hslots s']
      simp only [le_iff_lt_or_eq, hs, or_false]
  refine nextSlot_cases
    (P := fun pc => Inside p d i { t with
      lk :=
        { t.lk with
          slots := Function.update t.lk.slots s
            (serviceSlot p t.now (i.arrivals s) (t.lk.slots s)) }
      pc }) (fun s' hlt => ?_) fun hlast => ?_
  · refine h.goOn ⟨rfl, rfl, rfl⟩ (by simp [hpc, Untaken]) (by simp [Untaken])
      ⟨hcounts, fun s'' => ?_⟩
    simp only [hserved s'', hlt s'']
  · refine h.goOn ⟨rfl, rfl, rfl⟩ (by simp [hpc, Untaken]) (by simp [Untaken])
      ⟨hcounts, fun s' => ?_⟩
    simp only [hserved s', if_pos (hlast s')]

end ZephyrApps.ThreadedTick
