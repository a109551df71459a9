import ZephyrApps.SamplerSteps

/-!
# Freshness of what the comparator transmits

As long as no sampler has started on a generation before its go is given, both
samplers are finished with it whenever the comparator compares or sends. A sampler
that stalls between its go and its read of the generation breaks that: it makes a
second pass for the next generation while the comparator sends.
-/
namespace ZephyrApps.LockstepFreshness
open Pstop AppSettings EstopVerdict PstopSession LockstepComparator LockstepDevice LockstepThreads
  SystemRuns

variable {p : PstopC} {t t' : Threads} {c : Channel}

theorem inv_threads (b : Boot) : Inv p (threads p b) where
  gen h := absurd rfl h
  snap h := absurd rfl h
  slots h := absurd h (by simp [threads, Unsent])
  active h := absurd h (by simp [threads, Comparing])
  program _ _ _ h := by simp [threads] at h
  counted _ h := absurd rfl h
  stage _ h := absurd h (by simp [threads, Given])
  seen _ h := absurd h (by simp [threads, Seen])

theorem Inv.reaches {b : Boot} (h : Reaches (Threads.step p) GoesOnce (threads p b) t) :
    Inv p t := by
  refine Reaches.invariant (inv_threads b) ?_ h
  intro t t' a hi hc hs
  cases a with
  | http write =>
    cases hs
    exact hi.http write
  | comparator io => exact hi.comparator hc hs
  | sampler c rb doneMs => exact hi.sampler (samplerStep_moves hs)

/-- What the comparator relies on while it compares and sends: each channel was
sampled once for this generation, every due frame is the sampler's encoding of what
`begin_tick` left, and no sampler has anything left to write. -/
structure FreshFrames (p : PstopC) (t : Threads) : Prop where
  gen : t.begun.tickGen = t.gen
  sampled : ∀ c, t.samples c = 1
  frames : ∀ c s, t.lk.due s = true → ∃ me,
    (t.lk.samplers c).frames s =
      pstopSessionBuild p (t.begun.slots s).session (t.lk.samplers c).verdict t.begun.snap.role
        t.begun.snap.nowMs me
  still : ∀ c rb doneMs t', t.samplerStep p c rb doneMs = some t' →
    t'.lk.samplers = t.lk.samplers

/-- Where every go finds its sampler not started on the generation, whatever the
comparator compares or sends is fresh. -/
theorem fresh_when_transmitting {b : Boot}
    (h : Reaches (Threads.step p) GoesOnce (threads p b) t)
    (hpc : (∃ s, t.pc = .compare s) ∨ ∃ s, t.pc = .send s) : FreshFrames p t := by
  have hi := Inv.reaches h
  have hb : t.pc ≠ .beginTick := by
    rcases hpc with ⟨s, hs⟩ | ⟨s, hs⟩ <;> simp [hs]
  have hc : Comparing t.pc := by
    rcases hpc with ⟨s, hs⟩ | ⟨s, hs⟩ <;> simp [hs, Comparing]
  have hseen (c : Channel) : Seen t.pc c := by
    rcases hpc with ⟨s, hs⟩ | ⟨s, hs⟩ <;> simp [hs, Seen]
  have hfin (c : Channel) := hi.finished (hseen c)
  have hdue (s : Slot) : t.begun.due s = t.lk.due s := by
    simp [Lockstep.due, dueSlot, hi.active hc, hi.snap hb]
  obtain ⟨hg, hg'⟩ := hi.gen hb
  refine ⟨hg'.trans hg.symm, fun c => (hfin c).2.2.1,
    fun c s hd => (hfin c).2.2.2 hc s ((hdue s).trans hd) (by simp), ?_⟩
  intro c rb doneMs t' hs
  rw [((samplerStep_moves hs).finished (hfin c).1 (hfin c).2.1).2.2.1]

/-- A comparator step at time `now`, with or without an expired deadline. -/
def comparatorAt (now : UInt64) (expired : Bool) : Act :=
  .comparator ⟨now, fun _ => 7, fun _ => 0, expired, messageSize, now, 0, []⟩

/-- `n` comparator steps before the deadline. -/
def comparatorSteps (now : UInt64) (n : ℕ) : List Act := List.replicate n (comparatorAt now false)

/-- `n` steps of a sampler whose loop is closed. -/
def samplerSteps (c : Channel) (n : ℕ) : List Act := List.replicate n (.sampler c (1, 0) 0)

def threadedTick (now : UInt64) (rest : ℕ) : List Act :=
  comparatorSteps now 5 ++ samplerSteps 0 9 ++ samplerSteps 1 9 ++ comparatorSteps now rest

/-- Two gated ticks, and a third up to its first send. -/
def threadedRun : List Act := threadedTick 100 13 ++ threadedTick 200 13 ++ threadedTick 300 12

theorem fresh_when_transmitting_third :
    ∃ t, t.pc = .send 0 ∧ FreshFrames reference t := by
  have hr : (runFrom (Threads.step reference) (threads reference oneMachine) threadedRun).map
      (·.pc) = some (.send 0) := by decide +kernel
  obtain ⟨t, ht, hpc⟩ := Option.map_eq_some_iff.mp hr
  have ha : Allows (Threads.step reference) GoesOnce (threads reference oneMachine) threadedRun := by
    decide +kernel
  exact ⟨t, hpc, fresh_when_transmitting (Reaches.start.runFrom ha ht) (Or.inr ⟨0, hpc⟩)⟩

/-- In the third tick sampler 0 takes its go and stalls before it reads the
generation. In the fourth it makes its pass, the comparator finds both stamps right
and starts to send, and the sampler takes the second go. -/
def stalledRun : List Act :=
  threadedTick 100 13 ++ threadedTick 200 13 ++
    comparatorSteps 300 5 ++ samplerSteps 0 1 ++ samplerSteps 1 9 ++
    [comparatorAt 380 true] ++ comparatorSteps 380 8 ++
    comparatorSteps 400 5 ++ samplerSteps 0 8 ++ samplerSteps 1 9 ++ comparatorSteps 400 12 ++
    samplerSteps 0 3

/-- While the comparator sends, sampler 0 has sampled its channel twice for the
generation and still has every frame to write. -/
theorem stalled_sampler_samples_twice :
    ∃ t, Reaches (Threads.step reference) (fun _ _ => True) (threads reference oneMachine) t ∧
      t.pc = .send 0 ∧ t.lk.due 0 = true ∧ t.samples 0 = 2 ∧
      t.sampler 0 = .pass t.gen [.build 0, .build 1, .build 2, .build 3, .publish] := by
  have hr : (runFrom (Threads.step reference) (threads reference oneMachine) stalledRun).map
      (fun t => (t.pc, t.lk.due 0, t.samples 0, t.sampler 0, t.gen)) =
        some (.send 0, true, 2,
          .pass 4 [.build 0, .build 1, .build 2, .build 3, .publish], 4) := by decide +kernel
  obtain ⟨t, ht, he⟩ := Option.map_eq_some_iff.mp hr
  simp only [Prod.mk.injEq] at he
  obtain ⟨h1, h2, h3, h4, h5⟩ := he
  refine ⟨t, Reaches.start.runFrom ?_ ht, h1, h2, h3, by rw [h4, h5]⟩
  decide +kernel

end ZephyrApps.LockstepFreshness
