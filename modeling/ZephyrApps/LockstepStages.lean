import ZephyrApps.LockstepThreads
import ZephyrApps.SessionSteps

/-!
# The invariant of the threads

A sampler that was given its go makes one pass for the generation, in stages:
it waits, reads the generation, runs `sampler_pass`, and is finished. `Inv` says
which stage each sampler is in, and what the slots and the snapshot still are, at
every place of the comparator.
-/
namespace ZephyrApps.LockstepFreshness
open Pstop AppSettings EstopVerdict PstopSession LockstepComparator LockstepDevice LockstepThreads
  SystemRuns

def Comparing : ComparatorPc → Prop
  | .beginTick | .observe | .poll _ => False
  | _ => True

/-- The slots are as `begin_tick` left them. -/
def Unsent : ComparatorPc → Prop
  | .beginTick | .send _ | .observe | .poll _ => False
  | _ => True

def Given : ComparatorPc → Channel → Prop
  | .beginTick, _ | .resetDone _, _ => False
  | .giveGo c', c => c < c'
  | _, _ => True

/-- `samplers_published` has found the sampler's stamp to be this tick's. -/
def Seen : ComparatorPc → Channel → Prop
  | .published c', c => c < c'
  | .gate, _ | .compare _, _ | .send _, _ => True
  | _, _ => False

variable {p : PstopC} {t t' : Threads} {c : Channel}

/-- The sampler thread is to read the generation, or has read `gen`. -/
def onGen (gen : UInt32) : SamplerPc → Bool
  | .takeGo => false
  | .readGen => true
  | .pass g _ => decide (g = gen)

def NotStarted (t : Threads) (c : Channel) : Prop :=
  onGen t.lk.tickGen (t.sampler c) = false ∧ (t.lk.samplers c).gen ≠ t.lk.tickGen

instance (t : Threads) (c : Channel) : Decidable (NotStarted t c) := by
  unfold NotStarted; infer_instance

/-- The due frames whose build is not among `rest` are the sampler's encodings of
what `begin_tick` left. -/
def Built (p : PstopC) (begun : Lockstep) (sm : Sampler) (rest : List SamplerStep) : Prop :=
  ∀ s, begun.due s = true → .build s ∉ rest → ∃ me,
    sm.frames s = pstopSessionBuild p (begun.slots s).session sm.verdict begun.snap.role
      begun.snap.nowMs me

/-- How far a sampler that was given its go has come. -/
inductive Stage (p : PstopC) (t : Threads) (c : Channel) : Prop where
  | waiting (go : t.go c = true) (idle : NotStarted t c) (count : t.samples c = 0)
  | reading (go : t.go c = false) (here : t.sampler c = .readGen)
      (stale : (t.lk.samplers c).gen ≠ t.lk.tickGen) (count : t.samples c = 0)
  | passing (st : SamplerStep) (rest : List SamplerStep) (go : t.go c = false)
      (here : t.sampler c = .pass t.lk.tickGen (st :: rest))
      (stale : (t.lk.samplers c).gen ≠ t.lk.tickGen)
      (count : t.samples c = if .sample ∈ st :: rest then 0 else 1)
      (built : Comparing t.pc → Built p t.begun (t.lk.samplers c) (st :: rest))
  | finished (go : t.go c = false)
      (here : t.sampler c = .takeGo ∨ t.sampler c = .pass t.lk.tickGen [])
      (current : (t.lk.samplers c).gen = t.lk.tickGen) (count : t.samples c = 1)
      (built : Comparing t.pc → Built p t.begun (t.lk.samplers c) [])

/-- What a step leaves of one sampler and of the history. -/
structure Keeps (t t' : Threads) (c : Channel) : Prop where
  go : t'.go c = t.go c
  sampler : t'.sampler c = t.sampler c
  samplers : t'.lk.samplers c = t.lk.samplers c
  tickGen : t'.lk.tickGen = t.lk.tickGen
  begun : t'.begun = t.begun
  samples : t'.samples c = t.samples c
  comparing : Comparing t'.pc → Comparing t.pc

theorem Stage.keeps (h : Stage p t c) (hk : Keeps t t' c) : Stage p t' c := by
  obtain ⟨hgo, hs, hsm, hg, hb, hn, hc⟩ := hk
  cases h with
  | waiting go idle count =>
    exact .waiting (hgo ▸ go) (by simpa only [NotStarted, hs, hsm, hg] using idle) (hn ▸ count)
  | reading go here stale count =>
    exact .reading (hgo ▸ go) (hs ▸ here) (by rwa [hsm, hg]) (hn ▸ count)
  | passing st rest go here stale count built =>
    refine .passing st rest (hgo ▸ go) (by rw [hs, hg, here]) (by rwa [hsm, hg]) (hn ▸ count) ?_
    intro hcmp
    rw [hb, hsm]
    exact built (hc hcmp)
  | finished go here current count built =>
    refine .finished (hgo ▸ go) (by rwa [hs, hg]) (by rwa [hsm, hg]) (hn ▸ count) ?_
    intro hcmp
    rw [hb, hsm]
    exact built (hc hcmp)

/-- A sample counted for this generation belongs to a pass that publishes it. -/
def Counts (t : Threads) (c : Channel) : Prop :=
  t.samples c ≠ 0 →
    ((t.lk.samplers c).gen = t.lk.tickGen ∨
      ∃ rest, t.sampler c = .pass t.lk.tickGen rest ∧ .publish ∈ rest) ∧
    ∀ g rest, t.sampler c = .pass g rest → g = t.lk.tickGen

structure Inv (p : PstopC) (t : Threads) : Prop where
  gen : t.pc ≠ .beginTick → t.gen = t.lk.tickGen ∧ t.begun.tickGen = t.lk.tickGen
  snap : t.pc ≠ .beginTick → t.lk.snap = t.begun.snap
  slots : Unsent t.pc → t.lk.slots = t.begun.slots
  active : Comparing t.pc → ∀ s, (t.lk.slots s).active = (t.begun.slots s).active
  program : ∀ c g rest, t.sampler c = .pass g rest → rest <:+ samplerProgram
  counted : ∀ c, Counts t c
  stage : ∀ c, Given t.pc c → Stage p t c
  seen : ∀ c, Seen t.pc c → (t.lk.samplers c).gen = t.lk.tickGen

end ZephyrApps.LockstepFreshness
