import ZephyrApps.ComparatorSteps

/-!
# The steps of a sampler thread

A sampler thread takes its go, reads the generation, runs `sampler_pass` statement
by statement, and gives done. Each of these moves takes the sampler one stage on
and leaves the other sampler and the comparator as they are.
-/
namespace ZephyrApps.LockstepFreshness
open Pstop AppSettings EstopVerdict PstopSession LockstepComparator LockstepDevice LockstepThreads
  SystemRuns

variable {p : PstopC} {t t' : Threads} {c : Channel} {rb : Reads} {doneMs : UInt32}

/-- What one step of sampler thread `c` can do. -/
inductive SamplerMove (p : PstopC) (t : Threads) (c : Channel) (rb : Reads) (doneMs : UInt32) :
    Threads → Prop
  | takes (here : t.sampler c = .takeGo) (go : t.go c = true) :
      SamplerMove p t c rb doneMs
        { t with
          go := Function.update t.go c false, sampler := Function.update t.sampler c .readGen }
  | reads (here : t.sampler c = .readGen) :
      SamplerMove p t c rb doneMs
        { t with sampler := Function.update t.sampler c (.pass t.lk.tickGen samplerProgram) }
  | runs (gen : UInt32) (st : SamplerStep) (rest : List SamplerStep)
      (here : t.sampler c = .pass gen (st :: rest)) :
      SamplerMove p t c rb doneMs
        { t with
          lk :=
            { t.lk with
              samplers := Function.update t.lk.samplers c
                ((t.lk.samplers c).step p t.lk.slots t.lk.snap c rb
                  t.shared.settings.effectiveDeviceId doneMs gen st) }
          sampler := Function.update t.sampler c (.pass gen rest)
          samples := if st = .sample ∧ gen = t.lk.tickGen then
            Function.update t.samples c (t.samples c + 1) else t.samples }
  | gives (gen : UInt32) (here : t.sampler c = .pass gen []) :
      SamplerMove p t c rb doneMs
        { t with
          done := Function.update t.done c true, sampler := Function.update t.sampler c .takeGo }

theorem samplerStep_moves (h : t.samplerStep p c rb doneMs = some t') :
    SamplerMove p t c rb doneMs t' := by
  unfold Threads.samplerStep at h
  cases here : t.sampler c with
  | takeGo =>
    simp only [here] at h
    split at h
    case isTrue go =>
      cases h
      exact .takes here go
    case isFalse => cases h
  | readGen =>
    simp only [here, Option.some.injEq] at h
    subst h
    exact .reads here
  | pass gen rest =>
    cases rest with
    | nil =>
      simp only [here, Option.some.injEq] at h
      subst h
      exact .gives gen here
    | cons st rest =>
      simp only [here, Option.some.injEq] at h
      subst h
      exact .runs gen st rest here

/-- A step of sampler `c` leaves the other sampler, the comparator and the history. -/
structure SamplerOnly (t t' : Threads) (c : Channel) : Prop where
  pc : t'.pc = t.pc
  gen : t'.gen = t.gen
  begun : t'.begun = t.begun
  slots : t'.lk.slots = t.lk.slots
  snap : t'.lk.snap = t.lk.snap
  tickGen : t'.lk.tickGen = t.lk.tickGen
  others : ∀ c', c' ≠ c → t'.go c' = t.go c' ∧ t'.sampler c' = t.sampler c' ∧
    t'.lk.samplers c' = t.lk.samplers c' ∧ t'.samples c' = t.samples c'

theorem SamplerMove.only (h : SamplerMove p t c rb doneMs t') : SamplerOnly t t' c := by
  cases h with
  | takes => exact ⟨rfl, rfl, rfl, rfl, rfl, rfl, fun c' hc => by simp [hc]⟩
  | reads => exact ⟨rfl, rfl, rfl, rfl, rfl, rfl, fun c' hc => by simp [hc]⟩
  | gives => exact ⟨rfl, rfl, rfl, rfl, rfl, rfl, fun c' hc => by simp [hc]⟩
  | runs gen st rest =>
    refine ⟨rfl, rfl, rfl, rfl, rfl, rfl, fun c' hc => ?_⟩
    dsimp only
    split <;> simp [hc]

/-- Every pass stays at a suffix of the program. -/
theorem SamplerMove.program (h : SamplerMove p t c rb doneMs t')
    (hp : ∀ g rest, t.sampler c = .pass g rest → rest <:+ samplerProgram) :
    ∀ g rest, t'.sampler c = .pass g rest → rest <:+ samplerProgram := by
  intro g rest hr
  cases h with
  | takes => simp at hr
  | gives => simp at hr
  | reads =>
    obtain ⟨-, rfl⟩ : t.lk.tickGen = g ∧ samplerProgram = rest := by simpa using hr
    exact List.suffix_rfl
  | runs g' st rest' here =>
    obtain ⟨-, rfl⟩ : g' = g ∧ rest' = rest := by simpa using hr
    exact (List.suffix_cons st rest').trans (hp g' _ here)

/-- What a sampler of a given generation has left to do. -/
theorem suffix_cases {st : SamplerStep} {rest : List SamplerStep}
    (h : st :: rest <:+ samplerProgram) :
    (st = .sample ∧ rest = [.build 0, .build 1, .build 2, .build 3, .publish]) ∨
      (∃ s, st = .build s ∧ .sample ∉ rest ∧ .publish ∈ rest) ∨ (st = .publish ∧ rest = []) := by
  simp only [samplerProgram, List.suffix_cons_iff, List.suffix_nil, List.cons.injEq,
    reduceCtorEq, or_false] at h
  rcases h with ⟨rfl, rfl⟩ | ⟨rfl, rfl⟩ | ⟨rfl, rfl⟩ | ⟨rfl, rfl⟩ | ⟨rfl, rfl⟩ | ⟨rfl, rfl⟩
  · exact Or.inl ⟨rfl, rfl⟩
  · exact Or.inr (Or.inl ⟨0, rfl, by decide, by decide⟩)
  · exact Or.inr (Or.inl ⟨1, rfl, by decide, by decide⟩)
  · exact Or.inr (Or.inl ⟨2, rfl, by decide, by decide⟩)
  · exact Or.inr (Or.inl ⟨3, rfl, by decide, by decide⟩)
  · exact Or.inr (Or.inr ⟨rfl, rfl⟩)

theorem built_sample (begun : Lockstep) (sm : Sampler) :
    Built p begun sm [.build 0, .build 1, .build 2, .build 3, .publish] := by
  intro s _ hs
  cases s using slot_cases <;> simp at hs

theorem Built.build {begun : Lockstep} {sm : Sampler} {s : Slot} {rest : List SamplerStep}
    (h : Built p begun sm (.build s :: rest)) (me : UInt32) :
    Built p begun (sm.build p begun.slots begun.snap s me) rest := by
  intro s' hd hs
  by_cases he : s' = s
  · subst he
    have hd' : dueSlot begun.slots begun.snap s' = true := hd
    exact ⟨me, by simp [Sampler.build, hd']⟩
  · obtain ⟨me', hm⟩ := h s' hd (by simp [he, hs])
    refine ⟨me', ?_⟩
    unfold Sampler.build
    split
    · simpa [he] using hm
    · exact hm

theorem Built.publish {begun : Lockstep} {sm : Sampler} (h : Built p begun sm [.publish])
    (doneMs gen : UInt32) : Built p begun (sm.publish doneMs gen) [] :=
  fun s hd _ => h s hd (by simp)

/-- Only the last statement of a pass stamps the sampler. -/
theorem step_gen {slots : Slot → MachineSlot} {snap : Snapshot} {rb : Reads} {me doneMs gen : UInt32}
    {st : SamplerStep} (sm : Sampler) :
    (sm.step p slots snap c rb me doneMs gen st).gen = if st = .publish then gen else sm.gen := by
  cases st with
  | sample => rfl
  | build s =>
    simp only [Sampler.step, Sampler.build, reduceCtorEq, if_false]
    split <;> rfl
  | publish => rfl

/-- A sampler that waits for its go finishes what it was doing, and takes it. -/
theorem SamplerMove.waiting (h : SamplerMove p t c rb doneMs t') (go : t.go c = true)
    (idle : NotStarted t c) (count : t.samples c = 0) : Stage p t' c := by
  obtain ⟨hp, hg⟩ := idle
  cases h with
  | takes => exact .reading (by simp) (by simp) hg count
  | reads here => simp [here, onGen] at hp
  | gives => exact .waiting go ⟨by simp [onGen], hg⟩ count
  | runs g st rest here =>
    -- a pass of an earlier generation
    have hne : g ≠ t.lk.tickGen := by simpa [here, onGen] using hp
    refine .waiting go ⟨by simp [onGen, hne], ?_⟩ (by simp [hne, count])
    simp only [Function.update_self, step_gen]
    split
    · exact hne
    · exact hg

/-- A sampler in a pass of this generation does the next statement. -/
theorem SamplerMove.passing {st : SamplerStep} {rest : List SamplerStep}
    (h : SamplerMove p t c rb doneMs t') (go : t.go c = false)
    (here : t.sampler c = .pass t.lk.tickGen (st :: rest))
    (stale : (t.lk.samplers c).gen ≠ t.lk.tickGen)
    (count : t.samples c = if .sample ∈ st :: rest then 0 else 1)
    (built : Comparing t.pc → Built p t.begun (t.lk.samplers c) (st :: rest))
    (hprog : st :: rest <:+ samplerProgram)
    (hslots : Comparing t.pc → t.lk.slots = t.begun.slots ∧ t.lk.snap = t.begun.snap) :
    Stage p t' c := by
  cases h with
  | takes here' => simp [here] at here'
  | reads here' => simp [here] at here'
  | gives g here' => simp [here] at here'
  | runs g st' rest' here' =>
    obtain ⟨rfl, rfl, rfl⟩ : t.lk.tickGen = g ∧ st = st' ∧ rest = rest' := by
      simpa [here] using here'
    rcases suffix_cases hprog with ⟨rfl, rfl⟩ | ⟨s, rfl, hsample, hpublish⟩ | ⟨rfl, rfl⟩
    · refine .passing (.build 0) [.build 1, .build 2, .build 3, .publish] go (by simp) ?_ ?_ ?_
      · simpa [step_gen] using stale
      · simpa using count
      · exact fun _ => built_sample _ _
    · cases rest with
      | nil => simp at hpublish
      | cons st' rest =>
        refine .passing st' rest go (by simp) ?_ ?_ ?_
        · simpa [step_gen] using stale
        · have hns : SamplerStep.sample ∉ .build s :: st' :: rest := by simpa using hsample
          rw [if_neg hns] at count
          rw [if_neg hsample]
          simpa using count
        · intro hc
          obtain ⟨h1, h2⟩ := hslots hc
          simp only [Function.update_self, Sampler.step, h1, h2]
          exact (built hc).build _
    · refine .finished go (by simp) (by simp [step_gen]) ?_ ?_
      · simpa using count
      · intro hc
        simp only [Function.update_self, Sampler.step]
        exact (built hc).publish _ _

/-- A finished sampler gives done, and has no go to take. -/
theorem SamplerMove.finished (h : SamplerMove p t c rb doneMs t') (go : t.go c = false)
    (here : t.sampler c = .takeGo ∨ t.sampler c = .pass t.lk.tickGen []) :
    t'.sampler c = .takeGo ∧ t'.go = t.go ∧ t'.lk = t.lk ∧ t'.samples = t.samples := by
  cases h with
  | takes _ go' => simp [go] at go'
  | reads here' => simp [here'] at here
  | gives => exact ⟨by simp, rfl, rfl, rfl⟩
  | runs g st rest here' => simp [here'] at here

theorem Stage.sampler (hs : Stage p t c) (h : SamplerMove p t c rb doneMs t')
    (hprog : ∀ g rest, t.sampler c = .pass g rest → rest <:+ samplerProgram)
    (hslots : Comparing t.pc → (t.lk.samplers c).gen ≠ t.lk.tickGen →
      t.lk.slots = t.begun.slots ∧ t.lk.snap = t.begun.snap) : Stage p t' c := by
  cases hs with
  | waiting go idle count => exact h.waiting go idle count
  | reading go here stale count =>
    cases h with
    | takes here' => simp [here] at here'
    | gives g here' => simp [here] at here'
    | runs g st rest here' => simp [here] at here'
    | reads =>
      refine .passing .sample [.build 0, .build 1, .build 2, .build 3, .publish] go
        (by simp [samplerProgram]) stale (by simpa using count) fun _ s hd hb => ?_
      exact built_sample _ _ s hd fun hm => hb (List.mem_cons_of_mem _ hm)
  | passing st rest go here stale count built =>
    exact h.passing go here stale count built (hprog _ _ here) fun hc => hslots hc stale
  | finished go here current count built =>
    obtain ⟨h1, h2, h3, h4⟩ := h.finished go here
    refine .finished (h2 ▸ go) (Or.inl h1) (h3 ▸ current) (h4 ▸ count) fun hc => ?_
    rw [h3, h.only.begun]
    exact built (h.only.pc ▸ hc)

theorem Counts.sampler (hn : Counts t c) (h : SamplerMove p t c rb doneMs t')
    (hprog : ∀ g rest, t.sampler c = .pass g rest → rest <:+ samplerProgram) : Counts t' c := by
  cases h with
  | takes here =>
    intro h0
    rcases (hn h0).1 with hg | ⟨rest, hr, -⟩
    · exact ⟨Or.inl hg, by simp⟩
    · simp [here] at hr
  | reads here =>
    intro h0
    rcases (hn h0).1 with hg | ⟨rest, hr, -⟩
    · exact ⟨Or.inl hg, by simp⟩
    · simp [here] at hr
  | gives g here =>
    intro h0
    rcases (hn h0).1 with hg | ⟨rest, hr, hm⟩
    · exact ⟨Or.inl hg, by simp⟩
    · obtain ⟨-, rfl⟩ : g = t.lk.tickGen ∧ [] = rest := by simpa [here] using hr
      simp at hm
  | runs g st rest here =>
    intro h0
    -- the pass that counted, or counts now, is one of this generation
    have hg : g = t.lk.tickGen := by
      by_cases hz : t.samples c = 0
      · by_contra hne
        simp [hne, hz] at h0
      · exact (hn hz).2 g _ here
    refine ⟨?_, by simp [hg]⟩
    rcases suffix_cases (hprog g _ here) with ⟨rfl, rfl⟩ | ⟨s, rfl, -, hm⟩ | ⟨rfl, rfl⟩
    · exact Or.inr ⟨[.build 0, .build 1, .build 2, .build 3, .publish], by simp [hg], by simp⟩
    · exact Or.inr ⟨rest, by simp [hg], hm⟩
    · exact Or.inl (by simp [step_gen, hg])

theorem given_of_seen {pc : ComparatorPc} (h : Seen pc c) : Given pc c := by
  cases pc <;> simp_all [Seen, Given]

/-- A sampler whose stamp the comparator has seen is finished. -/
theorem Inv.finished (h : Inv p t) (hc : Seen t.pc c) :
    t.go c = false ∧ (t.sampler c = .takeGo ∨ t.sampler c = .pass t.lk.tickGen []) ∧
      t.samples c = 1 ∧ (Comparing t.pc → Built p t.begun (t.lk.samplers c) []) := by
  have hcur := h.seen c hc
  cases h.stage c (given_of_seen hc) with
  | waiting go idle => exact absurd hcur idle.2
  | reading go here stale => exact absurd hcur stale
  | passing st rest go here stale => exact absurd hcur stale
  | finished go here current count built => exact ⟨go, here, count, built⟩

/-- While a sampler still writes, the slots and the snapshot are those of `begin_tick`. -/
theorem Inv.unsent (h : Inv p t) (hc : Comparing t.pc)
    (hg : (t.lk.samplers c).gen ≠ t.lk.tickGen) :
    t.lk.slots = t.begun.slots ∧ t.lk.snap = t.begun.snap := by
  have hb : t.pc ≠ .beginTick := by
    rintro hb
    simp [hb, Comparing] at hc
  refine ⟨h.slots ?_, h.snap hb⟩
  -- while sending, both stamps are this tick's
  cases hpc : t.pc with
  | send s => exact absurd (h.seen c (by simp [hpc, Seen])) hg
  | _ => simp_all [Comparing, Unsent]

theorem Inv.sampler (h : Inv p t) (hm : SamplerMove p t c rb doneMs t') : Inv p t' := by
  have ho := hm.only
  refine
    { gen := fun hb => ?_
      snap := fun hb => ?_
      slots := fun hu => ?_
      active := fun hc s => ?_
      program := fun c' g rest hr => ?_
      counted := fun c' => ?_
      stage := fun c' hg => ?_
      seen := fun c' hc => ?_ }
  · rw [ho.gen, ho.tickGen, ho.begun]
    exact h.gen (by rwa [ho.pc] at hb)
  · rw [ho.snap, ho.begun, h.snap (by rwa [ho.pc] at hb)]
  · rw [ho.slots, ho.begun, h.slots (by rwa [ho.pc] at hu)]
  · rw [ho.slots, ho.begun, h.active (by rwa [ho.pc] at hc)]
  · by_cases he : c' = c
    · subst he
      exact hm.program (h.program c') g rest hr
    · rw [(ho.others c' he).2.1] at hr
      exact h.program c' g rest hr
  · by_cases he : c' = c
    · subst he
      exact (h.counted c').sampler hm (h.program c')
    · obtain ⟨-, h2, h3, h4⟩ := ho.others c' he
      rw [Counts, h2, h3, h4, ho.tickGen]
      exact h.counted c'
  · rw [ho.pc] at hg
    by_cases he : c' = c
    · subst he
      exact (h.stage c' hg).sampler hm (h.program c') h.unsent
    · obtain ⟨h1, h2, h3, h4⟩ := ho.others c' he
      exact (h.stage c' hg).keeps
        ⟨h1, h2, h3, ho.tickGen, ho.begun, h4, fun hc => by rwa [← ho.pc]⟩
  · rw [ho.pc] at hc
    by_cases he : c' = c
    · subst he
      obtain ⟨hgo, hhere, -⟩ := h.finished hc
      rw [(hm.finished hgo hhere).2.2.1]
      exact h.seen c' hc
    · rw [(ho.others c' he).2.2.1, ho.tickGen]
      exact h.seen c' hc

theorem Inv.http (h : Inv p t) (write : ControlPlane.HttpStep) :
    Inv p { t with shared := write.apply t.shared } where
  gen := h.gen
  snap := h.snap
  slots := h.slots
  active := h.active
  program := h.program
  counted := h.counted
  stage c hg := (h.stage c hg).keeps ⟨rfl, rfl, rfl, rfl, rfl, rfl, id⟩
  seen := h.seen

end ZephyrApps.LockstepFreshness
