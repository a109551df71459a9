import ZephyrApps.LockstepStages

/-!
# The steps of the comparator thread

Within a tick the comparator only moves on, except that it gives each sampler its
go; a new tick starts every stage over.
-/
namespace ZephyrApps.LockstepFreshness
open Pstop AppSettings EstopVerdict PstopSession LockstepComparator LockstepDevice LockstepThreads
  SystemRuns

variable {p : PstopC} {t t' : Threads} {c : Channel}

/-- The comparator moves on within a tick: it neither gives a go nor returns to the
comparison, and passes `samplers_published` only by a stamp that is `stamped`. -/
structure MovesOn (stamped : Channel → Prop) (pc pc' : ComparatorPc) : Prop where
  comparing : Comparing pc' → Comparing pc
  unsent : Unsent pc' → Unsent pc
  given : ∀ c, Given pc' c → Given pc c
  seen : ∀ c, Seen pc' c → Seen pc c ∨ stamped c

section MovesOn

variable {stamped : Channel → Prop}

attribute [local simp] nextChannel Comparing Unsent Given Seen

theorem movesOn_resetDone (c : Channel) :
    MovesOn stamped (.resetDone c) (nextChannel c .resetDone (.giveGo 0)) := by
  cases c using channel_cases <;> constructor <;> simp

theorem movesOn_takeDone (c : Channel) :
    MovesOn stamped (.takeDone c) (nextChannel c .takeDone (.checkGen 0)) := by
  cases c using channel_cases <;> constructor <;> simp

theorem movesOn_checkGen (c : Channel) :
    MovesOn stamped (.checkGen c) (nextChannel c .checkGen .judge) := by
  cases c using channel_cases <;> constructor <;> simp

theorem movesOn_judge : MovesOn stamped .judge (.published 0) := by
  constructor <;> simp

theorem movesOn_published {c : Channel} (h : stamped c) :
    MovesOn stamped (.published c) (nextChannel c .published .gate) := by
  cases c using channel_cases with
  | zero =>
    refine ⟨by simp, by simp, by simp, fun c' hs => Or.inr ?_⟩
    obtain rfl : c' = 0 := Nat.lt_one_iff.mp hs |> Fin.ext
    exact h
  | one =>
    refine ⟨by simp, by simp, by simp, fun c' _ => ?_⟩
    cases c' using channel_cases with
    | zero => exact Or.inl (by simp)
    | one => exact Or.inr h

theorem movesOn_gate : MovesOn stamped .gate (.compare 0) := by
  constructor <;> simp

theorem movesOn_compare (s : Slot) :
    MovesOn stamped (.compare s) (nextSlot s .compare (.send 0)) := by
  unfold nextSlot
  split <;> constructor <;> simp

theorem movesOn_send (s : Slot) :
    MovesOn stamped (.send s) (nextSlot s .send .observe) := by
  unfold nextSlot
  split <;> constructor <;> simp

/-- A place after the last send, reached from any place after the gos. -/
theorem movesOn_after {pc pc' : ComparatorPc} (h : ∀ c, Given pc c) (hc : ¬ Comparing pc')
    (hu : ¬ Unsent pc') (hs : ∀ c, ¬ Seen pc' c) : MovesOn stamped pc pc' :=
  ⟨fun h' => absurd h' hc, fun h' => absurd h' hu, fun c _ => h c, fun c h' => absurd h' (hs c)⟩

theorem movesOn_observe {pc : ComparatorPc} (h : ∀ c, Given pc c) :
    MovesOn stamped pc .observe :=
  movesOn_after h (by simp) (by simp) (by simp)

theorem movesOn_poll {pc : ComparatorPc} (h : ∀ c, Given pc c) (s : Slot) :
    MovesOn stamped pc (.poll s) :=
  movesOn_after h (by simp) (by simp) (by simp)

theorem movesOn_nextPoll (s : Slot) :
    MovesOn stamped (.poll s) (nextSlot s .poll .beginTick) := by
  unfold nextSlot
  split <;> exact movesOn_after (by simp) (by simp) (by simp) (by simp)

end MovesOn

/-- A comparator step that neither begins a tick nor gives a go leaves the samplers
and the history, and the slots until the first send. -/
structure Advances (t t' : Threads) : Prop where
  sampler : t'.sampler = t.sampler
  go : t'.go = t.go
  samples : t'.samples = t.samples
  begun : t'.begun = t.begun
  gen : t'.gen = t.gen
  samplers : t'.lk.samplers = t.lk.samplers
  snap : t'.lk.snap = t.lk.snap
  tickGen : t'.lk.tickGen = t.lk.tickGen
  slots : Unsent t'.pc → t'.lk.slots = t.lk.slots
  active : Comparing t'.pc → ∀ s, (t'.lk.slots s).active = (t.lk.slots s).active
  moves : MovesOn (fun c => (t.lk.samplers c).gen = t.gen) t.pc t'.pc

theorem Inv.advance (h : Inv p t) (hb : t.pc ≠ .beginTick) (ha : Advances t t') : Inv p t' where
  gen _ := by
    rw [ha.gen, ha.tickGen, ha.begun]
    exact h.gen hb
  snap _ := by rw [ha.snap, ha.begun, h.snap hb]
  slots hu := by rw [ha.slots hu, ha.begun, h.slots (ha.moves.unsent hu)]
  active hc s := by rw [ha.active hc, ha.begun, h.active (ha.moves.comparing hc)]
  program c g rest hc := h.program c g rest (by rwa [ha.sampler] at hc)
  counted c := by
    rw [Counts, ha.samplers, ha.tickGen, ha.sampler, ha.samples]
    exact h.counted c
  stage c hg := by
    refine (h.stage c (ha.moves.given c hg)).keeps
      ⟨?_, ?_, ?_, ha.tickGen, ha.begun, ?_, ha.moves.comparing⟩
    · rw [ha.go]
    · rw [ha.sampler]
    · rw [ha.samplers]
    · rw [ha.samples]
  seen c hs := by
    rw [ha.samplers, ha.tickGen]
    rcases ha.moves.seen c hs with hs | hs
    · exact h.seen c hs
    · rw [hs, (h.gen hb).1]

/-- A step that leaves the work alone only has to move on. -/
theorem Advances.of_sameWork {L : Lockstep} {pc : ComparatorPc} {late done : Channel → Bool}
    (hL : SameWork t.lk L) (hm : MovesOn (fun c => (t.lk.samplers c).gen = t.gen) t.pc pc) :
    Advances t { t with lk := L, pc, late, done } where
  sampler := rfl
  go := rfl
  samples := rfl
  begun := rfl
  gen := rfl
  samplers := hL.samplers
  snap := hL.snap
  tickGen := hL.tickGen
  slots _ := hL.slots
  active _ s := by rw [hL.slots]
  moves := hm

theorem decline_advances {io : ComparatorIo} (h : ∀ c, Given t.pc c) :
    Advances t (t.decline io) := .of_sameWork ⟨rfl, rfl, rfl, rfl⟩ (movesOn_poll h 0)

theorem sendSlot_same (L : Lockstep) (s : Slot) (n : Int) :
    (sendSlot L s n).samplers = L.samplers ∧ (sendSlot L s n).snap = L.snap ∧
      (sendSlot L s n).tickGen = L.tickGen := by
  unfold sendSlot
  split <;> exact ⟨rfl, rfl, rfl⟩

theorem sendSlot_active (L : Lockstep) (s s' : Slot) (n : Int) :
    ((sendSlot L s n).slots s').active = (L.slots s').active := by
  unfold sendSlot
  split
  · by_cases h : s' = s
    · subst h
      simp
    · simp [h]
  · rfl

/-- A send leaves the samplers, and every slot as active as it was. -/
theorem send_advances {s : Slot} (hpc : t.pc = .send s) (n : Int) :
    Advances t { t with lk := sendSlot t.lk s n, pc := nextSlot s .send .observe } := by
  obtain ⟨h1, h2, h3⟩ := sendSlot_same t.lk s n
  have hm : MovesOn (fun c => (t.lk.samplers c).gen = t.gen) t.pc (nextSlot s .send .observe) :=
    hpc ▸ movesOn_send s
  have hu : ¬ Unsent (nextSlot s .send .observe) :=
    fun hu => by simpa [hpc, Unsent] using hm.unsent hu
  exact ⟨rfl, rfl, rfl, rfl, rfl, h1, h2, h3, fun h => absurd h hu,
    fun _ s' => sendSlot_active t.lk s s' n, hm⟩

theorem poll_advances {s : Slot} (hpc : t.pc = .poll s) (slots : Slot → MachineSlot) :
    Advances t { t with lk := { t.lk with slots }, pc := nextSlot s .poll .beginTick } := by
  have hm : MovesOn (fun c => (t.lk.samplers c).gen = t.gen) t.pc (nextSlot s .poll .beginTick) :=
    hpc ▸ movesOn_nextPoll s
  have hu : ¬ Unsent (nextSlot s .poll .beginTick) :=
    fun hu => by simpa [hpc, Unsent] using hm.unsent hu
  have hc : ¬ Comparing (nextSlot s .poll .beginTick) :=
    fun hc => by simpa [hpc, Comparing] using hm.comparing hc
  exact ⟨rfl, rfl, rfl, rfl, rfl, rfl, rfl, rfl, fun h => absurd h hu, fun h => absurd h hc, hm⟩

theorem comparatorStep_advances {io : ComparatorIo} (h : t.comparatorStep p io = some t')
    (hb : t.pc ≠ .beginTick) (hg : ∀ c, t.pc ≠ .giveGo c) : Advances t t' := by
  unfold Threads.comparatorStep at h
  cases hpc : t.pc with
  | beginTick => exact absurd hpc hb
  | giveGo c => exact absurd hpc (hg c)
  | resetDone c =>
    simp only [hpc, Option.some.injEq] at h
    subst h
    exact .of_sameWork (.refl _) (hpc ▸ movesOn_resetDone c)
  | takeDone c =>
    simp only [hpc] at h
    split at h
    · cases h
      exact .of_sameWork (recordLatency_sameWork _ _ _) (hpc ▸ movesOn_takeDone c)
    · split at h
      · cases h
        exact .of_sameWork (.refl _) (hpc ▸ movesOn_takeDone c)
      · cases h
  | checkGen c =>
    simp only [hpc, Option.some.injEq] at h
    subst h
    exact .of_sameWork (.refl _) (hpc ▸ movesOn_checkGen c)
  | judge =>
    simp only [hpc, Option.some.injEq] at h
    subst h
    split
    · exact .of_sameWork (.refl _) (hpc ▸ movesOn_judge)
    · exact decline_advances (by simp [hpc, Given])
  | published c =>
    simp only [hpc, Option.some.injEq] at h
    subst h
    split
    case isTrue hgen => exact .of_sameWork (.refl _) (hpc ▸ movesOn_published hgen)
    case isFalse => exact decline_advances (by simp [hpc, Given])
  | gate =>
    simp only [hpc, Option.some.injEq] at h
    subst h
    split
    · exact .of_sameWork (.refl _) (hpc ▸ movesOn_gate)
    · exact .of_sameWork ⟨rfl, rfl, rfl, rfl⟩ (movesOn_observe (by simp [hpc, Given]))
  | compare s =>
    simp only [hpc, Option.some.injEq] at h
    subst h
    split
    · exact .of_sameWork ⟨rfl, rfl, rfl, rfl⟩ (movesOn_observe (by simp [hpc, Given]))
    · exact .of_sameWork (.refl _) (hpc ▸ movesOn_compare s)
  | send s =>
    simp only [hpc, Option.some.injEq] at h
    subst h
    exact send_advances hpc io.sendto
  | observe =>
    simp only [hpc, Option.some.injEq] at h
    subst h
    exact .of_sameWork (observe_sameWork _ _) (movesOn_poll (by simp [hpc, Given]) 0)
  | poll s =>
    simp only [hpc, Option.some.injEq] at h
    subst h
    exact poll_advances hpc _

theorem Inv.begin {io : ComparatorIo} (h : Inv p t) (hpc : t.pc = .beginTick)
    (hs : t.comparatorStep p io = some t') : Inv p t' := by
  simp only [Threads.comparatorStep, hpc, Option.some.injEq] at hs
  subst hs
  exact
    { gen := fun _ => ⟨rfl, rfl⟩
      snap := fun _ => rfl
      slots := fun _ => rfl
      active := fun _ _ => rfl
      program := h.program
      counted := fun c hn => absurd rfl hn
      stage := fun c hg => absurd hg (by simp [Given])
      seen := fun c hc => absurd hc (by simp [Seen]) }

/-- A go starts the wait of a sampler that has not started. -/
theorem Inv.giveGo {io : ComparatorIo} (h : Inv p t) (hpc : t.pc = .giveGo c)
    (hn : NotStarted t c) (hs : t.comparatorStep p io = some t') : Inv p t' := by
  simp only [Threads.comparatorStep, hpc, Option.some.injEq] at hs
  subst hs
  have hb : t.pc ≠ .beginTick := by simp [hpc]
  have hcount : t.samples c = 0 := by
    by_contra h0
    rcases (h.counted c h0).1 with hg | ⟨rest, hp, -⟩
    · exact hn.2 hg
    · simp [NotStarted, hp, onGen] at hn
  refine
    { gen := fun _ => h.gen hb
      snap := fun _ => h.snap hb
      slots := fun _ => h.slots (by simp [hpc, Unsent])
      active := fun _ => h.active (by simp [hpc, Comparing])
      program := h.program
      counted := h.counted
      stage := fun c' hg => ?_
      seen := fun c' hc => ?_ }
  · by_cases hc : c' = c
    · subst hc
      exact .waiting (by simp) hn hcount
    · have hgt : Given t.pc c' := by
        rw [hpc]
        cases c using channel_cases with
        | zero =>
          cases c' using channel_cases with
          | zero => exact absurd rfl hc
          | one => simp [nextChannel, Given] at hg
        | one =>
          cases c' using channel_cases with
          | zero => simp [Given]
          | one => exact absurd rfl hc
      exact (h.stage c' hgt).keeps
        ⟨by simp [hc], rfl, rfl, rfl, rfl, rfl, fun _ => by simp [hpc, Comparing]⟩
  · cases c using channel_cases with
    | zero => simp [nextChannel, Seen] at hc
    | one => simp [nextChannel, Seen] at hc

/-- The comparator gives a go only to a sampler that has not started on the
generation. -/
def GoesOnce (t : Threads) : Act → Prop
  | .comparator _ => ∀ c, t.pc = .giveGo c → NotStarted t c
  | _ => True

instance (t : Threads) (a : Act) : Decidable (GoesOnce t a) := by
  cases a <;> unfold GoesOnce <;> infer_instance

theorem Inv.comparator {io : ComparatorIo} (h : Inv p t) (hc : GoesOnce t (.comparator io))
    (hs : t.comparatorStep p io = some t') : Inv p t' := by
  by_cases hb : t.pc = .beginTick
  · exact h.begin hb hs
  · by_cases hg : ∃ c, t.pc = .giveGo c
    · obtain ⟨c, hg⟩ := hg
      exact h.giveGo hg (hc c hg) hs
    · exact h.advance hb (comparatorStep_advances hs hb (not_exists.mp hg))

end ZephyrApps.LockstepFreshness
