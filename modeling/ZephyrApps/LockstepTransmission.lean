import ZephyrApps.ComparatorLoops
import ZephyrApps.LockstepTicks

/-!
# All sessions transmit, or none

In one tick either every active due slot is handed its agreed frame once, or no
slot is handed any; which of the two does not depend on the order in which the
comparator visits the slots. Each tick that declines is counted once, under its
reason.
-/
namespace ZephyrApps.LockstepTransmission
open Pstop AppSettings EstopVerdict PstopSession LockstepComparator LockstepDevice LockstepTicks
  ComparatorLoops

/-- No sampler is late, and both have published generation `gen`. -/
def Fresh (L : Lockstep) (gen : UInt32) (lateMask : Channel → Bool) : Prop :=
  ∀ c, lateMask c = false ∧ (L.samplers c).gen = gen

/-- The two encodings of every active due slot are equal. -/
def Agreed (L : Lockstep) : Prop :=
  ∀ s, L.due s = true → (L.samplers 0).frames s = (L.samplers 1).frames s

def Transmits (L : Lockstep) (gen : UInt32) (lateMask : Channel → Bool) : Prop :=
  Fresh L gen lateMask ∧ L.primed = true ∧ Agreed L

def attempts (es : List Event) : List Frame :=
  es.filterMap fun e => match e with
    | .send _ f _ => some f
    | _ => none

/-- Between the two states the slot was handed exactly the frames `fs`. -/
def Attempted (m m' : MachineSlot) (fs : List Frame) : Prop :=
  ∃ es, m'.log = m.log ++ es ∧ attempts es = fs

/-- `L` is what the comparator looks at; the slots went from `before` to `after`. -/
structure AllOrNothing (L : Lockstep) (gen : UInt32) (lateMask : Channel → Bool)
    (before after : Slot → MachineSlot) : Prop where
  due : Transmits L gen lateMask → ∀ s, L.due s = true →
    ∀ c, Attempted (before s) (after s) [(L.samplers c).frames s]
  notDue : Transmits L gen lateMask → ∀ s, L.due s = false → Attempted (before s) (after s) []
  silent : ¬ Transmits L gen lateMask → ∀ s, Attempted (before s) (after s) []

/-- The counters of a tick: one of them goes up by one, or none does. -/
structure Accounts (L : Lockstep) (gen : UInt32) (lateMask : Channel → Bool)
    (before after : Lockstep) : Prop where
  late : ¬ Fresh L gen lateMask → after.missedDeadlines = before.missedDeadlines + 1 ∧
    after.gatedTicks = before.gatedTicks ∧ after.mismatches = before.mismatches
  unprimed : Fresh L gen lateMask → L.primed = false →
    after.missedDeadlines = before.missedDeadlines ∧ after.gatedTicks = before.gatedTicks + 1 ∧
      after.mismatches = before.mismatches
  mismatched : Fresh L gen lateMask → L.primed = true → ¬ Agreed L →
    after.missedDeadlines = before.missedDeadlines ∧ after.gatedTicks = before.gatedTicks ∧
      after.mismatches = before.mismatches + 1
  transmits : Transmits L gen lateMask → after.missedDeadlines = before.missedDeadlines ∧
    after.gatedTicks = before.gatedTicks ∧ after.mismatches = before.mismatches

variable {L : Lockstep} {gen : UInt32} {lateMask : Channel → Bool}

/-- What `run_tick_body` computes from the mask and the generations. -/
theorem fresh_iff : (!(lateMask 0 || !decide ((L.samplers 0).gen = gen)) &&
      !(lateMask 1 || !decide ((L.samplers 1).gen = gen)) && samplersPublished L gen) = true ↔
    Fresh L gen lateMask := by
  constructor
  · intro h
    simp only [Bool.and_eq_true, Bool.not_eq_true', Bool.or_eq_false_iff, Bool.not_eq_false',
      decide_eq_true_eq] at h
    exact channel_cases h.1.1 h.1.2
  · intro h
    simp [samplersPublished, h 0, h 1]

theorem agreed_iff : Agreed L ↔ ∀ s, L.differs s = false := by
  refine forall_congr' fun s => ?_
  cases hd : L.due s <;> simp [Lockstep.differs, hd]

variable (order : List Slot) (sendto : Slot → Int) (uptimeMs : UInt64) (lateByMs : UInt32)

theorem compare_late (h : ¬ Fresh L gen lateMask) :
    ∃ diag, compareOrDeclineIn order L gen lateMask lateByMs sendto uptimeMs =
      { L with missedDeadlines := L.missedDeadlines + 1, diag } := by
  unfold compareOrDeclineIn
  dsimp only
  rw [if_neg (mt fresh_iff.mp h)]
  exact ⟨_, rfl⟩

theorem compare_fresh (h : Fresh L gen lateMask) :
    compareOrDeclineIn order L gen lateMask lateByMs sendto uptimeMs =
      (comparatorPassIn order L sendto uptimeMs).observe gen := by
  unfold compareOrDeclineIn
  dsimp only
  rw [if_pos (fresh_iff.mpr h)]

/-- The observer is called with the work done. -/
theorem observe_eq (L : Lockstep) (gen : UInt32) :
    ∃ observed, L.observe gen = { L with observed } := by
  unfold Lockstep.observe
  split
  · exact ⟨_, rfl⟩
  · exact ⟨L.observed, rfl⟩

theorem compare_unprimed (h : Fresh L gen lateMask) (hp : L.primed = false) :
    ∃ observed, compareOrDeclineIn order L gen lateMask lateByMs sendto uptimeMs =
      { L with gatedTicks := L.gatedTicks + 1, observed } := by
  rw [compare_fresh order sendto uptimeMs lateByMs h]
  have hpass : comparatorPassIn order L sendto uptimeMs =
      { L with gatedTicks := L.gatedTicks + 1 } := by simp [comparatorPassIn, hp]
  rw [hpass]
  exact observe_eq _ _

theorem compare_mismatched (ho : order.Perm (List.finRange 4)) (h : Fresh L gen lateMask)
    (hp : L.primed = true) (ha : ¬ Agreed L) :
    ∃ diag observed, compareOrDeclineIn order L gen lateMask lateByMs sendto uptimeMs =
      { L with mismatches := L.mismatches + 1, diag, observed } := by
  rw [compare_fresh order sendto uptimeMs lateByMs h]
  rw [agreed_iff, ← find_differs_none ho] at ha
  obtain ⟨s, hs⟩ := Option.ne_none_iff_exists'.mp ha
  have hpass : comparatorPassIn order L sendto uptimeMs =
      { L.recordMismatch uptimeMs s with mismatches := L.mismatches + 1 } := by
    simp [comparatorPassIn, hp, hs]
  rw [hpass]
  obtain ⟨observed, he⟩ := observe_eq
    { L.recordMismatch uptimeMs s with mismatches := L.mismatches + 1 } gen
  rw [he]
  exact ⟨(L.recordMismatch uptimeMs s).diag, observed, rfl⟩

theorem compare_transmits (ho : order.Perm (List.finRange 4)) (h : Transmits L gen lateMask) :
    ∃ observed, compareOrDeclineIn order L gen lateMask lateByMs sendto uptimeMs =
      { L.sendAll sendto with observed } := by
  obtain ⟨hf, hp, ha⟩ := h
  rw [compare_fresh order sendto uptimeMs lateByMs hf]
  have hn := (find_differs_none ho L).mpr (agreed_iff.mp ha)
  have hpass : comparatorPassIn order L sendto uptimeMs = L.sendAll sendto := by
    simp [comparatorPassIn, hp, hn, sendLoop_perm sendto ho]
  rw [hpass]
  exact observe_eq _ _

/-- Without a transmission the compare phase leaves every slot as it was. -/
theorem compare_silent (ho : order.Perm (List.finRange 4)) (h : ¬ Transmits L gen lateMask) :
    (compareOrDeclineIn order L gen lateMask lateByMs sendto uptimeMs).slots = L.slots := by
  by_cases hf : Fresh L gen lateMask
  · cases hp : L.primed with
    | false =>
      obtain ⟨_, he⟩ := compare_unprimed order sendto uptimeMs lateByMs hf hp
      rw [he]
    | true =>
      obtain ⟨_, _, he⟩ := compare_mismatched order sendto uptimeMs lateByMs ho hf hp
        fun ha => h ⟨hf, hp, ha⟩
      rw [he]
  · obtain ⟨_, he⟩ := compare_late order sendto uptimeMs lateByMs hf
    rw [he]

theorem compare_accounts (ho : order.Perm (List.finRange 4)) :
    Accounts L gen lateMask L
      (compareOrDeclineIn order L gen lateMask lateByMs sendto uptimeMs) where
  late h := by
    obtain ⟨_, he⟩ := compare_late order sendto uptimeMs lateByMs h
    rw [he]
    exact ⟨rfl, rfl, rfl⟩
  unprimed h hp := by
    obtain ⟨_, he⟩ := compare_unprimed order sendto uptimeMs lateByMs h hp
    rw [he]
    exact ⟨rfl, rfl, rfl⟩
  mismatched h hp ha := by
    obtain ⟨_, _, he⟩ := compare_mismatched order sendto uptimeMs lateByMs ho h hp ha
    rw [he]
    exact ⟨rfl, rfl, rfl⟩
  transmits h := by
    obtain ⟨_, he⟩ := compare_transmits order sendto uptimeMs lateByMs ho h
    rw [he]
    exact ⟨rfl, rfl, rfl⟩

variable {m m' m'' : MachineSlot}

theorem Attempted.trans {fs fs' : List Frame} (h : Attempted m m' fs) (h' : Attempted m' m'' fs') :
    Attempted m m'' (fs ++ fs') := by
  obtain ⟨es, hl, rfl⟩ := h
  obtain ⟨es', hl', rfl⟩ := h'
  exact ⟨es ++ es', by rw [hl', hl, List.append_assoc], List.filterMap_append⟩

theorem Attempted.of_grows {Q : Event → Prop} (h : Grows Q m m')
    (hq : ∀ e, Q e → e.isSend = false) : Attempted m m' [] := by
  obtain ⟨es, hl, hes⟩ := h
  refine ⟨es, hl, List.filterMap_eq_nil_iff.mpr fun e he => ?_⟩
  have hs := hq e (hes e he)
  cases e <;> simp_all [Event.isSend]

theorem attempted_commit (f : Frame) (now : UInt64) (n : Int) (m : MachineSlot) :
    Attempted m (pstopSessionCommitSend f now n m) [f] := ⟨_, commit_log f now n m, rfl⟩

variable (p : PstopC)

theorem attempted_beginSlot (r : BeginReads) (sock bound : Slot → Int) (s : Slot)
    (m : MachineSlot) : Attempted m (beginSlot p r sock bound s m) [] := by
  refine .of_grows (beginSlot_grows p r sock bound s m) fun e he => ?_
  rcases he with he | he
  · exact (isSocketCall_spec he).2.2
  · cases e <;> simp_all [Event.isReset, Event.isSend]

theorem attempted_serviceSlot (now : UInt64) (arrived : List Datagram) (m : MachineSlot) :
    Attempted m (serviceSlot p now arrived m) [] := by
  refine .of_grows (serviceSlot_grows p now arrived m) fun e he => ?_
  rcases he with rfl | ⟨msg, rfl⟩ | rfl <;> rfl

variable (now : UInt64) (arrivals : Slot → List Datagram)

theorem runTickBody_allOrNothing (ho : order.Perm (List.finRange 4)) :
    AllOrNothing L gen lateMask L.slots (runTickBodyIn p order L now gen lateMask lateByMs sendto
      uptimeMs arrivals).slots := by
  -- the slot after the compare phase, then serviced
  have hserve {s : Slot} {fs : List Frame} (h : Attempted (L.slots s)
      ((compareOrDeclineIn order L gen lateMask lateByMs sendto uptimeMs).slots s) fs) :
      Attempted (L.slots s) ((runTickBodyIn p order L now gen lateMask lateByMs sendto uptimeMs
        arrivals).slots s) fs := by
    have ht := h.trans (attempted_serviceSlot p now (arrivals s) _)
    rwa [List.append_nil] at ht
  constructor
  case due =>
    intro h s hd c
    obtain ⟨_, he⟩ := compare_transmits order sendto uptimeMs lateByMs ho h
    have hf : (L.samplers c).frames s = (L.samplers 0).frames s := by
      cases c using channel_cases with
      | zero => rfl
      | one => exact (h.2.2 s hd).symm
    refine hserve ?_
    rw [he, hf]
    simp only [Lockstep.sendAll, hd, if_true]
    exact attempted_commit _ _ _ _
  case notDue =>
    intro h s hd
    obtain ⟨_, he⟩ := compare_transmits order sendto uptimeMs lateByMs ho h
    refine hserve ?_
    rw [he]
    simp only [Lockstep.sendAll, hd, Bool.false_eq_true, if_false]
    exact ⟨[], by simp, rfl⟩
  case silent =>
    intro h s
    refine hserve ?_
    rw [compare_silent order sendto uptimeMs lateByMs ho h]
    exact ⟨[], by simp, rfl⟩

theorem runTickBody_accounts (ho : order.Perm (List.finRange 4)) :
    Accounts L gen lateMask L (runTickBodyIn p order L now gen lateMask lateByMs sendto uptimeMs
      arrivals) := by
  have h : Accounts L gen lateMask L
      (compareOrDeclineIn order L gen lateMask lateByMs sendto uptimeMs) :=
    compare_accounts order sendto uptimeMs lateByMs ho
  exact ⟨h.late, h.unprimed, h.mismatched, h.transmits⟩

/-- The start of a tick and the samplers hand nothing to a socket and count nothing. -/
theorem AllOrNothing.of_sampled {d : Device} {i : Tick} {after : Slot → MachineSlot}
    (h : AllOrNothing (d.sampled p i).lk gen lateMask (d.sampled p i).lk.slots after) :
    AllOrNothing (d.sampled p i).lk gen lateMask d.lk.slots after := by
  have hb {s : Slot} {fs : List Frame} (hs : Attempted ((d.sampled p i).lk.slots s) (after s) fs) :
      Attempted (d.lk.slots s) (after s) fs := by
    rw [sampled_slots] at hs
    exact (attempted_beginSlot p (d.beginReads i) i.sock i.bound s (d.lk.slots s)).trans hs
  exact ⟨fun ht s hd c => hb (h.due ht s hd c), fun ht s hd => hb (h.notDue ht s hd),
    fun ht s => hb (h.silent ht s)⟩

theorem Accounts.of_sampled {d : Device} {i : Tick} {after : Lockstep}
    (h : Accounts (d.sampled p i).lk gen lateMask (d.sampled p i).lk after) :
    Accounts (d.sampled p i).lk gen lateMask d.lk after := by
  obtain ⟨samplers, he⟩ := sampled_lk p d i
  have hm : (d.sampled p i).lk.missedDeadlines = d.lk.missedDeadlines := by rw [he]; rfl
  have hg : (d.sampled p i).lk.gatedTicks = d.lk.gatedTicks := by rw [he]; rfl
  have hx : (d.sampled p i).lk.mismatches = d.lk.mismatches := by rw [he]; rfl
  obtain ⟨h1, h2, h3, h4⟩ := h
  rw [hm, hg, hx] at h1 h2 h3 h4
  exact ⟨h1, h2, h3, h4⟩

/-- Whatever the state, the mask, the stamps and the order in which the comparator
visits the slots: the compare phase sends every due slot its frame or changes no
slot, the whole of `run_tick_body` hands out nothing else, and the counters account
for it; and a tick is one such `run_tick_body`. -/
theorem all_or_nothing (order : List Slot) (ho : order.Perm (List.finRange 4)) :
    (∀ (L : Lockstep) (gen : UInt32) (lateMask : Channel → Bool) (lateByMs : UInt32)
        (sendto : Slot → Int) (uptimeMs : UInt64),
      let L' := compareOrDeclineIn order L gen lateMask lateByMs sendto uptimeMs
      (Transmits L gen lateMask → ∀ s, L'.slots s =
        if L.due s then
          pstopSessionCommitSend ((L.samplers 0).frames s) L.snap.nowMs (sendto s) (L.slots s)
        else L.slots s) ∧
      (¬ Transmits L gen lateMask → L'.slots = L.slots)) ∧
    (∀ (L : Lockstep) (now : UInt64) (gen : UInt32) (lateMask : Channel → Bool)
        (lateByMs : UInt32) (sendto : Slot → Int) (uptimeMs : UInt64)
        (arrivals : Slot → List Datagram),
      let L' := runTickBodyIn p order L now gen lateMask lateByMs sendto uptimeMs arrivals
      AllOrNothing L gen lateMask L.slots L'.slots ∧ Accounts L gen lateMask L L') ∧
    ∀ (d : Device) (i : Tick),
      let L := (d.sampled p i).lk
      (d.tick p i).lk = runTickBodyIn p (List.finRange 4) L i.now L.tickGen i.lateMask 0 i.sendto
        i.uptimeMs i.arrivals ∧
      AllOrNothing L L.tickGen i.lateMask d.lk.slots (d.tick p i).lk.slots ∧
      Accounts L L.tickGen i.lateMask d.lk (d.tick p i).lk := by
  refine ⟨fun L gen lateMask lateByMs sendto uptimeMs => ⟨fun h s => ?_, fun h => ?_⟩,
    fun L now gen lateMask lateByMs sendto uptimeMs arrivals => ⟨?_, ?_⟩, fun d i => ?_⟩
  · obtain ⟨_, he⟩ := compare_transmits order sendto uptimeMs lateByMs ho h
    rw [he]
    rfl
  · exact compare_silent order sendto uptimeMs lateByMs ho h
  · exact runTickBody_allOrNothing order sendto uptimeMs lateByMs p now arrivals ho
  · exact runTickBody_accounts order sendto uptimeMs lateByMs p now arrivals ho
  · have ht : (d.tick p i).lk = runTickBodyIn p (List.finRange 4) (d.sampled p i).lk i.now
        (d.sampled p i).lk.tickGen i.lateMask 0 i.sendto i.uptimeMs i.arrivals := by
      rw [runTickBodyIn_finRange]
      rfl
    refine ⟨ht, ?_, ?_⟩
    · refine AllOrNothing.of_sampled p ?_
      rw [ht]
      exact runTickBody_allOrNothing _ i.sendto i.uptimeMs 0 p i.now i.arrivals (.refl _)
    · refine Accounts.of_sampled p ?_
      rw [ht]
      exact runTickBody_accounts _ i.sendto i.uptimeMs 0 p i.now i.arrivals (.refl _)

/-- A bonded slot is handed its OK when the comparator visits the slots backwards. -/
theorem all_or_nothing_backwards :
    let L := ((after reference oneMachine bondingRun).sampled reference
      (quietTick 1300 closedReads)).lk
    L.due 0 = true ∧ ∀ c, Attempted (L.slots 0)
      ((runTickBodyIn reference [3, 2, 1, 0] L 1300 L.tickGen (fun _ => false) 0
        (fun _ => 0) 0 fun _ => []).slots 0) [(L.samplers c).frames 0] := by
  have ht : Transmits ((after reference oneMachine bondingRun).sampled reference
      (quietTick 1300 closedReads)).lk ((after reference oneMachine bondingRun).sampled reference
      (quietTick 1300 closedReads)).lk.tickGen fun _ => false := by
    unfold Transmits Fresh Agreed
    decide +kernel
  have hd : ((after reference oneMachine bondingRun).sampled reference
      (quietTick 1300 closedReads)).lk.due 0 = true := by decide +kernel
  exact ⟨hd, ((all_or_nothing reference [3, 2, 1, 0] (by decide)).2.1 _ _ _ _ _ _ _ _).1.due
    ht 0 hd⟩

end ZephyrApps.LockstepTransmission
