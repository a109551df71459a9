import ZephyrApps.LockstepTicks

/-!
# What the loops allow on the wire

The state of a sampler after a run is a function of the reads of its channel
since boot, so a transmitted OK or STOP says something about those reads.
-/
namespace ZephyrApps.LockstepVerdicts
open Pstop AppSettings ConsecutiveRuns EventHistories EstopVerdict PstopSession LockstepComparator
  LockstepDevice LockstepTicks SystemRuns

variable {p : PstopC} {d : Device} {i : Tick} {s : Slot} {now : UInt64} {f : Frame} {ok : Bool}

def readsOf (c : Channel) (is : List Tick) : List Reads := is.map fun t => t.reads c

@[simp] theorem readsOf_append (c : Channel) (is js : List Tick) :
    readsOf c (is ++ js) = readsOf c is ++ readsOf c js := by simp [readsOf]

@[simp] theorem readsOf_singleton (c : Channel) (t : Tick) : readsOf c [t] = [t.reads c] := rfl

variable (p)

theorem estop_after (b : Boot) (is : List Tick) (c : Channel) :
    ((after p b is).lk.samplers c).estop = watch c (readsOf c is) := by
  refine run_induction
    (I := fun is (d : Device) => (d.lk.samplers c).estop = watch c (readsOf c is)) rfl ?_ is
  intro is i ih
  rw [tick_samplers, sampled_estop, ih, readsOf_append, readsOf_singleton, watch_concat]

theorem verdict_after (b : Boot) (is : List Tick) (i : Tick) (c : Channel) :
    (((after p b is).sampled p i).lk.samplers c).verdict =
      if 3 ≤ trailing closed (readsOf c (is ++ [i])) then messageOk else messageStop := by
  rw [sampled_verdict, estop_after, readsOf_append, readsOf_singleton, verdict_watch]

theorem primed_after (b : Boot) (is : List Tick) (i : Tick) :
    ((after p b is).sampled p i).lk.primed = true ↔ ∀ c, Settles (readsOf c (is ++ [i])) := by
  have he (c : Channel) : (((after p b is).sampled p i).lk.samplers c).estop =
      watch c (readsOf c (is ++ [i])) := by
    rw [sampled_estop, estop_after, readsOf_append, readsOf_singleton, watch_concat]
  rw [← channelsPrimed_iff]
  simp only [Lockstep.primed, he]

variable {p}

/-- A transmitted frame is both samplers' frame of a due slot. -/
theorem frames_of_send (h : Event.send now f ok ∈ d.events p i s) (c : Channel) :
    ((d.sampled p i).lk.samplers c).frames s = f := by
  obtain ⟨hr, hd, -, rfl, -⟩ := (send_mem_events p d i).mp h
  have hs := hr.2.2 s
  rw [Lockstep.differs, sampled_due, hd, Bool.true_and, decide_eq_false_iff_not, not_not] at hs
  cases c using channel_cases with
  | zero => rfl
  | one => exact hs.symm

/-- A transmitted verdict is the verdict of both samplers. -/
theorem verdict_of_send (hp : p.CarriesCode) (h : Event.send now f ok ∈ d.events p i s)
    (hf : f.message ≠ messageBond) (c : Channel) :
    ((d.sampled p i).lk.samplers c).verdict = f.message := by
  have hd := ((send_mem_events p d i).mp h).2.1
  have hc := frames_of_send h c
  rw [sampled_frame p d i c s (by rwa [sampled_due])] at hc
  have hm := build_message p hp ((d.beginTick p i).lk.slots s).session
    ((d.sampled p i).lk.samplers c).verdict (d.beginTick p i).lk.snap.role i.now (idRead p d i c s)
  rw [hc] at hm
  split at hm
  · exact hm.symm
  · exact absurd hm hf

theorem last_three_closed {t : Tick} {is : List Tick}
    (h : ∀ c, 3 ≤ trailing closed (readsOf c (is ++ [t]))) :
    ∃ before t₂ t₁, is = before ++ [t₂, t₁] ∧
      ∀ c, t₂.reads c = (1, 0) ∧ t₁.reads c = (1, 0) ∧ t.reads c = (1, 0) := by
  rcases List.eq_nil_or_concat is with rfl | ⟨is, t₁, rfl⟩
  · have h0 := h 0
    simp only [List.nil_append, readsOf_singleton] at h0
    rw [← List.nil_append [t.reads 0], trailing_concat] at h0
    split at h0 <;> simp at h0
  · rcases List.eq_nil_or_concat is with rfl | ⟨is, t₂, rfl⟩
    · have h0 := h 0
      simp only [List.concat_eq_append, readsOf_append, readsOf_singleton, trailing_concat] at h0
      split at h0
      · split at h0 <;> simp [readsOf] at h0
      · simp at h0
    · refine ⟨is, t₂, t₁, by simp, fun c => ?_⟩
      have hc := h c
      simp only [List.concat_eq_append, readsOf_append, readsOf_singleton, trailing_concat] at hc
      split at hc
      case isFalse => omega
      case isTrue h0 =>
        split at hc
        case isFalse => omega
        case isTrue h1 =>
          split at hc
          case isFalse => omega
          case isTrue h2 => exact ⟨of_decide_eq_true h2, of_decide_eq_true h1, of_decide_eq_true h0⟩

/-- Whenever OK is handed to a socket, both channels read closed in this tick and
in the two before it, and both samplers encoded the bytes transmitted; so no OK
leaves in a tick in which a channel reads anything else. -/
theorem ok_needs_both_closed (hp : p.CarriesCode) (b : Boot) (is : List Tick) (i : Tick) :
    (∀ s now f ok, Event.send now f ok ∈ (after p b is).events p i s → f.message = messageOk →
      (∃ before t₂ t₁, is = before ++ [t₂, t₁] ∧
        ∀ c, t₂.reads c = (1, 0) ∧ t₁.reads c = (1, 0) ∧ i.reads c = (1, 0)) ∧
      ∀ c, (((after p b is).sampled p i).lk.samplers c).frames s = f) ∧
    ((∃ c, i.reads c ≠ (1, 0)) →
      ∀ s now f ok, Event.send now f ok ∈ (after p b is).events p i s →
        f.message ≠ messageOk) := by
  have main : ∀ s now f ok, Event.send now f ok ∈ (after p b is).events p i s →
      f.message = messageOk → ∃ before t₂ t₁, is = before ++ [t₂, t₁] ∧
        ∀ c, t₂.reads c = (1, 0) ∧ t₁.reads c = (1, 0) ∧ i.reads c = (1, 0) := by
    intro s now f ok h hm
    refine last_three_closed fun c => ?_
    have hv := verdict_of_send hp h (by rw [hm]; decide) c
    rw [verdict_after, hm] at hv
    by_contra hn
    rw [if_neg hn] at hv
    exact absurd hv (by decide)
  refine ⟨fun s now f ok h hm => ⟨main s now f ok h hm, frames_of_send h⟩, ?_⟩
  rintro ⟨c, hc⟩ s now f ok h hm
  obtain ⟨_, _, _, -, hr⟩ := main s now f ok h hm
  exact hc (hr c).2.2

theorem ok_needs_both_closed_bonded :
    ∃ f, Event.send 1300 f true ∈
        (after reference oneMachine bondingRun).events reference (quietTick 1300 closedReads) 0 ∧
      f.message = messageOk ∧
      ∀ c, (((after reference oneMachine bondingRun).sampled reference
        (quietTick 1300 closedReads)).lk.samplers c).frames 0 = f := by
  let f := frameOf reference (after reference oneMachine bondingRun) (quietTick 1300 closedReads) 0
  have hs : Event.send 1300 f true ∈
      (after reference oneMachine bondingRun).events reference (quietTick 1300 closedReads) 0 := by
    decide +kernel
  have hf : f.message = messageOk := by decide +kernel
  exact ⟨f, hs, hf,
    ((ok_needs_both_closed reference_carriesCode oneMachine bondingRun _).1 0 _ f _ hs hf).2⟩

/-- The channel settles by closing and never opens afterwards: no five open reads
in a row, and no open read once three closed ones have completed. -/
def StaysClosed (rbs : List Reads) : Prop :=
  ¬ Completed opened 5 rbs ∧ Each (fun before rb => Completed closed 3 before → closed rb = true) rbs

theorem StaysClosed.of_append {rbs rbs' : List Reads} (h : StaysClosed (rbs ++ rbs')) :
    StaysClosed rbs := ⟨fun h5 => h.1 (h5.append rbs'), h.2.left⟩

/-- Nothing is transmitted before both channels have settled. -/
theorem settles_of_send {b : Boot} {is : List Tick}
    (h : Event.send now f ok ∈ (after p b is).events p i s) (c : Channel) :
    Settles (readsOf c (is ++ [i])) :=
  (primed_after p b is i).mp ((send_mem_events p _ i).mp h).1.2.1 c

/-- Once the gate is open it stays open. -/
theorem primed_stays {b : Boot} {is js : List Tick} {i j : Tick}
    (h : ((after p b is).sampled p i).lk.primed = true) :
    ((after p b (is ++ i :: js)).sampled p j).lk.primed = true := by
  rw [primed_after] at h ⊢
  intro c
  have hr : readsOf c (is ++ i :: js ++ [j]) = readsOf c (is ++ [i]) ++ readsOf c (js ++ [j]) := by
    simp [readsOf]
  rw [hr]
  exact (h c).append _

/-- A transmitted STOP follows an opening of each channel that was no boot transient. -/
theorem opened_of_stop {b : Boot} {is : List Tick} (hp : p.CarriesCode)
    (h : Event.send now f ok ∈ (after p b is).events p i s) (hf : f.message = messageStop)
    (c : Channel) :
    Completed opened 5 (readsOf c (is ++ [i])) ∨
      ∃ before rb after, readsOf c (is ++ [i]) = before ++ rb :: after ∧
        Completed closed 3 before ∧ closed rb = false := by
  have hv := verdict_of_send hp h (by rw [hf]; decide) c
  rw [verdict_after, hf] at hv
  have ht : trailing closed (readsOf c (is ++ [i])) < 3 := by
    by_contra hn
    rw [if_pos (by omega)] at hv
    exact absurd hv (by decide)
  rcases settles_of_send h c with h3 | h5
  · exact Or.inr (h3.exists_break ht)
  · exact Or.inl h5

/-- The boot-priming STOP never reaches a machine. -/
theorem boot_stop_never_sent (hp : p.CarriesCode) (b : Boot) :
    (∀ is i s now f ok, Event.send now f ok ∈ (after p b is).events p i s →
      ∀ c, Completed closed 3 (readsOf c (is ++ [i])) ∨
        Completed opened 5 (readsOf c (is ++ [i]))) ∧
    (∀ is i, (∀ c, Settles (readsOf c (is ++ [i]))) →
      ∀ js j, ((after p b is).sampled p i).lk.primed = true ∧
        ((after p b (is ++ i :: js)).sampled p j).lk.primed = true) ∧
    (∀ is i s now f ok, Event.send now f ok ∈ (after p b is).events p i s →
      f.message = messageStop →
      ∀ c, Completed opened 5 (readsOf c (is ++ [i])) ∨
        ∃ before rb after, readsOf c (is ++ [i]) = before ++ rb :: after ∧
          Completed closed 3 before ∧ closed rb = false) ∧
    (∀ run, (∀ c, StaysClosed (readsOf c run)) →
      Each (fun is i => ∀ s now f ok, Event.send now f ok ∈ (after p b is).events p i s →
        f.message ≠ messageStop) run) := by
  refine ⟨fun is i s now f ok h => settles_of_send h, ?_,
    fun is i s now f ok h hf => opened_of_stop hp h hf, ?_⟩
  · intro is i hs js j
    have hi := (primed_after p b is i).mpr hs
    exact ⟨hi, primed_stays hi⟩
  · rintro run hr is i js rfl s now f ok h hf
    have hs : StaysClosed (readsOf 0 (is ++ [i])) := by
      have he : readsOf 0 (is ++ i :: js) = readsOf 0 (is ++ [i]) ++ readsOf 0 js := by
        simp [readsOf]
      exact (he ▸ hr 0).of_append
    rcases opened_of_stop hp h hf 0 with h5 | ⟨before, rb, after, he, h3, ho⟩
    · exact hs.1 h5
    · rw [hs.2 before rb after he h3] at ho
      exact absurd ho (by decide)

theorem boot_stop_never_sent_pressed :
    Completed opened 5 (readsOf 0 (bondingRun ++ [quietTick 1300 openReads])) ∨
      ∃ before rb after,
        readsOf 0 (bondingRun ++ [quietTick 1300 openReads]) = before ++ rb :: after ∧
          Completed closed 3 before ∧ closed rb = false := by
  let f := frameOf reference (after reference oneMachine bondingRun) (quietTick 1300 openReads) 0
  have hs : Event.send 1300 f true ∈
      (after reference oneMachine bondingRun).events reference (quietTick 1300 openReads) 0 := by
    decide +kernel
  have hf : f.message = messageStop := by decide +kernel
  exact (boot_stop_never_sent reference_carriesCode oneMachine).2.2.1 bondingRun _ 0 _ f _ hs hf 0

/-- No sampler is late and no device id is written while the samplers run, as in a
call of `pstop_lockstep_tick()`. -/
def Synchronous (i : Tick) : Prop := OnTime i ∧ KeepsId i

/-- A bonded slot transmits only what both channels agree on. -/
theorem agrees_of_send (hp : p.CarriesCode) {b : Boot} {is : List Tick}
    (h : Event.send now f ok ∈ (after p b is).events p i s)
    (hb : (((after p b is).beginTick p i).lk.slots s).session.state = .bonded) :
    Agrees p (after p b is) i f.message := by
  refine verdict_of_send hp h ?_
  have hd := ((send_mem_events p _ i).mp h).2.1
  rw [← frames_of_send h 0, sampled_frame p _ i 0 s (by rwa [sampled_due]), build_message p hp,
    if_pos hb, verdict_after]
  split <;> decide

/-- The slot is active and bonded whenever frames are built in the ticks `ts` that
follow the run `is`. -/
def InBond (p : PstopC) (b : Boot) (is ts : List Tick) (s : Slot) : Prop :=
  Each (fun before t =>
    (((after p b (is ++ before)).beginTick p t).lk.slots s).active = true ∧
      (((after p b (is ++ before)).beginTick p t).lk.slots s).session.state = .bonded) ts

/-- The slot's send period has elapsed and the two channels agree on `v`. -/
def Speaks (p : PstopC) (d : Device) (i : Tick) (s : Slot) (v : UInt8) : Prop :=
  (d.beginTick p i).lk.due s = true ∧ Agrees p d i v

/-- From a primed tick on, a slot that stays in its bond transmits nothing until it
is due in a tick in which the channels agree, and there it transmits their verdict. -/
theorem next_frame_of_bond (hp : p.CarriesCode) (b : Boot) (is js us : List Tick) (t i : Tick)
    (s : Slot) (v : UInt8) (ht : js ++ [i] = t :: us)
    (hprimed : ((after p b is).sampled p t).lk.primed = true)
    (hbond : InBond p b is (js ++ [i]) s)
    (hwait : Each (fun before j => ∀ v, ¬ Speaks p (after p b (is ++ before)) j s v) js)
    (hsync : Synchronous i) (hsend : i.sendto s = messageSize)
    (hi : Speaks p (after p b (is ++ js)) i s v) :
    Each (fun before j => ∀ now f ok,
      Event.send now f ok ∉ (after p b (is ++ before)).events p j s) js ∧
    ∃ f, f.message = v ∧ ∀ now g ok,
      Event.send now g ok ∈ (after p b (is ++ js)).events p i s ↔
        now = i.now ∧ g = f ∧ ok = true := by
  constructor
  · intro before j later hj now f ok h
    have hb := hbond before j (later ++ [i]) (by simp [hj])
    exact hwait before j later hj f.message
      ⟨((send_mem_events p _ j).mp h).2.1, agrees_of_send hp h hb.2⟩
  · have hpr : ((after p b (is ++ js)).sampled p i).lk.primed = true := by
      cases js with
      | nil =>
        obtain ⟨rfl, -⟩ := List.cons.inj ht
        simpa using hprimed
      | cons j js =>
        obtain ⟨rfl, -⟩ := List.cons.inj ht
        exact primed_stays hprimed
    have hr : Releases p (after p b (is ++ js)) i :=
      ⟨hsync.1, hpr, differs_of_agrees p _ i hsync.2 hi.2⟩
    have hb := (Each.last hbond).2
    refine ⟨frameOf p (after p b (is ++ js)) i s, ?_, fun now g ok => ?_⟩
    · rw [frameOf, sampled_frame p _ i 0 s (by rw [sampled_due]; exact hi.1), build_message p hp,
        if_pos hb, hi.2 0]
    · rw [send_mem_events, hsend]
      simp [hr, hi.1]

/-- A press held from 1200 until the slot is due at 1300. -/
theorem next_frame_of_bond_held :
    ∃ f, f.message = messageStop ∧ ∀ now g ok,
      Event.send now g ok ∈ (after reference oneMachine
        (bondingRun ++ [quietTick 1200 openReads])).events reference (quietTick 1300 openReads) 0 ↔
        now = 1300 ∧ g = f ∧ ok = true := by
  refine (next_frame_of_bond reference_carriesCode oneMachine bondingRun
    [quietTick 1200 openReads] [quietTick 1300 openReads] (quietTick 1200 openReads)
    (quietTick 1300 openReads) 0 messageStop rfl ?_ ?_ ?_ ?_ rfl ?_).2
  · decide +kernel
  · unfold InBond
    decide +kernel
  · refine each_cons.mpr ⟨?_, each_nil _⟩
    rintro v ⟨hd, -⟩
    revert hd
    decide +kernel
  · exact ⟨fun c => rfl, fun c st step h => by simp [quietTick] at h⟩
  · unfold Speaks Agrees
    decide +kernel

/-- A press of one tick, 100 ms after an OK was due; closed again from 1500 on. -/
def pressRun : List Tick :=
  bondingRun ++ (List.range 10).map (fun k => quietTick (400 + 100 * k.toUInt64) closedReads) ++
    [quietTick 1400 openReads] ++
    (List.range 9).map (fun k => quietTick (1500 + 100 * k.toUInt64) closedReads)

/-- The press at 1400 is agreed by both channels and primed, and the slot stays
bonded, but the frames before and after it are both OK. -/
theorem press_between_sends :
    ((after reference oneMachine (pressRun.take 13)).sampled reference
        (quietTick 1400 openReads)).lk.primed = true ∧
      (∀ c, (((after reference oneMachine (pressRun.take 13)).sampled reference
        (quietTick 1400 openReads)).lk.samplers c).verdict = messageStop) ∧
      pressRun.drop 13 = quietTick 1400 openReads ::
        (List.range 9).map (fun k => quietTick (1500 + 100 * k.toUInt64) closedReads) ∧
      (∀ n : Fin 10, ((after reference oneMachine (pressRun.take (13 + n))).lk.slots
        0).session.state = .bonded) ∧
      sentCodes ((after reference oneMachine (pressRun.take 13)).lk.slots 0).log =
        [messageBond, messageOk] ∧
      sentCodes ((after reference oneMachine pressRun).lk.slots 0).log =
        [messageBond, messageOk, messageOk] := by
  refine ⟨?_, ?_, rfl, ?_, ?_, ?_⟩
  all_goals decide +kernel

end ZephyrApps.LockstepVerdicts
