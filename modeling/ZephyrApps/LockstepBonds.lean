import ZephyrApps.LockstepTicks

/-!
# Bonds over whole runs

The counters of a bond and the BOND that opens it, as properties of the log of a
slot in every run.
-/
namespace ZephyrApps.LockstepBonds
open Pstop AppSettings EventHistories PstopSession LockstepComparator LockstepDevice LockstepTicks
  SystemRuns

variable {p : PstopC} {d : Device} {i : Tick} {s : Slot} {m m' : MachineSlot}

/-- How many frames were transmitted since the last open or rebond. -/
def sentCount (log : List Event) : ℕ := (since Event.isReset log).countP Event.isSent

/-- The event, if it is a transmitted frame, carries the next counter. -/
def NextCounter (past : List Event) (e : Event) : Prop :=
  ∀ now f, e = .send now f true → f.counter = UInt32.ofNat (sentCount past + 1)

@[simp] theorem sentCount_reset {e : Event} (he : e.isReset = true) (log : List Event) :
    sentCount (log ++ [e]) = 0 := by simp [sentCount, he]

theorem sentCount_send (log : List Event) (now : UInt64) (f : Frame) (ok : Bool) :
    sentCount (log ++ [.send now f ok]) = if ok then sentCount log + 1 else sentCount log := by
  rw [sentCount, since_concat_unmarked rfl, List.countP_append]
  cases ok <;> simp [sentCount, Event.isSent]

theorem sentCount_grows {Q : Event → Prop} (h : Grows Q m m')
    (hq : ∀ e, Q e → e.isReset = false ∧ e.isSent = false) :
    sentCount m'.log = sentCount m.log := by
  obtain ⟨es, hs, hes⟩ := h.since fun e he => (hq e he).1
  have h0 : es.countP Event.isSent = 0 :=
    List.countP_eq_zero.mpr fun e he => by simp [(hq e (hes e he)).2]
  rw [sentCount, hs, List.countP_append, h0, sentCount, Nat.add_zero]

theorem nextCounter_of_unsent {e : Event} (he : e.isSent = false) (past : List Event) :
    NextCounter past e := by
  rintro now f rfl
  simp [Event.isSent] at he

/-- The counters of the log are contiguous, and the session's is the last of them. -/
structure Counted (m : MachineSlot) : Prop where
  each : Each NextCounter m.log
  counter : m.session.proto.msgCounter = UInt32.ofNat (sentCount m.log)

theorem Counted.grows {Q : Event → Prop} (h : Counted m) (hg : Grows Q m m')
    (hq : ∀ e, Q e → e.isReset = false ∧ e.isSent = false)
    (hc : m'.session.proto.msgCounter = m.session.proto.msgCounter) : Counted m' where
  each := hg.each h.each fun past e he => nextCounter_of_unsent (hq e he).2 past
  counter := by rw [hc, h.counter, sentCount_grows hg hq]

theorem Counted.reset {e : Event} (he : e.isReset = true) (h : Each NextCounter m.log)
    (hl : m'.log = m.log ++ [e]) (hc : m'.session.proto.msgCounter = 0) : Counted m' where
  each := by
    rw [hl, each_concat]
    refine ⟨h, fun now f hf => ?_⟩
    simp [hf, Event.isReset] at he
  counter := by rw [hc, hl, sentCount_reset he]; rfl

theorem Counted.config (hp : p.CarriesCounter) (peer : Peer) (sock bound : Int)
    (h : Counted m) : Counted (slotApplyConfig p s peer sock bound m) := by
  have hq (e : Event) (he : e.isSocketCall = true) := isSocketCall_spec he
  rcases slotApplyConfig_cases p s peer sock bound m with
    ⟨-, hg, hpr, -⟩ | ⟨-, ⟨mid, hg, hl⟩, -, hpr, -⟩
  · exact h.grows hg (fun e he => ⟨(hq e he).1, (hq e he).2.1⟩) (by rw [hpr])
  · refine Counted.reset rfl (hg.each h.each fun past e he => ?_) hl ?_
    · exact nextCounter_of_unsent (hq e he).2.1 past
    · rw [hpr, freshProto, hp.init]

theorem Counted.rebond (hp : p.CarriesCounter) (h : Counted m) :
    Counted (pstopSessionRebond p m) :=
  .reset rfl h.each rfl (by rw [rebond_proto, freshProto, hp.init])

theorem Counted.poll (now : UInt64) (h : Counted m) : Counted (pstopSessionPoll p now m) := by
  refine h.grows (poll_grows p now m) ?_ (poll_counter p now m)
  rintro e (rfl | ⟨msg, rfl⟩)
  · exact ⟨rfl, rfl⟩
  · exact ⟨rfl, rfl⟩

theorem Counted.send {f : Frame} (hf : f.counter = m.session.proto.msgCounter + 1)
    (now : UInt64) (n : Int) (h : Counted m) : Counted (pstopSessionCommitSend f now n m) := by
  have hc : UInt32.ofNat (sentCount m.log + 1) = m.session.proto.msgCounter + 1 := by
    rw [h.counter, UInt32.ofNat_add]
    rfl
  constructor
  · rw [commit_log, each_concat]
    refine ⟨h.each, fun now' g hg => ?_⟩
    obtain ⟨-, rfl, -⟩ := Event.send.inj hg
    rw [hf, hc]
  · rw [commit_log, sentCount_send]
    by_cases hn : n = messageSize
    · subst hn
      simp [commit_counter, hc]
    · simp [hn, commit_fail hn, h.counter]

/-- The frame of a due slot carries the session's next counter. -/
theorem frameOf_counter (hp : p.CarriesCounter) (hd : (d.beginTick p i).lk.due s = true) :
    (frameOf p d i s).counter =
      ((d.beginTick p i).lk.slots s).session.proto.msgCounter + 1 := by
  rw [frameOf, sampled_frame p d i 0 s (by rwa [sampled_due]), build_counter p hp]

theorem counted_after (hp : p.CarriesCounter) (b : Boot) (is : List Tick) (s : Slot) :
    Counted ((after p b is).lk.slots s) := by
  have h0 : Counted MachineSlot.zeroed := ⟨by simp [MachineSlot.zeroed], rfl⟩
  refine after_induction (fun peer sock bound => h0.config hp peer sock bound) ?_ is
  intro is i h
  refine tick_induction (fun peer sock bound m hm => hm.config hp peer sock bound)
    (fun m hm => hm.rebond hp) (fun _ hm => ?_)
    (fun hd hm => hm.send (frameOf_counter hp hd) _ _) h
  exact Counted.poll _ ⟨hm.each, hm.counter⟩

/-- Since the last open or rebond of a slot its transmitted frames carry 1, 2, 3, …
modulo 2^32, and every frame handed to the socket carries the session's next counter. -/
theorem counters_contiguous (hp : p.CarriesCounter) (b : Boot) (is : List Tick) (s : Slot) :
    Each NextCounter ((after p b is).lk.slots s).log ∧
    ∀ i now f ok, Event.send now f ok ∈ (after p b is).events p i s →
      f.counter =
        (((after p b is).sampled p i).lk.slots s).session.proto.msgCounter + 1 := by
  refine ⟨(counted_after hp b is s).each, fun i now f ok h => ?_⟩
  obtain ⟨-, hd, -, rfl, -⟩ := (send_mem_events p _ i).mp h
  rw [sampled_slots]
  exact frameOf_counter hp hd

theorem counters_contiguous_bonded :
    ∃ f, Event.send 1300 f true ∈
        (after reference oneMachine bondingRun).events reference (quietTick 1300 closedReads) 0 ∧
      f.counter = 2 := by
  let f := frameOf reference (after reference oneMachine bondingRun) (quietTick 1300 closedReads) 0
  have hs : Event.send 1300 f true ∈
      (after reference oneMachine bondingRun).events reference (quietTick 1300 closedReads) 0 := by
    decide +kernel
  have hc : (((after reference oneMachine bondingRun).sampled reference
      (quietTick 1300 closedReads)).lk.slots 0).session.proto.msgCounter = 1 := by
    decide +kernel
  refine ⟨f, hs, ?_⟩
  rw [(counters_contiguous reference_carriesCounter oneMachine bondingRun 0).2 _ _ f _ hs, hc]
  rfl

/-- A BOND was transmitted since the last open or rebond. -/
def Bonded (log : List Event) : Prop := ∃ e ∈ since Event.isReset log, e.isBond = true

instance (log : List Event) : Decidable (Bonded log) := by unfold Bonded; infer_instance

/-- The event, if it is an OK or a STOP, comes after a BOND. -/
def FollowsBond (past : List Event) (e : Event) : Prop :=
  ∀ now f ok, e = .send now f ok → f.message = messageOk ∨ f.message = messageStop → Bonded past

structure BondFirst (m : MachineSlot) : Prop where
  each : Each FollowsBond m.log
  bonded : m.session.state = .bonding ∨ m.session.state = .bonded → Bonded m.log

theorem followsBond_of_unsent {e : Event} (he : e.isSend = false) (past : List Event) :
    FollowsBond past e := by
  rintro now f ok rfl
  simp [Event.isSend] at he

theorem Bonded.grows {Q : Event → Prop} (h : Bonded m.log) (hg : Grows Q m m')
    (hq : ∀ e, Q e → e.isReset = false) : Bonded m'.log := by
  obtain ⟨e, he, hb⟩ := h
  obtain ⟨es, hs, -⟩ := hg.since hq
  exact ⟨e, by simp [hs, he], hb⟩

theorem BondFirst.config (peer : Peer) (sock bound : Int) (h : BondFirst m) :
    BondFirst (slotApplyConfig p s peer sock bound m) := by
  have hq (e : Event) (he : e.isSocketCall = true) := isSocketCall_spec he
  rcases slotApplyConfig_cases p s peer sock bound m with
    ⟨-, hg, -, hs⟩ | ⟨-, ⟨mid, hg, hl⟩, hs, -⟩
  · refine ⟨hg.each h.each fun past e he => followsBond_of_unsent (hq e he).2.2 past, ?_⟩
    intro hst
    rcases hs with hs | hs
    · exact (h.bonded (hs ▸ hst)).grows hg fun e he => (hq e he).1
    · simp [hs] at hst
  · have hm : Each FollowsBond mid.log :=
      hg.each h.each fun past e he => followsBond_of_unsent (hq e he).2.2 past
    refine ⟨?_, fun hst => by simp [hs] at hst⟩
    rw [hl, each_concat]
    exact ⟨hm, followsBond_of_unsent rfl _⟩

theorem BondFirst.rebond (h : BondFirst m) : BondFirst (pstopSessionRebond p m) := by
  refine ⟨?_, fun hst => by simp at hst⟩
  rw [rebond_log, each_concat]
  exact ⟨h.each, followsBond_of_unsent rfl _⟩

theorem BondFirst.send {f : Frame} (now : UInt64) (n : Int)
    (hf : f.message = messageBond ∨ m.session.state = .bonded) (h : BondFirst m) :
    BondFirst (pstopSessionCommitSend f now n m) := by
  have hg : Grows (fun e => e.isReset = false) m (pstopSessionCommitSend f now n m) :=
    .of_concat rfl (commit_log f now n m)
  constructor
  · rw [commit_log, each_concat]
    refine ⟨h.each, ?_⟩
    rintro now' g ok he hv
    obtain ⟨-, rfl, -⟩ := Event.send.inj he
    rcases hf with hf | hf
    · rw [hf] at hv
      exact absurd hv (by decide)
    · exact h.bonded (Or.inr hf)
  · intro hst
    by_cases hn : n = messageSize
    · subst hn
      rw [commit_state] at hst
      by_cases hi : m.session.state = .idle
      · have hb : f.message = messageBond := hf.resolve_right (by simp [hi])
        rw [commit_log, decide_eq_true rfl]
        exact ⟨.send now f true, mem_since rfl (by simp), by simp [Event.isBond, hb]⟩
      · rw [if_neg hi] at hst
        exact (h.bonded hst).grows hg fun e he => he
    · rw [commit_fail hn] at hst
      exact (h.bonded hst).grows hg fun e he => he

/-- The first frame that an idle session would accept, if there is one, is an UNBOND. -/
def NoReplyWhileIdle (p : PstopC) (s : Session) (fs : List Frame) : Prop :=
  s.state = .idle → ∀ f ∈ fs.find? fun f => decide (Verifies p f), IsUnbond p f

instance (p : PstopC) (s : Session) (fs : List Frame) : Decidable (NoReplyWhileIdle p s fs) := by
  unfold NoReplyWhileIdle; infer_instance

theorem BondFirst.frames (now : UInt64) {fs : List Frame} (h : BondFirst m)
    (hi : NoReplyWhileIdle p m.session fs) : BondFirst (fs.foldl (pollFrame p now) m) := by
  induction fs generalizing m with
  | nil => exact h
  | cons f fs ih =>
    rw [List.foldl_cons]
    rcases pollFrame_cases p now m f with he | ⟨-, hst, hl⟩ | ⟨hr, hne, hst, hl⟩
    · rw [he]
      refine ih h fun hid g hg => ?_
      by_cases hv : Verifies p f
      · -- an idle session that reads a verified frame is parked by it
        have hu : IsUnbond p f := hi hid f (by simp [hv])
        have hs : m.session.state = .rejected := by
          rw [← he, pollFrame_unbond hu]
          rfl
        simp [hs] at hid
      · exact hi hid g (by simpa [hv] using hg)
    · refine ih ⟨?_, fun h' => by simp [hst] at h'⟩ fun hid => by simp [hst] at hid
      rw [hl, each_concat]
      exact ⟨h.each, followsBond_of_unsent rfl _⟩
    · have hb : Bonded m.log := by
        refine h.bonded ?_
        cases hm : m.session.state with
        | idle =>
          have hu : IsUnbond p f := hi hm f (by simp [hr.1])
          exact absurd hu.2 hr.2
        | bonding => exact Or.inl rfl
        | bonded => exact Or.inr rfl
        | rejected => exact absurd hm hne
      refine ih ⟨?_, fun _ => ?_⟩ fun hid => by simp [hst] at hid
      · rw [hl, each_concat]
        exact ⟨h.each, followsBond_of_unsent rfl _⟩
      · exact hb.grows (Q := fun e => e.isReset = false) (.of_concat rfl hl) fun e he => he

/-- A slot that is polled while idle hears no reply before an UNBOND. -/
def HearsNoReplyIdle (p : PstopC) (s : Slot) (d : Device) (i : Tick) : Prop :=
  (atPoll p d i s).active = true → NoReplyWhileIdle p (atPoll p d i s).session
    (heard (atPoll p d i s).session ((atPoll p d i s).rx ++ i.arrivals s))

instance (p : PstopC) (s : Slot) (d : Device) (i : Tick) : Decidable (HearsNoReplyIdle p s d i) := by
  unfold HearsNoReplyIdle; infer_instance

theorem BondFirst.tick (hp : p.CarriesCode) (hi : HearsNoReplyIdle p s d i)
    (h : BondFirst (d.lk.slots s)) : BondFirst ((d.tick p i).lk.slots s) := by
  refine tick_induction (fun peer sock bound m hm => hm.config peer sock bound)
    (fun m hm => hm.rebond) (fun ha hm => ?_) (fun hd hm => hm.send _ _ ?_) h
  · rw [pstopSessionPoll_eq]
    have hq : BondFirst { atPoll p d i s with rx := (atPoll p d i s).rx ++ i.arrivals s } :=
      ⟨hm.each, hm.bonded⟩
    have hf := hq.frames i.now (hi ha)
    exact ⟨hf.each, hf.bonded⟩
  · rw [frameOf, sampled_frame p d i 0 s (by rwa [sampled_due]), build_message p hp]
    by_cases hb : ((d.beginTick p i).lk.slots s).session.state = .bonded
    · exact Or.inr hb
    · exact Or.inl (if_neg hb)

/-- As long as no idle session is handed a reply, every OK and STOP of a slot comes
after a BOND that was transmitted since the last open or rebond. -/
theorem heartbeats_follow_bond (hp : p.CarriesCode) (b : Boot) (s : Slot) (is : List Tick)
    (h : Meets (Device.tick p) (HearsNoReplyIdle p s) (b.device p) is) :
    Each FollowsBond ((after p b is).lk.slots s).log := by
  have h0 : BondFirst MachineSlot.zeroed :=
    ⟨by simp [MachineSlot.zeroed], fun h => by simp [MachineSlot.zeroed, Session.zeroed] at h⟩
  have hb : BondFirst ((after p b is).lk.slots s) :=
    run_invariant (I := fun _ d => BondFirst (d.lk.slots s)) (h0.config _ _ _)
      (fun _ _ hd hi => hd.tick hp hi) is h
  exact hb.each

theorem heartbeats_follow_bond_bonded :
    Each FollowsBond
      ((after reference oneMachine (bondingRun ++ [quietTick 1300 closedReads])).lk.slots 0).log := by
  exact heartbeats_follow_bond reference_carriesCode oneMachine 0 _ (by decide +kernel)

/-- A reply of 200 ms arrives in the first tick, while the gate is shut and nothing
has been transmitted. -/
def lateReplyRun : List Tick :=
  [(quietTick 100 closedReads).hearing (machineReply messageOk 200), quietTick 200 closedReads,
    quietTick 300 closedReads]

/-- The late reply makes the idle session bonded, and its first frame is an OK. -/
theorem late_reply_skips_bond :
    sentCodes ((after reference oneMachine lateReplyRun).lk.slots 0).log = [messageOk] ∧
      ¬ Each FollowsBond ((after reference oneMachine lateReplyRun).lk.slots 0).log := by
  refine ⟨by decide +kernel, fun h => ?_⟩
  let log := ((after reference oneMachine lateReplyRun).lk.slots 0).log
  let f := frameOf reference (after reference oneMachine (lateReplyRun.take 2))
    (quietTick 300 closedReads) 0
  have hl : log = log.take 3 ++ .send 300 f true :: [] := by decide +kernel
  have hf : f.message = messageOk := by decide +kernel
  have hb : ¬ Bonded (log.take 3) := by decide +kernel
  exact hb (h _ _ _ hl 300 f true rfl (Or.inl hf))

end ZephyrApps.LockstepBonds
