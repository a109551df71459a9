import ZephyrApps.LockstepTicks

/-!
# A refused slot stays parked

An UNBOND parks a session from any state. A parked slot is not due and ignores
replies, so it stays parked through every tick that consumes no request for it;
after a request it starts afresh, with a BOND that carries counter 1.
-/
namespace ZephyrApps.LockstepParking
open Pstop AppSettings EventHistories PstopSession LockstepComparator LockstepDevice LockstepTicks

variable {p : PstopC} {d : Device} {i : Tick} {s : Slot} {m : MachineSlot}

/-- The slot is parked, and what a reply would have changed is as in `r`. -/
structure Parked (r : Session) (m : MachineSlot) : Prop where
  active : m.active = true
  state : m.session.state = .rejected
  lastReplyMs : m.session.lastReplyMs = r.lastReplyMs
  hbMs : m.session.hbMs = r.hbMs
  lastReceivedCounter : m.session.proto.lastReceivedCounter = r.proto.lastReceivedCounter
  lastReceivedStamp : m.session.proto.lastReceivedStamp = r.proto.lastReceivedStamp

/-- An UNBOND parks the session from any state. -/
theorem parked_of_unbond {now : UInt64} {f : Frame} (hu : IsUnbond p f) (ha : m.active = true) :
    Parked m.session (pollFrame p now m f) := by
  rw [pollFrame_unbond hu]
  exact ⟨ha, rfl, rfl, rfl, rfl, rfl⟩

variable {r : Session}

theorem Parked.frame (now : UInt64) (f : Frame) (h : Parked r m) :
    Parked r (pollFrame p now m f) := by
  by_cases hv : Verifies p f
  · by_cases hm : (p.messageDecode f).message = messageUnbond
    · rw [pollFrame_unbond ⟨hv, hm⟩]
      exact ⟨h.active, rfl, h.lastReplyMs, h.hbMs, h.lastReceivedCounter, h.lastReceivedStamp⟩
    · rwa [pollFrame_parked ⟨hv, hm⟩ h.state]
  · rwa [pollFrame_unverified hv]

theorem Parked.queue (q : List Datagram) (h : Parked r m) : Parked r { m with rx := q } :=
  ⟨h.active, h.state, h.lastReplyMs, h.hbMs, h.lastReceivedCounter, h.lastReceivedStamp⟩

theorem Parked.poll (now : UInt64) (h : Parked r m) : Parked r (pstopSessionPoll p now m) :=
  poll_induction (fun _ q hm => hm.queue q) (fun _ f hm => hm.frame now f) h

theorem Parked.watchdog (now : UInt64) (h : Parked r m) :
    pstopSessionWatchdog p now m = m := by
  rcases watchdog_cases p now m with hw | ⟨hb, -⟩
  · exact hw
  · exact absurd (h.state.symm.trans hb) (by decide)

theorem Parked.service (now : UInt64) (arrived : List Datagram) (h : Parked r m) :
    Parked r (serviceSlot p now arrived m) := by
  have hp := (h.queue (m.rx ++ arrived)).poll (p := p) now
  rw [serviceSlot, if_pos h.active, hp.watchdog]
  exact hp

theorem foldl_pollFrame_active (now : UInt64) (fs : List Frame) (m : MachineSlot) :
    (fs.foldl (pollFrame p now) m).active = m.active := by
  induction fs generalizing m with
  | nil => rfl
  | cons f fs ih => rw [List.foldl_cons, ih, (pollFrame_frame p now m f).1]

theorem Parked.frames (now : UInt64) (fs : List Frame) (h : Parked r m) :
    Parked r (fs.foldl (pollFrame p now) m) := by
  induction fs generalizing m with
  | nil => exact h
  | cons f fs ih => exact ih (h.frame now f)

/-- The tick that reads an UNBOND leaves the slot parked, with the session as the
frames before the UNBOND left it. -/
theorem parked_tick {q q' : List Frame} {u : Frame} (ha : (atPoll p d i s).active = true)
    (hq : heard (atPoll p d i s).session ((atPoll p d i s).rx ++ i.arrivals s) = q ++ u :: q')
    (hu : IsUnbond p u) :
    Parked (q.foldl (pollFrame p i.now) (atPoll p d i s)).session
      ((d.tick p i).lk.slots s) := by
  let m := { atPoll p d i s with rx := (atPoll p d i s).rx ++ i.arrivals s }
  have hs : (q.foldl (pollFrame p i.now) m).session =
      (q.foldl (pollFrame p i.now) (atPoll p d i s)).session := by
    rw [foldl_pollFrame_rx q (atPoll p d i s)]
  have hm : Parked (q.foldl (pollFrame p i.now) (atPoll p d i s)).session
      (pstopSessionPoll p i.now m) := by
    rw [← hs, pstopSessionPoll_eq, show heard m.session m.rx = q ++ u :: q' from hq,
      List.foldl_append, List.foldl_cons]
    refine Parked.queue _ (Parked.frames i.now q' (parked_of_unbond hu ?_))
    rw [foldl_pollFrame_active]
    exact ha
  rw [tick_slots, serviceSlot, if_pos ha, hm.watchdog]
  exact hm

/-- `begin_tick` consumes a reconfigure or a rebond request for the slot. -/
def Requested (d : Device) (i : Tick) (s : Slot) : Prop :=
  (d.beginReads i).reconfigure s = true ∨ (d.beginReads i).rebond s = true

instance (d : Device) (i : Tick) (s : Slot) : Decidable (Requested d i s) := by
  unfold Requested; infer_instance

theorem begin_unrequested (h : ¬ Requested d i s) :
    (d.beginTick p i).lk.slots s = d.lk.slots s := by
  obtain ⟨hc, hr⟩ := not_or.mp h
  change beginSlot p (d.beginReads i) i.sock i.bound s (d.lk.slots s) = _
  simp [beginSlot, hc, hr]

/-- A parked slot without a request is not due. -/
theorem Parked.not_due (hr : ¬ Requested d i s) (h : Parked r (d.lk.slots s)) :
    (d.beginTick p i).lk.due s = false := by
  have hs : ((d.beginTick p i).lk.slots s).session.state = .rejected := by
    rw [begin_unrequested hr]
    exact h.state
  have hd : (d.beginTick p i).lk.snap.due s = (((d.beginTick p i).lk.slots s).active &&
    pstopSessionDue ((d.beginTick p i).lk.slots s).session i.now) := rfl
  simp [Lockstep.due, dueSlot, hd, pstopSessionDue, hs]

theorem Parked.tick (hr : ¬ Requested d i s) (h : Parked r (d.lk.slots s)) :
    Parked r ((d.tick p i).lk.slots s) := by
  rw [tick_slots, atPoll, h.not_due hr, begin_unrequested hr]
  simpa using h.service i.now (i.arrivals s)

/-- No tick of `js` after the run `is` consumes a request for the slot. -/
def Unrequested (p : PstopC) (b : Boot) (is js : List Tick) (s : Slot) : Prop :=
  Each (fun before j => ¬ Requested (after p b (is ++ before)) j s) js

instance (p : PstopC) (b : Boot) (is js : List Tick) (s : Slot) :
    Decidable (Unrequested p b is js s) := by unfold Unrequested; infer_instance

theorem Parked.after {b : Boot} {is js : List Tick}
    (hu : Unrequested p b is js s) (h : Parked r ((after p b is).lk.slots s)) :
    Parked r ((after p b (is ++ js)).lk.slots s) := by
  induction js using List.reverseRecOn with
  | nil => simpa using h
  | append_singleton js j ih =>
    rw [← List.append_assoc, after_concat]
    exact (ih (Each.left hu)).tick (Each.last hu)

/-- An active slot that has not transmitted since its session started afresh. -/
def Fresh (m : MachineSlot) : Prop :=
  m.active = true → m.session.state ≠ .bonded ∧ m.session.proto.msgCounter = 0

theorem fresh_config (hp : p.CarriesCounter) (peer : Peer) (sock bound : Int) (m : MachineSlot) :
    Fresh (slotApplyConfig p s peer sock bound m) := by
  rcases slotApplyConfig_cases p s peer sock bound m with ⟨ha, -⟩ | ⟨-, -, hs, hpr, -⟩
  · intro h
    simp [ha] at h
  · intro
    rw [hs, hpr, freshProto, hp.init]
    exact ⟨by decide, rfl⟩

theorem fresh_rebond (hp : p.CarriesCounter) (m : MachineSlot) : Fresh (pstopSessionRebond p m) := by
  intro
  rw [rebond_state, rebond_proto, freshProto, hp.init]
  exact ⟨by decide, rfl⟩

theorem Fresh.begin (hp : p.CarriesCounter) (h : Fresh (d.lk.slots s)) :
    Fresh ((d.beginTick p i).lk.slots s) :=
  beginSlot_induction (fun _ _ _ _ _ => fresh_config hp _ _ _ _) (fun _ _ => fresh_rebond hp _) h

/-- A consumed request makes the slot fresh, or leaves it inactive. -/
theorem fresh_of_requested (hp : p.CarriesCounter) (h : Requested d i s) :
    Fresh ((d.beginTick p i).lk.slots s) := by
  change Fresh (beginSlot p (d.beginReads i) i.sock i.bound s (d.lk.slots s))
  by_cases hc : (d.beginReads i).reconfigure s = true
  · simp only [beginSlot, hc, if_true]
    split
    · exact fresh_rebond hp _
    · exact fresh_config hp _ _ _ _
  · have hr : (d.beginReads i).rebond s = true := h.resolve_left hc
    simp only [beginSlot, hc, hr, Bool.and_true, Bool.false_eq_true, if_false]
    split
    · exact fresh_rebond hp _
    case isFalse hn => exact fun ha => absurd ha hn

theorem fresh_commit_fail {n : Int} (hn : n ≠ messageSize) (f : Frame) (now : UInt64)
    (h : Fresh m) : Fresh (pstopSessionCommitSend f now n m) := by
  intro ha
  rw [commit_fail hn]
  exact h (by simpa using ha)

/-- Without an accepted reply a fresh slot stays fresh when serviced. -/
theorem Fresh.service (now : UInt64) (arrived : List Datagram) (h : Fresh m) :
    ∃ es, (serviceSlot p now arrived m).log = m.log ++ es ∧
      ((∀ e ∈ es, e.isReply = false) → Fresh (serviceSlot p now arrived m)) := by
  by_cases ha : m.active = true
  · obtain ⟨es, hl, hes⟩ := poll_unanswered p now { m with rx := m.rx ++ arrived }
    have hc := poll_counter p now { m with rx := m.rx ++ arrived }
    rw [serviceSlot, if_pos ha]
    rcases watchdog_cases p now (pstopSessionPoll p now { m with rx := m.rx ++ arrived }) with
      hw | ⟨hb, hw⟩
    · rw [hw]
      exact ⟨es, hl, fun hn _ => ⟨hes hn (h ha).1, hc.trans (h ha).2⟩⟩
    · refine ⟨es ++ [.rebond], by rw [hw, rebond_log, hl, List.append_assoc], fun hn => ?_⟩
      exact absurd hb (hes (fun e he => hn e (by simp [he])) (h ha).1)
  · rw [serviceSlot, if_neg ha]
    exact ⟨[], by simp, fun _ => h⟩

/-- Without a transmitted frame and without a reply a fresh slot stays fresh. -/
theorem Fresh.tick (h : Fresh ((d.beginTick p i).lk.slots s))
    (hq : ∀ e ∈ d.events p i s, e.isSent = false ∧ e.isReply = false) :
    Fresh ((d.tick p i).lk.slots s) := by
  -- nothing was transmitted: the slot was not sent to, or the send failed
  have hs : Fresh (atPoll p d i s) := by
    unfold atPoll
    split
    case isFalse => exact h
    case isTrue hr =>
      refine fresh_commit_fail (fun hn => ?_) _ _ h
      have hm : Event.send i.now (frameOf p d i s) true ∈ d.events p i s :=
        (send_mem_events p d i).mpr ⟨hr.1, hr.2, rfl, rfl, by simp [hn]⟩
      exact absurd (hq _ hm).1 (by simp [Event.isSent])
  obtain ⟨es, hl, hes⟩ := hs.service (p := p) i.now (i.arrivals s)
  obtain ⟨es', hl', -⟩ := atPoll_grows p d i s
  have he : (d.lk.slots s).log ++ d.events p i s = (d.lk.slots s).log ++ (es' ++ es) := by
    rw [← tick_log, tick_slots, hl, hl', List.append_assoc]
  rw [tick_slots]
  refine hes fun e hm => (hq e ?_).2
  rw [List.append_cancel_left he]
  exact List.mem_append_right _ hm

/-- The ticks of `js` transmit nothing on the slot and accept no reply for it. -/
def Silent (p : PstopC) (b : Boot) (is js : List Tick) (s : Slot) : Prop :=
  Each (fun before j =>
    ∀ e ∈ (after p b (is ++ before)).events p j s, e.isSent = false ∧ e.isReply = false) js

/-- From a consumed request to its first transmission or reply a slot is fresh. -/
theorem fresh_until {b : Boot} {is : List Tick} {k : Tick} (hp : p.CarriesCounter)
    (hk : Requested (after p b is) k s) (before : List Tick) (j : Tick)
    (hj : (before ++ [j]).head? = some k) (hq : Silent p b is before s) :
    Fresh (((after p b (is ++ before)).beginTick p j).lk.slots s) := by
  induction before using List.reverseRecOn generalizing j with
  | nil =>
    obtain rfl : j = k := by simpa using hj
    simpa using fresh_of_requested hp hk
  | append_singleton before t ih =>
    have ht : (before ++ [t]).head? = some k := by
      cases before <;> simpa using hj
    rw [← List.append_assoc, after_concat]
    exact ((ih t ht (Each.left hq)).tick (Each.last hq)).begin hp

/-- The frame of a fresh due slot is a BOND with counter 1. -/
theorem frameOf_fresh (hp : p.CarriesCode) (hc : p.CarriesCounter)
    (hd : (d.beginTick p i).lk.due s = true) (h : Fresh ((d.beginTick p i).lk.slots s)) :
    (frameOf p d i s).message = messageBond ∧ (frameOf p d i s).counter = 1 := by
  have ha : ((d.beginTick p i).lk.slots s).active = true := (Bool.and_eq_true_iff.mp hd).1
  obtain ⟨hs, h0⟩ := h ha
  rw [frameOf, sampled_frame p d i 0 s (by rwa [sampled_due]), build_message p hp,
    build_counter p hc, if_neg hs, h0]
  exact ⟨rfl, rfl⟩

/-- A slot that reads an UNBOND is parked until a request for it is consumed: it
transmits nothing, and neither the UNBOND nor a later frame changes what a reply
would have set. After the request its first frame is a BOND with counter 1, unless
a reply was accepted first. -/
theorem parked_until_requested (hp : p.CarriesCode) (hc : p.CarriesCounter) (b : Boot)
    (is js : List Tick) (i : Tick) (s : Slot) (q q' : List Frame) (u : Frame)
    (ha : (atPoll p (after p b is) i s).active = true)
    (hq : heard (atPoll p (after p b is) i s).session
      ((atPoll p (after p b is) i s).rx ++ i.arrivals s) = q ++ u :: q')
    (hu : IsUnbond p u) (hjs : Unrequested p b (is ++ [i]) js s) :
    Parked (q.foldl (pollFrame p i.now) (atPoll p (after p b is) i s)).session
      ((after p b (is ++ [i] ++ js)).lk.slots s) ∧
    Each (fun before j => ∀ now f ok,
      Event.send now f ok ∉ (after p b (is ++ [i] ++ before)).events p j s) js ∧
    (∀ k ks, Requested (after p b (is ++ [i] ++ js)) k s →
      Each (fun before j => Silent p b (is ++ [i] ++ js) before s → ∀ now f ok,
        Event.send now f ok ∈ (after p b (is ++ [i] ++ js ++ before)).events p j s →
          f.message = messageBond ∧ f.counter = 1) (k :: ks)) := by
  have hi : Parked (q.foldl (pollFrame p i.now) (atPoll p (after p b is) i s)).session
      ((after p b (is ++ [i])).lk.slots s) := by
    rw [after_concat]
    exact parked_tick ha hq hu
  refine ⟨hi.after hjs, ?_, ?_⟩
  · rintro before j later rfl now f ok h
    have hd := (hi.after (Each.left hjs)).not_due (p := p) (hjs before j later rfl)
    rw [((send_mem_events p _ j).mp h).2.1] at hd
    exact absurd hd (by decide)
  · intro k ks hk before j later hj hs now f ok h
    have hhead : (before ++ [j]).head? = some k := by
      cases before with
      | nil => simpa using (List.cons.inj hj).1.symm
      | cons t before => simpa using (List.cons.inj hj).1.symm
    obtain ⟨-, hd, -, rfl, -⟩ := (send_mem_events p _ j).mp h
    exact frameOf_fresh hp hc hd (fresh_until hc hk before j hhead hs)

/-- The machine refuses the session at 400. -/
def refusal : Tick := (quietTick 400 closedReads).hearing (machineReply messageUnbond 0)

def parkedTicks : List Tick := [quietTick 500 closedReads, quietTick 600 closedReads]

def rebondTick : Tick := (quietTick 700 closedReads).writing .rebond [.requestRebond 0]

theorem parked_until_requested_refused :
    ((after reference oneMachine (bondingRun ++ [refusal] ++ parkedTicks)).lk.slots
        0).session.state = .rejected ∧
      ∃ f, Event.send 700 f true ∈ (after reference oneMachine
          (bondingRun ++ [refusal] ++ parkedTicks)).events reference rebondTick 0 ∧
        f.message = messageBond ∧ f.counter = 1 := by
  let f := frameOf reference
    (after reference oneMachine (bondingRun ++ [refusal] ++ parkedTicks)) rebondTick 0
  have hs : Event.send 700 f true ∈ (after reference oneMachine
      (bondingRun ++ [refusal] ++ parkedTicks)).events reference rebondTick 0 := by
    decide +kernel
  have h := parked_until_requested reference_carriesCode reference_carriesCounter oneMachine
    bondingRun parkedTicks refusal 0 [] []
    (encodeMsg (genericMsg messageUnbond 5000 0 0x01020304 0xC0A80105 1 1))
    (by decide +kernel) (by decide +kernel) (by decide +kernel) (by decide +kernel)
  refine ⟨h.1.state, f, hs, ?_⟩
  refine h.2.2 rebondTick [] (by decide +kernel) [] rebondTick [] rfl (each_nil _) 700 f true ?_
  rw [List.append_nil]
  exact hs

end ZephyrApps.LockstepParking
