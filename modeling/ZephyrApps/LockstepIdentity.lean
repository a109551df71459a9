import ZephyrApps.LockstepTicks

/-!
# The device id on the wire

Everything in a frame comes from the snapshot of the tick or from the session,
except the sender's device id, which each build reads from the settings. What
that does to the comparison of a tick, and to the bonds of a run.
-/
namespace ZephyrApps.LockstepIdentity
open Pstop AppSettings ControlPlane EventHistories EstopVerdict PstopSession LockstepComparator
  LockstepDevice LockstepTicks

variable {p : PstopC} {d : Device} {i : Tick} {s : Slot} {m m' : MachineSlot}

/-- With equal verdicts the encodings of the due slots agree exactly when both
samplers read the same device id for each of them. -/
theorem encodings_agree_iff (hp : p.CarriesSender) (d : Device) (i : Tick)
    (hv : ((d.sampled p i).lk.samplers 0).verdict = ((d.sampled p i).lk.samplers 1).verdict) :
    (∀ s, (d.sampled p i).lk.due s = true →
      ((d.sampled p i).lk.samplers 0).frames s = ((d.sampled p i).lk.samplers 1).frames s) ↔
    ∀ s, (d.sampled p i).lk.due s = true → idRead p d i 0 s = idRead p d i 1 s := by
  have ha : Agrees p d i ((d.sampled p i).lk.samplers 1).verdict := channel_cases hv rfl
  constructor
  · intro h s hd
    have hs (c : Channel) : (((d.sampled p i).lk.samplers c).frames s).sender =
        idRead p d i c s := by
      rw [sampled_frame p d i c s hd, build_sender p hp]
    rw [← hs 0, ← hs 1, h s hd]
  · intro h s hd
    exact frames_of_agrees p d i ha (h s hd) hd

def splitTick : Tick :=
  (quietTick 1300 closedReads).writing (.sampler 1 .sample) [.setDeviceId 7 0]

/-- The two channels agree on OK, and the encodings of slot 0 differ. -/
theorem split_id_splits_encodings :
    (∀ c, (((after reference oneMachine bondingRun).sampled reference splitTick).lk.samplers
        c).verdict = messageOk) ∧
      ((after reference oneMachine bondingRun).sampled reference splitTick).lk.due 0 = true ∧
      (((after reference oneMachine bondingRun).sampled reference splitTick).lk.samplers
        0).frames 0 ≠
      (((after reference oneMachine bondingRun).sampled reference splitTick).lk.samplers
        1).frames 0 ∧
      ((after reference oneMachine bondingRun).tick reference splitTick).lk.mismatches = 1 := by
  decide +kernel

def earlyTick : Tick :=
  (quietTick 1300 closedReads).writing (.sampler 0 .sample) [.setDeviceId 7 0]

/-- Both builds read the new id, so the encodings of slot 0 agree. -/
theorem encodings_agree_early :
    (((after reference oneMachine bondingRun).sampled reference earlyTick).lk.samplers
        0).frames 0 =
      (((after reference oneMachine bondingRun).sampled reference earlyTick).lk.samplers
        1).frames 0 ∧
      ((((after reference oneMachine bondingRun).sampled reference earlyTick).lk.samplers
        1).frames 0).sender = 7 :=
  ⟨(encodings_agree_iff reference_carriesSender _ _ (by decide +kernel)).mpr (by decide +kernel) 0
    (by decide +kernel), by decide +kernel⟩

/-- The device id in force when `begin_tick` clears the reconfigure requests. -/
def clearedId (d : Device) (i : Tick) : UInt32 :=
  (d.atReconfigure i).settings.effectiveDeviceId

/-- The event, if it is a frame handed to the socket, has the sender of every BOND
since the last open or rebond. -/
def BondSender (past : List Event) (e : Event) : Prop :=
  ∀ now f ok, e = .send now f ok → ∀ now' g ok',
    .send now' g ok' ∈ since Event.isReset past → g.message = messageBond → f.sender = g.sender

/-- The bonds of the log have one sender each, and the current one is `id`. -/
structure OneSender (id : UInt32) (m : MachineSlot) : Prop where
  each : Each BondSender m.log
  current : m.active = true → ∀ now f ok,
    .send now f ok ∈ since Event.isReset m.log → f.sender = id

theorem bondSender_of_unsent {e : Event} (he : e.isSend = false) (past : List Event) :
    BondSender past e := by
  rintro now f ok rfl
  simp [Event.isSend] at he

variable {id : UInt32}

theorem OneSender.grows {Q : Event → Prop} (h : OneSender id m) (hg : Grows Q m m')
    (hq : ∀ e, Q e → e.isReset = false ∧ e.isSend = false)
    (ha : m'.active = true → m.active = true) : OneSender id m' := by
  refine ⟨hg.each h.each fun past e he => bondSender_of_unsent (hq e he).2 past, ?_⟩
  intro hm now f ok hmem
  obtain ⟨es, hs, hes⟩ := hg.since fun e he => (hq e he).1
  rw [hs, List.mem_append] at hmem
  rcases hmem with hmem | hmem
  · exact h.current (ha hm) now f ok hmem
  · simpa [Event.isSend] using (hq _ (hes _ hmem)).2

/-- After a reset any id will do. -/
theorem OneSender.reset {e : Event} (he : e.isReset = true) (h : Each BondSender m.log)
    (hl : m'.log = m.log ++ [e]) : OneSender id m' := by
  have hs : e.isSend = false := by
    cases e <;> simp_all [Event.isReset, Event.isSend]
  refine ⟨by rw [hl, each_concat]; exact ⟨h, bondSender_of_unsent hs _⟩, ?_⟩
  intro _ now f ok hm
  simp [hl, he] at hm

theorem OneSender.config (h : Each BondSender m.log) (peer : Peer) (sock bound : Int) :
    OneSender id (slotApplyConfig p s peer sock bound m) := by
  have hq (e : Event) (he : e.isSocketCall = true) := isSocketCall_spec he
  rcases slotApplyConfig_cases p s peer sock bound m with ⟨ha, hg, -⟩ | ⟨-, ⟨mid, hg, hl⟩, -⟩
  · exact ⟨hg.each h fun past e he => bondSender_of_unsent (hq e he).2.2 past,
      fun hm => by simp [ha] at hm⟩
  · exact .reset rfl (hg.each h fun past e he => bondSender_of_unsent (hq e he).2.2 past) hl

theorem OneSender.rebond (h : OneSender id m) {id' : UInt32} :
    OneSender id' (pstopSessionRebond p m) := .reset rfl h.each rfl

/-- The start of a tick moves an active slot to the id in force, if it reopens the
slot whenever that id is another one. -/
theorem OneSender.begin {id' : UInt32} (h : OneSender id (d.lk.slots s))
    (hid : id' ≠ id → (d.beginReads i).reconfigure s = true) :
    OneSender id' ((d.beginTick p i).lk.slots s) := by
  let r := d.beginReads i
  let c := if r.reconfigure s then
    slotApplyConfig p s (r.peer s) (i.sock s) (i.bound s) (d.lk.slots s) else d.lk.slots s
  have hc : OneSender id' c := by
    unfold c
    split
    · exact .config h.each _ _ _
    case isFalse hr =>
      obtain rfl : id' = id := not_not.mp fun hn => hr (hid hn)
      exact h
  change OneSender id' (if c.active && r.rebond s then pstopSessionRebond p c else c)
  split
  · exact hc.rebond
  · exact hc

theorem OneSender.send {f : Frame} (now : UInt64) (n : Int) (hf : f.sender = id)
    (ha : m.active = true) (h : OneSender id m) :
    OneSender id (pstopSessionCommitSend f now n m) := by
  constructor
  · rw [commit_log, each_concat]
    refine ⟨h.each, ?_⟩
    rintro now' g ok he now'' g' ok' hm -
    obtain ⟨-, rfl, -⟩ := Event.send.inj he
    rw [hf, h.current ha now'' g' ok' hm]
  · intro _ now' g ok hm
    rw [commit_log, since_concat_unmarked rfl, List.mem_append, List.mem_singleton] at hm
    rcases hm with hm | hm
    · exact h.current ha now' g ok hm
    · obtain ⟨-, rfl, -⟩ := Event.send.inj hm
      exact hf

theorem OneSender.poll (now : UInt64) (h : OneSender id m) :
    OneSender id (pstopSessionPoll p now m) := by
  refine h.grows (poll_grows p now m) ?_ fun ha => by rwa [poll_active] at ha
  rintro e (rfl | ⟨msg, rfl⟩)
  · exact ⟨rfl, rfl⟩
  · exact ⟨rfl, rfl⟩

theorem OneSender.tick (hp : p.CarriesSender) (h : OneSender id (d.lk.slots s))
    (hid : clearedId d i ≠ id → (d.beginReads i).reconfigure s = true)
    (hr : (d.beginTick p i).lk.due s = true → idRead p d i 0 s = clearedId d i) :
    OneSender (clearedId d i) ((d.tick p i).lk.slots s) := by
  have hb : OneSender (clearedId d i) ((d.beginTick p i).lk.slots s) := h.begin hid
  have hs : OneSender (clearedId d i) (atPoll p d i s) := by
    unfold atPoll
    split
    case isFalse => exact hb
    case isTrue hd =>
      refine hb.send _ _ ?_ (Bool.and_eq_true_iff.mp hd.2).1
      rw [frameOf, sampled_frame p d i 0 s (by rw [sampled_due]; exact hd.2), build_sender p hp,
        hr hd.2]
  rw [tick_slots]
  refine serviceSlot_induction (fun _ hm => ?_) (fun m hm => hm.rebond) hs
  exact OneSender.poll _ ⟨hm.each, hm.current⟩

/-- In every tick the build of the slot reads the id in force when the reconfigure
requests were cleared, and when that is not the id of the tick before, the cleared
requests include the slot's. -/
def ReopensForId (p : PstopC) (b : Boot) (s : Slot) (is : List Tick) : Prop :=
  Each (fun past i =>
    (((after p b past).beginTick p i).lk.due s = true →
      idRead p (after p b past) i 0 s = clearedId (after p b past) i) ∧
    ∀ j ∈ past.getLast?,
      clearedId (after p b past) i ≠ clearedId (after p b past.dropLast) j →
        ((after p b past).beginReads i).reconfigure s = true) is

instance (p : PstopC) (b : Boot) (s : Slot) (is : List Tick) :
    Decidable (ReopensForId p b s is) := by unfold ReopensForId; infer_instance

theorem oneSender_after (hp : p.CarriesSender) {b : Boot} {is : List Tick} {i : Tick}
    (h : ReopensForId p b s (is ++ [i])) :
    OneSender (clearedId (after p b is) i) ((after p b (is ++ [i])).lk.slots s) := by
  induction is using List.reverseRecOn generalizing i with
  | nil =>
    have h0 : OneSender (clearedId (b.device p) i) ((b.device p).lk.slots s) :=
      .config (m := { MachineSlot.zeroed with active := false }) (by simp [MachineSlot.zeroed]) _ _ _
    rw [after_concat]
    exact h0.tick hp (fun hn => absurd rfl hn) (Each.last h).1
  | append_singleton is j ih =>
    obtain ⟨hr, hid⟩ := Each.last h
    rw [after_concat p b (is ++ [j]) i]
    exact (ih (Each.left h)).tick hp (by simpa using hid) hr

/-- If every change of the device id reopens the slot in the tick that first reads it,
the frames of a bond have the sender of its BOND. -/
theorem one_identity_per_bond (hp : p.CarriesSender) (b : Boot) (s : Slot) (is : List Tick)
    (h : ReopensForId p b s is) : Each BondSender ((after p b is).lk.slots s).log := by
  rcases List.eq_nil_or_concat is with rfl | ⟨is, i, rfl⟩
  · have h0 : OneSender 0 ((after p b []).lk.slots s) :=
      .config (m := { MachineSlot.zeroed with active := false }) (by simp [MachineSlot.zeroed]) _ _ _
    exact h0.each
  · rw [List.concat_eq_append] at h ⊢
    exact (oneSender_after hp h).each

theorem one_identity_per_bond_posted :
    Each BondSender ((after reference oneMachine (bondingRun ++
      [(quietTick 1300 closedReads).writing .reconfigure (postDeviceId 7),
        quietTick 1400 closedReads])).lk.slots 0).log :=
  one_identity_per_bond reference_carriesSender oneMachine 0 _ (by decide +kernel)

/-- The tick at 1300 falls between the two parts of a settings POST. -/
def splitPostRun : List Tick :=
  bondingRun ++
    [(quietTick 1300 closedReads).writing .reconfigure ((postDeviceId 7).take 1),
      (quietTick 1400 closedReads).writing .reconfigure ((postDeviceId 7).drop 1)]

/-- The OK at 1300 goes out under the new id on the bond of the old one. -/
theorem split_post_changes_sender :
    ¬ Each BondSender ((after reference oneMachine splitPostRun).lk.slots 0).log := by
  intro h
  let log := ((after reference oneMachine splitPostRun).lk.slots 0).log
  let bond := frameOf reference (after reference oneMachine (bondingRun.take 2))
    (quietTick 300 closedReads) 0
  let f := frameOf reference (after reference oneMachine bondingRun)
    ((quietTick 1300 closedReads).writing .reconfigure ((postDeviceId 7).take 1)) 0
  have hl : log = log.take 4 ++ .send 1300 f true :: log.drop 5 := by decide +kernel
  have hb : .send 300 bond true ∈ since Event.isReset (log.take 4) := by decide +kernel
  have hm : bond.message = messageBond := by decide +kernel
  have hn : f.sender ≠ bond.sender := by decide +kernel
  exact hn (h _ _ _ hl 1300 f true rfl 300 bond true hb hm)

end ZephyrApps.LockstepIdentity
