import ZephyrApps.LockstepDevice
import ZephyrApps.SessionSteps

/-!
# What one tick does

Whatever the interleaving, each sampler runs its own program on the slots and the
snapshot that `begin_tick` left; only the device id is read from the settings as
they are when a build runs. The slots are then sent and serviced one by one.
-/
namespace ZephyrApps.LockstepTicks
open Pstop AppSettings ControlPlane EstopVerdict PstopSession LockstepComparator LockstepDevice
  SystemRuns

variable {p : PstopC} {d : Device} {i : Tick}

/-- The device id in force when statement `x` of the remaining passes runs. -/
def idAt (i : Tick) : Shared → List (Channel × SamplerStep) → Channel × SamplerStep → UInt32
  | σ, [], _ => σ.settings.effectiveDeviceId
  | σ, y :: ys, x =>
    if y = x then (σ.after (i.http (.sampler y.1 y.2))).settings.effectiveDeviceId
    else idAt i (σ.after (i.http (.sampler y.1 y.2))) ys x

/-- The passes touch the samplers only. -/
theorem foldl_samplerAct_lk (xs : List (Channel × SamplerStep)) (d : Device) :
    ∃ samplers, (xs.foldl (Device.samplerAct p i) d).lk = { d.lk with samplers } := by
  induction xs generalizing d with
  | nil => exact ⟨d.lk.samplers, rfl⟩
  | cons x xs ih =>
    obtain ⟨samplers, h⟩ := ih (d.samplerAct p i x)
    exact ⟨samplers, h⟩

/-- In any interleaving a sampler runs the statements that are its own. -/
theorem foldl_samplerAct_samplers (xs : List (Channel × SamplerStep)) (hn : xs.Nodup)
    (d : Device) (c : Channel) :
    (xs.foldl (Device.samplerAct p i) d).lk.samplers c =
      ((xs.filter fun x => x.1 = c).map Prod.snd).foldl
        (fun sm st => sm.step p d.lk.slots d.lk.snap c (i.reads c) (idAt i d.shared xs (c, st))
          (i.doneMs c) d.lk.tickGen st)
        (d.lk.samplers c) := by
  induction xs generalizing d with
  | nil => rfl
  | cons y ys ih =>
    obtain ⟨hy, hys⟩ := List.nodup_cons.mp hn
    rw [List.foldl_cons, ih hys]
    -- the statements that remain read what they read before
    have hid : ∀ st ∈ (ys.filter fun x => x.1 = c).map Prod.snd,
        idAt i (d.samplerAct p i y).shared ys (c, st) = idAt i d.shared (y :: ys) (c, st) := by
      intro st hst
      obtain ⟨x, hx, rfl⟩ := List.mem_map.mp hst
      obtain ⟨hm, hc⟩ := List.mem_filter.mp hx
      obtain rfl : x.1 = c := of_decide_eq_true hc
      have hne : y ≠ x := fun h => hy (h ▸ hm)
      simp [idAt, hne, Device.samplerAct]
    rw [List.foldl_ext _ _ _ (fun sm st hst => by rw [hid st hst])]
    by_cases hc : y.1 = c
    · obtain ⟨c', st⟩ := y
      obtain rfl : c' = c := hc
      simp [Device.samplerAct, idAt]
    · simp [Device.samplerAct, hc, Function.update_of_ne (Ne.symm hc)]

variable (p d i) in
/-- The device id that sampler `c` reads to build the frame of slot `s`. -/
def idRead (c : Channel) (s : Slot) : UInt32 :=
  idAt i (d.beginTick p i).shared i.sched.order (c, .build s)

variable (p d i)

theorem sampled_lk : ∃ samplers, (d.sampled p i).lk = { (d.beginTick p i).lk with samplers } :=
  foldl_samplerAct_lk _ _

@[simp] theorem sampled_slots : (d.sampled p i).lk.slots = (d.beginTick p i).lk.slots := by
  obtain ⟨_, h⟩ := sampled_lk p d i
  rw [h]

@[simp] theorem sampled_snap : (d.sampled p i).lk.snap = (d.beginTick p i).lk.snap := by
  obtain ⟨_, h⟩ := sampled_lk p d i
  rw [h]

@[simp] theorem sampled_tickGen : (d.sampled p i).lk.tickGen = d.lk.tickGen + 1 := by
  obtain ⟨_, h⟩ := sampled_lk p d i
  rw [h]
  rfl

@[simp] theorem sampled_due (s : Slot) :
    (d.sampled p i).lk.due s = (d.beginTick p i).lk.due s := by
  simp [Lockstep.due]

theorem sampled_samplers (c : Channel) :
    (d.sampled p i).lk.samplers c =
      samplerProgram.foldl
        (fun sm st => sm.step p (d.beginTick p i).lk.slots (d.beginTick p i).lk.snap c (i.reads c)
          (idAt i (d.beginTick p i).shared i.sched.order (c, st)) (i.doneMs c)
          (d.lk.tickGen + 1) st)
        (d.lk.samplers c) := by
  have h := foldl_samplerAct_samplers (p := p) (i := i) i.sched.order i.sched.nodup
    (d.beginTick p i) c
  rw [i.sched.each c] at h
  exact h

@[simp] theorem build_estop (slots : Slot → MachineSlot) (snap : Snapshot) (s : Slot)
    (me : UInt32) (sm : Sampler) : (sm.build p slots snap s me).estop = sm.estop := by
  unfold Sampler.build
  split <;> rfl

@[simp] theorem build_verdict (slots : Slot → MachineSlot) (snap : Snapshot) (s : Slot)
    (me : UInt32) (sm : Sampler) : (sm.build p slots snap s me).verdict = sm.verdict := by
  unfold Sampler.build
  split <;> rfl

theorem build_frames (slots : Slot → MachineSlot) (snap : Snapshot) (s : Slot) (me : UInt32)
    (sm : Sampler) (t : Slot) :
    (sm.build p slots snap s me).frames t =
      if t = s ∧ dueSlot slots snap s = true then
        pstopSessionBuild p (slots s).session sm.verdict snap.role snap.nowMs me
      else sm.frames t := by
  unfold Sampler.build
  by_cases hd : dueSlot slots snap s = true
  · by_cases ht : t = s
    · subst ht
      simp [hd]
    · simp [hd, ht]
  · simp [hd]

@[simp] theorem sampled_estop (c : Channel) :
    ((d.sampled p i).lk.samplers c).estop =
      (estopChannelSample c (i.reads c) (d.lk.samplers c).estop).1 := by
  rw [sampled_samplers]
  simp [samplerProgram, Sampler.step, Sampler.publish, Sampler.sample]

@[simp] theorem sampled_verdict (c : Channel) :
    ((d.sampled p i).lk.samplers c).verdict =
      (estopChannelSample c (i.reads c) (d.lk.samplers c).estop).2 := by
  rw [sampled_samplers]
  simp [samplerProgram, Sampler.step, Sampler.publish, Sampler.sample]

@[simp] theorem sampled_gen (c : Channel) :
    ((d.sampled p i).lk.samplers c).gen = d.lk.tickGen + 1 := by
  rw [sampled_samplers]
  simp [samplerProgram, Sampler.step, Sampler.publish]

/-- The frame of a due slot is this tick's: built from the session and the snapshot
that `begin_tick` left, this tick's verdict and the device id read at the build. -/
theorem sampled_frame (c : Channel) (s : Slot) (hs : (d.sampled p i).lk.due s = true) :
    ((d.sampled p i).lk.samplers c).frames s =
      pstopSessionBuild p ((d.beginTick p i).lk.slots s).session
        ((d.sampled p i).lk.samplers c).verdict (d.beginTick p i).lk.snap.role i.now
        (idRead p d i c s) := by
  rw [sampled_due] at hs
  have hd : dueSlot (d.beginTick p i).lk.slots (d.beginTick p i).lk.snap s = true := hs
  have hn : (d.beginTick p i).lk.snap.nowMs = i.now := rfl
  rw [sampled_verdict, sampled_samplers]
  simp only [samplerProgram, List.foldl_cons, List.foldl_nil, Sampler.step, Sampler.publish,
    build_frames, build_verdict, Sampler.sample, idRead]
  cases s using slot_cases <;> simp [hd, hn]

/-- Both samplers arrive at verdict `v`. -/
def Agrees (v : UInt8) : Prop := ∀ c, ((d.sampled p i).lk.samplers c).verdict = v

/-- No device id is written while the samplers run. -/
def KeepsId : Prop := ∀ c st, ∀ step ∈ i.http (.sampler c st), step.setsId = false

theorem idAt_keepsId (h : KeepsId i) (σ : Shared) (xs : List (Channel × SamplerStep))
    (x : Channel × SamplerStep) : idAt i σ xs x = σ.settings.effectiveDeviceId := by
  induction xs generalizing σ with
  | nil => rfl
  | cons y ys ih =>
    have hy := after_effectiveDeviceId (h y.1 y.2) σ
    rw [idAt, ih, hy, ite_self]

/-- Agreed verdicts are encoded alike when every build reads the same device id. -/
theorem frames_of_agrees {v : UInt8} (hv : Agrees p d i v) {s : Slot}
    (hid : idRead p d i 0 s = idRead p d i 1 s) (hd : (d.sampled p i).lk.due s = true) :
    ((d.sampled p i).lk.samplers 0).frames s = ((d.sampled p i).lk.samplers 1).frames s := by
  rw [sampled_frame p d i 0 s hd, sampled_frame p d i 1 s hd, hv 0, hv 1, hid]

theorem differs_of_agrees {v : UInt8} (hi : KeepsId i) (hv : Agrees p d i v) (s : Slot) :
    (d.sampled p i).lk.differs s = false := by
  cases hd : (d.sampled p i).lk.due s with
  | false => simp [Lockstep.differs, hd]
  | true =>
    have hid : idRead p d i 0 s = idRead p d i 1 s := by
      rw [idRead, idRead, idAt_keepsId i hi, idAt_keepsId i hi]
    simp [Lockstep.differs, frames_of_agrees p d i hv hid hd]

@[simp] theorem observe_slots (L : Lockstep) (gen : UInt32) :
    (L.observe gen).slots = L.slots := (observe_sameWork L gen).slots

@[simp] theorem observe_samplers (L : Lockstep) (gen : UInt32) :
    (L.observe gen).samplers = L.samplers := (observe_sameWork L gen).samplers

/-- Nothing is sent unless the gate is open and no due slot's encodings differ. -/
theorem comparatorPass_slots (L : Lockstep) (sendto : Slot → Int) (uptimeMs : UInt64) :
    (L.comparatorPass sendto uptimeMs).slots =
      if L.primed = true ∧ ∀ s, L.differs s = false then (L.sendAll sendto).slots
      else L.slots := by
  unfold Lockstep.comparatorPass
  cases hp : L.primed with
  | false => simp
  | true =>
    cases hf : (List.finRange 4).find? L.differs with
    | none =>
      have hd : ∀ s, L.differs s = false := by simpa using hf
      simp [hd]
    | some s =>
      have hd : ¬ ∀ s, L.differs s = false := fun h => by
        have hs := List.find?_some hf
        simp [h s] at hs
      simp [hd, Lockstep.recordMismatch]

@[simp] theorem comparatorPass_samplers (L : Lockstep) (sendto : Slot → Int) (uptimeMs : UInt64) :
    (L.comparatorPass sendto uptimeMs).samplers = L.samplers := by
  unfold Lockstep.comparatorPass
  cases L.primed with
  | false => rfl
  | true => cases (List.finRange 4).find? L.differs <;> rfl

def OnTime : Prop := ∀ c, i.lateMask c = false

/-- The comparator transmits the due slots of this tick. -/
def Releases : Prop :=
  OnTime i ∧ (d.sampled p i).lk.primed = true ∧ ∀ s, (d.sampled p i).lk.differs s = false

instance : Decidable (OnTime i) := by unfold OnTime; infer_instance
instance : Decidable (Releases p d i) := by unfold Releases; infer_instance

/-- The frame that slot `s` would transmit in this tick. -/
def frameOf (s : Slot) : Frame := ((d.sampled p i).lk.samplers 0).frames s

def atPoll (s : Slot) : MachineSlot :=
  if Releases p d i ∧ (d.beginTick p i).lk.due s = true then
    pstopSessionCommitSend (frameOf p d i s) i.now (i.sendto s) ((d.beginTick p i).lk.slots s)
  else (d.beginTick p i).lk.slots s

/-- Both stamps are this tick's, so only a missed window declines the comparison. -/
theorem compareOrDecline_onTime (h : OnTime i) :
    (d.sampled p i).lk.compareOrDecline (d.sampled p i).lk.tickGen i.lateMask 0 i.sendto
        i.uptimeMs =
      ((d.sampled p i).lk.comparatorPass i.sendto i.uptimeMs).observe
        (d.sampled p i).lk.tickGen := by
  simp [Lockstep.compareOrDecline, samplersPublished, h 0, h 1]

theorem compareOrDecline_late (h : ¬ OnTime i) :
    ((d.sampled p i).lk.compareOrDecline (d.sampled p i).lk.tickGen i.lateMask 0 i.sendto
        i.uptimeMs).slots = (d.sampled p i).lk.slots := by
  have hl : ¬ (i.lateMask 0 = false ∧ i.lateMask 1 = false) := fun hl =>
    h (channel_cases hl.1 hl.2)
  simp [Lockstep.compareOrDecline, samplersPublished, hl, Lockstep.recordLate]

theorem compareOrDecline_slots (s : Slot) :
    ((d.sampled p i).lk.compareOrDecline (d.sampled p i).lk.tickGen i.lateMask 0 i.sendto
      i.uptimeMs).slots s = atPoll p d i s := by
  have hn : (d.beginTick p i).lk.snap.nowMs = i.now := rfl
  by_cases ht : OnTime i
  · rw [compareOrDecline_onTime p d i ht, observe_slots, comparatorPass_slots]
    by_cases hr : (d.sampled p i).lk.primed = true ∧ ∀ s, (d.sampled p i).lk.differs s = false
    · have hR : Releases p d i := ⟨ht, hr⟩
      rw [if_pos hr]
      simp [atPoll, hR, frameOf, Lockstep.sendAll, hn]
    · have hR : ¬ Releases p d i := fun h => hr h.2
      rw [if_neg hr]
      simp [atPoll, hR]
  · have hR : ¬ Releases p d i := fun h => ht h.1
    rw [compareOrDecline_late p d i ht]
    simp [atPoll, hR]

/-- One tick of one slot: reconfigure and rebond, send, poll and watchdog. -/
theorem tick_slots (s : Slot) :
    (d.tick p i).lk.slots s = serviceSlot p i.now (i.arrivals s) (atPoll p d i s) := by
  rw [← compareOrDecline_slots]
  rfl

@[simp] theorem tick_samplers : (d.tick p i).lk.samplers = (d.sampled p i).lk.samplers := by
  change ((d.sampled p i).lk.compareOrDecline (d.sampled p i).lk.tickGen i.lateMask 0 i.sendto
    i.uptimeMs).samplers = _
  unfold Lockstep.compareOrDecline
  dsimp only
  split <;> simp [Lockstep.recordLate]

theorem beginSlot_grows (r : BeginReads) (sock bound : Slot → Int) (s : Slot) (m : MachineSlot) :
    Grows (fun e => e.isSocketCall = true ∨ e.isReset = true) m
      (beginSlot p r sock bound s m) := by
  let c := if r.reconfigure s then slotApplyConfig p s (r.peer s) (sock s) (bound s) m else m
  have hc : Grows (fun e => e.isSocketCall = true ∨ e.isReset = true) m c := by
    by_cases hr : r.reconfigure s = true
    · simp only [c, hr, if_true]
      refine (slotApplyConfig_grows p s (r.peer s) (sock s) (bound s) m).mono ?_
      rintro e (he | rfl)
      · exact Or.inl he
      · exact Or.inr rfl
    · simpa [c, hr] using Grows.refl m
  change Grows _ m (if c.active && r.rebond s then pstopSessionRebond p c else c)
  split
  · exact hc.trans (.of_concat (Or.inr rfl) rfl)
  · exact hc

theorem serviceSlot_grows (now : UInt64) (arrived : List Datagram) (m : MachineSlot) :
    Grows (fun e => e = .unbond ∨ (∃ msg, e = .reply now msg) ∨ e = .rebond) m
      (serviceSlot p now arrived m) := by
  unfold serviceSlot
  split
  case isFalse => exact .refl m
  case isTrue =>
    have hp := (poll_grows p now { m with rx := m.rx ++ arrived }).mono
      (R := fun e => e = .unbond ∨ (∃ msg, e = .reply now msg) ∨ e = .rebond) (by tauto)
    have hg : Grows _ m (pstopSessionPoll p now { m with rx := m.rx ++ arrived }) :=
      (Grows.of_log rfl).trans hp
    rcases watchdog_cases p now (pstopSessionPoll p now { m with rx := m.rx ++ arrived }) with
      h | ⟨-, h⟩
    · rwa [h]
    · rw [h]
      exact hg.trans (.of_concat (Or.inr (Or.inr rfl)) rfl)

theorem atPoll_grows (s : Slot) :
    Grows (fun e => e.isSocketCall = true ∨ e.isReset = true ∨ e.isSend = true) (d.lk.slots s)
      (atPoll p d i s) := by
  have hb := (beginSlot_grows p (d.beginReads i) i.sock i.bound s (d.lk.slots s)).mono
    (R := fun e => e.isSocketCall = true ∨ e.isReset = true ∨ e.isSend = true) (by tauto)
  unfold atPoll
  split
  · exact Grows.trans hb (.of_concat (Or.inr (Or.inr rfl)) (commit_log _ _ _ _))
  · exact hb

/-- A tick hands a frame to a slot's socket exactly when it releases the frames
and the slot is due. -/
theorem events_eq (s : Slot) :
    ((d.tick p i).lk.slots s).log = (d.lk.slots s).log ++ d.events p i s ∧
      ∀ now f ok, Event.send now f ok ∈ d.events p i s ↔
        Releases p d i ∧ (d.beginTick p i).lk.due s = true ∧ now = i.now ∧
          f = frameOf p d i s ∧ ok = decide (i.sendto s = messageSize) := by
  obtain ⟨es, hb, hbe⟩ := beginSlot_grows p (d.beginReads i) i.sock i.bound s (d.lk.slots s)
  obtain ⟨es', hs, hse⟩ := serviceSlot_grows p i.now (i.arrivals s) (atPoll p d i s)
  have hb' : ((d.beginTick p i).lk.slots s).log = (d.lk.slots s).log ++ es := hb
  have hes : ∀ now f ok, Event.send now f ok ∉ es := fun now f ok h => by
    simpa [Event.isSocketCall, Event.isReset] using hbe _ h
  have hes' : ∀ now f ok, Event.send now f ok ∉ es' := fun now f ok h => by
    simpa using hse _ h
  rw [Device.events, tick_slots, hs]
  by_cases hr : Releases p d i ∧ (d.beginTick p i).lk.due s = true
  · have hl : (atPoll p d i s).log = (d.lk.slots s).log ++
        (es ++ [.send i.now (frameOf p d i s) (decide (i.sendto s = messageSize))]) := by
      simp only [atPoll, if_pos hr, commit_log, hb', List.append_assoc]
    rw [hl, List.append_assoc, List.drop_left]
    refine ⟨rfl, fun now f ok => ?_⟩
    simp [hes, hes', hr]
  · have hl : (atPoll p d i s).log = (d.lk.slots s).log ++ es := by
      simp only [atPoll, if_neg hr, hb']
    rw [hl, List.append_assoc, List.drop_left]
    refine ⟨rfl, fun now f ok => iff_of_false (by simp [hes, hes']) ?_⟩
    rintro ⟨h1, h2, -⟩
    exact hr ⟨h1, h2⟩

theorem tick_log (s : Slot) :
    ((d.tick p i).lk.slots s).log = (d.lk.slots s).log ++ d.events p i s := (events_eq p d i s).1

theorem send_mem_events {s : Slot} {now : UInt64} {f : Frame} {ok : Bool} :
    Event.send now f ok ∈ d.events p i s ↔
      Releases p d i ∧ (d.beginTick p i).lk.due s = true ∧ now = i.now ∧
        f = frameOf p d i s ∧ ok = decide (i.sendto s = messageSize) :=
  (events_eq p d i s).2 now f ok

variable {p d i} {I : MachineSlot → Prop} {s : Slot} {m : MachineSlot}

/-- What reconfiguring and rebonding preserve, the start of a tick preserves. -/
theorem beginSlot_induction {r : BeginReads} {sock bound : Slot → Int}
    (config : ∀ peer sock bound m, I m → I (slotApplyConfig p s peer sock bound m))
    (rebond : ∀ m, I m → I (pstopSessionRebond p m)) (h : I m) :
    I (beginSlot p r sock bound s m) := by
  let c := if r.reconfigure s then slotApplyConfig p s (r.peer s) (sock s) (bound s) m else m
  have hc : I c := by
    unfold c
    split
    · exact config _ _ _ m h
    · exact h
  change I (if c.active && r.rebond s then pstopSessionRebond p c else c)
  split
  · exact rebond _ hc
  · exact hc

/-- What polling and rebonding preserve, servicing a slot preserves. -/
theorem serviceSlot_induction {now : UInt64} {arrived : List Datagram}
    (poll : m.active = true → I m → I (pstopSessionPoll p now { m with rx := m.rx ++ arrived }))
    (rebond : ∀ m, I m → I (pstopSessionRebond p m)) (h : I m) :
    I (serviceSlot p now arrived m) := by
  unfold serviceSlot
  split
  case isTrue ha =>
    rcases watchdog_cases p now (pstopSessionPoll p now { m with rx := m.rx ++ arrived }) with
      hw | ⟨-, hw⟩
    · rw [hw]
      exact poll ha h
    · rw [hw]
      exact rebond _ (poll ha h)
  case isFalse => exact h

/-- An invariant of a slot is one of reconfiguring, rebonding, polling, and of
sending a frame of the tick. -/
theorem tick_induction
    (config : ∀ peer sock bound m, I m → I (slotApplyConfig p s peer sock bound m))
    (rebond : ∀ m, I m → I (pstopSessionRebond p m))
    (poll : (atPoll p d i s).active = true → I (atPoll p d i s) → I (pstopSessionPoll p i.now
      { atPoll p d i s with rx := (atPoll p d i s).rx ++ i.arrivals s }))
    (send : (d.beginTick p i).lk.due s = true → I ((d.beginTick p i).lk.slots s) →
      I (pstopSessionCommitSend (frameOf p d i s) i.now (i.sendto s)
        ((d.beginTick p i).lk.slots s)))
    (h : I (d.lk.slots s)) : I ((d.tick p i).lk.slots s) := by
  rw [tick_slots]
  refine serviceSlot_induction poll rebond ?_
  have hb : I ((d.beginTick p i).lk.slots s) := beginSlot_induction config rebond h
  unfold atPoll
  split
  case isTrue hs => exact send hs.2 hb
  case isFalse => exact hb

/-- What init and every tick preserve holds of the slot after every run. -/
theorem after_induction {b : Boot} (config : ∀ peer sock bound,
      I (slotApplyConfig p s peer sock bound MachineSlot.zeroed))
    (tick : ∀ is i, I ((after p b is).lk.slots s) → I (((after p b is).tick p i).lk.slots s))
    (is : List Tick) : I ((after p b is).lk.slots s) :=
  run_induction (I := fun _ (d : Device) => I (d.lk.slots s)) (config _ _ _) tick is

end ZephyrApps.LockstepTicks
