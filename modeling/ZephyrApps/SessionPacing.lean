import Mathlib.Data.List.Chain
import ZephyrApps.LockstepTicks

/-!
# The pace of a session

When the frames of a slot are transmitted, for every schedule of ticks: how far apart
two heartbeats of a bond can be, and two BONDs of one attempt at bonding.
-/
namespace ZephyrApps.SessionPacing
open Pstop AppSettings EventHistories EstopVerdict PstopSession LockstepComparator LockstepDevice
  LockstepTicks

variable {p : PstopC} {d : Device} {i : Tick} {s : Slot} {m : MachineSlot} {now now' : UInt64}

/-- No stamp of the session lies ahead of now. -/
structure Stamped (now : UInt64) (m : MachineSlot) : Prop where
  send : m.session.lastSendMs ≤ now
  bond : m.session.lastBondMs ≤ now
  reply : m.session.lastReplyMs ≤ now

theorem Stamped.later (h : Stamped now m) (hn : now ≤ now') : Stamped now' m :=
  ⟨UInt64.le_trans h.send hn, UInt64.le_trans h.bond hn, UInt64.le_trans h.reply hn⟩

theorem Stamped.close (h : Stamped now m) : Stamped now (pstopSessionClose m) := by
  unfold pstopSessionClose
  split
  · exact ⟨h.send, h.bond, h.reply⟩
  · exact h

theorem Stamped.open (h : Stamped now m) (slot : Slot) (peer : Peer) (sock bound : Int) :
    Stamped now (pstopSessionOpen p slot peer sock bound m).1 := by
  unfold pstopSessionOpen
  dsimp only
  split
  case isTrue => exact ⟨h.send, h.bond, h.reply⟩
  case isFalse =>
    split
    case isTrue => exact ⟨h.send, h.bond, h.reply⟩
    case isFalse => exact ⟨UInt64.zero_le, UInt64.zero_le, UInt64.zero_le⟩

theorem Stamped.config (h : Stamped now m) (slot : Slot) (peer : Peer) (sock bound : Int) :
    Stamped now (slotApplyConfig p slot peer sock bound m) := by
  apply slotApplyConfig_induction
  · intro m hm
    exact hm.close
  · intro m active fd hm
    exact ⟨hm.send, hm.bond, hm.reply⟩
  · intro m hm
    exact hm.open slot peer sock bound
  · exact h

theorem Stamped.rebond (h : Stamped now m) : Stamped now (pstopSessionRebond p m) :=
  ⟨h.send, h.bond, h.reply⟩

theorem Stamped.frame (h : Stamped now m) (f : Frame) : Stamped now (pollFrame p now m f) := by
  unfold pollFrame
  dsimp only
  split
  case isTrue => exact h
  case isFalse =>
    split
    case isTrue => exact ⟨h.send, h.bond, h.reply⟩
    case isFalse =>
      split
      · exact h
      · exact ⟨h.send, h.bond, UInt64.le_refl _⟩

theorem Stamped.poll (h : Stamped now m) : Stamped now (pstopSessionPoll p now m) := by
  apply poll_induction
  · intro m r hm
    exact ⟨hm.send, hm.bond, hm.reply⟩
  · intro m f hm
    exact hm.frame f
  · exact h

theorem pollFrame_lastSend (now : UInt64) (m : MachineSlot) (f : Frame) :
    (pollFrame p now m f).session.lastSendMs = m.session.lastSendMs := by
  unfold pollFrame
  dsimp only
  split
  case isTrue => rfl
  case isFalse =>
    split
    case isTrue => rfl
    case isFalse => split <;> rfl

/-- Polling and the watchdog leave the stamp of the last send. -/
theorem poll_lastSend (now : UInt64) (m : MachineSlot) :
    (pstopSessionPoll p now m).session.lastSendMs = m.session.lastSendMs :=
  poll_induction (I := fun m' => m'.session.lastSendMs = m.session.lastSendMs) (fun _ _ h => h)
    (fun m' f h => (pollFrame_lastSend now m' f).trans h) rfl

theorem service_lastSend (now : UInt64) (arrived : List Datagram) (m : MachineSlot) :
    (serviceSlot p now arrived m).session.lastSendMs = m.session.lastSendMs := by
  unfold serviceSlot
  split
  case isFalse => rfl
  case isTrue =>
    have hp := poll_lastSend (p := p) now { m with rx := m.rx ++ arrived }
    rcases watchdog_cases p now (pstopSessionPoll p now { m with rx := m.rx ++ arrived }) with
      hw | ⟨-, hw⟩
    · rw [hw]
      exact hp
    · rw [hw]
      exact hp

theorem commit_lastSend (f : Frame) (now : UInt64) (m : MachineSlot) :
    (pstopSessionCommitSend f now messageSize m).session.lastSendMs = now := by
  unfold pstopSessionCommitSend
  cases h : m.session.state <;> simp [h]

/-- The send period of a window: half of it, within the clamp. -/
def periodMs (hb : UInt32) : ℕ := max 100 (min 1000 (hb.toNat / 2))

theorem sendPeriodMs_toNat {s : Session} (h : s.hbMs ≠ 0) :
    (pstopSessionSendPeriodMs s).toUInt64.toNat = periodMs s.hbMs := by
  have hmin : minSendPeriodMs.toNat = 100 := rfl
  have hmax : maxSendPeriodMs.toNat = 1000 := rfl
  have hhalf : (s.hbMs / 2).toNat = s.hbMs.toNat / 2 := rfl
  rw [UInt32.toNat_toUInt64, periodMs]
  simp only [pstopSessionSendPeriodMs, if_neg h, UInt32.lt_iff_toNat_lt]
  by_cases hlow : (s.hbMs / 2).toNat < minSendPeriodMs.toNat
  · rw [if_pos hlow, hmin, hmax, if_neg (by omega), hmin]
    omega
  · rw [if_neg hlow]
    split
    · rw [hmax]
      omega
    · omega

/-- The slot is in a bond whose machine advertises `hb`. -/
structure InBond (hb : UInt32) (m : MachineSlot) : Prop where
  active : m.active = true
  bonded : m.session.state = .bonded
  window : m.session.hbMs = hb

variable (p d i s) in
/-- Slot `s` is in the bond when the tick looks whether it is due, nothing silences the
tick, and its sends succeed. -/
def InPace (hb : UInt32) : Prop :=
  InBond hb ((d.beginTick p i).lk.slots s) ∧ Releases p d i ∧ i.sendto s = messageSize

variable (p d i s) in
/-- Slot `s` transmits a frame in the tick. -/
def Transmits : Prop := ∃ now f, Event.send now f true ∈ d.events p i s

/-- A tick that finds a bond did not make or unmake the session. -/
theorem begin_inBond {hb : UInt32} (h : InBond hb ((d.beginTick p i).lk.slots s)) :
    (d.beginTick p i).lk.slots s = d.lk.slots s := by
  obtain ⟨ha, hs, -⟩ := h
  have he : (d.beginTick p i).lk.slots s =
      beginSlot p (d.beginReads i) i.sock i.bound s (d.lk.slots s) := rfl
  rw [he] at ha hs ⊢
  unfold beginSlot at ha hs ⊢
  dsimp only at ha hs ⊢
  by_cases hr : ((if (d.beginReads i).reconfigure s = true then
      slotApplyConfig p s ((d.beginReads i).peer s) (i.sock s) (i.bound s) (d.lk.slots s)
      else d.lk.slots s).active && (d.beginReads i).rebond s) = true
  · rw [if_pos hr] at hs
    cases hs
  rw [if_neg hr] at ha hs ⊢
  by_cases hc : (d.beginReads i).reconfigure s = true
  · rw [if_pos hc] at ha hs
    rcases slotApplyConfig_cases p s ((d.beginReads i).peer s) (i.sock s) (i.bound s)
      (d.lk.slots s) with ⟨hx, -⟩ | ⟨-, -, hx, -⟩
    · rw [hx] at ha
      cases ha
    · rw [hx] at hs
      cases hs
  · rw [if_neg hc]

theorem tick_lastSend (d : Device) (i : Tick) (s : Slot) :
    ((d.tick p i).lk.slots s).session.lastSendMs = (atPoll p d i s).session.lastSendMs := by
  rw [tick_slots, service_lastSend]

theorem Transmits.lastSend (h : Transmits p d i s) :
    ((d.tick p i).lk.slots s).session.lastSendMs = i.now := by
  obtain ⟨now, f, h⟩ := h
  obtain ⟨hr, hd, -, -, hok⟩ := (send_mem_events p d i).mp h
  rw [tick_lastSend, atPoll, if_pos ⟨hr, hd⟩, of_decide_eq_true hok.symm, commit_lastSend]

/-- In pace, a tick transmits exactly when the period is over. -/
theorem InPace.transmits_iff {hb : UInt32} (h : InPace p d i s hb) (hne : hb ≠ 0)
    (hle : (d.lk.slots s).session.lastSendMs ≤ i.now) :
    Transmits p d i s ↔
      (d.lk.slots s).session.lastSendMs.toNat + periodMs hb ≤ i.now.toNat := by
  obtain ⟨hbond, hr, hs⟩ := h
  have hb' := begin_inBond hbond
  have hdue : (d.beginTick p i).lk.due s = true ↔
      (d.lk.slots s).session.lastSendMs.toNat + periodMs hb ≤ i.now.toNat := by
    have he : (d.beginTick p i).lk.due s = (((d.beginTick p i).lk.slots s).active &&
        (((d.beginTick p i).lk.slots s).active &&
          pstopSessionDue ((d.beginTick p i).lk.slots s).session i.now)) := rfl
    have hw := sendPeriodMs_toNat (s := (d.lk.slots s).session)
      (by rw [← hb', hbond.window]; exact hne)
    rw [← hb', hbond.window] at hw
    rw [he, hbond.active, Bool.true_and, Bool.true_and, pstopSessionDue, hbond.bonded]
    simp only [decide_eq_true_eq, UInt64.le_iff_toNat_le, hw]
    rw [hb', UInt64.toNat_sub_of_le _ _ hle]
    have := UInt64.le_iff_toNat_le.mp hle
    omega
  rw [← hdue]
  constructor
  · rintro ⟨now, f, hf⟩
    exact ((send_mem_events p d i).mp hf).2.1
  · intro hd
    exact ⟨i.now, frameOf p d i s, (send_mem_events p d i).mpr
      ⟨hr, hd, rfl, rfl, (decide_eq_true hs).symm⟩⟩

/-- In pace, a tick that does not transmit leaves the stamp. -/
theorem InPace.quiet {hb : UInt32} (h : InPace p d i s hb) (hn : ¬ Transmits p d i s) :
    ((d.tick p i).lk.slots s).session.lastSendMs = (d.lk.slots s).session.lastSendMs := by
  obtain ⟨hbond, hr, hs⟩ := h
  have hd : ¬ (Releases p d i ∧ (d.beginTick p i).lk.due s = true) := by
    intro hd
    exact hn ⟨i.now, frameOf p d i s, (send_mem_events p d i).mpr
      ⟨hd.1, hd.2, rfl, rfl, (decide_eq_true hs).symm⟩⟩
  rw [tick_lastSend, atPoll, if_neg hd, begin_inBond hbond]

/-- From one tick to the next the clock goes on by at most `step`. -/
def Steps (step : ℕ) (ts : List Tick) : Prop :=
  ts.IsChain fun i j => i.now ≤ j.now ∧ j.now.toNat ≤ i.now.toNat + step

theorem Steps.last {step : ℕ} {ts : List Tick} {i j : Tick} (h : Steps step (ts ++ [i, j])) :
    i.now ≤ j.now ∧ j.now.toNat ≤ i.now.toNat + step :=
  (List.isChain_append_cons_cons.mp h).2.1

theorem Steps.left {step : ℕ} {ts us : List Tick} (h : Steps step (ts ++ us)) : Steps step ts :=
  (List.isChain_append.mp h).1

/-- While slot `s` keeps to its pace and transmits nothing after tick `i`, its stamp is
that of `i`, and the next tick is less than a period and a step after it. -/
theorem waits {b : Boot} {is js : List Tick} {hb : UInt32} {step : ℕ} (hne : hb ≠ 0)
    (hsend : Transmits p (after p b is) i s)
    (hpace : Each (fun before t => InPace p (after p b (is ++ i :: before)) t s hb) js)
    (hquiet : Each (fun before t => ¬ Transmits p (after p b (is ++ i :: before)) t s) js) :
    ((after p b (is ++ i :: js)).lk.slots s).session.lastSendMs = i.now ∧
      ∀ k, Steps step ((i :: js) ++ [k]) →
        i.now ≤ k.now ∧ k.now.toNat < i.now.toNat + periodMs hb + step := by
  induction js using List.reverseRecOn with
  | nil =>
    constructor
    · rw [after_concat]
      exact hsend.lastSend
    · intro k hk
      have hk' : Steps step ([] ++ [i, k]) := hk
      obtain ⟨hle, hstep⟩ := hk'.last
      have hpos : 0 < periodMs hb := by
        unfold periodMs
        omega
      exact ⟨hle, by omega⟩
  | append_singleton js t ih =>
    obtain ⟨hpace', ht⟩ := each_concat.mp hpace
    obtain ⟨hquiet', htq⟩ := each_concat.mp hquiet
    obtain ⟨hstamp, hnext⟩ := ih hpace' hquiet'
    constructor
    · have hafter : after p b (is ++ i :: (js ++ [t])) = (after p b (is ++ i :: js)).tick p t := by
        rw [← after_concat, List.append_assoc, List.cons_append]
      rw [hafter, ht.quiet htq, hstamp]
    · intro k hk
      have hk' : Steps step ((i :: js) ++ [t, k]) := by simpa using hk
      have hleft : Steps step (((i :: js) ++ [t]) ++ [k]) := by simpa using hk
      have hit : Steps step ((i :: js) ++ [t]) := hleft.left
      obtain ⟨hle, hstep⟩ := hk'.last
      have hi := (hnext t hit).1
      have hiff := ht.transmits_iff hne (by rw [hstamp]; exact hi)
      rw [hstamp] at hiff
      -- tick `t` found the period not over
      have hlt := mt hiff.mpr htq
      exact ⟨UInt64.le_trans hi hle, by omega⟩

/-- The event, if it is a transmitted BOND, comes 5 s or more after every other one since
the session was opened or rebonded. -/
def BondApart (past : List Event) (e : Event) : Prop :=
  ∀ t f, e = .send t f true → f.message = messageBond →
    ∀ t' f', Event.send t' f' true ∈ since Event.isReset past → f'.message = messageBond →
      t'.toNat + 5000 ≤ t.toNat

/-- The BONDs so far are apart, and the next one cannot come too early. -/
structure Spaced (m : MachineSlot) : Prop where
  each : Each BondApart m.log
  idle : m.active = true → m.session.state = .idle →
    ∀ t f, Event.send t f true ∈ since Event.isReset m.log → f.message ≠ messageBond
  bonding : m.active = true → m.session.state = .bonding →
    ∀ t f, Event.send t f true ∈ since Event.isReset m.log → f.message = messageBond →
      t ≤ m.session.lastBondMs

theorem bondApart_of_unsent {e : Event} (he : e.isSend = false) (past : List Event) :
    BondApart past e := by
  rintro t f rfl
  simp [Event.isSend] at he

/-- A session made anew has sent no BOND. -/
theorem Spaced.reset {m' : MachineSlot} {e : Event} (he : e.isReset = true)
    (h : Each BondApart m.log) (hl : m'.log = m.log ++ [e]) : Spaced m' := by
  have hs : e.isSend = false := by
    cases e <;> simp_all [Event.isReset, Event.isSend]
  constructor
  · rw [hl, each_concat]
    exact ⟨h, bondApart_of_unsent hs _⟩
  · intro _ _ t f ht
    rw [hl, since_concat_mark he] at ht
    simp at ht
  · intro _ _ t f ht
    rw [hl, since_concat_mark he] at ht
    simp at ht

theorem Spaced.config (h : Spaced m) (peer : Peer) (sock bound : Int) :
    Spaced (slotApplyConfig p s peer sock bound m) := by
  have hq (e : Event) (he : e.isSocketCall = true) := (isSocketCall_spec he).2.2
  rcases slotApplyConfig_cases p s peer sock bound m with
    ⟨ha, hg, -⟩ | ⟨-, ⟨mid, hg, hl⟩, -⟩
  · constructor
    · exact hg.each h.each fun past e he => bondApart_of_unsent (hq e he) past
    · intro h'
      rw [ha] at h'
      cases h'
    · intro h'
      rw [ha] at h'
      cases h'
  · exact .reset rfl (hg.each h.each fun past e he => bondApart_of_unsent (hq e he) past) hl

theorem Spaced.rebond (h : Spaced m) : Spaced (pstopSessionRebond p m) :=
  .reset rfl h.each rfl

/-- Frames that are polled can only end an attempt at bonding. -/
theorem Spaced.frame (h : Spaced m) (now : UInt64) (f : Frame) :
    Spaced (pollFrame p now m f) := by
  have hover {m' : MachineSlot} {e : Event} (he : e.isSend = false) (hl : m'.log = m.log ++ [e])
      (hi : m'.session.state ≠ .idle) (hb : m'.session.state ≠ .bonding) : Spaced m' := by
    constructor
    · rw [hl, each_concat]
      exact ⟨h.each, bondApart_of_unsent he _⟩
    · intro _ hs
      exact absurd hs hi
    · intro _ hs
      exact absurd hs hb
  rcases pollFrame_cases p now m f with he | ⟨-, hs, hl⟩ | ⟨-, -, hs, hl⟩
  · rwa [he]
  · exact hover rfl hl (by simp [hs]) (by simp [hs])
  · exact hover rfl hl (by simp [hs]) (by simp [hs])

theorem Spaced.poll (h : Spaced m) (now : UInt64) : Spaced (pstopSessionPoll p now m) := by
  apply poll_induction
  · intro m r hm
    exact ⟨hm.each, hm.idle, hm.bonding⟩
  · intro m f hm
    exact hm.frame now f
  · exact h

/-- The event that a send adds, and the BONDs then in the epoch. -/
theorem mem_since_send {t : UInt64} {f : Frame} {ok : Bool} {t' : UInt64} {f' : Frame}
    {log : List Event} (h : Event.send t' f' true ∈ since Event.isReset (log ++ [.send t f ok])) :
    Event.send t' f' true ∈ since Event.isReset log ∨ (t' = t ∧ f' = f ∧ ok = true) := by
  rw [since_concat_unmarked rfl] at h
  rcases List.mem_append.mp h with h | h
  · exact Or.inl h
  · obtain ⟨rfl, rfl, rfl⟩ := Event.send.inj (List.mem_singleton.mp h)
    exact Or.inr ⟨rfl, rfl, rfl⟩

/-- A send that is due comes 5 s or more after the last BOND of the epoch. -/
theorem Spaced.apart (h : Spaced m) (ha : m.active = true) (hdue : pstopSessionDue m.session now)
    (hst : Stamped now m) {f : Frame}
    (hf : m.session.state = .bonded → f.message ≠ messageBond) (ok : Bool) :
    BondApart m.log (.send now f ok) := by
  intro t g he hg t' f' ht' hf'
  obtain ⟨rfl, rfl, -⟩ := Event.send.inj he
  cases hs : m.session.state with
  | idle => exact absurd hf' (h.idle ha hs t' f' ht')
  | bonded => exact absurd hg (hf hs)
  | rejected =>
    rw [pstopSessionDue, hs] at hdue
    cases hdue
  | bonding =>
    have hle := UInt64.le_iff_toNat_le.mp (h.bonding ha hs t' f' ht' hf')
    have h5 : bondRetryMs.toNat = 5000 := rfl
    rw [pstopSessionDue, hs, decide_eq_true_eq, UInt64.le_iff_toNat_le,
      UInt64.toNat_sub_of_le _ _ hst.bond] at hdue
    omega

/-- A failed send leaves the state and its epoch's BONDs. -/
theorem Spaced.send_failed (h : Spaced m) (ha : m.active = true) {f : Frame} {n : Int}
    (hn : n ≠ messageSize) (hnew : BondApart m.log (.send now f (decide (n = messageSize)))) :
    Spaced (pstopSessionCommitSend f now n m) := by
  have hlog := commit_log f now n m
  have hses := commit_fail hn f now m
  rw [decide_eq_false hn] at hlog hnew
  have hmem (t' : UInt64) (f' : Frame) (ht : Event.send t' f' true ∈
      since Event.isReset (pstopSessionCommitSend f now n m).log) :
      Event.send t' f' true ∈ since Event.isReset m.log := by
    rw [hlog] at ht
    rcases mem_since_send ht with ht | ⟨-, -, ht⟩
    · exact ht
    · cases ht
  constructor
  · rw [hlog, each_concat]
    exact ⟨h.each, hnew⟩
  · intro _ hs t' f' ht
    rw [hses] at hs
    exact h.idle ha hs t' f' (hmem t' f' ht)
  · intro _ hs t' f' ht hf'
    rw [hses] at hs ⊢
    exact h.bonding ha hs t' f' (hmem t' f' ht) hf'

theorem Spaced.send_ok (h : Spaced m) (ha : m.active = true) (hst : Stamped now m) {f : Frame}
    (hnew : BondApart m.log (.send now f (decide (messageSize = messageSize)))) :
    Spaced (pstopSessionCommitSend f now messageSize m) := by
  have hlog := commit_log f now messageSize m
  have hstate := commit_state f now m
  constructor
  · rw [hlog, each_concat]
    exact ⟨h.each, hnew⟩
  · intro _ hs
    rw [hstate] at hs
    split at hs
    · cases hs
    · contradiction
  · intro _ hs t' f' ht hf'
    -- an idle or a bonding session stamps its BOND
    have hstamp : (pstopSessionCommitSend f now messageSize m).session.lastBondMs = now := by
      rw [hstate] at hs
      unfold pstopSessionCommitSend
      cases h : m.session.state <;> simp_all
    rw [hstamp]
    rw [hlog] at ht
    rcases mem_since_send ht with ht | ⟨rfl, -, -⟩
    · rw [hstate] at hs
      cases hm : m.session.state with
      | idle => exact absurd hf' (h.idle ha hm t' f' ht)
      | bonding => exact UInt64.le_trans (h.bonding ha hm t' f' ht hf') hst.bond
      | bonded => simp [hm] at hs
      | rejected => simp [hm] at hs
    · exact UInt64.le_refl _

theorem Spaced.send (h : Spaced m) (ha : m.active = true) (hdue : pstopSessionDue m.session now)
    (hst : Stamped now m) {f : Frame}
    (hf : m.session.state = .bonded → f.message ≠ messageBond) (n : Int) :
    Spaced (pstopSessionCommitSend f now n m) := by
  have hnew := h.apart ha hdue hst hf (decide (n = messageSize))
  by_cases hn : n = messageSize
  · subst hn
    exact h.send_ok ha hst hnew
  · exact h.send_failed ha hn hnew

end ZephyrApps.SessionPacing
