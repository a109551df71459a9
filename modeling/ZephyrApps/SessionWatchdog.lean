import ZephyrApps.LockstepTicks

/-!
# When the watchdog rebonds a session

A session is driven by calls that each come with the time of their tick. The window
that the machine advertises and the replies it has sent are read off the slot's log,
and the watchdog is compared with them after any calls in any order.
-/
namespace ZephyrApps.SessionWatchdog
open Pstop AppSettings EventHistories PstopSession LockstepComparator LockstepDevice LockstepTicks
  SystemRuns

/-- What the rest of the remote does to a session; `poll` comes with the datagrams that
arrived since the last one. -/
inductive SessionCall where
  | open (slot : Slot) (peer : Peer) (sock bound : Int)
  | close
  | config (slot : Slot) (peer : Peer) (sock bound : Int)
  | send (buf : Frame) (n : Int)
  | poll (arrived : List Datagram)
  | watchdog
  | rebond

variable (p : PstopC)

def call (m : MachineSlot) (x : UInt64 × SessionCall) : MachineSlot :=
  match x.2 with
  | .open slot peer sock bound => (pstopSessionOpen p slot peer sock bound m).1
  | .close => pstopSessionClose m
  | .config slot peer sock bound => slotApplyConfig p slot peer sock bound m
  | .send buf n => pstopSessionCommitSend buf x.1 n m
  | .poll arrived => pstopSessionPoll p x.1 { m with rx := m.rx ++ arrived }
  | .watchdog => pstopSessionWatchdog p x.1 m
  | .rebond => pstopSessionRebond p m

/-- The slot after calls on the zeroed statics, oldest first. -/
def called (calls : List (UInt64 × SessionCall)) : MachineSlot :=
  run (call p) MachineSlot.zeroed calls

def Ordered (calls : List (UInt64 × SessionCall)) : Prop :=
  calls.Pairwise fun x y => x.1 ≤ y.1

instance (calls : List (UInt64 × SessionCall)) : Decidable (Ordered calls) := by
  unfold Ordered; infer_instance

/-- The window that an accepted reply advertises, unless it is zero. -/
def window? : Event → Option UInt32
  | .reply _ msg => if msg.heartbeatTimeout = 0 then none else some msg.heartbeatTimeout
  | _ => none

/-- The last nonzero window advertised since the last open or rebond, or 0. -/
def advertised (log : List Event) : UInt32 :=
  ((since Event.isReset log).filterMap window?).getLast?.getD 0

def silenceMs (log : List Event) : ℕ := max 2500 (5 * (advertised log).toNat + 500)

/-- No reply was accepted within the window that ends now. -/
def Silent (log : List Event) (now : UInt64) : Prop :=
  ∀ t msg, Event.reply t msg ∈ log → t.toNat + silenceMs log ≤ now.toNat

theorem advertised_reset {e : Event} (he : e.isReset = true) (log : List Event) :
    advertised (log ++ [e]) = 0 := by
  rw [advertised, since_concat_mark he]
  rfl

theorem advertised_quiet {es : List Event}
    (hes : ∀ e ∈ es, e.isReset = false ∧ e.isReply = false) (log : List Event) :
    advertised (log ++ es) = advertised log := by
  have hw : es.filterMap window? = [] := by
    apply List.filterMap_eq_nil_iff.mpr
    intro e he
    have hr := (hes e he).2
    cases e <;> simp_all [window?, Event.isReply]
  rw [advertised, since_append_unmarked fun e he => (hes e he).1, List.filterMap_append, hw,
    List.append_nil, advertised]

theorem advertised_reply (log : List Event) (now : UInt64) (msg : Msg) :
    advertised (log ++ [.reply now msg]) =
      if msg.heartbeatTimeout ≠ 0 then msg.heartbeatTimeout else advertised log := by
  rw [advertised, since_concat_unmarked rfl, List.filterMap_append]
  by_cases h : msg.heartbeatTimeout = 0
  · simp [window?, h, advertised]
  · simp [window?, h]

/-- The session's window and its last reply are those of the log, which `now` ends. -/
structure Watched (now : UInt64) (m : MachineSlot) : Prop where
  window : m.session.hbMs = advertised m.log
  past : ∀ t msg, Event.reply t msg ∈ m.log → t ≤ now
  heard : m.session.state = .bonded → ∃ msg, Event.reply m.session.lastReplyMs msg ∈ m.log
  last : m.session.state = .bonded →
    ∀ t msg, Event.reply t msg ∈ m.log → t ≤ m.session.lastReplyMs

variable {p} {now now' : UInt64} {m m' : MachineSlot}

theorem Watched.later (h : Watched now m) (hn : now ≤ now') : Watched now' m where
  window := h.window
  past t msg ht := UInt64.le_trans (h.past t msg ht) hn
  heard := h.heard
  last := h.last

/-- An event that is neither a reset nor a reply, or no event at all. -/
theorem Watched.quiet (h : Watched now m) (es : List Event)
    (hes : ∀ e ∈ es, e.isReset = false ∧ e.isReply = false) (hl : m'.log = m.log ++ es)
    (hw : m'.session.hbMs = m.session.hbMs)
    (hs : m'.session.state = .bonded → m.session.state = .bonded)
    (hr : m'.session.lastReplyMs = m.session.lastReplyMs) : Watched now m' := by
  have hmem (t : UInt64) (msg : Msg) : Event.reply t msg ∈ m'.log ↔ Event.reply t msg ∈ m.log := by
    rw [hl, List.mem_append, or_iff_left]
    intro he
    simpa [Event.isReply] using (hes _ he).2
  constructor
  · rw [hw, h.window, hl, advertised_quiet hes]
  · intro t msg ht
    exact h.past t msg ((hmem t msg).mp ht)
  · intro hb
    obtain ⟨msg, hm⟩ := h.heard (hs hb)
    exact ⟨msg, (hmem _ _).mpr (hr ▸ hm)⟩
  · intro hb t msg ht
    rw [hr]
    exact h.last (hs hb) t msg ((hmem t msg).mp ht)

/-- Nothing that the invariant speaks of changed. -/
theorem Watched.congr (h : Watched now m) (hl : m'.log = m.log)
    (hw : m'.session.hbMs = m.session.hbMs) (hs : m'.session.state = m.session.state)
    (hr : m'.session.lastReplyMs = m.session.lastReplyMs) : Watched now m' :=
  h.quiet [] (by simp) (by simp [hl]) hw (fun hb => hs ▸ hb) hr

/-- A reset forgets the window, and nothing is bonded before the next reply. -/
theorem Watched.reset (h : Watched now m) {e : Event} (he : e.isReset = true)
    (hl : m'.log = m.log ++ [e]) (hw : m'.session.hbMs = 0) (hs : m'.session.state = .idle) :
    Watched now m' := by
  constructor
  · rw [hw, hl, advertised_reset he]
  · intro t msg ht
    rw [hl] at ht
    rcases List.mem_append.mp ht with ht | ht
    · exact h.past t msg ht
    · obtain rfl : e = .reply t msg := (List.mem_singleton.mp ht).symm
      cases he
  · intro hb
    simp [hs] at hb
  · intro hb
    simp [hs] at hb

theorem Watched.close (h : Watched now m) : Watched now (pstopSessionClose m) := by
  unfold pstopSessionClose
  split
  · exact h.quiet [.close m.session.sock] (by simp [Event.isReset, Event.isReply]) rfl rfl
      (fun hb => by simp at hb) rfl
  · exact h

theorem Watched.open (h : Watched now m) (slot : Slot) (peer : Peer) (sock bound : Int) :
    Watched now (pstopSessionOpen p slot peer sock bound m).1 := by
  unfold pstopSessionOpen
  dsimp only
  split
  case isTrue => exact h.congr rfl rfl rfl rfl
  case isFalse =>
    split
    case isTrue =>
      exact h.quiet [.socket sock, .close sock] (by simp [Event.isReset, Event.isReply])
        (by simp) rfl id rfl
    case isFalse =>
      have hsock : Watched now (m.record (.socket sock)) :=
        h.quiet [.socket sock] (by simp [Event.isReset, Event.isReply]) rfl rfl id rfl
      exact hsock.reset (e := .opened) rfl rfl rfl rfl

theorem Watched.config (h : Watched now m) (slot : Slot) (peer : Peer) (sock bound : Int) :
    Watched now (slotApplyConfig p slot peer sock bound m) := by
  apply slotApplyConfig_induction
  · intro m hm
    exact hm.close
  · intro m active fd hm
    exact hm.congr rfl rfl rfl rfl
  · intro m hm
    exact hm.open slot peer sock bound
  · exact h

theorem Watched.rebond (h : Watched now m) : Watched now (pstopSessionRebond p m) :=
  h.reset (e := .rebond) rfl rfl rfl rfl

theorem Watched.send (h : Watched now m) (buf : Frame) (t : UInt64) (n : Int) :
    Watched now (pstopSessionCommitSend buf t n m) := by
  refine h.quiet [.send t buf (decide (n = messageSize))]
    (by simp [Event.isReset, Event.isReply]) (commit_log buf t n m) ?_ ?_ ?_
  all_goals
    unfold pstopSessionCommitSend
    dsimp only
    split
  · rfl
  · cases m.session.state <;> rfl
  · exact id
  · cases hs : m.session.state <;> simp
  · rfl
  · cases m.session.state <;> rfl

theorem Watched.frame (h : Watched now m) (f : Frame) : Watched now (pollFrame p now m f) := by
  by_cases hv : Verifies p f
  swap
  · rwa [pollFrame_unverified hv]
  by_cases hu : (p.messageDecode f).message = messageUnbond
  · rw [pollFrame_unbond ⟨hv, hu⟩]
    exact h.quiet [.unbond] (by simp [Event.isReset, Event.isReply]) rfl rfl
      (fun hb => by simp at hb) rfl
  by_cases hs : m.session.state = .rejected
  · rwa [pollFrame_parked ⟨hv, hu⟩ hs]
  -- an accepted reply
  have hf : pollFrame p now m f = { m with
      session :=
        { m.session with
          proto :=
            { m.session.proto with
              lastReceivedCounter := (p.messageDecode f).counter
              lastReceivedStamp := (p.messageDecode f).stamp }
          lastReplyMs := now
          lastMsg := (p.messageDecode f).message
          replies := m.session.replies + 1
          hbMs := if (p.messageDecode f).heartbeatTimeout ≠ 0 then
            (p.messageDecode f).heartbeatTimeout else m.session.hbMs
          state := .bonded } }.record (.reply now (p.messageDecode f)) := by
    unfold Verifies at hv
    simp [pollFrame, hv, hu, hs]
  have hpast (t : UInt64) (msg : Msg)
      (ht : Event.reply t msg ∈ m.log ++ [.reply now (p.messageDecode f)]) : t ≤ now := by
    rcases List.mem_append.mp ht with ht | ht
    · exact h.past t msg ht
    · obtain ⟨rfl, -⟩ := Event.reply.inj (List.mem_singleton.mp ht)
      exact UInt64.le_refl _
  rw [hf]
  constructor
  · rw [record_session, record_log, advertised_reply, ← h.window]
  · exact hpast
  · intro _
    exact ⟨p.messageDecode f, by simp⟩
  · intro _
    exact hpast

theorem Watched.poll (h : Watched now m) : Watched now (pstopSessionPoll p now m) := by
  apply poll_induction
  · intro m r hm
    exact hm.congr rfl rfl rfl rfl
  · intro m f hm
    exact hm.frame f
  · exact h

theorem Watched.watchdog (h : Watched now m) (t : UInt64) :
    Watched now (pstopSessionWatchdog p t m) := by
  rcases watchdog_cases p t m with hw | ⟨-, hw⟩
  · rwa [hw]
  · rw [hw]
    exact h.rebond

/-- A call keeps the invariant, which moves on to the time of the call. -/
theorem Watched.call (h : Watched now m) (x : UInt64 × SessionCall) (hx : now ≤ x.1) :
    Watched x.1 (call p m x) := by
  have h' := h.later hx
  obtain ⟨t, c⟩ := x
  cases c with
  | «open» slot peer sock bound => exact h'.open slot peer sock bound
  | close => exact h'.close
  | config slot peer sock bound => exact h'.config slot peer sock bound
  | send buf n => exact h'.send buf t n
  | poll arrived =>
    have harrived : Watched t { m with rx := m.rx ++ arrived } := h'.congr rfl rfl rfl rfl
    exact harrived.poll
  | watchdog => exact h'.watchdog t
  | rebond => exact h'.rebond

/-- After any calls, at any time that is not before them. -/
theorem watched_called {calls : List (UInt64 × SessionCall)} (ho : Ordered calls)
    (hn : ∀ x ∈ calls, x.1 ≤ now) : Watched now (called p calls) := by
  induction calls using List.reverseRecOn generalizing now with
  | nil =>
    constructor
    · rfl
    · intro t msg ht
      simp [called, run, MachineSlot.zeroed] at ht
    · intro hb
      cases hb
    · intro hb
      cases hb
  | append_singleton calls x ih =>
    obtain ⟨ho', -, hx⟩ := List.pairwise_append.mp ho
    have hm : Watched x.1 (called p calls) := ih ho' fun y hy => hx y hy x (by simp)
    rw [called, run_concat]
    exact (hm.call x (UInt64.le_refl _)).later (hn x (by simp))

/-- Neither the product nor the sum leaves the 64 bits. -/
theorem rebondAfterMs_toNat (s : Session) :
    (pstopSessionRebondAfterMs s).toNat = max 2500 (5 * s.hbMs.toNat + 500) := by
  have hlt := s.hbMs.toNat_lt
  have hd : (s.hbMs.toUInt64 * rebondMachineMaxMissed + rebondJitterMarginMs).toNat =
      5 * s.hbMs.toNat + 500 := by
    have h5 : rebondMachineMaxMissed.toNat = 5 := rfl
    have h500 : rebondJitterMarginMs.toNat = 500 := rfl
    rw [UInt64.toNat_add, UInt64.toNat_mul, UInt32.toNat_toUInt64, h5, h500]
    omega
  have hf : rebondFloorMs.toNat = 2500 := rfl
  simp only [pstopSessionRebondAfterMs, UInt64.lt_iff_toNat_lt, hd, hf]
  split
  case isTrue h =>
    rw [hf]
    omega
  case isFalse h =>
    rw [hd]
    omega

theorem rebond_ne (m : MachineSlot) : pstopSessionRebond p m ≠ m := by
  intro h
  have hl := congrArg MachineSlot.log h
  simp at hl

/-- The watchdog rebonds a session exactly when it is bonded and no reply was accepted
within its window, and does nothing otherwise; none of its arithmetic wraps, and the
silence was longer than five windows of the machine. -/
theorem watchdog_rebonds_iff (p : PstopC) (calls : List (UInt64 × SessionCall))
    (ho : Ordered calls) (now : UInt64) (hn : ∀ x ∈ calls, x.1 ≤ now) :
    (pstopSessionWatchdog p now (called p calls) = pstopSessionRebond p (called p calls) ↔
      (called p calls).session.state = .bonded ∧ Silent (called p calls).log now) ∧
    (¬ ((called p calls).session.state = .bonded ∧ Silent (called p calls).log now) →
      pstopSessionWatchdog p now (called p calls) = called p calls) ∧
    (pstopSessionRebondAfterMs (called p calls).session).toNat = silenceMs (called p calls).log ∧
    ((called p calls).session.state = .bonded → (called p calls).session.lastReplyMs ≤ now ∧
      ∃ msg, Event.reply (called p calls).session.lastReplyMs msg ∈ (called p calls).log) ∧
    (pstopSessionWatchdog p now (called p calls) = pstopSessionRebond p (called p calls) →
      ∀ t msg, Event.reply t msg ∈ (called p calls).log →
        t.toNat + 5 * (advertised (called p calls).log).toNat < now.toNat) := by
  have h : Watched now (called p calls) := watched_called ho hn
  generalize called p calls = m at h ⊢
  have hafter : (pstopSessionRebondAfterMs m.session).toNat = silenceMs m.log := by
    rw [rebondAfterMs_toNat, h.window, silenceMs]
  have hlast (hb : m.session.state = .bonded) : m.session.lastReplyMs ≤ now := by
    obtain ⟨msg, hm⟩ := h.heard hb
    exact h.past _ msg hm
  -- the comparison of the code is that of the silence since the last reply
  have hcmp (hb : m.session.state = .bonded) :
      ¬ now - m.session.lastReplyMs < pstopSessionRebondAfterMs m.session ↔
        Silent m.log now := by
    have hle := UInt64.le_iff_toNat_le.mp (hlast hb)
    rw [UInt64.lt_iff_toNat_lt, UInt64.toNat_sub_of_le _ _ (hlast hb), hafter]
    constructor
    · intro hs t msg ht
      have htl := UInt64.le_iff_toNat_le.mp (h.last hb t msg ht)
      omega
    · intro hs
      obtain ⟨msg, hm⟩ := h.heard hb
      have hsm := hs _ msg hm
      omega
  have hiff : pstopSessionWatchdog p now m = pstopSessionRebond p m ↔
      m.session.state = .bonded ∧ Silent m.log now := by
    unfold pstopSessionWatchdog
    by_cases hb : m.session.state = .bonded
    · simp only [hb, ne_eq, not_true, if_false, true_and, ← hcmp hb]
      split
      case isTrue hlt => exact iff_of_false (Ne.symm (rebond_ne m)) (not_not.mpr hlt)
      case isFalse hlt => exact iff_of_true rfl hlt
    · simp only [ne_eq, hb, not_false_eq_true, if_true, false_and, iff_false]
      exact Ne.symm (rebond_ne m)
  refine ⟨hiff, ?_, hafter, fun hb => ⟨hlast hb, h.heard hb⟩, ?_⟩
  · intro hno
    rcases watchdog_cases p now m with hw | ⟨-, hw⟩
    · exact hw
    · exact absurd (hiff.mp hw) hno
  · intro hw t msg ht
    have hs := (hiff.mp hw).2 t msg ht
    rw [silenceMs] at hs
    omega

/-- Bonded at 200 with a window of 2 s, and nothing since. -/
def silentCalls : List (UInt64 × SessionCall) :=
  [(0, .config 0 (oneMachine.settings.peers 0) 3 0), (100, .send Frame.zero messageSize),
    (200, .poll [machineReply messageOk 2000]), (200, .watchdog)]

theorem watchdog_rebonds_iff_silent :
    (called reference silentCalls).session.state = .bonded ∧
      Silent (called reference silentCalls).log 10700 := by
  refine (watchdog_rebonds_iff reference silentCalls ?_ 10700 ?_).1.mp ?_
  · decide +kernel
  · simp [silentCalls]
  · decide +kernel

/-- A tick makes calls of its own time. -/
theorem tick_called (d : Device) (i : Tick) (s : Slot) :
    ∃ calls : List (UInt64 × SessionCall), (∀ x ∈ calls, x.1 = i.now) ∧
      (d.tick p i).lk.slots s = run (call p) (d.lk.slots s) calls := by
  let I (m : MachineSlot) : Prop := ∃ calls : List (UInt64 × SessionCall),
    (∀ x ∈ calls, x.1 = i.now) ∧ m = run (call p) (d.lk.slots s) calls
  have next {m : MachineSlot} (c : SessionCall) (h : I m) : I (call p m (i.now, c)) := by
    obtain ⟨calls, hc, rfl⟩ := h
    refine ⟨calls ++ [(i.now, c)], ?_, (run_concat _ _ _ _).symm⟩
    intro x hx
    rcases List.mem_append.mp hx with hx | hx
    · exact hc x hx
    · rw [List.mem_singleton.mp hx]
  refine tick_induction (I := I) ?_ ?_ ?_ ?_ ⟨[], by simp, rfl⟩
  · intro peer sock bound m hm
    exact next (.config s peer sock bound) hm
  · intro m hm
    exact next .rebond hm
  · intro _ hm
    exact next (.poll (i.arrivals s)) hm
  · intro _ hm
    exact next (.send (frameOf p d i s) (i.sendto s)) hm

/-- The session of a slot is driven by calls in the order of the ticks. -/
theorem slots_called (b : Boot) (is : List Tick) (s : Slot)
    (h : is.Pairwise fun i j => i.now ≤ j.now) :
    ∃ calls, Ordered calls ∧ (∀ x ∈ calls, x.1 = 0 ∨ ∃ i ∈ is, x.1 = i.now) ∧
      (after p b is).lk.slots s = called p calls := by
  induction is using List.reverseRecOn with
  | nil =>
    refine ⟨[(0, .config s (b.settings.peers s) (b.sock s) (b.bound s))], ?_, by simp, rfl⟩
    exact List.pairwise_singleton _ _
  | append_singleton is i ih =>
    obtain ⟨his, -, hle⟩ := List.pairwise_append.mp h
    obtain ⟨calls, ho, ht, he⟩ := ih his
    obtain ⟨calls', ht', he'⟩ := tick_called (p := p) (after p b is) i s
    refine ⟨calls ++ calls', ?_, ?_, ?_⟩
    · refine List.pairwise_append.mpr ⟨ho, ?_, ?_⟩
      · apply List.Pairwise.imp_of_mem _ (List.pairwise_of_forall (R := fun _ _ => True) (by simp))
        intro x y hx hy _
        rw [ht' x hx, ht' y hy]
        exact UInt64.le_refl _
      · intro x hx y hy
        rw [ht' y hy]
        rcases ht x hx with h0 | ⟨j, hj, hxj⟩
        · rw [h0]
          exact UInt64.zero_le
        · rw [hxj]
          exact hle j hj i (by simp)
    · intro x hx
      rcases List.mem_append.mp hx with hx | hx
      · exact (ht x hx).imp_right fun ⟨j, hj, hxj⟩ => ⟨j, by simp [hj], hxj⟩
      · exact Or.inr ⟨i, by simp, ht' x hx⟩
    · rw [after_concat, he', he, called, called, run, run, run, List.foldl_append]

end ZephyrApps.SessionWatchdog
