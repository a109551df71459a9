import ZephyrApps.SessionEndpoints

/-!
# The sockets of the sessions

What is open in the network stack on behalf of the sessions: each descriptor with
the port it is bound to. A reconfigure closes a slot's socket and opens another, and
may fail at either call; init and every run of ticks keep exactly the sockets of the
active slots open, each bound to its slot's port.
-/
namespace ZephyrApps.SessionSockets
open Pstop AppSettings ControlPlane PstopSession LockstepComparator LockstepDevice LockstepTicks
  SessionEndpoints SystemRuns EventHistories

/-- A descriptor that is open, and the port it is bound to if it is bound. -/
inductive Descriptor where
  | unbound
  | bound (port : UInt16)
  deriving DecidableEq

/-- The open descriptors, and whether one was closed that was not open. -/
structure Sockets where
  fds : Int → Option Descriptor
  misused : Bool

/-- `zsock_socket` returned `fd`. -/
def Sockets.socket (σ : Sockets) (fd : Int) : Sockets :=
  if fd < 0 then σ else { σ with fds := Function.update σ.fds fd (some .unbound) }

/-- `zsock_bind` of `fd` to `port` returned `ret`. -/
def Sockets.bind (σ : Sockets) (fd : Int) (port : UInt16) (ret : Int) : Sockets :=
  if ret < 0 then σ else { σ with fds := Function.update σ.fds fd (some (.bound port)) }

/-- `zsock_close` -/
def Sockets.close (σ : Sockets) (fd : Int) : Sockets where
  fds := Function.update σ.fds fd none
  misused := σ.misused || (σ.fds fd).isNone

@[simp] theorem close_fds (σ : Sockets) (fd : Int) :
    (σ.close fd).fds = Function.update σ.fds fd none := rfl

/-- `zsock_socket` never returns a descriptor that is open. -/
def Sockets.Fresh (σ : Sockets) (fd : Int) : Prop := 0 ≤ fd → σ.fds fd = none

instance (σ : Sockets) (fd : Int) : Decidable (σ.Fresh fd) := by
  unfold Sockets.Fresh
  infer_instance

/-- `PSTOP_LOCAL_PORT + slot`; `base` is the Kconfig option. -/
def localPort (base : UInt16) (slot : Slot) : UInt16 := base + slot.val.toUInt16

theorem localPort_injective (base : UInt16) {s t : Slot} (h : localPort base s = localPort base t) :
    s = t := by
  have hv : s.val.toUInt16 = t.val.toUInt16 := by simpa [localPort] using h
  clear h
  revert s t
  decide

variable (base : UInt16) (p : PstopC)

/-- What an event of a session is to the network stack; `fd` is the session's socket after it. -/
def Sockets.follow (port : UInt16) (fd : Int) (σ : Sockets) : Event → Sockets
  | .socket sock => σ.socket sock
  | .close sock => σ.close sock
  | .opened => σ.bind fd port 0
  | _ => σ

/-- The socket calls that a slot has logged on its way from `m` to `m'`. -/
def Sockets.since (slot : Slot) (m m' : MachineSlot) (σ : Sockets) : Sockets :=
  (m'.log.drop m.log.length).foldl (Sockets.follow (localPort base slot) m'.session.sock) σ

/-- What `slot_apply_config` has closed before it opens. -/
def closed (m : MachineSlot) : MachineSlot := if m.active then pstopSessionClose m else m

def closedSockets (slot : Slot) (m : MachineSlot) (σ : Sockets) : Sockets :=
  σ.since base slot m (closed m)

/-- The socket calls of `slot_apply_config`. -/
def configSockets (slot : Slot) (peer : Peer) (sock bound : Int) (m : MachineSlot)
    (σ : Sockets) : Sockets :=
  σ.since base slot m (slotApplyConfig p slot peer sock bound m)

/-- The descriptors against the slots, of which those in `ready` have been configured
since boot. -/
structure Owned (ready : Slot → Prop) (slots : Slot → MachineSlot) (σ : Sockets) : Prop where
  live : ∀ s, (slots s).active = true → 0 ≤ (slots s).session.sock ∧
    σ.fds (slots s).session.sock = some (.bound (localPort base s))
  idle : ∀ s, ready s → (slots s).active = false → (slots s).session.sock = -1
  owner : ∀ fd, σ.fds fd ≠ none → ∃ s, (slots s).active = true ∧ (slots s).session.sock = fd
  safe : σ.misused = false

variable {base} {ready : Slot → Prop} {slots : Slot → MachineSlot} {σ : Sockets}

/-- Two active slots do not share a descriptor: it is bound to one port. -/
theorem Owned.distinct (h : Owned base ready slots σ) {s t : Slot}
    (hs : (slots s).active = true) (ht : (slots t).active = true)
    (he : (slots s).session.sock = (slots t).session.sock) : s = t := by
  have h1 := (h.live s hs).2
  have h2 := (h.live t ht).2
  rw [he, h2] at h1
  exact (localPort_injective base (Descriptor.bound.inj (Option.some.inj h1))).symm

theorem Owned.congr {slots' : Slot → MachineSlot} (h : Owned base ready slots σ)
    (ha : ∀ s, (slots' s).active = (slots s).active)
    (hk : ∀ s, (slots' s).session.sock = (slots s).session.sock) : Owned base ready slots' σ := by
  constructor
  · intro s hs
    rw [hk]
    exact h.live s ((ha s).symm.trans hs)
  · intro s hr hs
    rw [hk]
    exact h.idle s hr ((ha s).symm.trans hs)
  · intro fd hfd
    obtain ⟨s, hs, hsock⟩ := h.owner fd hfd
    exact ⟨s, (ha s).trans hs, (hk s).trans hsock⟩
  · exact h.safe

theorem closed_log (m : MachineSlot) :
    (closed m).log = m.log ++
      if m.active = true ∧ 0 ≤ m.session.sock then [.close m.session.sock] else [] := by
  unfold closed pstopSessionClose
  cases m.active with
  | false => simp
  | true =>
    by_cases h0 : 0 ≤ m.session.sock
    · simp [h0, MachineSlot.record]
    · simp [h0]

/-- The calls that `slot_apply_config` logs: a close, and then those of an open that fails at one of
its two calls or at none. -/
theorem config_log (s : Slot) (peer : Peer) (sock bound : Int) (m : MachineSlot) :
    (slotApplyConfig p s peer sock bound m).log = (closed m).log ++
      if peer.configured = true ∧ 0 ≤ sock then
        if 0 ≤ bound then [.socket sock, .opened] else [.socket sock, .close sock]
      else [] := by
  rw [slotApplyConfig, ← closed]
  generalize closed m = m
  cases peer.configured with
  | false => simp
  | true =>
    by_cases hs : sock < 0
    · simp [pstopSessionOpen, hs, Int.not_le.mpr hs]
    · by_cases hb : bound < 0
      · simp [pstopSessionOpen, hs, hb, Int.not_lt.mp hs, Int.not_le.mpr hb, MachineSlot.record]
      · simp [pstopSessionOpen, hs, hb, Int.not_lt.mp hs, Int.not_lt.mp hb, MachineSlot.record]

theorem closedSockets_eq (s : Slot) (m : MachineSlot) (σ : Sockets) :
    closedSockets base s m σ =
      if m.active = true ∧ 0 ≤ m.session.sock then σ.close m.session.sock else σ := by
  rw [closedSockets, Sockets.since, closed_log, List.drop_left]
  split <;> rfl

/-- A reconfigured slot owns the new socket, or is inactive without one. -/
theorem config_sock (s : Slot) (peer : Peer) (sock bound : Int) (m : MachineSlot) :
    let m' := slotApplyConfig p s peer sock bound m
    (peer.configured = true ∧ 0 ≤ sock ∧ 0 ≤ bound → m'.active = true ∧ m'.session.sock = sock) ∧
    (¬ (peer.configured = true ∧ 0 ≤ sock ∧ 0 ≤ bound) →
      m'.active = false ∧ m'.session.sock = -1) := by
  unfold slotApplyConfig
  dsimp only
  cases peer.configured with
  | false => simp
  | true =>
    by_cases hs : sock < 0
    · simp [pstopSessionOpen, hs]
    · by_cases hb : bound < 0
      · simp [pstopSessionOpen, hs, hb]
      · simp [pstopSessionOpen, hs, hb]

/-- With a fresh descriptor a reconfigure leaves the bound socket, or nothing but the close. -/
theorem configSockets_eq {slot : Slot} {peer : Peer} {sock : Int} {m : MachineSlot}
    (hf : peer.configured = true → (closedSockets base slot m σ).Fresh sock) (bound : Int) :
    configSockets base p slot peer sock bound m σ =
      let σ := closedSockets base slot m σ
      if peer.configured = true ∧ 0 ≤ sock ∧ 0 ≤ bound then
        { σ with fds := Function.update σ.fds sock (some (.bound (localPort base slot))) }
      else σ := by
  have hsplit : configSockets base p slot peer sock bound m σ =
      (if peer.configured = true ∧ 0 ≤ sock then
        if 0 ≤ bound then [.socket sock, .opened] else [.socket sock, .close sock]
      else []).foldl (Sockets.follow (localPort base slot)
        (slotApplyConfig p slot peer sock bound m).session.sock) (closedSockets base slot m σ) := by
    rw [configSockets, Sockets.since, config_log, closed_log, List.append_assoc, List.drop_left,
      List.foldl_append, closedSockets_eq]
    split <;> rfl
  rw [hsplit]
  generalize closedSockets base slot m σ = σ at hf
  by_cases hs : peer.configured = true ∧ 0 ≤ sock
  · have hnone : σ.fds sock = none := hf hs.1 hs.2
    rw [if_pos hs]
    by_cases hb : 0 ≤ bound
    · have hsock := ((config_sock p slot peer sock bound m).1 ⟨hs.1, hs.2, hb⟩).2
      simp [hs, hb, hsock, Sockets.follow, Sockets.socket, Sockets.bind, Int.not_lt.mpr hs.2]
    · -- the socket is closed again
      simp only [hb, if_false, and_false, List.foldl_cons, List.foldl_nil, Sockets.follow,
        Sockets.socket, Int.not_lt.mpr hs.2, Sockets.close, Function.update_self,
        Function.update_idem, Option.isNone_some, Bool.or_false]
      rw [← hnone, Function.update_eq_self]
  · have hno : ¬ (peer.configured = true ∧ 0 ≤ sock ∧ 0 ≤ bound) := fun h => hs ⟨h.1, h.2.1⟩
    rw [if_neg hs, if_neg hno]
    rfl

def closedSlot (m : MachineSlot) : MachineSlot :=
  { m with active := false, session := { m.session with sock := -1 } }

theorem Owned.close (h : Owned base ready slots σ) (s : Slot) :
    Owned base (fun t => ready t ∨ t = s) (Function.update slots s (closedSlot (slots s)))
      (closedSockets base s (slots s) σ) := by
  have hidle : ∀ t, ready t ∨ t = s →
      (Function.update slots s (closedSlot (slots s)) t).active = false →
        (Function.update slots s (closedSlot (slots s)) t).session.sock = -1 := by
    intro t hr ha
    by_cases ht : t = s
    · subst ht
      simp [closedSlot]
    · rw [Function.update_of_ne ht] at ha ⊢
      exact h.idle t (hr.resolve_right ht) ha
  cases hs : (slots s).active with
  | false =>
    have hc : closedSockets base s (slots s) σ = σ := by simp [closedSockets_eq, hs]
    rw [hc]
    refine ⟨fun t ha => ?_, hidle, fun fd hfd => ?_, h.safe⟩
    · by_cases ht : t = s
      · subst ht
        simp [closedSlot] at ha
      · rw [Function.update_of_ne ht] at ha ⊢
        exact h.live t ha
    · obtain ⟨t, ha, hk⟩ := h.owner fd hfd
      have ht : t ≠ s := fun he => by simp [he, hs] at ha
      exact ⟨t, by rwa [Function.update_of_ne ht], by rwa [Function.update_of_ne ht]⟩
  | true =>
    obtain ⟨h0, hopen⟩ := h.live s hs
    have hc : closedSockets base s (slots s) σ = σ.close (slots s).session.sock := by
      simp [closedSockets_eq, hs, h0]
    rw [hc]
    refine ⟨fun t ha => ?_, hidle, fun fd hfd => ?_, ?_⟩
    · by_cases ht : t = s
      · subst ht
        simp [closedSlot] at ha
      · rw [Function.update_of_ne ht] at ha ⊢
        have hne : (slots t).session.sock ≠ (slots s).session.sock :=
          fun he => ht (h.distinct ha hs he)
        refine ⟨(h.live t ha).1, ?_⟩
        rw [close_fds, Function.update_of_ne hne]
        exact (h.live t ha).2
    · have hne : fd ≠ (slots s).session.sock := fun he => by simp [Sockets.close, he] at hfd
      rw [close_fds, Function.update_of_ne hne] at hfd
      obtain ⟨t, ha, hk⟩ := h.owner fd hfd
      have ht : t ≠ s := fun he => hne (by rw [← hk, he])
      exact ⟨t, by rwa [Function.update_of_ne ht], by rwa [Function.update_of_ne ht]⟩
    · simp [Sockets.close, hopen, h.safe]

/-- Opening makes an inactive slot active with a fresh descriptor. -/
theorem Owned.open (h : Owned base ready slots σ) {s : Slot} (hs : (slots s).active = false)
    {m : MachineSlot} {fd : Int} (h0 : 0 ≤ fd) (hfd : σ.fds fd = none) (hm : m.active = true)
    (hk : m.session.sock = fd) :
    Owned base ready (Function.update slots s m)
      { σ with fds := Function.update σ.fds fd (some (.bound (localPort base s))) } := by
  refine ⟨fun t ha => ?_, fun t hr ha => ?_, fun fd' hfd' => ?_, h.safe⟩
  · by_cases ht : t = s
    · subst ht
      simp [hk, h0]
    · rw [Function.update_of_ne ht] at ha ⊢
      obtain ⟨h0', hopen⟩ := h.live t ha
      have hne : (slots t).session.sock ≠ fd := fun he => by simp [he, hfd] at hopen
      exact ⟨h0', by simpa [Function.update_of_ne hne] using hopen⟩
  · by_cases ht : t = s
    · subst ht
      simp [hm] at ha
    · rw [Function.update_of_ne ht] at ha ⊢
      exact h.idle t hr ha
  · by_cases he : fd' = fd
    · exact ⟨s, by simp [hm], by simp [hk, he]⟩
    · simp only [Function.update_of_ne he] at hfd'
      obtain ⟨t, ha, hk'⟩ := h.owner fd' hfd'
      have ht : t ≠ s := fun he => by simp [he, hs] at ha
      exact ⟨t, by rwa [Function.update_of_ne ht], by rwa [Function.update_of_ne ht]⟩

/-- A reconfigure keeps the slots the owners of the open sockets, whichever of its
calls fails. -/
theorem Owned.config (h : Owned base ready slots σ) (s : Slot) (peer : Peer) {sock : Int}
    (bound : Int) (hf : peer.configured = true → (closedSockets base s (slots s) σ).Fresh sock) :
    Owned base (fun t => ready t ∨ t = s)
      (Function.update slots s (slotApplyConfig p s peer sock bound (slots s)))
      (configSockets base p s peer sock bound (slots s) σ) := by
  have hclose := h.close s
  obtain ⟨hon, hoff⟩ := config_sock p s peer sock bound (slots s)
  by_cases hc : peer.configured = true ∧ 0 ≤ sock ∧ 0 ≤ bound
  · obtain ⟨ha, hk⟩ := hon hc
    have hopen := hclose.open (s := s) (by simp [closedSlot]) hc.2.1 (hf hc.1 hc.2.1) ha hk
    rw [Function.update_idem] at hopen
    rw [configSockets_eq p hf]
    dsimp only
    rwa [if_pos hc]
  · obtain ⟨ha, hk⟩ := hoff hc
    rw [configSockets_eq p hf]
    dsimp only
    rw [if_neg hc]
    refine hclose.congr (fun t => ?_) fun t => ?_
    · by_cases ht : t = s
      · subst ht
        simp [ha, closedSlot]
      · rw [Function.update_of_ne ht, Function.update_of_ne ht]
    · by_cases ht : t = s
      · subst ht
        simp [hk, closedSlot]
      · rw [Function.update_of_ne ht, Function.update_of_ne ht]

variable (base)

def configRound (r : BeginReads) (sock bound : Slot → Int) (x : (Slot → MachineSlot) × Sockets)
    (s : Slot) : (Slot → MachineSlot) × Sockets :=
  if r.reconfigure s then
    (Function.update x.1 s (slotApplyConfig p s (r.peer s) (sock s) (bound s) (x.1 s)),
      configSockets base p s (r.peer s) (sock s) (bound s) (x.1 s) x.2)
  else x

/-- A round that opens a socket gets a descriptor that is not open. -/
def FreshCall (r : BeginReads) (sock : Slot → Int) (x : (Slot → MachineSlot) × Sockets)
    (s : Slot) : Prop :=
  r.reconfigure s = true → (r.peer s).configured = true →
    (closedSockets base s (x.1 s) x.2).Fresh (sock s)

instance (r : BeginReads) (sock : Slot → Int) (x : (Slot → MachineSlot) × Sockets) (s : Slot) :
    Decidable (FreshCall base r sock x s) := by
  unfold FreshCall
  infer_instance

/-- The loops of `pstop_lockstep_init` and of `begin_tick` over the slots. -/
def configLoop (r : BeginReads) (sock bound : Slot → Int) (x : (Slot → MachineSlot) × Sockets) :
    (Slot → MachineSlot) × Sockets :=
  run (configRound base p r sock bound) x (List.finRange 4)

def FreshCalls (r : BeginReads) (sock bound : Slot → Int) (x : (Slot → MachineSlot) × Sockets) :
    Prop :=
  Meets (configRound base p r sock bound) (FreshCall base r sock) x (List.finRange 4)

instance (r : BeginReads) (sock bound : Slot → Int) (x : (Slot → MachineSlot) × Sockets) :
    Decidable (FreshCalls base p r sock bound x) := by
  unfold FreshCalls
  infer_instance

/-- The rounds do not meet, so a slot goes through its own. -/
theorem configRounds_slots (r : BeginReads) (sock bound : Slot → Int) (order : List Slot)
    (hn : order.Nodup) (x : (Slot → MachineSlot) × Sockets) :
    (run (configRound base p r sock bound) x order).1 = fun s =>
      if s ∈ order ∧ r.reconfigure s = true then
        slotApplyConfig p s (r.peer s) (sock s) (bound s) (x.1 s)
      else x.1 s := by
  induction order generalizing x with
  | nil => simp [run]
  | cons s order ih =>
    obtain ⟨hs, hn⟩ := List.nodup_cons.mp hn
    change (run (configRound base p r sock bound) (configRound base p r sock bound x s) order).1 = _
    rw [ih hn]
    funext t
    by_cases ht : t = s
    · subst ht
      cases hr : r.reconfigure t <;> simp [configRound, hr, hs]
    · cases hr : r.reconfigure s <;> simp [configRound, hr, ht]

theorem configLoop_slots (r : BeginReads) (sock bound : Slot → Int)
    (x : (Slot → MachineSlot) × Sockets) (s : Slot) :
    (configLoop base p r sock bound x).1 s =
      if r.reconfigure s = true then slotApplyConfig p s (r.peer s) (sock s) (bound s) (x.1 s)
      else x.1 s := by
  rw [configLoop, configRounds_slots base p r sock bound _ (List.nodup_finRange 4)]
  simp

variable {base p}

theorem Owned.mono {ready' : Slot → Prop} (h : Owned base ready slots σ)
    (hr : ∀ s, ready' s → ready s) : Owned base ready' slots σ :=
  ⟨h.live, fun s hs => h.idle s (hr s hs), h.owner, h.safe⟩

/-- The loop keeps the owners, and configures the slots that were requested. -/
theorem Owned.loop {r : BeginReads} {sock bound : Slot → Int}
    {x : (Slot → MachineSlot) × Sockets} (h : Owned base ready x.1 x.2)
    (hf : FreshCalls base p r sock bound x) :
    Owned base (fun s => ready s ∨ r.reconfigure s = true)
      (configLoop base p r sock bound x).1 (configLoop base p r sock bound x).2 := by
  have hrun := run_invariant
    (I := fun is (x : (Slot → MachineSlot) × Sockets) =>
      Owned base (fun s => ready s ∨ (s ∈ is ∧ r.reconfigure s = true)) x.1 x.2)
    (h.mono fun s hs => hs.resolve_right (by simp)) ?_ (List.finRange 4) hf
  · exact hrun.mono fun s hs => hs.imp_right fun hr => ⟨List.mem_finRange s, hr⟩
  · intro is s ih hc
    generalize run (configRound base p r sock bound) x is = y at ih hc
    cases hr : r.reconfigure s with
    | false =>
      have hround : configRound base p r sock bound y s = y := by simp [configRound, hr]
      rw [hround]
      refine ih.mono fun t ht => ht.imp_right fun ⟨hm, hrt⟩ => ⟨?_, hrt⟩
      rcases List.mem_append.mp hm with hm | hm
      · exact hm
      · rw [List.mem_singleton.mp hm, hr] at hrt
        exact absurd hrt (by decide)
    | true =>
      have hround : configRound base p r sock bound y s =
          (Function.update y.1 s (slotApplyConfig p s (r.peer s) (sock s) (bound s) (y.1 s)),
            configSockets base p s (r.peer s) (sock s) (bound s) (y.1 s) y.2) := by
        simp [configRound, hr]
      rw [hround]
      refine (ih.config p s (r.peer s) (bound s) (hc hr)).mono fun t ht => ?_
      rcases ht with ht | ⟨hm, hrt⟩
      · exact Or.inl (Or.inl ht)
      · rcases List.mem_append.mp hm with hm | hm
        · exact Or.inl (Or.inr ⟨hm, hrt⟩)
        · exact Or.inr (List.mem_singleton.mp hm)

/-- A session as an open leaves it: idle, everything zero, for this slot and peer. -/
structure FreshSession (slot : Slot) (peer : Peer) (s : Session) : Prop where
  slot : s.slot = slot
  addressed : s.peerAddr = peer.ip ∧ s.peerPort = peer.port ∧ s.peerId = peer.id ∧
    s.proto.remoteId = peer.id
  idle : s.state = .idle
  heartbeat : s.hbMs = 0
  stamps : s.lastSendMs = 0 ∧ s.lastReplyMs = 0 ∧ s.lastBondMs = 0 ∧
    s.proto.lastReceivedStamp = 0
  counters : s.sent = 0 ∧ s.replies = 0 ∧ s.sendFail = 0 ∧ s.rebonds = 0 ∧ s.unbonds = 0 ∧
    s.proto.msgCounter = 0 ∧ s.proto.lastReceivedCounter = 0

theorem config_fresh (hp : p.StartsAtZero) {s : Slot} {peer : Peer} {sock bound : Int}
    {m : MachineSlot} (h : (slotApplyConfig p s peer sock bound m).active = true) :
    FreshSession s peer (slotApplyConfig p s peer sock bound m).session := by
  obtain ⟨-, hoff⟩ := config_sock p s peer sock bound m
  have hc : peer.configured = true ∧ 0 ≤ sock ∧ 0 ≤ bound := by
    by_contra hn
    rw [(hoff hn).1] at h
    exact Bool.false_ne_true h
  have hs : ¬ sock < 0 := by omega
  have hb : ¬ bound < 0 := by omega
  simp only [slotApplyConfig, pstopSessionOpen, hc.1, hs, hb, Bool.not_true, Bool.false_eq_true,
    if_false, if_true]
  exact ⟨rfl, ⟨rfl, rfl, rfl, rfl⟩, rfl, rfl, ⟨rfl, rfl, rfl, hp.stamp _⟩,
    ⟨rfl, rfl, rfl, rfl, rfl, hp.counter _, hp.received _⟩⟩

variable (base p)

structure Connected where
  dev : Device
  net : Sockets

/-- `pstop_lockstep_init` configures every slot. -/
def bootReads (b : Boot) : BeginReads :=
  ⟨fun _ => true, fun _ => false, b.settings.peers, b.settings.isOperator⟩

def beforeInit : (Slot → MachineSlot) × Sockets :=
  (fun _ => MachineSlot.zeroed, ⟨fun _ => none, false⟩)

def Connected.boot (b : Boot) : Connected :=
  ⟨b.device p, (configLoop base p (bootReads b) b.sock b.bound beforeInit).2⟩

/-- The socket calls of `begin_tick`; the rest of a tick makes none. -/
def Connected.beginNet (x : Connected) (i : Tick) : Sockets :=
  (configLoop base p (x.dev.beginReads i) i.sock i.bound (x.dev.lk.slots, x.net)).2

def Connected.tick (x : Connected) (i : Tick) : Connected := ⟨x.dev.tick p i, x.beginNet base p i⟩

/-- Every `zsock_socket` of the tick that succeeds returns a descriptor not yet open. -/
def Connected.FreshTick (x : Connected) (i : Tick) : Prop :=
  FreshCalls base p (x.dev.beginReads i) i.sock i.bound (x.dev.lk.slots, x.net)

instance (x : Connected) (i : Tick) : Decidable (x.FreshTick base p i) := by
  unfold Connected.FreshTick
  infer_instance

def FreshRun (b : Boot) (is : List Tick) : Prop :=
  FreshCalls base p (bootReads b) b.sock b.bound beforeInit ∧
    Meets (Connected.tick base p) (Connected.FreshTick base p) (Connected.boot base p b) is

instance (b : Boot) (is : List Tick) : Decidable (FreshRun base p b is) := by
  unfold FreshRun
  infer_instance

def connected (b : Boot) (is : List Tick) : Connected :=
  run (Connected.tick base p) (Connected.boot base p b) is

/-- Exactly the sockets of the active slots are open, one for each, bound to its port;
no descriptor was closed that was not open. -/
structure Owns (slots : Slot → MachineSlot) (σ : Sockets) : Prop where
  active : ∀ s, (slots s).active = true ↔ 0 ≤ (slots s).session.sock ∧
    σ.fds (slots s).session.sock = some (.bound (localPort base s))
  idle : ∀ s, (slots s).active = false → (slots s).session.sock = -1
  exact : ∀ fd, (σ.fds fd).isSome = true ↔
    ∃ s, (slots s).active = true ∧ (slots s).session.sock = fd
  distinct : ∀ s t, (slots s).active = true → (slots t).active = true →
    (slots s).session.sock = (slots t).session.sock → s = t
  safe : σ.misused = false

variable {base p}

theorem Owned.owns (h : Owned base (fun _ => True) slots σ) : Owns base slots σ where
  active s := by
    refine ⟨h.live s, fun hs => ?_⟩
    cases ha : (slots s).active with
    | true => rfl
    | false =>
      have hk := h.idle s trivial ha
      omega
  idle s := h.idle s trivial
  exact fd := by
    constructor
    · intro hfd
      exact h.owner fd (Option.isSome_iff_ne_none.mp hfd)
    · rintro ⟨s, ha, rfl⟩
      rw [(h.live s ha).2]
      rfl
  distinct s t hs ht := h.distinct hs ht
  safe := h.safe

theorem owned_boot (b : Boot) (hf : FreshCalls base p (bootReads b) b.sock b.bound beforeInit) :
    Owned base (fun _ => True) (b.device p).lk.slots (Connected.boot base p b).net := by
  have hstart : Owned base (fun _ => False) beforeInit.1 beforeInit.2 :=
    ⟨fun s h => by simp [beforeInit, MachineSlot.zeroed] at h, fun s h => h.elim,
      fun fd h => by simp [beforeInit] at h, rfl⟩
  have hloop := (hstart.loop hf).mono fun s (_ : True) => Or.inr rfl
  have hslots : (configLoop base p (bootReads b) b.sock b.bound beforeInit).1 =
      (b.device p).lk.slots := by
    funext s
    rw [configLoop_slots]
    rfl
  rwa [hslots] at hloop

theorem Owned.begin {x : Connected} {i : Tick}
    (h : Owned base (fun _ => True) x.dev.lk.slots x.net) (hf : x.FreshTick base p i) :
    Owned base (fun _ => True) (x.dev.beginTick p i).lk.slots (x.beginNet base p i) := by
  have hloop := (h.loop hf).mono fun s (_ : True) => Or.inl trivial
  have he (s : Slot) : endpoint ((x.dev.beginTick p i).lk.slots s) =
      endpoint ((configLoop base p (x.dev.beginReads i) i.sock i.bound
        (x.dev.lk.slots, x.net)).1 s) := by
    rw [configLoop_slots]
    exact endpoint_beginSlot p (x.dev.beginReads i) i.sock i.bound s (x.dev.lk.slots s)
  exact hloop.congr (fun s => congrArg Endpoint.active (he s)) fun s =>
    congrArg Endpoint.sock (he s)

theorem Owned.tick {x : Connected} {i : Tick}
    (h : Owned base (fun _ => True) x.dev.lk.slots x.net) (hf : x.FreshTick base p i) :
    Owned base (fun _ => True) (x.tick base p i).dev.lk.slots (x.tick base p i).net :=
  (h.begin hf).congr (fun s => congrArg Endpoint.active (endpoint_tick p x.dev i s)) fun s =>
    congrArg Endpoint.sock (endpoint_tick p x.dev i s)

/-- What a requested slot is after `begin_tick`: inactive, or a session opened anew for
the peer that was read, on which a rebond request of the same tick acts. -/
theorem begin_reopened (hp : p.StartsAtZero) {d : Device} {i : Tick} {s : Slot}
    (hr : (d.beginReads i).reconfigure s = true)
    (ha : ((d.beginTick p i).lk.slots s).active = true) :
    ∃ m, FreshSession s ((d.beginReads i).peer s) m.session ∧ (d.beginTick p i).lk.slots s =
      if (d.beginReads i).rebond s then pstopSessionRebond p m else m := by
  let m := slotApplyConfig p s ((d.beginReads i).peer s) (i.sock s) (i.bound s) (d.lk.slots s)
  have he : endpoint ((d.beginTick p i).lk.slots s) = endpoint m := by
    rw [show endpoint ((d.beginTick p i).lk.slots s) = _ from
      endpoint_beginSlot p (d.beginReads i) i.sock i.bound s (d.lk.slots s), if_pos hr]
  have hm : m.active = true := (congrArg Endpoint.active he).symm.trans ha
  refine ⟨m, config_fresh hp hm, ?_⟩
  change beginSlot p (d.beginReads i) i.sock i.bound s (d.lk.slots s) = _
  simp only [beginSlot, hr, if_true]
  rw [show (slotApplyConfig p s ((d.beginReads i).peer s) (i.sock s) (i.bound s)
    (d.lk.slots s)).active = true from hm, Bool.true_and]

/-- After init and after any run of ticks, also at the start of each, the open sockets
are exactly those of the active slots; and what init or a tick opens is a fresh session
for the peer stored at that moment. -/
theorem sockets_match_slots (hp : p.StartsAtZero) (b : Boot) (is : List Tick)
    (hf : FreshRun base p b is) :
    let x := connected base p b is
    Owns base x.dev.lk.slots x.net ∧
    (∀ s, ((b.device p).lk.slots s).active = true →
      FreshSession s (b.settings.peers s) ((b.device p).lk.slots s).session) ∧
    ∀ i, x.FreshTick base p i →
      Owns base (x.dev.beginTick p i).lk.slots (x.beginNet base p i) ∧
      ∀ s, (x.dev.beginReads i).reconfigure s = true →
        ((x.dev.beginTick p i).lk.slots s).active = true →
        ∃ m, FreshSession s ((x.dev.beginReads i).peer s) m.session ∧
          (x.dev.beginTick p i).lk.slots s =
            if (x.dev.beginReads i).rebond s then pstopSessionRebond p m else m := by
  have hrun : Owned base (fun _ => True) (connected base p b is).dev.lk.slots
      (connected base p b is).net :=
    run_invariant (I := fun _ (x : Connected) => Owned base (fun _ => True) x.dev.lk.slots x.net)
      (owned_boot b hf.1) (fun is i h hc => h.tick hc) is hf.2
  refine ⟨hrun.owns, fun s hs => config_fresh hp hs, fun i hi => ⟨(hrun.begin hi).owns, ?_⟩⟩
  intro s hr ha
  exact begin_reopened hp hr ha

/-- Slot 0 is reopened once, and the second descriptor replaces the first. -/
def reopeningTick : Tick :=
  (quietTick 100 closedReads).writing .reconfigure [.requestReconfigure 0]

theorem sockets_match_slots_reopened :
    let x := connected 8891 reference oneMachine [reopeningTick]
    (x.dev.lk.slots 0).active = true ∧ (x.dev.lk.slots 0).session.sock = 7 ∧
      Owns 8891 x.dev.lk.slots x.net := by
  refine ⟨by decide +kernel, by decide +kernel, ?_⟩
  exact (sockets_match_slots reference_startsAtZero oneMachine [reopeningTick]
    (by decide +kernel)).1

end ZephyrApps.SessionSockets
