import ZephyrApps.PstopReference
import ZephyrApps.PstopSession

/-!
# Draining the replies of a session

`pstop_session_poll` reads its queue up to the first datagram that is not a full
frame. What it does to the session is the fold of `pollFrame` over the frames of
the peer in that part of the queue, so an invariant of polling is an invariant
of one frame.
-/
namespace ZephyrApps.PstopSession
open Pstop AppSettings

variable {p : PstopC} {now : UInt64} {m : MachineSlot} {f : Frame} {d : Datagram}

def Verifies (p : PstopC) (f : Frame) : Prop :=
  (p.messageDecode f).checksum = (p.messageDecode f).calculatedChecksum

def IsUnbond (p : PstopC) (f : Frame) : Prop :=
  Verifies p f ∧ (p.messageDecode f).message = messageUnbond

/-- A verified frame that is not an UNBOND, so one that a session not parked
accepts as a reply. -/
def IsReply (p : PstopC) (f : Frame) : Prop :=
  Verifies p f ∧ (p.messageDecode f).message ≠ messageUnbond

instance (p : PstopC) (f : Frame) : Decidable (Verifies p f) := by
  unfold Verifies; infer_instance
instance (p : PstopC) (f : Frame) : Decidable (IsUnbond p f) := by
  unfold IsUnbond; infer_instance
instance (p : PstopC) (f : Frame) : Decidable (IsReply p f) := by
  unfold IsReply; infer_instance

theorem pollFrame_unverified (h : ¬ Verifies p f) : pollFrame p now m f = m := by
  unfold Verifies at h
  simp [pollFrame, h]

theorem pollFrame_unbond (h : IsUnbond p f) :
    pollFrame p now m f =
      { m with
        session :=
          { m.session with
            state := .rejected
            lastMsg := messageUnbond
            unbonds := m.session.unbonds + 1 } }.record .unbond := by
  obtain ⟨hv, hm⟩ := h
  unfold Verifies at hv
  simp [pollFrame, hv, hm]

theorem pollFrame_parked (h : IsReply p f) (hs : m.session.state = .rejected) :
    pollFrame p now m f = m := by
  obtain ⟨hv, hm⟩ := h
  unfold Verifies at hv
  simp [pollFrame, hv, hm, hs]

/-- Whatever the frame, its source is the only thing it cannot change. -/
theorem pollFrame_cases (p : PstopC) (now : UInt64) (m : MachineSlot) (f : Frame) :
    pollFrame p now m f = m ∨
      (IsUnbond p f ∧ (pollFrame p now m f).session.state = .rejected ∧
        (pollFrame p now m f).log = m.log ++ [.unbond]) ∨
      (IsReply p f ∧ m.session.state ≠ .rejected ∧
        (pollFrame p now m f).session.state = .bonded ∧
        (pollFrame p now m f).log = m.log ++ [.reply now (p.messageDecode f)]) := by
  by_cases hv : Verifies p f
  · by_cases hm : (p.messageDecode f).message = messageUnbond
    · have hu : IsUnbond p f := ⟨hv, hm⟩
      exact Or.inr (Or.inl ⟨hu, by simp [pollFrame_unbond hu], by simp [pollFrame_unbond hu]⟩)
    · have hr : IsReply p f := ⟨hv, hm⟩
      by_cases hs : m.session.state = .rejected
      · exact Or.inl (pollFrame_parked hr hs)
      · unfold Verifies at hv
        exact Or.inr (Or.inr ⟨hr, hs, by simp [pollFrame, hv, hm, hs],
          by simp [pollFrame, hv, hm, hs]⟩)
  · exact Or.inl (pollFrame_unverified hv)

/-- Polling a frame leaves the slot's activity, its queue, and where the session
sends and what it has sent. -/
theorem pollFrame_frame (p : PstopC) (now : UInt64) (m : MachineSlot) (f : Frame) :
    (pollFrame p now m f).active = m.active ∧ (pollFrame p now m f).rx = m.rx ∧
      (pollFrame p now m f).session.peerAddr = m.session.peerAddr ∧
      (pollFrame p now m f).session.peerPort = m.session.peerPort ∧
      (pollFrame p now m f).session.proto.msgCounter = m.session.proto.msgCounter := by
  unfold pollFrame
  dsimp only
  split
  case isTrue => simp
  case isFalse =>
    split
    case isTrue => simp
    case isFalse => split <;> simp

theorem fromPeer_pollFrame : fromPeer (pollFrame p now m f).session d = fromPeer m.session d := by
  obtain ⟨-, -, ha, hp, -⟩ := pollFrame_frame p now m f
  simp [fromPeer, ha, hp]

/-- The frames of the peer that the draining loop reaches. -/
def heard (s : Session) (q : List Datagram) : List Frame :=
  ((q.takeWhile (·.frame.isSome)).filter (fromPeer s)).filterMap Datagram.frame

/-- What the draining loop leaves in the queue. -/
def unread (q : List Datagram) : List Datagram := (q.dropWhile (·.frame.isSome)).tail

theorem heard_congr {s s' : Session} (h : ∀ d, fromPeer s d = fromPeer s' d)
    (q : List Datagram) : heard s q = heard s' q := by
  have hf : fromPeer s = fromPeer s' := funext h
  rw [heard, heard, hf]

theorem heard_short (s : Session) (hd : d.frame = none) (q : List Datagram) :
    heard s (d :: q) = [] := by simp [heard, hd]

theorem heard_full (s : Session) (hd : d.frame = some f) (q : List Datagram) :
    heard s (d :: q) = if fromPeer s d then f :: heard s q else heard s q := by
  cases h : fromPeer s d <;> simp [heard, hd, h]

theorem unread_short (hd : d.frame = none) (q : List Datagram) : unread (d :: q) = q := by
  simp [unread, hd]

theorem unread_full (hd : d.frame = some f) (q : List Datagram) : unread (d :: q) = unread q := by
  simp [unread, hd]

theorem pollFrame_rx (r : List Datagram) :
    pollFrame p now { m with rx := r } f = { pollFrame p now m f with rx := r } := by
  unfold pollFrame
  dsimp only
  split
  case isTrue => rfl
  case isFalse =>
    split
    case isTrue => rfl
    case isFalse => split <;> rfl

/-- The draining loop folds `pollFrame` over the frames it hears. -/
theorem pollLoop_eq (q : List Datagram) (m : MachineSlot) :
    pollLoop p now q m =
      { (heard m.session q).foldl (pollFrame p now) m with rx := unread q } := by
  induction q generalizing m with
  | nil => rfl
  | cons d rest ih =>
    cases hd : d.frame with
    | none => simp [pollLoop, hd, heard_short, unread_short]
    | some f =>
      rw [heard_full _ hd, unread_full hd]
      cases hs : fromPeer m.session d with
      | false => simp [pollLoop, hd, hs, ih]
      | true =>
        have hh : heard (pollFrame p now m f).session rest = heard m.session rest :=
          heard_congr (fun _ => fromPeer_pollFrame) rest
        simp [pollLoop, hd, hs, ih, hh]

theorem pstopSessionPoll_eq (p : PstopC) (now : UInt64) (m : MachineSlot) :
    pstopSessionPoll p now m =
      { (heard m.session m.rx).foldl (pollFrame p now) m with rx := unread m.rx } :=
  pollLoop_eq m.rx m

/-- What every frame preserves, polling preserves. -/
theorem poll_induction {I : MachineSlot → Prop} (hrx : ∀ m r, I m → I { m with rx := r })
    (hf : ∀ m f, I m → I (pollFrame p now m f)) (h : I m) : I (pstopSessionPoll p now m) := by
  rw [pstopSessionPoll_eq]
  refine hrx _ _ ?_
  generalize heard m.session m.rx = fs
  induction fs generalizing m with
  | nil => exact h
  | cons f fs ih => exact ih (hf m f h)

/-- The poll does to the session what it would do without the datagrams of other
senders, and leaves no datagram of the peer in the queue. -/
def Undisturbed (p : PstopC) (now : UInt64) (m : MachineSlot) : Prop :=
  (pstopSessionPoll p now m).session =
      (pstopSessionPoll p now { m with rx := m.rx.filter (fromPeer m.session) }).session ∧
    ∀ d ∈ (pstopSessionPoll p now m).rx, fromPeer m.session d = false

/-- Nothing of the peer is queued behind a datagram shorter than a frame. -/
def NoShortBeforePeer (s : Session) (q : List Datagram) : Prop :=
  ∀ before d after, q = before ++ d :: after → d.bytes.length < messageSize →
    ∀ e ∈ after, fromPeer s e = false

theorem frame_eq_none_iff (d : Datagram) : d.frame = none ↔ d.bytes.length < messageSize := by
  unfold Datagram.frame
  split <;> simp_all

theorem unread_iff (s : Session) (q : List Datagram) :
    (∀ e ∈ unread q, fromPeer s e = false) ↔ NoShortBeforePeer s q := by
  induction q with
  | nil => simp [unread, NoShortBeforePeer]
  | cons d rest ih =>
    cases hd : d.frame with
    | none =>
      rw [unread_short hd]
      constructor
      · intro h before x after hq _ e he
        refine h e ?_
        cases before with
        | nil => simp_all
        | cons y before =>
          obtain ⟨-, rfl⟩ := List.cons.inj hq
          simp [he]
      · intro h e he
        exact h [] d rest rfl ((frame_eq_none_iff d).mp hd) e he
    | some f =>
      rw [unread_full hd, ih]
      constructor
      · intro h before x after hq hx
        cases before with
        | nil =>
          obtain ⟨rfl, rfl⟩ := List.cons.inj hq
          simp [(frame_eq_none_iff d).mpr hx] at hd
        | cons y before => exact h before x after (List.cons.inj hq).2 hx
      · intro h before x after hq hx
        exact h (d :: before) x after (by simp [hq]) hx

/-- Dropping the other senders' datagrams changes nothing that is heard, as long
as the loop does not stop short of the peer. -/
theorem heard_filter (s : Session) (q : List Datagram)
    (h : ∀ e ∈ unread q, fromPeer s e = false) : heard s (q.filter (fromPeer s)) = heard s q := by
  induction q with
  | nil => rfl
  | cons d rest ih =>
    cases hd : d.frame with
    | none =>
      rw [unread_short hd] at h
      have hr : rest.filter (fromPeer s) = [] := by simpa using h
      cases hs : fromPeer s d with
      | false => simp [hs, hr, hd, heard]
      | true => simp [hs, hr, heard_short s hd]
    | some f =>
      rw [unread_full hd] at h
      cases hs : fromPeer s d with
      | false => simp [hs, heard_full s hd, ih h]
      | true => simp [hs, heard_full s hd, ih h]

theorem foldl_pollFrame_rx (fs : List Frame) (m : MachineSlot) (r : List Datagram) :
    fs.foldl (pollFrame p now) { m with rx := r } =
      { fs.foldl (pollFrame p now) m with rx := r } := by
  induction fs generalizing m with
  | nil => rfl
  | cons f fs ih => rw [List.foldl_cons, pollFrame_rx, ih, List.foldl_cons]

/-- A poll is undisturbed by other senders exactly when no datagram of the peer
is queued behind a short one: the size test returns where the others continue. -/
theorem poll_undisturbed_iff (p : PstopC) (now : UInt64) (m : MachineSlot) :
    Undisturbed p now m ↔ NoShortBeforePeer m.session m.rx := by
  rw [← unread_iff, Undisturbed, pstopSessionPoll_eq, pstopSessionPoll_eq]
  refine and_iff_right_of_imp fun h => ?_
  have hh := heard_filter m.session m.rx h
  simp only [hh, foldl_pollFrame_rx]

/-- A bonded session whose machine's UNBOND waits behind an empty datagram that
somebody else sent to its port. -/
def strayed : MachineSlot where
  active := true
  session :=
    { Session.zeroed with
      sock := 3, peerAddr := 0x7F000001, peerPort := 8890, state := .bonded }
  rx :=
    [⟨0x7F000002, 5000, []⟩,
      ⟨0x7F000001, 8890,
        (encodeMsg (genericMsg messageUnbond 1000 0 0x01020304 0xC0A80105 7 0)).bytes⟩]
  log := []

/-- The empty datagram ends the loop, and the UNBOND stays unread. -/
theorem strayed_disturbed : ¬ Undisturbed reference 5000 strayed := by
  rintro ⟨-, h⟩
  have hp := h (strayed.rx.getD 1 ⟨0, 0, []⟩) (by
    rw [pstopSessionPoll_eq]
    exact List.mem_of_getElem? (i := 0) (by rfl))
  revert hp
  decide

end ZephyrApps.PstopSession
