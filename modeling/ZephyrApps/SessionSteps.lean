import ZephyrApps.SessionPolling

/-!
# What the steps of a session do to a slot

Each operation of a session, stated once: what it leaves of the session and what
it adds to the slot's log. Invariants of slots are derived from these lemmas.
-/
namespace ZephyrApps.PstopSession
open Pstop AppSettings EventHistories

def Event.isSocketCall : Event → Bool
  | .socket _ | .close _ => true
  | _ => false

/-- A frame was handed to the socket. -/
def Event.isSend : Event → Bool
  | .send .. => true
  | _ => false

/-- A frame was transmitted. -/
def Event.isSent : Event → Bool
  | .send _ _ ok => ok
  | _ => false

/-- A frame of the peer was accepted as a reply. -/
def Event.isReply : Event → Bool
  | .reply .. => true
  | _ => false

def Event.isBond : Event → Bool
  | .send _ f ok => ok && decide (f.message = messageBond)
  | _ => false

def sentCodes (es : List Event) : List UInt8 :=
  es.filterMap fun e => match e with
    | .send _ f _ => some f.message
    | _ => none

theorem isSocketCall_spec {e : Event} (he : e.isSocketCall = true) :
    e.isReset = false ∧ e.isSent = false ∧ e.isSend = false := by
  cases e <;> simp_all [Event.isSocketCall, Event.isReset, Event.isSent, Event.isSend]

/-- The log grew by events that all satisfy `Q`. -/
def Grows (Q : Event → Prop) (m m' : MachineSlot) : Prop :=
  ∃ es, m'.log = m.log ++ es ∧ ∀ e ∈ es, Q e

variable {Q R : Event → Prop} {m m' m'' : MachineSlot}

theorem Grows.of_log (h : m'.log = m.log) : Grows Q m m' := ⟨[], by simp [h], by simp⟩

theorem Grows.refl (m : MachineSlot) : Grows Q m m := .of_log rfl

theorem Grows.of_concat {e : Event} (he : Q e) (h : m'.log = m.log ++ [e]) : Grows Q m m' :=
  ⟨[e], h, by simpa using he⟩

theorem Grows.trans (h : Grows Q m m') (h' : Grows Q m' m'') : Grows Q m m'' := by
  obtain ⟨es, hl, hq⟩ := h
  obtain ⟨es', hl', hq'⟩ := h'
  refine ⟨es ++ es', by rw [hl', hl, List.append_assoc], fun e he => ?_⟩
  rcases List.mem_append.mp he with he | he
  · exact hq e he
  · exact hq' e he

theorem Grows.mono (h : Grows Q m m') (hqr : ∀ e, Q e → R e) : Grows R m m' := by
  obtain ⟨es, hl, hq⟩ := h
  exact ⟨es, hl, fun e he => hqr e (hq e he)⟩

theorem Grows.each {P : List Event → Event → Prop} (h : Grows Q m m') (hm : Each P m.log)
    (hq : ∀ past e, Q e → P past e) : Each P m'.log := by
  obtain ⟨es, hl, hes⟩ := h
  rw [hl, each_append]
  exact ⟨hm, .of_mem fun past e he => hq _ e (hes e he)⟩

/-- Without a reset the current epoch only gets longer. -/
theorem Grows.since (h : Grows Q m m') (hq : ∀ e, Q e → e.isReset = false) :
    ∃ es, since Event.isReset m'.log = since Event.isReset m.log ++ es ∧ ∀ e ∈ es, Q e := by
  obtain ⟨es, hl, hes⟩ := h
  exact ⟨es, by rw [hl, since_append_unmarked fun e he => hq e (hes e he)], hes⟩

variable (p : PstopC)

theorem pstopSessionClose_grows (m : MachineSlot) :
    Grows (·.isSocketCall = true) m (pstopSessionClose m) := by
  unfold pstopSessionClose
  split
  · exact .of_concat rfl rfl
  · exact .refl m

theorem pstopSessionClose_session (m : MachineSlot) :
    (pstopSessionClose m).session.proto = m.session.proto ∧
      ((pstopSessionClose m).session.state = m.session.state ∨
        (pstopSessionClose m).session.state = .idle) := by
  unfold pstopSessionClose
  split <;> simp

/-- A failed open leaves the session as it was, a successful one makes it anew. -/
theorem pstopSessionOpen_cases (slot : Slot) (peer : Peer) (sock bound : Int) (m : MachineSlot) :
    let r := pstopSessionOpen p slot peer sock bound m
    (r.2 = false ∧ r.1.active = m.active ∧ Grows (·.isSocketCall = true) m r.1 ∧
      r.1.session = { m.session with sock := -1 }) ∨
    (r.2 = true ∧ r.1.log = m.log ++ [.socket sock, .opened] ∧ r.1.session.state = .idle ∧
      r.1.session.proto = freshProto p m.session.proto peer.id ∧ r.1.session.hbMs = 0) := by
  unfold pstopSessionOpen
  dsimp only
  split
  case isTrue => exact Or.inl ⟨rfl, rfl, .refl _, rfl⟩
  case isFalse =>
    split
    case isTrue =>
      exact Or.inl
        ⟨rfl, rfl, ⟨[.socket sock, .close sock], by simp, by simp [Event.isSocketCall]⟩, rfl⟩
    case isFalse => exact Or.inr ⟨rfl, by simp, rfl, rfl, rfl⟩

/-- A reconfigured slot is inactive, its protocol state untouched, or a session
opened anew. -/
theorem slotApplyConfig_cases (slot : Slot) (peer : Peer) (sock bound : Int) (m : MachineSlot) :
    let m' := slotApplyConfig p slot peer sock bound m
    (m'.active = false ∧ Grows (·.isSocketCall = true) m m' ∧
      m'.session.proto = m.session.proto ∧
      (m'.session.state = m.session.state ∨ m'.session.state = .idle)) ∨
    (m'.active = true ∧
      (∃ mid, Grows (·.isSocketCall = true) m mid ∧ m'.log = mid.log ++ [.opened]) ∧
      m'.session.state = .idle ∧ m'.session.proto = freshProto p m.session.proto peer.id ∧
      m'.session.hbMs = 0) := by
  -- the slot once what was open is closed
  let c := if m.active then pstopSessionClose m else m
  let closed : MachineSlot := { c with active := false, session := { c.session with sock := -1 } }
  have hg : Grows (·.isSocketCall = true) m closed := by
    have hc : Grows (·.isSocketCall = true) m c := by
      by_cases ha : m.active = true
      · simpa [c, ha] using pstopSessionClose_grows m
      · simpa [c, ha] using Grows.refl m
    exact hc.trans (.of_log rfl)
  have hs : closed.session.proto = m.session.proto ∧
      (closed.session.state = m.session.state ∨ closed.session.state = .idle) := by
    by_cases ha : m.active = true
    · simpa [closed, c, ha] using pstopSessionClose_session m
    · simp [closed, c, ha]
  have he : slotApplyConfig p slot peer sock bound m =
      if !peer.configured then closed
      else
        if (pstopSessionOpen p slot peer sock bound closed).2 then
          { (pstopSessionOpen p slot peer sock bound closed).1 with active := true }
        else (pstopSessionOpen p slot peer sock bound closed).1 := rfl
  dsimp only
  rw [he]
  cases peer.configured with
  | false => exact Or.inl ⟨rfl, hg, hs⟩
  | true =>
    rcases pstopSessionOpen_cases p slot peer sock bound closed with
      ⟨h2, ha, hl, hse⟩ | ⟨h2, hl, hst, hpr, hhb⟩
    · refine Or.inl ?_
      simp only [h2, Bool.not_true, Bool.false_eq_true, if_false]
      exact ⟨ha, hg.trans hl, by rw [hse]; exact hs.1, by rw [hse]; exact hs.2⟩
    · refine Or.inr ?_
      simp only [h2, Bool.not_true, Bool.false_eq_true, if_false, if_true]
      refine ⟨trivial, ⟨closed.record (.socket sock), ?_, by simp [hl]⟩, hst, ?_, hhb⟩
      · exact hg.trans (.of_concat rfl rfl)
      · rw [hpr, hs.1]

theorem slotApplyConfig_grows (slot : Slot) (peer : Peer) (sock bound : Int) (m : MachineSlot) :
    Grows (fun e => e.isSocketCall = true ∨ e = .opened) m
      (slotApplyConfig p slot peer sock bound m) := by
  rcases slotApplyConfig_cases p slot peer sock bound m with
    ⟨-, hg, -⟩ | ⟨-, ⟨mid, hg, hl⟩, -⟩
  · exact hg.mono fun e he => Or.inl he
  · exact (hg.mono fun e he => Or.inl he).trans (.of_concat (Or.inr rfl) hl)

/-- What closing and opening preserve, and what neither the activity of the slot nor
its socket enters, reconfiguring preserves. -/
theorem slotApplyConfig_induction {I : MachineSlot → Prop} {slot : Slot} {peer : Peer}
    {sock bound : Int} {m : MachineSlot} (close : ∀ m, I m → I (pstopSessionClose m))
    (frame : ∀ m active fd, I m → I { m with active, session := { m.session with sock := fd } })
    (opened : ∀ m, I m → I (pstopSessionOpen p slot peer sock bound m).1) (h : I m) :
    I (slotApplyConfig p slot peer sock bound m) := by
  let c := if m.active then pstopSessionClose m else m
  have hc : I c := by
    unfold c
    split
    · exact close m h
    · exact h
  let closed : MachineSlot := { c with active := false, session := { c.session with sock := -1 } }
  have hclosed : I closed := frame c false (-1) hc
  have hopen := opened closed hclosed
  change I (if !peer.configured then closed
    else if (pstopSessionOpen p slot peer sock bound closed).2 then
      { (pstopSessionOpen p slot peer sock bound closed).1 with active := true }
    else (pstopSessionOpen p slot peer sock bound closed).1)
  split
  · exact hclosed
  · split
    · exact frame _ true _ hopen
    · exact hopen

@[simp] theorem rebond_log (m : MachineSlot) :
    (pstopSessionRebond p m).log = m.log ++ [.rebond] := rfl
@[simp] theorem rebond_state (m : MachineSlot) :
    (pstopSessionRebond p m).session.state = .idle := rfl
@[simp] theorem rebond_proto (m : MachineSlot) :
    (pstopSessionRebond p m).session.proto = freshProto p m.session.proto m.session.peerId := rfl

/-- The watchdog rebonds a silent bonded session and leaves every other slot. -/
theorem watchdog_cases (now : UInt64) (m : MachineSlot) :
    pstopSessionWatchdog p now m = m ∨
      (m.session.state = .bonded ∧ pstopSessionWatchdog p now m = pstopSessionRebond p m) := by
  unfold pstopSessionWatchdog
  split
  case isTrue => exact Or.inl rfl
  case isFalse h =>
    split
    · exact Or.inl rfl
    · exact Or.inr ⟨not_not.mp h, rfl⟩

@[simp] theorem commit_active (f : Frame) (now : UInt64) (n : Int) (m : MachineSlot) :
    (pstopSessionCommitSend f now n m).active = m.active := by
  unfold pstopSessionCommitSend
  dsimp only
  split <;> rfl

@[simp] theorem commit_log (f : Frame) (now : UInt64) (n : Int) (m : MachineSlot) :
    (pstopSessionCommitSend f now n m).log = m.log ++ [.send now f (decide (n = messageSize))] := by
  unfold pstopSessionCommitSend
  dsimp only
  split <;> simp_all

/-- Only a successful send advances the counter and the bonding state. -/
theorem commit_fail {n : Int} (hn : n ≠ messageSize) (f : Frame) (now : UInt64)
    (m : MachineSlot) :
    (pstopSessionCommitSend f now n m).session =
      { m.session with sendFail := m.session.sendFail + 1 } := by
  simp [pstopSessionCommitSend, hn]

theorem commit_counter (f : Frame) (now : UInt64) (m : MachineSlot) :
    (pstopSessionCommitSend f now messageSize m).session.proto.msgCounter =
      m.session.proto.msgCounter + 1 := by
  unfold pstopSessionCommitSend
  cases h : m.session.state <;> simp [h]

theorem commit_state (f : Frame) (now : UInt64) (m : MachineSlot) :
    (pstopSessionCommitSend f now messageSize m).session.state =
      if m.session.state = .idle then .bonding else m.session.state := by
  unfold pstopSessionCommitSend
  cases h : m.session.state <;> simp [h]

/-- The code of a built frame: the verdict of a bonded session, else BOND. -/
theorem build_message (hp : p.CarriesCode) (s : Session) (v : UInt8) (role : AuxRole)
    (now : UInt64) (me : UInt32) :
    (pstopSessionBuild p s v role now me).message =
      if s.state = .bonded then v else messageBond := by
  unfold pstopSessionBuild
  rw [hp.encode, hp.role]
  by_cases hs : s.state = .bonded
  · simp only [hs, if_true]
    split
    case isTrue h => rw [hp.bond, h]
    case isFalse => rw [hp.generic]
  · simp [hs, hp.bond]

theorem build_counter (hp : p.CarriesCounter) (s : Session) (v : UInt8) (role : AuxRole)
    (now : UInt64) (me : UInt32) :
    (pstopSessionBuild p s v role now me).counter = s.proto.msgCounter + 1 := by
  unfold pstopSessionBuild
  rw [hp.encode, hp.role]
  generalize (if s.state = .bonded then v else messageBond) = type
  split
  · rw [hp.bond]
  · rw [hp.generic]

theorem build_sender (hp : p.CarriesSender) (s : Session) (v : UInt8) (role : AuxRole)
    (now : UInt64) (me : UInt32) : (pstopSessionBuild p s v role now me).sender = me := by
  unfold pstopSessionBuild
  rw [hp.encode, hp.role]
  generalize (if s.state = .bonded then v else messageBond) = type
  split
  · rw [hp.bond]
  · rw [hp.generic]

theorem poll_active (now : UInt64) (m : MachineSlot) :
    (pstopSessionPoll p now m).active = m.active :=
  poll_induction (I := fun m' => m'.active = m.active) (fun _ _ h => h)
    (fun m' f h => (pollFrame_frame p now m' f).1.trans h) rfl

theorem poll_grows (now : UInt64) (m : MachineSlot) :
    Grows (fun e => e = .unbond ∨ ∃ msg, e = .reply now msg) m (pstopSessionPoll p now m) := by
  refine poll_induction (I := Grows _ m) (fun m' r h => h.trans (.of_log rfl)) ?_ (.refl m)
  intro m' f h
  rcases pollFrame_cases p now m' f with he | ⟨-, -, hl⟩ | ⟨-, -, -, hl⟩
  · rwa [he]
  · exact h.trans (.of_concat (Or.inl rfl) hl)
  · exact h.trans (.of_concat (Or.inr ⟨_, rfl⟩) hl)

theorem poll_counter (now : UInt64) (m : MachineSlot) :
    (pstopSessionPoll p now m).session.proto.msgCounter = m.session.proto.msgCounter :=
  poll_induction (I := fun m' => m'.session.proto.msgCounter = m.session.proto.msgCounter)
    (fun _ _ h => h) (fun m' f h => (pollFrame_frame p now m' f).2.2.2.2.trans h) rfl

/-- Only an accepted reply makes a session bonded. -/
theorem poll_unanswered (now : UInt64) (m : MachineSlot) :
    ∃ es, (pstopSessionPoll p now m).log = m.log ++ es ∧
      ((∀ e ∈ es, e.isReply = false) → m.session.state ≠ .bonded →
        (pstopSessionPoll p now m).session.state ≠ .bonded) := by
  refine poll_induction (I := fun m' => ∃ es, m'.log = m.log ++ es ∧
    ((∀ e ∈ es, e.isReply = false) → m.session.state ≠ .bonded → m'.session.state ≠ .bonded))
    (fun _ _ h => h) ?_ ⟨[], by simp, fun _ h => h⟩
  rintro m' f ⟨es, hl, hes⟩
  rcases pollFrame_cases p now m' f with he | ⟨-, hs, hl'⟩ | ⟨-, -, -, hl'⟩
  · rw [he]
    exact ⟨es, hl, hes⟩
  · exact ⟨es ++ [.unbond], by rw [hl', hl, List.append_assoc], fun _ _ => by simp [hs]⟩
  · refine ⟨es ++ [.reply now (p.messageDecode f)], by rw [hl', hl, List.append_assoc], ?_⟩
    intro hn
    simpa [Event.isReply] using hn (.reply now (p.messageDecode f)) (by simp)

end ZephyrApps.PstopSession
