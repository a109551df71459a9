import Mathlib.Logic.Function.Basic
import ZephyrApps.DelayableWork

/-!
# Images on trial

`app_img_confirm.c` over `app_watchdog.c`: a new image has a deadline by which some thread must have
called it healthy. Times are in milliseconds since the image was armed.
-/
namespace ZephyrApps.TrialImages
open DelayableWork SystemRuns

/-- What `app_watchdog_init` finds: whether the board has a hardware watchdog, whether that is ready,
and what `task_wdt_init` returns with and without it. -/
structure WatchdogCalls where
  hwWdt : Bool
  deviceReady : Bool
  taskWdtInit : Bool → Int

/-- `app_watchdog_init`: what it returns, and `wdt_ready`. -/
def appWatchdogInit (w : WatchdogCalls) : Int × Bool :=
  let hw := w.hwWdt && w.deviceReady
  let ret := w.taskWdtInit hw
  let ret := if ret ≠ 0 ∧ hw = true then w.taskWdtInit false else ret
  if ret ≠ 0 then (ret, false) else (0, true)

/-- `EBUSY` -/
def EBUSY : Int := 16

/-- `app_watchdog_register`, with what `task_wdt_add` returns. -/
def appWatchdogRegister (wdtReady : Bool) (add : Int) : Int := if !wdtReady then -EBUSY else add

/-- `app_watchdog_unregister`: whether the channel is deleted. -/
def appWatchdogUnregister (wdtReady : Bool) (channel : Int) : Bool := wdtReady && decide (0 ≤ channel)

/-- Where a thread stands in `app_img_confirm`: it is not in it, or waits for
`boot_write_img_confirmed`, which then has failed or has not. -/
inductive Caller where
  | out | writing | failed | written
  deriving DecidableEq

variable {τ : Type}

/-- The statics of `app_img_confirm.c`, the flag in flash, when the channel expires if it is there,
the threads, and whether the board has been reset. -/
structure Trial (τ : Type) where
  wdtReady : Bool
  confirmed : Bool
  wdtChannel : Int
  stored : Bool
  expiry : Work
  caller : τ → Caller
  reset : Bool

/-- `CONFIG_APP_IMG_CONFIRM_TIMEOUT_MS`, and how late the timer of the watchdog is at most. -/
structure Setup where
  timeoutMs : ℕ
  lag : ℕ

/-- What the start of an application finds: the watchdog, whether the image is confirmed, and what
`task_wdt_add` returns. -/
structure Boot where
  watchdog : WatchdogCalls
  isImgConfirmed : Bool
  add : Int

/-- `app_watchdog_init` and `app_img_confirm_arm` -/
def appImgConfirmArm (c : Setup) (b : Boot) : Trial τ :=
  let wdtReady := (appWatchdogInit b.watchdog).2
  if b.isImgConfirmed then ⟨wdtReady, true, -1, true, none, fun _ => .out, false⟩
  else
    let channel := appWatchdogRegister wdtReady b.add
    ⟨wdtReady, false, channel, false, if channel < 0 then none else some c.timeoutMs,
      fun _ => .out, false⟩

inductive Event (τ : Type) where
  | healthy (i : τ)
  | wrote (i : τ) (ret : Int)
  | cleared (i : τ)
  | unregistered (i : τ)
  | byHand
  | expire
  | pass
  deriving DecidableEq

def Trial.move [DecidableEq τ] (s : Trial τ) (i : τ) (pc : Caller) : Trial τ :=
  { s with caller := Function.update s.caller i pc }

/-- `app_img_confirm`, up to the next call of each thread. -/
def stepOn [DecidableEq τ] (s : Trial τ) (t : ℕ) : Event τ → Option (Trial τ)
  | .healthy i =>
    if s.caller i = .out then
      some (if s.confirmed then s else { s with confirmed := true }.move i .writing)
    else none
  | .wrote i ret =>
    if s.caller i = .writing then
      some (if ret ≠ 0 then s.move i .failed else { s with stored := true }.move i .written)
    else none
  | .cleared i =>
    if s.caller i = .failed then some ({ s with confirmed := false }.move i .out) else none
  | .unregistered i =>
    if s.caller i = .written then
      some ({ s with
        expiry := if appWatchdogUnregister s.wdtReady s.wdtChannel then none else s.expiry }.move i .out)
    else none
  | .byHand => some { s with stored := true }
  | .expire =>
    match s.expiry with
    | some due => if due ≤ t then some { s with reset := true } else none
    | none => none
  | .pass => some s

def step [DecidableEq τ] (s : Trial τ) (t : ℕ) (e : Event τ) : Option (Trial τ) :=
  if s.reset then none else stepOn s t e

def deadlines (c : Setup) (s : Trial τ) : List ℕ := runsBy c.lag s.expiry

/-- The loss of the hardware does not cost stall detection. -/
theorem appWatchdogInit_ready (w : WatchdogCalls) (h : w.taskWdtInit false = 0) :
    appWatchdogInit w = (0, true) := by
  unfold appWatchdogInit
  cases hw : w.hwWdt && w.deviceReady with
  | false => simp [h]
  | true =>
    by_cases hret : w.taskWdtInit true = 0
    · simp [hret]
    · simp [hret, h]

variable {c : Setup} {b : Boot} {s s' : Trial τ} {t : ℕ} {past : List (ℕ × Event τ)} {i : τ}

def Event.writes : Event τ → Bool
  | .wrote _ ret => ret = 0
  | _ => false

def ByHand (past : List (ℕ × Event τ)) : Prop := ∃ t, (t, .byHand) ∈ past

/-- The image is confirmed, or it has a deadline. -/
def Armed (b : Boot) : Prop :=
  b.isImgConfirmed = true ∨ (appWatchdogInit b.watchdog).2 = true ∧ 0 ≤ b.add

/-- One thread at a time is in it, and what it does is in the order of its calls. -/
structure Sound (c : Setup) (past : List (ℕ × Event τ)) (s : Trial τ) : Prop where
  alone : ∀ i j, s.caller i ≠ .out → s.caller j ≠ .out → i = j
  free : s.confirmed = false → ∀ i, s.caller i = .out
  taken : s.confirmed = true → s.stored = true ∨ ∃ i, s.caller i ≠ .out
  written : ∀ i, s.caller i = .written → s.stored = true
  expiry : ∀ d, s.expiry = some d → d = c.timeoutMs ∧ s.wdtReady = true ∧ 0 ≤ s.wdtChannel
  gone : s.expiry = none → s.stored = true
  due : s.stored = true → s.expiry ≠ none → ByHand past ∨ ∃ i, s.caller i = .written
  fresh : (s.confirmed = false ∨ ∃ i, s.caller i = .writing ∨ s.caller i = .failed) →
    past.countP (fun e => e.2.writes) = 0
  once : past.countP (fun e => e.2.writes) ≤ 1

theorem appImgConfirmArm_sound (harm : Armed b) : Sound (τ := τ) c [] (appImgConfirmArm c b) := by
  unfold appImgConfirmArm
  cases hconf : b.isImgConfirmed with
  | true =>
    refine ⟨fun i j hi => absurd rfl hi, fun _ _ => rfl, fun _ => .inl rfl, fun _ _ => rfl,
      fun d hd => ?_, fun _ => rfl, fun _ hne => absurd rfl hne, fun _ => rfl, Nat.zero_le 1⟩
    cases hd
  | false =>
    rcases harm with hc | ⟨hready, hadd⟩
    · cases hconf.symm.trans hc
    · have hchannel : appWatchdogRegister (appWatchdogInit b.watchdog).2 b.add = b.add := by
        rw [appWatchdogRegister, hready]
        rfl
      have hnonneg : ¬ b.add < 0 := Int.not_lt.mpr hadd
      dsimp only
      rw [hchannel, if_neg hnonneg, if_neg Bool.false_ne_true]
      refine ⟨fun i j hi => absurd rfl hi, fun _ _ => rfl, fun hno => ?_, fun _ hno => ?_,
        fun d hd => ?_, fun hno => ?_, fun hno => ?_, fun _ => rfl, Nat.zero_le 1⟩
      · cases hno
      · cases hno
      · cases hd
        exact ⟨rfl, hready, hadd⟩
      · cases hno
      · cases hno

theorem Sound.only (h : Sound c past s) (hi : s.caller i ≠ .out) :
    ∀ j, j ≠ i → s.caller j = .out := by
  intro j hj
  by_contra hne
  exact hj (h.alone j i hne hi)

theorem ByHand.later {e : ℕ × Event τ} (h : ByHand past) : ByHand (past ++ [e]) := by
  obtain ⟨t, ht⟩ := h
  exact ⟨t, List.mem_append_left _ ht⟩

theorem countP_writes (past : List (ℕ × Event τ)) (e : ℕ × Event τ) :
    (past ++ [e]).countP (fun e => e.2.writes) =
      past.countP (fun e => e.2.writes) + if e.2.writes then 1 else 0 := by
  rw [List.countP_append, List.countP_singleton]

/-- An event that writes nothing and leaves all as it is. -/
theorem Sound.later {e : ℕ × Event τ} (h : Sound c past s) (he : e.2.writes = false) :
    Sound c (past ++ [e]) s := by
  have hcount : (past ++ [e]).countP (fun e => e.2.writes) = past.countP (fun e => e.2.writes) := by
    rw [countP_writes, he]
    rfl
  refine ⟨h.alone, h.free, h.taken, h.written, h.expiry, h.gone, fun hst hne => ?_,
    fun hc => hcount.trans (h.fresh hc), hcount.le.trans h.once⟩
  exact (h.due hst hne).imp_left ByHand.later

theorem Sound.confirmed (h : Sound c past s) (hi : s.caller i ≠ .out) : s.confirmed = true := by
  rw [← Bool.not_eq_false]
  exact fun hc => hi (h.free hc i)

theorem Sound.byHand (h : Sound c past s) :
    Sound c (past ++ [(t, .byHand)]) { s with stored := true } := by
  have hl := h.later (e := (t, .byHand)) rfl
  refine ⟨hl.alone, hl.free, fun _ => .inl rfl, fun _ _ => rfl, hl.expiry, fun _ => rfl,
    fun _ _ => .inl ⟨t, ?_⟩, hl.fresh, hl.once⟩
  exact List.mem_append_right _ (List.mem_singleton.mpr rfl)

variable [DecidableEq τ]

theorem move_self (s : Trial τ) (i : τ) (pc : Caller) : (s.move i pc).caller i = pc := by
  simp only [Trial.move, Function.update_self]

theorem move_of_ne (s : Trial τ) (pc : Caller) {j : τ} (h : j ≠ i) :
    (s.move i pc).caller j = s.caller j := by
  simp only [Trial.move, Function.update_of_ne h]

/-- A thread goes on while the others are out of it. -/
theorem sound_move {pc : Caller} (honly : ∀ j, j ≠ i → s.caller j = .out)
    (hfree : s.confirmed = false → pc = .out)
    (htaken : s.confirmed = true → s.stored = true ∨ pc ≠ .out)
    (hwritten : pc = .written → s.stored = true)
    (hexpiry : ∀ d, s.expiry = some d → d = c.timeoutMs ∧ s.wdtReady = true ∧ 0 ≤ s.wdtChannel)
    (hgone : s.expiry = none → s.stored = true)
    (hdue : s.stored = true → s.expiry ≠ none → ByHand past ∨ pc = .written)
    (hfresh : (s.confirmed = false ∨ pc = .writing ∨ pc = .failed) →
      past.countP (fun e => e.2.writes) = 0)
    (honce : past.countP (fun e => e.2.writes) ≤ 1) : Sound c past (s.move i pc) := by
  have hself := move_self s i pc
  have hother : ∀ j, j ≠ i → (s.move i pc).caller j = .out := fun j hj =>
    (move_of_ne s pc hj).trans (honly j hj)
  -- whoever is in it is the thread that has moved
  have hin : ∀ j, (s.move i pc).caller j ≠ .out → j = i := fun j hj => by
    by_contra hne
    exact hj (hother j hne)
  refine ⟨fun j k hj hk => (hin j hj).trans (hin k hk).symm, fun hc j => ?_, fun hc => ?_,
    fun j hj => ?_, hexpiry, hgone, fun hst hne => ?_, fun hc => hfresh ?_, honce⟩
  · rcases eq_or_ne j i with rfl | hj
    · rw [hself, hfree hc]
    · exact hother j hj
  · rcases htaken hc with hst | hpc
    · exact .inl hst
    · exact .inr ⟨i, fun hno => hpc (hself.symm.trans hno)⟩
  · have hji : j = i := hin j (by rw [hj]; exact Caller.noConfusion)
    rw [hji, hself] at hj
    exact hwritten hj
  · rcases hdue hst hne with hb | hpc
    · exact .inl hb
    · exact .inr ⟨i, hself.trans hpc⟩
  · rcases hc with hc | ⟨j, hj⟩
    · exact .inl hc
    · have hji : j = i := by
        apply hin j
        rcases hj with hj | hj
        · rw [hj]
          exact Caller.noConfusion
        · rw [hj]
          exact Caller.noConfusion
      rw [hji, hself] at hj
      exact .inr hj

theorem Sound.healthy (h : Sound c past s) (hc : s.confirmed = false) :
    Sound c past ({ s with confirmed := true }.move i .writing) := by
  have hout := h.free hc
  refine sound_move (s := { s with confirmed := true }) (fun j _ => hout j) (fun hno => ?_)
    (fun _ => .inr Caller.noConfusion) (fun hno => ?_) h.expiry h.gone (fun hst hne => ?_)
    (fun _ => h.fresh (.inl hc)) h.once
  · cases hno
  · cases hno
  · rcases h.due hst hne with hb | ⟨j, hj⟩
    · exact .inl hb
    · cases (hout j).symm.trans hj

theorem Sound.wroteOk (h : Sound c past s) (hi : s.caller i = .writing) :
    Sound c (past ++ [(t, .wrote i 0)]) ({ s with stored := true }.move i .written) := by
  have hne : s.caller i ≠ .out := by
    rw [hi]
    exact Caller.noConfusion
  have hcount : (past ++ [(t, Event.wrote i 0)]).countP (fun e => e.2.writes) = 1 := by
    rw [countP_writes, h.fresh (.inr ⟨i, .inl hi⟩)]
    rfl
  refine sound_move (s := { s with stored := true }) (h.only hne) (fun hc => ?_) (fun _ => .inl rfl)
    (fun _ => rfl) h.expiry (fun _ => rfl) (fun _ _ => .inr rfl) (fun hc => ?_) hcount.le
  · cases (h.confirmed hne).symm.trans hc
  · rcases hc with hc | hc | hc
    · cases (h.confirmed hne).symm.trans hc
    · cases hc
    · cases hc

omit [DecidableEq τ] in
/-- While a thread that has not written is in it, an image that is stored and has a deadline was
confirmed by hand. -/
theorem Sound.due_byHand (h : Sound c past s) (hne : s.caller i ≠ .out)
    (hnot : s.caller i ≠ .written) (hst : s.stored = true) (hexp : s.expiry ≠ none) :
    ByHand past := by
  rcases h.due hst hexp with hb | ⟨j, hj⟩
  · exact hb
  · have hji : j = i := h.alone j i (by rw [hj]; exact Caller.noConfusion) hne
    rw [hji] at hj
    exact absurd hj hnot

theorem Sound.wroteNot (h : Sound c past s) (hi : s.caller i = .writing) :
    Sound c past (s.move i .failed) := by
  have hne : s.caller i ≠ .out := by
    rw [hi]
    exact Caller.noConfusion
  refine sound_move (h.only hne) (fun hc => ?_) (fun _ => .inr Caller.noConfusion)
    (fun hno => ?_) h.expiry h.gone (fun hst hexp => ?_)
    (fun _ => h.fresh (.inr ⟨i, .inl hi⟩)) h.once
  · cases (h.confirmed hne).symm.trans hc
  · cases hno
  · refine .inl (h.due_byHand hne (fun hno => ?_) hst hexp)
    cases hi.symm.trans hno

theorem Sound.cleared (h : Sound c past s) (hi : s.caller i = .failed) :
    Sound c past ({ s with confirmed := false }.move i .out) := by
  have hne : s.caller i ≠ .out := by
    rw [hi]
    exact Caller.noConfusion
  refine sound_move (s := { s with confirmed := false }) (h.only hne) (fun _ => rfl) (fun hc => ?_)
    (fun hno => ?_) h.expiry h.gone (fun hst hexp => ?_)
    (fun _ => h.fresh (.inr ⟨i, .inr hi⟩)) h.once
  · cases hc
  · cases hno
  · refine .inl (h.due_byHand hne (fun hno => ?_) hst hexp)
    cases hi.symm.trans hno

theorem Sound.unregistered (h : Sound c past s) (hi : s.caller i = .written) :
    Sound c past ({ s with
      expiry := if appWatchdogUnregister s.wdtReady s.wdtChannel then none else s.expiry }.move i
        .out) := by
  have hne : s.caller i ≠ .out := by
    rw [hi]
    exact Caller.noConfusion
  have hst := h.written i hi
  -- what has a deadline has been registered
  have hgone : (if appWatchdogUnregister s.wdtReady s.wdtChannel then none else s.expiry) = none := by
    cases hexp : s.expiry with
    | none => exact ite_self _
    | some d =>
      obtain ⟨-, hready, hchannel⟩ := h.expiry d hexp
      rw [appWatchdogUnregister, hready, decide_eq_true hchannel]
      rfl
  rw [hgone]
  refine sound_move (s := { s with expiry := none }) (h.only hne) (fun _ => rfl) (fun _ => .inl hst)
    (fun hno => ?_) (fun d hd => ?_) (fun _ => hst) (fun _ hno => absurd rfl hno) (fun hc => ?_) h.once
  · cases hno
  · cases hd
  · rcases hc with hc | hc | hc
    · cases (h.confirmed hne).symm.trans hc
    · cases hc
    · cases hc

theorem step_sound {e : Event τ} (h : Sound c past s) (hs : step s t e = some s') :
    Sound c (past ++ [(t, e)]) s' := by
  obtain ⟨-, hs⟩ := Option.ite_none_left_eq_some.mp hs
  cases e with
  | pass =>
    cases hs
    exact h.later rfl
  | byHand =>
    cases hs
    exact h.byHand
  | expire =>
    unfold stepOn at hs
    dsimp only at hs
    split at hs
    case h_1 due hdue =>
      obtain ⟨-, he⟩ := Option.ite_none_right_eq_some.mp hs
      cases he
      have hl := h.later (e := (t, .expire)) rfl
      exact ⟨hl.alone, hl.free, hl.taken, hl.written, hl.expiry, hl.gone, hl.due, hl.fresh, hl.once⟩
    case h_2 => cases hs
  | healthy i =>
    obtain ⟨-, he⟩ := Option.ite_none_right_eq_some.mp hs
    cases he
    cases hc : s.confirmed with
    | true => exact h.later rfl
    | false => exact (h.healthy hc).later rfl
  | wrote i ret =>
    obtain ⟨hi, he⟩ := Option.ite_none_right_eq_some.mp hs
    cases he
    by_cases hret : ret = 0
    · rw [if_neg (not_not.mpr hret), hret]
      exact h.wroteOk hi
    · rw [if_pos hret]
      exact (h.wroteNot hi).later (decide_eq_false hret)
  | cleared i =>
    obtain ⟨hi, he⟩ := Option.ite_none_right_eq_some.mp hs
    cases he
    exact (h.cleared hi).later rfl
  | unregistered i =>
    obtain ⟨hi, he⟩ := Option.ite_none_right_eq_some.mp hs
    cases he
    exact (h.unregistered hi).later rfl

theorem run_sound (harm : Armed b) {es : List (ℕ × Event τ)} {v : Timed (Trial τ)}
    (h : timedRun (deadlines c) step (appImgConfirmArm c b) es = some v) : Sound c es v.state := by
  apply timedRun_induction (I := fun es v => Sound c es v.state) (appImgConfirmArm_sound harm) _ h
  intro past v t e u ih hnow hd hs
  exact step_sound ih hs

/-- A trial ends in time, and in one way. However the threads interleave: an event later than the
deadline finds the image confirmed, for else the board has been reset; the image is written once at
most; and what resets the board although the image is confirmed is a confirmation by hand, or a
thread that has come no further than its write. -/
theorem trial_ends (c : Setup) (b : Boot) (harm : Armed b) (past future : List (ℕ × Event τ))
    (e : ℕ × Event τ) {u v : Timed (Trial τ)}
    (h : timedRun (deadlines c) step (appImgConfirmArm c b) (past ++ e :: future) = some v)
    (hu : timedRun (deadlines c) step (appImgConfirmArm c b) past = some u) :
    (c.timeoutMs + c.lag < e.1 → u.state.stored = true) ∧
      past.countP (fun e => e.2.writes) ≤ 1 ∧
      (e.2 = .expire → u.state.stored = true → ByHand past ∨ ∃ i, u.state.caller i = .written) := by
  obtain ⟨u', w, hu', hnow, hd, hstep⟩ := timedRun_past h
  cases hu'.symm.trans hu
  have hsound := run_sound harm hu
  refine ⟨fun hlate => ?_, hsound.once, fun hexp hst => hsound.due hst fun hno => ?_⟩
  · cases hexp : u.state.expiry with
    | none => exact hsound.gone hexp
    | some d =>
      have hle := hd (d + c.lag) (mem_runsBy.mpr ⟨d, hexp, rfl⟩)
      have hdue := (hsound.expiry d hexp).1
      omega
  · obtain ⟨-, hs⟩ := Option.ite_none_left_eq_some.mp hstep
    rw [hexp] at hs
    unfold stepOn at hs
    rw [hno] at hs
    cases hs

def twoMinutes : Setup := ⟨120000, 20⟩

def onTrial : Boot := ⟨⟨true, true, fun _ => 0⟩, false, 2⟩

/-- Two threads call it healthy; the first of them confirms it. -/
def twoThreads : List (ℕ × Event Bool) :=
  [(5000, .healthy true), (5001, .healthy false), (5040, .wrote true 0), (5041, .unregistered true)]

theorem trial_ends_two : ∃ u, timedRun (deadlines twoMinutes) step (appImgConfirmArm twoMinutes onTrial)
      twoThreads = some u ∧
    (twoMinutes.timeoutMs + twoMinutes.lag < 130000 → u.state.stored = true) ∧
      twoThreads.countP (fun e => e.2.writes) ≤ 1 ∧
      ((Event.pass : Event Bool) = .expire → u.state.stored = true →
        ByHand twoThreads ∨ ∃ i, u.state.caller i = .written) :=
  ⟨_, rfl, trial_ends twoMinutes onTrial (.inr ⟨rfl, by decide⟩) twoThreads [] (130000, .pass) rfl rfl⟩

end ZephyrApps.TrialImages
