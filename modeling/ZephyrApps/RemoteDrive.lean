import Mathlib
import ZephyrApps.MotorWatchdog
import ZephyrApps.TeleopLoop

/-!
# The joystick drives the rover

`main.c` of the joystick publishes twists on the topic from which `app_picoros.c` of the rover takes
its commands, and nothing else does. A twist that is under way reaches the rover within some time,
or is lost. What the dead-man switch of the one and the watchdog of the other promise together is
that the wheels turn only for a pilot.
-/
namespace ZephyrApps.RemoteDrive
open DelayableWork SystemRuns Teleop TeleopLoop
open MotorWatchdog (Motors Motor Call Side Devices Watched Still afterCall afterCall_stop
  afterCall_setDuty afterCall_setDriveMode mem_deadlines mem_leavesBy step_cmdVel step_called step_fire
  step_stopped step_coasted step_watched still_step)

variable {D F U : Type}

/-- `cmd_vel_handler`: the command that the rover takes from a twist, where `narrow` is the
conversion to `float`. -/
def cmdVelHandler (narrow : D → F) (t : TeleopTwist D) : F × F :=
  (narrow t.linearX, narrow t.angularZ)

/-- The arithmetic of `app_motors_cmd_vel`, in exact numbers -/
def wheelDuty (halfTrackM maxSpeedMS : ℚ) (cmd : ℚ × ℚ) : Side → ℚ
  | .left => max (-1) (min 1 ((cmd.1 - cmd.2 * halfTrackM) / maxSpeedMS))
  | .right => max (-1) (min 1 ((cmd.1 + cmd.2 * halfTrackM) / maxSpeedMS))

/-- The limits of the joystick, how long a twist is under way at most, the rover and its
arithmetic. -/
structure Setup (D F U : Type) where
  lim : TeleopLimits D
  delayMs : ℕ
  motors : MotorWatchdog.Setup
  narrow : D → F
  duty : F × F → Side → U

structure Drive (D U : Type) where
  pilot : Control D
  underWay : List (ℕ × TeleopTwist D)
  rover : Motors U

def Drive.boot [Zero U] (d : Devices) : Drive D U := ⟨.boot, [], .init d⟩

/-- A turn of the joystick's loop, a twist that arrives, one that is lost, and what the rover does
besides taking commands. -/
inductive Event (F : Type) where
  | pilot (turn : Turn)
  | arrive (i : ℕ)
  | lose (i : ℕ)
  | rover (e : MotorWatchdog.Event (F × F))

def published (s s' : Control D) : List (TeleopTwist D) :=
  (s'.sent.drop s.sent.length).filterMap fun
    | .twist t => some t
    | .grasp _ => none

theorem published_same (s : Control D) (state : TeleopState) (connected : Bool) :
    published s ⟨state, connected, s.sent⟩ = [] := by
  rw [published, List.drop_length]
  rfl

theorem published_twist (s : Control D) (state : TeleopState) (connected : Bool)
    (t : TeleopTwist D) : published s ⟨state, connected, s.sent ++ [.twist t]⟩ = [t] := by
  rw [published, List.drop_left]
  rfl

def step [IntCast D] [Mul D] [Div D] [Zero U] (c : Setup D F U) (s : Drive D U) (t : ℕ) :
    Event F → Option (Drive D U)
  | .pilot turn =>
    let pilot := mainTurn false c.lim s.pilot turn
    some { s with pilot, underWay := s.underWay ++ (published s.pilot pilot).map fun x => (t, x) }
  | .arrive i =>
    s.underWay[i]?.bind fun x =>
      let e := MotorWatchdog.Event.cmdVel (cmdVelHandler c.narrow x.2)
      (MotorWatchdog.step c.motors c.duty s.rover t e).map fun rover =>
        { s with rover, underWay := s.underWay.eraseIdx i }
  | .lose i => some { s with underWay := s.underWay.eraseIdx i }
  | .rover (.cmdVel _) => none
  | .rover e => (MotorWatchdog.step c.motors c.duty s.rover t e).map fun rover => { s with rover }

def deadlines (c : Setup D F U) (s : Drive D U) : List ℕ :=
  MotorWatchdog.deadlines c.motors s.rover ++ s.underWay.map fun x => x.1 + c.delayMs

def Linked (turn : Turn) : Prop := turn.l4Up = true ∧ turn.interfaceUp = true

def Off (turn : Turn) : Prop := turn.input.enable = false

def On (turn : Turn) : Prop := turn.input.enable = true ∧ Linked turn

def Centred (turn : Turn) : Prop := centred turn.input = true

/-- `P` at some turn, and `Q` from it on. -/
def Since (P Q : Turn → Prop) (past : List Turn) : Prop :=
  ∃ before first between, past = before ++ first :: between ∧ P first ∧
    ∀ x ∈ first :: between, Q x

variable {P Q : Turn → Prop} {past : List Turn} {turn : Turn}

theorem since_now (hp : P turn) (hq : Q turn) : Since P Q (past ++ [turn]) :=
  ⟨past, turn, [], rfl, hp, fun _ hx => List.mem_singleton.mp hx ▸ hq⟩

theorem Since.concat (h : Since P Q past) (hq : Q turn) : Since P Q (past ++ [turn]) := by
  obtain ⟨before, first, between, rfl, hp, hall⟩ := h
  refine ⟨before, first, between ++ [turn], List.append_assoc .., hp, fun x hx => ?_⟩
  rw [← List.cons_append] at hx
  rcases List.mem_append.mp hx with hx | hx
  · exact hall x hx
  · exact List.mem_singleton.mp hx ▸ hq

/-- What the state of `teleop.c` says of the turns so far. -/
structure Knows (past : List Turn) (s : TeleopState) : Prop where
  free : s.blocked = false → Since Off Linked past
  armed : s.armed = true → Since Centred On past
  unarmed : s.blocked = true → s.armed = false

theorem knows_reset : Knows past teleopReset := by
  refine ⟨fun h => ?_, fun h => ?_, fun _ => rfl⟩
  · cases h
  · cases h

section
variable [IntCast D] [Mul D] [Div D]

theorem Knows.step {s : TeleopState} (h : Knows past s) (hl : Linked turn) (lim : TeleopLimits D) :
    Knows (past ++ [turn]) (teleopStep s (turn.read false) lim).1 := by
  have hp := teleopStep_passes s (turn.read false) lim
  generalize teleopStep s (turn.read false) lim = r at hp
  have hfree : s.blocked = false → Since Off Linked (past ++ [turn]) := fun hf =>
    (h.free hf).concat hl
  have hheld : turn.input.enable = true → s.armed = true → Since Centred On (past ++ [turn]) :=
    fun on ha => (h.armed ha).concat ⟨on, hl⟩
  have hcentred : turn.input.enable = true → centred turn.input = true →
      Since Centred On (past ++ [turn]) := fun on hc => since_now hc ⟨on, hl⟩
  cases hp with
  | waits blocked =>
    have hunarmed := h.unarmed blocked
    refine ⟨fun off => since_now off hl, fun ha => ?_, fun _ => hunarmed⟩
    cases hunarmed.symm.trans ha
  | ends free changed owed =>
    refine ⟨fun _ => hfree free, fun ha => ?_, fun _ => rfl⟩
    cases ha
  | rests free off still =>
    refine ⟨fun _ => hfree free, fun ha => ?_, fun _ => rfl⟩
    cases ha
  | rearms free on changed still =>
    refine ⟨fun _ => hfree free, hcentred on, fun hb => ?_⟩
    cases free.symm.trans hb
  | arms free on same unarmed =>
    refine ⟨fun _ => hfree free, hcentred on, fun hb => ?_⟩
    cases free.symm.trans hb
  | centres free on same armed centre owed => exact ⟨fun _ => hfree free, hheld on, h.unarmed⟩
  | holds free on same armed centre still => exact ⟨fun _ => hfree free, hheld on, h.unarmed⟩
  | moves free on same armed deflected => exact ⟨fun _ => hfree free, hheld on, h.unarmed⟩

/-- The pilot steers at a turn: with the switch on and the stick off its centre, where the stick has
been centred before and the switch on ever since, and the switch has been off since the link came
up. -/
structure Steers (past : List Turn) (turn : Turn) : Prop where
  on : On turn
  deflected : ¬ Centred turn
  armed : Since Centred On past
  free : Since Off Linked past

theorem Knows.steers {s : TeleopState} {lim : TeleopLimits D} {t : TeleopTwist D}
    (h : Knows past s) (hl : Linked turn)
    (ht : (teleopStep s (turn.read false) lim).2 = some (.motion t)) : Steers past turn := by
  have hp := teleopStep_passes s (turn.read false) lim
  generalize teleopStep s (turn.read false) lim = r at hp ht
  cases hp with
  | moves free on same armed deflected =>
    refine ⟨⟨on, hl⟩, fun hc => ?_, h.armed armed, h.free free⟩
    exact Bool.false_ne_true (deflected.symm.trans hc)
  | waits => cases ht
  | ends => cases ht
  | rests => cases ht
  | rearms => cases ht
  | arms => cases ht
  | centres => cases ht
  | holds => cases ht

/-- A turn of a connected joystick for a base: it stays connected by a step of `teleop.c` alone, and
what it publishes is what that step says. -/
theorem mainTurn_base {s : Control D} (hc : s.connected = true) (lim : TeleopLimits D)
    (turn : Turn) :
    let s' := mainTurn false lim s turn
    let r := teleopStep s.state (turn.read false) lim
    (s'.connected = true → Linked turn ∧ s'.state = r.1) ∧
      ∀ t ∈ published s s', Linked turn ∧ ∃ p, r.2 = some p ∧ t = p.twist := by
  intro s' r
  have hnone : ∀ state connected, ∀ t ∈ published s ⟨state, connected, s.sent⟩,
      Linked turn ∧ ∃ p, r.2 = some p ∧ t = p.twist := by
    intro state connected t ht
    rw [published_same] at ht
    cases ht
  by_cases hup : (turn.l4Up && turn.interfaceUp) = true
  · have hl : Linked turn := Bool.and_eq_true_iff.mp hup
    have hs' : s' = { (stepTwist lim s turn (turn.read false)).1 with
        connected := (stepTwist lim s turn (turn.read false)).2 } := by
      simp [s', mainTurn, hc, hup]
    have hr : r = teleopStep s.state (turn.read false) lim := rfl
    rw [hs', stepTwist]
    dsimp only
    rw [← hr]
    cases hp : r.2 with
    | none =>
      rw [hp] at hnone
      exact ⟨fun _ => ⟨hl, rfl⟩, hnone _ _⟩
    | some p =>
      dsimp only
      rw [hp] at hnone
      split
      case isTrue =>
        refine ⟨fun _ => ⟨hl, rfl⟩, fun t ht => ⟨hl, p, rfl, ?_⟩⟩
        rw [published_twist] at ht
        exact List.mem_singleton.mp ht
      case isFalse =>
        refine ⟨fun h => ?_, hnone _ _⟩
        cases h
  · have hs' : s' = { s with connected := false } := by simp [s', mainTurn, hc, hup]
    rw [hs']
    refine ⟨fun h => ?_, hnone _ _⟩
    cases h

end

variable {c : Setup D F U} {es : List (ℕ × Event F)} {s s' : Motors U} {t z a : ℕ} {side : Side}
  {tw : TeleopTwist D}

def turnsOf (es : List (ℕ × Event F)) : List Turn :=
  es.filterMap fun e =>
    match e.2 with
    | .pilot turn => some turn
    | _ => none

/-- The pilot steers at time `a`. -/
def SteeredAt (es : List (ℕ × Event F)) (a : ℕ) : Prop :=
  ∃ before turn later, es = before ++ (a, .pilot turn) :: later ∧ Steers (turnsOf before) turn

/-- A twist of a turn at which the pilot steers may arrive at time `z`. -/
def Driven (c : Setup D F U) (es : List (ℕ × Event F)) (z : ℕ) : Prop :=
  ∃ a, SteeredAt es a ∧ z ≤ a + c.delayMs

theorem SteeredAt.mono (h : SteeredAt es a) (e : ℕ × Event F) : SteeredAt (es ++ [e]) a := by
  obtain ⟨before, turn, later, rfl, hs⟩ := h
  exact ⟨before, turn, later ++ [e], List.append_assoc .., hs⟩

theorem Driven.mono (h : Driven c es z) (e : ℕ × Event F) : Driven c (es ++ [e]) z := by
  obtain ⟨a, hs, hle⟩ := h
  exact ⟨a, hs.mono e, hle⟩

variable [Zero U]

/-- The stop of the joystick gives no duty. -/
def StopsWheels [IntCast D] (c : Setup D F U) : Prop :=
  ∀ side, c.duty (cmdVelHandler c.narrow .zero) side = 0

/-- The rover has taken a stop: the wheel that still runs is about to be stopped by it, soon after a
command of the pilot. -/
structure Halting (c : Setup D F U) (es : List (ℕ × Event F)) (s : Motors U) : Prop where
  reader : ∀ side x, .setDuty side x ∈ s.reader.calls → x = 0
  running : ∀ side, (s.motor side).duty ≠ 0 → .setDuty side 0 ∈ s.reader.calls ∧
    ∃ z, Driven c es z ∧
      s.reader.begun ≤ z + c.motors.cmdTimeoutMs + c.motors.lag + 2 * c.motors.callsMs

theorem Halting.mono (h : Halting c es s) (e : ℕ × Event F) : Halting c (es ++ [e]) s := by
  refine ⟨h.reader, fun side hrun => ?_⟩
  obtain ⟨hmem, z, hz, hle⟩ := h.running side hrun
  exact ⟨hmem, z, hz.mono e, hle⟩

/-- A wheel that runs after a call that is accepted and sets no other duty than zero has run before
it, and the call did not stop it. -/
theorem afterCall_running {m : Side → Motor U} {call : Call U}
    (hzero : ∀ side x, call = .setDuty side x → x = 0)
    (hrun : (afterCall m call 0 side).duty ≠ 0) :
    (m side).duty ≠ 0 ∧ call ≠ .setDuty side 0 := by
  cases call with
  | setDuty other x =>
    cases hzero other x rfl
    have hother : side ≠ other := afterCall_stop hrun
    have hsame : afterCall m (.setDuty other 0) 0 side = m side := afterCall_setDuty (.inl hother)
    refine ⟨hsame ▸ hrun, fun he => ?_⟩
    exact hother (Call.setDuty.inj he).1.symm
  | setDriveMode other =>
    refine ⟨fun hno => hrun (afterCall_setDriveMode.trans hno), fun he => ?_⟩
    cases he
  | reschedule =>
    refine ⟨hrun, fun he => ?_⟩
    cases he

/-- What leaves the reader alone and starts no wheel leaves the stop. -/
theorem Halting.keep (h : Halting c es s) (hreader : s'.reader = s.reader)
    (hrun : ∀ side, (s'.motor side).duty ≠ 0 → (s.motor side).duty ≠ 0) : Halting c es s' := by
  refine ⟨?_, fun side hs => ?_⟩
  · rw [hreader]
    exact h.reader
  · rw [hreader]
    exact h.running side (hrun side hs)

theorem Halting.called {call : Call U} {calls : List (Call U)} (h : Halting c es s)
    (hcalls : s.reader.calls = call :: calls) :
    Halting c es ({ s with reader := ⟨s.reader.begun, calls⟩ }.called c.motors t call 0) := by
  have hzero : ∀ side x, call = .setDuty side x → x = 0 := by
    intro side x he
    apply h.reader side x
    rw [hcalls, he]
    exact List.mem_cons_self
  refine ⟨fun side x hx => ?_, fun side hrun => ?_⟩
  · apply h.reader side x
    rw [hcalls]
    exact List.mem_cons_of_mem _ hx
  · obtain ⟨hbefore, hne⟩ := afterCall_running hzero hrun
    obtain ⟨hmem, hsoon⟩ := h.running side hbefore
    rw [hcalls] at hmem
    exact ⟨(List.mem_cons.mp hmem).resolve_left hne.symm, hsoon⟩

/-- Whatever the rover does but taking a command leaves the stop. -/
theorem Halting.step {e : MotorWatchdog.Event (F × F)} (h : Halting c es s)
    (hw : Watched c.motors z s) (hs : MotorWatchdog.step c.motors c.duty s t e = some s')
    (hcmd : ∀ cmd, e ≠ .cmdVel cmd) (hret : ∀ ret, e = .called ret ∨ e = .stopped ret → ret = 0) :
    Halting c es s' := by
  cases e with
  | pass =>
    cases hs
    exact h
  | cmdVel cmd => exact absurd rfl (hcmd cmd)
  | called ret =>
    obtain ⟨call, calls, hcalls, rfl⟩ := step_called hs
    rw [hret ret (.inl rfl)]
    exact h.called hcalls
  | fire =>
    obtain ⟨due, -, -, -, rfl⟩ := step_fire hs
    exact h.keep rfl fun _ hrun => hrun
  | stopped ret =>
    obtain ⟨other, x, calls, hcalls, rfl⟩ := step_stopped hs
    rw [hret ret (.inr rfl)]
    refine h.keep rfl fun side hrun => (afterCall_running ?_ hrun).1
    intro side' y he
    apply hw.stops side' y
    rw [hcalls, he]
    exact List.mem_cons_self
  | coasted ret =>
    obtain ⟨other, calls, hcalls, rfl⟩ := step_coasted hs
    exact h.keep rfl fun side hrun hno => hrun (afterCall_setDriveMode.trans hno)

/-- The rover has not been driven, or the last command it took was the pilot's, or a stop. -/
def Obeys (c : Setup D F U) (es : List (ℕ × Event F)) (now : ℕ) (s : Motors U) : Prop :=
  Still s ∨ ∃ z, z ≤ now ∧ Watched c.motors z s ∧ (Driven c es z ∨ Halting c es s)

theorem Obeys.mono {now : ℕ} (h : Obeys c es now s) (e : ℕ × Event F) (ht : now ≤ t) :
    Obeys c (es ++ [e]) t s := by
  rcases h with hstill | ⟨z, hz, hw, hd | hh⟩
  · exact .inl hstill
  · exact .inr ⟨z, hz.trans ht, hw, .inl (hd.mono e)⟩
  · exact .inr ⟨z, hz.trans ht, hw, .inr (hh.mono e)⟩

/-- The rover obeys whatever it does but taking a command. -/
theorem Obeys.step {e : MotorWatchdog.Event (F × F)} (h : Obeys c es t s)
    (hd : ∀ d ∈ MotorWatchdog.deadlines c.motors s, t ≤ d)
    (hs : MotorWatchdog.step c.motors c.duty s t e = some s') (hcmd : ∀ cmd, e ≠ .cmdVel cmd)
    (hret : ∀ ret, e = .called ret ∨ e = .stopped ret → ret = 0) : Obeys c es t s' := by
  rcases h with hstill | ⟨z, hz, hw, hobeys⟩
  · rcases still_step hstill hs with hstill' | ⟨⟨cmd, he⟩, -⟩
    · exact .inl hstill'
    · exact absurd he (hcmd cmd)
  · rcases step_watched hw hz hd hs fun ret he => hret ret (.inr he) with hw' | ⟨⟨cmd, he⟩, -⟩
    · exact .inr ⟨z, hz, hw', hobeys.imp_right fun hh => hh.step hw hs hcmd hret⟩
    · exact absurd he (hcmd cmd)

theorem stop_calls [IntCast D] (hstop : StopsWheels c) :
    MotorWatchdog.appMotorsCmdVel c.duty (cmdVelHandler c.narrow .zero) =
      [.setDuty .left 0, .setDuty .right 0, .reschedule] := by
  rw [MotorWatchdog.appMotorsCmdVel, hstop, hstop]

/-- A command of the pilot, or a stop, arrives. -/
theorem Obeys.arrive [IntCast D] (h : Obeys c es t s) (hstop : StopsWheels c)
    (hd : ∀ d ∈ MotorWatchdog.deadlines c.motors s, t ≤ d)
    (hs : MotorWatchdog.step c.motors c.duty s t (.cmdVel (cmdVelHandler c.narrow tw)) = some s')
    (htw : tw = .zero ∨ Driven c es t) : Obeys c es t s' := by
  obtain ⟨hcalls, rfl⟩ := step_cmdVel hs
  split
  case isFalse => exact h
  case isTrue =>
    have hw : ∃ z, z ≤ t ∧ Watched c.motors z s := by
      rcases h with hstill | ⟨z, hz, hw, -⟩
      · exact ⟨t, Nat.le_refl t, hstill.watched⟩
      · exact ⟨z, hz, hw⟩
    obtain ⟨z, hz, hw⟩ := hw
    refine .inr ⟨t, Nat.le_refl t, (hw.later hz).cmdVel _, ?_⟩
    rcases htw with rfl | hdriven
    · rw [stop_calls hstop]
      refine .inr ⟨fun side x hx => ?_, fun side hrun => ?_⟩
      · simp only [List.mem_cons, Call.setDuty.injEq, reduceCtorEq, or_false, List.not_mem_nil] at hx
        rcases hx with ⟨-, hx⟩ | ⟨-, hx⟩
        · exact hx
        · exact hx
      · refine ⟨?_, ?_⟩
        · cases side with
          | left => exact List.mem_cons_self
          | right => exact List.mem_cons_of_mem _ List.mem_cons_self
        · rcases h with hstill | ⟨z, hz, hw, hdriven | hh⟩
          · exact absurd (hstill.duty side) hrun
          · exact ⟨z, hdriven, hw.le_of_running hd hrun⟩
          · have hmem := (hh.running side hrun).1
            rw [hcalls] at hmem
            cases hmem
    · exact .inl hdriven

variable {v : Timed (Drive D U)} {e : Event F} {d : Drive D U}

structure Good [IntCast D] (c : Setup D F U) (es : List (ℕ × Event F)) (v : Timed (Drive D U)) :
    Prop where
  knows : v.state.pilot.connected = true → Knows (turnsOf es) v.state.pilot.state
  underWay : ∀ x ∈ v.state.underWay, x.2 = .zero ∨ SteeredAt es x.1
  rover : Obeys c es v.now v.state.rover

/-- The controllers of the motors accept all setpoints. -/
def Accepted (e : Event F) : Prop :=
  ∀ ret, e = .rover (.called ret) ∨ e = .rover (.stopped ret) → ret = 0

theorem turnsOf_pilot (t : ℕ) (turn : Turn) :
    turnsOf (es ++ [(t, .pilot turn)]) = turnsOf es ++ [turn] := by
  rw [turnsOf, List.filterMap_append]
  rfl

theorem turnsOf_other (t : ℕ) (h : ∀ turn, e ≠ .pilot turn) :
    turnsOf (es ++ [(t, e)]) = turnsOf es := by
  rw [turnsOf, List.filterMap_append]
  cases e with
  | pilot turn => exact absurd rfl (h turn)
  | _ => exact List.append_nil _

variable [IntCast D] [Mul D] [Div D]

theorem step_rover {e : MotorWatchdog.Event (F × F)} {d' : Drive D U}
    (h : step c d t (.rover e) = some d') : (∀ cmd, e ≠ .cmdVel cmd) ∧
      ∃ r, MotorWatchdog.step c.motors c.duty d.rover t e = some r ∧
        d' = { d with rover := r } := by
  cases e with
  | cmdVel cmd => cases h
  | pass =>
    refine ⟨fun cmd he => ?_, d.rover, rfl, (Option.some.inj h).symm⟩
    cases he
  | _ =>
    obtain ⟨r, hr, rfl⟩ := Option.map_eq_some_iff.mp h
    refine ⟨fun cmd he => ?_, r, hr, rfl⟩
    cases he

omit [Zero U] in
/-- A turn publishes nothing but stops unless the pilot steers, and what the state says is kept. -/
theorem pilot_step {s : Control D} (h : s.connected = true → Knows past s.state)
    (lim : TeleopLimits D) (turn : Turn) :
    let s' := mainTurn false lim s turn
    (s'.connected = true → Knows (past ++ [turn]) s'.state) ∧
      ∀ x ∈ published s s', x = .zero ∨ Steers past turn := by
  intro s'
  cases hc : s.connected with
  | false =>
    have hs' : s' = ⟨teleopReset, turn.l4Up && turn.connects, s.sent⟩ := mainTurn_reset hc
    rw [hs', published_same]
    refine ⟨fun _ => knows_reset, fun x hx => ?_⟩
    cases hx
  | true =>
    have hknows := h hc
    obtain ⟨hstate, hsent⟩ := mainTurn_base hc lim turn
    refine ⟨fun hc' => ?_, fun x hx => ?_⟩
    · obtain ⟨hl, hs⟩ := hstate hc'
      rw [hs]
      exact hknows.step hl lim
    · obtain ⟨hl, p, hp, rfl⟩ := hsent x hx
      cases p with
      | stop => exact .inl rfl
      | motion tw => exact .inr (hknows.steers hl hp)

theorem Good.step (h : Good c es v) (hstop : StopsWheels c) (hnow : v.now ≤ t)
    (hd : ∀ d ∈ deadlines c v.state, t ≤ d) {d' : Drive D U} (hs : step c v.state t e = some d')
    (hacc : Accepted e) : Good c (es ++ [(t, e)]) ⟨t, d'⟩ := by
  have hrover := h.rover.mono (t, e) hnow
  have hunder : ∀ x ∈ v.state.underWay, x.2 = .zero ∨ SteeredAt (es ++ [(t, e)]) x.1 :=
    fun x hx => (h.underWay x hx).imp_right fun hs => hs.mono (t, e)
  have hd' : ∀ d ∈ MotorWatchdog.deadlines c.motors v.state.rover, t ≤ d :=
    fun d hmem => hd d (List.mem_append_left _ hmem)
  cases e with
  | pilot turn =>
    cases hs
    obtain ⟨hknows, hsent⟩ := pilot_step h.knows c.lim turn
    refine ⟨?_, fun x hx => ?_, hrover⟩
    · rw [turnsOf_pilot]
      exact hknows
    · rcases List.mem_append.mp hx with hx | hx
      · exact hunder x hx
      · obtain ⟨y, hy, rfl⟩ := List.mem_map.mp hx
        exact (hsent y hy).imp_right fun hst => ⟨es, turn, [], rfl, hst⟩
  | arrive i =>
    obtain ⟨x, hx, hs⟩ := Option.bind_eq_some_iff.mp hs
    obtain ⟨r, hr, rfl⟩ := Option.map_eq_some_iff.mp hs
    have hmem := List.mem_of_getElem? hx
    have hby : t ≤ x.1 + c.delayMs :=
      hd _ (List.mem_append_right _ (List.mem_map.mpr ⟨x, hmem, rfl⟩))
    have htw : x.2 = .zero ∨ Driven c (es ++ [(t, .arrive i)]) t :=
      (hunder x hmem).imp_right fun hsteer => ⟨x.1, hsteer, hby⟩
    refine ⟨?_, fun y hy => hunder y (List.mem_of_mem_eraseIdx hy), ?_⟩
    · rw [turnsOf_other t (fun turn he => by cases he)]
      exact h.knows
    · exact hrover.arrive hstop hd' hr htw
  | lose i =>
    cases hs
    refine ⟨?_, fun y hy => hunder y (List.mem_of_mem_eraseIdx hy), hrover⟩
    rw [turnsOf_other t (fun turn he => by cases he)]
    exact h.knows
  | rover e =>
    obtain ⟨hcmd, r, hr, rfl⟩ := step_rover hs
    refine ⟨?_, hunder, ?_⟩
    · rw [turnsOf_other t (fun turn he => by cases he)]
      exact h.knows
    · refine hrover.step hd' hr hcmd fun ret he => hacc ret ?_
      rcases he with rfl | rfl
      · exact .inl rfl
      · exact .inr rfl

omit [Mul D] [Div D] in
theorem boot_good (c : Setup D F U) (d : Devices) :
    Good c ([] : List (ℕ × Event F)) ⟨0, .boot d⟩ := by
  refine ⟨fun h => ?_, fun x hx => ?_, .inl (MotorWatchdog.init_still d)⟩
  · cases h
  · cases hx

theorem run_good (hstop : StopsWheels c) (d : Devices)
    (h : timedRun (deadlines c) (step c) (.boot d) es = some v) :
    (∀ x ∈ es, Accepted x.2) → Good c es v := by
  refine timedRun_induction (I := fun es v => (∀ x ∈ es, Accepted x.2) → Good c es v)
    (fun _ => boot_good c d) ?_ h
  intro past v t e d' ih hnow hd hs hacc
  have hlast : (t, e) ∈ past ++ [(t, e)] := List.mem_append_right _ (List.mem_singleton.mpr rfl)
  have hpast := ih fun x hx => hacc x (List.mem_append_left _ hx)
  exact hpast.step hstop hnow hd hs (hacc _ hlast)

omit [Mul D] [Div D] in
/-- While a wheel runs time does not go far from a command of the pilot. -/
theorem Good.le_of_running (h : Good c es v) (hd : ∀ d ∈ deadlines c v.state, t ≤ d)
    (hrun : (v.state.rover.motor side).duty ≠ 0) : ∃ a, SteeredAt es a ∧
      t ≤ a + c.delayMs + c.motors.cmdTimeoutMs + c.motors.lag + 3 * c.motors.callsMs := by
  have hd' : ∀ d ∈ MotorWatchdog.deadlines c.motors v.state.rover, t ≤ d :=
    fun d hmem => hd d (List.mem_append_left _ hmem)
  rcases h.rover with hstill | ⟨z, -, hw, ⟨a, hsteer, hle⟩ | hh⟩
  · exact absurd (hstill.duty side) hrun
  · have := hw.le_of_running hd' hrun
    exact ⟨a, hsteer, by omega⟩
  · obtain ⟨hmem, z', ⟨a, hsteer, hle⟩, hbegun⟩ := hh.running side hrun
    have hby := hd' _ (mem_deadlines.mpr (.inr (.inl (mem_leavesBy (List.ne_nil_of_mem hmem)))))
    exact ⟨a, hsteer, by omega⟩

/-- The wheels turn only for a pilot. However the joystick, the network and the rover interleave,
and whatever twists are lost: an event that finds a wheel with a duty other than zero follows a turn
at which the pilot steers by no more than the way of a twist, the timeout of the rover, the latency
of its queue and the time of its calls; provided that the motors take their setpoints. -/
theorem wheels_need_pilot (c : Setup D F U) (hstop : StopsWheels c) (d : Devices)
    (past future : List (ℕ × Event F)) (e : ℕ × Event F) {u v : Timed (Drive D U)}
    (h : timedRun (deadlines c) (step c) (.boot d) (past ++ e :: future) = some v)
    (hu : timedRun (deadlines c) (step c) (.boot d) past = some u)
    (hacc : ∀ x ∈ past, Accepted x.2) (side : Side) (hrun : (u.state.rover.motor side).duty ≠ 0) :
    ∃ a before turn later, past = before ++ (a, .pilot turn) :: later ∧
      Steers (turnsOf before) turn ∧
      e.1 ≤ a + c.delayMs + c.motors.cmdTimeoutMs + c.motors.lag + 3 * c.motors.callsMs := by
  obtain ⟨u', w, hu', hnow, hd, hstep⟩ := timedRun_past h
  cases hu'.symm.trans hu
  obtain ⟨a, ⟨before, turn, later, hpast, hsteer⟩, hle⟩ :=
    (run_good hstop d hu hacc).le_of_running hd hrun
  exact ⟨a, before, turn, later, hpast, hsteer, hle⟩

/-- Twists take a tenth of a second at most, and the rover waits for half a second. -/
def field : Setup ℚ ℚ ℚ := ⟨⟨1 / 2, 1⟩, 100, ⟨500, 20, 10⟩, id, wheelDuty (1 / 16) (1 / 2)⟩

/-- The joystick connects, the switch is off, the stick is centred, then pushed forward; the twist
arrives, and the wheels are driven. -/
def ride : List (ℕ × Event ℚ) :=
  [(0, .pilot (turnAt false false)), (50, .pilot (turnAt false false)),
    (100, .pilot (turnAt true false)),
    (150, .pilot { turnAt true false with input := ⟨true, false, false, 0, 500, 0⟩ }),
    (170, .arrive 0), (171, .rover (.called 0)), (172, .rover (.called 0)),
    (173, .rover (.called 0))]

theorem field_stops : StopsWheels field := by
  intro side
  cases side with
  | left => decide +kernel
  | right => decide +kernel

theorem wheels_need_pilot_ride : ∃ a before turn later, ride = before ++ (a, .pilot turn) :: later ∧
    Steers (turnsOf before) turn ∧ 680 ≤ a + 100 + 500 + 20 + 3 * 10 :=
  wheels_need_pilot field field_stops ⟨fun _ => true, fun _ => 0⟩ ride [] (680, .rover .pass)
    rfl rfl (by simp [ride, Accepted]) .left (by decide +kernel)

end ZephyrApps.RemoteDrive
