import ZephyrApps.DelayableWork

/-!
# The watchdog of the motors

`app_motors.c`: commands come from the thread that reads the network, the watchdog runs on the work
queue, and the calls of one may come between those of the other. Times are in milliseconds.
-/
namespace ZephyrApps.MotorWatchdog
open DelayableWork SystemRuns

inductive Side where
  | left | right
  deriving DecidableEq

variable {F D : Type}

inductive Call (D : Type) where
  | setDuty (side : Side) (duty : D)
  | setDriveMode (side : Side)
  | reschedule
  deriving DecidableEq

/-- `app_motors_cmd_vel` once the module is ready, where `duty` is what its arithmetic makes of a
command for each side. -/
def appMotorsCmdVel (duty : F → Side → D) (cmd : F) : List (Call D) :=
  [.setDuty .left (duty cmd .left), .setDuty .right (duty cmd .right), .reschedule]

/-- `cmd_watchdog_handler` -/
def cmdWatchdogHandler [Zero D] : List (Call D) :=
  [.setDuty .left 0, .setDuty .right 0, .setDriveMode .left, .setDriveMode .right]

/-- A bridge: the duty it was last given, and whether it coasts. -/
structure Motor (D : Type) where
  duty : D
  coast : Bool
  deriving DecidableEq

structure Thread (D : Type) where
  begun : ℕ
  calls : List (Call D)
  deriving DecidableEq

structure Motors (D : Type) where
  ready : Bool
  motor : Side → Motor D
  cmdWatchdog : Work
  reader : Thread D
  queue : Thread D

/-- What `app_motors_init` finds: each motor ready, and what `actuator_enable` returns for it. -/
structure Devices where
  isReady : Side → Bool
  enable : Side → Int

/-- `app_motors_init` -/
def appMotorsInit (d : Devices) : Bool :=
  if !d.isReady .left || !d.isReady .right then false
  else if d.enable .left ≠ 0 ∨ d.enable .right ≠ 0 then false
  else true

def Motors.init [Zero D] (d : Devices) : Motors D :=
  ⟨appMotorsInit d, fun _ => ⟨0, false⟩, none, ⟨0, []⟩, ⟨0, []⟩⟩

/-- `CONFIG_APP_MOTORS_CMD_TIMEOUT_MS`; how late the queue runs an item at most, and how long a
thread is in one of the functions at most. -/
structure Setup where
  cmdTimeoutMs : ℕ
  lag : ℕ
  callsMs : ℕ

/-- The motors after a call: a setpoint that is accepted ends coasting. -/
def afterCall (m : Side → Motor D) (call : Call D) (ret : Int) : Side → Motor D :=
  match call with
  | .setDuty side duty => if ret = 0 then Function.update m side ⟨duty, false⟩ else m
  | .setDriveMode side => if ret = 0 then Function.update m side ⟨(m side).duty, true⟩ else m
  | .reschedule => m

def rearmed (c : Setup) (t : ℕ) (w : Work) : Call D → Work
  | .reschedule => reschedule (t + c.cmdTimeoutMs)
  | _ => w

def Motors.called (c : Setup) (s : Motors D) (t : ℕ) (call : Call D) (ret : Int) : Motors D :=
  { s with motor := afterCall s.motor call ret, cmdWatchdog := rearmed c t s.cmdWatchdog call }

/-- A command arrives, the next call of the reader returns, the watchdog fires, the next call of its
handler returns: a setpoint or a drive mode. -/
inductive Event (F : Type) where
  | cmdVel (cmd : F)
  | called (ret : Int)
  | fire
  | stopped (ret : Int)
  | coasted (ret : Int)
  | pass

def step [Zero D] (c : Setup) (duty : F → Side → D) (s : Motors D) (t : ℕ) :
    Event F → Option (Motors D)
  | .cmdVel cmd =>
    match s.reader.calls with
    | [] =>
      some (if s.ready then { s with reader := ⟨t, appMotorsCmdVel duty cmd⟩ } else s)
    | _ :: _ => none
  | .called ret =>
    match s.reader.calls with
    | [] => none
    | call :: calls => some ({ s with reader := ⟨s.reader.begun, calls⟩ }.called c t call ret)
  | .fire =>
    match s.cmdWatchdog, s.queue.calls with
    | some due, [] =>
      if due ≤ t then some { s with cmdWatchdog := none, queue := ⟨t, cmdWatchdogHandler⟩ } else none
    | _, _ => none
  | .stopped ret =>
    match s.queue.calls with
    | .setDuty side duty :: calls =>
      some ({ s with queue := ⟨s.queue.begun, calls⟩ }.called c t (.setDuty side duty) ret)
    | _ => none
  | .coasted ret =>
    match s.queue.calls with
    | .setDriveMode side :: calls =>
      some ({ s with queue := ⟨s.queue.begun, calls⟩ }.called c t (.setDriveMode side) ret)
    | _ => none
  | .pass => some s

def Thread.leavesBy (c : Setup) (th : Thread D) : List ℕ :=
  match th.calls with
  | [] => []
  | _ :: _ => [th.begun + c.callsMs]

def deadlines (c : Setup) (s : Motors D) : List ℕ :=
  runsBy c.lag s.cmdWatchdog ++ s.reader.leavesBy c ++ s.queue.leavesBy c

variable {c : Setup} {duty : F → Side → D} {s s' : Motors D} {t a d : ℕ} {side other : Side}
  {m : Side → Motor D} {x : D} {ret : Int}

theorem mem_deadlines : d ∈ deadlines c s ↔
    (∃ due, s.cmdWatchdog = some due ∧ due + c.lag = d) ∨
      d ∈ s.reader.leavesBy c ∨ d ∈ s.queue.leavesBy c := by
  rw [deadlines, List.mem_append, List.mem_append, mem_runsBy, or_assoc]

theorem mem_leavesBy {th : Thread D} (h : th.calls ≠ []) :
    th.begun + c.callsMs ∈ th.leavesBy c := by
  unfold Thread.leavesBy
  cases hcalls : th.calls with
  | nil => exact absurd hcalls h
  | cons call calls => exact List.mem_singleton.mpr rfl

/-- A setpoint touches nothing but its motor. -/
theorem afterCall_setDuty (h : side ≠ other ∨ ret ≠ 0) :
    afterCall m (.setDuty other x) ret side = m side := by
  unfold afterCall
  dsimp only
  split
  case isTrue hret =>
    have hne : side ≠ other := h.resolve_right fun hno => hno hret
    exact Function.update_of_ne hne _ _
  case isFalse => rfl

/-- A drive mode leaves the duty. -/
theorem afterCall_setDriveMode :
    (afterCall m (.setDriveMode other) ret side).duty = (m side).duty := by
  unfold afterCall
  dsimp only
  split
  · rcases eq_or_ne side other with he | hne
    · rw [he, Function.update_self]
    · rw [Function.update_of_ne hne]
  · rfl

/-- A stop that is accepted stops. -/
theorem afterCall_stop [Zero D] (h : (afterCall m (.setDuty other 0) 0 side).duty ≠ 0) :
    side ≠ other := by
  intro he
  apply h
  rw [he, afterCall]
  simp only [if_true, Function.update_self]

variable [Zero D]

/-- What the last command, which came at time `a`, leaves: a motor that runs has the watchdog
pending, or the reader on the way to it, or the handler on the way to that motor. -/
structure Watched (c : Setup) (a : ℕ) (s : Motors D) : Prop where
  reader : s.reader.calls ≠ [] →
    s.reader.begun ≤ a ∧ ∃ before, s.reader.calls = before ++ [.reschedule]
  queue : s.queue.calls ≠ [] → s.queue.begun ≤ a + c.callsMs + c.cmdTimeoutMs + c.lag
  stops : ∀ side x, .setDuty side x ∈ s.queue.calls → x = 0
  due : ∀ d, s.cmdWatchdog = some d → d ≤ a + c.callsMs + c.cmdTimeoutMs
  running : ∀ side, (s.motor side).duty ≠ 0 →
    (∃ d, s.cmdWatchdog = some d) ∨ s.reader.calls ≠ [] ∨ .setDuty side 0 ∈ s.queue.calls

/-- While a motor runs time does not go far from the command. -/
theorem Watched.le_of_running (h : Watched c a s) (hd : ∀ d ∈ deadlines c s, t ≤ d)
    (hrun : (s.motor side).duty ≠ 0) : t ≤ a + c.cmdTimeoutMs + c.lag + 2 * c.callsMs := by
  rcases h.running side hrun with ⟨d, hdue⟩ | hreader | hqueue
  · have hle := hd _ (mem_deadlines.mpr (.inl ⟨d, hdue, rfl⟩))
    have := h.due d hdue
    omega
  · have hle := hd _ (mem_deadlines.mpr (.inr (.inl (mem_leavesBy hreader))))
    have := (h.reader hreader).1
    omega
  · have hne := List.ne_nil_of_mem hqueue
    have hle := hd _ (mem_deadlines.mpr (.inr (.inr (mem_leavesBy hne))))
    have := h.queue hne
    omega

theorem Watched.called {call : Call D} {calls : List (Call D)} (h : Watched c a s)
    (hcalls : s.reader.calls = call :: calls) (ht : t ≤ a + c.callsMs) :
    Watched c a ({ s with reader := ⟨s.reader.begun, calls⟩ }.called c t call ret) := by
  have hne : s.reader.calls ≠ [] := by
    rw [hcalls]
    exact List.cons_ne_nil _ _
  obtain ⟨hbegun, before, hlast⟩ := h.reader hne
  have hdue : ∀ d, rearmed c t s.cmdWatchdog call = some d → d ≤ a + c.callsMs + c.cmdTimeoutMs := by
    intro d hd
    cases call with
    | setDuty side x => exact h.due d hd
    | setDriveMode side => exact h.due d hd
    | reschedule =>
      cases hd
      omega
  rw [hcalls] at hlast
  cases before with
  | nil =>
    obtain ⟨rfl, rfl⟩ := List.cons.inj hlast
    exact ⟨fun hno => absurd rfl hno, h.queue, h.stops, hdue, fun _ _ => .inl ⟨_, rfl⟩⟩
  | cons first before =>
    obtain ⟨-, rfl⟩ := List.cons.inj hlast
    have hleft : before ++ [.reschedule] ≠ ([] : List (Call D)) :=
      List.append_ne_nil_of_right_ne_nil _ (List.cons_ne_nil _ _)
    exact ⟨fun _ => ⟨hbegun, before, rfl⟩, h.queue, h.stops, hdue, fun _ _ => .inr (.inl hleft)⟩

theorem Watched.stopped {calls : List (Call D)} (h : Watched c a s)
    (hcalls : s.queue.calls = .setDuty other x :: calls) :
    Watched c a ({ s with queue := ⟨s.queue.begun, calls⟩ }.called c t (.setDuty other x) 0) := by
  have hzero : x = 0 := h.stops other x (hcalls ▸ List.mem_cons_self)
  have hne : s.queue.calls ≠ [] := hcalls ▸ List.cons_ne_nil _ _
  refine ⟨h.reader, fun _ => h.queue hne, fun side y hy => ?_, h.due, fun side hrun => ?_⟩
  · exact h.stops side y (hcalls ▸ List.mem_cons_of_mem _ hy)
  · rw [hzero] at hrun
    have hother : side ≠ other := afterCall_stop hrun
    have hsame : afterCall s.motor (.setDuty other 0) 0 side = s.motor side :=
      afterCall_setDuty (.inl hother)
    have hrun' : (s.motor side).duty ≠ 0 := hsame ▸ hrun
    rcases h.running side hrun' with hdue | hreader | hqueue
    · exact .inl hdue
    · exact .inr (.inl hreader)
    · refine .inr (.inr ?_)
      rw [hcalls] at hqueue
      rcases List.mem_cons.mp hqueue with he | hmem
      · exact absurd (Call.setDuty.inj he).1 hother
      · exact hmem

theorem Watched.coasted {calls : List (Call D)} (h : Watched c a s)
    (hcalls : s.queue.calls = .setDriveMode other :: calls) :
    Watched c a ({ s with queue := ⟨s.queue.begun, calls⟩ }.called c t (.setDriveMode other) ret) := by
  have hne : s.queue.calls ≠ [] := hcalls ▸ List.cons_ne_nil _ _
  refine ⟨h.reader, fun _ => h.queue hne, fun side y hy => ?_, h.due, fun side hrun => ?_⟩
  · exact h.stops side y (hcalls ▸ List.mem_cons_of_mem _ hy)
  · have hrun' : (s.motor side).duty ≠ 0 := fun hno => hrun (afterCall_setDriveMode.trans hno)
    rcases h.running side hrun' with hdue | hreader | hqueue
    · exact .inl hdue
    · exact .inr (.inl hreader)
    · refine .inr (.inr ?_)
      rw [hcalls] at hqueue
      rcases List.mem_cons.mp hqueue with he | hmem
      · cases he
      · exact hmem

theorem Watched.fire (h : Watched c a s) (ht : t ≤ a + c.callsMs + c.cmdTimeoutMs + c.lag) :
    Watched c a { s with cmdWatchdog := none, queue := ⟨t, cmdWatchdogHandler⟩ } := by
  refine ⟨h.reader, fun _ => ht, fun side x hx => ?_, fun d hd => ?_, fun side _ => ?_⟩
  · simp only [cmdWatchdogHandler, List.mem_cons, Call.setDuty.injEq, reduceCtorEq, or_false,
      List.not_mem_nil] at hx
    rcases hx with ⟨-, hx⟩ | ⟨-, hx⟩
    · exact hx
    · exact hx
  · cases hd
  · refine .inr (.inr ?_)
    cases side with
    | left => exact List.mem_cons_self
    | right => exact List.mem_cons_of_mem _ List.mem_cons_self

theorem Watched.later (h : Watched c a s) (hat : a ≤ t) : Watched c t s := by
  refine ⟨fun hne => ?_, fun hne => ?_, h.stops, fun d hd => ?_, h.running⟩
  · obtain ⟨hle, hlast⟩ := h.reader hne
    exact ⟨hle.trans hat, hlast⟩
  · have := h.queue hne
    omega
  · have := h.due d hd
    omega

theorem Watched.cmdVel (cmd : F) (h : Watched c t s) :
    Watched c t { s with reader := ⟨t, appMotorsCmdVel duty cmd⟩ } := by
  refine ⟨fun _ => ⟨Nat.le_refl t, [.setDuty .left (duty cmd .left),
    .setDuty .right (duty cmd .right)], rfl⟩, h.queue, h.stops, h.due,
    fun _ _ => .inr (.inl (List.cons_ne_nil _ _))⟩

structure Still (s : Motors D) : Prop where
  reader : s.reader.calls = []
  queue : s.queue.calls = []
  due : s.cmdWatchdog = none
  duty : ∀ side, (s.motor side).duty = 0

theorem Still.watched (h : Still s) : Watched c a s := by
  refine ⟨fun hne => absurd h.reader hne, fun hne => absurd h.queue hne, fun side x hx => ?_,
    fun d hd => ?_, fun side hrun => absurd (h.duty side) hrun⟩
  · rw [h.queue] at hx
    cases hx
  · cases h.due.symm.trans hd

theorem step_cmdVel {cmd : F} (hs : step c duty s t (.cmdVel cmd) = some s') :
    s.reader.calls = [] ∧
      s' = if s.ready then { s with reader := ⟨t, appMotorsCmdVel duty cmd⟩ } else s := by
  unfold step at hs
  cases hcalls : s.reader.calls with
  | nil =>
    rw [hcalls] at hs
    exact ⟨rfl, (Option.some.inj hs).symm⟩
  | cons call calls =>
    rw [hcalls] at hs
    cases hs

theorem step_called (hs : step c duty s t (.called ret) = some s') :
    ∃ call calls, s.reader.calls = call :: calls ∧
      s' = { s with reader := ⟨s.reader.begun, calls⟩ }.called c t call ret := by
  unfold step at hs
  cases hcalls : s.reader.calls with
  | nil =>
    rw [hcalls] at hs
    cases hs
  | cons call calls =>
    rw [hcalls] at hs
    exact ⟨call, calls, rfl, (Option.some.inj hs).symm⟩

theorem step_fire (hs : step c duty s t .fire = some s') :
    ∃ due, s.cmdWatchdog = some due ∧ s.queue.calls = [] ∧ due ≤ t ∧
      s' = { s with cmdWatchdog := none, queue := ⟨t, cmdWatchdogHandler⟩ } := by
  unfold step at hs
  dsimp only at hs
  split at hs
  case h_1 due hdue hidle =>
    obtain ⟨hle, he⟩ := Option.ite_none_right_eq_some.mp hs
    exact ⟨due, hdue, hidle, hle, (Option.some.inj he).symm⟩
  case h_2 => cases hs

theorem step_stopped (hs : step c duty s t (.stopped ret) = some s') :
    ∃ side x calls, s.queue.calls = .setDuty side x :: calls ∧
      s' = { s with queue := ⟨s.queue.begun, calls⟩ }.called c t (.setDuty side x) ret := by
  unfold step at hs
  dsimp only at hs
  split at hs
  case h_1 side x calls hcalls => exact ⟨side, x, calls, hcalls, (Option.some.inj hs).symm⟩
  case h_2 => cases hs

theorem step_coasted (hs : step c duty s t (.coasted ret) = some s') :
    ∃ side calls, s.queue.calls = .setDriveMode side :: calls ∧
      s' = { s with queue := ⟨s.queue.begun, calls⟩ }.called c t (.setDriveMode side) ret := by
  unfold step at hs
  dsimp only at hs
  split at hs
  case h_1 side calls hcalls => exact ⟨side, calls, hcalls, (Option.some.inj hs).symm⟩
  case h_2 => cases hs

/-- Every step keeps what the last command leaves, and a command leaves it anew. -/
theorem step_watched {e : Event F} (h : Watched c a s) (hat : a ≤ t)
    (hd : ∀ d ∈ deadlines c s, t ≤ d) (hs : step c duty s t e = some s')
    (hstop : ∀ ret, e = .stopped ret → ret = 0) :
    Watched c a s' ∨ (∃ cmd, e = .cmdVel cmd) ∧ Watched c t s' := by
  cases e with
  | pass =>
    cases hs
    exact .inl h
  | cmdVel cmd =>
    obtain ⟨-, rfl⟩ := step_cmdVel hs
    refine .inr ⟨⟨cmd, rfl⟩, ?_⟩
    split
    · exact (h.later hat).cmdVel cmd
    · exact h.later hat
  | called ret =>
    obtain ⟨call, calls, hcalls, rfl⟩ := step_called hs
    have hne : s.reader.calls ≠ [] := hcalls ▸ List.cons_ne_nil _ _
    have hle := hd _ (mem_deadlines.mpr (.inr (.inl (mem_leavesBy hne))))
    have hbegun := (h.reader hne).1
    exact .inl (h.called hcalls (by omega))
  | fire =>
    obtain ⟨due, hdue, -, -, rfl⟩ := step_fire hs
    have hle := hd _ (mem_deadlines.mpr (.inl ⟨due, hdue, rfl⟩))
    have := h.due due hdue
    exact .inl (h.fire (by omega))
  | stopped ret =>
    obtain ⟨side, x, calls, hcalls, rfl⟩ := step_stopped hs
    rw [hstop ret rfl]
    exact .inl (h.stopped hcalls)
  | coasted ret =>
    obtain ⟨side, calls, hcalls, rfl⟩ := step_coasted hs
    exact .inl (h.coasted hcalls)

/-- Nothing runs before the first command. -/
theorem still_step {e : Event F} (h : Still s) (hs : step c duty s t e = some s') :
    Still s' ∨ (∃ cmd, e = .cmdVel cmd) ∧ Watched c t s' := by
  cases e with
  | pass =>
    cases hs
    exact .inl h
  | cmdVel cmd =>
    obtain ⟨-, rfl⟩ := step_cmdVel hs
    refine .inr ⟨⟨cmd, rfl⟩, ?_⟩
    split
    · exact Watched.cmdVel cmd h.watched
    · exact h.watched
  | called ret =>
    obtain ⟨call, calls, hcalls, -⟩ := step_called hs
    cases h.reader.symm.trans hcalls
  | fire =>
    obtain ⟨due, hdue, -⟩ := step_fire hs
    cases h.due.symm.trans hdue
  | stopped ret =>
    obtain ⟨side, x, calls, hcalls, -⟩ := step_stopped hs
    cases h.queue.symm.trans hcalls
  | coasted ret =>
    obtain ⟨side, calls, hcalls, -⟩ := step_coasted hs
    cases h.queue.symm.trans hcalls

theorem init_still (d : Devices) : Still (.init d : Motors D) := ⟨rfl, rfl, rfl, fun _ => rfl⟩

/-- What holds after every run whose stops have all been accepted. -/
theorem run_watched (c : Setup) (duty : F → Side → D) (d : Devices) {es : List (ℕ × Event F)}
    {v : Timed (Motors D)} (h : timedRun (deadlines c) (step c duty) (.init d) es = some v) :
    (∀ x ∈ es, ∀ ret, x.2 = .stopped ret → ret = 0) →
      Still v.state ∨ ∃ a cmd, (a, .cmdVel cmd) ∈ es ∧ a ≤ v.now ∧ Watched c a v.state := by
  refine timedRun_induction (I := fun es v => (∀ x ∈ es, ∀ ret, x.2 = .stopped ret → ret = 0) →
    Still v.state ∨ ∃ a cmd, (a, .cmdVel cmd) ∈ es ∧ a ≤ v.now ∧ Watched c a v.state)
    (fun _ => .inl (init_still d)) ?_ h
  intro past v t e u ih hnow hd hs hstops
  have hlast : (t, e) ∈ past ++ [(t, e)] := List.mem_append_right _ (List.mem_singleton.mpr rfl)
  have hpast := ih fun x hx => hstops x (List.mem_append_left _ hx)
  rcases hpast with hstill | ⟨a, cmd, hcmd, hle, hw⟩
  · rcases still_step hstill hs with hstill' | ⟨⟨cmd, rfl⟩, hw⟩
    · exact .inl hstill'
    · exact .inr ⟨t, cmd, hlast, Nat.le_refl t, hw⟩
  · have hat := hle.trans hnow
    rcases step_watched hw hat hd hs (hstops _ hlast) with hw' | ⟨⟨cmd', rfl⟩, hw'⟩
    · exact .inr ⟨a, cmd, List.mem_append_left _ hcmd, hat, hw'⟩
    · exact .inr ⟨t, cmd', hlast, Nat.le_refl t, hw'⟩

/-- The motors stop without commands. However the calls of the reader and of the watchdog come
between one another, an event that finds a motor with a duty other than zero follows a command by no
more than the timeout, the latency of the queue and the time of the calls; unless a stop of the
watchdog has been refused. -/
theorem motors_stop (c : Setup) (duty : F → Side → D) (d : Devices) (past future : List (ℕ × Event F))
    (e : ℕ × Event F) {u v : Timed (Motors D)}
    (h : timedRun (deadlines c) (step c duty) (.init d) (past ++ e :: future) = some v)
    (hu : timedRun (deadlines c) (step c duty) (.init d) past = some u)
    (hstops : ∀ x ∈ past, ∀ ret, x.2 = .stopped ret → ret = 0) (side : Side)
    (hrun : (u.state.motor side).duty ≠ 0) :
    ∃ a cmd, (a, .cmdVel cmd) ∈ past ∧ e.1 ≤ a + c.cmdTimeoutMs + c.lag + 2 * c.callsMs := by
  obtain ⟨u', w, hu', hnow, hd, hstep⟩ := timedRun_past h
  cases hu'.symm.trans hu
  rcases run_watched c duty d hu hstops with hstill | ⟨a, cmd, hcmd, hle, hw⟩
  · exact absurd (hstill.duty side) hrun
  · exact ⟨a, cmd, hcmd, hw.le_of_running hd hrun⟩

def halfSecond : Setup := ⟨500, 20, 10⟩

def driven : List (ℕ × Event Int) := [(10, .cmdVel 1), (11, .called 0), (12, .called 0), (13, .called 0)]

theorem motors_stop_driven :
    ∃ a cmd, (a, .cmdVel cmd) ∈ driven ∧ 533 ≤ a + halfSecond.cmdTimeoutMs + halfSecond.lag +
      2 * halfSecond.callsMs :=
  motors_stop halfSecond (fun cmd _ => cmd) ⟨fun _ => true, fun _ => 0⟩ driven [] (533, .pass) rfl rfl
    (by simp [driven]) .left Int.one_ne_zero

end ZephyrApps.MotorWatchdog
