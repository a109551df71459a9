import Mathlib.Data.List.Perm.Basic
import ZephyrApps.TeleopLoop

/-!
# Sessions with the ROS router

`ros_connect` and `ros_disconnect` of the joystick's `main.c`, in its loop, and `app_picoros_init` of
the rover: what they hold of pico-ros. A call that breaks a rule of its caller is `none`.
-/
namespace ZephyrApps.RosSessions
open SystemRuns Teleop TeleopLoop

variable {P : Type} [DecidableEq P]

structure Session (P : Type) where
  interface : Bool
  node : Bool
  declared : List P
  deriving DecidableEq

def Session.closed : Session P := ⟨false, false, []⟩

def Session.opened (endpoints : List P) : Session P := ⟨true, true, endpoints⟩

namespace Session

/-- `picoros_interface_init`; none is held. -/
def interfaceInit (s : Session P) (ok : Bool) : Option (Session P) :=
  if s.interface then none else some { s with interface := ok }

/-- `picoros_interface_close`; the node is gone. -/
def interfaceClose (s : Session P) : Option (Session P) :=
  if s.interface ∧ s.node = false then some { s with interface := false } else none

/-- `picoros_node_init`; there is an interface and no node. -/
def nodeInit (s : Session P) (ok : Bool) : Option (Session P) :=
  if s.interface ∧ s.node = false then some { s with node := ok } else none

/-- `picoros_node_drop`; nothing is declared on it. -/
def nodeDrop (s : Session P) : Option (Session P) :=
  if s.node ∧ s.declared = [] then some { s with node := false } else none

/-- `picoros_publisher_declare` or `picoros_subscriber_declare`, of what is not declared -/
def declare (s : Session P) (p : P) (ok : Bool) : Option (Session P) :=
  if s.node ∧ p ∉ s.declared then
    some (if ok then { s with declared := s.declared ++ [p] } else s)
  else none

/-- `picoros_publisher_drop`, of what is declared -/
def drop (s : Session P) (p : P) : Option (Session P) :=
  if p ∈ s.declared then some { s with declared := s.declared.erase p } else none

/-- `picoros_publish`, on what is declared -/
def publish (s : Session P) (p : P) (ok : Bool) : Option Bool :=
  if p ∈ s.declared then some ok else none

end Session

structure Attempt (P : Type) where
  interface : Bool
  node : Bool
  declares : P → Bool

def dropAll : List P → Session P → Option (Session P)
  | [], s => some s
  | p :: ps, s => (s.drop p).bind (dropAll ps)

/-- The loop of `ros_connect` over `pubs`, of which `before` are declared. -/
def declareAll (a : Attempt P) (before : List P) : List P → Session P → Option (Session P × Bool)
  | [], s => some (s, true)
  | p :: ps, s => do
    let s ← s.declare p (a.declares p)
    if a.declares p then declareAll a (before ++ [p]) ps s
    else
      let s ← dropAll before.reverse s
      let s ← s.nodeDrop
      some (← s.interfaceClose, false)

/-- `ros_connect` -/
def rosConnect (pubs : List P) (a : Attempt P) (s : Session P) : Option (Session P × Bool) := do
  let s ← s.interfaceInit a.interface
  if a.interface then
    let s ← s.nodeInit a.node
    if a.node then declareAll a [] pubs s
    else some (← s.interfaceClose, false)
  else some (s, false)

/-- `ros_disconnect` -/
def rosDisconnect (pubs : List P) (s : Session P) : Option (Session P) := do
  let s ← dropAll pubs s
  let s ← s.nodeDrop
  s.interfaceClose

inductive Pub where
  | twist
  | grasp
  deriving DecidableEq

/-- `pubs` of the build for an arm or for a base -/
def pubs (arm : Bool) : List Pub := if arm then [.twist, .grasp] else [.twist]

/-- What one turn of the loop reads, with the calls of `ros_connect` one by one. -/
structure RosTurn where
  turn : Turn
  attempt : Attempt Pub

variable {D : Type} [IntCast D] [Mul D] [Div D]

/-- `teleop_step` and `publish_twist`; the `ok` after them -/
def sendTwist (ros : Session Pub) (lim : TeleopLimits D) (s : Control D) (turn : Turn)
    (i : TeleopInput) : Option (Control D × Bool) := do
  let r := teleopStep s.state i lim
  let s := { s with state := r.1 }
  match r.2 with
  | none => some (s, true)
  | some p =>
    let ok ← ros.publish .twist turn.twistSent
    some (if ok then { s with sent := s.sent ++ [.twist p.twist] } else s, ok)

/-- `teleop_grasp_step` and `publish_grasp`; the `ok` after them -/
def sendGrasp (ros : Session Pub) (s : Control D) (turn : Turn) (i : TeleopInput) :
    Option (Control D × Bool) := do
  let r := teleopGraspStep s.state i
  let s := { s with state := r.1 }
  match r.2 with
  | none => some (s, true)
  | some level =>
    let ok ← ros.publish .grasp turn.graspSent
    some (if ok then { s with sent := s.sent ++ [.grasp level] } else s, ok)

/-- One turn of the loop of `main`. -/
def rosTurn (arm : Bool) (lim : TeleopLimits D) (s : Control D × Session Pub) (t : RosTurn) :
    Option (Control D × Session Pub) :=
  let (control, ros) := s
  if control.connected = false then do
    let control := { control with state := teleopReset }
    if t.turn.l4Up then
      let (ros, connected) ← rosConnect (pubs arm) t.attempt ros
      some ({ control with connected }, ros)
    else some ({ control with connected := false }, ros)
  else do
    let i := t.turn.read arm
    let r ← (if t.turn.l4Up && t.turn.interfaceUp then sendTwist ros lim control t.turn i
      else some (control, false))
    let r ← (if arm && r.2 then sendGrasp ros r.1 t.turn i else some r)
    if r.2 then some ({ r.1 with connected := true }, ros)
    else some ({ r.1 with connected := false }, ← rosDisconnect (pubs arm) ros)

def Attempt.connects (a : Attempt P) (endpoints : List P) : Bool :=
  a.interface && a.node && endpoints.all a.declares

/-- The turn as the loop sees it that asks `ros_connect` as a whole. -/
def RosTurn.seen (arm : Bool) (t : RosTurn) : Turn :=
  { t.turn with connects := t.attempt.connects (pubs arm) }

/-- All that a client needs, or nothing. -/
def held (endpoints : List P) (connected : Bool) : Session P :=
  if connected then .opened endpoints else .closed

theorem dropAll_perm {ps : List P} {s : Session P} (h : ps.Perm s.declared) :
    dropAll ps s = some { s with declared := [] } := by
  induction ps generalizing s with
  | nil =>
    have hnil : s.declared = [] := List.nil_perm.mp h
    rw [dropAll, ← hnil]
  | cons p ps ih =>
    obtain ⟨hp, hrest⟩ := List.cons_perm_iff_perm_erase.mp h
    rw [dropAll, Session.drop, if_pos hp, Option.bind_some]
    exact ih hrest

/-- The loop declares all, or gives back what it has. -/
theorem declareAll_opened (a : Attempt P) {before ps : List P} (h : (before ++ ps).Nodup) :
    declareAll a before ps (.opened before) =
      some (held (before ++ ps) (ps.all a.declares), ps.all a.declares) := by
  induction ps generalizing before with
  | nil => simp [declareAll, held]
  | cons p ps ih =>
    have hp : p ∉ before := fun hmem => (List.nodup_append.mp h).2.2 p hmem p List.mem_cons_self rfl
    have hdeclare : (Session.opened before).declare p (a.declares p) =
        some (if a.declares p then .opened (before ++ [p]) else .opened before) :=
      if_pos ⟨rfl, hp⟩
    rw [declareAll, hdeclare]
    cases hd : a.declares p with
    | true =>
      have hrest := @ih (before ++ [p]) (by rwa [List.append_assoc])
      rw [List.append_assoc] at hrest
      simpa [hd] using hrest
    | false =>
      have hdrop : dropAll before.reverse (.opened before) = some (.opened []) :=
        dropAll_perm (List.reverse_perm before)
      simp only [hd, Bool.false_eq_true, if_false, hdrop, Option.bind_eq_bind, Option.bind_some,
        List.all_cons, Bool.false_and]
      rfl

theorem rosConnect_closed (a : Attempt P) {ps : List P} (h : ps.Nodup) :
    rosConnect ps a .closed = some (held ps (a.connects ps), a.connects ps) := by
  obtain ⟨interface, node, declares⟩ := a
  cases interface with
  | false => rfl
  | true =>
    cases node with
    | false => rfl
    | true =>
      have hall : ([] ++ ps).Nodup := h
      exact declareAll_opened ⟨true, true, declares⟩ hall

theorem rosDisconnect_opened (ps : List P) : rosDisconnect ps (.opened ps) = some .closed := by
  have hdrop : dropAll ps (.opened ps) = some (.opened []) := dropAll_perm (List.Perm.refl ps)
  rw [rosDisconnect, hdrop]
  rfl

theorem sendTwist_eq {ros : Session Pub} (h : .twist ∈ ros.declared) (lim : TeleopLimits D)
    (s : Control D) (turn : Turn) (i : TeleopInput) :
    sendTwist ros lim s turn i = some (stepTwist lim s turn i) := by
  unfold sendTwist stepTwist
  dsimp only
  cases (teleopStep s.state i lim).2 with
  | none => rfl
  | some p =>
    rw [Session.publish, if_pos h]
    cases turn.twistSent <;> rfl

omit [IntCast D] [Mul D] [Div D] in
theorem sendGrasp_eq {ros : Session Pub} (h : .grasp ∈ ros.declared) (s : Control D) (turn : Turn)
    (i : TeleopInput) : sendGrasp ros s turn i = some (stepGrasp s turn i) := by
  unfold sendGrasp stepGrasp
  dsimp only
  cases (teleopGraspStep s.state i).2 with
  | none => rfl
  | some level =>
    rw [Session.publish, if_pos h]
    cases turn.graspSent <;> rfl

theorem nodup_pubs (arm : Bool) : (pubs arm).Nodup := by cases arm <;> decide

theorem twist_mem_pubs (arm : Bool) : Pub.twist ∈ pubs arm := by cases arm <;> decide

/-- While all endpoints are held, a turn publishes what the loop does. -/
theorem sendTwist_pubs (arm : Bool) (lim : TeleopLimits D) (s : Control D) (t : RosTurn) :
    (if t.turn.l4Up && t.turn.interfaceUp
      then sendTwist (.opened (pubs arm)) lim s t.turn (t.turn.read arm) else some (s, false)) =
    some (if t.turn.l4Up && t.turn.interfaceUp
      then stepTwist lim s t.turn (t.turn.read arm) else (s, false)) := by
  rw [sendTwist_eq (twist_mem_pubs arm)]
  split <;> rfl

omit [IntCast D] [Mul D] [Div D] in
theorem sendGrasp_pubs (arm : Bool) (r : Control D × Bool) (t : RosTurn) :
    (if arm && r.2 then sendGrasp (.opened (pubs arm)) r.1 t.turn (t.turn.read arm) else some r) =
    some (if arm && r.2 then stepGrasp r.1 t.turn (t.turn.read arm) else r) := by
  cases arm with
  | false => rfl
  | true =>
    have hmem : Pub.grasp ∈ (Session.opened (pubs true)).declared := by decide
    rw [sendGrasp_eq hmem]
    split <;> rfl

/-- A turn breaks no rule, and is the turn of the loop that asks `ros_connect` as a whole. -/
theorem rosTurn_held (arm : Bool) (lim : TeleopLimits D) (s : Control D) (t : RosTurn) :
    rosTurn arm lim (s, held (pubs arm) s.connected) t =
      some (mainTurn arm lim s (t.seen arm),
        held (pubs arm) (mainTurn arm lim s (t.seen arm)).connected) := by
  cases hc : s.connected with
  | false =>
    have hmain : mainTurn arm lim s (t.seen arm) =
        { s with state := teleopReset, connected := t.turn.l4Up && t.attempt.connects (pubs arm) } :=
      if_pos hc
    rw [hmain, rosTurn]
    simp only [hc, if_true]
    cases t.turn.l4Up with
    | false => rfl
    | true =>
      have hconnect := rosConnect_closed t.attempt (nodup_pubs arm)
      simp only [held, Bool.false_eq_true, if_false, if_true, hconnect, Option.bind_eq_bind,
        Option.bind_some, Bool.true_and]
  | true =>
    have hopened : held (pubs arm) true = .opened (pubs arm) := rfl
    have htwist := sendTwist_pubs arm lim s t
    have hmain : mainTurn arm lim s (t.seen arm) =
        let r := if t.turn.l4Up && t.turn.interfaceUp
          then stepTwist lim s t.turn (t.turn.read arm) else (s, false)
        let r := if arm && r.2 then stepGrasp r.1 t.turn (t.turn.read arm) else r
        { r.1 with connected := r.2 } := if_neg (by simp [hc])
    dsimp only at hmain
    generalize (if t.turn.l4Up && t.turn.interfaceUp
      then stepTwist lim s t.turn (t.turn.read arm) else (s, false)) = r at htwist hmain
    have hsent := sendGrasp_pubs arm r t
    generalize (if arm && r.2 then stepGrasp r.1 t.turn (t.turn.read arm) else r) = r' at hsent hmain
    rw [hmain, rosTurn, hopened]
    simp only [hc, Bool.true_eq_false, if_false, Option.bind_eq_bind, htwist, hsent, Option.bind_some]
    cases hr : r'.2 with
    | true => rfl
    | false => simp [rosDisconnect_opened, held]

/-- The joystick never misuses pico-ros. In every run of its loop, whatever the calls return, it
breaks no rule, holds all that it publishes on while it is connected and nothing otherwise; and
what it does is what the loop does that asks `ros_connect` as a whole. -/
theorem joystick_sessions (arm : Bool) (lim : TeleopLimits D) (ts : List RosTurn) :
    let s := run (mainTurn arm lim) .boot (ts.map (RosTurn.seen arm))
    runFrom (rosTurn arm lim) (.boot, .closed) ts = some (s, held (pubs arm) s.connected) := by
  suffices h : ∀ s : Control D, runFrom (rosTurn arm lim) (s, held (pubs arm) s.connected) ts =
      some (run (mainTurn arm lim) s (ts.map (RosTurn.seen arm)),
        held (pubs arm) (run (mainTurn arm lim) s (ts.map (RosTurn.seen arm))).connected) from
    h .boot
  induction ts with
  | nil => exact fun _ => rfl
  | cons t ts ih =>
    intro s
    rw [runFrom, rosTurn_held, Option.bind_some]
    exact ih _

/-- The publishers and subscribers of `app_picoros.c` -/
inductive Endpoint where
  | battery
  | jointState
  | cmdVel
  | gimbalCmd
  deriving DecidableEq

/-- What the rover holds, `_ready` and `_joint_state_ready`, and what it has published. -/
structure Rover where
  ros : Session Endpoint
  ready : Bool
  jointStateReady : Bool
  published : List Endpoint

def Rover.boot : Rover := ⟨.closed, false, false, []⟩

structure Build where
  motors : Bool
  gimbal : Bool

/-- `app_picoros_init` -/
def appPicorosInit (b : Build) (a : Attempt Endpoint) (s : Rover) : Option (Rover × Bool) := do
  let ros ← s.ros.interfaceInit a.interface
  if a.interface = false then some ({ s with ros }, false)
  else
    let ros ← ros.nodeInit a.node
    if a.node = false then
      let ros ← ros.interfaceClose
      some ({ s with ros }, false)
    else
      let ros ← ros.declare .battery (a.declares .battery)
      if a.declares .battery = false then
        let ros ← ros.nodeDrop
        let ros ← ros.interfaceClose
        some ({ s with ros }, false)
      else
        let ros ← (if b.motors then ros.declare .jointState (a.declares .jointState) else some ros)
        let jointStateReady := s.jointStateReady || (b.motors && a.declares .jointState)
        let ros ← (if b.motors then ros.declare .cmdVel (a.declares .cmdVel) else some ros)
        let ros ← (if b.gimbal then ros.declare .gimbalCmd (a.declares .gimbalCmd) else some ros)
        some ({ s with ros, ready := true, jointStateReady }, true)

/-- `picoros_publish`, and `app_img_confirm` if it succeeds -/
def Rover.publish (s : Rover) (p : Endpoint) (ok : Bool) : Option Rover :=
  (s.ros.publish p ok).map fun ok => if ok then { s with published := s.published ++ [p] } else s

/-- `joint_state_work_handler`, with what `app_motors_read_joint_state` and the gimbal's return,
whether the message is encoded, and what `picoros_publish` returns -/
def jointStateWorkHandler (reads encodes ok : Bool) (s : Rover) : Option Rover :=
  if s.ready && s.jointStateReady && reads && encodes then s.publish .jointState ok else some s

/-- `app_picoros_publish_power` -/
def appPicorosPublishPower (encodes ok : Bool) (s : Rover) : Option Rover :=
  if s.ready && encodes then s.publish .battery ok else some s

/-- The calls of `main`, of the work queue and of the sensors. -/
inductive RoverCall where
  | init (a : Attempt Endpoint)
  | jointState (reads encodes ok : Bool)
  | power (encodes ok : Bool)

def roverCall (b : Build) (s : Rover) : RoverCall → Option Rover
  | .init a => (appPicorosInit b a s).map Prod.fst
  | .jointState reads encodes ok => jointStateWorkHandler reads encodes ok s
  | .power encodes ok => appPicorosPublishPower encodes ok s

/-- `app_picoros_init` is not called again once it has succeeded: `main` calls it once. -/
def Fresh (s : Rover) : RoverCall → Prop
  | .init _ => s.ready = false
  | .jointState _ _ _ | .power _ _ => True

instance (s : Rover) (c : RoverCall) : Decidable (Fresh s c) :=
  match c with
  | .init _ => inferInstanceAs (Decidable (s.ready = false))
  | .jointState _ _ _ | .power _ _ => isTrue trivial

def endpoints (b : Build) (a : Attempt Endpoint) : List Endpoint :=
  let optional : List Endpoint :=
    (if b.motors then [.jointState, .cmdVel] else []) ++ if b.gimbal then [.gimbalCmd] else []
  .battery :: optional.filter a.declares

/-- What the rover needs for what it does: when it is ready the node and the battery's publisher, and
the one of the joints if that is; and nothing is held before. -/
structure Equipped (s : Rover) : Prop where
  nothing : s.ready = false → s.ros = .closed ∧ s.jointStateReady = false
  battery : s.ready = true → .battery ∈ s.ros.declared
  jointState : s.jointStateReady = true → .jointState ∈ s.ros.declared

/-- The rover goes without what is not vital, and without the rest it holds nothing. -/
theorem appPicorosInit_closed (b : Build) (a : Attempt Endpoint) (published : List Endpoint) :
    appPicorosInit b a ⟨.closed, false, false, published⟩ =
      some (if a.interface && a.node && a.declares .battery
        then (⟨.opened (endpoints b a), true, b.motors && a.declares .jointState, published⟩, true)
        else (⟨.closed, false, false, published⟩, false)) := by
  obtain ⟨interface, node, declares⟩ := a
  obtain ⟨motors, gimbal⟩ := b
  cases interface with
  | false => rfl
  | true =>
    cases node with
    | false => rfl
    | true =>
      cases hb : declares .battery with
      | false => simp [appPicorosInit, Session.interfaceInit, Session.nodeInit, Session.declare,
          Session.nodeDrop, Session.interfaceClose, Session.closed, hb]
      | true =>
        cases motors <;> cases gimbal <;> cases hj : declares .jointState <;>
          cases hc : declares .cmdVel <;> cases hg : declares .gimbalCmd <;>
          simp [appPicorosInit, Session.interfaceInit, Session.nodeInit, Session.declare,
            Session.closed, Session.opened, endpoints, hb, hj, hc, hg]

theorem publish_declared {s : Rover} {p : Endpoint} (h : p ∈ s.ros.declared) (ok : Bool) :
    s.publish p ok = some (if ok then { s with published := s.published ++ [p] } else s) := by
  rw [Rover.publish, Session.publish, if_pos h, Option.map_some]

theorem equipped_boot : Equipped .boot := ⟨fun _ => ⟨rfl, rfl⟩, nofun, nofun⟩

theorem roverCall_equipped (b : Build) {s : Rover} (h : Equipped s) {c : RoverCall} (hc : Fresh s c) :
    ∃ t, roverCall b s c = some t ∧ Equipped t := by
  have hsent : ∀ {p}, p ∈ s.ros.declared → ∀ ok, ∃ t, s.publish p ok = some t ∧ Equipped t := by
    intro p hp ok
    refine ⟨_, publish_declared hp ok, ?_⟩
    cases ok with
    | false => exact h
    | true => exact ⟨h.nothing, h.battery, h.jointState⟩
  cases c with
  | init a =>
    have hready : s.ready = false := hc
    obtain ⟨hros, hjoint⟩ := h.nothing hready
    obtain ⟨ros, ready, jointStateReady, published⟩ := s
    cases hros
    cases hready
    cases hjoint
    refine ⟨_, congrArg (Option.map Prod.fst) (appPicorosInit_closed b a published), ?_⟩
    split
    case isTrue =>
      refine ⟨nofun, fun _ => List.mem_cons_self, fun hj => ?_⟩
      obtain ⟨hm, hd⟩ : b.motors = true ∧ a.declares .jointState = true := by simpa using hj
      simp [Session.opened, endpoints, hm, hd]
    case isFalse => exact ⟨fun _ => ⟨rfl, rfl⟩, nofun, nofun⟩
  | jointState reads encodes ok =>
    unfold roverCall jointStateWorkHandler
    dsimp only
    split
    case isTrue hall =>
      simp only [Bool.and_eq_true] at hall
      exact hsent (h.jointState hall.1.1.2) ok
    case isFalse => exact ⟨s, rfl, h⟩
  | power encodes ok =>
    unfold roverCall appPicorosPublishPower
    dsimp only
    split
    case isTrue hall =>
      rw [Bool.and_eq_true] at hall
      exact hsent (h.battery hall.1) ok
    case isFalse => exact ⟨s, rfl, h⟩

/-- The rover never misuses pico-ros: however its threads interleave, and whatever the calls
return, it publishes nothing before its publisher is declared, and after an attempt that has failed it
holds nothing. -/
theorem rover_sessions (b : Build) (cs : List RoverCall)
    (h : Allows (roverCall b) Fresh .boot cs) :
    ∃ s, runFrom (roverCall b) .boot cs = some s ∧ Equipped s := by
  suffices hs : ∀ s, Equipped s → Allows (roverCall b) Fresh s cs →
      ∃ t, runFrom (roverCall b) s cs = some t ∧ Equipped t from hs .boot equipped_boot h
  clear h
  induction cs with
  | nil => exact fun s hs _ => ⟨s, rfl, hs⟩
  | cons c cs ih =>
    intro s hs ⟨hc, hrest⟩
    obtain ⟨t, ht, hequipped⟩ := roverCall_equipped b hs hc
    obtain ⟨u, hu, hu'⟩ := ih t hequipped (hrest t ht)
    exact ⟨u, by rw [runFrom, ht, Option.bind_some, hu], hu'⟩

/-- A rover without a gimbal whose commands are refused, called before and after it is ready. -/
def withoutCommands : List RoverCall :=
  [.power true true, .init ⟨true, true, fun p => p ≠ .cmdVel⟩, .jointState true true true,
    .power true false]

theorem rover_sessions_without_commands :
    ∃ s, runFrom (roverCall ⟨true, false⟩) .boot withoutCommands = some s ∧ Equipped s :=
  rover_sessions ⟨true, false⟩ withoutCommands (by decide)

end ZephyrApps.RosSessions
