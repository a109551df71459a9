import ZephyrApps.Teleop

/-!
# The gripper and its switch

`teleop_grasp_step` publishes the grasp switch when it differs from `grasp`, the level it
published last; but `teleop_reset` clears that field. After a link was lost with the gripper
on, the loop takes the gripper to be off until the switch says on.
-/
namespace ZephyrApps.TeleopLoop
open EventHistories SystemRuns Teleop

variable {D : Type*} [IntCast D] [Mul D] [Div D]

inductive Sent (D : Type*) where
  | twist (t : TeleopTwist D)
  | grasp (level : Bool)

def Sent.level : Sent D → Option Bool
  | .twist _ => none
  | .grasp level => some level

/-- What one turn of the loop reads: `l4_up`, what `ros_connect` returns, the switches and
the stick, `picoros_interface_is_up`, and whether the two publishes succeed. -/
structure Turn where
  l4Up : Bool
  connects : Bool
  input : TeleopInput
  interfaceUp : Bool
  twistSent : Bool
  graspSent : Bool

/-- The locals of `main`, and all that was published. -/
structure Control (D : Type*) where
  state : TeleopState
  connected : Bool
  sent : List (Sent D)

/-- `main` before its loop -/
def Control.boot : Control D := ⟨teleopReset, false, []⟩

/-- The input as the build for an arm or for a base reads it. -/
def Turn.read (arm : Bool) (turn : Turn) : TeleopInput :=
  { turn.input with mod := arm && turn.input.mod, grasp := arm && turn.input.grasp }

/-- `teleop_step` and `publish_twist`; the `ok` after them -/
def stepTwist (lim : TeleopLimits D) (s : Control D) (turn : Turn) (i : TeleopInput) :
    Control D × Bool :=
  let r := teleopStep s.state i lim
  let s := { s with state := r.1 }
  match r.2 with
  | none => (s, true)
  | some p =>
    if turn.twistSent then ({ s with sent := s.sent ++ [.twist p.twist] }, true) else (s, false)

/-- `teleop_grasp_step` and `publish_grasp`; the `ok` after them -/
def stepGrasp (s : Control D) (turn : Turn) (i : TeleopInput) : Control D × Bool :=
  let r := teleopGraspStep s.state i
  let s := { s with state := r.1 }
  match r.2 with
  | none => (s, true)
  | some level =>
    if turn.graspSent then ({ s with sent := s.sent ++ [.grasp level] }, true) else (s, false)

def mainTurn (arm : Bool) (lim : TeleopLimits D) (s : Control D) (turn : Turn) : Control D :=
  if s.connected = false then
    { s with state := teleopReset, connected := turn.l4Up && turn.connects }
  else
    let i := turn.read arm
    let r := if turn.l4Up && turn.interfaceUp then stepTwist lim s turn i else (s, false)
    let r := if arm && r.2 then stepGrasp r.1 turn i else r
    { r.1 with connected := r.2 }

variable {arm : Bool} {lim : TeleopLimits D} {s : Control D} {turn : Turn}

def Turn.Delivers (turn : Turn) : Prop := turn.twistSent = true ∧ turn.graspSent = true

instance (turn : Turn) : Decidable turn.Delivers := by
  unfold Turn.Delivers
  infer_instance

/-- The turn is a tick that is enabled and not blocked. -/
def EnabledTick (s : Control D) (turn : Turn) : Prop :=
  s.connected = true ∧ turn.l4Up = true ∧ turn.interfaceUp = true ∧ turn.input.enable = true ∧
    s.state.blocked = false

instance (s : Control D) (turn : Turn) : Decidable (EnabledTick s turn) := by
  unfold EnabledTick
  infer_instance

def lastGrasp (s : Control D) : Option Bool := (s.sent.filterMap Sent.level).getLast?

theorem teleopStep_grasp (s : TeleopState) (i : TeleopInput) (lim : TeleopLimits D) :
    (teleopStep s i lim).1.grasp = s.grasp := by
  have hp := teleopStep_passes s i lim
  generalize teleopStep s i lim = r at hp
  cases hp <;> rfl

/-- A tick that is enabled and not blocked before it is not blocked after its first step. -/
theorem teleopStep_blocked (s : TeleopState) (i : TeleopInput) (lim : TeleopLimits D) :
    ((teleopStep s i lim).1.blocked = true ∨ i.enable = false) ↔
      (s.blocked = true ∨ i.enable = false) := by
  have hp := teleopStep_passes s i lim
  generalize teleopStep s i lim = r at hp
  cases hp with
  | waits blocked => cases he : i.enable <;> simp [blocked]
  | _ => rfl

theorem stepTwist_delivered (h : turn.Delivers) (lim : TeleopLimits D) (s : Control D)
    (i : TeleopInput) :
    let r := stepTwist lim s turn i
    r.2 = true ∧ r.1.state = (teleopStep s.state i lim).1 ∧ lastGrasp r.1 = lastGrasp s := by
  unfold stepTwist
  dsimp only
  cases (teleopStep s.state i lim).2 with
  | none => exact ⟨rfl, rfl, rfl⟩
  | some p =>
    dsimp only
    rw [if_pos h.1]
    refine ⟨rfl, rfl, ?_⟩
    simp [lastGrasp, Sent.level]

omit [IntCast D] [Mul D] [Div D] in
theorem stepGrasp_silent (s : Control D) {i : TeleopInput}
    (h : s.state.blocked = true ∨ i.enable = false ∨ i.grasp = s.state.grasp) :
    stepGrasp s turn i = (s, true) := by
  unfold stepGrasp teleopGraspStep
  rw [if_pos h]

omit [IntCast D] [Mul D] [Div D] in
theorem stepGrasp_changed (hd : turn.Delivers) (s : Control D) {i : TeleopInput}
    (h : ¬ (s.state.blocked = true ∨ i.enable = false ∨ i.grasp = s.state.grasp)) :
    let r := stepGrasp s turn i
    r.1.state.grasp = i.grasp ∧ lastGrasp r.1 = some i.grasp := by
  unfold stepGrasp teleopGraspStep
  rw [if_neg h]
  dsimp only
  rw [if_pos hd.2]
  refine ⟨rfl, ?_⟩
  simp [lastGrasp, Sent.level]

theorem mainTurn_reset (h : s.connected = false) :
    mainTurn arm lim s turn =
      { s with state := teleopReset, connected := turn.l4Up && turn.connects } := if_pos h

def Grasps (arm : Bool) (s : Control D) (turn : Turn) : Prop :=
  EnabledTick s turn ∧ arm = true ∧ turn.input.grasp ≠ s.state.grasp

variable (arm lim) in
theorem mainTurn_connected (hc : s.connected = true) (hd : turn.Delivers) :
    let s' := mainTurn arm lim s turn
    (Grasps arm s turn → s'.state.grasp = turn.input.grasp ∧ lastGrasp s' = some turn.input.grasp) ∧
      (¬ Grasps arm s turn → s'.state.grasp = s.state.grasp ∧ lastGrasp s' = lastGrasp s) := by
  have hnot : ¬ s.connected = false := by simp [hc]
  unfold mainTurn
  rw [if_neg hnot]
  by_cases hup : (turn.l4Up && turn.interfaceUp) = true
  · obtain ⟨hl4, hif⟩ := Bool.and_eq_true_iff.mp hup
    obtain ⟨hok, hstate, hlast⟩ := stepTwist_delivered hd lim s (turn.read arm)
    have hgrasp : (stepTwist lim s turn (turn.read arm)).1.state.grasp = s.state.grasp := by
      rw [hstate, teleopStep_grasp]
    have hblocked := teleopStep_blocked s.state (turn.read arm) lim
    rw [← hstate] at hblocked
    dsimp only
    rw [if_pos hup, hok, Bool.and_true]
    cases arm with
    | false =>
      rw [if_neg Bool.false_ne_true]
      exact ⟨fun hg => absurd hg.2.1 Bool.false_ne_true, fun _ => ⟨hgrasp, hlast⟩⟩
    | true =>
      rw [if_pos rfl]
      have hread : turn.read true = turn.input := by simp [Turn.read]
      rw [hread] at hgrasp hblocked hlast ⊢
      have hsilent : ((stepTwist lim s turn turn.input).1.state.blocked = true ∨
          turn.input.enable = false ∨
          turn.input.grasp = (stepTwist lim s turn turn.input).1.state.grasp) ↔
            ¬ Grasps true s turn := by
        rw [← or_assoc, hblocked, hgrasp]
        simp only [Grasps, EnabledTick, hc, hl4, hif, true_and, ne_eq]
        cases s.state.blocked <;> cases turn.input.enable <;> simp
      by_cases hg : Grasps true s turn
      · obtain ⟨hlevel, hsent⟩ := stepGrasp_changed hd _ fun h => hsilent.mp h hg
        exact ⟨fun _ => ⟨hlevel, hsent⟩, fun hn => absurd hg hn⟩
      · rw [stepGrasp_silent _ (hsilent.mpr hg)]
        exact ⟨fun h => absurd h hg, fun _ => ⟨hgrasp, hlast⟩⟩
  · dsimp only
    rw [if_neg hup, Bool.and_false, if_neg Bool.false_ne_true]
    refine ⟨fun hg => ?_, fun _ => ⟨rfl, rfl⟩⟩
    obtain ⟨-, hl4, hif, -⟩ := hg.1
    exact absurd (Bool.and_eq_true_iff.mpr ⟨hl4, hif⟩) hup

def after (arm : Bool) (lim : TeleopLimits D) (past : List Turn) : Control D :=
  run (mainTurn arm lim) Control.boot past

theorem after_concat (arm : Bool) (lim : TeleopLimits D) (past : List Turn) (turn : Turn) :
    after arm lim (past ++ [turn]) = mainTurn arm lim (after arm lim past) turn := run_concat ..

/-- A reset has cleared `grasp` while it was on, and no enabled tick came since. -/
def Forgotten (arm : Bool) (lim : TeleopLimits D) (past : List Turn) : Prop :=
  ∃ before loss between, past = before ++ loss :: between ∧
    (after arm lim before).connected = false ∧ (after arm lim before).state.grasp = true ∧
    Each (fun past turn => ¬ EnabledTick (after arm lim (before ++ loss :: past)) turn) between

theorem forgotten_concat (arm : Bool) (lim : TeleopLimits D) (past : List Turn) (turn : Turn) :
    Forgotten arm lim (past ++ [turn]) ↔
      ((after arm lim past).connected = false ∧ (after arm lim past).state.grasp = true) ∨
        (Forgotten arm lim past ∧ ¬ EnabledTick (after arm lim past) turn) := by
  constructor
  · rintro ⟨before, loss, between, hpast, hc, hg, hbetween⟩
    rcases List.eq_nil_or_concat between with rfl | ⟨between, x, rfl⟩
    · obtain ⟨rfl, -⟩ := List.append_inj' hpast rfl
      exact Or.inl ⟨hc, hg⟩
    · rw [List.concat_eq_append, ← List.cons_append, ← List.append_assoc] at hpast
      obtain ⟨rfl, hx⟩ := List.append_inj' hpast rfl
      cases hx
      rw [List.concat_eq_append] at hbetween
      exact Or.inr ⟨⟨before, loss, between, rfl, hc, hg, hbetween.left⟩, hbetween.last⟩
  · rintro (⟨hc, hg⟩ | ⟨⟨before, loss, between, rfl, hc, hg, hbetween⟩, hturn⟩)
    · exact ⟨past, turn, [], rfl, hc, hg, each_nil _⟩
    · exact ⟨before, loss, between ++ [turn], by simp, hc, hg, each_concat.mpr ⟨hbetween, hturn⟩⟩

theorem not_forgotten_enabled {past : List Turn} (he : EnabledTick (after arm lim past) turn) :
    ¬ Forgotten arm lim (past ++ [turn]) := by
  rw [forgotten_concat]
  rintro (⟨hc, -⟩ | ⟨-, hne⟩)
  · cases he.1.symm.trans hc
  · exact hne he

/-- The last published level is that of the switch, or none was published and it is off. -/
def Follows (arm : Bool) (s : Control D) (turn : Turn) : Prop :=
  lastGrasp s = some (turn.read arm).grasp ∨ lastGrasp s = none ∧ (turn.read arm).grasp = false

instance (arm : Bool) (s : Control D) (turn : Turn) : Decidable (Follows arm s turn) := by
  unfold Follows
  infer_instance

/-- The field `grasp` against what was published: the last level is on exactly if the field
is on or has forgotten it. -/
structure Tracks (arm : Bool) (lim : TeleopLimits D) (past : List Turn) (s : Control D) : Prop where
  last : lastGrasp s = some true ↔ s.state.grasp = true ∨ Forgotten arm lim past
  forgot : Forgotten arm lim past → s.state.grasp = false
  gripper : lastGrasp s = some true → arm = true

theorem read_grasp {past : List Turn} (h : Tracks arm lim past s) (he : EnabledTick s turn)
    (hg : ¬ Grasps arm s turn) : (turn.read arm).grasp = s.state.grasp := by
  cases ha : arm with
  | false =>
    have hoff : s.state.grasp = false := by
      by_contra hon
      have hlast := h.last.mpr (Or.inl (by simpa using hon))
      rw [h.gripper hlast] at ha
      cases ha
    rw [hoff]
    rfl
  | true =>
    have hsame : turn.input.grasp = s.state.grasp := by
      by_contra hne
      exact hg ⟨he, ha, hne⟩
    simpa [Turn.read] using hsame

/-- After a tick that publishes no level the gripper follows exactly if nothing was
forgotten. -/
theorem follows_silent {past : List Turn} {s' : Control D} (h : Tracks arm lim past s)
    (hread : (turn.read arm).grasp = s.state.grasp) (hlast : lastGrasp s' = lastGrasp s) :
    Follows arm s' turn ↔ ¬ Forgotten arm lim past := by
  rw [Follows, hread, hlast]
  cases hs : s.state.grasp with
  | true =>
    have hon := h.last.mpr (Or.inl hs)
    refine iff_of_true (Or.inl hon) fun hf => ?_
    cases hs.symm.trans (h.forgot hf)
  | false =>
    have hiff : lastGrasp s = some true ↔ Forgotten arm lim past := by
      rw [h.last, hs]
      simp
    rw [← hiff]
    rcases lastGrasp s with _ | level
    · simp
    · cases level <;> simp

section
variable {past : List Turn} (h : Tracks arm lim past (after arm lim past)) (hd : turn.Delivers)
include h hd

/-- A turn that is no enabled tick publishes no level; a reset may clear the field. -/
theorem Tracks.idle (he : ¬ EnabledTick (after arm lim past) turn) :
    Tracks arm lim (past ++ [turn]) (after arm lim (past ++ [turn])) := by
  have hforgot := forgotten_concat arm lim past turn
  rw [after_concat]
  cases hc : (after arm lim past).connected with
  | false =>
    rw [mainTurn_reset hc]
    refine ⟨?_, fun _ => rfl, h.gripper⟩
    have hcleared : teleopReset.grasp = false := rfl
    rw [hforgot, hcleared]
    exact h.last.trans (by simp [hc, he])
  | true =>
    obtain ⟨-, hsame⟩ := mainTurn_connected arm lim hc hd
    obtain ⟨hgrasp, hlast⟩ := hsame fun hg => he hg.1
    have hkeep : Forgotten arm lim (past ++ [turn]) ↔ Forgotten arm lim past := by
      simp [hforgot, hc, he]
    refine ⟨?_, fun hf => hgrasp.trans (h.forgot (hkeep.mp hf)), fun hl => ?_⟩
    · rw [hlast, hgrasp, hkeep]
      exact h.last
    · exact h.gripper (hlast ▸ hl)

/-- After a tick that publishes a level the gripper follows; a level that was forgotten is
published again if the switch is on. -/
theorem Tracks.grasps (hg : Grasps arm (after arm lim past) turn) :
    Follows arm (after arm lim (past ++ [turn])) turn ∧
      (Forgotten arm lim past → turn.input.grasp = true) ∧
      Tracks arm lim (past ++ [turn]) (after arm lim (past ++ [turn])) := by
  have hnone := not_forgotten_enabled hg.1
  obtain ⟨hgrasp, hlast⟩ := (mainTurn_connected arm lim hg.1.1 hd).1 hg
  rw [← after_concat] at hgrasp hlast
  have hread : (turn.read arm).grasp = turn.input.grasp := by simp [Turn.read, hg.2.1]
  have hfollows : Follows arm (after arm lim (past ++ [turn])) turn :=
    Or.inl (by rw [hlast, hread])
  refine ⟨hfollows, fun hf => ?_, ?_, fun hf => absurd hf hnone, fun _ => hg.2.1⟩
  · have hne := hg.2.2
    rw [h.forgot hf] at hne
    simpa using hne
  · rw [hlast, hgrasp, Option.some_inj]
    exact (or_iff_left hnone).symm

/-- After an enabled tick that publishes no level the gripper follows exactly if nothing
was forgotten, and then the switch is where the field is. -/
theorem Tracks.silent (he : EnabledTick (after arm lim past) turn)
    (hg : ¬ Grasps arm (after arm lim past) turn) :
    (Follows arm (after arm lim (past ++ [turn])) turn ↔
        (Forgotten arm lim past → turn.input.grasp = true)) ∧
      (Follows arm (after arm lim (past ++ [turn])) turn →
        Tracks arm lim (past ++ [turn]) (after arm lim (past ++ [turn]))) := by
  have hnone := not_forgotten_enabled he
  obtain ⟨hgrasp, hlast⟩ := (mainTurn_connected arm lim he.1 hd).2 hg
  rw [← after_concat] at hgrasp hlast
  have hread := read_grasp h he hg
  have hiff := follows_silent h hread hlast
  constructor
  · rw [hiff]
    refine ⟨fun hn hf => absurd hf hn, fun hon hf => ?_⟩
    have harm := h.gripper (h.last.mpr (Or.inr hf))
    rw [h.forgot hf, Turn.read, harm] at hread
    simp [hon hf] at hread
  · intro hfollows
    refine ⟨?_, fun hf => absurd hf hnone, fun hl => h.gripper (hlast ▸ hl)⟩
    rw [hlast, hgrasp, h.last, or_iff_left (hiff.mp hfollows), or_iff_left hnone]

/-- One turn: after an enabled tick the gripper follows, if and only if the switch is on or
nothing was forgotten; then the field keeps track. -/
theorem Tracks.next :
    ((EnabledTick (after arm lim past) turn → Follows arm (after arm lim (past ++ [turn])) turn) ↔
        (EnabledTick (after arm lim past) turn → Forgotten arm lim past →
          turn.input.grasp = true)) ∧
      ((EnabledTick (after arm lim past) turn →
          Follows arm (after arm lim (past ++ [turn])) turn) →
        Tracks arm lim (past ++ [turn]) (after arm lim (past ++ [turn]))) := by
  by_cases he : EnabledTick (after arm lim past) turn
  · rw [forall_prop_of_true he, forall_prop_of_true he]
    by_cases hg : Grasps arm (after arm lim past) turn
    · obtain ⟨hfollows, hon, htracks⟩ := h.grasps hd hg
      exact ⟨iff_of_true hfollows hon, fun _ => htracks⟩
    · exact h.silent hd he hg
  · exact ⟨iff_of_true (fun h => absurd h he) fun h => absurd h he, fun _ => h.idle hd he⟩

end

/-- With publishes that succeed: after every enabled tick the last published level is the
switch's, if and only if at every first enabled tick after a reset that cleared `grasp` while
it was on the switch is on. -/
theorem gripper_follows_iff (arm : Bool) (lim : TeleopLimits D) (turns : List Turn)
    (hd : ∀ turn ∈ turns, turn.Delivers) :
    Each (fun past turn => EnabledTick (after arm lim past) turn →
        Follows arm (after arm lim (past ++ [turn])) turn) turns ↔
      Each (fun past turn => EnabledTick (after arm lim past) turn →
        Forgotten arm lim past → turn.input.grasp = true) turns := by
  suffices h : (Each (fun past turn => EnabledTick (after arm lim past) turn →
        Follows arm (after arm lim (past ++ [turn])) turn) turns ↔
      Each (fun past turn => EnabledTick (after arm lim past) turn →
        Forgotten arm lim past → turn.input.grasp = true) turns) ∧
      (Each (fun past turn => EnabledTick (after arm lim past) turn →
        Follows arm (after arm lim (past ++ [turn])) turn) turns →
        Tracks arm lim turns (after arm lim turns)) from h.1
  induction turns using List.reverseRecOn with
  | nil =>
    refine ⟨by simp, fun _ => ⟨?_, fun _ => rfl, fun h => (by cases h)⟩⟩
    refine iff_of_false (fun h => (by cases h)) ?_
    rintro (h | ⟨before, loss, between, hp, -⟩)
    · cases h
    · simp at hp
  | append_singleton turns turn ih =>
    obtain ⟨hiff, htracks⟩ := ih fun t ht => hd t (by simp [ht])
    have hturn : turn.Delivers := hd turn (by simp)
    rw [each_concat, each_concat]
    constructor
    · constructor
      · rintro ⟨hturns, hq⟩
        exact ⟨hiff.mp hturns, ((htracks hturns).next hturn).1.mp hq⟩
      · rintro ⟨hturns, hc⟩
        have hq := hiff.mpr hturns
        exact ⟨hq, ((htracks hq).next hturn).1.mpr hc⟩
    · rintro ⟨hturns, hq⟩
      exact ((htracks hturns).next hturn).2 hq

def turnAt (enable grasp : Bool) : Turn :=
  ⟨true, true, ⟨enable, false, grasp, 0, 0, 0⟩, true, true, true⟩

/-- The gripper is switched on, the link is lost with the switch still on, and the switch is
on again when enable is. -/
theorem gripper_follows_iff_on :
    let lim : TeleopLimits ℚ := ⟨1 / 2, 1⟩
    let turns := [turnAt false false, turnAt false false, turnAt true true,
      { turnAt true true with l4Up := false }, turnAt false true, turnAt false true,
      turnAt true true]
    Each (fun past turn => EnabledTick (after true lim past) turn →
      Follows true (after true lim (past ++ [turn])) turn) turns := by
  intro lim turns
  have hon : Each (fun past turn => EnabledTick (after true lim past) turn →
      turn.input.grasp = true) turns := by decide +kernel
  refine (gripper_follows_iff true lim turns (by decide)).mpr ?_
  exact fun past turn future hp he _ => hon past turn future hp he

/-- The gripper is switched on, the link is lost, the gripper is switched off meanwhile:
nothing is published, and the gripper stays on. -/
theorem gripper_left_on :
    let lim : TeleopLimits ℚ := ⟨1 / 2, 1⟩
    let turns := [turnAt false false, turnAt false false, turnAt true true,
      { turnAt true true with l4Up := false }, turnAt false false, turnAt false false,
      turnAt true false]
    (∀ turn ∈ turns, turn.Delivers) ∧
      ¬ Each (fun past turn => EnabledTick (after true lim past) turn →
        Follows true (after true lim (past ++ [turn])) turn) turns := by
  decide +kernel

end ZephyrApps.TeleopLoop
