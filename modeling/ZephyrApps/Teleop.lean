import Mathlib.Data.Rat.Defs
import ZephyrApps.SystemRuns

/-!
# The dead-man switch of the joystick

`teleop_step` publishes motion only once the stick has been seen centred with the enable
switch on and the mod switch where it still is, and only after enable has been seen off
since the last reset. Motion that ends is paid for by one stop.
-/
namespace ZephyrApps.Teleop
open EventHistories SystemRuns

/-- `TELEOP_AXIS_MAX` -/
def axisMax : ℤ := 1000

/-- `struct teleop_limits`, over the numbers `D` -/
structure TeleopLimits (D : Type*) where
  maxLinear : D
  maxAngular : D

/-- `struct teleop_input` -/
structure TeleopInput where
  enable : Bool
  mod : Bool
  grasp : Bool
  x : Int16
  y : Int16
  rz : Int16

/-- `struct teleop_twist` -/
structure TeleopTwist (D : Type*) where
  linearX : D
  linearY : D
  linearZ : D
  angularX : D
  angularY : D
  angularZ : D
  deriving DecidableEq

/-- `struct teleop_state` -/
structure TeleopState where
  active : Bool
  blocked : Bool
  armed : Bool
  mod : Bool
  grasp : Bool

variable {D : Type*} [IntCast D] [Mul D] [Div D]

def TeleopTwist.zero : TeleopTwist D :=
  let z : D := (0 : ℤ)
  ⟨z, z, z, z, z, z⟩

/-- What a step publishes: the all-zero twist of `stop`, or what the stick commands. -/
inductive Published (D : Type*) where
  | stop
  | motion (t : TeleopTwist D)
  deriving DecidableEq

def Published.twist : Published D → TeleopTwist D
  | .stop => .zero
  | .motion t => t

/-- `CLAMP` -/
def clamp (v low high : ℤ) : ℤ := if v ≤ low then low else min v high

def scale (v : Int16) (max : D) : D :=
  (clamp v.toInt (-axisMax) axisMax : D) * max / (axisMax : D)

def centred (i : TeleopInput) : Bool := i.x == 0 && i.y == 0 && i.rz == 0

def stop (s : TeleopState) : TeleopState × Option (Published D) :=
  if s.active = false then (s, none) else ({ s with active := false }, some .stop)

def motionTwist (i : TeleopInput) (lim : TeleopLimits D) : TeleopTwist D :=
  if i.mod then
    { TeleopTwist.zero with
      linearZ := scale i.y lim.maxLinear
      angularY := scale i.x lim.maxAngular
      angularX := scale i.rz lim.maxAngular }
  else
    { TeleopTwist.zero with
      linearX := scale i.y lim.maxLinear
      linearY := scale i.x lim.maxLinear
      angularZ := scale i.rz lim.maxAngular }

/-- `teleop_step` from its second test of `armed` on -/
def steer (s : TeleopState) (i : TeleopInput) (lim : TeleopLimits D) :
    TeleopState × Option (Published D) :=
  if s.armed = false then ({ s with armed := centred i }, none)
  else if centred i then stop s
  else ({ s with active := true }, some (.motion (motionTwist i lim)))

/-- `teleop_step` -/
def teleopStep (s : TeleopState) (i : TeleopInput) (lim : TeleopLimits D) :
    TeleopState × Option (Published D) :=
  if s.blocked then ({ s with blocked := i.enable }, none)
  else if i.enable = false ∨ i.mod ≠ s.mod then
    let s := { s with armed := false, mod := i.mod }
    let r : TeleopState × Option (Published D) := stop s
    if r.2.isSome then r
    else if i.enable = false then r
    -- nothing owed: a centred stick can arm on this same tick
    else steer r.1 i lim
  else steer s i lim

/-- `teleop_grasp_step` -/
def teleopGraspStep (s : TeleopState) (i : TeleopInput) : TeleopState × Option Bool :=
  if s.blocked ∨ i.enable = false ∨ i.grasp = s.grasp then (s, none)
  else ({ s with grasp := i.grasp }, some i.grasp)

/-- `teleop_reset` -/
def teleopReset : TeleopState := ⟨false, true, false, false, false⟩

/-- The ways through `teleop_step`. -/
inductive Passes (s : TeleopState) (i : TeleopInput) (lim : TeleopLimits D) :
    TeleopState × Option (Published D) → Prop where
  | waits (blocked : s.blocked = true) : Passes s i lim ({ s with blocked := i.enable }, none)
  | ends (free : s.blocked = false) (changed : i.enable = false ∨ i.mod ≠ s.mod)
      (owed : s.active = true) :
    Passes s i lim ({ s with armed := false, mod := i.mod, active := false }, some .stop)
  | rests (free : s.blocked = false) (off : i.enable = false) (still : s.active = false) :
    Passes s i lim ({ s with armed := false, mod := i.mod }, none)
  | rearms (free : s.blocked = false) (on : i.enable = true) (changed : i.mod ≠ s.mod)
      (still : s.active = false) :
    Passes s i lim ({ s with armed := centred i, mod := i.mod }, none)
  | arms (free : s.blocked = false) (on : i.enable = true) (same : i.mod = s.mod)
      (unarmed : s.armed = false) :
    Passes s i lim ({ s with armed := centred i }, none)
  | centres (free : s.blocked = false) (on : i.enable = true) (same : i.mod = s.mod)
      (armed : s.armed = true) (centre : centred i = true) (owed : s.active = true) :
    Passes s i lim ({ s with active := false }, some .stop)
  | holds (free : s.blocked = false) (on : i.enable = true) (same : i.mod = s.mod)
      (armed : s.armed = true) (centre : centred i = true) (still : s.active = false) :
    Passes s i lim (s, none)
  | moves (free : s.blocked = false) (on : i.enable = true) (same : i.mod = s.mod)
      (armed : s.armed = true) (deflected : centred i = false) :
    Passes s i lim ({ s with active := true }, some (.motion (motionTwist i lim)))

theorem steer_same {s : TeleopState} {i : TeleopInput} (lim : TeleopLimits D)
    (free : s.blocked = false) (on : i.enable = true) (same : i.mod = s.mod) :
    Passes s i lim (steer s i lim) := by
  unfold steer stop
  by_cases ha : s.armed = false
  · rw [if_pos ha]
    exact .arms free on same ha
  · have harmed : s.armed = true := by simpa using ha
    rw [if_neg ha]
    by_cases hc : centred i = true
    · rw [if_pos hc]
      by_cases hs : s.active = false
      · rw [if_pos hs]
        exact .holds free on same harmed hc hs
      · rw [if_neg hs]
        exact .centres free on same harmed hc (by simpa using hs)
    · rw [if_neg hc]
      exact .moves free on same harmed (by simpa using hc)

theorem teleopStep_passes (s : TeleopState) (i : TeleopInput) (lim : TeleopLimits D) :
    Passes s i lim (teleopStep s i lim) := by
  unfold teleopStep
  by_cases hb : s.blocked = true
  · rw [if_pos hb]
    exact .waits hb
  · have free : s.blocked = false := by simpa using hb
    rw [if_neg hb]
    by_cases hc : i.enable = false ∨ i.mod ≠ s.mod
    · rw [if_pos hc]
      cases hs : s.active with
      | true => exact .ends free hc hs
      | false =>
        by_cases he : i.enable = false
        · simpa [stop, hs, he] using (Passes.rests free he hs : Passes s i lim _)
        · have on : i.enable = true := by simpa using he
          have hmod : i.mod ≠ s.mod := hc.resolve_left he
          simpa [stop, steer, hs, he] using (Passes.rearms free on hmod hs : Passes s i lim _)
    · rw [if_neg hc]
      obtain ⟨he, hm⟩ := not_or.mp hc
      exact steer_same lim free (by simpa using he) (not_not.mp hm)

inductive Act where
  | step (i : TeleopInput)
  | reset

def Act.isReset : Act → Bool
  | .step _ => false
  | .reset => true

def advance (lim : TeleopLimits D) (s : TeleopState) : Act → TeleopState
  | .step i => (teleopStep s i lim).1
  | .reset => teleopReset

/-- What the step after `past` publishes. -/
def published (lim : TeleopLimits D) (past : List Act) (i : TeleopInput) : Option (Published D) :=
  (teleopStep (run (advance lim) teleopReset past) i lim).2

/-- A step with enable on and the mod switch at `mod`. -/
def Held (mod : Bool) (a : Act) : Prop := ∃ i, a = .step i ∧ i.enable = true ∧ i.mod = mod

/-- All three axes were zero at a step from which on enable was on and the mod switch at `mod`, without
a reset. -/
def ArmedBy (past : List Act) (mod : Bool) : Prop :=
  ∃ before c between, past = before ++ .step c :: between ∧ (c.x = 0 ∧ c.y = 0 ∧ c.rz = 0) ∧
    ∀ a ∈ .step c :: between, Held mod a

/-- Enable was off at some step since the last reset. -/
def SeenOff (past : List Act) : Prop :=
  ∃ i, .step i ∈ since Act.isReset past ∧ i.enable = false

structure Explained (past : List Act) (s : TeleopState) : Prop where
  free : s.blocked = false → SeenOff past
  armed : s.armed = true → ArmedBy past s.mod
  unarmed : s.blocked = true → s.armed = false

theorem centred_iff {i : TeleopInput} : centred i = true ↔ i.x = 0 ∧ i.y = 0 ∧ i.rz = 0 := by
  simp [centred, and_assoc]

theorem ArmedBy.held {past : List Act} {mod : Bool} {i : TeleopInput} (h : ArmedBy past mod)
    (on : i.enable = true) (same : i.mod = mod) : ArmedBy (past ++ [.step i]) mod := by
  obtain ⟨before, c, between, rfl, hc, hheld⟩ := h
  refine ⟨before, c, between ++ [.step i], by simp, hc, fun a ha => ?_⟩
  rw [← List.cons_append] at ha
  rcases List.mem_append.mp ha with h' | h'
  · exact hheld a h'
  · rw [List.mem_singleton.mp h']
    exact ⟨i, rfl, on, same⟩

theorem armedBy_centred {past : List Act} {i : TeleopInput} (on : i.enable = true)
    (hc : centred i = true) : ArmedBy (past ++ [.step i]) i.mod := by
  refine ⟨past, i, [], rfl, centred_iff.mp hc, fun a ha => ?_⟩
  rw [List.mem_singleton.mp ha]
  exact ⟨i, rfl, on, rfl⟩

theorem SeenOff.step {past : List Act} (h : SeenOff past) (i : TeleopInput) :
    SeenOff (past ++ [.step i]) := by
  obtain ⟨j, hj, hoff⟩ := h
  refine ⟨j, ?_, hoff⟩
  rw [since_concat_unmarked rfl]
  exact List.mem_append_left _ hj

theorem seenOff_off {past : List Act} {i : TeleopInput} (off : i.enable = false) :
    SeenOff (past ++ [.step i]) := by
  refine ⟨i, ?_, off⟩
  rw [since_concat_unmarked rfl]
  exact List.mem_append_right _ (by simp)

/-- Every step of `teleop_step` keeps the explanation. -/
theorem Explained.step {past : List Act} {s : TeleopState} (h : Explained past s)
    (i : TeleopInput) (lim : TeleopLimits D) :
    Explained (past ++ [.step i]) (teleopStep s i lim).1 := by
  have hp := teleopStep_passes s i lim
  generalize teleopStep s i lim = r at hp
  cases hp with
  | waits blocked =>
    have hunarmed := h.unarmed blocked
    refine ⟨fun hoff => seenOff_off hoff, fun harmed => ?_, fun _ => hunarmed⟩
    cases hunarmed.symm.trans harmed
  | ends free changed owed =>
    exact ⟨fun hf => (h.free hf).step i, fun harmed => (by cases harmed), fun _ => rfl⟩
  | rests free off still =>
    exact ⟨fun hf => (h.free hf).step i, fun harmed => (by cases harmed), fun _ => rfl⟩
  | rearms free on changed still =>
    refine ⟨fun hf => (h.free hf).step i, fun hc => armedBy_centred on hc, fun hb => ?_⟩
    cases free.symm.trans hb
  | arms free on same unarmed =>
    refine ⟨fun hf => (h.free hf).step i, fun hc => ?_, fun hb => ?_⟩
    · dsimp only
      rw [← same]
      exact armedBy_centred on hc
    · cases free.symm.trans hb
  | centres free on same armed centre owed =>
    exact ⟨fun hf => (h.free hf).step i, fun ha => (h.armed ha).held on same, h.unarmed⟩
  | holds free on same armed centre still =>
    exact ⟨fun hf => (h.free hf).step i, fun ha => (h.armed ha).held on same, h.unarmed⟩
  | moves free on same armed deflected =>
    exact ⟨fun hf => (h.free hf).step i, fun ha => (h.armed ha).held on same, h.unarmed⟩

theorem explained (lim : TeleopLimits D) (past : List Act) :
    Explained past (run (advance lim) teleopReset past) := by
  refine run_induction ⟨fun h => (by cases h), fun h => (by cases h), fun _ => rfl⟩ ?_ past
  intro past a h
  cases a with
  | step i => exact h.step i lim
  | reset => exact ⟨fun h => (by cases h), fun h => (by cases h), fun _ => rfl⟩

theorem motion_armed {s : TeleopState} {i : TeleopInput} {lim : TeleopLimits D}
    {t : TeleopTwist D} (h : (teleopStep s i lim).2 = some (.motion t)) :
    s.blocked = false ∧ i.enable = true ∧ i.mod = s.mod ∧ s.armed = true := by
  have hp := teleopStep_passes s i lim
  generalize teleopStep s i lim = r at hp h
  cases hp with
  | moves free on same armed deflected => exact ⟨free, on, same, armed⟩
  | waits => cases h
  | ends => cases h
  | rests => cases h
  | rearms => cases h
  | arms => cases h
  | centres => cases h
  | holds => cases h

/-- Motion is published only with enable on, after enable has been seen off since the last
reset, and after a step at which the stick was centred and since which enable stayed on
and the mod switch where it is. -/
theorem moves_only_when_armed (lim : TeleopLimits D) (past : List Act) (i : TeleopInput)
    (t : TeleopTwist D) (h : published lim past i = some (.motion t)) :
    i.enable = true ∧ SeenOff past ∧ ArmedBy past i.mod := by
  obtain ⟨free, on, same, armed⟩ := motion_armed h
  have hexp := explained lim past
  rw [same]
  exact ⟨on, hexp.free free, hexp.armed armed⟩

/-- A stick at `x` with the mod switch off. -/
def stickAt (enable : Bool) (x : Int16) : TeleopInput := ⟨enable, false, false, x, 0, 0⟩

/-- Enable off, then on with the stick centred, then the stick deflected. -/
theorem moves_only_when_armed_deflected :
    let lim : TeleopLimits ℚ := ⟨1 / 2, 1⟩
    let past := [.step (stickAt false 0), .step (stickAt true 0)]
    published lim past (stickAt true 500) =
        some (.motion (motionTwist (stickAt true 500) lim)) ∧
      SeenOff past ∧ ArmedBy past false := by
  intro lim past
  have hmoves : published lim past (stickAt true 500) =
      some (.motion (motionTwist (stickAt true 500) lim)) := rfl
  exact ⟨hmoves, (moves_only_when_armed lim past _ _ hmoves).2⟩

/-- Motion only while armed, and armed only while not blocked. -/
structure Ready (s : TeleopState) : Prop where
  moving : s.active = true → s.armed = true
  armed : s.armed = true → s.blocked = false

/-- What a step says of the motion: it goes on, or it is stopped, or there was none. -/
structure Answers (s : TeleopState) (r : TeleopState × Option (Published D)) : Prop where
  ready : Ready r.1
  moving : r.1.active = true ↔ ∃ t, r.2 = some (.motion t)
  stopped : s.active = true → (∀ t, r.2 ≠ some (.motion t)) → r.2 = some .stop
  quiet : s.active = false → (∀ t, r.2 ≠ some (.motion t)) → r.2 = none

theorem Ready.still {s : TeleopState} (h : Ready s) (unarmed : s.armed = false) :
    s.active = false := by
  by_contra hm
  have harmed := h.moving (by simpa using hm)
  rw [unarmed] at harmed
  cases harmed

theorem Ready.step {s : TeleopState} (h : Ready s) (i : TeleopInput) (lim : TeleopLimits D) :
    Answers s (teleopStep s i lim) := by
  have hp := teleopStep_passes s i lim
  generalize teleopStep s i lim = r at hp
  cases hp with
  | waits blocked =>
    have hunarmed : s.armed = false := by
      by_contra ha
      have hfree := h.armed (by simpa using ha)
      rw [blocked] at hfree
      cases hfree
    have hstill := h.still hunarmed
    exact ⟨⟨by simp [hstill], by simp [hunarmed]⟩, by simp [hstill], by simp [hstill], by simp⟩
  | ends free changed owed =>
    exact ⟨⟨by simp, by simp⟩, by simp, by simp, by simp [owed]⟩
  | rests free off still =>
    exact ⟨⟨by simp [still], by simp⟩, by simp [still], by simp [still], by simp⟩
  | rearms free on changed still =>
    exact ⟨⟨by simp [still], fun _ => free⟩, by simp [still], by simp [still], by simp⟩
  | arms free on same unarmed =>
    have hstill := h.still unarmed
    exact ⟨⟨by simp [hstill], fun _ => free⟩, by simp [hstill], by simp [hstill], by simp⟩
  | centres free on same armed centre owed =>
    exact ⟨⟨by simp, fun _ => free⟩, by simp, by simp, by simp [owed]⟩
  | holds free on same armed centre still =>
    exact ⟨h, by simp [still], by simp [still], by simp⟩
  | moves free on same armed deflected =>
    exact ⟨⟨fun _ => armed, fun _ => free⟩, by simp, by simp, by simp⟩

/-- What the step after `past` publishes, in a run without a reset. -/
def answer (lim : TeleopLimits D) (past : List TeleopInput) (i : TeleopInput) :
    Option (Published D) := published lim (past.map .step) i

def Moves (lim : TeleopLimits D) (past : List TeleopInput) (i : TeleopInput) : Prop :=
  ∃ t, answer lim past i = some (.motion t)

def JustMoved (lim : TeleopLimits D) (past : List TeleopInput) : Prop :=
  ∃ before a, past = before ++ [a] ∧ Moves lim before a

theorem justMoved_concat (lim : TeleopLimits D) (past : List TeleopInput) (i : TeleopInput) :
    JustMoved lim (past ++ [i]) ↔ Moves lim past i := by
  constructor
  · rintro ⟨before, a, hp, hm⟩
    obtain ⟨rfl, hi⟩ := List.append_inj' hp rfl
    cases hi
    exact hm
  · exact fun hm => ⟨past, i, rfl, hm⟩

/-- The stop is owed exactly after a step that published motion. -/
theorem active_iff (lim : TeleopLimits D) (past : List TeleopInput) :
    let s := run (advance lim) teleopReset (past.map .step)
    Ready s ∧ (s.active = true ↔ JustMoved lim past) := by
  induction past using List.reverseRecOn with
  | nil =>
    refine ⟨⟨fun h => (by cases h), fun h => (by cases h)⟩, fun h => (by cases h), ?_⟩
    rintro ⟨before, a, hp, -⟩
    simp at hp
  | append_singleton past i ih =>
    rw [List.map_append, List.map_singleton, run_concat]
    have hans := ih.1.step i lim
    exact ⟨hans.ready, hans.moving.trans (justMoved_concat lim past i).symm⟩

theorem answer_stop {lim : TeleopLimits D} {past : List TeleopInput} {i : TeleopInput}
    (hj : JustMoved lim past) (hm : ¬ Moves lim past i) : answer lim past i = some .stop := by
  obtain ⟨hready, hactive⟩ := active_iff lim past
  exact (hready.step i lim).stopped (hactive.mpr hj) fun t ht => hm ⟨t, ht⟩

theorem answer_none {lim : TeleopLimits D} {past : List TeleopInput} {i : TeleopInput}
    (hj : ¬ JustMoved lim past) (hm : ¬ Moves lim past i) : answer lim past i = none := by
  obtain ⟨hready, hactive⟩ := active_iff lim past
  have hstill : (run (advance lim) teleopReset (past.map .step)).active = false := by
    simpa using mt hactive.mp hj
  exact (hready.step i lim).quiet hstill fun t ht => hm ⟨t, ht⟩

/-- The first step without motion after steps with motion publishes the all-zero twist of
`stop`, the steps after it nothing until motion comes back, and no other step publishes a
stop. -/
theorem one_stop_after_motion (lim : TeleopLimits D) :
    (∀ (before mid : List TeleopInput) (a b : TeleopInput),
      Each (fun past i => Moves lim (before ++ past) i) (a :: mid) →
      ¬ Moves lim (before ++ a :: mid) b →
      answer lim (before ++ a :: mid) b = some .stop ∧
        (answer lim (before ++ a :: mid) b).map Published.twist = some .zero ∧
        ∀ (quiet : List TeleopInput) (c : TeleopInput),
          Each (fun past i => ¬ Moves lim (before ++ a :: mid ++ b :: past) i) (quiet ++ [c]) →
          answer lim (before ++ a :: mid ++ b :: quiet) c = none) ∧
    ∀ (past : List TeleopInput) (i : TeleopInput),
      answer lim past i = some .stop → JustMoved lim past := by
  refine ⟨fun before mid a b hmid hb => ?_, fun past i hi => ?_⟩
  · have hj : JustMoved lim (before ++ a :: mid) := by
      rcases List.eq_nil_or_concat (a :: mid) with hnil | ⟨steps, x, hx⟩
      · cases hnil
      · rw [List.concat_eq_append] at hx
        rw [hx] at hmid ⊢
        rw [← List.append_assoc, justMoved_concat]
        exact hmid.last
    have hstop := answer_stop hj hb
    refine ⟨hstop, by rw [hstop]; rfl, fun quiet c hquiet => ?_⟩
    refine answer_none ?_ hquiet.last
    rcases List.eq_nil_or_concat quiet with rfl | ⟨steps, x, rfl⟩
    · rwa [justMoved_concat]
    · rw [List.concat_eq_append] at hquiet ⊢
      have hx := hquiet.left.last
      rwa [← List.cons_append, ← List.append_assoc, justMoved_concat]
  · by_contra hj
    by_cases hm : Moves lim past i
    · obtain ⟨t, ht⟩ := hm
      rw [ht] at hi
      cases hi
    · rw [answer_none hj hm] at hi
      cases hi

/-- One deflected step, and the mod switch pressed with the stick still deflected. -/
theorem one_stop_after_motion_mod :
    let lim : TeleopLimits ℚ := ⟨1 / 2, 1⟩
    let pressed : TeleopInput := { stickAt true 500 with mod := true }
    answer lim ([stickAt false 0, stickAt true 0] ++ [stickAt true 500]) pressed = some .stop := by
  intro lim pressed
  have hmid : Each (fun past i => Moves lim ([stickAt false 0, stickAt true 0] ++ past) i)
      [stickAt true 500] :=
    each_cons.mpr ⟨⟨_, rfl⟩, each_nil _⟩
  have hstop : ¬ Moves lim ([stickAt false 0, stickAt true 0] ++ [stickAt true 500]) pressed := by
    rintro ⟨t, ht⟩
    cases ht
  exact ((one_stop_after_motion lim).1 _ [] _ _ hmid hstop).1

end ZephyrApps.Teleop
