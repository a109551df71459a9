import Mathlib.Algebra.Group.Int.Defs
import Mathlib.Data.Int.Order.Basic
import Mathlib.Data.List.FinRange
import Mathlib.Data.List.Induction
import Mathlib.Logic.Function.Basic

/-!
# Calibrating the stick

`teleop_cal_symmetric` of `teleop.c`, and the recording of `calibrate.c` that it is called with. A
value that is assigned to an `int16_t` and does not fit is `none`.
-/
namespace ZephyrApps.TeleopCalibration

/-- A value of 32 bits assigned to an `int16_t`. -/
def narrow (n : ℤ) : Option Int16 := if -2 ^ 15 ≤ n ∧ n < 2 ^ 15 then some (Int16.ofInt n) else none

/-- `teleop_cal_symmetric`: what it returns, and `in_min` and `in_max` after it. -/
def teleopCalSymmetric (rest seenMin seenMax minSpan inMin inMax : Int16) :
    Option (Bool × Int16 × Int16) := do
  let span ← narrow (min (rest.toInt - seenMin.toInt) (seenMax.toInt - rest.toInt))
  if span < minSpan then some (false, inMin, inMax)
  else
    let lo ← narrow (rest.toInt - span.toInt)
    let hi ← narrow (rest.toInt + span.toInt)
    some (true, lo, hi)

/-- The values from `lo` to `hi` lie as far below `rest` as above it. -/
def Symmetric (rest lo hi : ℤ) : Prop := rest - lo = hi - rest

theorem narrow_eq {n : ℤ} (h : -2 ^ 15 ≤ n ∧ n < 2 ^ 15) :
    narrow n = some (Int16.ofInt n) ∧ (Int16.ofInt n).toInt = n :=
  ⟨if_pos h, Int16.toInt_ofInt_of_le h.1 h.2⟩

theorem toInt_bounds (v : Int16) : -2 ^ 15 ≤ v.toInt ∧ v.toInt < 2 ^ 15 :=
  ⟨v.le_toInt, v.toInt_lt⟩

/-- The smaller side of `rest` fits: both sides together are at most 65535. -/
theorem teleopCalSymmetric_eq {rest seenMin seenMax : Int16} (minSpan inMin inMax : Int16)
    (hmin : seenMin ≤ rest) (hmax : rest ≤ seenMax) :
    let span := min (rest.toInt - seenMin.toInt) (seenMax.toInt - rest.toInt)
    teleopCalSymmetric rest seenMin seenMax minSpan inMin inMax =
      some (if span < minSpan.toInt then (false, inMin, inMax)
        else (true, Int16.ofInt (rest.toInt - span), Int16.ofInt (rest.toInt + span))) := by
  intro span
  have hlo : seenMin.toInt ≤ rest.toInt := Int16.le_iff_toInt_le.mp hmin
  have hhi : rest.toInt ≤ seenMax.toInt := Int16.le_iff_toInt_le.mp hmax
  have hseenMin := toInt_bounds seenMin
  have hseenMax := toInt_bounds seenMax
  obtain ⟨hspan, hval⟩ := narrow_eq (n := span) (by omega)
  obtain ⟨hdown, -⟩ := narrow_eq (n := rest.toInt - span) (by omega)
  obtain ⟨hup, -⟩ := narrow_eq (n := rest.toInt + span) (by omega)
  have hlt : Int16.ofInt span < minSpan ↔ span < minSpan.toInt := by
    rw [Int16.lt_iff_toInt_lt, hval]
  rw [teleopCalSymmetric, hspan, Option.bind_eq_bind, Option.bind_some, hval]
  by_cases h : span < minSpan.toInt
  · rw [if_pos h, if_pos (hlt.mpr h)]
  · rw [if_neg h, if_neg (mt hlt.mp h), hdown, hup]
    rfl

/-- The calibration is the largest interval around `rest` that was swept, if both sides were swept
far enough, and no value on the way leaves its type. -/
theorem teleopCalSymmetric_largest {rest seenMin seenMax : Int16} (hmin : seenMin ≤ rest)
    (hmax : rest ≤ seenMax) (minSpan inMin inMax : Int16) :
    ∃ ok lo hi, teleopCalSymmetric rest seenMin seenMax minSpan inMin inMax = some (ok, lo, hi) ∧
      (ok = false ↔ rest.toInt - seenMin.toInt < minSpan.toInt ∨
        seenMax.toInt - rest.toInt < minSpan.toInt) ∧
      (ok = false → lo = inMin ∧ hi = inMax) ∧
      (ok = true → Symmetric rest.toInt lo.toInt hi.toInt ∧ seenMin ≤ lo ∧ lo ≤ rest ∧ hi ≤ seenMax ∧
        ∀ a b : ℤ, Symmetric rest.toInt a b → seenMin.toInt ≤ a → b ≤ seenMax.toInt →
          lo.toInt ≤ a ∧ b ≤ hi.toInt) := by
  have hcal := teleopCalSymmetric_eq minSpan inMin inMax hmin hmax
  have hrest := toInt_bounds rest
  rw [Int16.le_iff_toInt_le] at hmin hmax
  have hseenMin := toInt_bounds seenMin
  have hseenMax := toInt_bounds seenMax
  dsimp only at hcal
  by_cases h : min (rest.toInt - seenMin.toInt) (seenMax.toInt - rest.toInt) < minSpan.toInt
  · rw [if_pos h] at hcal
    refine ⟨false, inMin, inMax, hcal, iff_of_true rfl (by omega), fun _ => ⟨rfl, rfl⟩,
      fun hok => absurd hok Bool.false_ne_true⟩
  · rw [if_neg h] at hcal
    obtain ⟨-, hlo⟩ := narrow_eq
      (n := rest.toInt - min (rest.toInt - seenMin.toInt) (seenMax.toInt - rest.toInt)) (by omega)
    obtain ⟨-, hhi⟩ := narrow_eq
      (n := rest.toInt + min (rest.toInt - seenMin.toInt) (seenMax.toInt - rest.toInt)) (by omega)
    refine ⟨true, _, _, hcal, iff_of_false (by decide) (by omega),
      fun hok => absurd hok.symm Bool.false_ne_true, fun _ => ?_⟩
    simp only [Symmetric, Int16.le_iff_toInt_le, hlo, hhi]
    refine ⟨by omega, by omega, by omega, by omega, fun a b hab ha hb => ?_⟩
    omega

/-- At rest in the lowest quarter of a sweep of the whole range. -/
theorem teleopCalSymmetric_largest_low : ∃ ok lo hi,
    teleopCalSymmetric (-16384) (-32768) 32767 100 7 7 = some (ok, lo, hi) ∧ (ok = false ↔ False) ∧
      ∀ a b : ℤ, Symmetric (-16384) a b → -32768 ≤ a → b ≤ 32767 → lo.toInt ≤ a ∧ b ≤ hi.toInt := by
  have hmin : (-32768 : Int16) ≤ -16384 := by decide
  have hmax : (-16384 : Int16) ≤ 32767 := by decide
  obtain ⟨ok, lo, hi, hcal, hok, -, hlargest⟩ := teleopCalSymmetric_largest hmin hmax 100 7 7
  have hspan : ok = false ↔ False := by
    rw [hok]
    decide
  refine ⟨ok, lo, hi, hcal, hspan, ?_⟩
  obtain ⟨-, -, -, -, hmost⟩ := hlargest (by simpa using hspan)
  exact hmost

/-- An entry of `cal` -/
structure Recorded where
  seen : Bool
  rest : Int16
  min : Int16
  max : Int16
  deriving DecidableEq

def Recorded.zero : Recorded := ⟨false, 0, 0, 0⟩

/-- What `raw_cb` does with the entry of an axis. -/
def Recorded.sample (r : Recorded) (raw : Int16) : Recorded :=
  if r.seen then
    { r with min := if r.min < raw then r.min else raw, max := if r.max > raw then r.max else raw }
  else ⟨true, raw, raw, raw⟩

/-- What an entry says of the samples of its axis: the first one is at rest, and the others lie
between two of them. -/
def Swept (raws : List Int16) (r : Recorded) : Prop :=
  (raws = [] ∧ r = .zero) ∨
    (r.seen = true ∧ raws.head? = some r.rest ∧ r.min ∈ raws ∧ r.max ∈ raws ∧
      ∀ v ∈ raws, r.min ≤ v ∧ v ≤ r.max)

theorem Swept.sample {raws : List Int16} {r : Recorded} (h : Swept raws r) (raw : Int16) :
    Swept (raws ++ [raw]) (r.sample raw) := by
  right
  rcases h with ⟨rfl, rfl⟩ | ⟨hseen, hrest, hmin, hmax, hall⟩
  · simp [Recorded.sample, Recorded.zero]
  · rw [Recorded.sample, if_pos hseen]
    refine ⟨hseen, by simp [List.head?_append, hrest], ?_, ?_, ?_⟩
    · dsimp only
      split <;> simp [hmin]
    · dsimp only
      split <;> simp [hmax]
    · simp only [Int16.le_iff_toInt_le, Int16.lt_iff_toInt_lt, gt_iff_lt] at hall ⊢
      intro v hv
      rcases List.mem_append.mp hv with hv | hv
      · have hbounds := hall v hv
        constructor <;> split <;> omega
      · obtain rfl := List.mem_singleton.mp hv
        constructor <;> split <;> omega

/-- After any samples, the calibration of an axis has what it needs. -/
theorem Swept.rest_between {raws : List Int16} {r : Recorded} (h : Swept raws r) :
    r.min ≤ r.rest ∧ r.rest ≤ r.max := by
  rcases h with ⟨-, rfl⟩ | ⟨-, hrest, -, -, hall⟩
  · decide
  · exact hall _ (List.mem_of_mem_head? hrest)

section Sticks

variable {ι : Type*} [DecidableEq ι] {n : ℕ} (sticks : Fin n → ι)

/-- The axis of a call of `raw_cb`, if it has an entry: a device and one of its
`MAX_AXES_PER_DEV` channels. -/
def axisOf (dev : ι) (channel : ℤ) : Option (Fin n × Fin 3) := do
  let d ← (List.finRange n).find? fun d => decide (sticks d = dev)
  if h : 0 ≤ channel ∧ channel < 3 then some (d, ⟨channel.toNat, by omega⟩) else none

/-- `raw_cb` -/
def rawCb (cal : Fin n × Fin 3 → Recorded) (dev : ι) (channel : ℤ) (raw : Int16) :
    Fin n × Fin 3 → Recorded :=
  match axisOf sticks dev channel with
  | none => cal
  | some axis => Function.update cal axis ((cal axis).sample raw)

def samplesOf (axis : Fin n × Fin 3) (calls : List (ι × ℤ × Int16)) : List Int16 :=
  (calls.filter fun call => decide (axisOf sticks call.1 call.2.1 = some axis)).map (·.2.2)

/-- From `teleop cal start` on, every entry holds the sweep of its axis. -/
theorem swept_after (calls : List (ι × ℤ × Int16)) (axis : Fin n × Fin 3) :
    Swept (samplesOf sticks axis calls)
      (calls.foldl (fun cal call => rawCb sticks cal call.1 call.2.1 call.2.2)
        (fun _ => Recorded.zero) axis) := by
  induction calls using List.reverseRecOn with
  | nil => exact Or.inl ⟨rfl, rfl⟩
  | append_singleton calls call ih =>
    rw [List.foldl_append, List.foldl_cons, List.foldl_nil]
    generalize calls.foldl _ _ = cal at ih ⊢
    by_cases ha : axisOf sticks call.1 call.2.1 = some axis
    · have hcal : rawCb sticks cal call.1 call.2.1 call.2.2 =
          Function.update cal axis ((cal axis).sample call.2.2) := by rw [rawCb, ha]
      have hsamples : samplesOf sticks axis (calls ++ [call]) =
          samplesOf sticks axis calls ++ [call.2.2] := by simp [samplesOf, ha]
      rw [hcal, Function.update_self, hsamples]
      exact ih.sample call.2.2
    · have hcal : rawCb sticks cal call.1 call.2.1 call.2.2 axis = cal axis := by
        rw [rawCb]
        cases hc : axisOf sticks call.1 call.2.1 with
        | none => rfl
        | some other =>
          have hne : axis ≠ other := fun he => ha (he ▸ hc)
          exact Function.update_of_ne hne _ _
      have hsamples : samplesOf sticks axis (calls ++ [call]) = samplesOf sticks axis calls := by
        simp [samplesOf, ha]
      rw [hcal, hsamples]
      exact ih

end Sticks

end ZephyrApps.TeleopCalibration
