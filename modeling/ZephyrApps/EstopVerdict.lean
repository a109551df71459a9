import ZephyrApps.ConsecutiveRuns
import ZephyrApps.PstopMessages

/-!
# The stop-switch decision core

`estopDecide` turns one tick's two readbacks of a loop into a verdict and
updates the debounce state of its channel. The streaks are the trailing runs of
closed and of open reads, saturated at 255, so every fact about the state is a
fact about the reads so far.
-/
namespace ZephyrApps.EstopVerdict
open ConsecutiveRuns Pstop

/-- One of the `ESTOP_CHANNELS` loops. -/
abbrev Channel := Fin 2

instance neZero_channels : NeZero 2 := ⟨by decide⟩

@[elab_as_elim]
theorem channel_cases {motive : Channel → Prop} (zero : motive 0) (one : motive 1)
    (c : Channel) : motive c :=
  Fin.forall_fin_two.mpr ⟨zero, one⟩ c

/-- `LOOP_RECLOSE_DEBOUNCE_TICKS` -/
def loopRecloseDebounceTicks : UInt8 := 3
/-- `LOOP_BOOT_OPEN_CONFIRM_TICKS` -/
def loopBootOpenConfirmTicks : UInt8 := 5

structure EstopState where
  highOk : Bool
  lowOk : Bool
  primedHigh : Bool
  primedLow : Bool
  closedStreak : UInt8
  openStreak : UInt8
  settled : Bool
  deriving DecidableEq

def estopStateInit : EstopState := ⟨false, false, false, false, 0, 0, false⟩

/-- `if (streak < 255) streak++` -/
def countUp (streak : UInt8) : UInt8 := if streak < 255 then streak + 1 else streak

/-- The debounce and warm-up part of `estop_decide`. -/
def EstopState.debounce (st : EstopState) (rawClosed : Bool) : EstopState :=
  if rawClosed then
    { st with
      closedStreak := countUp st.closedStreak
      openStreak := 0
      settled := st.settled || decide (loopRecloseDebounceTicks ≤ countUp st.closedStreak) }
  else
    { st with
      closedStreak := 0
      openStreak := countUp st.openStreak
      settled := st.settled || decide (loopBootOpenConfirmTicks ≤ countUp st.openStreak) }

/-- Core 0 selects the codeword by the arithmetic image of the reads, core 1 by a
boolean. -/
def codeword (coreId : Channel) (rbHi rbLo : Int32) : UInt8 :=
  if coreId = 0 then
    if ((rbHi ^^^ 1) ||| rbLo).toUInt32 &&& 1 = 0 then messageOk else messageStop
  else
    if rbHi = 1 ∧ rbLo = 0 then messageOk else messageStop

def estopDecide (st : EstopState) (coreId : Channel) (rbHi rbLo : Int32) : EstopState × UInt8 :=
  let msg := codeword coreId rbHi rbLo
  let highOk := decide (rbHi = 1)
  let lowOk := decide (rbLo = 0)
  let rawClosed := highOk && lowOk
  let st := { st with highOk, lowOk, primedHigh := true, primedLow := true }
  let st := st.debounce rawClosed
  -- the stop-only override
  let msg := if !(rawClosed && decide (loopRecloseDebounceTicks ≤ st.closedStreak)) then
    messageStop else msg
  (st, msg)

def estopChannelsPrimed (st : Channel → EstopState) : Bool :=
  (st 0).primedHigh && (st 0).primedLow && (st 1).primedHigh && (st 1).primedLow &&
    (st 0).settled && (st 1).settled

abbrev Reads := Int32 × Int32

/-- `estop_channel_sample`: a read error never counts as a healthy level. -/
def estopChannelSample (coreId : Channel) (rb : Reads) (st : EstopState) : EstopState × UInt8 :=
  estopDecide st coreId (if rb.1 < 0 then 0 else rb.1) (if rb.2 < 0 then 1 else rb.2)

def closed (rb : Reads) : Bool := decide (rb = (1, 0))
def opened (rb : Reads) : Bool := !closed rb

theorem countUp_toNat (n : UInt8) : (countUp n).toNat = min 255 (n.toNat + 1) := by
  unfold countUp
  have hn := n.toNat_lt
  split
  case isTrue h =>
    have hlt : n.toNat < 255 := by simpa [UInt8.lt_iff_toNat_lt] using h
    rw [UInt8.toNat_add, UInt8.toNat_one, Nat.mod_eq_of_lt (by omega)]
    omega
  case isFalse h =>
    have hge : ¬ n.toNat < 255 := by simpa [UInt8.lt_iff_toNat_lt] using h
    omega

theorem rawClosed_eq (rb : Reads) :
    (decide ((if rb.1 < 0 then 0 else rb.1) = 1) && decide ((if rb.2 < 0 then 1 else rb.2) = 0)) =
      closed rb := by
  obtain ⟨hi, lo⟩ := rb
  by_cases h1 : hi < 0 <;> by_cases h2 : lo < 0 <;> simp only [h1, h2, if_true, if_false, closed]
  all_goals
    rw [← Bool.decide_and, decide_eq_decide, Prod.mk.injEq]
  · refine iff_of_false (by decide) ?_
    rintro ⟨rfl, -⟩
    exact absurd h1 (by decide)
  · refine iff_of_false (by simp) ?_
    rintro ⟨rfl, -⟩
    exact absurd h1 (by decide)
  · refine iff_of_false (by simp) ?_
    rintro ⟨-, rfl⟩
    exact absurd h2 (by decide)

/-- What one sample does to the streaks and the warm-up latch. -/
theorem sample_streaks (c : Channel) (rb : Reads) (st : EstopState) :
    let st' := (estopChannelSample c rb st).1
    st'.closedStreak = (if closed rb then countUp st.closedStreak else 0) ∧
      st'.openStreak = (if closed rb then 0 else countUp st.openStreak) ∧
      st'.settled = (st.settled || decide (loopRecloseDebounceTicks ≤ st'.closedStreak) ||
        decide (loopBootOpenConfirmTicks ≤ st'.openStreak)) ∧
      st'.primedHigh = true ∧ st'.primedLow = true := by
  simp only [estopChannelSample, estopDecide, EstopState.debounce, rawClosed_eq]
  have h3 : ¬ loopRecloseDebounceTicks ≤ 0 := by decide
  have h5 : ¬ loopBootOpenConfirmTicks ≤ 0 := by decide
  cases closed rb <;> simp [h3, h5]

/-- A sample says OK exactly when the loop reads closed and has done so long
enough; otherwise it says STOP. -/
theorem sample_verdict (c : Channel) (rb : Reads) (st : EstopState) :
    (estopChannelSample c rb st).2 =
      if closed rb = true ∧ loopRecloseDebounceTicks ≤ (estopChannelSample c rb st).1.closedStreak
      then messageOk else messageStop := by
  by_cases hc : closed rb = true
  · obtain rfl : rb = (1, 0) := by simpa [closed] using hc
    have hw : codeword c 1 0 = messageOk := by
      cases c using channel_cases <;> decide
    have h1 : (if (1 : Int32) < 0 then (0 : Int32) else 1) = 1 := by decide
    have h0 : (if (0 : Int32) < 0 then (1 : Int32) else 0) = 0 := by decide
    simp only [estopChannelSample, estopDecide, h1, h0, hw, decide_true, Bool.and_self,
      Bool.true_and]
    split <;> simp_all
  · simp only [estopChannelSample, estopDecide, rawClosed_eq, hc]
    simp

def watch (c : Channel) (rbs : List Reads) : EstopState :=
  rbs.foldl (fun st rb => (estopChannelSample c rb st).1) estopStateInit

@[simp] theorem watch_nil (c : Channel) : watch c [] = estopStateInit := rfl

@[simp] theorem watch_concat (c : Channel) (rbs : List Reads) (rb : Reads) :
    watch c (rbs ++ [rb]) = (estopChannelSample c rb (watch c rbs)).1 := by simp [watch]

theorem watch_closedStreak (c : Channel) (rbs : List Reads) :
    (watch c rbs).closedStreak.toNat = min 255 (trailing closed rbs) := by
  induction rbs using List.reverseRecOn with
  | nil => rfl
  | append_singleton rbs rb ih =>
    rw [watch_concat, (sample_streaks c rb _).1, trailing_concat]
    cases h : closed rb
    · rfl
    · simp only [if_true, countUp_toNat, ih]
      omega

theorem watch_openStreak (c : Channel) (rbs : List Reads) :
    (watch c rbs).openStreak.toNat = min 255 (trailing opened rbs) := by
  induction rbs using List.reverseRecOn with
  | nil => rfl
  | append_singleton rbs rb ih =>
    rw [watch_concat, (sample_streaks c rb _).2.1, trailing_concat, opened]
    cases h : closed rb
    · simp only [Bool.not_false, if_true, Bool.false_eq_true, if_false, countUp_toNat, ih]
      omega
    · rfl

theorem le_closedStreak_iff (c : Channel) (rbs : List Reads) :
    loopRecloseDebounceTicks ≤ (watch c rbs).closedStreak ↔ 3 ≤ trailing closed rbs := by
  rw [UInt8.le_iff_toNat_le, watch_closedStreak]
  have h3 : loopRecloseDebounceTicks.toNat = 3 := rfl
  omega

theorem le_openStreak_iff (c : Channel) (rbs : List Reads) :
    loopBootOpenConfirmTicks ≤ (watch c rbs).openStreak ↔ 5 ≤ trailing opened rbs := by
  rw [UInt8.le_iff_toNat_le, watch_openStreak]
  have h5 : loopBootOpenConfirmTicks.toNat = 5 := rfl
  omega

/-- Three closed reads in a row, or five open ones, were seen since boot. -/
def Settles (rbs : List Reads) : Prop := Completed closed 3 rbs ∨ Completed opened 5 rbs

/-- The warm-up latch records exactly a completed run of closed or of open reads. -/
theorem watch_settled (c : Channel) (rbs : List Reads) :
    (watch c rbs).settled = true ↔ Settles rbs := by
  induction rbs using List.reverseRecOn with
  | nil =>
    refine iff_of_false (by simp [estopStateInit]) ?_
    rintro (h | h)
    · exact not_completed_nil (by omega) h
    · exact not_completed_nil (by omega) h
  | append_singleton rbs rb ih =>
    have hs := (sample_streaks c rb (watch c rbs)).2.2.1
    rw [← watch_concat] at hs
    rw [hs, Bool.or_eq_true, Bool.or_eq_true, decide_eq_true_eq, decide_eq_true_eq,
      le_closedStreak_iff, le_openStreak_iff, ih, Settles, Settles, completed_concat,
      completed_concat]
    tauto

theorem watch_primed (c : Channel) (rbs : List Reads) (h : rbs ≠ []) :
    (watch c rbs).primedHigh = true ∧ (watch c rbs).primedLow = true := by
  obtain ⟨rbs, rb, rfl⟩ := (List.eq_nil_or_concat rbs).resolve_left h
  rw [List.concat_eq_append, watch_concat]
  exact (sample_streaks c rb _).2.2.2

theorem Settles.ne_nil {rbs : List Reads} (h : Settles rbs) : rbs ≠ [] := by
  rintro rfl
  rcases h with h | h
  · exact not_completed_nil (by omega) h
  · exact not_completed_nil (by omega) h

theorem Settles.append {rbs : List Reads} (h : Settles rbs) (rbs' : List Reads) :
    Settles (rbs ++ rbs') := h.imp (·.append rbs') (·.append rbs')

/-- The gate opens once both channels have settled. -/
theorem channelsPrimed_iff (rbs : Channel → List Reads) :
    estopChannelsPrimed (fun c => watch c (rbs c)) = true ↔ ∀ c, Settles (rbs c) := by
  constructor
  · intro h
    simp only [estopChannelsPrimed, Bool.and_eq_true] at h
    intro c
    cases c using channel_cases with
    | zero => exact (watch_settled 0 _).mp h.1.2
    | one => exact (watch_settled 1 _).mp h.2
  · intro h
    have hp (c : Channel) := watch_primed c (rbs c) (h c).ne_nil
    have hs (c : Channel) := (watch_settled c (rbs c)).mpr (h c)
    simp [estopChannelsPrimed, hp, hs]

/-- The verdict of the last sample, as a property of the reads. -/
theorem verdict_watch (c : Channel) (rbs : List Reads) (rb : Reads) :
    (estopChannelSample c rb (watch c rbs)).2 =
      if 3 ≤ trailing closed (rbs ++ [rb]) then messageOk else messageStop := by
  have hi : closed rb = true ∧ 3 ≤ trailing closed (rbs ++ [rb]) ↔
      3 ≤ trailing closed (rbs ++ [rb]) := by
    refine and_iff_right_of_imp fun h => ?_
    by_contra hc
    rw [trailing_concat, if_neg hc] at h
    omega
  rw [sample_verdict, ← watch_concat]
  simp only [le_closedStreak_iff, hi]

end ZephyrApps.EstopVerdict
