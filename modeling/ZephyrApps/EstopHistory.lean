import ZephyrApps.EstopVerdict

/-!
# Verdicts as functions of the history

`estop_decide` on readbacks of any value, fed from `estop_state_init`: its two bytes
and its latch say no more than how the readbacks so far ended.
-/
namespace ZephyrApps.EstopHistory
open Pstop ConsecutiveRuns EstopVerdict

/-- The loop reads as it must when it is closed. -/
def Conducts (rb : Reads) : Prop := rb = (1, 0)

theorem conducts_iff (rb : Reads) : Conducts rb ↔ closed rb = true := by
  simp [Conducts, closed]

theorem not_conducts_iff (rb : Reads) : ¬ Conducts rb ↔ opened rb = true := by
  simp [Conducts, closed, opened]

/-- The values that stand for a read error decide as the negative values would. -/
theorem estopChannelSample_eq (c : Channel) (rb : Reads) (st : EstopState) :
    estopChannelSample c rb st = estopDecide st c rb.1 rb.2 := by
  obtain ⟨hi, lo⟩ := rb
  have hhi : decide ((if hi < 0 then (0 : Int32) else hi) = 1) = decide (hi = 1) := by
    split
    case isTrue h =>
      have hne : hi ≠ 1 := by
        rintro rfl
        exact absurd h (by decide)
      simp [hne]
    case isFalse => rfl
  have hlo : decide ((if lo < 0 then (1 : Int32) else lo) = 0) = decide (lo = 0) := by
    split
    case isTrue h =>
      have hne : lo ≠ 0 := by
        rintro rfl
        exact absurd h (by decide)
      simp [hne]
    case isFalse => rfl
  simp only [estopChannelSample, estopDecide, hhi, hlo]
  by_cases hc : hi = 1 ∧ lo = 0
  · obtain ⟨rfl, rfl⟩ := hc
    rfl
  · have hraw : (decide (hi = 1) && decide (lo = 0)) = false := by
      simpa using hc
    simp [hraw]

def decided (c : Channel) (rbs : List Reads) : EstopState :=
  rbs.foldl (fun st rb => (estopDecide st c rb.1 rb.2).1) estopStateInit

theorem decided_eq (c : Channel) (rbs : List Reads) : decided c rbs = watch c rbs := by
  simp only [decided, watch, estopChannelSample_eq]

theorem endsIn_conducts {n : ℕ} {rbs : List Reads} :
    EndsIn Conducts n rbs ↔ n ≤ trailing closed rbs := by
  rw [← endsIn_iff, funext fun rb => propext (conducts_iff rb)]

theorem endsIn_not_conducts {n : ℕ} {rbs : List Reads} :
    EndsIn (¬ Conducts ·) n rbs ↔ n ≤ trailing opened rbs := by
  rw [← endsIn_iff, funext fun rb => propext (not_conducts_iff rb)]

/-- The verdict of either core is OK exactly when the last three pairs conduct. -/
theorem verdict_iff (c : Channel) (rbs : List Reads) (rb : Reads) :
    ((estopDecide (decided c rbs) c rb.1 rb.2).2 = messageOk ↔
      EndsIn Conducts 3 (rbs ++ [rb])) ∧
    ((estopDecide (decided c rbs) c rb.1 rb.2).2 = messageStop ↔
      ¬ EndsIn Conducts 3 (rbs ++ [rb])) := by
  rw [← estopChannelSample_eq, decided_eq, verdict_watch, endsIn_conducts]
  by_cases h : 3 ≤ trailing closed (rbs ++ [rb])
  · rw [if_pos h]
    exact ⟨iff_of_true rfl h, iff_of_false (by decide) (not_not.mpr h)⟩
  · rw [if_neg h]
    exact ⟨iff_of_false (by decide) h, iff_of_true rfl h⟩

/-- The latch says that some part of the readbacks ended in three pairs that conduct
or in five that do not. -/
theorem settled_iff (c : Channel) (rbs : List Reads) :
    (decided c rbs).settled = true ↔ ∃ early, early <+: rbs ∧
      (EndsIn Conducts 3 early ∨ EndsIn (¬ Conducts ·) 5 early) := by
  rw [decided_eq, watch_settled, Settles, completed_iff_endsIn, completed_iff_endsIn, ← exists_or]
  simp only [endsIn_iff, endsIn_conducts, endsIn_not_conducts, and_or_left]

/-- `estop_decide` computes a function of the history: its verdict, its latch, and
what its saturating streaks are compared with; so both cores return the same verdict
on every history. -/
theorem estopDecide_history (c : Channel) (rbs : List Reads) :
    (∀ rb, ((estopDecide (decided c rbs) c rb.1 rb.2).2 = messageOk ↔
        EndsIn Conducts 3 (rbs ++ [rb])) ∧
      ((estopDecide (decided c rbs) c rb.1 rb.2).2 = messageStop ↔
        ¬ EndsIn Conducts 3 (rbs ++ [rb]))) ∧
    ((decided c rbs).settled = true ↔ ∃ early, early <+: rbs ∧
      (EndsIn Conducts 3 early ∨ EndsIn (¬ Conducts ·) 5 early)) ∧
    (∀ later, (decided c rbs).settled = true → (decided c (rbs ++ later)).settled = true) ∧
    (loopRecloseDebounceTicks ≤ (decided c rbs).closedStreak ↔ EndsIn Conducts 3 rbs) ∧
    (loopBootOpenConfirmTicks ≤ (decided c rbs).openStreak ↔ EndsIn (¬ Conducts ·) 5 rbs) ∧
    ∀ rb : Reads, (estopDecide (decided 0 rbs) 0 rb.1 rb.2).2 =
      (estopDecide (decided 1 rbs) 1 rb.1 rb.2).2 := by
  refine ⟨verdict_iff c rbs, settled_iff c rbs, ?_, ?_, ?_, ?_⟩
  · intro later h
    obtain ⟨early, he, hends⟩ := (settled_iff c rbs).mp h
    exact (settled_iff c _).mpr ⟨early, he.trans (List.prefix_append rbs later), hends⟩
  · rw [decided_eq, le_closedStreak_iff, endsIn_conducts]
  · rw [decided_eq, le_openStreak_iff, endsIn_not_conducts]
  · intro rb
    by_cases h : EndsIn Conducts 3 (rbs ++ [rb])
    · rw [(verdict_iff 0 rbs rb).1.mpr h, (verdict_iff 1 rbs rb).1.mpr h]
    · rw [(verdict_iff 0 rbs rb).2.mpr h, (verdict_iff 1 rbs rb).2.mpr h]

end ZephyrApps.EstopHistory
