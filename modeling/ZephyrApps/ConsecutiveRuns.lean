import Mathlib.Data.List.DropRight
import Mathlib.Data.List.Infix

/-!
# Runs of consecutive samples

`trailing q l` counts the samples at the end of `l` that all satisfy `q`, and
`Completed q n l` says that `n` consecutive samples of `l` once satisfied `q`.
A counter that saturates and is reset by every other sample computes the first,
and a latch on that counter the second.
-/
namespace ZephyrApps.ConsecutiveRuns

variable {α : Type*}

/-- Length of the longest suffix whose elements all satisfy `q`. -/
def trailing (q : α → Bool) (l : List α) : ℕ := (l.rtakeWhile q).length

@[simp] theorem trailing_nil (q : α → Bool) : trailing q [] = 0 := rfl

theorem trailing_concat (q : α → Bool) (l : List α) (a : α) :
    trailing q (l ++ [a]) = if q a then trailing q l + 1 else 0 := by
  cases h : q a <;> simp [trailing, h]

/-- Some `n` consecutive elements of `l` all satisfy `q`. -/
def Completed (q : α → Bool) (n : ℕ) (l : List α) : Prop :=
  ∃ w, w <:+: l ∧ w.length = n ∧ ∀ a ∈ w, q a = true

theorem Completed.append {q : α → Bool} {n : ℕ} {l : List α} (h : Completed q n l)
    (l' : List α) : Completed q n (l ++ l') := by
  obtain ⟨w, hw, hn, hq⟩ := h
  exact ⟨w, hw.trans (List.prefix_append l l').isInfix, hn, hq⟩

theorem exists_suffix_of_le_trailing {q : α → Bool} {n : ℕ} {l : List α}
    (h : n ≤ trailing q l) : ∃ w, w <:+ l ∧ w.length = n ∧ ∀ a ∈ w, q a = true := by
  let r := l.rtakeWhile q
  have hr : r.length - n + n = r.length := Nat.sub_add_cancel h
  refine ⟨r.drop (r.length - n), ?_, ?_, ?_⟩
  · exact (List.drop_suffix _ _).trans (List.rtakeWhile_suffix _ _)
  · simp only [List.length_drop]
    omega
  · intro a ha
    exact List.mem_rtakeWhile_imp (List.mem_of_mem_drop ha)

theorem completed_of_le_trailing {q : α → Bool} {n : ℕ} {l : List α}
    (h : n ≤ trailing q l) : Completed q n l := by
  obtain ⟨w, hw, hn, hq⟩ := exists_suffix_of_le_trailing h
  exact ⟨w, hw.isInfix, hn, hq⟩

theorem length_le_trailing {q : α → Bool} {w l : List α} (hw : w <:+ l)
    (hq : ∀ a ∈ w, q a = true) : w.length ≤ trailing q l := by
  obtain ⟨t, rfl⟩ := hw
  induction w using List.reverseRecOn with
  | nil => simp
  | append_singleton w a ih =>
    have ha : q a = true := hq a (by simp)
    have hi := ih (fun b hb => hq b (by simp [hb]))
    rw [← List.append_assoc, trailing_concat, if_pos ha]
    simpa using hi

/-- Completion is decided sample by sample: a run completes at the sample that
makes the trailing run long enough, and stays completed. -/
theorem completed_concat {q : α → Bool} {n : ℕ} {l : List α} {a : α} :
    Completed q n (l ++ [a]) ↔ Completed q n l ∨ n ≤ trailing q (l ++ [a]) := by
  constructor
  · rintro ⟨w, ⟨s, t, hst⟩, rfl, hq⟩
    rcases List.eq_nil_or_concat t with rfl | ⟨t, b, rfl⟩
    · exact Or.inr (length_le_trailing ⟨s, by simpa using hst⟩ hq)
    · have hs : (s ++ w ++ t) ++ [b] = l ++ [a] := by simpa using hst
      exact Or.inl ⟨w, ⟨s, t, (List.append_inj' hs rfl).1⟩, rfl, hq⟩
  · rintro (h | h)
    · exact h.append [a]
    · exact completed_of_le_trailing h

theorem not_completed_nil {q : α → Bool} {n : ℕ} (hn : 0 < n) : ¬ Completed q n [] := by
  rintro ⟨w, hw, rfl, -⟩
  simp [List.eq_nil_of_infix_nil hw] at hn

/-- A completed run that is no longer trailing was broken by a later sample. -/
theorem Completed.exists_break {q : α → Bool} {n : ℕ} {l : List α} (h : Completed q n l)
    (ht : trailing q l < n) :
    ∃ before a after, l = before ++ a :: after ∧ Completed q n before ∧ q a = false := by
  induction l using List.reverseRecOn with
  | nil =>
    rcases Nat.eq_zero_or_pos n with rfl | hn
    · omega
    · exact absurd h (not_completed_nil hn)
  | append_singleton l a ih =>
    rcases completed_concat.mp h with hl | hl
    · cases ha : q a with
      | false => exact ⟨l, a, [], rfl, hl, ha⟩
      | true =>
        have htl : trailing q l < n := by
          rw [trailing_concat, if_pos ha] at ht
          omega
        obtain ⟨before, x, after, rfl, hb, hx⟩ := ih hl htl
        exact ⟨before, x, after ++ [a], by simp, hb, hx⟩
    · omega

/-- The last `n` samples all satisfy `q`. -/
def EndsIn (q : α → Prop) (n : ℕ) (l : List α) : Prop :=
  ∃ w, w <:+ l ∧ w.length = n ∧ ∀ a ∈ w, q a

theorem endsIn_iff {q : α → Bool} {n : ℕ} {l : List α} :
    EndsIn (q · = true) n l ↔ n ≤ trailing q l := by
  constructor
  · rintro ⟨w, hw, rfl, hq⟩
    exact length_le_trailing hw hq
  · exact exists_suffix_of_le_trailing

/-- A run was completed when some part of the samples so far ended in it. -/
theorem completed_iff_endsIn {q : α → Bool} {n : ℕ} {l : List α} :
    Completed q n l ↔ ∃ early, early <+: l ∧ EndsIn (q · = true) n early := by
  constructor
  · rintro ⟨w, ⟨s, t, hst⟩, hn, hq⟩
    exact ⟨s ++ w, ⟨t, hst⟩, w, List.suffix_append s w, hn, hq⟩
  · rintro ⟨early, he, w, hw, hn, hq⟩
    exact ⟨w, hw.isInfix.trans he.isInfix, hn, hq⟩

end ZephyrApps.ConsecutiveRuns
