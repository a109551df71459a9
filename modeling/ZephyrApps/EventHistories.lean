import Mathlib.Data.List.DropRight

/-!
# Properties of histories

A history is a list, oldest first: of events, or of the inputs of a run.
`Each Q h` says that every element of `h` stands in relation `Q` to the elements
before it. `since mark h` is what came after the last marked one, the current
epoch of the history.
-/
namespace ZephyrApps.EventHistories

variable {α : Type*}

/-- Every element of the history satisfies `Q` with respect to its own past. -/
def Each (Q : List α → α → Prop) (h : List α) : Prop :=
  ∀ past e future, h = past ++ e :: future → Q past e

@[simp] theorem each_nil (Q : List α → α → Prop) : Each Q [] := by
  intro past e future h
  simp at h

theorem each_concat {Q : List α → α → Prop} {h : List α} {e : α} :
    Each Q (h ++ [e]) ↔ Each Q h ∧ Q h e := by
  constructor
  · intro hq
    refine ⟨fun past x future hx => hq past x (future ++ [e]) (by simp [hx]), ?_⟩
    exact hq h e [] rfl
  · rintro ⟨hh, he⟩ past x future hx
    rcases List.eq_nil_or_concat future with rfl | ⟨rest, y, rfl⟩
    · obtain ⟨rfl, hxe⟩ := List.append_inj' hx rfl
      cases hxe
      exact he
    · have hs : h ++ [e] = (past ++ x :: rest) ++ [y] := by simpa using hx
      exact hh past x rest (List.append_inj' hs rfl).1

theorem each_cons {Q : List α → α → Prop} {e : α} {h : List α} :
    Each Q (e :: h) ↔ Q [] e ∧ Each (fun past => Q (e :: past)) h := by
  constructor
  · intro hq
    exact ⟨hq [] e h rfl, fun past x future hx => hq (e :: past) x future (by simp [hx])⟩
  · rintro ⟨he, hh⟩ past x future hx
    cases past with
    | nil =>
      obtain ⟨rfl, -⟩ := List.cons.inj hx
      exact he
    | cons y past =>
      obtain ⟨rfl, hx'⟩ := List.cons.inj hx
      exact hh past x future hx'

/-- A history splits into its past and what is judged against that past. -/
theorem each_append {Q : List α → α → Prop} {h es : List α} :
    Each Q (h ++ es) ↔ Each Q h ∧ Each (fun past e => Q (h ++ past) e) es := by
  induction es using List.reverseRecOn with
  | nil => simp
  | append_singleton es e ih =>
    rw [← List.append_assoc, each_concat, each_concat, ih, and_assoc]

theorem Each.left {Q : List α → α → Prop} {h es : List α} (hq : Each Q (h ++ es)) : Each Q h :=
  (each_append.mp hq).1

theorem Each.last {Q : List α → α → Prop} {h : List α} {e : α} (hq : Each Q (h ++ [e])) : Q h e :=
  (each_concat.mp hq).2

theorem each_iff_get {Q : List α → α → Prop} {h : List α} :
    Each Q h ↔ ∀ n : Fin h.length, Q (h.take n) h[n] := by
  constructor
  · intro hq n
    exact hq (h.take n) h[n] (h.drop (n + 1)) (by simp)
  · rintro hq past e future rfl
    simpa using hq ⟨past.length, by simp⟩

instance {Q : List α → α → Prop} [∀ past e, Decidable (Q past e)] (h : List α) :
    Decidable (Each Q h) := decidable_of_iff _ each_iff_get.symm

theorem Each.of_mem {Q : List α → α → Prop} {h : List α} (hq : ∀ past, ∀ e ∈ h, Q past e) :
    Each Q h := by
  rintro past e future rfl
  exact hq past e (by simp)

/-- The events after the last marked one; the whole history if none is marked. -/
def since (mark : α → Bool) (h : List α) : List α := h.rtakeWhile (fun e => !mark e)

theorem since_concat (mark : α → Bool) (h : List α) (e : α) :
    since mark (h ++ [e]) = if mark e then [] else since mark h ++ [e] := by
  cases he : mark e <;> simp [since, he]

@[simp] theorem since_concat_mark {mark : α → Bool} {e : α} (he : mark e = true) (h : List α) :
    since mark (h ++ [e]) = [] := by simp [since_concat, he]

@[simp] theorem since_concat_unmarked {mark : α → Bool} {e : α} (he : mark e = false)
    (h : List α) : since mark (h ++ [e]) = since mark h ++ [e] := by simp [since_concat, he]

theorem since_append_unmarked {mark : α → Bool} {es : List α} (hes : ∀ e ∈ es, mark e = false)
    (h : List α) : since mark (h ++ es) = since mark h ++ es := by
  induction es using List.reverseRecOn with
  | nil => simp
  | append_singleton es e ih =>
    have he : mark e = false := hes e (by simp)
    have hs := ih (fun x hx => hes x (by simp [hx]))
    rw [← List.append_assoc, since_concat_unmarked he, hs, List.append_assoc]

/-- An event that no mark follows belongs to the current epoch. -/
theorem mem_since {mark : α → Bool} {past mid : List α} {e : α} (he : mark e = false)
    (hm : ∀ x ∈ mid, mark x = false) : e ∈ since mark (past ++ e :: mid) := by
  have hes : ∀ x ∈ e :: mid, mark x = false := by simpa using ⟨he, hm⟩
  simp [since_append_unmarked hes past]

end ZephyrApps.EventHistories
