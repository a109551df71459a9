import Mathlib.Data.List.Nodup

/-!
# Lists with distinct keys

A list whose elements carry keys, no two the same, is a map that remembers in which
order its keys came. Removing or changing the element at a key's position is a filter
or a map by that key.
-/
namespace ZephyrApps.KeyedLists

variable {α κ : Type*} [DecidableEq κ] {key : α → κ} {k : κ} {l : List α} {i : ℕ}

def position (key : α → κ) (k : κ) (l : List α) : Option ℕ :=
  l.findIdx? fun a => decide (key a = k)

theorem findIdx?_congr {p q : α → Bool} (h : ∀ a ∈ l, p a = q a) : l.findIdx? p = l.findIdx? q := by
  induction l with
  | nil => rfl
  | cons a l ih =>
    rw [List.findIdx?_cons, List.findIdx?_cons, h a (by simp), ih fun b hb => h b (by simp [hb])]

theorem position_none : position key k l = none ↔ ∀ a ∈ l, key a ≠ k := by
  simp [position, List.findIdx?_eq_none_iff]

theorem position_cons (a : α) (l : List α) :
    position key k (a :: l) = if key a = k then some 0 else (position key k l).map (· + 1) := by
  by_cases h : key a = k <;> simp [position, List.findIdx?_cons, h]

theorem position_some (h : position key k l = some i) : ∃ a ∈ l, key a = k := by
  by_contra hn
  rw [position_none.mpr fun a ha hk => hn ⟨a, ha, hk⟩] at h
  cases h

/-- Erasing a key's element leaves the others in their order. -/
theorem eraseIdx_position (hd : (l.map key).Nodup) (h : position key k l = some i) :
    l.eraseIdx i = l.filter fun a => decide (key a ≠ k) := by
  induction l generalizing i with
  | nil => cases h
  | cons a l ih =>
    obtain ⟨ha, hl⟩ := List.nodup_cons.mp hd
    rw [position_cons] at h
    by_cases hk : key a = k
    · rw [if_pos hk] at h
      cases h
      have hothers : ∀ b ∈ l, key b ≠ k := fun b hb hbk =>
        ha (List.mem_map.mpr ⟨b, hb, hbk.trans hk.symm⟩)
      rw [List.eraseIdx_cons_zero, List.filter_cons_of_neg (by simpa using hk)]
      exact (List.filter_eq_self.mpr fun b hb => by simpa using hothers b hb).symm
    · rw [if_neg hk] at h
      obtain ⟨j, hj, rfl⟩ := Option.map_eq_some_iff.mp h
      rw [List.eraseIdx_cons_succ, List.filter_cons_of_pos (by simpa using hk), ih hl hj]

/-- Changing a key's element leaves the others. -/
theorem modify_position (hd : (l.map key).Nodup) (h : position key k l = some i) (f : α → α) :
    l.modify i f = l.map fun a => if key a = k then f a else a := by
  induction l generalizing i with
  | nil => cases h
  | cons a l ih =>
    obtain ⟨ha, hl⟩ := List.nodup_cons.mp hd
    rw [position_cons] at h
    by_cases hk : key a = k
    · rw [if_pos hk] at h
      cases h
      have hothers : ∀ b ∈ l, (if key b = k then f b else b) = b := fun b hb =>
        if_neg fun hbk => ha (List.mem_map.mpr ⟨b, hb, hbk.trans hk.symm⟩)
      rw [List.modify_zero_cons, List.map_cons, if_pos hk, List.map_congr_left hothers,
        List.map_id']
    · rw [if_neg hk] at h
      obtain ⟨j, hj, rfl⟩ := Option.map_eq_some_iff.mp h
      rw [List.modify_succ_cons, List.map_cons, if_neg hk, ih hl hj]

end ZephyrApps.KeyedLists
