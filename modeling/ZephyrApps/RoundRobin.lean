import Mathlib.Data.List.Basic

/-!
# Round robin

A cursor goes around `m` places. A turn takes the first place from the cursor on that is
ready, and leaves the cursor behind it.
-/
namespace ZephyrApps.RoundRobin

variable {m : ℕ} {ready : ℕ → Bool} {c i j : ℕ}

/-- The first ready place from the cursor `c` on, once around. -/
def pick (m : ℕ) (ready : ℕ → Bool) (c : ℕ) : Option ℕ :=
  ((List.range m).map fun n => (c + n) % m).find? ready

def behind (m j : ℕ) : ℕ := (j + 1) % m

/-- How many places the cursor passes before it comes to `i`. -/
def gap (m c i : ℕ) : ℕ := if c ≤ i then i - c else i + m - c

theorem gap_lt (hc : c < m) (hi : i < m) : gap m c i < m := by
  unfold gap
  split <;> omega

theorem behind_lt (hj : j < m) : behind m j < m := Nat.mod_lt _ (by omega)

theorem gap_add_mod {n : ℕ} (hc : c < m) (hn : n < m) : gap m c ((c + n) % m) = n := by
  rcases Nat.lt_or_ge (c + n) m with h | h
  · rw [Nat.mod_eq_of_lt h, gap, if_pos (by omega)]
    omega
  · rw [Nat.mod_eq_sub_mod h, Nat.mod_eq_of_lt (by omega), gap, if_neg (by omega)]
    omega

theorem add_gap_mod (hc : c < m) (hi : i < m) : (c + gap m c i) % m = i := by
  unfold gap
  split
  · rw [Nat.add_sub_cancel' ‹_›, Nat.mod_eq_of_lt hi]
  · rw [Nat.add_sub_cancel' (by omega), Nat.add_mod_right, Nat.mod_eq_of_lt hi]

theorem pick_lt (hm : 0 < m) (h : pick m ready c = some j) : j < m := by
  obtain ⟨n, -, rfl⟩ := List.mem_map.mp (List.mem_of_find?_eq_some h)
  exact Nat.mod_lt _ hm

theorem pick_ready (h : pick m ready c = some j) : ready j = true := List.find?_some h

/-- Nothing is picked only when nothing is ready. -/
theorem pick_eq_none (hc : c < m) : pick m ready c = none ↔ ∀ i < m, ready i = false := by
  rw [pick, List.find?_eq_none]
  constructor
  · intro h i hi
    have hmem : i ∈ (List.range m).map fun n => (c + n) % m :=
      List.mem_map.mpr ⟨gap m c i, List.mem_range.mpr (gap_lt hc hi), add_gap_mod hc hi⟩
    exact Bool.eq_false_iff.mpr (h i hmem)
  · intro h j hj
    obtain ⟨n, -, rfl⟩ := List.mem_map.mp hj
    exact Bool.eq_false_iff.mp (h _ (Nat.mod_lt _ (by omega)))

/-- A ready place is picked unless one before it is. -/
theorem pick_gap_le (ready : ℕ → Bool) (hc : c < m) (hi : i < m) (hr : ready i = true) :
    ∃ j, pick m ready c = some j ∧ j < m ∧ gap m c j ≤ gap m c i := by
  obtain ⟨j, hj⟩ : ∃ j, pick m ready c = some j := by
    apply Option.ne_none_iff_exists'.mp
    intro hn
    have hi' := (pick_eq_none hc).mp hn i hi
    rw [hr] at hi'
    cases hi'
  have hjm := pick_lt (by omega) hj
  refine ⟨j, hj, hjm, ?_⟩
  rw [pick, List.find?_eq_some_iff_getElem] at hj
  obtain ⟨-, n, hn, hget, hbefore⟩ := hj
  rw [List.length_map, List.length_range] at hn
  rw [List.getElem_map, List.getElem_range] at hget
  rw [← hget, gap_add_mod hc hn]
  by_contra hlt
  have hskip := hbefore (gap m c i) (by omega)
  rw [List.getElem_map, List.getElem_range, add_gap_mod hc hi, hr] at hskip
  cases hskip

/-- A turn that takes another place brings the cursor closer. -/
theorem gap_behind (hc : c < m) (hi : i < m) (hj : j < m) (hne : j ≠ i)
    (hle : gap m c j ≤ gap m c i) : gap m (behind m j) i + gap m c j + 1 = gap m c i := by
  have hb : behind m j = if j + 1 = m then 0 else j + 1 := by
    unfold behind
    split
    · rw [‹j + 1 = m›, Nat.mod_self]
    · exact Nat.mod_eq_of_lt (by omega)
  rw [hb]
  unfold gap at hle ⊢
  split_ifs at hle ⊢ <;> omega

theorem pick_zero_least (hm : 0 < m) (h : pick m ready 0 = some j) : ∀ i < j, ready i = false := by
  intro i hij
  have hj := pick_lt hm h
  by_contra hr
  obtain ⟨j', hj', -, hle⟩ := pick_gap_le ready hm (i := i) (by omega) (by simpa using hr)
  rw [h] at hj'
  cases hj'
  simp only [gap, Nat.zero_le, if_true, Nat.sub_zero] at hle
  omega

end ZephyrApps.RoundRobin
