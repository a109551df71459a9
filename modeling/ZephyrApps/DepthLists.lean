import Mathlib.Data.List.Basic

/-!
# Lists with depths

A forest listed in preorder, each item with its depth. At an item those are open that lead to it: an
item closes the ones that are as deep as it is.
-/
namespace ZephyrApps.DepthLists

variable {α : Type*} (depth : α → ℕ)

/-- The items above depth `d`. -/
def above (d : ℕ) (stack : List α) : List α := stack.filter fun x => depth x < d

/-- The items that are open at `x`, if those of `stack` were open before. -/
def opened (stack : List α) (x : α) : List α := above depth (depth x) stack ++ [x]

/-- The items that are open at each item of a list. -/
def openings (stack : List α) : List α → List (List α)
  | [] => []
  | x :: xs => opened depth stack x :: openings (opened depth stack x) xs

/-- Whatever is open before the list, somewhere in it exactly `c` is open below depth `d`. -/
def Opens (d : ℕ) (c xs : List α) : Prop :=
  ∀ stack, above depth d stack ++ c ∈ openings depth stack xs

variable {depth} {d : ℕ} {stack c xs ys zs : List α} {x y : α}

theorem above_above {e : ℕ} (h : d ≤ e) :
    above depth d (above depth e stack) = above depth d stack := by
  rw [above, above, List.filter_filter]
  apply List.filter_congr
  intro x _
  rw [← Bool.decide_and]
  apply decide_eq_decide.mpr
  omega

theorem above_opened (h : d ≤ depth x) :
    above depth d (opened depth stack x) = above depth d stack := by
  have hx : above depth d [x] = [] := by simp [above, h]
  rw [opened, above, List.filter_append, ← above, ← above, hx, List.append_nil, above_above h]

theorem depth_opened (h : y ∈ opened depth stack x) : depth y ≤ depth x := by
  rcases List.mem_append.mp h with hy | hy
  · have hlt := (List.mem_filter.mp hy).2
    exact Nat.le_of_lt (of_decide_eq_true hlt)
  · exact Nat.le_of_eq (congrArg depth (List.mem_singleton.mp hy))

/-- What is deeper than an item closes none of those that are open at it. -/
theorem above_opened_of_lt (h : depth x < d) :
    above depth d (opened depth stack x) = opened depth stack x := by
  rw [above, List.filter_eq_self]
  intro y hy
  exact decide_eq_true (Nat.lt_of_le_of_lt (depth_opened hy) h)

theorem openings_map {β : Type*} {depth' : β → ℕ} (g : α → β) (h : ∀ x, depth' (g x) = depth x)
    (stack xs : List α) :
    openings depth' (stack.map g) (xs.map g) = (openings depth stack xs).map (List.map g) := by
  induction xs generalizing stack with
  | nil => rfl
  | cons x xs ih =>
    have habove : above depth' (depth x) (stack.map g) = (above depth (depth x) stack).map g := by
      rw [above, above, List.filter_map]
      congr 2
      funext y
      exact decide_eq_decide.mpr (by rw [h])
    have hopened : opened depth' (stack.map g) (g x) = (opened depth stack x).map g := by
      rw [opened, opened, h, habove, List.map_append]
      rfl
    rw [List.map_cons, openings, openings, hopened, ih, List.map_cons]

theorem mem_openings_append (h : c ∈ openings depth stack xs) :
    c ∈ openings depth stack (xs ++ ys) := by
  induction xs generalizing stack with
  | nil => cases h
  | cons x xs ih =>
    rw [List.cons_append, openings]
    rcases List.mem_cons.mp h with h | h
    · exact List.mem_cons.mpr (.inl h)
    · exact List.mem_cons.mpr (.inr (ih h))

/-- Items that are as deep leave open what is above them. -/
theorem openings_append_left (stack ys : List α) (h : ∀ x ∈ xs, d ≤ depth x) :
    ∃ stack', above depth d stack' = above depth d stack ∧
      ∀ c ∈ openings depth stack' ys, c ∈ openings depth stack (xs ++ ys) := by
  induction xs generalizing stack with
  | nil => exact ⟨stack, rfl, fun _ hc => hc⟩
  | cons x xs ih =>
    obtain ⟨stack', habove, hmem⟩ := ih (opened depth stack x)
      fun y hy => h y (List.mem_cons_of_mem _ hy)
    refine ⟨stack', habove.trans (above_opened (h x List.mem_cons_self)), fun c hc => ?_⟩
    rw [List.cons_append, openings]
    exact List.mem_cons_of_mem _ (hmem c hc)

theorem Opens.append (h : Opens depth d c ys) (hxs : ∀ x ∈ xs, d ≤ depth x) (zs : List α) :
    Opens depth d c (xs ++ ys ++ zs) := by
  intro stack
  obtain ⟨stack', habove, hmem⟩ := openings_append_left stack ys hxs
  apply mem_openings_append
  apply hmem
  rw [← habove]
  exact h stack'

theorem opens_head (h : depth x = d) : Opens depth d [x] (x :: xs) := by
  intro stack
  rw [openings, opened, h]
  exact List.mem_cons_self

theorem Opens.cons (h : Opens depth (d + 1) c xs) (hx : depth x = d) :
    Opens depth d (x :: c) (x :: xs) := by
  intro stack
  have hopened : above depth (d + 1) (opened depth stack x) = above depth d stack ++ [x] := by
    rw [above_opened_of_lt (by omega), opened, hx]
  have hmem := h (opened depth stack x)
  rw [hopened, List.append_assoc, List.singleton_append] at hmem
  exact List.mem_cons_of_mem _ hmem

end ZephyrApps.DepthLists
