import Mathlib.Algebra.Order.Ring.Nat
import Mathlib.Data.List.Chain

/-!
# Run lengths

A signal, sampled at equal steps, and the runs it is made of. `runs` finds the runs of any
signal; those it was made of, if neighbours differ and none is empty.
-/
namespace ZephyrApps.RunLengths

variable {α : Type*}

/-- The signal with these runs. -/
def expand (rs : List (α × ℕ)) : List α := rs.flatMap fun r => List.replicate r.2 r.1

def extend [DecidableEq α] (a : α) : List (α × ℕ) → List (α × ℕ)
  | [] => [(a, 1)]
  | (b, n) :: rs => if a = b then (b, n + 1) :: rs else (a, 1) :: (b, n) :: rs

def runs [DecidableEq α] (signal : List α) : List (α × ℕ) := signal.foldr extend []

/-- Neighbours differ and no run is empty. -/
def Proper (rs : List (α × ℕ)) : Prop :=
  (rs.IsChain fun r r' => r.1 ≠ r'.1) ∧ ∀ r ∈ rs, 0 < r.2

def duration (rs : List (α × ℕ)) : ℕ := (rs.map Prod.snd).sum

variable {rs : List (α × ℕ)} {a : α} {n : ℕ}

@[simp] theorem expand_nil : expand ([] : List (α × ℕ)) = [] := rfl

@[simp] theorem expand_cons (r : α × ℕ) (rs : List (α × ℕ)) :
    expand (r :: rs) = List.replicate r.2 r.1 ++ expand rs := rfl

@[simp] theorem expand_append (rs rs' : List (α × ℕ)) :
    expand (rs ++ rs') = expand rs ++ expand rs' := List.flatMap_append

@[simp] theorem duration_cons (r : α × ℕ) (rs : List (α × ℕ)) :
    duration (r :: rs) = r.2 + duration rs := rfl

theorem length_expand (rs : List (α × ℕ)) : (expand rs).length = duration rs := by
  induction rs with
  | nil => rfl
  | cons r rs ih => rw [expand_cons, List.length_append, List.length_replicate, ih, duration_cons]

variable [DecidableEq α]

/-- A run in front of a signal that goes on otherwise. -/
theorem foldr_extend (hpos : 0 < n) (hhead : ∀ r ∈ rs.head?, a ≠ r.1) :
    (List.replicate n a).foldr extend rs = (a, n) :: rs := by
  induction n with
  | zero => cases hpos
  | succ n ih =>
    rw [List.replicate_succ, List.foldr_cons]
    cases n with
    | zero =>
      cases rs with
      | nil => rfl
      | cons r rs => exact if_neg (hhead r rfl)
    | succ n =>
      rw [ih (Nat.succ_pos n)]
      exact if_pos rfl

theorem runs_expand (h : Proper rs) : runs (expand rs) = rs := by
  induction rs with
  | nil => rfl
  | cons r rs ih =>
    obtain ⟨hchain, hpos⟩ := h
    have hrest := ih ⟨hchain.of_cons, fun r' hr' => hpos r' (List.mem_cons_of_mem _ hr')⟩
    rw [runs] at hrest ⊢
    rw [expand_cons, List.foldr_append, hrest]
    apply foldr_extend (hpos r List.mem_cons_self)
    intro r' hr'
    cases rs with
    | nil => cases hr'
    | cons r'' rs =>
      cases hr'
      exact (List.isChain_cons_cons.mp hchain).1

end ZephyrApps.RunLengths
