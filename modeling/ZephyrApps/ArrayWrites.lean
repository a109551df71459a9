import Mathlib.Data.List.Nodup
import Mathlib.Logic.Function.Basic

/-!
# Loops that write to an array

Every round of the loop writes one element. What no round writes stays, and what one
round writes alone is what that round wrote.
-/
namespace ZephyrApps.ArrayWrites

variable {ι β : Type*} {m : ℕ}

/-- `a[p] = v`, for an array of `m` elements. -/
def setAt (a : Fin m → β) (p : ℕ) (v : β) : Fin m → β :=
  if h : p < m then Function.update a ⟨p, h⟩ v else a

theorem setAt_self (a : Fin m → β) (q : Fin m) (v : β) : setAt a q v q = v := by
  rw [setAt, dif_pos q.isLt]
  exact Function.update_self q v a

theorem setAt_ne (a : Fin m → β) {p : ℕ} {q : Fin m} (v : β) (h : q.val ≠ p) :
    setAt a p v q = a q := by
  rw [setAt]
  split
  case isTrue hp =>
    have hne : q ≠ ⟨p, hp⟩ := fun he => h (by rw [he])
    exact Function.update_of_ne hne v a
  case isFalse => rfl

/-- What no round writes to stays. -/
theorem foldl_setAt_other {f : ι → ℕ} {v : ι → β} {q : Fin m} {is : List ι}
    (h : ∀ i ∈ is, q.val ≠ f i) (a : Fin m → β) :
    (is.foldl (fun a i => setAt a (f i) (v i)) a) q = a q := by
  induction is generalizing a with
  | nil => rfl
  | cons i is ih =>
    rw [List.foldl_cons, ih (fun j hj => h j (List.mem_cons_of_mem i hj))]
    exact setAt_ne a (v i) (h i List.mem_cons_self)

/-- If no two rounds write to one element, each element has what its round wrote. -/
theorem foldl_setAt {f : ι → ℕ} {v : ι → β} {i : ι} {q : Fin m} {is : List ι} (hi : i ∈ is)
    (hq : q.val = f i) (hd : is.Nodup) (hf : ∀ j ∈ is, f j = f i → j = i) (a : Fin m → β) :
    (is.foldl (fun a i => setAt a (f i) (v i)) a) q = v i := by
  induction is generalizing a with
  | nil => cases hi
  | cons j is ih =>
    obtain ⟨hj, hd⟩ := List.nodup_cons.mp hd
    rw [List.foldl_cons]
    rcases List.mem_cons.mp hi with rfl | hi
    · rw [foldl_setAt_other, ← hq, setAt_self]
      intro k hk he
      have hki := hf k (List.mem_cons_of_mem i hk) (he.symm.trans hq)
      exact hj (hki ▸ hk)
    · exact ih hi hd (fun k hk => hf k (List.mem_cons_of_mem j hk)) _

end ZephyrApps.ArrayWrites
