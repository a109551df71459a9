import Mathlib.Data.Finset.Card
import Mathlib.Data.Fintype.Card
import Mathlib.Data.List.FinRange
import Mathlib.Logic.Function.Basic

/-!
# Slot tables

A table of a fixed number of slots, each free or held for one key. As long as no more
keys than slots hold one, a key that asks finds its own slot, or a free one.
-/
namespace ZephyrApps.SlotTables

variable {κ σ : Type*} {n : ℕ}

def Distinct (key : σ → Option κ) (slots : Fin n → σ) : Prop :=
  ∀ i j k, key (slots i) = some k → key (slots j) = some k → i = j

/-- The first slot that is as `p` says. -/
def firstSlot (p : σ → Bool) (slots : Fin n → σ) : Option (Fin n) :=
  (List.finRange n).find? fun i => p (slots i)

theorem firstSlot_some {p : σ → Bool} {slots : Fin n → σ} {i : Fin n}
    (h : firstSlot p slots = some i) : p (slots i) = true := by
  have hp := List.find?_some h
  exact hp

theorem firstSlot_none {p : σ → Bool} {slots : Fin n → σ} (h : firstSlot p slots = none)
    (i : Fin n) : p (slots i) = false :=
  Bool.eq_false_iff.mpr (List.find?_eq_none.mp h i (List.mem_finRange i))

variable {key : σ → Option κ} {slots : Fin n → σ}

/-- A table whose slots are all held is held for as many keys as it has slots. -/
theorem Distinct.exists_free (hd : Distinct key slots) {k : κ} (hk : ∀ i, key (slots i) ≠ some k)
    (hcard : ∀ ks : Finset κ, (∀ k' ∈ ks, k' = k ∨ ∃ i, key (slots i) = some k') → ks.card ≤ n) :
    ∃ i, key (slots i) = none := by
  classical
  by_contra hfull
  have hheld (i : Fin n) : ∃ k', key (slots i) = some k' :=
    Option.ne_none_iff_exists'.mp fun h => hfull ⟨i, h⟩
  choose holder hholder using hheld
  have hinj : Function.Injective holder := fun i j hij =>
    hd i j (holder j) (hij ▸ hholder i) (hholder j)
  have hnew : k ∉ Finset.univ.image holder := by
    intro hm
    obtain ⟨i, -, hi⟩ := Finset.mem_image.mp hm
    exact hk i (hi ▸ hholder i)
  have hle : (insert k (Finset.univ.image holder)).card ≤ n := by
    apply hcard
    intro k' hk'
    rcases Finset.mem_insert.mp hk' with rfl | hm
    · exact Or.inl rfl
    · obtain ⟨i, -, rfl⟩ := Finset.mem_image.mp hm
      exact Or.inr ⟨i, hholder i⟩
  rw [Finset.card_insert_of_notMem hnew, Finset.card_image_of_injective _ hinj, Finset.card_univ,
    Fintype.card_fin] at hle
  omega

/-- A slot is given to a key that no other slot is held for. -/
theorem Distinct.update (hd : Distinct key slots) {i : Fin n} {s : σ} {k : κ}
    (hs : key s = some k) (hother : ∀ j, j ≠ i → key (slots j) ≠ some k) :
    Distinct key (Function.update slots i s) := by
  intro a b k' ha hb
  by_cases hai : a = i
  · subst hai
    rw [Function.update_self, hs] at ha
    by_cases hbi : b = a
    · exact hbi.symm
    · rw [Function.update_of_ne hbi] at hb
      exact absurd (hb.trans ha.symm) (hother b hbi)
  · rw [Function.update_of_ne hai] at ha
    by_cases hbi : b = i
    · subst hbi
      rw [Function.update_self, hs] at hb
      exact absurd (ha.trans hb.symm) (hother a hai)
    · rw [Function.update_of_ne hbi] at hb
      exact hd a b k' ha hb

theorem Distinct.release (hd : Distinct key slots) {slots' : Fin n → σ}
    (h : ∀ i, key (slots' i) = none ∨ key (slots' i) = key (slots i)) : Distinct key slots' := by
  intro a b k ha hb
  refine hd a b k ?_ ?_
  · rcases h a with hn | he
    · exact nomatch hn.symm.trans ha
    · rwa [← he]
  · rcases h b with hn | he
    · exact nomatch hn.symm.trans hb
    · rwa [← he]

end ZephyrApps.SlotTables
