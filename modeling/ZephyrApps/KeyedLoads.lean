import Mathlib.Data.List.Nodup
import Mathlib.Logic.Function.Basic

/-!
# Loading a keyed store

A store holds at most one value under each key. Loading hands every stored value to
a handler, key by key in some order; a part of the state that only one key
determines ends up as that key's value says, whatever the order.
-/
namespace ZephyrApps.KeyedLoads

variable {σ κ ν α : Type*}

/-- The state after the handler was called for every key of `order`. -/
def load (handle : κ → ν → σ → σ) (store : κ → Option ν) (order : List κ) (s : σ) : σ :=
  order.foldl (fun s k => (store k).elim s fun v => handle k v s) s

/-- Every stored key is visited, and once. -/
structure Visits (order : List κ) (store : κ → Option ν) : Prop where
  nodup : order.Nodup
  mem : ∀ k, k ∈ order ↔ (store k).isSome

theorem visits_empty : Visits [] fun _ : κ => (none : Option ν) :=
  ⟨List.nodup_nil, fun k => by simp⟩

/-- A value stored under a new key is one more to visit. -/
theorem Visits.cons [DecidableEq κ] {order : List κ} {store : κ → Option ν} {k : κ}
    (h : Visits order store) (hk : k ∉ order) (v : ν) :
    Visits (k :: order) (Function.update store k (some v)) where
  nodup := List.nodup_cons.mpr ⟨hk, h.nodup⟩
  mem j := by
    by_cases hj : j = k
    · subst hj
      simp
    · simp [hj, h.mem j]

/-- Among the keys that are `Known`, `k` alone determines the part of the state. -/
structure Owns (handle : κ → ν → σ → σ) (Known : κ → Prop) (k : κ) (part : σ → α)
    (decode : ν → α → α) : Prop where
  own : ∀ v s, part (handle k v s) = decode v (part s)
  others : ∀ j, Known j → j ≠ k → ∀ v s, part (handle j v s) = part s

variable {handle : κ → ν → σ → σ} {Known : κ → Prop} {k : κ} {part : σ → α}
  {decode : ν → α → α} {store : κ → Option ν} {order : List κ}

def loaded (decode : ν → α → α) (a : α) (stored : Option ν) : α :=
  stored.elim a fun v => decode v a

/-- A part that no visited key changes stays. -/
theorem load_same (part : σ → α) (h : ∀ j ∈ order, ∀ v s, part (handle j v s) = part s) (s : σ) :
    part (load handle store order s) = part s := by
  induction order generalizing s with
  | nil => rfl
  | cons j order ih =>
    have hstep : part ((store j).elim s fun v => handle j v s) = part s := by
      cases store j with
      | none => rfl
      | some v => exact h j (by simp) v s
    exact (ih (fun i hi => h i (by simp [hi])) _).trans hstep

/-- Keys other than the owner leave the part. -/
theorem Owns.load_others (h : Owns handle Known k part decode) (hk : k ∉ order)
    (hknown : ∀ j ∈ order, Known j) (s : σ) : part (KeyedLoads.load handle store order s) = part s :=
  load_same part (fun j hj v s => h.others j (hknown j hj) (fun he => hk (he ▸ hj)) v s) s

/-- The part is what the value under the owner's key makes of it. -/
theorem Owns.load (h : Owns handle Known k part decode) (hv : Visits order store)
    (hknown : ∀ j, (store j).isSome → Known j) (s : σ) :
    part (load handle store order s) = loaded decode (part s) (store k) := by
  have hall : ∀ j ∈ order, Known j := fun j hj => hknown j ((hv.mem j).mp hj)
  cases hs : store k with
  | none =>
    have hk : k ∉ order := fun hk => by simpa [hs] using (hv.mem k).mp hk
    exact h.load_others hk hall s
  | some v =>
    obtain ⟨before, after, rfl⟩ := List.append_of_mem ((hv.mem k).mpr (by simp [hs]))
    obtain ⟨-, hafter, hbefore⟩ := List.nodup_append.mp hv.nodup
    have hkb : k ∉ before := fun hk => hbefore k hk k (by simp) rfl
    have hka : k ∉ after := (List.nodup_cons.mp hafter).1
    calc part (KeyedLoads.load handle store (before ++ k :: after) s)
        = part (KeyedLoads.load handle store after
            (handle k v (KeyedLoads.load handle store before s))) := by
          simp [KeyedLoads.load, hs]
      _ = part (handle k v (KeyedLoads.load handle store before s)) :=
          h.load_others hka (fun j hj => hall j (by simp [hj])) _
      _ = decode v (part (KeyedLoads.load handle store before s)) := h.own v _
      _ = decode v (part s) := by
          rw [h.load_others hkb (fun j hj => hall j (by simp [hj]))]

end ZephyrApps.KeyedLoads
