import Mathlib.Data.List.Induction
import Mathlib.Logic.Function.Basic

/-!
# Updates through a copy

Several writers each copy a record, replace the fields they name in the copy and write the
whole copy back. What is stored is then the work of a chain of writers, each of whom copied
what the one before him had written; the fields of a writer outside the chain are lost.
-/
namespace ZephyrApps.CopiedUpdates

variable {F ι : Type*} {V : F → Type*}

def patched (req : ∀ f, Option (V f)) (x : ∀ f, V f) : ∀ f, V f := fun f => (req f).getD (x f)

theorem patched_of_some {req : ∀ f, Option (V f)} {f : F} {v : V f} (h : req f = some v)
    (x : ∀ f, V f) : patched req x f = v := by simp [patched, h]

theorem patched_of_none {req : ∀ f, Option (V f)} {f : F} (h : req f = none) (x : ∀ f, V f) :
    patched req x f = x f := by simp [patched, h]

/-- The requests of a list of writers, the newest first. -/
def layered (req : ι → ∀ f, Option (V f)) (writers : List ι) (x : ∀ f, V f) : ∀ f, V f :=
  writers.foldr (fun i y => patched (req i) y) x

/-- What only one of the writers names is as he requests it. -/
theorem layered_of_mem {req : ι → ∀ f, Option (V f)} {i : ι} {f : F} {v : V f}
    (hv : req i f = some v) (hf : ∀ j, j ≠ i → req j f = none) {writers : List ι}
    (hi : i ∈ writers) (x : ∀ f, V f) : layered req writers x f = v := by
  induction writers with
  | nil => cases hi
  | cons j rest ih =>
    by_cases hj : j = i
    · subst hj
      exact patched_of_some hv _
    · have hrest : i ∈ rest := (List.mem_cons.mp hi).resolve_left (Ne.symm hj)
      exact (patched_of_none (hf j hj) _).trans (ih hrest)

/-- What none of the writers names is as it was. -/
theorem layered_of_notMem {req : ι → ∀ f, Option (V f)} {i : ι} {f : F}
    (hf : ∀ j, j ≠ i → req j f = none) {writers : List ι} (hi : i ∉ writers) (x : ∀ f, V f) :
    layered req writers x f = x f := by
  induction writers with
  | nil => rfl
  | cons j rest ih =>
    have hj : j ≠ i := fun h => hi (h ▸ List.mem_cons_self)
    exact (patched_of_none (hf j hj) _).trans (ih fun h => hi (List.mem_cons_of_mem j h))

/-- A writer copies the record, or writes his copy back with his fields replaced. -/
inductive Step (ι : Type*) where
  | read (i : ι)
  | write (i : ι)

structure Copies (ι : Type*) (V : F → Type*) where
  now : ∀ f, V f
  copy : ι → ∀ f, V f

/-- The writers behind what is stored and behind each copy, the newest first. -/
structure Chain (ι : Type*) where
  now : List ι
  copy : ι → List ι

variable [DecidableEq ι]

def Copies.step (req : ι → ∀ f, Option (V f)) (s : Copies ι V) : Step ι → Copies ι V
  | .read i => { s with copy := Function.update s.copy i s.now }
  | .write i => { s with now := patched (req i) (s.copy i) }

def Chain.step (c : Chain ι) : Step ι → Chain ι
  | .read i => { c with copy := Function.update c.copy i c.now }
  | .write i => { c with now := i :: c.copy i }

def chain (es : List (Step ι)) : Chain ι := es.foldl Chain.step ⟨[], fun _ => []⟩

theorem chain_concat (es : List (Step ι)) (e : Step ι) : chain (es ++ [e]) = (chain es).step e := by
  simp [chain]

structure Copies.Follows (req : ι → ∀ f, Option (V f)) (x : ∀ f, V f) (s : Copies ι V) (c : Chain ι) :
    Prop where
  now : s.now = layered req c.now x
  copy : ∀ i, s.copy i = layered req (c.copy i) x

theorem Copies.Follows.step {req : ι → ∀ f, Option (V f)} {x : ∀ f, V f} {s : Copies ι V}
    {c : Chain ι} (h : s.Follows req x c) (e : Step ι) : (s.step req e).Follows req x (c.step e) := by
  cases e with
  | read i =>
    refine ⟨h.now, fun j => ?_⟩
    show Function.update s.copy i s.now j = layered req (Function.update c.copy i c.now j) x
    by_cases hj : j = i
    · rw [hj, Function.update_self, Function.update_self]
      exact h.now
    · rw [Function.update_of_ne hj, Function.update_of_ne hj]
      exact h.copy j
  | write i => exact ⟨congrArg (patched (req i)) (h.copy i), h.copy⟩

theorem follows_run (req : ι → ∀ f, Option (V f)) (x : ∀ f, V f) (es : List (Step ι)) :
    (es.foldl (Copies.step req) ⟨x, fun _ => x⟩).Follows req x (chain es) := by
  induction es using List.reverseRecOn with
  | nil => exact ⟨rfl, fun _ => rfl⟩
  | append_singleton es e ih =>
    rw [List.foldl_append, chain_concat]
    exact ih.step e

/-- Of writers who take turns nobody falls out of the chain. -/
theorem chain_turns (is : List ι) :
    (chain (is.flatMap fun i => [.read i, .write i])).now = is.reverse := by
  induction is using List.reverseRecOn with
  | nil => rfl
  | append_singleton is i ih =>
    have h : (is ++ [i]).flatMap (fun i => [Step.read i, .write i])
        = (is.flatMap fun i => [Step.read i, .write i]) ++ [.read i] ++ [.write i] := by simp
    rw [h, chain_concat, chain_concat, List.reverse_concat, ← ih]
    exact congrArg (i :: ·) (Function.update_self i _ _)

end ZephyrApps.CopiedUpdates
