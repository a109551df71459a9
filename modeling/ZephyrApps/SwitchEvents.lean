import Mathlib.Data.List.Basic
import Mathlib.Data.List.Nodup

/-!
# Switches told by their changes

A log of presses and releases, and the levels of the switches it tells: the events of each switch
alternate, beginning with a press, and the last one is its level.
-/
namespace ZephyrApps.SwitchEvents

variable {κ : Type*} [DecidableEq κ] {log : List (κ × Bool)} {keys : List κ} {old new : κ → Bool}

/-- The events of one switch; `true` is a press. -/
def eventsOf (k : κ) (log : List (κ × Bool)) : List Bool :=
  (log.filter fun e => e.1 = k).map Prod.snd

/-- Press, release, press, and so on. -/
def alternating (n : ℕ) : List Bool := (List.range n).map fun j => decide (j % 2 = 0)

def Tells (log : List (κ × Bool)) (level : κ → Bool) : Prop :=
  ∀ k, ∃ n, eventsOf k log = alternating n ∧ level k = decide (n % 2 = 1)

/-- The events of the switches that changed, in the order of `keys`. -/
def changes (keys : List κ) (old new : κ → Bool) : List (κ × Bool) :=
  keys.flatMap fun k => if new k = old k then [] else [(k, new k)]

theorem eventsOf_append (k : κ) (log log' : List (κ × Bool)) :
    eventsOf k (log ++ log') = eventsOf k log ++ eventsOf k log' := by
  rw [eventsOf, List.filter_append, List.map_append]
  rfl

theorem alternating_succ (n : ℕ) : alternating (n + 1) = alternating n ++ [decide (n % 2 = 0)] := by
  rw [alternating, List.range_succ, List.map_append]
  rfl

/-- The last of them is a press exactly if their number is odd. -/
theorem alternating_getLast (n : ℕ) :
    (alternating n).getLast? = some true ↔ n % 2 = 1 := by
  cases n with
  | zero => simp [alternating]
  | succ n =>
    rw [alternating_succ, List.getLast?_concat, Option.some_inj, decide_eq_true_eq]
    omega

theorem tells_nil : Tells ([] : List (κ × Bool)) fun _ => false := fun _ => ⟨0, rfl, rfl⟩

theorem eventsOf_changes_other {k : κ} (hk : k ∉ keys) : eventsOf k (changes keys old new) = [] := by
  induction keys with
  | nil => rfl
  | cons k' keys ih =>
    obtain ⟨hne, hk⟩ := List.ne_and_not_mem_of_not_mem_cons hk
    rw [changes, List.flatMap_cons, eventsOf_append]
    have hrest : eventsOf k (keys.flatMap fun k => if new k = old k then [] else [(k, new k)]) = [] :=
      ih hk
    rw [hrest, List.append_nil]
    split
    · rfl
    · simp [eventsOf, Ne.symm hne]

/-- A switch that is looked at once has an event if it changed. -/
theorem eventsOf_changes {k : κ} (hk : k ∈ keys) (hnodup : keys.Nodup) :
    eventsOf k (changes keys old new) = if new k = old k then [] else [new k] := by
  induction keys with
  | nil => cases hk
  | cons k' keys ih =>
    obtain ⟨hnot, hrest⟩ := List.nodup_cons.mp hnodup
    rw [changes, List.flatMap_cons, eventsOf_append]
    change _ ++ eventsOf k (changes keys old new) = _
    by_cases hkk : k = k'
    · subst hkk
      rw [eventsOf_changes_other hnot, List.append_nil]
      split
      · rfl
      · simp [eventsOf]
    · rw [ih ((List.mem_cons.mp hk).resolve_left hkk) hrest]
      have hother : eventsOf k (if new k' = old k' then [] else [(k', new k')]) = [] := by
        split
        · rfl
        · simp [eventsOf, Ne.symm hkk]
      rw [hother, List.nil_append]

/-- Telling the changes keeps the log in step with the levels. -/
theorem Tells.changes (new : κ → Bool) (h : Tells log old) (hnodup : keys.Nodup)
    (hsame : ∀ k ∉ keys, new k = old k) : Tells (log ++ changes keys old new) new := by
  intro k
  obtain ⟨n, hn, hold⟩ := h k
  by_cases hk : k ∈ keys
  · rw [eventsOf_append, eventsOf_changes hk hnodup, hn]
    by_cases hc : new k = old k
    · exact ⟨n, by rw [if_pos hc, List.append_nil], hc.trans hold⟩
    · refine ⟨n + 1, ?_, ?_⟩
      · rw [if_neg hc, alternating_succ]
        congr 2
        cases hnew : new k <;> rw [hnew, hold] at hc <;> simp at hc ⊢ <;> omega
      · cases hnew : new k <;> rw [hnew, hold] at hc <;> simp at hc ⊢ <;> omega
  · rw [eventsOf_append, eventsOf_changes_other hk, List.append_nil, hsame k hk]
    exact ⟨n, hn, hold⟩

end ZephyrApps.SwitchEvents
