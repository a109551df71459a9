import ZephyrApps.EventHistories

/-!
# Runs of deterministic systems

A system takes inputs one at a time. `run` is the state after a list of inputs,
oldest first; `Reaches` is reachability of a system that may refuse an action,
along steps that all meet a side condition.
-/
namespace ZephyrApps.SystemRuns
open EventHistories

variable {σ ι : Type*}

def run (step : σ → ι → σ) (s : σ) (is : List ι) : σ := is.foldl step s

@[simp] theorem run_concat (step : σ → ι → σ) (s : σ) (is : List ι) (i : ι) :
    run step s (is ++ [i]) = step (run step s is) i := by simp [run]

theorem run_append (step : σ → ι → σ) (s : σ) (is js : List ι) :
    run step s (is ++ js) = run step (run step s is) js :=
  List.foldl_append

/-- Every input of the run meets `C` in the state that receives it. -/
def Meets (step : σ → ι → σ) (C : σ → ι → Prop) (s : σ) (is : List ι) : Prop :=
  Each (fun past i => C (run step s past) i) is

instance {step : σ → ι → σ} {C : σ → ι → Prop} [∀ s i, Decidable (C s i)] (s : σ) (is : List ι) :
    Decidable (Meets step C s is) := by
  unfold Meets
  infer_instance

@[simp] theorem meets_nil (step : σ → ι → σ) (C : σ → ι → Prop) (s : σ) : Meets step C s [] :=
  each_nil _

theorem meets_cons {step : σ → ι → σ} {C : σ → ι → Prop} {s : σ} {i : ι} {is : List ι} :
    Meets step C s (i :: is) ↔ C s i ∧ Meets step C (step s i) is :=
  each_cons

theorem meets_append {step : σ → ι → σ} {C : σ → ι → Prop} {s : σ} {is js : List ι} :
    Meets step C s (is ++ js) ↔ Meets step C s is ∧ Meets step C (run step s is) js := by
  rw [Meets, each_append]
  simp only [run_append]
  rfl

/-- What holds at the start and across every step that meets `C` holds after
every run whose steps all meet `C`. -/
theorem run_invariant {step : σ → ι → σ} {C : σ → ι → Prop} {I : List ι → σ → Prop} {s : σ}
    (start : I [] s)
    (next : ∀ is i, I is (run step s is) → C (run step s is) i →
      I (is ++ [i]) (step (run step s is) i))
    (is : List ι) (h : Meets step C s is) : I is (run step s is) := by
  induction is using List.reverseRecOn with
  | nil => exact start
  | append_singleton is i ih =>
    obtain ⟨his, hi⟩ := each_concat.mp h
    rw [run_concat]
    exact next is i (ih his) hi

/-- The unconditional rule. -/
theorem run_induction {step : σ → ι → σ} {I : List ι → σ → Prop} {s : σ} (start : I [] s)
    (next : ∀ is i, I is (run step s is) → I (is ++ [i]) (step (run step s is) i))
    (is : List ι) : I is (run step s is) :=
  run_invariant (C := fun _ _ => True) start (fun is i h _ => next is i h) is
    (.of_mem fun _ _ _ => trivial)

/-- Where an invariant holds, a step has property `Q` if and only if it meets `C`, and
then the invariant goes on: so the steps of a run all have `Q` if and only if they all
meet `C`. -/
theorem meets_iff {step : σ → ι → σ} {C Q : σ → ι → Prop} {I : σ → Prop} {s : σ} (start : I s)
    (same : ∀ s i, I s → (Q s i ↔ C s i)) (next : ∀ s i, I s → Q s i → I (step s i))
    (is : List ι) : Meets step Q s is ↔ Meets step C s is := by
  suffices h : (Meets step Q s is ↔ Meets step C s is) ∧ (Meets step Q s is → I (run step s is)) from
    h.1
  induction is using List.reverseRecOn with
  | nil => exact ⟨by simp [Meets], fun _ => start⟩
  | append_singleton is i ih =>
    obtain ⟨hiff, hinv⟩ := ih
    have hlast : Meets step Q s is → (Q (run step s is) i ↔ C (run step s is) i) := fun h =>
      same _ i (hinv h)
    constructor
    · rw [Meets, Meets, each_concat, each_concat]
      constructor
      · rintro ⟨his, hi⟩
        exact ⟨hiff.mp his, (hlast his).mp hi⟩
      · rintro ⟨his, hi⟩
        have hq := hiff.mpr his
        exact ⟨hq, (hlast hq).mpr hi⟩
    · intro h
      obtain ⟨his, hi⟩ := each_concat.mp h
      rw [run_concat]
      exact next _ i (hinv his) hi

/-- States reached from `s` by enabled steps that all meet `C`. -/
inductive Reaches (step : σ → ι → Option σ) (C : σ → ι → Prop) (s : σ) : σ → Prop where
  | start : Reaches step C s s
  | next {t u : σ} {i : ι} (before : Reaches step C s t) (meets : C t i)
      (taken : step t i = some u) : Reaches step C s u

def runFrom (step : σ → ι → Option σ) : σ → List ι → Option σ
  | s, [] => some s
  | s, i :: is => (step s i).bind fun t => runFrom step t is

/-- Every action of the list meets `C` in the state that takes it. -/
def Allows (step : σ → ι → Option σ) (C : σ → ι → Prop) : σ → List ι → Prop
  | _, [] => True
  | s, i :: is => C s i ∧ ∀ t ∈ step s i, Allows step C t is

instance Allows.decidable {step : σ → ι → Option σ} {C : σ → ι → Prop}
    [∀ s i, Decidable (C s i)] (s : σ) (is : List ι) : Decidable (Allows step C s is) :=
  match is with
  | [] => isTrue trivial
  | i :: is =>
    have (t : σ) : Decidable (Allows step C t is) := Allows.decidable t is
    inferInstanceAs (Decidable (C s i ∧ ∀ t ∈ step s i, Allows step C t is))

theorem Reaches.runFrom {step : σ → ι → Option σ} {C : σ → ι → Prop} {s t u : σ} {is : List ι}
    (hs : Reaches step C s t) (ha : Allows step C t is) (h : runFrom step t is = some u) :
    Reaches step C s u := by
  induction is generalizing t with
  | nil =>
    cases h
    exact hs
  | cons i is ih =>
    obtain ⟨t', ht, hu⟩ := Option.bind_eq_some_iff.mp h
    exact ih (.next hs ha.1 ht) (ha.2 t' ht) hu

/-- What holds at the start and across every enabled step that meets `C` holds
of every state reached that way. -/
theorem Reaches.invariant {step : σ → ι → Option σ} {C : σ → ι → Prop} {I : σ → Prop} {s t : σ}
    (start : I s) (next : ∀ t u i, I t → C t i → step t i = some u → I u)
    (h : Reaches step C s t) : I t := by
  induction h with
  | start => exact start
  | next _ meets taken ih => exact next _ _ _ ih meets taken

/-- What holds at the start and across every enabled step holds after the actions of
the list; it may speak of the actions so far. -/
theorem runFrom_induction {step : σ → ι → Option σ} {I : List ι → σ → Prop} {s t : σ} {is : List ι}
    (start : I [] s)
    (next : ∀ past t i u, I past t → step t i = some u → I (past ++ [i]) u)
    (h : runFrom step s is = some t) : I is t := by
  suffices hs : ∀ past s, I past s → runFrom step s is = some t → I (past ++ is) t from
    hs [] s start h
  intro past s hI hrun
  clear start h
  induction is generalizing past s with
  | nil =>
    cases hrun
    simpa using hI
  | cons i is ih =>
    obtain ⟨u, hu, ht⟩ := Option.bind_eq_some_iff.mp hrun
    have hn := ih (past ++ [i]) u (next past s i u hI hu) ht
    rwa [List.append_assoc] at hn

/-- Where an invariant and `P` hold, the state after a step has `P` if and only if the step
meets `C`: so the states of a run all have `P` if and only if its steps all meet `C`. -/
theorem allows_iff {step : σ → ι → Option σ} {C : σ → ι → Prop} {I P : σ → Prop} {s t : σ}
    {is : List ι} (start : I s) (first : P s)
    (next : ∀ t i u, I t → P t → step t i = some u → I u ∧ (P u ↔ C t i))
    (h : runFrom step s is = some t) :
    (∀ past future u, is = past ++ future → runFrom step s past = some u → P u) ↔
      Allows step C s is := by
  induction is generalizing s with
  | nil =>
    refine ⟨fun _ => trivial, fun _ past future u hp hu => ?_⟩
    obtain ⟨rfl, -⟩ := List.append_eq_nil_iff.mp hp.symm
    cases hu
    exact first
  | cons i is ih =>
    obtain ⟨v, hv, ht⟩ := Option.bind_eq_some_iff.mp h
    obtain ⟨hI, hC⟩ := next s i v start first hv
    constructor
    · intro hall
      have hP : P v := hall [i] is v rfl (by simp [runFrom, hv])
      refine ⟨hC.mp hP, fun w hw => ?_⟩
      cases hv.symm.trans hw
      refine (ih hI hP ht).mp fun past future u hp hu => ?_
      exact hall (i :: past) future u (by rw [hp, List.cons_append])
        (Option.bind_eq_some_iff.mpr ⟨v, hv, hu⟩)
    · rintro ⟨hc, hrest⟩ past future u hp hu
      have hP : P v := hC.mpr hc
      cases past with
      | nil =>
        cases hu
        exact first
      | cons j past =>
        obtain ⟨rfl, hrest'⟩ := List.cons.inj hp
        obtain ⟨w, hw, hu⟩ := Option.bind_eq_some_iff.mp hu
        cases hv.symm.trans hw
        exact (ih hI hP ht).mpr (hrest v hv) past future u hrest' hu

/-- Where a thread stands after one of them has moved. -/
theorem update_eq_cases [DecidableEq ι] {f : ι → σ} {i j : ι} {x y : σ}
    (h : Function.update f i x j = y) : j = i ∧ x = y ∨ j ≠ i ∧ f j = y := by
  by_cases hj : j = i
  · subst hj
    exact Or.inl ⟨rfl, (Function.update_self j x f).symm.trans h⟩
  · exact Or.inr ⟨hj, (Function.update_of_ne hj x f).symm.trans h⟩

end ZephyrApps.SystemRuns
