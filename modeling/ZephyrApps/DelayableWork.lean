import ZephyrApps.SystemRuns

/-!
# Delayable work

A delayable work item of a kernel, and systems whose events come at times: time does not go
back, and it does not pass a deadline of the state without the event that the deadline is for.
-/
namespace ZephyrApps.DelayableWork
open SystemRuns

abbrev Work := Option ℕ

/-- `k_work_schedule`: an item that is pending stays as it is. -/
def schedule (w : Work) (due : ℕ) : Work := some (w.getD due)

/-- `k_work_reschedule` -/
def reschedule (due : ℕ) : Work := some due

/-- The time by which a queue runs the item that is late by at most `lag`. -/
def runsBy (lag : ℕ) (w : Work) : List ℕ := (w.map (· + lag)).toList

theorem mem_runsBy {lag d : ℕ} {w : Work} :
    d ∈ runsBy lag w ↔ ∃ due, w = some due ∧ due + lag = d := by
  rw [runsBy, Option.mem_toList, Option.map_eq_some_iff]

theorem schedule_some {due d : ℕ} : schedule (some d) due = some d := rfl

theorem schedule_none {due : ℕ} : schedule none due = some due := rfl

variable {σ ι : Type*}

structure Timed (σ : Type*) where
  now : ℕ
  state : σ

/-- A step at a time that is not before the last one and not past a deadline. -/
def timedStep (deadlines : σ → List ℕ) (step : σ → ℕ → ι → Option σ) (s : Timed σ) (e : ℕ × ι) :
    Option (Timed σ) :=
  if s.now ≤ e.1 ∧ ∀ d ∈ deadlines s.state, e.1 ≤ d then
    (step s.state e.1 e.2).map (Timed.mk e.1)
  else none

/-- The state after events from a state at time `0`. -/
def timedRun (deadlines : σ → List ℕ) (step : σ → ℕ → ι → Option σ) (s : σ) (es : List (ℕ × ι)) :
    Option (Timed σ) := runFrom (timedStep deadlines step) ⟨0, s⟩ es

variable {deadlines : σ → List ℕ} {step : σ → ℕ → ι → Option σ} {s : σ} {es : List (ℕ × ι)}

theorem timedStep_eq_some {s u : Timed σ} {e : ℕ × ι} :
    timedStep deadlines step s e = some u ↔ s.now ≤ e.1 ∧ (∀ d ∈ deadlines s.state, e.1 ≤ d) ∧
      step s.state e.1 e.2 = some u.state ∧ u.now = e.1 := by
  unfold timedStep
  split
  case isTrue h =>
    rw [Option.map_eq_some_iff]
    constructor
    · intro ⟨v, hv, he⟩
      cases he
      exact ⟨h.1, h.2, hv, rfl⟩
    · intro ⟨_, _, hv, hn⟩
      exact ⟨u.state, hv, by rw [← hn]⟩
  case isFalse h =>
    constructor
    · intro hu
      cases hu
    · intro hu
      exact absurd ⟨hu.1, hu.2.1⟩ h

/-- What holds at the start, and across every step at a time its state allows, holds after every
run; it may speak of the events so far. -/
theorem timedRun_induction {I : List (ℕ × ι) → Timed σ → Prop} (start : I [] ⟨0, s⟩)
    (next : ∀ past v t i u, I past v → v.now ≤ t → (∀ d ∈ deadlines v.state, t ≤ d) →
      step v.state t i = some u → I (past ++ [(t, i)]) ⟨t, u⟩)
    {v : Timed σ} (h : timedRun deadlines step s es = some v) : I es v := by
  apply runFrom_induction start _ h
  intro past v e u hI hu
  obtain ⟨hnow, hd, hs, he⟩ := timedStep_eq_some.mp hu
  have hu : u = ⟨e.1, u.state⟩ := by rw [← he]
  rw [hu]
  exact next past v e.1 e.2 u.state hI hnow hd hs

theorem runFrom_append {step : σ → ι → Option σ} {s : σ} {is js : List ι} :
    runFrom step s (is ++ js) = (runFrom step s is).bind fun t => runFrom step t js := by
  induction is generalizing s with
  | nil => rfl
  | cons i is ih =>
    rw [List.cons_append, runFrom, runFrom, Option.bind_assoc]
    congr 1
    funext t
    exact ih

/-- An event of a run finds the state that the run has reached before it. -/
theorem timedRun_past {past future : List (ℕ × ι)} {e : ℕ × ι} {u : Timed σ}
    (h : timedRun deadlines step s (past ++ e :: future) = some u) :
    ∃ v w, timedRun deadlines step s past = some v ∧ v.now ≤ e.1 ∧
      (∀ d ∈ deadlines v.state, e.1 ≤ d) ∧ step v.state e.1 e.2 = some w := by
  rw [timedRun, runFrom_append] at h
  obtain ⟨v, hv, hrest⟩ := Option.bind_eq_some_iff.mp h
  obtain ⟨w, hw, -⟩ := Option.bind_eq_some_iff.mp hrest
  obtain ⟨hnow, hd, hs, -⟩ := timedStep_eq_some.mp hw
  exact ⟨v, w.state, hv, hnow, hd, hs⟩

end ZephyrApps.DelayableWork
