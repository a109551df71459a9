import ZephyrApps.HealthPersistence

/-!
# The observer and the callers of the health service

The comparator's observer increments the two deltas one atomic step at a time and never
takes the lock; any number of other threads call the service, whose locked sections go
statement by statement. `log` and `ticks` are history only: the increments and the
clears with which a reset begins, and the ticks that were observed.
-/
namespace ZephyrApps.HealthThreads
open CStrings SettingsStore HealthCounters HealthService HealthPersistence EventHistories
  SystemRuns

inductive EdgeKind where
  | press
  | mismatch
  deriving DecidableEq

def EdgeKind.counter : EdgeKind → Counters → UInt32
  | .press, c => c.presses
  | .mismatch, c => c.mismatchEvents

def EdgeKind.delta : EdgeKind → Health → UInt32
  | .press, s => s.pressDelta
  | .mismatch, s => s.mismatchDelta

/-- `atomic_clear` -/
def EdgeKind.clear : EdgeKind → Health → Health
  | .press, s => { s with pressDelta := 0 }
  | .mismatch, s => { s with mismatchDelta := 0 }

/-- `atomic_inc` -/
def EdgeKind.inc : EdgeKind → Health → Health
  | .press, s => { s with pressDelta := s.pressDelta + 1 }
  | .mismatch, s => { s with mismatchDelta := s.mismatchDelta + 1 }

/-- The increments that `observe` makes for what the edge detector found. -/
def edgesOf (out : EdgeOut) : List EdgeKind :=
  (if out.press then [.press] else []) ++ if out.mismatch then [.mismatch] else []

/-- A statement of a locked section. The clears of a fold leave their result in a local;
`byReset` tells whether the fold is the first one of a button reset. -/
inductive LockedStep where
  | clear (k : EdgeKind) (byReset : Bool)
  | addEdges (now : UInt64)
  | discard (k : EdgeKind)
  | zeroButton
  | zeroAll (now : UInt64)
  | evaluate (now : UInt64)
  | save (saved : Int) (now : UInt64)
  | flushIfDue (now : UInt64) (calls : FlushCalls)
  | copyOut

/-- `fold_locked` -/
def foldSteps (byReset : Bool) (now : UInt64) : List LockedStep :=
  [.clear .press byReset, .clear .mismatch byReset, .addEdges now]

/-- `flush_locked` -/
def flushSteps (calls : FlushCalls) : List LockedStep :=
  foldSteps false calls.folded ++ [.save calls.saved calls.flushed]

inductive LockedCall where
  | poll (calls : PollCalls)
  | snapshot (folded aged : UInt64)
  | flush (calls : FlushCalls)
  | resetButton (calls : ResetCalls)
  | resetAll (calls : ResetCalls)

/-- What a call does between `k_mutex_lock` and `k_mutex_unlock`. -/
def LockedCall.program : LockedCall → List LockedStep
  | .poll calls =>
    foldSteps false calls.folded ++ [.evaluate calls.evaluated, .flushIfDue calls.asked calls.flush]
  | .snapshot folded _ => foldSteps false folded ++ [.copyOut]
  | .flush calls => flushSteps calls
  | .resetButton calls =>
    foldSteps true calls.started ++ [.zeroButton, .evaluate calls.evaluated] ++
      flushSteps calls.flush
  | .resetAll calls =>
    [.discard .press, .discard .mismatch, .zeroAll calls.started, .evaluate calls.evaluated] ++
      flushSteps calls.flush

/-- A locked section under way: the locals of its fold and the statements that remain. -/
structure Section where
  held : EdgeKind → UInt32
  rest : List LockedStep

variable (cfg : HealthConfig) (fcfg : FlushConfig)

/-- One statement of a section before `rest`. -/
def LockedStep.exec (s : Service) (held : EdgeKind → UInt32) (rest : List LockedStep) :
    LockedStep → Service × Section
  | .clear k _ =>
    ({ s with health := k.clear s.health }, ⟨Function.update held k (k.delta s.health), rest⟩)
  | .addEdges now =>
    let h := s.health
    let h :=
      if held .press ≠ 0 ∨ held .mismatch ≠ 0 then
        { h with
          counters :=
            { h.counters with
              presses := h.counters.presses + held .press
              mismatchEvents := h.counters.mismatchEvents + held .mismatch }
          dirty := true }
      else h
    let counters := { h.counters with uptimeS := h.uptimeAtBootS + uptimeS now }
    ({ s with health := { h with counters } }, ⟨held, rest⟩)
  | .discard k => ({ s with health := k.clear s.health }, ⟨held, rest⟩)
  | .zeroButton =>
    let counters := swapCounters s.health.counters
    ({ s with health := { s.health with counters } }, ⟨held, rest⟩)
  | .zeroAll now =>
    ({ s with
        health :=
          { s.health with counters := resetCounters cfg, uptimeAtBootS := 0 - uptimeS now } },
      ⟨held, rest⟩)
  | .evaluate now => ({ s with health := s.health.evaluateLocked cfg now }, ⟨held, rest⟩)
  | .save saved now =>
    let flash := settingsSaveOne s.flash healthSettingsKey (healthEncode s.health.counters) saved
    let h := { s.health with lastFlushMs := now }
    (⟨if saved ≠ 0 then { h with flushFails := h.flushFails + 1 }
      else { h with flushes := h.flushes + 1, dirty := false }, flash⟩, ⟨held, rest⟩)
  | .flushIfDue now calls =>
    (s, ⟨held,
      if healthFlushDue s.health.dirty (secondsSince s.health.lastFlushMs now) fcfg.minS fcfg.maxS
      then flushSteps calls ++ rest else rest⟩)
  | .copyOut => (s, ⟨held, rest⟩)

inductive Event where
  | edge (k : EdgeKind)
  | reset (k : EdgeKind)
  deriving DecidableEq

def LockedStep.resets : LockedStep → List Event
  | .clear k true => [.reset k]
  | .discard k => [.reset k]
  | _ => []

/-- The service, its observer and its callers `ι`. -/
structure Threads (ι : Type*) where
  service : Service
  edge : HealthEdge
  -- the increments that the observer has yet to make of its last tick
  pending : List EdgeKind
  lock : Option ι
  stands : ι → Option Section
  log : List Event
  ticks : List ObservedTick

inductive Act (ι : Type*) where
  | observe (t : ObservedTick)
  | count
  | enter (i : ι) (call : LockedCall)
  | proceed (i : ι)

variable {ι : Type*} [DecidableEq ι]

def Threads.step (s : Threads ι) : Act ι → Option (Threads ι)
  | .observe t =>
    if s.pending = [] then
      let r := observeEdge s.edge t
      some { s with edge := r.1, pending := edgesOf r.2, ticks := s.ticks ++ [t] }
    else none
  | .count =>
    match s.pending with
    | [] => none
    | k :: pending =>
      some { s with
        service := { s.service with health := k.inc s.service.health }
        pending
        log := s.log ++ [.edge k] }
  | .enter i call =>
    if s.lock = none ∧ (s.stands i).isNone then
      some { s with
        lock := some i
        stands := Function.update s.stands i (some ⟨fun _ => 0, call.program⟩) }
    else none
  | .proceed i =>
    match s.stands i with
    | none => none
    | some ⟨_, []⟩ => some { s with lock := none, stands := Function.update s.stands i none }
    | some ⟨held, st :: rest⟩ =>
      let r := st.exec cfg fcfg s.service held rest
      some { s with
        service := r.1
        stands := Function.update s.stands i (some r.2)
        log := s.log ++ st.resets }

/-- The threads after `health_init`, which hooks the observer last. -/
def threads (ι : Type*) (steq : Text → Text → Option (Option Text)) (flash : Store)
    (calls : InitCalls) : Threads ι where
  service := booted steq cfg flash calls
  edge := .zero
  pending := []
  lock := none
  stands _ := none
  log := []
  ticks := []

/-- The five ways on: a tick observed, an increment, a call that gets the lock, one that
gives it back, and a statement in between. -/
inductive Moves (s : Threads ι) : Threads ι → Prop where
  | observed (t : ObservedTick) (idle : s.pending = []) :
    Moves s
      { s with
        edge := (observeEdge s.edge t).1
        pending := edgesOf (observeEdge s.edge t).2
        ticks := s.ticks ++ [t] }
  | counted {k : EdgeKind} {pending : List EdgeKind} (owed : s.pending = k :: pending) :
    Moves s
      { s with
        service := { s.service with health := k.inc s.service.health }
        pending
        log := s.log ++ [.edge k] }
  | entered (i : ι) (call : LockedCall) (free : s.lock = none) (outside : (s.stands i).isNone) :
    Moves s
      { s with
        lock := some i
        stands := Function.update s.stands i (some ⟨fun _ => 0, call.program⟩) }
  | left {i : ι} {held : EdgeKind → UInt32} (done : s.stands i = some ⟨held, []⟩) :
    Moves s { s with lock := none, stands := Function.update s.stands i none }
  | executed {i : ι} {held : EdgeKind → UInt32} {st : LockedStep} {rest : List LockedStep}
      (stands : s.stands i = some ⟨held, st :: rest⟩) :
    Moves s
      { s with
        service := (st.exec cfg fcfg s.service held rest).1
        stands := Function.update s.stands i (some (st.exec cfg fcfg s.service held rest).2)
        log := s.log ++ st.resets }

theorem step_moves {s s' : Threads ι} {a : Act ι} (h : s.step cfg fcfg a = some s') :
    Moves cfg fcfg s s' := by
  cases a with
  | observe t =>
    dsimp only [Threads.step] at h
    split at h
    · cases h
      exact .observed t ‹_›
    · cases h
  | count =>
    dsimp only [Threads.step] at h
    split at h
    · cases h
    · cases h
      exact .counted ‹_›
  | enter i call =>
    dsimp only [Threads.step] at h
    split at h
    next hfree =>
      cases h
      exact .entered i call hfree.1 hfree.2
    · cases h
  | proceed i =>
    dsimp only [Threads.step] at h
    split at h
    · cases h
    · cases h
      exact .left ‹_›
    · cases h
      exact .executed ‹_›

/-- The section after `n` statements, or at its end. -/
def runSection : ℕ → Service × Section → Service × Section
  | 0, r => r
  | n + 1, (s, ⟨held, rest⟩) =>
    match rest with
    | [] => (s, ⟨held, []⟩)
    | st :: rest => runSection n (st.exec cfg fcfg s held rest)

/-- The call as the service sees it when nothing comes in between. -/
def LockedCall.whole : LockedCall → HealthCall
  | .poll calls => .poll calls
  | .snapshot folded aged => .snapshot folded aged
  | .flush calls => .flush calls
  | .resetButton calls => .resetButton calls
  | .resetAll calls => .resetAll calls

theorem runSection_flush (s : Service) (held : EdgeKind → UInt32) (calls : FlushCalls) :
    let r := runSection cfg fcfg 4 (s, ⟨held, flushSteps calls⟩)
    r.1 = leaves (s.health.flushLocked s.flash calls) ∧ r.2.rest = [] := by
  refine ⟨?_, rfl⟩
  change ((LockedStep.save calls.saved calls.flushed).exec cfg fcfg
    ⟨s.health.foldLocked calls.folded, s.flash⟩ _ []).1 = _
  unfold LockedStep.exec leaves Health.flushLocked
  dsimp only
  by_cases hs : calls.saved = 0
  · rw [if_neg (not_not_intro hs), if_neg (not_not_intro hs)]
  · rw [if_pos hs, if_pos hs]

/-- Statement by statement, a call does what its function does. -/
theorem runSection_program (s : Service) (held : EdgeKind → UInt32) (call : LockedCall) :
    let r := runSection cfg fcfg 9 (s, ⟨held, call.program⟩)
    r.1 = HealthCall.apply cfg fcfg s call.whole ∧ r.2.rest = [] := by
  cases call with
  | poll calls =>
    let h := (s.health.foldLocked calls.folded).evaluateLocked cfg calls.evaluated
    have hrun : runSection cfg fcfg 9 (s, ⟨held, (LockedCall.poll calls).program⟩) =
        runSection cfg fcfg 4 ((LockedStep.flushIfDue calls.asked calls.flush).exec cfg fcfg
          ⟨h, s.flash⟩ (runSection cfg fcfg 3 (s, ⟨held, foldSteps false calls.folded⟩)).2.held
          []) := rfl
    rw [hrun]
    unfold LockedStep.exec LockedCall.whole HealthCall.apply healthPoll
    dsimp only
    by_cases hdue : healthFlushDue h.dirty (secondsSince h.lastFlushMs calls.asked) fcfg.minS
        fcfg.maxS = true
    · rw [if_pos hdue, if_pos hdue, List.append_nil]
      exact runSection_flush cfg fcfg ⟨h, s.flash⟩ _ calls.flush
    · rw [if_neg hdue, if_neg hdue]
      exact ⟨rfl, rfl⟩
  | snapshot folded aged => exact ⟨rfl, rfl⟩
  | flush calls => exact runSection_flush cfg fcfg s held calls
  | resetButton calls => exact runSection_flush cfg fcfg _ _ calls.flush
  | resetAll calls => exact runSection_flush cfg fcfg _ _ calls.flush

end ZephyrApps.HealthThreads
