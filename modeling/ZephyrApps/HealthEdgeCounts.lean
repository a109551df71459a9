import ZephyrApps.HealthThreads

/-!
# No edge is lost or counted twice

For each kind of edge a locked section owes something at each of its statements: nothing,
the local that its fold has cleared and not yet added, or the zeroing of the counter that
a reset has announced by its clear. What the counter, the local and the delta then come
to is the number of edges since the last reset; an increment that lands between any two
statements adds one to both sides.
-/
namespace ZephyrApps.HealthEdgeCounts
open CStrings SettingsStore HealthCounters HealthService HealthPersistence HealthThreads
  EventHistories SystemRuns Pstop

def resets (k : EdgeKind) (e : Event) : Bool := decide (e = .reset k)

/-- The edges that were counted since the last reset. -/
def observed (k : EdgeKind) (log : List Event) : ℕ := (since (resets k) log).count (.edge k)

/-- What the counter started from: the loaded value, or zero after a reset. -/
def base (k : EdgeKind) (start : UInt32) (log : List Event) : UInt32 :=
  if .reset k ∈ log then 0 else start

def expected (k : EdgeKind) (start : UInt32) (log : List Event) : UInt32 :=
  base k start log + UInt32.ofNat (observed k log)

variable {k j : EdgeKind} {start : UInt32}

theorem expected_edge (k : EdgeKind) (start : UInt32) (log : List Event) :
    expected k start (log ++ [.edge k]) = expected k start log + 1 := by
  have hobs : observed k (log ++ [.edge k]) = observed k log + 1 := by
    rw [observed, since_concat_unmarked (by simp [resets]), List.count_append,
      List.count_singleton_self]
    rfl
  have hbase : base k start (log ++ [.edge k]) = base k start log := by simp [base]
  rw [expected, hobs, hbase, UInt32.ofNat_add, ← UInt32.add_assoc]
  rfl

theorem expected_reset (k : EdgeKind) (start : UInt32) (log : List Event) :
    expected k start (log ++ [.reset k]) = 0 := by
  have hobs : observed k (log ++ [.reset k]) = 0 := by
    rw [observed, since_concat_mark (by simp [resets])]
    rfl
  have hbase : base k start (log ++ [.reset k]) = 0 := by simp [base]
  rw [expected, hobs, hbase]
  rfl

theorem expected_other {e : Event} (hedge : e ≠ .edge k) (hreset : e ≠ .reset k)
    (log : List Event) : expected k start (log ++ [e]) = expected k start log := by
  have hobs : observed k (log ++ [e]) = observed k log := by
    rw [observed, since_concat_unmarked (by simp [resets, hreset]), List.count_append,
      List.count_singleton, if_neg (by simpa using hedge)]
    rfl
  have hbase : base k start (log ++ [e]) = base k start log := by
    simp [base, hreset.symm]
  rw [expected, hobs, hbase, expected]

inductive Phase where
  | settled
  | held
  | doomed

/-- What the remaining statements owe to the counter of `k`: its next statement that is
about `k` tells. -/
def phase (k : EdgeKind) : List LockedStep → Phase
  | [] => .settled
  | .clear j _ :: rest => if j = k then .settled else phase k rest
  | .discard j :: rest => if j = k then .settled else phase k rest
  | .addEdges _ :: rest =>
    match phase k rest with
    | .doomed => .doomed
    | _ => .held
  | .zeroButton :: _ => .doomed
  | .zeroAll _ :: _ => .doomed
  | .evaluate _ :: rest => phase k rest
  | .save _ _ :: rest => phase k rest
  | .flushIfDue _ _ :: rest => phase k rest
  | .copyOut :: rest => phase k rest

/-- Every clear is followed by what it announces: a fold by the addition, a reset by the
zeroing. -/
def Sound (k : EdgeKind) : List LockedStep → Prop
  | [] => True
  | .clear j byReset :: rest =>
    (j = k → phase k rest = if byReset then .doomed else .held) ∧ Sound k rest
  | .discard j :: rest => (j = k → phase k rest = .doomed) ∧ Sound k rest
  | .addEdges _ :: rest => phase k rest ≠ .held ∧ Sound k rest
  | .zeroButton :: rest => phase k rest = .settled ∧ Sound k rest
  | .zeroAll _ :: rest => phase k rest = .settled ∧ Sound k rest
  | .flushIfDue _ _ :: rest => phase k rest = .settled ∧ Sound k rest
  | .evaluate _ :: rest => Sound k rest
  | .save _ _ :: rest => Sound k rest
  | .copyOut :: rest => Sound k rest

/-- What counter, local and delta come to. -/
def Owes (counter held delta expected : UInt32) : Phase → Prop
  | .settled => counter + delta = expected
  | .held => counter + held + delta = expected
  | .doomed => delta = expected

theorem Owes.inc {counter held delta expected : UInt32} {p : Phase}
    (h : Owes counter held delta expected p) : Owes counter held (delta + 1) (expected + 1) p := by
  cases p with
  | settled =>
    rw [Owes] at h ⊢
    rw [← UInt32.add_assoc, h]
  | held =>
    rw [Owes] at h ⊢
    rw [← UInt32.add_assoc, h]
  | doomed =>
    rw [Owes] at h ⊢
    rw [h]

theorem program_sound (k : EdgeKind) (call : LockedCall) :
    Sound k call.program ∧ phase k call.program = .settled := by
  cases k <;> cases call <;>
    simp [LockedCall.program, foldSteps, flushSteps, Sound, phase]

theorem flushSteps_sound (k : EdgeKind) (calls : FlushCalls) {rest : List LockedStep}
    (h : phase k rest = .settled) (hs : Sound k rest) :
    Sound k (flushSteps calls ++ rest) ∧ phase k (flushSteps calls ++ rest) = .settled := by
  cases k <;> simp [foldSteps, flushSteps, Sound, phase, h, hs]

variable {cfg : HealthConfig} {fcfg : FlushConfig}

/-- A section whose statements account for the edges of `k`. -/
structure Accounts (k : EdgeKind) (start : UInt32) (log : List Event) (s : Service)
    (sec : Section) : Prop where
  sound : Sound k sec.rest
  owes : Owes (k.counter s.health.counters) (sec.held k) (k.delta s.health)
    (expected k start log) (phase k sec.rest)

theorem delta_clear_self (k : EdgeKind) (s : Health) : k.delta (k.clear s) = 0 := by
  cases k <;> rfl

theorem delta_clear_other (h : j ≠ k) (s : Health) : k.delta (j.clear s) = k.delta s := by
  cases j <;> cases k <;> first | rfl | exact absurd rfl h

theorem counters_clear (k : EdgeKind) (s : Health) : (k.clear s).counters = s.counters := by
  cases k <;> rfl

theorem delta_inc_self (k : EdgeKind) (s : Health) : k.delta (k.inc s) = k.delta s + 1 := by
  cases k <;> rfl

theorem delta_inc_other (h : j ≠ k) (s : Health) : k.delta (j.inc s) = k.delta s := by
  cases j <;> cases k <;> first | rfl | exact absurd rfl h

theorem counters_inc (k : EdgeKind) (s : Health) : (k.inc s).counters = s.counters := by
  cases k <;> rfl

variable (cfg fcfg) in
/-- The addition of the locals, whether its condition holds or both are zero. -/
theorem exec_addEdges (k : EdgeKind) (s : Service) (held : EdgeKind → UInt32)
    (rest : List LockedStep) (now : UInt64) :
    let r := (LockedStep.addEdges now).exec cfg fcfg s held rest
    k.counter r.1.health.counters = k.counter s.health.counters + held k ∧
      k.delta r.1.health = k.delta s.health ∧ r.2 = ⟨held, rest⟩ := by
  refine ⟨?_, ?_, rfl⟩
  · by_cases h : held .press ≠ 0 ∨ held .mismatch ≠ 0
    · cases k <;> simp only [LockedStep.exec, if_pos h, EdgeKind.counter]
    · obtain ⟨hp, hm⟩ := not_or.mp h
      cases k with
      | press =>
        simp only [LockedStep.exec, if_neg h, EdgeKind.counter]
        rw [not_not.mp hp, UInt32.add_zero]
      | mismatch =>
        simp only [LockedStep.exec, if_neg h, EdgeKind.counter]
        rw [not_not.mp hm, UInt32.add_zero]
  · by_cases h : held .press ≠ 0 ∨ held .mismatch ≠ 0
    · cases k <;> simp only [LockedStep.exec, if_pos h, EdgeKind.delta]
    · cases k <;> simp only [LockedStep.exec, if_neg h, EdgeKind.delta]

/-- The clear of a fold moves the delta into the local; if a reset begins with it, what it
moves is forgotten. -/
theorem Accounts.clear {log : List Event} {s : Service} {held : EdgeKind → UInt32}
    {rest : List LockedStep} (byReset : Bool)
    (h : Accounts k start log s ⟨held, .clear j byReset :: rest⟩) :
    let r := (LockedStep.clear j byReset).exec cfg fcfg s held rest
    Accounts k start (log ++ (LockedStep.clear j byReset).resets) r.1 r.2 := by
  obtain ⟨⟨hphase, hsound⟩, howes⟩ := h
  refine ⟨hsound, ?_⟩
  by_cases hj : j = k
  · subst hj
    have hsum : j.counter s.health.counters + j.delta s.health = expected j start log := by
      simpa [phase, Owes] using howes
    dsimp only [LockedStep.exec]
    rw [hphase rfl, Function.update_self, delta_clear_self, counters_clear]
    cases byReset with
    | false => simpa [Owes, LockedStep.resets] using hsum
    | true => simpa [Owes, LockedStep.resets] using (expected_reset j start log).symm
  · have hexp : expected k start (log ++ (LockedStep.clear j byReset).resets) =
        expected k start log := by
      cases byReset with
      | false => simp [LockedStep.resets]
      | true => exact expected_other (by simp) (by simpa using hj) log
    dsimp only [LockedStep.exec]
    rw [hexp, Function.update_of_ne (Ne.symm hj), delta_clear_other hj, counters_clear]
    simpa [phase, hj] using howes

theorem Accounts.discard {log : List Event} {s : Service} {held : EdgeKind → UInt32}
    {rest : List LockedStep} (h : Accounts k start log s ⟨held, .discard j :: rest⟩) :
    let r := (LockedStep.discard j).exec cfg fcfg s held rest
    Accounts k start (log ++ (LockedStep.discard j).resets) r.1 r.2 := by
  obtain ⟨⟨hphase, hsound⟩, howes⟩ := h
  refine ⟨hsound, ?_⟩
  by_cases hj : j = k
  · subst hj
    dsimp only [LockedStep.exec]
    rw [hphase rfl, delta_clear_self]
    exact (expected_reset j start log).symm
  · have hexp : expected k start (log ++ (LockedStep.discard j).resets) = expected k start log :=
      expected_other (by simp) (by simpa using hj) log
    dsimp only [LockedStep.exec]
    rw [hexp, delta_clear_other hj, counters_clear]
    simpa [phase, hj] using howes

theorem Accounts.addEdges {log : List Event} {s : Service} {held : EdgeKind → UInt32}
    {rest : List LockedStep} {now : UInt64}
    (h : Accounts k start log s ⟨held, .addEdges now :: rest⟩) :
    let r := (LockedStep.addEdges now).exec cfg fcfg s held rest
    Accounts k start log r.1 r.2 := by
  obtain ⟨⟨hphase, hsound⟩, howes⟩ := h
  obtain ⟨hcounter, hdelta, hrest⟩ := exec_addEdges cfg fcfg k s held rest now
  refine ⟨by rw [hrest]; exact hsound, ?_⟩
  rw [hcounter, hdelta, hrest]
  cases hp : phase k rest with
  | held => exact absurd hp hphase
  | settled => simpa [phase, hp, Owes] using howes
  | doomed => simpa [phase, hp, Owes] using howes

/-- The zeroing of both counters pays what a reset has announced. -/
theorem Accounts.zeroed {log : List Event} {s s' : Service} {held : EdgeKind → UInt32}
    {rest : List LockedStep} (hsound : phase k rest = .settled ∧ Sound k rest)
    (howes : k.delta s.health = expected k start log)
    (hcounter : k.counter s'.health.counters = 0) (hdelta : k.delta s'.health = k.delta s.health) :
    Accounts k start log s' ⟨held, rest⟩ := by
  refine ⟨hsound.2, ?_⟩
  rw [hsound.1, hcounter, hdelta, Owes, UInt32.zero_add]
  exact howes

/-- A statement that is not the first of a reset and leaves counters and deltas alone. -/
theorem Accounts.frame {log : List Event} {s s' : Service} {held : EdgeKind → UInt32}
    {rest rest' : List LockedStep} (h : Accounts k start log s ⟨held, rest⟩)
    (hcounter : k.counter s'.health.counters = k.counter s.health.counters)
    (hdelta : k.delta s'.health = k.delta s.health) (hsound : Sound k rest')
    (hphase : phase k rest' = phase k rest) : Accounts k start log s' ⟨held, rest'⟩ := by
  refine ⟨hsound, ?_⟩
  rw [hcounter, hdelta, hphase]
  exact h.owes

theorem counter_swap (k : EdgeKind) (c : Counters) : k.counter (swapCounters c) = 0 := by
  unfold swapCounters
  dsimp only
  split <;> cases k <;> rfl

theorem counter_reset (k : EdgeKind) : k.counter (resetCounters cfg) = 0 := by
  cases k <;> rfl

theorem Accounts.exec {log : List Event} {s : Service} {held : EdgeKind → UInt32}
    {rest : List LockedStep} {st : LockedStep}
    (h : Accounts k start log s ⟨held, st :: rest⟩) :
    let r := st.exec cfg fcfg s held rest
    Accounts k start (log ++ st.resets) r.1 r.2 := by
  have quiet {s' : Service} {sec : Section} (hr : st.resets = [])
      (h' : Accounts k start log s' sec) : Accounts k start (log ++ st.resets) s' sec := by
    rw [hr, List.append_nil]
    exact h'
  cases st with
  | clear j byReset => exact h.clear byReset
  | discard j => exact h.discard
  | addEdges now => exact quiet rfl h.addEdges
  | zeroButton =>
    refine quiet rfl (.zeroed h.sound h.owes (counter_swap k _) ?_)
    cases k <;> rfl
  | zeroAll now =>
    refine quiet rfl (.zeroed h.sound h.owes (counter_reset k) ?_)
    cases k <;> rfl
  | evaluate now =>
    refine quiet rfl (h.frame ?_ ?_ h.sound rfl) <;> cases k <;> rfl
  | save saved now =>
    refine quiet rfl (h.frame ?_ ?_ h.sound rfl) <;> by_cases hs : saved = 0 <;> cases k <;>
      simp [LockedStep.exec, hs, EdgeKind.counter, EdgeKind.delta]
  | flushIfDue now calls =>
    obtain ⟨hphase, hsound⟩ := h.sound
    obtain ⟨hflush, hflushed⟩ := flushSteps_sound k calls hphase hsound
    dsimp only [LockedStep.exec]
    by_cases hdue : healthFlushDue s.health.dirty (secondsSince s.health.lastFlushMs now)
        fcfg.minS fcfg.maxS = true
    · rw [if_pos hdue]
      exact quiet rfl (h.frame rfl rfl hflush (hflushed.trans hphase.symm))
    · rw [if_neg hdue]
      exact quiet rfl (h.frame rfl rfl hsound rfl)
  | copyOut => exact quiet rfl (h.frame rfl rfl h.sound rfl)

/-- An increment counts on both sides, wherever the section stands. -/
theorem Accounts.edge {log : List Event} {s : Service} {sec : Section} (j : EdgeKind)
    (h : Accounts k start log s sec) :
    Accounts k start (log ++ [.edge j]) { s with health := j.inc s.health } sec := by
  refine ⟨h.sound, ?_⟩
  dsimp only
  rw [counters_inc]
  by_cases hj : j = k
  · subst hj
    rw [delta_inc_self, expected_edge]
    exact h.owes.inc
  · rw [delta_inc_other hj, expected_other (by simpa using hj) (by simp)]
    exact h.owes

variable {ι : Type*} [DecidableEq ι]

/-- Who is inside a section has the lock and accounts for the edges; with nobody inside,
counter and delta are what they should be. -/
structure Counted (k : EdgeKind) (start : UInt32) (s : Threads ι) : Prop where
  locked : ∀ t sec, s.stands t = some sec → s.lock = some t
  inside : ∀ t sec, s.stands t = some sec → Accounts k start s.log s.service sec
  outside : s.lock = none →
    k.counter s.service.health.counters + k.delta s.service.health = expected k start s.log

/-- A flush moves the deltas into the counters, whether it saves or not. -/
theorem flush_counts (k : EdgeKind) (s : Health) (flash : Store) (calls : FlushCalls) :
    let r := (s.flushLocked flash calls).1
    k.counter r.counters = k.counter s.counters + k.delta s ∧ k.delta r = 0 := by
  unfold Health.flushLocked
  rw [fold_eq]
  by_cases hs : calls.saved = 0 <;> cases k <;>
    simp [hs, EdgeKind.counter, EdgeKind.delta]

theorem counter_countBoot (cfg : HealthConfig) (k : EdgeKind) (c : Counters) :
    k.counter (countBoot cfg c) = k.counter c := by
  unfold countBoot
  dsimp only
  split <;> cases k <;> rfl

theorem booted_counts (cfg : HealthConfig) (steq : Text → Text → Option (Option Text))
    (flash : Store) (calls : InitCalls) (k : EdgeKind) :
    let s := (booted steq cfg flash calls).health
    k.counter s.counters =
        k.counter (startCounters (loadBlob steq flash calls.read calls.names)) ∧
      k.delta s = 0 := by
  let start := startCounters (loadBlob steq flash calls.read calls.names)
  let h : Health := { unbooted with
    counters := countBoot cfg start
    uptimeAtBootS := (countBoot cfg start).uptimeS - uptimeS calls.started }
  obtain ⟨hcounter, hdelta⟩ :=
    flush_counts k (h.evaluateLocked cfg calls.evaluated) flash calls.flush
  refine ⟨?_, hdelta⟩
  calc k.counter (booted steq cfg flash calls).health.counters
      = k.counter (countBoot cfg start) + k.delta unbooted := by
        refine hcounter.trans ?_
        cases k <;> rfl
    _ = k.counter start := by
        rw [counter_countBoot]
        cases k <;> exact UInt32.add_zero _

omit [DecidableEq ι] in
theorem counted_start (cfg : HealthConfig) (steq : Text → Text → Option (Option Text))
    (flash : Store) (calls : InitCalls) (k : EdgeKind) :
    Counted k (k.counter (startCounters (loadBlob steq flash calls.read calls.names)))
      (threads cfg ι steq flash calls) := by
  obtain ⟨hcounter, hdelta⟩ := booted_counts cfg steq flash calls k
  refine ⟨fun t sec ht => (by cases ht), fun t sec ht => (by cases ht), fun _ => ?_⟩
  change k.counter (booted steq cfg flash calls).health.counters +
    k.delta (booted steq cfg flash calls).health = _
  rw [hcounter, hdelta]
  rfl

/-- The section of a caller that moves on, among the others that stand still. -/
theorem Counted.only {s : Threads ι} (h : Counted k start s) {i : ι} {sec : Section}
    (hi : s.stands i = some sec) {now : Option Section} {t : ι} {sec' : Section}
    (ht : Function.update s.stands i now t = some sec') : t = i ∧ now = some sec' := by
  by_cases hti : t = i
  · subst hti
    rw [Function.update_self] at ht
    exact ⟨rfl, ht⟩
  · rw [Function.update_of_ne hti] at ht
    have hlock := h.locked t sec' ht
    rw [h.locked i sec hi] at hlock
    exact absurd (Option.some.inj hlock).symm hti

/-- Every step of the observer or of a caller keeps the account. -/
theorem Counted.step {s s' : Threads ι} (h : Counted k start s) (hm : Moves cfg fcfg s s') :
    Counted k start s' := by
  cases hm with
  | observed t idle => exact ⟨h.locked, h.inside, h.outside⟩
  | @counted j pending owed =>
    refine ⟨h.locked, fun t sec ht => (h.inside t sec ht).edge j, fun hl => ?_⟩
    have hempty : Accounts k start s.log s.service ⟨fun _ => 0, []⟩ := ⟨trivial, h.outside hl⟩
    exact (hempty.edge j).owes
  | entered i call free outside =>
    have hnobody (t : ι) (sec : Section) (ht : s.stands t = some sec) : False := by
      rw [h.locked t sec ht] at free
      cases free
    obtain ⟨hsound, hphase⟩ := program_sound k call
    have hinside : Accounts k start s.log s.service ⟨fun _ => 0, call.program⟩ := by
      refine ⟨hsound, ?_⟩
      rw [hphase]
      exact h.outside free
    have honly {t : ι} {sec : Section}
        (ht : Function.update s.stands i (some ⟨fun _ => 0, call.program⟩) t = some sec) :
        t = i ∧ sec = ⟨fun _ => 0, call.program⟩ := by
      by_cases hti : t = i
      · subst hti
        rw [Function.update_self] at ht
        exact ⟨rfl, (Option.some.inj ht).symm⟩
      · rw [Function.update_of_ne hti] at ht
        exact (hnobody t sec ht).elim
    refine ⟨fun t sec ht => ?_, fun t sec ht => ?_, fun hl => by cases hl⟩
    · rw [(honly ht).1]
    · rw [(honly ht).2]
      exact hinside
  | @left i held done =>
    refine ⟨fun t sec ht => ?_, fun t sec ht => ?_, fun _ => (h.inside i _ done).owes⟩
    · cases (h.only done ht).2
    · cases (h.only done ht).2
  | @executed i held st rest stands =>
    refine ⟨fun t sec ht => ?_, fun t sec ht => ?_, fun hl => ?_⟩
    · rw [(h.only stands ht).1]
      exact h.locked i _ stands
    · cases (h.only stands ht).2
      exact (h.inside i _ stands).exec
    · rw [h.locked i _ stands] at hl
      cases hl

def edgesIn (log : List Event) : List EdgeKind :=
  log.filterMap fun
    | .edge k => some k
    | .reset _ => none

def detect (ticks : List ObservedTick) : HealthEdge × List EdgeKind :=
  ticks.foldl
    (fun r t =>
      let e := observeEdge r.1 t
      (e.1, r.2 ++ edgesOf e.2))
    (.zero, [])

theorem detect_concat (ticks : List ObservedTick) (t : ObservedTick) :
    detect (ticks ++ [t]) =
      ((observeEdge (detect ticks).1 t).1,
        (detect ticks).2 ++ edgesOf (observeEdge (detect ticks).1 t).2) := by
  simp [detect]

/-- Every edge that was detected has been or is about to be counted, in order. -/
def Detected (s : Threads ι) : Prop := (s.edge, edgesIn s.log ++ s.pending) = detect s.ticks

theorem Detected.step {s s' : Threads ι} (h : Detected s) (hm : Moves cfg fcfg s s') :
    Detected s' := by
  unfold Detected at h ⊢
  cases hm with
  | observed t idle =>
    rw [idle, List.append_nil] at h
    rw [detect_concat, ← h]
  | counted owed =>
    simpa [edgesIn, owed] using h
  | entered => exact h
  | left => exact h
  | @executed i held st rest =>
    have hnone : edgesIn (s.log ++ st.resets) = edgesIn s.log := by
      unfold LockedStep.resets
      split <;> simp [edgesIn]
    rw [hnone]
    exact h

/-- In every schedule, whatever the saves return: outside the locked sections counter and
delta come to what was loaded, or nothing since a reset, and the edges since then; and the
increments made and owed are the edges that the detector found. -/
theorem no_edge_lost (cfg : HealthConfig) (fcfg : FlushConfig)
    (steq : Text → Text → Option (Option Text)) (flash : Store) (calls : InitCalls)
    {s : Threads ι}
    (h : Reaches (Threads.step cfg fcfg) (fun _ _ => True) (threads cfg ι steq flash calls) s) :
    let loaded := startCounters (loadBlob steq flash calls.read calls.names)
    let now := s.service.health
    (s.lock = none →
      now.counters.presses + now.pressDelta = expected .press loaded.presses s.log ∧
      now.counters.mismatchEvents + now.mismatchDelta =
        expected .mismatch loaded.mismatchEvents s.log) ∧
    edgesIn s.log ++ s.pending = (detect s.ticks).2 := by
  intro loaded now
  have hcounted (k : EdgeKind) : Counted k (k.counter loaded) s :=
    h.invariant (counted_start cfg steq flash calls k) fun _ _ _ ht _ hstep =>
      ht.step (step_moves cfg fcfg hstep)
  have hstart : Detected (threads cfg ι steq flash calls) := rfl
  have hdetected : Detected s :=
    h.invariant hstart fun _ _ _ ht _ hstep => ht.step (step_moves cfg fcfg hstep)
  exact ⟨fun hl => ⟨(hcounted .press).outside hl, (hcounted .mismatch).outside hl⟩,
    congrArg Prod.snd hdetected⟩

/-- After a first tick, a button reset clears the deltas, a press is found and counted, and
the reset goes on to its end; its save fails. -/
def lateSchedule : List (Act Unit) :=
  [.observe ⟨1, messageOk, messageOk⟩,
    .enter () (.resetButton ⟨5000, 5000, ⟨5000, -5, 5000⟩⟩), .proceed (), .proceed (),
    .observe ⟨2, messageStop, messageStop⟩, .count] ++ List.replicate 8 (.proceed ())

/-- The press that lands between the clear of a reset and the zeroing counts. -/
theorem no_edge_lost_late_press :
    let cfg : HealthConfig := ⟨text "1.0 abc", 100000, 80, 50, 20⟩
    let start := threads cfg Unit nameSteq (fun _ => none) ⟨fun _ => 0, [], 0, 0, ⟨0, 0, 0⟩⟩
    ∃ s, Reaches (Threads.step cfg ⟨60, 600⟩) (fun _ _ => True) start s ∧
      s.service.health.counters.presses + s.service.health.pressDelta = 1 := by
  intro cfg start
  have hrun : (runFrom (Threads.step cfg ⟨60, 600⟩) start lateSchedule).map
      (fun s => (s.lock, s.log)) =
        some (none, [.reset .press, .reset .mismatch, .edge .press]) := by decide +kernel
  obtain ⟨s, hs, he⟩ := Option.map_eq_some_iff.mp hrun
  obtain ⟨hlock, hlog⟩ := Prod.mk.inj he
  have hreach : Reaches (Threads.step cfg ⟨60, 600⟩) (fun _ _ => True) start s :=
    Reaches.start.runFrom (by decide +kernel) hs
  have hcount := ((no_edge_lost cfg ⟨60, 600⟩ nameSteq (fun _ => none) _ hreach).1 hlock).1
  refine ⟨s, hreach, hcount.trans ?_⟩
  rw [hlog]
  decide

end ZephyrApps.HealthEdgeCounts
