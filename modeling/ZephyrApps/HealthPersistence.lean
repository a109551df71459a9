import ZephyrApps.HealthService
import ZephyrApps.SystemRuns

/-!
# What `dirty` says of the stored counters

Outside init and the resets every change of the counters sets `dirty`, and only a save
that succeeds clears it. Init and the resets change the counters and leave `dirty` to the
flush that follows at once: when that flush fails, `dirty` may say that the stored
counters are those in RAM while they are not.
-/
namespace ZephyrApps.HealthPersistence
open AppSettings CStrings SettingsStore KeyedLoads HealthCounters CounterBlobs HealthService
  SystemRuns

/-- Equal in every field but `uptime_s`. -/
structure SameWear (a b : Counters) : Prop where
  presses : a.presses = b.presses
  mismatchEvents : a.mismatchEvents = b.mismatchEvents
  boots : a.boots = b.boots
  flashes : a.flashes = b.flashes
  otas : a.otas = b.otas
  fwSha : a.fwSha = b.fwSha
  buttonSwaps : a.buttonSwaps = b.buttonSwaps

theorem SameWear.refl (a : Counters) : SameWear a a := ⟨rfl, rfl, rfl, rfl, rfl, rfl, rfl⟩

theorem SameWear.symm {a b : Counters} (h : SameWear a b) : SameWear b a :=
  ⟨h.presses.symm, h.mismatchEvents.symm, h.boots.symm, h.flashes.symm, h.otas.symm,
    h.fwSha.symm, h.buttonSwaps.symm⟩

theorem SameWear.trans {a b c : Counters} (h : SameWear a b) (h' : SameWear b c) : SameWear a c :=
  ⟨h.presses.trans h'.presses, h.mismatchEvents.trans h'.mismatchEvents, h.boots.trans h'.boots,
    h.flashes.trans h'.flashes, h.otas.trans h'.otas, h.fwSha.trans h'.fwSha,
    h.buttonSwaps.trans h'.buttonSwaps⟩

structure Service where
  health : Health
  flash : Store

/-- The last blob that was saved decodes to the counters in RAM, but for the uptime. -/
def Persisted (s : Service) : Prop :=
  ∃ blob c, s.flash healthSettingsKey = some blob ∧ healthDecode blob Counters.zero = (true, c) ∧
    SameWear c s.health.counters

def Clean (s : Service) : Prop := s.health.dirty = false → Persisted s

/-- One call of `health.c`, or an increment of its observer. -/
inductive HealthCall where
  | press
  | mismatch
  | poll (calls : PollCalls)
  | snapshot (folded aged : UInt64)
  | flush (calls : FlushCalls)
  | resetButton (calls : ResetCalls)
  | resetAll (calls : ResetCalls)

variable (cfg : HealthConfig) (fcfg : FlushConfig)

def leaves (r : Health × Store × Int) : Service := ⟨r.1, r.2.1⟩

def HealthCall.apply (s : Service) : HealthCall → Service
  | .press => { s with health := { s.health with pressDelta := s.health.pressDelta + 1 } }
  | .mismatch =>
    { s with health := { s.health with mismatchDelta := s.health.mismatchDelta + 1 } }
  | .poll calls =>
    let r := healthPoll cfg fcfg s.health s.flash calls
    ⟨r.1, r.2⟩
  | .snapshot folded aged => { s with health := (healthSnapshotGet cfg s.health folded aged).1 }
  | .flush calls => leaves (s.health.flushLocked s.flash calls)
  | .resetButton calls => leaves (s.health.resetButton cfg s.flash calls)
  | .resetAll calls => leaves (s.health.resetAll cfg s.flash calls)

def resetCounters : Counters := Counters.markFw Counters.zero cfg.fwId

/-- The flush of a reset succeeds, `dirty` is set already or by the edges that the reset
folds in, or the reset changes nothing. -/
def Guarded (s : Service) : HealthCall → Prop
  | .resetButton calls =>
    calls.flush.saved = 0 ∨ s.health.dirty = true ∨ s.health.pressDelta ≠ 0 ∨
      s.health.mismatchDelta ≠ 0 ∨
      (s.health.counters.presses = 0 ∧ s.health.counters.mismatchEvents = 0 ∧
        s.health.counters.buttonSwaps = 255)
  | .resetAll calls =>
    calls.flush.saved = 0 ∨ s.health.dirty = true ∨ SameWear s.health.counters (resetCounters cfg)
  | _ => True

def Pending (s : Health) : Prop := s.pressDelta ≠ 0 ∨ s.mismatchDelta ≠ 0

instance (s : Health) : Decidable (Pending s) := by
  unfold Pending
  infer_instance

theorem fold_eq (s : Health) (now : UInt64) :
    s.foldLocked now =
      { s with
        counters :=
          { s.counters with
            presses := s.counters.presses + s.pressDelta
            mismatchEvents := s.counters.mismatchEvents + s.mismatchDelta
            uptimeS := s.uptimeAtBootS + uptimeS now }
        dirty := s.dirty || decide (Pending s)
        pressDelta := 0
        mismatchDelta := 0 } := by
  unfold Health.foldLocked
  by_cases h : Pending s
  · have hc : s.pressDelta ≠ 0 ∨ s.mismatchDelta ≠ 0 := h
    simp only [if_pos hc, decide_eq_true h, Bool.or_true]
  · have hc : ¬ (s.pressDelta ≠ 0 ∨ s.mismatchDelta ≠ 0) := h
    obtain ⟨hp, hm⟩ := not_or.mp h
    have hpresses : s.counters.presses + s.pressDelta = s.counters.presses := by
      rw [not_not.mp hp, UInt32.add_zero]
    have hmismatches :
        s.counters.mismatchEvents + s.mismatchDelta = s.counters.mismatchEvents := by
      rw [not_not.mp hm, UInt32.add_zero]
    simp only [if_neg hc, decide_eq_false h, Bool.or_false, hpresses, hmismatches]

theorem flush_saved (s : Service) {calls : FlushCalls} (h : calls.saved = 0) :
    Persisted (leaves (s.health.flushLocked s.flash calls)) := by
  let c := (s.health.foldLocked calls.folded).counters
  refine ⟨healthEncode c, c, ?_, decode_encode c _, ?_⟩
  · simp [leaves, Health.flushLocked, settingsSaveOne, h, c]
  · simp only [leaves, Health.flushLocked, h, ne_eq, not_true, if_false]
    exact .refl c

theorem flush_failed (s : Service) {calls : FlushCalls} (h : calls.saved ≠ 0) :
    let r := leaves (s.health.flushLocked s.flash calls)
    r.flash = s.flash ∧ r.health.counters = (s.health.foldLocked calls.folded).counters ∧
      r.health.dirty = (s.health.foldLocked calls.folded).dirty := by
  simp [leaves, Health.flushLocked, settingsSaveOne, h]

theorem Persisted.congr {s s' : Service} (h : Persisted s) (hf : s'.flash = s.flash)
    (hc : SameWear s.health.counters s'.health.counters) : Persisted s' := by
  obtain ⟨blob, c, hb, hd, hs⟩ := h
  exact ⟨blob, c, by rw [hf, hb], hd, hs.trans hc⟩

/-- What is stored is one set of counters. -/
theorem Persisted.same {s s' : Service} (h : Persisted s) (h' : Persisted s')
    (hf : s'.flash = s.flash) : SameWear s.health.counters s'.health.counters := by
  obtain ⟨blob, c, hb, hd, hs⟩ := h
  obtain ⟨blob', c', hb', hd', hs'⟩ := h'
  rw [hf, hb] at hb'
  cases hb'
  rw [hd] at hd'
  cases hd'
  exact hs.symm.trans hs'

theorem fold_dirty (s : Health) (now : UInt64) :
    (s.foldLocked now).dirty = (s.dirty || decide (Pending s)) := by rw [fold_eq]

theorem fold_idle {s : Health} (h : ¬ Pending s) (now : UInt64) :
    SameWear s.counters (s.foldLocked now).counters := by
  obtain ⟨hp, hm⟩ := not_or.mp h
  rw [fold_eq, not_not.mp hp, not_not.mp hm, UInt32.add_zero, UInt32.add_zero]
  exact ⟨rfl, rfl, rfl, rfl, rfl, rfl, rfl⟩

theorem fold_not_pending (s : Health) (now : UInt64) : ¬ Pending (s.foldLocked now) := by
  rw [fold_eq]
  exact fun h => h.elim (fun hp => hp rfl) fun hm => hm rfl

variable {cfg fcfg} {s : Service}

theorem Clean.fold (h : Clean s) (now : UInt64) :
    Clean { s with health := s.health.foldLocked now } := by
  intro hd
  have hd' : (s.health.foldLocked now).dirty = false := hd
  rw [fold_dirty, Bool.or_eq_false_iff, decide_eq_false_iff_not] at hd'
  exact (h hd'.1).congr rfl (fold_idle hd'.2 now)

theorem Clean.evaluate (h : Clean s) (cfg : HealthConfig) (now : UInt64) :
    Clean { s with health := s.health.evaluateLocked cfg now } := h

theorem Clean.flush (h : Clean s) (calls : FlushCalls) :
    Clean (leaves (s.health.flushLocked s.flash calls)) := by
  by_cases hs : calls.saved = 0
  · exact fun _ => flush_saved s hs
  · obtain ⟨hf, hc, hd⟩ := flush_failed s hs
    intro hclean
    rw [hd] at hclean
    exact ((h.fold calls.folded) hclean).congr hf (hc ▸ .refl _)

/-- A poll folds, evaluates and maybe flushes. -/
theorem Clean.poll (h : Clean s) (calls : PollCalls) :
    Clean (HealthCall.apply cfg fcfg s (.poll calls)) := by
  have he := (h.fold calls.folded).evaluate cfg calls.evaluated
  unfold HealthCall.apply healthPoll
  dsimp only
  split
  · exact he.flush calls.flush
  · exact he

/-- If the flush that follows a change at once fails, flash, the counters and `dirty` are
as the change left them. -/
theorem change_failed (cfg : HealthConfig) (flash : Store) {h : Health} (hp : ¬ Pending h)
    (evaluated : UInt64) {calls : FlushCalls} (hs : calls.saved ≠ 0) :
    let r := leaves ((h.evaluateLocked cfg evaluated).flushLocked flash calls)
    r.flash = flash ∧ SameWear h.counters r.health.counters ∧ r.health.dirty = h.dirty := by
  have hp' : ¬ Pending (h.evaluateLocked cfg evaluated) := hp
  obtain ⟨hf, hcr, hd⟩ := flush_failed ⟨h.evaluateLocked cfg evaluated, flash⟩ hs
  refine ⟨hf, ?_, ?_⟩
  · rw [hcr]
    exact fold_idle hp' calls.folded
  · rw [hd, fold_dirty, decide_eq_false hp', Bool.or_false]
    rfl

theorem change_saved (cfg : HealthConfig) (flash : Store) (h : Health) (evaluated : UInt64)
    {calls : FlushCalls} (hs : calls.saved = 0) :
    Persisted (leaves ((h.evaluateLocked cfg evaluated).flushLocked flash calls)) :=
  flush_saved ⟨h.evaluateLocked cfg evaluated, flash⟩ hs

/-- The counters that a button reset makes of those that were folded. -/
def swapCounters (c : Counters) : Counters :=
  let c : Counters := { c with presses := 0, mismatchEvents := 0 }
  if c.buttonSwaps < 255 then { c with buttonSwaps := c.buttonSwaps + 1 } else c

theorem resetButton_failed (cfg : HealthConfig) (fcfg : FlushConfig) (s : Service)
    {calls : ResetCalls} (hs : calls.flush.saved ≠ 0) :
    let r := HealthCall.apply cfg fcfg s (.resetButton calls)
    r.flash = s.flash ∧
      SameWear (swapCounters (s.health.foldLocked calls.started).counters) r.health.counters ∧
      r.health.dirty = (s.health.dirty || decide (Pending s.health)) := by
  have hp : ¬ Pending { s.health.foldLocked calls.started with
      counters := swapCounters (s.health.foldLocked calls.started).counters } :=
    fold_not_pending s.health calls.started
  obtain ⟨hf, hc, hd⟩ := change_failed cfg s.flash hp calls.evaluated hs
  exact ⟨hf, hc, hd.trans (fold_dirty s.health calls.started)⟩

theorem resetAll_failed (cfg : HealthConfig) (fcfg : FlushConfig) (s : Service)
    {calls : ResetCalls} (hs : calls.flush.saved ≠ 0) :
    let r := HealthCall.apply cfg fcfg s (.resetAll calls)
    r.flash = s.flash ∧ SameWear (resetCounters cfg) r.health.counters ∧
      r.health.dirty = s.health.dirty := by
  have hp : ¬ Pending { s.health with
      pressDelta := 0
      mismatchDelta := 0
      counters := resetCounters cfg
      uptimeAtBootS := 0 - uptimeS calls.started } :=
    fun h => h.elim (fun hp => hp rfl) fun hm => hm rfl
  exact change_failed cfg s.flash hp calls.evaluated hs

/-- A button reset changes nothing if nothing was counted and the swaps are saturated. -/
theorem swap_same_iff (c : Counters) :
    SameWear c (swapCounters c) ↔
      c.presses = 0 ∧ c.mismatchEvents = 0 ∧ c.buttonSwaps = 255 := by
  unfold swapCounters
  dsimp only
  constructor
  · intro h
    by_cases hlt : c.buttonSwaps < 255
    · rw [if_pos hlt] at h
      have hsame : c.buttonSwaps = c.buttonSwaps + 1 := h.buttonSwaps
      simp at hsame
    · rw [if_neg hlt] at h
      refine ⟨h.presses, h.mismatchEvents, ?_⟩
      have hle : c.buttonSwaps.toNat < 256 := c.buttonSwaps.toNat_lt
      rw [UInt8.lt_iff_toNat_lt] at hlt
      have h255 : (255 : UInt8).toNat = 255 := rfl
      rw [h255] at hlt
      exact UInt8.toNat_inj.mp (by rw [h255]; omega)
  · rintro ⟨hp, hm, hb⟩
    have hlt : ¬ c.buttonSwaps < 255 := by
      rw [hb]
      decide
    rw [if_neg hlt]
    exact ⟨hp, hm, rfl, rfl, rfl, rfl, rfl⟩

/-- A call that leaves flash and makes `c` of the counters is clean if and only if it
leaves `dirty` set or changes nothing. -/
theorem Clean.unsaved_iff (h : Clean s) {r : Service} {c : Counters} {pending : Prop}
    [Decidable pending] (hf : r.flash = s.flash) (hc : SameWear c r.health.counters)
    (hd : r.health.dirty = (s.health.dirty || decide pending)) :
    Clean r ↔ s.health.dirty = true ∨ pending ∨ SameWear s.health.counters c := by
  by_cases hset : s.health.dirty = true ∨ pending
  · have hdirty : r.health.dirty = true := by
      rw [hd, Bool.or_eq_true, decide_eq_true_eq]
      exact hset
    constructor
    · exact fun _ => hset.imp_right Or.inl
    · intro _ hclean
      rw [hdirty] at hclean
      cases hclean
  · obtain ⟨hns, hnp⟩ := not_or.mp hset
    have hdirty : r.health.dirty = false := by
      rw [hd, Bool.or_eq_false_iff, decide_eq_false_iff_not]
      exact ⟨Bool.not_eq_true _ ▸ hns, hnp⟩
    have hpersisted := h (Bool.not_eq_true _ ▸ hns)
    constructor
    · exact fun hr => Or.inr (Or.inr ((hpersisted.same (hr hdirty) hf).trans hc.symm))
    · rintro (hset | hset | hsame) _
      · exact absurd hset hns
      · exact absurd hset hnp
      · exact hpersisted.congr hf (hsame.trans hc)

/-- From a clean flag, a call leaves a clean flag if and only if it is guarded. -/
theorem Clean.apply_iff (h : Clean s) (call : HealthCall) :
    Clean (HealthCall.apply cfg fcfg s call) ↔ Guarded cfg s call := by
  cases call with
  | press => exact ⟨fun _ => trivial, fun _ => h⟩
  | mismatch => exact ⟨fun _ => trivial, fun _ => h⟩
  | poll calls => exact ⟨fun _ => trivial, fun _ => h.poll calls⟩
  | snapshot folded aged => exact ⟨fun _ => trivial, fun _ => h.fold folded⟩
  | flush calls => exact ⟨fun _ => trivial, fun _ => h.flush calls⟩
  | resetButton calls =>
    by_cases hs : calls.flush.saved = 0
    · exact ⟨fun _ => Or.inl hs, fun _ _ => change_saved cfg s.flash _ _ hs⟩
    · obtain ⟨hf, hc, hd⟩ := resetButton_failed cfg fcfg s hs
      rw [h.unsaved_iff hf hc hd, Guarded, or_iff_right hs]
      refine or_congr_right ((or_congr_right' fun hp => ?_).trans or_assoc)
      have hfold := fold_idle hp calls.started
      rw [hfold.presses, hfold.mismatchEvents, hfold.buttonSwaps, ← swap_same_iff]
      exact ⟨fun hsame => hfold.symm.trans hsame, fun hsame => hfold.trans hsame⟩
  | resetAll calls =>
    by_cases hs : calls.flush.saved = 0
    · exact ⟨fun _ => Or.inl hs, fun _ _ => change_saved cfg s.flash _ _ hs⟩
    · obtain ⟨hf, hc, hd⟩ := resetAll_failed cfg fcfg s hs
      have hd' : (HealthCall.apply cfg fcfg s (.resetAll calls)).health.dirty =
          (s.health.dirty || decide False) := by rw [hd, decide_false, Bool.or_false]
      rw [h.unsaved_iff hf hc hd', Guarded, or_iff_right hs, false_or]

/-- An unsaved change is flushed once the minimum interval has passed. -/
theorem due_of_unsaved (h : Clean s) (hu : ¬ Persisted s) (since minS maxS : UInt32) :
    healthFlushDue s.health.dirty since minS maxS = decide (minS ≤ since) := by
  have hd : s.health.dirty = true := by
    by_contra hn
    exact hu (h (Bool.eq_false_iff.mpr hn))
  unfold healthFlushDue
  dsimp only
  rw [hd, Bool.true_and]
  by_cases hlt : maxS < minS
  · rw [if_pos hlt]
    by_cases hle : minS ≤ since
    · rw [if_pos hle, decide_eq_true hle]
    · rw [if_neg hle]
  · rw [if_neg hlt]
    by_cases hle : maxS ≤ since
    · rw [if_pos hle, decide_eq_true (UInt32.le_trans (UInt32.not_lt.mp hlt) hle)]
    · rw [if_neg hle]

variable {steq : Text → Text → Option (Option Text)} {flash : Store} {calls : InitCalls}

/-- The service after the first `health_init`. -/
def booted (steq : Text → Text → Option (Option Text)) (cfg : HealthConfig) (flash : Store)
    (calls : InitCalls) : Service := leaves (healthInit steq cfg unbooted flash calls)

theorem load_blob (hd : Documented steq) {read : Text → Int} (hread : ∀ name, 0 ≤ read name)
    {names : List Text} (hvisits : Visits names fun name => flash (healthKeyOf name))
    (hnames : ∀ name, (flash (healthKeyOf name)).isSome → ascii '=' ∉ name) :
    loadBlob steq flash read names =
      loaded (fun value blob => if value.length = healthBlobLen then some value else blob) none
        (flash healthSettingsKey) := by
  have howns : Owns
      (fun name value blob => (healthSettingsSet steq name value (read name) blob).1)
      (fun name => ascii '=' ∉ name) (text "counters") id
      (fun value blob => if value.length = healthBlobLen then some value else blob) := by
    constructor
    · intro value blob
      have hs : steq (text "counters") (text "counters") = some none := by
        rw [hd _ _ (by decide)]
        rfl
      rw [healthSettingsSet, if_pos hs]
      by_cases hl : value.length = healthBlobLen
      · rw [if_neg (not_not_intro hl), if_neg (not_lt.mpr (hread _)), id, if_pos hl]
      · rw [if_pos hl, id, if_neg hl]
    · intro name hname hne value blob
      have hs : steq name (text "counters") ≠ some none := by
        rw [hd _ _ hname, nameSteq, if_neg hne]
        split <;> simp
      rw [healthSettingsSet, if_neg hs]
  exact howns.load hvisits hnames none

theorem countBoot_boots (cfg : HealthConfig) (c : Counters) :
    (countBoot cfg c).boots = c.boots + 1 := by
  unfold countBoot
  dsimp only
  split <;> rfl

/-- A flush of `health_init` that succeeds leaves the flag right, whatever was loaded. -/
theorem init_clean (h : calls.flush.saved = 0) : Clean (booted steq cfg flash calls) :=
  fun _ => change_saved cfg flash _ _ h

/-- And only one that succeeds does: after any other the flag is clear, and the boot counter ahead. -/
theorem saved_of_init_clean (hd : Documented steq) (hread : ∀ name, 0 ≤ calls.read name)
    (hvisits : Visits calls.names fun name => flash (healthKeyOf name))
    (hnames : ∀ name, (flash (healthKeyOf name)).isSome → ascii '=' ∉ name)
    (hclean : Clean (booted steq cfg flash calls)) : calls.flush.saved = 0 := by
  by_contra hs
  let start := startCounters (loadBlob steq flash calls.read calls.names)
  let h : Health := { unbooted with
    counters := countBoot cfg start
    uptimeAtBootS := (countBoot cfg start).uptimeS - uptimeS calls.started }
  have hp : ¬ Pending h := fun h => h.elim (fun hp => hp rfl) fun hm => hm rfl
  obtain ⟨hf, hc, hdirty⟩ := change_failed cfg flash hp calls.evaluated hs
  obtain ⟨blob, c, hb, hdec, hsame⟩ := hclean hdirty
  have hlen : blob.length = healthBlobLen := by
    by_contra hne
    rw [decode_refused (Or.inl hne)] at hdec
    cases hdec
  have hstart : start = c := by
    have hload := load_blob hd hread hvisits hnames
    have hf' : (booted steq cfg flash calls).flash = flash := hf
    rw [hf'] at hb
    rw [hb, loaded, Option.elim_some, if_pos hlen] at hload
    simp only [start, hload, startCounters, hdec, if_true]
  have hboots : c.boots = c.boots + 1 := by
    calc c.boots = (leaves (healthInit steq cfg unbooted flash calls)).health.counters.boots :=
          hsame.boots
      _ = (countBoot cfg start).boots := hc.boots.symm
      _ = c.boots + 1 := by rw [countBoot_boots, hstart]
  simp at hboots

/-- After init and along any calls the flag means what it says if init's flush succeeds and every
call is guarded; and only then, where init's load meets the contract of the settings. A change that
is not saved is flushed after the minimum interval wherever the flag means what it says. -/
theorem clean_means_persisted_iff (steq : Text → Text → Option (Option Text)) (cfg : HealthConfig)
    (fcfg : FlushConfig) (flash : Store) (calls : InitCalls) (made : List HealthCall) :
    let s₀ := booted steq cfg flash calls
    let clean := Clean s₀ ∧ Meets (HealthCall.apply cfg fcfg)
      (fun s call => Clean (HealthCall.apply cfg fcfg s call)) s₀ made
    let guarded := calls.flush.saved = 0 ∧ Meets (HealthCall.apply cfg fcfg) (Guarded cfg) s₀ made
    (guarded → clean) ∧
      (Documented steq → (∀ name, 0 ≤ calls.read name) →
        Visits calls.names (fun name => flash (healthKeyOf name)) →
        (∀ name, (flash (healthKeyOf name)).isSome → ascii '=' ∉ name) → clean → guarded) ∧
      ∀ s, Clean s → ¬ Persisted s → ∀ since minS maxS,
        healthFlushDue s.health.dirty since minS maxS = decide (minS ≤ since) := by
  intro s₀ clean guarded
  have hrun (h : Clean s₀) : Meets (HealthCall.apply cfg fcfg)
      (fun s call => Clean (HealthCall.apply cfg fcfg s call)) s₀ made ↔
        Meets (HealthCall.apply cfg fcfg) (Guarded cfg) s₀ made :=
    meets_iff h (fun _ call hc => hc.apply_iff call) (fun _ _ _ hnext => hnext) made
  refine ⟨?_, ?_, fun s h hu => due_of_unsaved h hu⟩
  · rintro ⟨hsaved, hguarded⟩
    have hinit : Clean s₀ := init_clean hsaved
    exact ⟨hinit, (hrun hinit).mpr hguarded⟩
  · rintro hd hread hvisits hnames ⟨hinit, hclean⟩
    exact ⟨saved_of_init_clean hd hread hvisits hnames hinit, (hrun hinit).mp hclean⟩

/-- A press is folded in by a reset whose flush fails, and stays to be flushed. -/
theorem clean_means_persisted_pressed :
    let cfg : HealthConfig := ⟨text "1.0 abc", 100000, 80, 50, 20⟩
    let calls : InitCalls := ⟨fun _ => 0, [], 0, 0, ⟨0, 0, 0⟩⟩
    let s₀ := booted nameSteq cfg (fun _ => none) calls
    let made : List HealthCall := [.press, .resetButton ⟨5000, 5000, ⟨5000, -5, 5000⟩⟩]
    Meets (HealthCall.apply cfg ⟨60, 600⟩)
      (fun s call => Clean (HealthCall.apply cfg ⟨60, 600⟩ s call)) s₀ made ∧
    ¬ Clean (booted nameSteq cfg (fun _ => none) { calls with flush := ⟨0, -5, 0⟩ }) := by
  intro cfg calls s₀ made
  have hguarded : Meets (HealthCall.apply cfg ⟨60, 600⟩) (Guarded cfg) s₀ made := by
    refine EventHistories.each_cons.mpr ⟨trivial, EventHistories.each_cons.mpr ⟨?_, by simp⟩⟩
    exact Or.inr (Or.inr (Or.inl (by decide)))
  have hempty : ∀ name, ((fun _ => none : Store) (healthKeyOf name)).isSome →
      ascii '=' ∉ name := fun _ h => absurd h Bool.false_ne_true
  constructor
  · exact ((clean_means_persisted_iff nameSteq cfg ⟨60, 600⟩ (fun _ => none) calls made).1
      ⟨rfl, hguarded⟩).2
  · intro hclean
    have hsaved := ((clean_means_persisted_iff nameSteq cfg ⟨60, 600⟩ (fun _ => none)
      { calls with flush := ⟨0, -5, 0⟩ } []).2.1 (fun _ _ _ => rfl) (fun _ => le_refl 0)
      visits_empty hempty ⟨hclean, by simp⟩).1
    exact absurd hsaved (by decide)

/-- A reset of which nothing is saved leaves the flag clean over counters that are not
stored; so does an init. -/
theorem failed_reset_looks_saved :
    let cfg : HealthConfig := ⟨text "1.0 abc", 100000, 80, 50, 20⟩
    let calls : InitCalls := ⟨fun _ => 0, [], 0, 0, ⟨0, 0, 0⟩⟩
    let s := HealthCall.apply cfg ⟨60, 600⟩ (booted nameSteq cfg (fun _ => none) calls)
      (.resetButton ⟨5000, 5000, ⟨5000, -5, 5000⟩⟩)
    s.health.dirty = false ∧ s.health.counters.buttonSwaps = 1 ∧ ¬ Persisted s ∧
      ¬ Clean (booted nameSteq cfg (fun _ => none) { calls with flush := ⟨0, -5, 0⟩ }) := by
  intro cfg calls s
  have hclean : Clean (booted nameSteq cfg (fun _ => none) calls) := fun _ =>
    change_saved cfg _ _ _ rfl
  have hdirty : s.health.dirty = false := by decide
  refine ⟨hdirty, by decide, fun hp => ?_, fun hc => ?_⟩
  · have hiff : Clean s ↔ Guarded cfg (booted nameSteq cfg (fun _ => none) calls)
        (.resetButton ⟨5000, 5000, ⟨5000, -5, 5000⟩⟩) := hclean.apply_iff _
    rcases hiff.mp fun _ => hp with h | h | h | h | h
    · exact absurd h (by decide)
    · exact absurd h (by decide)
    · exact absurd h (by decide)
    · exact absurd h (by decide)
    · exact absurd h.2.2 (by decide)
  · obtain ⟨blob, c, hb, -⟩ := hc (by decide)
    cases hb

end ZephyrApps.HealthPersistence
