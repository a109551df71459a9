import ZephyrApps.PrusaCam
import ZephyrApps.SystemRuns

/-!
# What the camera runs after a change

`cfg_set` of several threads: each stores its configuration, and then `cfg_changed` reads what
is stored, applies it to the camera and kicks the uploads. Storing, reading and applying take
their locks one at a time.
-/
namespace ZephyrApps.CfgChanged
open AppSettings CStrings PrusaCfg PrusaCam SystemRuns

variable {ι : Type*}

/-- Where a thread is in its `cfg_set`. -/
inductive Phase where
  | idle
  | stored
  | copied (c : Cfg)
  | applied
  | returned (err : Int)
  deriving DecidableEq

/-- The configuration, the camera, and the threads with one `cfg_set` each. -/
structure System (ι : Type*) where
  store : CfgStore
  cam : Cam
  phase : ι → Phase

/-- The steps of a `cfg_set`: its store, and the calls of `cfg_changed`. -/
inductive Act (ι : Type*) where
  | store (i : ι) (saved : Int)
  | read (i : ι)
  | apply (i : ι) (calls : ApplyCalls)
  | kick (i : ι)

variable [DecidableEq ι]

def System.move (s : System ι) (i : ι) (p : Phase) : System ι :=
  { s with phase := Function.update s.phase i p }

def step (cfgs : ι → Cfg) (s : System ι) : Act ι → Option (System ι)
  | .store i saved =>
    match s.phase i with
    | .idle =>
      let (store, ret) := cfgSet s.store (cfgs i) saved
      some ({ s with store }.move i (if ret = 0 then .stored else .returned ret))
    | _ => none
  | .read i =>
    match s.phase i with
    | .stored => some (s.move i (.copied s.store.ram))
    | _ => none
  | .apply i calls =>
    match s.phase i with
    | .copied c => some ({ s with cam := (camApply s.cam c calls).1 }.move i .applied)
    | _ => none
  | .kick i =>
    match s.phase i with
    | .applied => some (s.move i (.returned 0))
    | _ => none

def start (s : CfgStore) (cam : Cam) : System ι := ⟨s, cam, fun _ => .idle⟩

/-- The thread whose configuration was stored last, the one whose configuration each thread
read, and the one whose configuration was applied last. -/
structure Trace (ι : Type*) where
  stored : Option ι
  seen : ι → Option ι
  applied : Option ι

def Trace.step (cfgs : ι → Cfg) (tr : Trace ι) : Act ι → Trace ι
  | .store i saved => if Stores (cfgs i) saved then { tr with stored := some i } else tr
  | .read i => { tr with seen := Function.update tr.seen i tr.stored }
  | .apply i _ => { tr with applied := tr.seen i }
  | .kick _ => tr

def trace (cfgs : ι → Cfg) (acts : List (Act ι)) : Trace ι :=
  acts.foldl (Trace.step cfgs) ⟨none, fun _ => none, none⟩

theorem trace_concat (cfgs : ι → Cfg) (acts : List (Act ι)) (a : Act ι) :
    trace cfgs (acts ++ [a]) = (trace cfgs acts).step cfgs a := by simp [trace]

/-- What the trace says of a thread that stands at a phase. -/
def Fits (cfgs : ι → Cfg) (tr : Trace ι) (i : ι) : Phase → Prop
  | .idle => tr.stored ≠ some i
  | .stored => tr.stored ≠ none
  | .copied c => tr.stored ≠ none ∧ ∃ j, tr.seen i = some j ∧ c = cfgs j
  | .applied => tr.applied ≠ none
  | .returned err => (err = 0 → tr.applied ≠ none) ∧ (tr.stored = some i → err = 0)

/-- What the trace says of the system that started from `s` and `cam`. -/
structure Follows (cfgs : ι → Cfg) (s : CfgStore) (cam : Cam) (t : System ι) (tr : Trace ι) : Prop where
  untouched : tr.stored = none → t.store = s ∧ t.cam = cam
  ram : ∀ k, tr.stored = some k → t.store.ram = cfgs k
  runs : ∀ j, tr.applied = some j → t.cam.Runs (settings (cfgs j))
  phases : ∀ i, Fits cfgs tr i (t.phase i)

variable {cfgs : ι → Cfg} {s : CfgStore} {cam : Cam} {t : System ι} {tr : Trace ι}

omit [DecidableEq ι] in
theorem start_follows : Follows cfgs s cam (start s cam) ⟨none, fun _ => none, none⟩ where
  untouched := fun _ => ⟨rfl, rfl⟩
  ram := nofun
  runs := nofun
  phases := fun _ => nofun

/-- One thread moves, and the others stay where the trace has them. -/
theorem phases_move {i : ι} {p : Phase} {tr' : Trace ι} (h : ∀ j, Fits cfgs tr j (t.phase j))
    (hi : Fits cfgs tr' i p) (hj : ∀ j q, j ≠ i → Fits cfgs tr j q → Fits cfgs tr' j q) (j : ι) :
    Fits cfgs tr' j ((t.move i p).phase j) := by
  show Fits cfgs tr' j (Function.update t.phase i p j)
  by_cases he : j = i
  · subst he
    rw [Function.update_self]
    exact hi
  · rw [Function.update_of_ne he]
    exact hj j _ he (h j)

theorem follows_store {i : ι} (h : Follows cfgs s cam t tr) :
    Follows cfgs s cam ({ t with store := ⟨cfgs i, some (cfgs i)⟩ }.move i .stored)
      { tr with stored := some i } where
  untouched := nofun
  ram := by
    intro k hk
    cases hk
    rfl
  runs := h.runs
  phases := by
    refine phases_move (t := t) h.phases nofun ?_
    intro j q hj hq
    cases q with
    | idle => exact fun hc => hj (Option.some.inj hc).symm
    | stored => exact nofun
    | copied c => exact ⟨nofun, hq.2⟩
    | applied => exact hq
    | returned err => exact ⟨hq.1, fun hc => absurd (Option.some.inj hc).symm hj⟩

theorem follows_refuse {i : ι} {err : Int} (h : Follows cfgs s cam t tr) (hi : t.phase i = .idle)
    (he : err ≠ 0) : Follows cfgs s cam (t.move i (.returned err)) tr where
  untouched := h.untouched
  ram := h.ram
  runs := h.runs
  phases := by
    have hidle := h.phases i
    rw [hi] at hidle
    refine phases_move h.phases ⟨fun hc => absurd hc he, fun hc => absurd hc hidle⟩ ?_
    intro j q _ hq
    exact hq

theorem follows_read {i : ι} (h : Follows cfgs s cam t tr) (hi : t.phase i = .stored) :
    Follows cfgs s cam (t.move i (.copied t.store.ram))
      { tr with seen := Function.update tr.seen i tr.stored } where
  untouched := h.untouched
  ram := h.ram
  runs := h.runs
  phases := by
    have hstored := h.phases i
    rw [hi] at hstored
    obtain ⟨k, hk⟩ := Option.ne_none_iff_exists'.mp hstored
    refine phases_move h.phases ⟨hstored, k, ?_, h.ram k hk⟩ ?_
    · exact (Function.update_self i tr.stored tr.seen).trans hk
    · intro j q hj hq
      cases q with
      | copied c =>
        obtain ⟨hs, l, hl, hc⟩ := hq
        exact ⟨hs, l, (Function.update_of_ne hj tr.stored tr.seen).trans hl, hc⟩
      | idle | stored | applied | returned => exact hq

theorem follows_apply {i : ι} {c : Cfg} {calls : ApplyCalls} (h : Follows cfgs s cam t tr)
    (hi : t.phase i = .copied c) (hcalls : calls.Succeed) :
    Follows cfgs s cam ({ t with cam := (camApply t.cam c calls).1 }.move i .applied)
      { tr with applied := tr.seen i } := by
  have hcopied := h.phases i
  rw [hi] at hcopied
  obtain ⟨hs, k, hk, rfl⟩ := hcopied
  refine ⟨fun hn => absurd hn hs, h.ram, ?_, ?_⟩
  · intro j hj
    cases hk.symm.trans hj
    exact (camApply_runs hcalls t.cam (cfgs k)).1
  · have hne : tr.seen i ≠ none := by simp [hk]
    refine phases_move (t := t) h.phases hne ?_
    intro j q _ hq
    cases q with
    | idle | stored | copied => exact hq
    | applied => exact hne
    | returned err => exact ⟨fun _ => hne, hq.2⟩

theorem follows_kick {i : ι} (h : Follows cfgs s cam t tr) (hi : t.phase i = .applied) :
    Follows cfgs s cam (t.move i (.returned 0)) tr where
  untouched := h.untouched
  ram := h.ram
  runs := h.runs
  phases := by
    have happlied := h.phases i
    rw [hi] at happlied
    refine phases_move h.phases ⟨fun _ => happlied, fun _ => rfl⟩ ?_
    intro j q _ hq
    exact hq

/-- The calls of this step succeed, if it is one of the camera. -/
def Act.Succeeds : Act ι → Prop
  | .apply _ calls => calls.Succeed
  | _ => True

theorem step_follows {u : System ι} {a : Act ι} (h : Follows cfgs s cam t tr)
    (ht : step cfgs t a = some u) (ha : a.Succeeds) : Follows cfgs s cam u (tr.step cfgs a) := by
  cases a with
  | store i saved =>
    simp only [step] at ht
    split at ht
    case h_1 hi =>
      by_cases hs : Stores (cfgs i) saved
      · rw [cfgSet_stores hs] at ht
        cases ht
        rw [Trace.step, if_pos hs]
        exact follows_store h
      · obtain ⟨err, he, hr⟩ := cfgSet_refuses hs t.store
        rw [hr] at ht
        cases ht
        rw [Trace.step, if_neg hs, if_neg he]
        exact follows_refuse h hi he
    case h_2 => cases ht
  | read i =>
    simp only [step] at ht
    split at ht
    case h_1 hi =>
      cases ht
      exact follows_read h hi
    case h_2 => cases ht
  | apply i calls =>
    simp only [step] at ht
    split at ht
    case h_1 c hi =>
      cases ht
      exact follows_apply h hi ha
    case h_2 => cases ht
  | kick i =>
    simp only [step] at ht
    split at ht
    case h_1 hi =>
      cases ht
      exact follows_kick h hi
    case h_2 => cases ht

theorem run_follows {acts : List (Act ι)} (h : runFrom (step cfgs) (start s cam) acts = some t)
    (hacts : ∀ a ∈ acts, a.Succeeds) : Follows cfgs s cam t (trace cfgs acts) := by
  have hrun := runFrom_induction
    (I := fun past u => (∀ a ∈ past, a.Succeeds) → Follows cfgs s cam u (trace cfgs past))
    (fun _ => start_follows) ?_ h
  · exact hrun hacts
  · intro past u a v hu ha hv
    rw [trace_concat]
    exact step_follows (hu fun b hb => hv b (List.mem_append_left _ hb)) ha
      (hv a (List.mem_append_right _ List.mem_cons_self))

/-- What was applied last is of the thread that stored last, or says the same about the camera;
with nothing stored, the camera ran what is stored before. -/
def UpToDate (cfgs : ι → Cfg) (s : CfgStore) (cam : Cam) (acts : List (Act ι)) : Prop :=
  match (trace cfgs acts).stored with
  | none => cam.Runs (settings s.ram)
  | some k => ∃ j, (trace cfgs acts).applied = some j ∧ settings (cfgs j) = settings (cfgs k)

/-- However the calls interleave: once all have returned, the camera runs the configuration
that is stored if and only if the one that was applied last had been read late enough. -/
theorem camera_runs_iff {acts : List (Act ι)}
    (h : runFrom (step cfgs) (start s cam) acts = some t) (hacts : ∀ a ∈ acts, a.Succeeds)
    (hret : ∀ i, ∃ err, t.phase i = .returned err) :
    t.cam.Runs (settings t.store.ram) ↔ UpToDate cfgs s cam acts := by
  have hf := run_follows h hacts
  unfold UpToDate
  cases hk : (trace cfgs acts).stored with
  | none =>
    obtain ⟨hstore, hcam⟩ := hf.untouched hk
    rw [hstore, hcam]
  | some k =>
    -- the thread that stored has returned, so something was applied
    obtain ⟨err, herr⟩ := hret k
    have hphase := hf.phases k
    rw [herr] at hphase
    obtain ⟨j, hj⟩ := Option.ne_none_iff_exists'.mp (hphase.1 (hphase.2 hk))
    rw [hf.ram k hk]
    constructor
    · intro hr
      exact ⟨j, hj, runs_unique (hf.runs j hj) hr⟩
    · rintro ⟨l, hl, heq⟩
      rw [← heq]
      exact hf.runs l hl

def bootCam : Cam where
  bufs := fun _ => none
  useFlash := false
  video := ⟨[], [], [], []⟩
  size := fun _ => 0
  format := none
  ctrl := fun _ => none

def working : ApplyCalls where
  ready := true
  setFormat := (0, 20000)
  alloc := fun i => some i.val
  enqueue := fun _ => 0
  setCtrl := fun _ => 0
  streamStart := 0

theorem working_succeeds : working.Succeed :=
  ⟨rfl, Int.le_refl 0, fun _ => rfl, fun _ => Int.le_refl 0, fun _ => Int.le_refl 0, rfl⟩

def qualities (i : Bool) : Cfg := { cfgDefault with quality := if i then 60 else 50 }

def inTurn : List (Act Bool) :=
  [.store false 0, .read false, .apply false working, .kick false,
    .store true 0, .read true, .apply true working, .kick true]

/-- The thread that read first applies last. -/
def crossed : List (Act Bool) :=
  [.store false 0, .read false, .store true 0, .read true, .apply true working, .kick true,
    .apply false working, .kick false]

theorem inTurn_succeeds : ∀ a ∈ inTurn, a.Succeeds := by
  simp [inTurn, Act.Succeeds, working_succeeds]

theorem camera_runs_iff_inTurn :
    ∃ t, runFrom (step qualities) (start ⟨cfgDefault, none⟩ bootCam) inTurn = some t ∧
      t.cam.Runs (settings t.store.ram) := by
  have hr : (runFrom (step qualities) (start ⟨cfgDefault, none⟩ bootCam) inTurn).map
      (fun t => (t.phase false, t.phase true)) = some (.returned 0, .returned 0) := by
    decide +kernel
  obtain ⟨t, ht, hp⟩ := Option.map_eq_some_iff.mp hr
  obtain ⟨hfalse, htrue⟩ := Prod.mk.inj hp
  have hret : ∀ i, ∃ err, t.phase i = .returned err := by
    intro i
    cases i with
    | false => exact ⟨0, hfalse⟩
    | true => exact ⟨0, htrue⟩
  exact ⟨t, ht, (camera_runs_iff ht inTurn_succeeds hret).mpr ⟨true, by decide +kernel, rfl⟩⟩

/-- All calls succeed and return, and the camera keeps the quality that was replaced. -/
theorem quality_crossed :
    ∃ t, runFrom (step qualities) (start ⟨cfgDefault, none⟩ bootCam) crossed = some t ∧
      (∀ a ∈ crossed, a.Succeeds) ∧ (∀ i, t.phase i = .returned 0) ∧
      t.store.ram.quality = 60 ∧ t.cam.ctrl .jpegCompressionQuality = some 50 ∧
      ¬ t.cam.Runs (settings t.store.ram) := by
  have hr : (runFrom (step qualities) (start ⟨cfgDefault, none⟩ bootCam) crossed).map
      (fun t => (t.phase false, t.phase true, t.store.ram.quality,
        t.cam.ctrl .jpegCompressionQuality)) = some (.returned 0, .returned 0, 60, some 50) := by
    decide +kernel
  obtain ⟨t, ht, hp⟩ := Option.map_eq_some_iff.mp hr
  simp only [Prod.mk.injEq] at hp
  obtain ⟨hfalse, htrue, hquality, hctrl⟩ := hp
  have hret : ∀ i, t.phase i = .returned 0 := by
    intro i
    cases i with
    | false => exact hfalse
    | true => exact htrue
  have hacts : ∀ a ∈ crossed, a.Succeeds := by simp [crossed, Act.Succeeds, working_succeeds]
  refine ⟨t, ht, hacts, hret, hquality, hctrl, fun hruns => ?_⟩
  have hset : t.cam.ctrl .jpegCompressionQuality = some ((t.store.ram.quality.toNat : ℕ) : Int) :=
    hruns.ctrl .jpegCompressionQuality
  rw [hctrl, hquality] at hset
  exact absurd hset (by decide)

end ZephyrApps.CfgChanged
