import ZephyrApps.CopiedUpdates
import ZephyrApps.PrusaCfg
import ZephyrApps.SystemRuns

/-!
# Changing the camera's configuration from two sides

The page's POST and the shell's `set` copy the configuration, change their fields in the copy
and store the whole copy. `cfg_lock` is held for the copy and for the store, not between.
-/
namespace ZephyrApps.CfgUpdates
open AppSettings CStrings PrusaCfg CopiedUpdates SystemRuns

variable {ι : Type*}

inductive Phase where
  | idle
  | copied (c : Cfg)
  | returned (err : Int)
  deriving DecidableEq

/-- The configuration and the threads that change it, one update each. -/
structure System (ι : Type*) where
  store : CfgStore
  phase : ι → Phase

/-- The first locked half of an update, and the second. -/
inductive Act (ι : Type*) where
  | read (i : ι)
  | write (i : ι) (saved : Int)

def Act.toStep : Act ι → Step ι
  | .read i => .read i
  | .write i _ => .write i

/-- What an update makes of its copy, and `cfg_set` of that. -/
def commit (u : Update) (s : CfgStore) (c : Cfg) (saved : Int) : CfgStore × Int :=
  match u.apply c with
  | .error err => (s, err)
  | .ok c' => cfgSet s c' saved

def requests (upd : ι → Update) (i : ι) (f : Field) : Option f.Val := (upd i).value f

variable [DecidableEq ι]

def step (upd : ι → Update) (s : System ι) : Act ι → Option (System ι)
  | .read i =>
    match s.phase i with
    | .idle => some { s with phase := Function.update s.phase i (.copied s.store.ram) }
    | _ => none
  | .write i saved =>
    match s.phase i with
    | .copied c =>
      let r := commit (upd i) s.store c saved
      some ⟨r.1, Function.update s.phase i (.returned r.2)⟩
    | _ => none

def start (s : CfgStore) : System ι := ⟨s, fun _ => .idle⟩

/-- A step reads, or writes what it makes of what it read. -/
theorem step_cases {upd : ι → Update} {s t : System ι} {a : Act ι} (h : step upd s a = some t) :
    (∃ i, a = .read i ∧ s.phase i = .idle ∧
      t = ⟨s.store, Function.update s.phase i (.copied s.store.ram)⟩) ∨
    ∃ i saved c, a = .write i saved ∧ s.phase i = .copied c ∧
      t = ⟨(commit (upd i) s.store c saved).1,
        Function.update s.phase i (.returned (commit (upd i) s.store c saved).2)⟩ := by
  cases a with
  | read i =>
    simp only [step] at h
    split at h
    · cases h
      exact Or.inl ⟨i, rfl, ‹_›, rfl⟩
    · cases h
  | write i saved =>
    simp only [step] at h
    split at h
    · cases h
      exact Or.inr ⟨i, saved, _, rfl, ‹_›, rfl⟩
    · cases h

def AllAccepted (s : System ι) : Prop := ∀ i err, s.phase i = .returned err → err = 0

theorem allAccepted_of_step {upd : ι → Update} {s t : System ι} {a : Act ι}
    (h : step upd s a = some t) (ht : AllAccepted t) : AllAccepted s := by
  intro j err hj
  -- who has returned does not move again
  have hkeep : ∀ i p, s.phase i ≠ .returned err → t.phase = Function.update s.phase i p →
      t.phase j = .returned err := by
    intro i p hi hp
    have hne : j ≠ i := fun he => hi (he ▸ hj)
    rw [hp, Function.update_of_ne hne]
    exact hj
  rcases step_cases h with ⟨i, -, hi, rfl⟩ | ⟨i, saved, c, -, hi, rfl⟩
  · exact ht j err (hkeep i _ (by rw [hi]; exact nofun) rfl)
  · exact ht j err (hkeep i _ (by rw [hi]; exact nofun) rfl)

/-- An accepted commit stores the copy with the fields of the update replaced. -/
theorem commit_zero {u : Update} {s : CfgStore} {c : Cfg} {saved : Int}
    (h : (commit u s c saved).2 = 0) :
    ∃ c', (commit u s c saved).1 = ⟨c', some c'⟩ ∧ c'.get = patched u.value c.get := by
  unfold commit at h ⊢
  cases hu : u.apply c with
  | error err =>
    rw [hu, apply_error hu] at h
    exact absurd h (show einval ≠ 0 by decide)
  | ok c' =>
    rw [hu] at h
    exact ⟨c', cfgSet_zero h, funext (apply_get hu)⟩

/-- The steps of the threads are those of writers who work on copies. -/
structure Matches (s : System ι) (a : Copies ι Field.Val) : Prop where
  ram : s.store.ram.get = a.now
  copied : ∀ i c, s.phase i = .copied c → c.get = a.copy i
  flash : ∀ i err, s.phase i = .returned err → s.store.flash = some s.store.ram

omit [DecidableEq ι] in
theorem start_matches (s : CfgStore) : Matches (start s : System ι) ⟨s.ram.get, fun _ => s.ram.get⟩ where
  ram := rfl
  copied := nofun
  flash := nofun

theorem step_matches {upd : ι → Update} {s t : System ι} {a : Copies ι Field.Val} {e : Act ι}
    (h : step upd s e = some t) (ht : AllAccepted t) (hm : Matches s a) :
    Matches t (a.step (requests upd) e.toStep) := by
  rcases step_cases h with ⟨i, rfl, -, rfl⟩ | ⟨i, saved, c, rfl, hi, rfl⟩
  · refine ⟨hm.ram, fun j c hj => ?_, fun j err hj => ?_⟩
    · show c.get = Function.update a.copy i a.now j
      rcases update_eq_cases hj with ⟨rfl, hc⟩ | ⟨he, hj⟩
      · cases hc
        rw [Function.update_self]
        exact hm.ram
      · rw [Function.update_of_ne he]
        exact hm.copied j c hj
    · rcases update_eq_cases hj with ⟨-, hc⟩ | ⟨-, hj⟩
      · cases hc
      · exact hm.flash j err hj
  · have hzero : (commit (upd i) s.store c saved).2 = 0 := ht i _ (Function.update_self i _ _)
    obtain ⟨c', hstore, hget⟩ := commit_zero hzero
    refine ⟨?_, fun j d hj => ?_, fun _ _ _ => ?_⟩
    · show (commit (upd i) s.store c saved).1.ram.get = patched (upd i).value (a.copy i)
      rw [hstore, hget, hm.copied i c hi]
    · rcases update_eq_cases hj with ⟨-, hd⟩ | ⟨-, hj⟩
      · cases hd
      · exact hm.copied j d hj
    · show (commit (upd i) s.store c saved).1.flash = some (commit (upd i) s.store c saved).1.ram
      rw [hstore]

/-- The writers whose changes the configuration contains, the newest first. -/
def carried (acts : List (Act ι)) : List ι := (chain (acts.map Act.toStep)).now

theorem run_matches {upd : ι → Update} {s : CfgStore} {t : System ι} {acts : List (Act ι)}
    (h : runFrom (step upd) (start s) acts = some t) (ht : AllAccepted t) :
    Matches t ((acts.map Act.toStep).foldl (Copies.step (requests upd))
      ⟨s.ram.get, fun _ => s.ram.get⟩) := by
  have hrun := runFrom_induction (I := fun past u => AllAccepted u →
    Matches u ((past.map Act.toStep).foldl (Copies.step (requests upd))
      ⟨s.ram.get, fun _ => s.ram.get⟩)) (fun _ => start_matches s) ?_ h
  · exact hrun ht
  · intro past u e v hu he hv
    rw [List.map_append, List.foldl_append]
    exact step_matches he hv (hu (allAccepted_of_step he hv))

/-- No other update names a field of this one. -/
def Exclusive (upd : ι → Update) (i : ι) : Prop :=
  ∀ j, j ≠ i → ∀ f, (upd i).value f ≠ none → (upd j).value f = none

def HasValues (u : Update) (c : Cfg) : Prop := ∀ f v, u.value f = some v → c.get f = v

/-- The values of an update are in RAM and stored. -/
def Kept (u : Update) (s : CfgStore) : Prop := HasValues u s.ram ∧ ∃ c, s.flash = some c ∧ HasValues u c

theorem ram_get {upd : ι → Update} {s : CfgStore} {t : System ι} {acts : List (Act ι)}
    (h : runFrom (step upd) (start s) acts = some t) (ht : AllAccepted t) :
    t.store.ram.get = layered (requests upd) (carried acts) s.ram.get :=
  (run_matches h ht).ram.trans (follows_run _ _ _).now

/-- However the copies and the stores of accepted updates interleave: an update that shares
no field with another one is kept if its writer is behind the last store, and only then,
unless there was nothing to change. -/
theorem updates_kept_iff {upd : ι → Update} {s : CfgStore} {t : System ι} {acts : List (Act ι)}
    (h : runFrom (step upd) (start s) acts = some t) (ht : ∀ i, t.phase i = .returned 0) :
    (∀ i, Exclusive upd i → Kept (upd i) t.store) ↔
      ∀ i, Exclusive upd i → i ∈ carried acts ∨ HasValues (upd i) s.ram := by
  have hacc : AllAccepted t := by
    intro i err hi
    rw [ht i] at hi
    cases hi
    rfl
  have hram := ram_get h hacc
  constructor
  · intro hk i hi
    by_cases hc : i ∈ carried acts
    · exact Or.inl hc
    · refine Or.inr fun f v hv => ?_
      have hf : ∀ j, j ≠ i → requests upd j f = none := fun j hj => hi j hj f (by simp [hv])
      rw [← (hk i hi).1 f v hv, hram]
      exact (layered_of_notMem hf hc _).symm
  · intro hc i hi
    have hvals : HasValues (upd i) t.store.ram := by
      intro f v hv
      have hf : ∀ j, j ≠ i → requests upd j f = none := fun j hj => hi j hj f (by simp [hv])
      have hr : requests upd i f = some v := hv
      rw [hram]
      by_cases hmem : i ∈ carried acts
      · exact layered_of_mem hr hf hmem _
      · rw [layered_of_notMem hf hmem]
        exact ((hc i hi).resolve_left hmem) f v hv
    exact ⟨hvals, _, (run_matches h hacc).flash i 0 (ht i), hvals⟩

/-- Updates that take turns are kept. -/
theorem updates_kept_in_turn {upd : ι → Update} {s : CfgStore} {t : System ι} {is : List ι}
    {saved : ι → Int}
    (h : runFrom (step upd) (start s) (is.flatMap fun i => [.read i, .write i (saved i)]) = some t)
    (ht : ∀ i, t.phase i = .returned 0) (hall : ∀ i, i ∈ is) (i : ι) (hi : Exclusive upd i) :
    Kept (upd i) t.store := by
  have hmap : (is.flatMap fun i => [Act.read i, .write i (saved i)]).map Act.toStep
      = is.flatMap fun i => [.read i, .write i] := by
    rw [List.map_flatMap]
    rfl
  refine (updates_kept_iff h ht).mpr (fun j _ => Or.inl ?_) i hi
  rw [carried, hmap, chain_turns]
  exact List.mem_reverse.mpr (hall j)

/-- The page sets the password while the shell sets the quality. -/
def pageAndShell : Bool → Update
  | false => .post (some { CfgPost.empty with password := some (text "secret") })
  | true => .set (text "quality") (text "50")

theorem pageAndShell_exclusive (i : Bool) : Exclusive pageAndShell i := by
  intro j hj f hf
  cases i <;> cases j <;> cases f <;> first | rfl | exact absurd rfl hf | exact absurd rfl hj

theorem updates_kept_iff_turns :
    ∃ t, runFrom (step pageAndShell) (start ⟨cfgDefault, none⟩)
        [.read false, .write false 0, .read true, .write true 0] = some t ∧
      ∀ i, Exclusive pageAndShell i → Kept (pageAndShell i) t.store := by
  have hr : (runFrom (step pageAndShell) (start ⟨cfgDefault, none⟩)
      [.read false, .write false 0, .read true, .write true 0]).map
      (fun t => (t.phase false, t.phase true)) = some (.returned 0, .returned 0) := by
    decide +kernel
  obtain ⟨t, ht, hp⟩ := Option.map_eq_some_iff.mp hr
  obtain ⟨hfalse, htrue⟩ := Prod.mk.inj hp
  refine ⟨t, ht, (updates_kept_iff ht ?_).mpr fun i _ => Or.inl ?_⟩
  · intro i
    cases i with
    | false => exact hfalse
    | true => exact htrue
  · cases i <;> decide

/-- Both copy before either stores: the password that was accepted is gone. -/
theorem password_lost :
    ∃ t, runFrom (step pageAndShell) (start ⟨cfgDefault, none⟩)
        [.read false, .read true, .write false 0, .write true 0] = some t ∧
      (∀ i, t.phase i = .returned 0) ∧
      ¬ ∀ i, Exclusive pageAndShell i → Kept (pageAndShell i) t.store := by
  have hr : (runFrom (step pageAndShell) (start ⟨cfgDefault, none⟩)
      [.read false, .read true, .write false 0, .write true 0]).map
      (fun t => (t.phase false, t.phase true, t.store.ram.password))
        = some (.returned 0, .returned 0, []) := by
    decide +kernel
  obtain ⟨t, ht, hp⟩ := Option.map_eq_some_iff.mp hr
  obtain ⟨hfalse, hp⟩ := Prod.mk.inj hp
  obtain ⟨htrue, hpass⟩ := Prod.mk.inj hp
  refine ⟨t, ht, ?_, fun hk => ?_⟩
  · intro i
    cases i with
    | false => exact hfalse
    | true => exact htrue
  · have hkept := (hk false (pageAndShell_exclusive false)).1 .password (text "secret") (by rfl)
    have hempty : t.store.ram.password = text "secret" := hkept
    rw [hpass] at hempty
    exact absurd hempty (by decide)

end ZephyrApps.CfgUpdates
