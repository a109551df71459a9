import Mathlib.Data.Fintype.Basic
import ZephyrApps.ConnectThread

/-!
# Camera-info and the configuration

`INFO_STALE` is set by other threads and cleared by the upload thread once the service has
accepted a camera-info. If it is clear, what was accepted last should be of the configuration
that is stored.
-/
namespace ZephyrApps.ConnectInfo
open AppSettings CStrings PrusaCfg SystemRuns ConnectThread

variable {ι N : Type*}

/-- No change is between its store and its flag. -/
def Settled (s : System ι N) : Prop := ∀ i, s.phase i ≠ .stored

/-- If the flag is clear, the last accepted camera-info is of the stored configuration. -/
def Current (s : System ι N) : Prop :=
  s.infoStale = false → Settled s → ∃ net, s.accepted = some ⟨s.store.ram, net⟩

def carried : Pc N → Option Cfg
  | .copied c | .choosing c | .clearing c => some c
  | .informing b => some b.cfg
  | _ => none

/-- When the flag is cleared, the configuration that was copied for the camera-info is still
the stored one, or a change has yet to set the flag again. -/
def ClearsInTime (s : System ι N) : Act ι N → Prop
  | .clear => ∀ c ∈ carried s.pc, Settled s → c = s.store.ram
  | _ => True

instance [Fintype ι] (s : System ι N) : Decidable (Settled s) :=
  inferInstanceAs (Decidable (∀ i, s.phase i ≠ .stored))

instance [Fintype ι] (s : System ι N) (a : Act ι N) : Decidable (ClearsInTime s a) :=
  match a with
  | .clear => inferInstanceAs (Decidable (∀ c ∈ carried s.pc, Settled s → c = s.store.ram))
  | .store _ _ | .flag _ | .give _ | .take | .timeout _ | .wake | .copy | .begin | .choose _
  | .answer _ => isTrue trivial

/-- While camera-info is sent the flag is set, and when it is to be cleared the service has
accepted what was copied. -/
structure Sending (s : System ι N) : Prop where
  informing : ∀ b, s.pc = .informing b → s.infoStale = true
  clearing : ∀ c, s.pc = .clearing c → s.infoStale = true ∧ ∃ net, s.accepted = some ⟨c, net⟩

theorem current_of_stale {s : System ι N} (h : s.infoStale = true) : Current s := by
  intro hclear
  rw [h] at hclear
  cases hclear

def Elsewhere : Pc N → Prop
  | .informing _ | .clearing _ => False
  | _ => True

theorem sending_of_elsewhere {s : System ι N} (h : Elsewhere s.pc) : Sending s := by
  refine ⟨fun b hb => ?_, fun c hc => ?_⟩
  · rw [hb] at h
    exact h.elim
  · rw [hc] at h
    exact h.elim

structure Same (t u : System ι N) : Prop where
  store : u.store = t.store
  infoStale : u.infoStale = t.infoStale
  accepted : u.accepted = t.accepted
  settled : Settled u → Settled t

variable {s t u : System ι N}

theorem Same.current (h : Same t u) (ht : Current t) : Current u := by
  intro hclear hsettled
  rw [h.store, h.accepted]
  exact ht (h.infoStale ▸ hclear) (h.settled hsettled)

theorem Sending.of_pc (h : Sending t) (hpc : u.pc = t.pc) (ha : u.accepted = t.accepted)
    (hi : t.infoStale = true → u.infoStale = true) : Sending u := by
  refine ⟨fun b hb => hi (h.informing b (hpc ▸ hb)), fun c hc => ?_⟩
  obtain ⟨hstale, net, hnet⟩ := h.clearing c (hpc ▸ hc)
  exact ⟨hi hstale, net, ha.trans hnet⟩

/-- The service has accepted camera-info, and the flag is still set. -/
theorem accepted_keeps {b : Built N} (hpc : s.pc = .informing b) (hs : Sending s) (e : Event) :
    let u := { s with accepted := some b, pc := .clearing b.cfg }.record e
    Sending u ∧ Current u := by
  have hstale := hs.informing b hpc
  refine ⟨⟨nofun, fun c hc => ?_⟩, current_of_stale hstale⟩
  cases hc
  exact ⟨hstale, b.net, rfl⟩

theorem choose_keeps (c : Cfg) (net : N) (hc : Current s) :
    Sending (s.choose c net) ∧ Current (s.choose c net) := by
  unfold System.choose
  split
  case isTrue hstale => exact ⟨⟨fun _ _ => hstale, nofun⟩, current_of_stale hstale⟩
  case isFalse => exact ⟨sending_of_elsewhere trivial, Same.current (t := s) ⟨rfl, rfl, rfl, id⟩ hc⟩

/-- The flag is cleared for good if and only if what was copied is still what is stored, or a
change has yet to set it. -/
theorem clear_current {c : Cfg} (hpc : s.pc = .clearing c) (hs : Sending s) :
    Current s.clear ↔ (Settled s → c = s.store.ram) := by
  obtain ⟨-, net, hnet⟩ := hs.clearing c hpc
  constructor
  · intro h hsettled
    obtain ⟨net', hnet'⟩ := h rfl hsettled
    cases hnet.symm.trans hnet'
    rfl
  · intro h _ hsettled
    exact ⟨net, h hsettled ▸ hnet⟩

def Aside (s u : System ι N) : Prop := Same s u ∧ Elsewhere u.pc

theorem Aside.keeps (h : Aside s u) (hc : Current s) : Sending u ∧ Current u :=
  ⟨sending_of_elsewhere h.2, h.1.current hc⟩

theorem take_aside (s : System ι N) : Aside s s.take := by
  unfold System.take
  split <;> exact ⟨⟨rfl, rfl, rfl, id⟩, trivial⟩

theorem copy_aside (s : System ι N) : Aside s s.copy := by
  unfold System.copy
  split <;> exact ⟨⟨rfl, rfl, rfl, id⟩, trivial⟩

theorem begin_aside (s : System ι N) (c : Cfg) : Aside s (s.begin c) := by
  unfold System.begin
  split
  · exact ⟨⟨rfl, rfl, rfl, id⟩, trivial⟩
  · split <;> exact ⟨⟨rfl, rfl, rfl, id⟩, trivial⟩

theorem give_same (s : System ι N) : Same s s.give := by
  unfold System.give
  split <;> exact ⟨rfl, rfl, rfl, id⟩

theorem give_phase (s : System ι N) : s.give.phase = s.phase := by
  unfold System.give
  split <;> rfl

theorem give_sending (h : Sending s) : Sending s.give := by
  unfold System.give
  split
  · exact sending_of_elsewhere trivial
  · exact h.of_pc rfl rfl id

variable [DecidableEq ι] {jobs : ι → Job}

theorem settled_of_move {i : ι} {p : Phase} (hu : u.phase = Function.update s.phase i p)
    (hi : s.phase i ≠ .stored) (h : Settled u) : Settled s := by
  intro j hj
  by_cases he : j = i
  · exact hi (he ▸ hj)
  · refine h j ?_
    rw [hu, Function.update_of_ne he]
    exact hj

theorem storeCfg_keeps {i : ι} (c : Cfg) (saved : Int) (hi : s.phase i = .idle) (hs : Sending s)
    (hc : Current s) : Sending (s.storeCfg i c saved) ∧ Current (s.storeCfg i c saved) := by
  unfold System.storeCfg
  by_cases hstores : Stores c saved
  · rw [cfgSet_stores hstores]
    refine ⟨hs.of_pc rfl rfl id, fun _ hsettled => ?_⟩
    exact absurd (Function.update_self i _ s.phase) (hsettled i)
  · obtain ⟨err, he, hr⟩ := cfgSet_refuses hstores s.store
    rw [hr]
    dsimp only
    rw [if_neg he]
    refine ⟨hs.of_pc rfl rfl id, Same.current (t := s) ⟨rfl, rfl, rfl, ?_⟩ hc⟩
    exact settled_of_move rfl (by rw [hi]; exact nofun)

theorem flagTest_keeps {i : ι} (hi : s.phase i = .idle) (hs : Sending s) (hc : Current s) :
    let u := { s with testRequested := true }.move i .flagged
    Sending u ∧ Current u := by
  refine ⟨hs.of_pc rfl rfl id, Same.current (t := s) ⟨rfl, rfl, rfl, ?_⟩ hc⟩
  exact settled_of_move rfl (by rw [hi]; exact nofun)

theorem giveOf_keeps {i : ι} (hi : s.phase i = .flagged) (hs : Sending s) (hc : Current s) :
    Sending (s.giveOf i (jobs i)) ∧ Current (s.giveOf i (jobs i)) := by
  have hcgive : Current s.give := (give_same s).current hc
  have hphase : s.give.phase i ≠ .stored := by
    rw [give_phase, hi]
    exact nofun
  unfold System.giveOf
  split
  all_goals
    refine ⟨(give_sending hs).of_pc rfl rfl id, Same.current (t := s.give) ⟨rfl, rfl, rfl, ?_⟩ hcgive⟩
    exact settled_of_move rfl hphase

/-- Only the clearing can go wrong. -/
theorem step_keeps {a : Act ι N} (h : step jobs s a = some u) (ha : a ≠ .clear) (hs : Sending s)
    (hc : Current s) : Sending u ∧ Current u := by
  cases step_moves h with
  | store _ hi => exact storeCfg_keeps _ _ hi hs hc
  | flagChange | flagEvent => exact ⟨hs.of_pc rfl rfl fun _ => rfl, current_of_stale rfl⟩
  | flagTest _ hi => exact flagTest_keeps hi hs hc
  | give hi => exact giveOf_keeps hi hs hc
  | take => exact (take_aside s).keeps hc
  | timeout | wake | tested | snapped => exact Aside.keeps ⟨⟨rfl, rfl, rfl, id⟩, trivial⟩ hc
  | copy => exact (copy_aside s).keeps hc
  | begin => exact (begin_aside s _).keeps hc
  | choose => exact choose_keeps _ _ hc
  | accepted hpc => exact accepted_keeps hpc hs _
  | rejected hpc => exact ⟨sending_of_elsewhere trivial, current_of_stale (hs.informing _ hpc)⟩
  | clear => exact absurd rfl ha

theorem step_clear (h : step jobs s .clear = some u) (hs : Sending s) :
    Sending u ∧ (Current u ↔ ClearsInTime s (.clear : Act ι N)) := by
  cases step_moves h with
  | @clear c hpc =>
    have hc : carried s.pc = some c := by
      rw [hpc]
      rfl
    refine ⟨sending_of_elsewhere trivial, (clear_current hpc hs).trans ⟨fun hclear d hd => ?_, ?_⟩⟩
    · cases hc.symm.trans hd
      exact hclear
    · intro hclear
      exact hclear c hc

theorem step_current {a : Act ι N} (h : step jobs s a = some u) (hs : Sending s) (hc : Current s) :
    Sending u ∧ (Current u ↔ ClearsInTime s a) := by
  cases a with
  | clear => exact step_clear h hs
  | store | flag | give | take | timeout | wake | copy | begin | choose | answer =>
    have hk := step_keeps h nofun hs hc
    exact ⟨hk.1, iff_of_true hk.2 trivial⟩

omit [DecidableEq ι] in
theorem start_current (s : CfgStore) : Current (start s : System ι N) := current_of_stale rfl

/-- For every interleaving: in all states of a run camera-info is current when the flag is clear
and no change is under way, if and only if the flag is always cleared in time. -/
theorem info_current_iff {s : CfgStore} {acts : List (Act ι N)} {t : System ι N}
    (h : runFrom (step jobs) (start s) acts = some t) :
    (∀ past future u, acts = past ++ future → runFrom (step jobs) (start s) past = some u →
      Current u) ↔ Allows (step jobs) ClearsInTime (start s) acts :=
  allows_iff (I := Sending) (sending_of_elsewhere trivial) (start_current s)
    (fun _ _ _ hs hc hstep => step_current hstep hs hc) h

def named : Cfg := { cfgDefault with token := text "abcdefghij0123456789" }

def newName (_ : Unit) : Job := .change { named with name := text "bench" }

def inTurn : List (Act Unit Unit) :=
  [.store () 0, .flag (), .give (), .take, .wake, .copy, .begin, .choose (), .answer 200, .clear]

theorem info_current_iff_inTurn :
    ∃ t, runFrom (step newName) (start ⟨named, none⟩) inTurn = some t ∧ t.infoStale = false ∧
      Current t := by
  have hr : (runFrom (step newName) (start ⟨named, none⟩) inTurn).map (·.infoStale) = some false := by
    decide +kernel
  obtain ⟨t, ht, hstale⟩ := Option.map_eq_some_iff.mp hr
  exact ⟨t, ht, hstale, (info_current_iff ht).mpr (by decide +kernel) inTurn [] t rfl ht⟩

/-- A change that runs from its store to its end while camera-info is sent. -/
def overtaken : List (Act Unit Unit) :=
  [.take, .timeout 30, .copy, .begin, .choose (), .store () 0, .flag (), .give (), .answer 200,
    .clear]

/-- The change has returned and the flag is clear, but the service has the old name. -/
theorem name_lost :
    ∃ t, runFrom (step newName) (start ⟨named, none⟩) overtaken = some t ∧ t.infoStale = false ∧
      (∀ i, t.phase i = .returned 0) ∧ t.store.ram.name = text "bench" ∧
      t.accepted.map (·.info.name) = some (text "prusa-esp32cam") ∧ ¬ Current t := by
  have hr : (runFrom (step newName) (start ⟨named, none⟩) overtaken).map
      (fun t => (t.infoStale, t.phase (), t.store.ram.name, t.accepted.map (·.info.name))) =
        some (false, .returned 0, text "bench", some (text "prusa-esp32cam")) := by
    decide +kernel
  obtain ⟨t, ht, hp⟩ := Option.map_eq_some_iff.mp hr
  simp only [Prod.mk.injEq] at hp
  obtain ⟨hstale, hphase, hname, haccepted⟩ := hp
  refine ⟨t, ht, hstale, fun _ => hphase, hname, haccepted, fun hcurrent => ?_⟩
  obtain ⟨net, hnet⟩ := hcurrent hstale fun i hi => absurd (hphase.symm.trans hi) nofun
  rw [hnet] at haccepted
  have hsame : t.store.ram.name = text "prusa-esp32cam" := Option.some.inj haccepted
  rw [hname] at hsame
  exact absurd hsame (by decide)

omit [DecidableEq ι] in
theorem give_carried (s : System ι N) : carried s.give.pc = carried s.pc := by
  unfold System.give
  split
  case h_1 hpc => rw [hpc]; rfl
  case h_2 => rfl

/-- A pass carries what it copied until it ends. -/
theorem step_carried {a : Act ι N} (h : step jobs s a = some u) (ha : a ≠ .copy) :
    carried u.pc = none ∨ carried u.pc = carried s.pc := by
  cases step_moves h with
  | store | flagChange | flagEvent | flagTest => exact Or.inr rfl
  | give =>
    refine Or.inr ?_
    unfold System.giveOf
    split <;> exact give_carried s
  | take =>
    refine Or.inl ?_
    unfold System.take
    split <;> rfl
  | timeout | wake | tested | snapped | rejected | clear => exact Or.inl rfl
  | copy => exact absurd rfl ha
  | begin hpc =>
    unfold System.begin
    split
    · exact Or.inl rfl
    · split
      · exact Or.inl rfl
      · rw [hpc]
        exact Or.inr rfl
  | choose hpc =>
    unfold System.choose
    split
    · rw [hpc]
      exact Or.inr rfl
    · exact Or.inl rfl
  | accepted hpc =>
    rw [hpc]
    exact Or.inr rfl

/-- The configuration is as it was, and the changes that have stored it and not set the flag. -/
def StoreKept (a : Act ι N) (s u : System ι N) : Prop :=
  u.store = s.store ∧ ∀ i, s.phase i = .stored → a ≠ .flag i → u.phase i = .stored

omit [DecidableEq ι] in
theorem storeKept_of_eq {a : Act ι N} (hs : u.store = s.store) (hp : u.phase = s.phase) :
    StoreKept a s u := ⟨hs, fun _ hi _ => hp ▸ hi⟩

theorem storeKept_move {a : Act ι N} {i : ι} {p : Phase} (hs : u.store = s.store)
    (hp : u.phase = Function.update s.phase i p) (hi : s.phase i = .stored → a = .flag i) :
    StoreKept a s u := by
  refine ⟨hs, fun j hj ha => ?_⟩
  have hne : j ≠ i := by
    rintro rfl
    exact ha (hi hj)
  rw [hp, Function.update_of_ne hne]
  exact hj

theorem step_store {a : Act ι N} (h : step jobs s a = some u) :
    StoreKept a s u ∨ ∃ i saved, a = .store i saved ∧ u.phase i = .stored := by
  cases step_moves h with
  | @store i c saved _ hi =>
    unfold System.storeCfg
    by_cases hstores : Stores c saved
    · rw [cfgSet_stores hstores]
      exact Or.inr ⟨i, saved, rfl, Function.update_self i _ _⟩
    · obtain ⟨err, he, hr⟩ := cfgSet_refuses hstores s.store
      rw [hr]
      dsimp only
      rw [if_neg he]
      exact Or.inl (storeKept_move rfl rfl fun hc => absurd (hi.symm.trans hc) nofun)
  | flagChange | flagEvent | flagTest => exact Or.inl (storeKept_move rfl rfl fun _ => rfl)
  | @give i hi =>
    have hk : StoreKept (.give i) s (s.give.move i (.returned 0)) :=
      storeKept_move (give_same s).store (congrArg (Function.update · i _) (give_phase s))
        fun hc => absurd (hi.symm.trans hc) nofun
    unfold System.giveOf
    split <;> exact Or.inl hk
  | take =>
    unfold System.take
    split <;> exact Or.inl (storeKept_of_eq rfl rfl)
  | copy =>
    unfold System.copy
    split <;> exact Or.inl (storeKept_of_eq rfl rfl)
  | begin =>
    unfold System.begin
    split
    · exact Or.inl (storeKept_of_eq rfl rfl)
    · split <;> exact Or.inl (storeKept_of_eq rfl rfl)
  | choose =>
    unfold System.choose
    split <;> exact Or.inl (storeKept_of_eq rfl rfl)
  | timeout | wake | tested | snapped | accepted | rejected | clear =>
    exact Or.inl (storeKept_of_eq rfl rfl)

/-- A pass clears the flag in time if no change is stored after its copy and has set the flag
before it is cleared. -/
theorem clears_in_time {acts : List (Act ι N)} {v : System ι N} (hv : v.pc = .copied v.store.ram)
    (h : runFrom (step jobs) v acts = some t) (hcopy : .copy ∉ acts)
    (horder : ∀ i saved, .store i saved ∈ acts → .flag i ∉ acts) : ClearsInTime t .clear := by
  have hrun := runFrom_induction
    (I := fun past w => .copy ∉ past → (∀ i saved, .store i saved ∈ past → .flag i ∉ past) →
      (∀ c, carried w.pc = some c → c = v.store.ram) ∧
      (w.store = v.store ∨ ∃ i saved, .store i saved ∈ past ∧ w.phase i = .stored))
    ?_ ?_ h hcopy horder
  · obtain ⟨hcarried, hstore⟩ := hrun
    intro c hc hsettled
    rw [hcarried c hc]
    rcases hstore with hstore | ⟨i, -, -, hi⟩
    · rw [hstore]
    · exact absurd hi (hsettled i)
  · intro _ _
    refine ⟨fun c hc => ?_, Or.inl rfl⟩
    rw [hv] at hc
    exact (Option.some.inj hc).symm
  · intro past w a u hw ha hcopy' horder'
    obtain ⟨hcarried, hstore⟩ := hw (fun hc => hcopy' (List.mem_append_left _ hc))
      fun i saved hi hf => horder' i saved (List.mem_append_left _ hi) (List.mem_append_left _ hf)
    have hlast : a ∈ past ++ [a] := List.mem_append_right _ List.mem_cons_self
    constructor
    · intro c hc
      rcases step_carried ha (fun he => hcopy' (he ▸ hlast)) with hnone | hsame
      · rw [hnone] at hc
        cases hc
      · exact hcarried c (hsame ▸ hc)
    · rcases step_store ha with hkept | ⟨i, saved, rfl, hi⟩
      · rcases hstore with hstore | ⟨i, saved, hmem, hi⟩
        · exact Or.inl (hkept.1.trans hstore)
        · have hmem' : Act.store i saved ∈ past ++ [a] := List.mem_append_left _ hmem
          have hne : a ≠ .flag i := fun he => horder' i saved hmem' (he ▸ hlast)
          exact Or.inr ⟨i, saved, hmem', hkept.2 i hi hne⟩
      · exact Or.inr ⟨i, saved, hlast, hi⟩

end ZephyrApps.ConnectInfo
