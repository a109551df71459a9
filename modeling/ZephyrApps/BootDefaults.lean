import ZephyrApps.SettingsReboot

/-!
# The peer table across a boot

`main` loads the settings and then, if slot 0 is not configured, stores a built-in peer
there. It takes slot 0 for the whole table: a table whose slot 0 is cleared while another
slot is configured does not come through a boot as it was.
-/
namespace ZephyrApps.BootDefaults
open AppSettings CStrings SettingsStore SettingsReboot KeyedLoads SystemRuns

/-- `DEFAULT_MACHINE_IP` -/
def defaultMachineIp : UInt32 := 0x7F000001
/-- `DEFAULT_MACHINE_PORT` -/
def defaultMachinePort : UInt16 := 8890
/-- `DEFAULT_MACHINE_ID` -/
def defaultMachineId : UInt32 := 0x01020304

/-- What the calls of a boot return: `settings_subsys_init`, `settings_load_subtree` with
its reads and the order of the names, and the save of the fallback peer. -/
structure BootCalls where
  subsys : Int
  loaded : Int
  read : Text → Int
  names : List Text
  saved : Int

/-- The fallback of `main`; `saved` is what `settings_save_one` returns. -/
def fallbackPeer (c : Config) (saved : Int) : Config :=
  match c.ram.peerGet 0 with
  | .error _ => c
  | .ok peer0 =>
    if peer0.configured = false then
      (c.setPeer 0 defaultMachineIp defaultMachinePort defaultMachineId saved).1
    else c

variable (steq : Text → Text → Option (Option Text)) (mac : List UInt8)

/-- `app_settings_init` with what its calls return -/
def bootInit (calls : BootCalls) (flash : Store) : Config × Int :=
  appSettingsInit steq mac calls.subsys calls.loaded calls.read calls.names flash

/-- `main` up to the fallback peer, with what it returns if it stops there. -/
def boot (calls : BootCalls) (flash : Store) : Config × Int :=
  let init := bootInit steq mac calls flash
  if init.2 ≠ 0 then init else (fallbackPeer init.1 calls.saved, 0)

def storedPeer (flash : Store) (i : Slot) : Peer :=
  loaded peerFrom Peer.zero (flash (Item.peer i).key)

/-- All four slots, in RAM and stored, are as flash had them. -/
def Unaltered (flash : Store) (c : Config) : Prop :=
  ∀ i : Slot, c.ram.peers i = storedPeer flash i ∧
    c.flash (Item.peer i).key = flash (Item.peer i).key

/-- The settings subsystem starts, and the fallback is not stored: the load is reported
as failed, slot 0 is configured, or the save fails. -/
def LeavesPeers (calls : BootCalls) (flash : Store) : Prop :=
  calls.subsys = 0 ∧
    (calls.loaded ≠ 0 ∨ (storedPeer flash 0).configured = true ∨ calls.saved ≠ 0)

variable {steq mac} {flash : Store} {calls : BootCalls}

theorem load_peers (hd : Documented steq) (hown : OwnKeys steq flash) {read : Text → Int}
    (hread : ∀ name, 0 ≤ read name) {names : List Text}
    (hvisits : Visits names fun name => flash (keyOf name)) (i : Slot) :
    (loadSubtree steq flash read names (Image.cleared mac)).peers i = storedPeer flash i := by
  have howns : Owns (fun name value img => (pstopSettingsSet steq name value (read name) img).1)
      (Known steq) (Item.peer i).name (fun img : Image => img.peers i) peerFrom :=
    owns_item hd hread fun item value img => itemLoad_peer item value img i
  exact howns.load hvisits hown _

theorem init_ret (calls : BootCalls) (flash : Store) :
    (bootInit steq mac calls flash).2 = if calls.subsys = 0 then calls.loaded else calls.subsys := by
  unfold bootInit appSettingsInit
  by_cases hs : calls.subsys = 0
  · by_cases hl : calls.loaded = 0 <;> simp [hs, hl]
  · simp [hs]

theorem init_flash (calls : BootCalls) (flash : Store) :
    (bootInit steq mac calls flash).1.flash = flash := by
  unfold bootInit appSettingsInit
  by_cases hs : calls.subsys = 0
  · by_cases hl : calls.loaded = 0 <;> simp [hs, hl]
  · simp [hs]

variable (steq mac) in
/-- Init loads the table unless the settings subsystem does not start. -/
theorem init_peers (calls : BootCalls) (flash : Store) :
    (bootInit steq mac calls flash).1.ram.peers =
      if calls.subsys = 0 then
        (loadSubtree steq flash calls.read calls.names (Image.cleared mac)).peers
      else fun _ => Peer.zero := by
  unfold bootInit appSettingsInit
  by_cases hs : calls.subsys = 0
  · by_cases hl : calls.loaded = 0
    · rw [if_neg (not_not_intro hs), if_neg (not_not_intro hl), if_pos hs]
      dsimp only
      split <;> rfl
    · rw [if_neg (not_not_intro hs), if_pos hl, if_pos hs]
  · rw [if_pos hs, if_neg hs]
    rfl

theorem fallback_eq (c : Config) (saved : Int) :
    fallbackPeer c saved =
      if (c.ram.peers 0).configured = false ∧ saved = 0 then
        (c.setPeer 0 defaultMachineIp defaultMachinePort defaultMachineId 0).1
      else c := by
  have hget : c.ram.peerGet 0 = .ok (c.ram.peers 0) := rfl
  rw [fallbackPeer, hget]
  dsimp only
  by_cases hc : (c.ram.peers 0).configured = false
  · by_cases hs : saved = 0
    · rw [if_pos hc, if_pos ⟨hc, hs⟩, hs]
    · rw [if_pos hc, if_neg fun h => hs h.2]
      have hslot : slotOf 0 = some 0 := rfl
      simp [Config.setPeer, Config.storePeer, hslot, hs, settingsSaveOne]
  · rw [if_neg hc, if_neg fun h => hc h.1]

/-- A boot that does not store the fallback leaves what init loaded. -/
theorem boot_init (h : ¬ (calls.subsys = 0 ∧ calls.loaded = 0 ∧
    ((bootInit steq mac calls flash).1.ram.peers 0).configured = false ∧ calls.saved = 0)) :
    (boot steq mac calls flash).1 = (bootInit steq mac calls flash).1 := by
  unfold boot
  dsimp only
  rw [init_ret]
  by_cases hs : calls.subsys = 0
  · by_cases hl : calls.loaded = 0
    · rw [if_pos hs, if_neg (not_not_intro hl), fallback_eq, if_neg fun hc => h ⟨hs, hl, hc⟩]
    · rw [if_pos hs, if_pos hl]
  · rw [if_neg hs, if_pos hs]

/-- The fallback is stored over a slot 0 that is not configured. -/
theorem boot_fallback (hs : calls.subsys = 0) (hl : calls.loaded = 0) (hw : calls.saved = 0)
    (hc : ((bootInit steq mac calls flash).1.ram.peers 0).configured = false) :
    (((boot steq mac calls flash).1.ram.peers 0)).configured = true := by
  unfold boot
  dsimp only
  rw [init_ret, if_pos hs, if_neg (not_not_intro hl), fallback_eq, if_pos ⟨hc, hw⟩]
  rfl

theorem boot_unaltered_iff (hd : Documented steq) (hown : OwnKeys steq flash)
    (hread : ∀ name, 0 ≤ calls.read name)
    (hvisits : Visits calls.names fun name => flash (keyOf name))
    (hconf : ∃ i, (storedPeer flash i).configured = true) :
    Unaltered flash (boot steq mac calls flash).1 ↔ LeavesPeers calls flash := by
  have hpeers := init_peers steq mac calls flash
  by_cases hs : calls.subsys = 0
  · rw [if_pos hs] at hpeers
    have hload (i : Slot) : (bootInit steq mac calls flash).1.ram.peers i = storedPeer flash i := by
      rw [hpeers]
      exact load_peers hd hown hread hvisits i
    by_cases hkeep : calls.loaded ≠ 0 ∨ (storedPeer flash 0).configured = true ∨ calls.saved ≠ 0
    · have hinit : (boot steq mac calls flash).1 = (bootInit steq mac calls flash).1 := by
        refine boot_init fun h => ?_
        obtain ⟨-, hl, hc, hw⟩ := h
        rw [hload] at hc
        rcases hkeep with h | h | h
        · exact h hl
        · rw [hc] at h
          cases h
        · exact h hw
      rw [hinit]
      refine ⟨fun _ => ⟨hs, hkeep⟩, fun _ i => ⟨hload i, ?_⟩⟩
      rw [init_flash]
    · refine ⟨fun h => ?_, fun h => absurd h.2 hkeep⟩
      rw [not_or, not_or, not_not, not_not, Bool.not_eq_true] at hkeep
      obtain ⟨hl, hc', hw⟩ := hkeep
      rw [← hload] at hc'
      have hb := boot_fallback hs hl hw hc'
      rw [(h 0).1, ← hload, hc'] at hb
      cases hb
  · refine ⟨fun h => ?_, fun h => absurd h.1 hs⟩
    obtain ⟨i, hi⟩ := hconf
    have hinit : (boot steq mac calls flash).1 = (bootInit steq mac calls flash).1 :=
      boot_init fun h => hs h.1
    rw [if_neg hs] at hpeers
    rw [← (h i).1, hinit, hpeers] at hi
    cases hi

/-- RAM shows the stored table after any calls of the setters. -/
theorem run_peers (hd : Documented steq) (hown : OwnKeys steq flash) {names : List Text}
    {read : Text → Int} (hread : ∀ name, 0 ≤ read name)
    (hvisits : Visits names fun name => flash (keyOf name)) (setters : List Setter) (i : Slot) :
    let c := run Setter.apply (booted steq mac read names flash) setters
    c.ram.peers i = storedPeer c.flash i := by
  have hnets : ∀ call ∈ setters, call.Nets fun net => (() : Unit) = () := by
    intro call _
    cases call <;> first | trivial | exact fun _ => rfl
  have h : Reflects steq (fun _ => ()) mac
      (run Setter.apply (booted steq mac read names flash) setters) :=
    reflects_run hd hown hread hvisits hnets
  exact h.peer i

/-- A boot leaves a table in which some slot is configured as it was, in RAM and stored,
if and only if it does not store the fallback. Before the boot RAM shows the stored
table, whatever the setters did since the boot before. -/
theorem boot_keeps_peers_iff (hd : Documented steq) (mac : List UInt8)
    (hown : OwnKeys steq flash) (hread : ∀ name, 0 ≤ calls.read name)
    (hvisits : Visits calls.names fun name => flash (keyOf name))
    (hconf : ∃ i, (storedPeer flash i).configured = true) :
    (Unaltered flash (boot steq mac calls flash).1 ↔ LeavesPeers calls flash) ∧
      ∀ (start : Store) (names : List Text) (read : Text → Int) (setters : List Setter),
        OwnKeys steq start → (∀ name, 0 ≤ read name) →
        Visits names (fun name => start (keyOf name)) →
        let c := run Setter.apply (booted steq mac read names start) setters
        c.flash = flash → ∀ i, c.ram.peers i = storedPeer flash i := by
  refine ⟨boot_unaltered_iff hd hown hread hvisits hconf, ?_⟩
  intro start names read setters hstart hread' hvisits' c hc i
  rw [← hc]
  exact run_peers hd hstart hread' hvisits' setters i

/-- A stored slot 0 that is configured comes through. -/
theorem boot_keeps_peers_configured :
    let peer : Peer := ⟨0x0A000001, 8890, 7, true⟩
    let flash := Function.update (fun _ => none) (Item.peer 0).key (some (peerBytes peer))
    Unaltered flash (boot nameSteq [1, 2, 3] ⟨0, 0, fun _ => 0, [text "peers/0"], 0⟩ flash).1 := by
  intro peer flash
  have hempty : OwnKeys nameSteq fun _ => none := fun _ h => absurd h Bool.false_ne_true
  have hown : OwnKeys nameSteq flash := saved_own hempty (.peer 0) (peerBytes peer)
  have hvisits : Visits [text "peers/0"] fun name => flash (keyOf name) :=
    visits_saved (.peer 0) visits_empty (by decide) _
  have hstored : (storedPeer flash 0).configured = true := by rfl
  exact (boot_keeps_peers_iff (fun _ _ _ => rfl) [1, 2, 3] hown (fun _ => le_refl 0) hvisits
    ⟨0, hstored⟩).1.mpr ⟨rfl, Or.inr (Or.inl hstored)⟩

/-- Slots 0 and 1 are set and slot 0 is cleared; the next boot configures slot 0 again. -/
theorem boot_restores_cleared_slot :
    let c := run Setter.apply (booted nameSteq [1, 2, 3] (fun _ => 0) [] fun _ => none)
      [.setPeer 0 0x0A000001 8890 7 0, .setPeer 1 0x0A000002 8890 8 0, .clearPeer 0 0]
    let b := (boot nameSteq [1, 2, 3]
      ⟨0, 0, fun _ => 0, [text "peers/0", text "peers/1"], 0⟩ c.flash).1
    (storedPeer c.flash 1).configured = true ∧ c.ram.peers 0 = Peer.zero ∧
      b.ram.peers 0 = ⟨0x7F000001, 8890, 0x01020304, true⟩ ∧
      b.flash (Item.peer 0).key = some (peerBytes ⟨0x7F000001, 8890, 0x01020304, true⟩) ∧
      ¬ Unaltered c.flash b := by
  intro c b
  have hb : b.ram.peers 0 = ⟨0x7F000001, 8890, 0x01020304, true⟩ := by rfl
  have hs : storedPeer c.flash 0 = Peer.zero := by rfl
  refine ⟨rfl, rfl, hb, rfl, fun h => ?_⟩
  have h0 := (h 0).1
  rw [hb, hs] at h0
  cases h0

end ZephyrApps.BootDefaults
