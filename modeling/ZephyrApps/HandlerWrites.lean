import ZephyrApps.AdminHandlers

/-!
# What the handlers write

The comparator sees of a handler a sequence of single writes: this is what the runs of
the lockstep take the HTTP thread to be.
-/
namespace ZephyrApps.HandlerWrites
open AppSettings CStrings SettingsStore ControlPlane PeerTableRoute AdminHandlers

theorem setOperator_settings (c : Config) (op : Bool) (saved : Int) :
    (c.setOperator op saved).1.ram.toSettings = (c.ram.toSettings.setOperator op saved).1 := by
  by_cases hs : saved = 0 <;> simp [Config.setOperator, Settings.setOperator, hs]

theorem setDeviceId_settings (c : Config) (id : UInt32) (saved : Int) :
    (c.setDeviceId id saved).1.ram.toSettings = (c.ram.toSettings.setDeviceId id saved).1 := by
  by_cases hs : saved = 0 <;> simp [Config.setDeviceId, Settings.setDeviceId, hs]

theorem setRingOffset_settings (c : Config) (offset : UInt8) (saved : Int) :
    (c.setRingOffset offset saved).1.ram.toSettings = c.ram.toSettings := by
  by_cases ho : 16 ≤ offset
  · simp [Config.setRingOffset, ho]
  · by_cases hs : saved = 0 <;> simp [Config.setRingOffset, ho, hs]

theorem wifiLoop_settings (nets : WifiIdx → WifiNet) (saved : WifiIdx → Int) (rest : List WifiIdx)
    (c : Config) : (wifiLoop nets saved rest c).1.ram.toSettings = c.ram.toSettings := by
  induction rest generalizing c with
  | nil => rfl
  | cons i rest ih =>
    rw [wifiLoop]
    by_cases hs : saved i = 0
    · simp only [hs, ne_eq, not_true, if_false]
      exact ih _
    · simp only [ne_eq, hs, not_false_eq_true, if_true]

def Writes (allowed : HttpStep → Prop) (d d' : Control) : Prop :=
  ∃ steps : List HttpStep, (∀ step ∈ steps, allowed step) ∧ d'.shared = d.shared.after steps

variable {allowed : HttpStep → Prop} {d d' d'' : Control}

/-- New settings are what the comparator sees of a new configuration. -/
theorem shared_withConfig (d : Control) {c : Config} {settings : Settings}
    (h : c.ram.toSettings = settings) : ({ d with config := c } : Control).shared =
      ⟨settings, d.rebondRequests, d.reconfigureRequests⟩ := by
  rw [Control.shared, h]

theorem Writes.none (h : d'.shared = d.shared) : Writes allowed d d' := ⟨[], by simp, h⟩

theorem Writes.one (step : HttpStep) (hstep : allowed step)
    (h : d'.shared = step.apply d.shared) : Writes allowed d d' := ⟨[step], by simpa using hstep, h⟩

theorem Writes.trans (h : Writes allowed d d') (h' : Writes allowed d' d'') :
    Writes allowed d d'' := by
  obtain ⟨steps, hall, h⟩ := h
  obtain ⟨steps', hall', h'⟩ := h'
  refine ⟨steps ++ steps', ?_, ?_⟩
  · intro step hstep
    rcases List.mem_append.mp hstep with hstep | hstep
    · exact hall step hstep
    · exact hall' step hstep
  · rw [h', h, Shared.after, Shared.after, Shared.after, List.foldl_append]

theorem requestReconfigure_writes (d : Control) (slot : Int)
    (h : allowed (.requestReconfigure slot)) : Writes allowed d (d.requestReconfigure slot).1 := by
  refine Writes.one (.requestReconfigure slot) h ?_
  simp only [Control.requestReconfigure, Control.shared, HttpStep.apply, Shared.requestReconfigure]
  cases slotOf slot <;> rfl

theorem requestAll_writes (d : Control) (h : ∀ slot, allowed (.requestReconfigure slot)) :
    Writes allowed d (requestAll d) := by
  have hloop (slots : List Slot) (d : Control) : Writes allowed d
      (slots.foldl (fun d slot => (d.requestReconfigure (slot : ℕ)).1) d) := by
    induction slots generalizing d with
    | nil => exact .none rfl
    | cons slot slots ih => exact (requestReconfigure_writes d _ (h _)).trans (ih _)
  exact hloop _ d

def MayWrite : AdminCall → HttpStep → Prop
  | .role _ _ _, .setOperator _ _ => True
  | .settings _ _ _ _, .setDeviceId _ _ => True
  | .settings _ _ _ _, .requestReconfigure _ => True
  | _, _ => False

variable (fw : Firmware) (auth : Option Text) (cap : ℕ) (d : Remote)

theorem role_writes (post : Bool) (url : Text) (saved : Int) :
    Writes (MayWrite (.role post url saved)) d.toControl
      (pstopApiRole fw auth cap d post url saved).1.toControl := by
  rw [pstopApiRole]
  cases adminOk fw auth cap with
  | some denied => exact .none rfl
  | none =>
    cases post with
    | false => exact .none rfl
    | true =>
      simp only [if_true]
      cases HttpUtil.httpQueryGet url (text "role") 16 with
      | error e => exact .none rfl
      | ok val =>
        have hset (op : Bool) : Writes (MayWrite (.role true url saved)) d.toControl
            { d.toControl with config := (d.config.setOperator op saved).1 } :=
          Writes.one (.setOperator op saved) trivial
            (shared_withConfig _ (setOperator_settings _ _ _))
        by_cases hv : val = text "operator" ∨ val = text "stop_only"
        · simp only [if_pos hv]
          by_cases hs : (d.config.setOperator (decide (val = text "operator")) saved).2 ≠ 0
          · rw [if_pos hs]
            exact hset _
          · rw [if_neg hs]
            exact hset _
        · simp only [if_neg hv]
          exact .none rfl

theorem settings_writes (post : Bool) (body : Text) (savedRing savedId : Int) :
    Writes (MayWrite (.settings post body savedRing savedId)) d.toControl
      (pstopApiAdminSettings fw auth cap d post body savedRing savedId).1.toControl := by
  rw [pstopApiAdminSettings]
  cases adminOk fw auth cap with
  | some denied => exact .none rfl
  | none =>
    cases post with
    | false => exact .none rfl
    | true =>
      generalize fw.settingsJson body = json
      by_cases hf : json.fields ≤ 0
      · simp only [if_true, if_pos hf]
        exact .none rfl
      by_cases hr : hasField json.fields 0 ∧ 15 < json.ringOffset
      · simp only [if_true, if_neg hf, if_pos hr]
        exact .none rfl
      simp only [if_true, if_neg hf, if_neg hr]
      -- the ring offset is none of the comparator's business
      have hring : (if hasField json.fields 0 then
          d.config.setRingOffset json.ringOffset.toUInt8 savedRing else (d.config, 0)).1.ram.toSettings
            = d.config.ram.toSettings := by
        split
        · exact setRingOffset_settings _ _ _
        · rfl
      generalize (if hasField json.fields 0 then
          d.config.setRingOffset json.ringOffset.toUInt8 savedRing else (d.config, 0)) = ring at *
      have hone : Writes (MayWrite (.settings true body savedRing savedId)) d.toControl
          { d.toControl with config := ring.1 } :=
        .none (shared_withConfig _ hring)
      by_cases hret : ring.2 ≠ 0
      · simp only [if_pos hret]
        exact hone
      simp only [if_neg hret]
      by_cases hid : hasField json.fields 1 = true
      · simp only [if_pos hid]
        have htwo : Writes (MayWrite (.settings true body savedRing savedId)) d.toControl
            { d.toControl with config := (ring.1.setDeviceId json.deviceId savedId).1 } :=
          hone.trans (Writes.one (.setDeviceId json.deviceId savedId) trivial
            (shared_withConfig _ (setDeviceId_settings _ _ _)))
        by_cases hs : (ring.1.setDeviceId json.deviceId savedId).2 ≠ 0
        · simp only [if_pos hs]
          exact htwo
        · simp only [if_neg hs]
          exact htwo.trans (requestAll_writes _ fun _ => trivial)
      · simp only [if_neg hid]
        exact hone

theorem wifi_shared (post : Bool) (body : Text) (saved : WifiIdx → Int) :
    (pstopApiAdminWifi fw auth cap d post body saved).1.toControl.shared = d.toControl.shared := by
  rw [pstopApiAdminWifi]
  cases adminOk fw auth cap with
  | some denied => rfl
  | none =>
    cases post with
    | false => rfl
    | true =>
      generalize fw.wifiJson body = json
      by_cases hf : json.fields ≠ 1
      · simp only [if_true, if_pos hf]
      simp only [if_true, if_neg hf]
      cases wifiFromJson d.config.ram json with
      | error err => rfl
      | ok nets =>
        have hset : (d.config.wifiSetAll nets saved).1.ram.toSettings = d.config.ram.toSettings :=
          wifiLoop_settings nets saved _ _
        have hshared : ({ d.toControl with config := (d.config.wifiSetAll nets saved).1 } :
            Control).shared = d.toControl.shared :=
          shared_withConfig _ hset
        by_cases hs : (d.config.wifiSetAll nets saved).2 ≠ 0
        · simp only [if_pos hs]
          exact hshared
        · simp only [if_neg hs]
          exact hshared

theorem healthReset_shared (url : Text) (calls : HealthCounters.ResetCalls) :
    (pstopApiHealthReset fw auth cap d url calls).1.toControl.shared = d.toControl.shared := by
  rw [pstopApiHealthReset]
  cases adminOk fw auth cap with
  | some denied => rfl
  | none =>
    cases HttpUtil.httpQueryFlag url (text "confirm") with
    | false => rfl
    | true =>
      simp only [Bool.not_true, Bool.false_eq_true, if_false]
      by_cases hw : whatParam url = text "button" ∨ whatParam url = text "all"
      · simp only [if_pos hw]
        rfl
      · simp only [if_neg hw]

theorem serve_writes (call : AdminCall) :
    Writes (MayWrite call) d.toControl (serve fw auth cap d call).1.toControl := by
  cases call with
  | role post url saved => exact role_writes fw auth cap d post url saved
  | healthReset url calls => exact .none (healthReset_shared fw auth cap d url calls)
  | coredump =>
    refine .none ?_
    rw [serve, pstopApiCoredump]
    cases adminOk fw auth cap with
    | some denied => rfl
    | none => by_cases hsize : crashSize fw d = 0 <;> simp [hsize]
  | page =>
    refine .none ?_
    rw [serve, pstopApiAdminPage]
    cases adminOk fw auth cap <;> rfl
  | status uptime =>
    refine .none ?_
    rw [serve, pstopApiAdminStatus]
    cases adminOk fw auth cap <;> rfl
  | restart =>
    refine .none ?_
    rw [serve, pstopApiAdminRestart]
    cases adminOk fw auth cap <;> rfl
  | settings post body savedRing savedId =>
    exact settings_writes fw auth cap d post body savedRing savedId
  | wifi post body saved => exact .none (wifi_shared fw auth cap d post body saved)
  | verbose toggle =>
    refine .none ?_
    rw [serve, pstopApiAdminVerbose]
    cases adminOk fw auth cap with
    | some denied => rfl
    | none => cases toggle <;> cases hv : fw.verboseBuilt <;> cases hd : d.verbose <;>
        simp [verboseSet, hv, hd, enotsup]

end ZephyrApps.HandlerWrites
