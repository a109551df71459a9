import ZephyrApps.AdminHandlers

/-!
# The admin gate

Every admin handler asks `admin_ok` before it parses or touches anything. Without the
credentials of the admin user it answers what the password's presence and the buffer
determine, whatever the state, and leaves the state as it was.
-/
namespace ZephyrApps.AdminGate
open CStrings HttpUtil ApiReplies AdminHandlers

/-- A password is configured, and the header carries `admin` and it. -/
def Authorized (fw : Firmware) (auth : Option Text) : Prop :=
  fw.password ≠ [] ∧ ∃ rest, auth = some (text "Basic " ++ rest) ∧
    fw.base64Decode 127 rest = some (credentials pstopApiAdminUser fw.password)

def denied (password : Text) (cap : ℕ) : Response :=
  if password = [] then reply cap 403 (errorBody "admin disabled: no password configured")
  else { reply cap 401 (errorBody "unauthorized") with authChallenge := true }

/-- The gate is open exactly to the admin user. -/
theorem adminOk_eq (fw : Firmware) (auth : Option Text) (cap : ℕ) [Decidable (Authorized fw auth)] :
    adminOk fw auth cap = if Authorized fw auth then none else some (denied fw.password cap) := by
  rw [adminOk, denied]
  by_cases hp : fw.password = []
  · rw [if_pos hp, if_pos hp, if_neg fun h => h.1 hp]
  · have hiff : httpBasicAuthOk fw.base64Decode auth pstopApiAdminUser fw.password = true ↔
        Authorized fw auth := httpBasicAuthOk_iff
    rw [if_neg hp, if_neg hp]
    exact if_congr hiff rfl rfl

theorem adminOk_denied {fw : Firmware} {auth : Option Text} (h : ¬ Authorized fw auth) (cap : ℕ) :
    adminOk fw auth cap = some (denied fw.password cap) := by
  classical
  rw [adminOk_eq, if_neg h]

theorem denied_status (password : Text) {cap : ℕ} (h : 64 ≤ cap) :
    (denied password cap).status = (if password = [] then 403 else 401) ∧
      (denied password cap).authChallenge = decide (password ≠ []) ∧
      (denied password cap).restart = false := by
  have hdisabled : (errorBody "admin disabled: no password configured").length < 64 := by decide
  have hunauth : (errorBody "unauthorized").length < 64 := by decide
  rw [denied]
  by_cases hp : password = []
  · rw [if_pos hp, if_pos hp, reply_fits _ (hdisabled.trans_le h)]
    simp [Response.init, hp]
  · rw [if_neg hp, if_neg hp, reply_fits _ (hunauth.trans_le h)]
    simp [Response.init, hp]

theorem serve_denied {fw : Firmware} {auth : Option Text} (h : ¬ Authorized fw auth) (cap : ℕ)
    (d : Remote) (call : AdminCall) :
    serve fw auth cap d call = (d, ⟨denied fw.password cap, 0⟩) := by
  have hgate := adminOk_denied h cap
  cases call with
  | role post url saved => rw [serve, pstopApiRole, hgate]; rfl
  | healthReset url calls => rw [serve, pstopApiHealthReset, hgate]; rfl
  | coredump => rw [serve, pstopApiCoredump, hgate]; rfl
  | page => rw [serve, pstopApiAdminPage, hgate]; rfl
  | status uptime => rw [serve, pstopApiAdminStatus, hgate]; rfl
  | restart => rw [serve, pstopApiAdminRestart, hgate]; rfl
  | settings post body savedRing savedId => rw [serve, pstopApiAdminSettings, hgate]; rfl
  | wifi post body saved => rw [serve, pstopApiAdminWifi, hgate]; rfl
  | verbose toggle => rw [serve, pstopApiAdminVerbose, hgate]; rfl

/-- Without credentials no handler changes the state, and all answer the same, in any
two states: 403 if no password is configured, else 401 with the challenge. -/
theorem admin_gate {fw : Firmware} {auth : Option Text} (h : ¬ Authorized fw auth) (cap : ℕ)
    (d d' : Remote) (call call' : AdminCall) :
    (serve fw auth cap d call).1 = d ∧
      (serve fw auth cap d call).2 = (serve fw auth cap d' call').2 ∧
      (serve fw auth cap d call).2 = ⟨denied fw.password cap, 0⟩ ∧
      (64 ≤ cap → (denied fw.password cap).status = (if fw.password = [] then 403 else 401) ∧
        (denied fw.password cap).authChallenge = decide (fw.password ≠ []) ∧
        (denied fw.password cap).restart = false) := by
  rw [serve_denied h, serve_denied h]
  exact ⟨rfl, rfl, rfl, denied_status fw.password⟩

def wrongCredentials : Text := text "YWRtaW46d3Jvbmc="

/-- A firmware with a password, whose JSON parser takes nothing. -/
def lockedFirmware : Firmware where
  password := text "secret"
  base64Decode _ s := if s = wrongCredentials then some (text "admin:wrong") else none
  settingsJson _ := ⟨-22, 0, 0⟩
  wifiJson _ := ⟨-22, [], Nat.zero_le _⟩
  roleStr op := if op then text "operator" else text "stop_only"
  fwVer := text "1.0.0"
  fwSha := []
  health := ⟨text "1.0.0 ", 100000, 80, 50, 20⟩
  verboseBuilt := true
  coredumpBuilt := true
  wifiBuilt := true

def blankRemote : Remote where
  config := ⟨SettingsStore.Image.cleared [1, 2, 3], fun _ => none⟩
  rebondRequests _ := false
  reconfigureRequests _ := false
  health := ⟨.zero, .zero, false, 0, 0, 0, 0, 0, 0⟩
  verbose := false
  wifiReload := false
  wifiActiveIdx := -1
  slotActive _ := false
  hasStoredDump := 1
  storedDumpSize := 4096

/-- A restart and a toggle with a wrong password get the same answer. -/
theorem admin_gate_wrong :
    let auth := some (text "Basic " ++ wrongCredentials)
    (serve lockedFirmware auth 2048 blankRemote .restart).2 =
        (serve lockedFirmware auth 2048 blankRemote (.verbose true)).2 ∧
      (serve lockedFirmware auth 2048 blankRemote (.verbose true)).1 = blankRemote ∧
      (serve lockedFirmware auth 2048 blankRemote .restart).2.response.status = 401 := by
  intro auth
  have h : ¬ Authorized lockedFirmware auth := by
    rintro ⟨-, rest, he, hdec⟩
    obtain rfl : wrongCredentials = rest := List.append_cancel_left (Option.some.inj he)
    exact absurd hdec (by decide)
  obtain ⟨-, hsame, hanswer, hstatus⟩ := admin_gate h 2048 blankRemote blankRemote .restart
    (.verbose true)
  refine ⟨hsame, (admin_gate h 2048 blankRemote blankRemote (.verbose true) .restart).1, ?_⟩
  rw [hanswer, (hstatus (by decide)).1]
  rfl

end ZephyrApps.AdminGate
