import ZephyrApps.ApiState
import ZephyrApps.LockstepDevice
import ZephyrApps.ReplyBuffers

/-!
# The bodies of the handlers

Every handler of `api.c` with what it prints as data, in place of a response for one capacity. The
handlers of the other modules are these at a capacity; on a buffer they leave the whole body or an
error.
-/
namespace ZephyrApps.ApiBodies
open AppSettings CStrings HttpUtil SettingsStore HealthCounters
open ApiReplies PeerTableRoute AdminHandlers RemoteApi ReplyBuffers ApiState

section Lists

variable {ι : Type}

/-- The appends of a loop that prints some of its items, with a comma before all but the first. -/
def listed (item : ι → Option Text) : Bool → List ι → List Text
  | _, [] => []
  | first, i :: is =>
    match item i with
    | none => listed item first is
    | some s => ((if first then [] else text ",") ++ s) :: listed item false is

theorem foldl_listed {loop : Out × Bool → ι → Out × Bool} {item : ι → Option Text}
    (hloop : ∀ of i, loop of i = match item i with
      | none => of
      | some s => (of.1.printf ((if of.2 then [] else text ",") ++ s), false))
    (is : List ι) (o : Out) (first : Bool) :
    (is.foldl loop (o, first)).1 = (listed item first is).foldl Out.printf o := by
  induction is generalizing o first with
  | nil => rfl
  | cons i is ih =>
    rw [List.foldl_cons, hloop, listed]
    cases item i with
    | none => exact ih o first
    | some s => exact ih _ false

end Lists

/-- The body of a `set_slot` that failed. -/
def setSlotErrorBody (ret : Int) (err : String) : Formatted :=
  .reply (if ret = einval then 400 else 500) (errorBody err)

/-- `pstop_api_pstop_peer` -/
def peerBody (d : Control) (url : Text) (saved : Int) : Control × Formatted :=
  if httpQueryFlag url (text "clear") then
    let (d, ret) := clearSlot d 0 saved
    (d, .reply (if ret = 0 then 200 else 500) (cleared0Body (decide (ret = 0))))
  else
    match setSlot d 0 url saved with
    | (d, .error (ret, err)) => (d, setSlotErrorBody ret err)
    | (d, .ok (ip, port, _)) => (d, .reply 200 (set0Body ip port))

/-- `pstop_api_pstop_peers` -/
def peersBody (d : Control) (url : Text) (saved : Int) : Control × Formatted :=
  match param url "slot" 8 httpParseU32 with
  | .error _ => (d, .reply 400 (errorBody "missing slot"))
  | .ok slot =>
    if pstopMaxMachines ≤ slot then (d, .reply 400 (errorBody "slot out of range"))
    else if httpQueryFlag url (text "rebond") then
      ((d.requestRebond slot.toNat).1, .reply 200 (rebondBody slot))
    else if httpQueryFlag url (text "clear") then
      let (d, ret) := clearSlot d slot.toNat saved
      (d, .reply (if ret = 0 then 200 else 500) (clearedBody (decide (ret = 0)) slot))
    else
      match setSlot d slot.toNat url saved with
      | (d, .error (ret, err)) => (d, setSlotErrorBody ret err)
      | (d, .ok (ip, port, id)) => (d, .reply 200 (setBody slot ip port id))

/-- `pstop_api_ring_offset` -/
def ringOffsetBody (d : Remote) (url : Text) (saved : Int) : Remote × Formatted :=
  match param url "n" 8 httpParseU32 with
  | .error _ => (d, .reply 400 (errorBody "n must be 0..15"))
  | .ok n =>
    if 15 < n then (d, .reply 400 (errorBody "n must be 0..15"))
    else
      let (config, ret) := d.config.setRingOffset n.toUInt8 saved
      let d := { d with config }
      if ret ≠ 0 then (d, .reply 500 (errorBody "settings write failed"))
      else
        (d, .reply 200 (text "\x7b\"ok\":true,\"ring_offset\":" ++ dec n.toNat ++ text "\x7d"))

/-- `pstop_api_ring_led1` -/
def ringLed1Body (w : World) (url : Text) : World × Formatted :=
  match httpQueryGet url (text "on") 4 with
  | .error _ => (w, .reply 400 (errorBody "on must be 0 or 1"))
  | .ok val =>
    if val = text "0" ∨ val = text "1" then
      let on := decide (val = text "1")
      ({ w with locateUntilMs := if on then w.calls.now + ringLocateTimeoutMs else 0 },
        .reply 200 (text "\x7b\"ok\":true,\"ring_led1\":" ++ dec on.toNat ++
          text ",\"ring_offset\":" ++ dec w.config.ram.ringOffset.toNat ++ text "\x7d"))
    else (w, .reply 400 (errorBody "on must be 0 or 1"))

/-- `pstop_api_health` -/
def healthBody (fw : Firmware) (w : World) : World × Formatted :=
  let s := w.health.foldLocked w.calls.folded
  ({ w with health := s },
    .printed 200 (countersItem fw s w.calls.aged ::
      listed (fun warning => some (warningItem w.calls.now warning)) true s.board.warnings ++
      [text "],\"dropped\":" ++ dec s.board.dropped.toNat ++ text "\x7d"]))

section Admin

variable (fw : Firmware) (auth : Option Text) (d : Remote)

/-- `admin_ok`: the body that refuses, or none. -/
def adminOkBody : Option Formatted :=
  if fw.password = [] then
    some (.reply 403 (errorBody "admin disabled: no password configured"))
  else if httpBasicAuthOk fw.base64Decode auth pstopApiAdminUser fw.password then none
  else some { Formatted.reply 401 (errorBody "unauthorized") with authChallenge := true }

/-- What a handler does behind `admin_ok`. -/
def gated (r : Remote × Formatted) : Remote × Formatted :=
  match adminOkBody fw auth with
  | some denied => (d, denied)
  | none => r

/-- `pstop_api_role` -/
def roleBody (post : Bool) (url : Text) (saved : Int) : Remote × Formatted :=
  gated fw auth d <|
    if post then
      match httpQueryGet url (text "role") 16 with
      | .error _ => (d, .reply 400 (errorBody "missing role"))
      | .ok val =>
        if val = text "operator" ∨ val = text "stop_only" then
          let (config, ret) := d.config.setOperator (decide (val = text "operator")) saved
          let d := { d with config }
          if ret ≠ 0 then (d, .reply 500 (errorBody "settings write failed"))
          else
            (d, .reply 200 (text "\x7b\"ok\":true,\"role\":\"" ++ roleText fw d ++
              text "\",\"applied\":true\x7d"))
        else (d, .reply 400 (errorBody "role must be stop_only or operator"))
    else (d, .reply 200 (text "\x7b\"ok\":true,\"role\":\"" ++ roleText fw d ++ text "\"\x7d"))

/-- `pstop_api_admin_status` -/
def statusBody (uptime : UInt64) : Remote × Formatted :=
  gated fw auth d <|
    let active := (List.finRange 4).countP fun slot => d.slotActive slot
    (d, .reply 200 (text "\x7b\"ok\":true,\"fw_ver\":\"" ++ fw.fwVer ++ text "\",\"fw_sha\":\"" ++
      fw.fwSha ++ text "\",\"uptime_ms\":" ++ dec uptime.toNat ++ text ",\"device_id\":" ++
      dec d.config.ram.effectiveDeviceId.toNat ++ text ",\"role\":\"" ++ roleText fw d ++
      text "\",\"sessions\":" ++ dec active ++ text "\x7d"))

/-- `pstop_api_admin_restart` -/
def restartBody : Remote × Formatted :=
  gated fw auth d
    (d, { Formatted.reply 200 (text "\x7b\"ok\":true,\"message\":\"rebooting in 500 ms\"\x7d") with
      restart := true })

/-- `pstop_api_coredump` -/
def coredumpBody : Remote × Formatted :=
  gated fw auth d <|
    if crashSize fw d = 0 then (d, .reply 404 (errorBody "no coredump")) else (d, .bare 200)

/-- `pstop_api_admin_page` -/
def pageBody : Remote × Formatted := gated fw auth d (d, .bare 200)

/-- `pstop_api_health_reset` -/
def healthResetBody (url : Text) (calls : ResetCalls) : Remote × Formatted :=
  gated fw auth d <|
    if !httpQueryFlag url (text "confirm") then (d, .reply 400 (errorBody "confirm=1 required"))
    else
      let what := whatParam url
      if what = text "button" ∨ what = text "all" then
        let (health, flash, ret) :=
          if what = text "button" then d.health.resetButton fw.health d.config.flash calls
          else d.health.resetAll fw.health d.config.flash calls
        ({ d with health, config := { d.config with flash } },
          .reply (if ret = 0 then 200 else 500)
            (text "\x7b\"ok\":" ++ boolText (decide (ret = 0)) ++ text ",\"reset\":\"" ++ what ++
              text "\"\x7d"))
      else (d, .reply 400 (errorBody "what must be button or all"))

def settingsBody (d : Remote) : Remote × Formatted :=
  (d, .reply 200 (text "\x7b\"ok\":true,\"ring_offset\":" ++
    dec d.config.ram.ringOffset.toNat ++ text ",\"device_id\":" ++
    dec d.config.ram.effectiveDeviceId.toNat ++ text ",\"device_id_pinned\":" ++
    boolText (decide (d.config.ram.deviceId ≠ 0)) ++ text "\x7d"))

/-- `pstop_api_admin_settings` -/
def adminSettingsBody (post : Bool) (body : Text) (savedRing savedId : Int) : Remote × Formatted :=
  gated fw auth d <|
    let writeFailed := Formatted.reply 500 (errorBody "settings write failed")
    if post then
      let json := fw.settingsJson body
      if json.fields ≤ 0 then
        (d, .reply 400 (errorBody "expected a JSON object with ring_offset and/or device_id"))
      else if hasField json.fields 0 ∧ 15 < json.ringOffset then
        (d, .reply 400 (errorBody "ring_offset must be 0..15"))
      else
        let (config, ret) :=
          if hasField json.fields 0 then d.config.setRingOffset json.ringOffset.toUInt8 savedRing
          else (d.config, 0)
        let d := { d with config }
        if ret ≠ 0 then (d, writeFailed)
        else if hasField json.fields 1 then
          let (config, ret) := d.config.setDeviceId json.deviceId savedId
          let d := { d with config }
          if ret ≠ 0 then (d, writeFailed)
          else settingsBody { d with toControl := requestAll d.toControl }
        else settingsBody d
    else settingsBody d

/-- A network of the list; an entry without a name is left out. -/
def wifiItem (net : WifiNet) : Option Text :=
  if cstr net.ssid = [] then none
  else
    some (text "\x7b\"ssid\":\"" ++ cstr net.ssid ++ text "\",\"pass\":\"" ++
      (if cstr net.pass = [] then [] else wifiMask) ++ text "\"\x7d")

def wifiListBody : Formatted :=
  .printed 200 (text "\x7b\"ok\":true,\"networks\":[" ::
    listed (fun i => wifiItem (d.config.ram.wifi i)) true (List.finRange 4) ++
    [text "],\"active_idx\":" ++ int (wifiActive fw d) ++ text "\x7d"])

/-- `pstop_api_admin_wifi` -/
def adminWifiBody (post : Bool) (body : Text) (saved : WifiIdx → Int) : Remote × Formatted :=
  gated fw auth d <|
    if post then
      let json := fw.wifiJson body
      if json.fields ≠ 1 then (d, .reply 400 (errorBody wifiExpected))
      else
        match wifiFromJson d.config.ram json with
        | .error err => (d, .reply 400 (errorBody err))
        | .ok nets =>
          let (config, ret) := d.config.wifiSetAll nets saved
          let d := { d with config }
          if ret ≠ 0 then (d, .reply 500 (errorBody "settings write failed"))
          else (wifiReloaded fw d, wifiListBody fw (wifiReloaded fw d))
    else (d, wifiListBody fw d)

/-- `pstop_api_admin_verbose` -/
def adminVerboseBody (toggle : Bool) : Remote × Formatted :=
  gated fw auth d <|
    if toggle then
      let (d, ret) := verboseSet fw d (!d.verbose)
      if ret ≠ 0 then (d, .reply 501 (errorBody "verbose logging not built in"))
      else
        (d, .reply 200 (text "\x7b\"ok\":true,\"verbose\":" ++ boolText d.verbose ++ text "\x7d"))
    else (d, .reply 200 (text "\x7b\"verbose\":" ++ boolText d.verbose ++ text "\x7d"))

def adminBody : AdminCall → Remote × Formatted
  | .role post url saved => roleBody fw auth d post url saved
  | .healthReset url calls => healthResetBody fw auth d url calls
  | .coredump => coredumpBody fw auth d
  | .page => pageBody fw auth d
  | .status uptime => statusBody fw auth d uptime
  | .restart => restartBody fw auth d
  | .settings post body savedRing savedId => adminSettingsBody fw auth d post body savedRing savedId
  | .wifi post body saved => adminWifiBody fw auth d post body saved
  | .verbose toggle => adminVerboseBody fw auth d toggle

end Admin

theorem finish_flags (o : Out) (status : Int) :
    { finish o status with authChallenge := false, restart := false } = finish o status := by
  rw [finish]
  split <;> rfl

@[simp] theorem response_printed (cap : ℕ) (status : Int) (pieces : List Text) :
    (Formatted.printed status pieces).response cap =
      finish (pieces.foldl Out.printf ⟨cap, [], false⟩) status :=
  finish_flags _ status

@[simp] theorem response_reply (cap : ℕ) (status : Int) (s : Text) :
    (Formatted.reply status s).response cap = reply cap status s := by
  rw [reply_eq_printf]
  exact (congrArg (fun rsp : Response => { rsp with authChallenge := false, restart := false })
    (reply_eq_printf status s)).trans (finish_flags _ status)

@[simp] theorem response_bare (cap : ℕ) (status : Int) :
    (Formatted.bare status).response cap = { Response.init with status } := rfl

def respond {σ : Type} (cap : ℕ) (r : σ × Formatted) : σ × Response := (r.1, r.2.response cap)

section Handlers

variable (cap : ℕ)

@[simp] theorem respond_reply {σ : Type} (d : σ) (status : Int) (s : Text) :
    respond cap (d, Formatted.reply status s) = (d, reply cap status s) := by
  rw [respond, response_reply]

@[simp] theorem respond_bare {σ : Type} (d : σ) (status : Int) :
    respond cap (d, Formatted.bare status) = (d, { Response.init with status }) := rfl

@[simp] theorem respond_ite {σ : Type} (c : Prop) [Decidable c] (r r' : σ × Formatted) :
    respond cap (if c then r else r') = if c then respond cap r else respond cap r' :=
  apply_ite _ c r r'

theorem peer_eq (d : Control) (url : Text) (saved : Int) :
    pstopApiPstopPeer d url cap saved = respond cap (peerBody d url saved) := by
  rw [pstopApiPstopPeer, peerBody, respond_ite, respond_reply]
  rcases setSlot d 0 url saved with ⟨d', ⟨ret, err⟩ | ⟨ip, port, id⟩⟩
  · simp only [setSlotError, setSlotErrorBody, respond_reply]
  · simp only [respond_reply]

theorem peers_eq (d : Control) (url : Text) (saved : Int) :
    pstopApiPstopPeers d url cap saved = respond cap (peersBody d url saved) := by
  rw [pstopApiPstopPeers, peersBody]
  cases param url "slot" 8 httpParseU32 with
  | error e => rw [respond_reply]
  | ok slot =>
    simp only [respond_ite, respond_reply]
    rcases setSlot d slot.toNat url saved with ⟨d', ⟨ret, err⟩ | ⟨ip, port, id⟩⟩
    · simp only [setSlotError, setSlotErrorBody, respond_reply]
    · simp only [respond_reply]

theorem ringOffset_eq (d : Remote) (url : Text) (saved : Int) :
    pstopApiRingOffset d url cap saved = respond cap (ringOffsetBody d url saved) := by
  rw [pstopApiRingOffset, ringOffsetBody]
  cases param url "n" 8 httpParseU32 with
  | error e => rw [respond_reply]
  | ok n => simp only [respond_ite, respond_reply]

theorem ringLed1_eq (w : World) (url : Text) :
    pstopApiRingLed1 w url cap = respond cap (ringLed1Body w url) := by
  rw [pstopApiRingLed1, ringLed1Body]
  cases httpQueryGet url (text "on") 4 with
  | error e => rw [respond_reply]
  | ok val => simp only [respond_ite, respond_reply]

theorem health_eq (fw : Firmware) (w : World) :
    pstopApiHealth fw w cap = respond cap (healthBody fw w) := by
  rw [pstopApiHealth, healthBody, respond, response_printed, List.cons_append, List.foldl_cons,
    List.foldl_append, ← foldl_listed (fun _ _ => rfl)]
  rfl

theorem state_eq (fw : Firmware) (w : World) (t : Telemetry) :
    pstopApiState fw w t cap = (Formatted.printed 200 (statePieces fw w t)).response cap := by
  rw [pstopApiState, response_printed]

variable (fw : Firmware) (auth : Option Text) (d : Remote)

theorem adminOk_eq_body :
    adminOk fw auth cap = (adminOkBody fw auth).map fun f => f.response cap := by
  rw [adminOk, adminOkBody]
  split
  · rw [Option.map_some, response_reply]
  · split
    · rfl
    · rw [Option.map_some, ← response_reply]
      rfl

/-- A handler behind `admin_ok` is one that is refused or goes on. -/
theorem respond_gated (r : Remote × Formatted) : respond cap (gated fw auth d r) =
    match adminOk fw auth cap with
    | some denied => (d, denied)
    | none => respond cap r := by
  rw [adminOk_eq_body, gated]
  cases adminOkBody fw auth <;> rfl

theorem role_eq (post : Bool) (url : Text) (saved : Int) :
    pstopApiRole fw auth cap d post url saved = respond cap (roleBody fw auth d post url saved) := by
  rw [pstopApiRole, roleBody, respond_gated]
  cases adminOk fw auth cap with
  | some denied => rfl
  | none =>
    simp only [respond_ite, respond_reply]
    cases httpQueryGet url (text "role") 16 with
    | error e => simp only [respond_reply]
    | ok val => simp only [respond_ite, respond_reply]

theorem status_eq (uptime : UInt64) :
    pstopApiAdminStatus fw auth cap d uptime = respond cap (statusBody fw auth d uptime) := by
  rw [pstopApiAdminStatus, statusBody, respond_gated]
  cases adminOk fw auth cap with
  | some denied => rfl
  | none => simp only [respond_reply]

theorem restart_eq : pstopApiAdminRestart fw auth cap d = respond cap (restartBody fw auth d) := by
  rw [pstopApiAdminRestart, restartBody, respond_gated]
  cases adminOk fw auth cap with
  | some denied => rfl
  | none =>
    simp only [← response_reply]
    rfl

theorem coredump_eq : ((pstopApiCoredump fw auth cap d).1, (pstopApiCoredump fw auth cap d).2.1) =
    respond cap (coredumpBody fw auth d) := by
  rw [pstopApiCoredump, coredumpBody, respond_gated]
  cases adminOk fw auth cap with
  | some denied => rfl
  | none =>
    simp only [respond_ite, respond_reply, respond_bare]
    split <;> rfl

theorem page_eq : pstopApiAdminPage fw auth cap d = respond cap (pageBody fw auth d) := by
  rw [pstopApiAdminPage, pageBody, respond_gated]
  cases adminOk fw auth cap with
  | some denied => rfl
  | none => rfl

theorem healthReset_eq (url : Text) (calls : ResetCalls) :
    pstopApiHealthReset fw auth cap d url calls =
      respond cap (healthResetBody fw auth d url calls) := by
  rw [pstopApiHealthReset, healthResetBody, respond_gated]
  cases adminOk fw auth cap with
  | some denied => rfl
  | none => simp only [respond_ite, respond_reply]

theorem adminSettings_eq (post : Bool) (body : Text) (savedRing savedId : Int) :
    pstopApiAdminSettings fw auth cap d post body savedRing savedId =
      respond cap (adminSettingsBody fw auth d post body savedRing savedId) := by
  rw [pstopApiAdminSettings, adminSettingsBody, respond_gated]
  cases adminOk fw auth cap with
  | some denied => rfl
  | none => simp only [settingsBody, respond_ite, respond_reply]

theorem wifiList_eq : wifiList fw cap d = (wifiListBody fw d).response cap := by
  have hitem : ∀ (of : Out × Bool) (i : WifiIdx),
      (if cstr (d.config.ram.wifi i).ssid = [] then of
        else
          (of.1.printf ((if of.2 then [] else text ",") ++ text "\x7b\"ssid\":\"" ++
            cstr (d.config.ram.wifi i).ssid ++ text "\",\"pass\":\"" ++
            (if cstr (d.config.ram.wifi i).pass = [] then [] else wifiMask) ++
            text "\"\x7d"), false)) =
      match wifiItem (d.config.ram.wifi i) with
      | none => of
      | some s => (of.1.printf ((if of.2 then [] else text ",") ++ s), false) := by
    intro of i
    rw [wifiItem]
    split
    · rfl
    · simp only [List.append_assoc]
  rw [wifiList, wifiListBody, response_printed, List.cons_append, List.foldl_cons,
    List.foldl_append, ← foldl_listed hitem]
  rfl

theorem adminWifi_eq (post : Bool) (body : Text) (saved : WifiIdx → Int) :
    pstopApiAdminWifi fw auth cap d post body saved =
      respond cap (adminWifiBody fw auth d post body saved) := by
  rw [pstopApiAdminWifi, adminWifiBody, respond_gated]
  cases adminOk fw auth cap with
  | some denied => rfl
  | none =>
    have hlist (d' : Remote) : respond cap (d', wifiListBody fw d') = (d', wifiList fw cap d') := by
      rw [respond, wifiList_eq]
    simp only [respond_ite, respond_reply, hlist]
    cases wifiFromJson d.config.ram (fw.wifiJson body) with
    | error err => simp only [respond_reply]
    | ok nets => simp only [respond_ite, respond_reply, hlist]

theorem adminVerbose_eq (toggle : Bool) :
    pstopApiAdminVerbose fw auth cap d toggle = respond cap (adminVerboseBody fw auth d toggle) := by
  rw [pstopApiAdminVerbose, adminVerboseBody, respond_gated]
  cases adminOk fw auth cap with
  | some denied => rfl
  | none => simp only [respond_ite, respond_reply]

end Handlers

/-- A call of a handler of `api.c`. -/
inductive Call where
  | state (t : Telemetry)
  | pstopPeer (url : Text) (saved : Int)
  | pstopPeers (url : Text) (saved : Int)
  | ringOffset (url : Text) (saved : Int)
  | ringLed1 (url : Text)
  | health
  | admin (auth : Option Text) (call : AdminCall)

def handle (fw : Firmware) (cap : ℕ) (w : World) : Call → World × Response
  | .state t => (w, pstopApiState fw w t cap)
  | .pstopPeer url saved => onControl (pstopApiPstopPeer · url cap saved) w
  | .pstopPeers url saved => onControl (pstopApiPstopPeers · url cap saved) w
  | .ringOffset url saved => onRemote (pstopApiRingOffset · url cap saved) w
  | .ringLed1 url => pstopApiRingLed1 w url cap
  | .health => pstopApiHealth fw w cap
  | .admin auth call =>
      onRemote (fun d => (serve fw auth cap d call).map id fun a => a.response) w

def bodyOf (fw : Firmware) (w : World) : Call → World × Formatted
  | .state t => (w, .printed 200 (statePieces fw w t))
  | .pstopPeer url saved =>
      (peerBody w.toControl url saved).map (fun d => { w with toControl := d }) id
  | .pstopPeers url saved =>
      (peersBody w.toControl url saved).map (fun d => { w with toControl := d }) id
  | .ringOffset url saved =>
      (ringOffsetBody w.toRemote url saved).map (fun d => { w with toRemote := d }) id
  | .ringLed1 url => ringLed1Body w url
  | .health => healthBody fw w
  | .admin auth call =>
      (adminBody fw auth w.toRemote call).map (fun d => { w with toRemote := d }) id

theorem serve_eq (fw : Firmware) (auth : Option Text) (cap : ℕ) (d : Remote) (call : AdminCall) :
    ((serve fw auth cap d call).map id fun a => a.response) =
      respond cap (adminBody fw auth d call) := by
  cases call with
  | role post url saved => exact role_eq cap fw auth d post url saved
  | healthReset url calls => exact healthReset_eq cap fw auth d url calls
  | coredump => exact coredump_eq cap fw auth d
  | page => exact page_eq cap fw auth d
  | status uptime => exact status_eq cap fw auth d uptime
  | restart => exact restart_eq cap fw auth d
  | settings post body savedRing savedId =>
    exact adminSettings_eq cap fw auth d post body savedRing savedId
  | wifi post body saved => exact adminWifi_eq cap fw auth d post body saved
  | verbose toggle => exact adminVerbose_eq cap fw auth d toggle

/-- The handlers at a capacity are the ones with their bodies as data. -/
theorem handle_eq (fw : Firmware) (cap : ℕ) (w : World) (call : Call) :
    handle fw cap w call = respond cap (bodyOf fw w call) := by
  cases call with
  | state t => rw [handle, bodyOf, respond, state_eq]
  | pstopPeer url saved => rw [handle, onControl, peer_eq]; rfl
  | pstopPeers url saved => rw [handle, onControl, peers_eq]; rfl
  | ringOffset url saved => rw [handle, onRemote, ringOffset_eq]; rfl
  | ringLed1 url => exact ringLed1_eq cap w url
  | health => exact health_eq cap fw w
  | admin auth call =>
    rw [handle, onRemote]
    simp only [serve_eq]
    rfl

/-- For every state and every buffer with room for a byte, a handler stays in the buffer and leaves
its whole body in it, or the error, or nothing; one append that does not fit is enough for that. The
response is the one of the other modules at this capacity. -/
theorem body_complete_or_replaced (fw : Firmware) (w : World) (call : Call) (buf : List UInt8)
    (hcap : 0 < buf.length) :
    ∃ r, (bodyOf fw w call).2.write buf = some r ∧ r.1.length = buf.length ∧
      Outcome (bodyOf fw w call).2 buf.length r ∧
      (∀ before s after, (bodyOf fw w call).2.body.pieces = before ++ s :: after →
        buf.length ≤ before.flatten.length + s.length → IsError r) ∧
      Carries buf.length (handle fw buf.length w call).2 r := by
  obtain ⟨r, hr, hsize, hout⟩ := write_outcome (bodyOf fw w call).2 hcap
  obtain ⟨r', hr', hcarries⟩ := write_carries (bodyOf fw w call).2 hcap
  obtain rfl : r = r' := Option.some.inj (hr.symm.trans hr')
  refine ⟨r, hr, hsize, hout, fun _ _ _ hpieces hover => hout.isError hpieces hover, ?_⟩
  rw [handle_eq]
  exact hcarries

/-- The state of a board with one machine has 1139 bytes: it stands in a buffer with room for them and
the NUL, an error stands in a buffer of one byte less, and nothing in one of eight. -/
theorem body_complete_or_replaced_state :
    let w : World :=
      { AdminGate.blankRemote with
        locateUntilMs := 0
        lastLog := []
        calls := ⟨0, 0, 0, fun _ => 0, ⟨0, 0, ⟨0, 0, 0⟩⟩, 0, 0, 0⟩ }
    let call := Call.state ⟨(LockstepDevice.oneMachine.device Pstop.reference).lk, ⟨.none, 0⟩, 0⟩
    let f := (bodyOf AdminGate.lockedFirmware w call).2
    (∃ r, f.write (List.replicate 1140 0xAA) = some r ∧ r.2.status = 200 ∧
      r.1.take r.2.len = f.text) ∧
      (∃ r, f.write (List.replicate 1139 0xAA) = some r ∧ r.2.status = 500 ∧
        r.1.take r.2.len = errorBody "response too large") ∧
      ∃ r, f.write (List.replicate 8 0xAA) = some r ∧ r.2.status = 500 ∧ r.2.len = 0 := by
  intro w call f
  have hlen : f.text.length = 1139 := by decide +kernel
  have hat (n : ℕ) (hn : 0 < n) :
      ∃ r, f.write (List.replicate n 0xAA) = some r ∧ Outcome f n r := by
    obtain ⟨r, hr, -, hout, -⟩ := body_complete_or_replaced AdminGate.lockedFirmware w call
      (List.replicate n 0xAA) (by rwa [List.length_replicate])
    rw [List.length_replicate] at hout
    exact ⟨r, hr, hout⟩
  refine ⟨?_, ?_, ?_⟩
  · obtain ⟨r, hr, hout⟩ := hat 1140 (by decide)
    cases hout with
    | complete _ status _ body => exact ⟨r, hr, status, body⟩
    | replaced tooLong | emptied tooLong => omega
  · obtain ⟨r, hr, hout⟩ := hat 1139 (by decide)
    cases hout with
    | complete fits => omega
    | replaced _ _ status _ body => exact ⟨r, hr, status, body⟩
    | emptied _ full => exact absurd full (by decide)
  · obtain ⟨r, hr, hout⟩ := hat 8 (by decide)
    cases hout with
    | complete fits => omega
    | replaced _ room => exact absurd room (by decide)
    | emptied _ _ status len => exact ⟨r, hr, status, len⟩

end ZephyrApps.ApiBodies
