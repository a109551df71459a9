import ZephyrApps.HealthCounters
import ZephyrApps.PeerTableRoute

/-!
# The admin handlers

The nine handlers of `api.c` that ask for the admin password, with all that they read
and write. Zephyr's base64 and JSON are parameters of the firmware, and what a call of
the kernel or of flash returns is an argument of the request.
-/
namespace ZephyrApps.AdminHandlers
open AppSettings CStrings HttpUtil SettingsStore ApiReplies PeerTableRoute HealthCounters

/-- `struct settings_json` and what `json_obj_parse` returned with it. -/
structure SettingsJson where
  fields : Int
  ringOffset : UInt32
  deviceId : UInt32

/-- `struct wifi_net_json`; a string that is missing is `NULL`. -/
structure WifiNetJson where
  ssid : Option Text
  pass : Option Text

/-- `struct wifi_json` and what `json_obj_parse` returned with it. -/
structure WifiJson where
  fields : Int
  networks : List WifiNetJson
  bounded : networks.length ≤ 4

structure Firmware where
  /-- `CONFIG_PROTECTIVE_STOP_ADMIN_PASSWORD` -/
  password : Text
  base64Decode : ℕ → Text → Option (List UInt8)
  settingsJson : Text → SettingsJson
  wifiJson : Text → WifiJson
  /-- `pstop_aux_role_str` of an operator, or not -/
  roleStr : Bool → Text
  /-- `APP_VERSION_STRING` and `FW_SHA` -/
  fwVer : Text
  fwSha : Text
  health : HealthConfig
  verboseBuilt : Bool
  coredumpBuilt : Bool
  wifiBuilt : Bool

structure Remote extends Control where
  health : Health
  verbose : Bool
  /-- `reload` of `wifi.c` -/
  wifiReload : Bool
  wifiActiveIdx : Int
  slotActive : Slot → Bool
  /-- what `coredump_query` answers -/
  hasStoredDump : Int
  storedDumpSize : Int

/-- `app_settings_is_operator` and `pstop_aux_role_str` -/
def roleText (fw : Firmware) (d : Remote) : Text := fw.roleStr d.config.ram.isOperator

/-- What `%d` prints. -/
def int (n : Int) : Text := if n < 0 then text "-" ++ dec n.natAbs else dec n.natAbs

/-- `PSTOP_API_ADMIN_USER` -/
def pstopApiAdminUser : Text := text "admin"

/-- `admin_ok`: the reply that refuses, or none. -/
def adminOk (fw : Firmware) (auth : Option Text) (cap : ℕ) : Option Response :=
  if fw.password = [] then
    some (reply cap 403 (errorBody "admin disabled: no password configured"))
  else if httpBasicAuthOk fw.base64Decode auth pstopApiAdminUser fw.password then none
  else some { reply cap 401 (errorBody "unauthorized") with authChallenge := true }

variable (fw : Firmware) (auth : Option Text) (cap : ℕ) (d : Remote)

/-- `pstop_api_role`; `saved` is what `settings_save_one` returns. -/
def pstopApiRole (post : Bool) (url : Text) (saved : Int) : Remote × Response :=
  match adminOk fw auth cap with
  | some denied => (d, denied)
  | none =>
    if post then
      match httpQueryGet url (text "role") 16 with
      | .error _ => (d, reply cap 400 (errorBody "missing role"))
      | .ok val =>
        if val = text "operator" ∨ val = text "stop_only" then
          let (config, ret) := d.config.setOperator (decide (val = text "operator")) saved
          let d := { d with config }
          if ret ≠ 0 then (d, reply cap 500 (errorBody "settings write failed"))
          else
            (d, reply cap 200 (text "\x7b\"ok\":true,\"role\":\"" ++ roleText fw d ++
              text "\",\"applied\":true\x7d"))
        else (d, reply cap 400 (errorBody "role must be stop_only or operator"))
    else (d, reply cap 200 (text "\x7b\"ok\":true,\"role\":\"" ++ roleText fw d ++ text "\"\x7d"))

/-- `pstop_api_admin_status`; `uptime` is what `k_uptime_get` returns. -/
def pstopApiAdminStatus (uptime : UInt64) : Remote × Response :=
  match adminOk fw auth cap with
  | some denied => (d, denied)
  | none =>
    let active := (List.finRange 4).countP fun slot => d.slotActive slot
    (d, reply cap 200 (text "\x7b\"ok\":true,\"fw_ver\":\"" ++ fw.fwVer ++ text "\",\"fw_sha\":\"" ++
      fw.fwSha ++ text "\",\"uptime_ms\":" ++ dec uptime.toNat ++ text ",\"device_id\":" ++
      dec d.config.ram.effectiveDeviceId.toNat ++ text ",\"role\":\"" ++ roleText fw d ++
      text "\",\"sessions\":" ++ dec active ++ text "\x7d"))

/-- `pstop_api_admin_restart` -/
def pstopApiAdminRestart : Remote × Response :=
  match adminOk fw auth cap with
  | some denied => (d, denied)
  | none =>
    (d, { reply cap 200 (text "\x7b\"ok\":true,\"message\":\"rebooting in 500 ms\"\x7d") with
      restart := true })

/-- `crash_size` -/
def crashSize : ℕ :=
  if !fw.coredumpBuilt then 0
  else if d.hasStoredDump ≠ 1 then 0
  else d.storedDumpSize.toNat

/-- `pstop_api_coredump`, with the size it writes. -/
def pstopApiCoredump : Remote × Response × ℕ :=
  match adminOk fw auth cap with
  | some denied => (d, denied, 0)
  | none =>
    let size := crashSize fw d
    if size = 0 then (d, reply cap 404 (errorBody "no coredump"), 0)
    else (d, { Response.init with status := 200 }, size)

/-- `pstop_api_admin_page` -/
def pstopApiAdminPage : Remote × Response :=
  match adminOk fw auth cap with
  | some denied => (d, denied)
  | none => (d, { Response.init with status := 200 })

/-- The `what` of a reset; empty if the query has none that fits. -/
def whatParam (url : Text) : Text :=
  match httpQueryGet url (text "what") 8 with
  | .error _ => []
  | .ok what => what

/-- `pstop_api_health_reset` -/
def pstopApiHealthReset (url : Text) (calls : ResetCalls) : Remote × Response :=
  match adminOk fw auth cap with
  | some denied => (d, denied)
  | none =>
    if !httpQueryFlag url (text "confirm") then
      (d, reply cap 400 (errorBody "confirm=1 required"))
    else
      let what := whatParam url
      if what = text "button" ∨ what = text "all" then
        let (health, flash, ret) :=
          if what = text "button" then d.health.resetButton fw.health d.config.flash calls
          else d.health.resetAll fw.health d.config.flash calls
        ({ d with health, config := { d.config with flash } },
          reply cap (if ret = 0 then 200 else 500)
            (text "\x7b\"ok\":" ++ boolText (decide (ret = 0)) ++ text ",\"reset\":\"" ++ what ++
              text "\"\x7d"))
      else (d, reply cap 400 (errorBody "what must be button or all"))

/-- Bit `b` of a set of fields is set. -/
def hasField (fields : Int) (b : ℕ) : Bool := fields.toNat.testBit b

def requestAll : Control → Control :=
  fun d => (List.finRange 4).foldl (fun d slot => (d.requestReconfigure (slot : ℕ)).1) d

/-- `pstop_api_admin_settings`; `savedRing` and `savedId` are what its saves return. -/
def pstopApiAdminSettings (post : Bool) (body : Text) (savedRing savedId : Int) :
    Remote × Response :=
  match adminOk fw auth cap with
  | some denied => (d, denied)
  | none =>
    let writeFailed := reply cap 500 (errorBody "settings write failed")
    let settings (d : Remote) : Remote × Response :=
      (d, reply cap 200 (text "\x7b\"ok\":true,\"ring_offset\":" ++
        dec d.config.ram.ringOffset.toNat ++ text ",\"device_id\":" ++
        dec d.config.ram.effectiveDeviceId.toNat ++ text ",\"device_id_pinned\":" ++
        boolText (decide (d.config.ram.deviceId ≠ 0)) ++ text "\x7d"))
    if post then
      let json := fw.settingsJson body
      if json.fields ≤ 0 then
        (d, reply cap 400
          (errorBody "expected a JSON object with ring_offset and/or device_id"))
      else if hasField json.fields 0 ∧ 15 < json.ringOffset then
        (d, reply cap 400 (errorBody "ring_offset must be 0..15"))
      else
        let (config, ret) :=
          if hasField json.fields 0 then d.config.setRingOffset json.ringOffset.toUInt8 savedRing
          else (d.config, 0)
        let d := { d with config }
        if ret ≠ 0 then (d, writeFailed)
        else if hasField json.fields 1 then
          let (config, ret) := d.config.setDeviceId json.deviceId savedId
          let d := { d with config }
          if ret ≠ 0 then (d, writeFailed)
          else settings { d with toControl := requestAll d.toControl }
        else settings d
    else settings d

/-- `plain_string`: no quote, no backslash, no control character. -/
def plainString (s : Text) : Bool := s.all fun c => decide (c ≠ 0x22 ∧ c ≠ 0x5C ∧ 0x20 ≤ c)

/-- `WIFI_MASK` -/
def wifiMask : Text := text "********"

/-- A cleared buffer of `n + 1` characters to which `strcpy` wrote a string. -/
def buffer (n : ℕ) (s : Text) : List UInt8 :=
  s.take n ++ List.replicate (n + 1 - (s.take n).length) 0

theorem length_buffer (n : ℕ) (s : Text) : (buffer n s).length = n + 1 := by
  rw [buffer, List.length_append, List.length_replicate, List.length_take]
  omega

def netOf (ssid pass : Text) : WifiNet :=
  ⟨buffer wifiSsidMax ssid, buffer wifiPassMax pass, length_buffer _ _, length_buffer _ _⟩

def storedPass (img : Image) (ssid : Text) : Text :=
  match (List.finRange 4).find? fun j => decide (cstr (img.wifi j).ssid = ssid) with
  | none => []
  | some j => cstr (img.wifi j).pass

/-- One round of the loop of `wifi_from_json`. -/
def wifiEntry (img : Image) (net : WifiNetJson) : Except String WifiNet :=
  let pass := net.pass.getD []
  match net.ssid with
  | none => .error "ssid must be 1..32 plain characters"
  | some ssid =>
    if ssid = [] ∨ wifiSsidMax < ssid.length ∨ plainString ssid = false then
      .error "ssid must be 1..32 plain characters"
    else if pass = wifiMask then .ok (netOf ssid (storedPass img ssid))
    else if pass ≠ [] ∧ (pass.length < 8 ∨ wifiPassMax < pass.length ∨ plainString pass = false) then
      .error "pass must be empty (open network) or 8..64 plain characters"
    else .ok (netOf ssid pass)

/-- `wifi_from_json` -/
def wifiFromJson (img : Image) (json : WifiJson) : Except String (WifiIdx → WifiNet) :=
  (json.networks.mapM (wifiEntry img)).map fun nets i => nets.getD i WifiNet.zero

/-- `pstop_wifi_reload` -/
def wifiReloaded : Remote := { d with wifiReload := fw.wifiBuilt || d.wifiReload }

/-- `pstop_wifi_active_idx` -/
def wifiActive : Int := if fw.wifiBuilt then d.wifiActiveIdx else -1

/-- The list of networks with masked passwords, and the one in use. -/
def wifiList : Response :=
  let item (of : Out × Bool) (i : WifiIdx) : Out × Bool :=
    let net := d.config.ram.wifi i
    if cstr net.ssid = [] then of
    else
      (of.1.printf ((if of.2 then [] else text ",") ++ text "\x7b\"ssid\":\"" ++ cstr net.ssid ++
        text "\",\"pass\":\"" ++ (if cstr net.pass = [] then [] else wifiMask) ++
        text "\"\x7d"), false)
  let o := (⟨cap, [], false⟩ : Out).printf (text "\x7b\"ok\":true,\"networks\":[")
  let o := ((List.finRange 4).foldl item (o, true)).1
  finish (o.printf (text "],\"active_idx\":" ++ int (wifiActive fw d) ++ text "\x7d")) 200

def wifiExpected : String :=
  "expected \x7b\\\"networks\\\":[\x7b\\\"ssid\\\"," ++ "\\\"pass\\\"\x7d]\x7d, at most 4"

/-- `pstop_api_admin_wifi`; `saved` are what its saves return. -/
def pstopApiAdminWifi (post : Bool) (body : Text) (saved : WifiIdx → Int) : Remote × Response :=
  match adminOk fw auth cap with
  | some denied => (d, denied)
  | none =>
    if post then
      let json := fw.wifiJson body
      if json.fields ≠ 1 then
        (d, reply cap 400 (errorBody wifiExpected))
      else
        match wifiFromJson d.config.ram json with
        | .error err => (d, reply cap 400 (errorBody err))
        | .ok nets =>
          let (config, ret) := d.config.wifiSetAll nets saved
          let d := { d with config }
          if ret ≠ 0 then (d, reply cap 500 (errorBody "settings write failed"))
          else (wifiReloaded fw d, wifiList fw cap (wifiReloaded fw d))
    else (d, wifiList fw cap d)

/-- `-ENOTSUP` -/
def enotsup : Int := -134

/-- `pstop_verbose_set` -/
def verboseSet (on : Bool) : Remote × Int :=
  if fw.verboseBuilt then ({ d with verbose := on }, 0) else (d, if on then enotsup else 0)

/-- `pstop_api_admin_verbose` -/
def pstopApiAdminVerbose (toggle : Bool) : Remote × Response :=
  match adminOk fw auth cap with
  | some denied => (d, denied)
  | none =>
    if toggle then
      let (d, ret) := verboseSet fw d (!d.verbose)
      if ret ≠ 0 then (d, reply cap 501 (errorBody "verbose logging not built in"))
      else
        (d, reply cap 200 (text "\x7b\"ok\":true,\"verbose\":" ++ boolText d.verbose ++
          text "\x7d"))
    else (d, reply cap 200 (text "\x7b\"verbose\":" ++ boolText d.verbose ++ text "\x7d"))

inductive AdminCall where
  | role (post : Bool) (url : Text) (saved : Int)
  | healthReset (url : Text) (calls : ResetCalls)
  | coredump
  | page
  | status (uptime : UInt64)
  | restart
  | settings (post : Bool) (body : Text) (savedRing savedId : Int)
  | wifi (post : Bool) (body : Text) (saved : WifiIdx → Int)
  | verbose (toggle : Bool)

structure Answer where
  response : Response
  coredumpSize : ℕ

/-- The handler of a call; only the coredump's writes a size. -/
def serve : AdminCall → Remote × Answer
  | .role post url saved => (pstopApiRole fw auth cap d post url saved).map id (⟨·, 0⟩)
  | .healthReset url calls => (pstopApiHealthReset fw auth cap d url calls).map id (⟨·, 0⟩)
  | .coredump => (pstopApiCoredump fw auth cap d).map id fun r => ⟨r.1, r.2⟩
  | .page => (pstopApiAdminPage fw auth cap d).map id (⟨·, 0⟩)
  | .status uptime => (pstopApiAdminStatus fw auth cap d uptime).map id (⟨·, 0⟩)
  | .restart => (pstopApiAdminRestart fw auth cap d).map id (⟨·, 0⟩)
  | .settings post body savedRing savedId =>
      (pstopApiAdminSettings fw auth cap d post body savedRing savedId).map id (⟨·, 0⟩)
  | .wifi post body saved => (pstopApiAdminWifi fw auth cap d post body saved).map id (⟨·, 0⟩)
  | .verbose toggle => (pstopApiAdminVerbose fw auth cap d toggle).map id (⟨·, 0⟩)

end ZephyrApps.AdminHandlers
