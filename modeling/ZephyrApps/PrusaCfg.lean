import ZephyrApps.HttpUtil
import ZephyrApps.SettingsStore

/-!
# The configuration of the Prusa camera

`struct cfg` with `cfg_get` and `cfg_set` of `cfg.c`, and the two ways to change a part of
it: the fields of a POST to the web page, and the shell's `set`. An array of characters is
the C string at its start. What `json_obj_parse` found is an argument.
-/
namespace ZephyrApps.PrusaCfg
open AppSettings CStrings HttpUtil SettingsStore

/-- `CFG_TOKEN_MAX` -/
def cfgTokenMax : ℕ := 64
/-- `CFG_PASSWORD_MAX` -/
def cfgPasswordMax : ℕ := 32
/-- `CFG_NAME_MAX` -/
def cfgNameMax : ℕ := 32

/-- `struct cfg` -/
structure Cfg where
  token : Text
  password : Text
  name : Text
  intervalS : UInt16
  resolution : UInt8
  quality : UInt8
  hflip : Bool
  vflip : Bool
  flash : Bool
  rotation : UInt8
  ip : UInt32
  netmask : UInt32
  gateway : UInt32
  dns : UInt32
  brightness : Int8
  contrast : Int8
  saturation : Int8
  autoExposure : Bool
  autoWb : Bool
  autoGain : Bool
  deriving DecidableEq

inductive Field where
  | token | password | name | intervalS | resolution | quality | hflip | vflip | flash | rotation
  | ip | netmask | gateway | dns | brightness | contrast | saturation
  | autoExposure | autoWb | autoGain
  deriving DecidableEq

abbrev Field.Val : Field → Type
  | .token | .password | .name => Text
  | .intervalS => UInt16
  | .resolution | .quality | .rotation => UInt8
  | .ip | .netmask | .gateway | .dns => UInt32
  | .brightness | .contrast | .saturation => Int8
  | .hflip | .vflip | .flash | .autoExposure | .autoWb | .autoGain => Bool

def Cfg.get (c : Cfg) : (f : Field) → f.Val
  | .token => c.token
  | .password => c.password
  | .name => c.name
  | .intervalS => c.intervalS
  | .resolution => c.resolution
  | .quality => c.quality
  | .hflip => c.hflip
  | .vflip => c.vflip
  | .flash => c.flash
  | .rotation => c.rotation
  | .ip => c.ip
  | .netmask => c.netmask
  | .gateway => c.gateway
  | .dns => c.dns
  | .brightness => c.brightness
  | .contrast => c.contrast
  | .saturation => c.saturation
  | .autoExposure => c.autoExposure
  | .autoWb => c.autoWb
  | .autoGain => c.autoGain

def Cfg.set (c : Cfg) : (f : Field) → f.Val → Cfg
  | .token, v => { c with token := v }
  | .password, v => { c with password := v }
  | .name, v => { c with name := v }
  | .intervalS, v => { c with intervalS := v }
  | .resolution, v => { c with resolution := v }
  | .quality, v => { c with quality := v }
  | .hflip, v => { c with hflip := v }
  | .vflip, v => { c with vflip := v }
  | .flash, v => { c with flash := v }
  | .rotation, v => { c with rotation := v }
  | .ip, v => { c with ip := v }
  | .netmask, v => { c with netmask := v }
  | .gateway, v => { c with gateway := v }
  | .dns, v => { c with dns := v }
  | .brightness, v => { c with brightness := v }
  | .contrast, v => { c with contrast := v }
  | .saturation, v => { c with saturation := v }
  | .autoExposure, v => { c with autoExposure := v }
  | .autoWb, v => { c with autoWb := v }
  | .autoGain, v => { c with autoGain := v }

@[simp] theorem get_set (c : Cfg) (f : Field) (v : f.Val) : (c.set f v).get f = v := by
  cases f <;> rfl

theorem get_set_ne (c : Cfg) {f g : Field} (h : f ≠ g) (v : f.Val) : (c.set f v).get g = c.get g := by
  cases f <;> cases g <;> first | rfl | exact absurd rfl h

/-- `cfg` before anything is loaded; its name is `CONFIG_NET_HOSTNAME`. -/
def cfgDefault : Cfg where
  token := []
  password := []
  name := text "prusa-esp32cam"
  intervalS := 30
  resolution := 5
  quality := 80
  hflip := false
  vflip := false
  flash := false
  rotation := 0
  ip := 0
  netmask := 0
  gateway := 0
  dns := 0
  brightness := 0
  contrast := 0
  saturation := 0
  autoExposure := true
  autoWb := true
  autoGain := true

/-- The names of `cfg_resolutions`. -/
def cfgResolutions : List (Text × UInt16 × UInt16) :=
  [(text "QVGA", 320, 240), (text "VGA", 640, 480), (text "SVGA", 800, 600),
    (text "XGA", 1024, 768), (text "SXGA", 1280, 1024), (text "UXGA", 1600, 1200)]

/-- `tolower` of an ASCII character. -/
def lower (c : UInt8) : UInt8 := if ascii 'A' ≤ c ∧ c ≤ ascii 'Z' then c + 32 else c

/-- `cfg_resolution_find`, with `strcasecmp`. -/
def cfgResolutionFind (name : Text) : Option ℕ :=
  cfgResolutions.findIdx? fun r => name.map lower = r.1.map lower

/-- `prusa_camera_trigger_from_seconds` -/
def prusaCameraTriggerFromSeconds (seconds : ℕ) : Option ℕ :=
  [10, 30, 60, 600].findIdx? (· = seconds)

/-- `isalnum` -/
def isAlnum (c : UInt8) : Bool :=
  decide (ascii '0' ≤ c ∧ c ≤ ascii '9' ∨ ascii 'A' ≤ c ∧ c ≤ ascii 'Z' ∨
    ascii 'a' ≤ c ∧ c ≤ ascii 'z')

/-- `prusa_camera_token_valid` -/
def prusaCameraTokenValid (token : Text) : Bool := decide (token.length = 20) && token.all isAlnum

/-- What `cfg_set` refuses. -/
def Cfg.Refused (c : Cfg) : Prop :=
  prusaCameraTriggerFromSeconds c.intervalS.toNat = none ∨
    (c.token ≠ [] ∧ prusaCameraTokenValid c.token = false) ∨ c.name = [] ∨
    cfgNameMax < c.name.length ∨ ¬ (-2 ≤ c.brightness ∧ c.brightness ≤ 2) ∨
    ¬ (-2 ≤ c.contrast ∧ c.contrast ≤ 2) ∨ ¬ (-2 ≤ c.saturation ∧ c.saturation ≤ 2) ∨
    cfgResolutions.length ≤ c.resolution.toNat ∨ 100 < c.quality ∨ 3 < c.rotation ∨
    (c.ip ≠ 0 ∧ (c.netmask = 0 ∨ c.gateway = 0)) ∨ cfgTokenMax < c.token.length ∨
    cfgPasswordMax < c.password.length

instance (c : Cfg) : Decidable c.Refused := by
  unfold Cfg.Refused
  infer_instance

theorem cfgDefault_valid : ¬ cfgDefault.Refused := by decide

/-- `cfg` of `cfg.c`, and what is stored under `prusa/v1`. -/
structure CfgStore where
  ram : Cfg
  flash : Option Cfg

/-- `cfg_set` up to `cfg_changed`; `saved` is what `settings_save_one` returns. -/
def cfgSet (s : CfgStore) (c : Cfg) (saved : Int) : CfgStore × Int :=
  if c.Refused then (s, einval)
  else if saved = 0 then (⟨c, some c⟩, 0)
  else (s, saved)

/-- A field with the value that it is to get, or the error that stops the update; without
either if it is not named. -/
structure FieldUpdate where
  field : Field
  value : Option (Except Int field.Val)

def applyFields : List FieldUpdate → Cfg → Except Int Cfg
  | [], c => .ok c
  | ⟨_, none⟩ :: rest, c => applyFields rest c
  | ⟨_, some (.error err)⟩ :: _, _ => .error err
  | ⟨f, some (.ok v)⟩ :: rest, c => applyFields rest (c.set f v)

/-- `CLAMP` -/
def clamp (v lo hi : Int) : Int := if v ≤ lo then lo else if hi ≤ v then hi else v

def clampU16 (v : Int) : UInt16 := UInt16.ofNat (clamp v 0 65535).toNat
def clampU8 (v : Int) : UInt8 := UInt8.ofNat (clamp v 0 255).toNat
def clampI8 (v : Int) : Int8 := Int8.ofInt (clamp v (-128) 127)

def fits (n : ℕ) (s : Text) : Except Int Text := if n < s.length then .error einval else .ok s

/-- `struct cfg_post` and what `json_obj_parse` reported of it: the fields that are there. -/
structure CfgPost where
  token : Option Text
  password : Option Text
  interval : Option Int
  resolution : Option Text
  quality : Option Int
  hflip : Option Bool
  vflip : Option Bool
  flash : Option Bool
  rotation : Option Int
  ip : Option Text
  netmask : Option Text
  gateway : Option Text
  dns : Option Text
  name : Option Text
  brightness : Option Int
  contrast : Option Int
  saturation : Option Int
  autoExposure : Option Bool
  autoWb : Option Bool
  autoGain : Option Bool

def CfgPost.empty : CfgPost where
  token := none
  password := none
  interval := none
  resolution := none
  quality := none
  hflip := none
  vflip := none
  flash := none
  rotation := none
  ip := none
  netmask := none
  gateway := none
  dns := none
  name := none
  brightness := none
  contrast := none
  saturation := none
  autoExposure := none
  autoWb := none
  autoGain := none

/-- `parse_ip` of `web.c` -/
def parseIp (s : Text) : Except Int UInt32 := if s = [] then .ok 0 else httpParseIpv4 s

/-- What `apply_post` does with an address. -/
def postIp (s : Text) : Except Int UInt32 :=
  match parseIp s with
  | .error _ => .error einval
  | .ok ip => .ok ip

/-- What `apply_post` does with a rotation. -/
def postRotation (r : Int) : Except Int UInt8 :=
  if r.tmod 90 ≠ 0 ∨ r < 0 ∨ 270 < r then .error einval else .ok (UInt8.ofNat (r.tdiv 90).toNat)

/-- What `apply_post` does with the name of a resolution. -/
def postResolution (name : Text) : Except Int UInt8 :=
  match cfgResolutionFind name with
  | none => .error einval
  | some i => .ok (UInt8.ofNat i)

/-- The fields of a POST in the order in which `apply_post` looks at them. -/
def CfgPost.fields (p : CfgPost) : List FieldUpdate :=
  [⟨.token, p.token.map (fits cfgTokenMax)⟩,
    ⟨.password, p.password.map (fits cfgPasswordMax)⟩,
    ⟨.intervalS, p.interval.map fun v => .ok (clampU16 v)⟩,
    ⟨.resolution, p.resolution.map postResolution⟩,
    ⟨.quality, p.quality.map fun v => .ok (clampU8 v)⟩,
    ⟨.hflip, p.hflip.map .ok⟩,
    ⟨.vflip, p.vflip.map .ok⟩,
    ⟨.flash, p.flash.map .ok⟩,
    ⟨.rotation, p.rotation.map postRotation⟩,
    ⟨.ip, p.ip.map postIp⟩,
    ⟨.netmask, p.netmask.map postIp⟩,
    ⟨.gateway, p.gateway.map postIp⟩,
    ⟨.dns, p.dns.map postIp⟩,
    ⟨.name, p.name.map (fits cfgNameMax)⟩,
    ⟨.brightness, p.brightness.map fun v => .ok (clampI8 v)⟩,
    ⟨.contrast, p.contrast.map fun v => .ok (clampI8 v)⟩,
    ⟨.saturation, p.saturation.map fun v => .ok (clampI8 v)⟩,
    ⟨.autoExposure, p.autoExposure.map .ok⟩,
    ⟨.autoWb, p.autoWb.map .ok⟩,
    ⟨.autoGain, p.autoGain.map .ok⟩]

/-- `strtol(s, NULL, 10)` where a `long` has 32 bits -/
def strtol (s : Text) : Int := clamp (atoi s) (-2147483648) 2147483647

/-- `parse_ip` of `main.c` -/
def shellIp (val : Text) : Option UInt32 :=
  if val = text "dhcp" ∨ val = text "0" then some 0
  else
    match httpParseIpv4 val with
    | .error _ => none
    | .ok ip => some ip

/-- An address that the shell sets under `key`. -/
def setIp (f : Field) (v : UInt32 → Except Int f.Val) (val : Text) : FieldUpdate :=
  ⟨f, some (match shellIp val with
    | none => .error einval
    | some ip => v ip)⟩

/-- The field that `cmd_set` sets, with its value, or the error. -/
def cmdField (key val : Text) : FieldUpdate :=
  if key = text "name" ∧ val.length ≤ cfgNameMax then ⟨.name, some (.ok val)⟩
  else if key = text "token" ∧ val.length ≤ cfgTokenMax then ⟨.token, some (.ok val)⟩
  else if key = text "password" ∧ val.length ≤ cfgPasswordMax then ⟨.password, some (.ok val)⟩
  else if key = text "interval" then ⟨.intervalS, some (.ok (clampU16 (strtol val)))⟩
  else if key = text "resolution" ∧ (cfgResolutionFind val).isSome then
    ⟨.resolution, some (postResolution val)⟩
  else if key = text "quality" then ⟨.quality, some (.ok (clampU8 (strtol val)))⟩
  else if key = text "hflip" then ⟨.hflip, some (.ok (decide (strtol val ≠ 0)))⟩
  else if key = text "vflip" then ⟨.vflip, some (.ok (decide (strtol val ≠ 0)))⟩
  else if key = text "flash" then ⟨.flash, some (.ok (decide (strtol val ≠ 0)))⟩
  else if key = text "rotation" ∧ (strtol val).tmod 90 = 0 then
    ⟨.rotation, some (.ok (clampU8 ((strtol val).tdiv 90)))⟩
  else if key = text "brightness" then ⟨.brightness, some (.ok (clampI8 (strtol val)))⟩
  else if key = text "contrast" then ⟨.contrast, some (.ok (clampI8 (strtol val)))⟩
  else if key = text "saturation" then ⟨.saturation, some (.ok (clampI8 (strtol val)))⟩
  else if key = text "auto_exposure" then ⟨.autoExposure, some (.ok (decide (strtol val ≠ 0)))⟩
  else if key = text "auto_wb" then ⟨.autoWb, some (.ok (decide (strtol val ≠ 0)))⟩
  else if key = text "auto_gain" then ⟨.autoGain, some (.ok (decide (strtol val ≠ 0)))⟩
  else if key = text "ip" then setIp .ip .ok val
  else if key = text "netmask" then setIp .netmask .ok val
  else if key = text "gateway" then setIp .gateway .ok val
  else if key = text "dns" then setIp .dns .ok val
  else ⟨.name, some (.error einval)⟩

/-- A change of a part of the configuration: a POST, or a `set` of the shell. -/
inductive Update where
  | post (parsed : Option CfgPost)
  | set (key val : Text)

/-- What an update names, or the error that stops it before it looks at the configuration. -/
def Update.fields : Update → Except Int (List FieldUpdate)
  | .post none => .error einval
  | .post (some p) => .ok p.fields
  | .set key val => .ok [cmdField key val]

/-- `apply_post` and `cmd_set` from `cfg_get` to `cfg_set`: what they make of their copy. -/
def Update.apply (u : Update) (c : Cfg) : Except Int Cfg := u.fields.bind fun fs => applyFields fs c

/-- The value that the fields give to `f`, if they name it: the last one. -/
def requested (f : Field) : List FieldUpdate → Option f.Val
  | [] => none
  | ⟨g, value⟩ :: rest =>
    (requested f rest).or (if h : g = f then (value.bind Except.toOption).map (h ▸ ·) else none)

theorem requested_cons_self (f : Field) (value : Option (Except Int f.Val)) (rest : List FieldUpdate) :
    requested f (⟨f, value⟩ :: rest) = (requested f rest).or (value.bind Except.toOption) := by
  simp [requested]

theorem requested_cons_ne {f g : Field} (h : g ≠ f) (value : Option (Except Int g.Val))
    (rest : List FieldUpdate) : requested f (⟨g, value⟩ :: rest) = requested f rest := by
  simp [requested, h]

@[simp] theorem requested_cons_none (f g : Field) (rest : List FieldUpdate) :
    requested f (⟨g, none⟩ :: rest) = requested f rest := by
  simp [requested]

/-- An update that goes through leaves in each field the value it requests, or the old one. -/
theorem applyFields_get {fs : List FieldUpdate} {c c' : Cfg} (h : applyFields fs c = .ok c')
    (f : Field) : c'.get f = (requested f fs).getD (c.get f) := by
  induction fs generalizing c with
  | nil =>
    cases h
    rfl
  | cons u rest ih =>
    obtain ⟨g, value⟩ := u
    cases value with
    | none =>
      rw [requested_cons_none]
      exact ih h
    | some r =>
      cases r with
      | error err => cases h
      | ok v =>
        rw [ih h]
        cases hr : requested f rest with
        | some w => simp [requested, hr]
        | none =>
          by_cases hg : g = f
          · subst hg
            simp [requested_cons_self, hr, Except.toOption]
          · simp [requested_cons_ne hg, hr, get_set_ne c hg v]

/-- The value that an update gives to `f`, if it names it. -/
def Update.value (u : Update) (f : Field) : Option f.Val :=
  match u.fields with
  | .error _ => none
  | .ok fs => requested f fs

theorem apply_get {u : Update} {c c' : Cfg} (h : u.apply c = .ok c') (f : Field) :
    c'.get f = (u.value f).getD (c.get f) := by
  unfold Update.apply at h
  unfold Update.value
  cases hf : u.fields with
  | error err =>
    rw [hf] at h
    cases h
  | ok fs =>
    rw [hf] at h
    exact applyFields_get h f

/-- If the field stops the update, then with `-EINVAL`. -/
def FieldUpdate.Einval (u : FieldUpdate) : Prop := ∀ err, u.value = some (.error err) → err = einval

theorem einval_ok {f : Field} (v : f.Val) : FieldUpdate.Einval ⟨f, some (.ok v)⟩ := by
  intro err h
  cases h

theorem einval_error {f : Field} : FieldUpdate.Einval ⟨f, some (.error einval)⟩ := by
  intro err h
  cases h
  rfl

theorem einval_map {α : Type} {f : Field} {g : α → Except Int f.Val}
    (hg : ∀ x err, g x = .error err → err = einval) (o : Option α) :
    FieldUpdate.Einval ⟨f, o.map g⟩ := by
  intro err h
  obtain ⟨x, -, hx⟩ := Option.map_eq_some_iff.mp h
  exact hg x err hx

theorem einval_map_ok {α : Type} {f : Field} (g : α → f.Val) (o : Option α) :
    FieldUpdate.Einval ⟨f, o.map fun x => .ok (g x)⟩ := by
  apply einval_map
  intro x err h
  cases h

theorem einval_ite {c : Prop} [Decidable c] {u v : FieldUpdate} (hu : u.Einval) (hv : v.Einval) :
    (if c then u else v).Einval := by
  split
  · exact hu
  · exact hv

theorem fits_error {n : ℕ} (s : Text) (err : Int) (h : fits n s = .error err) : err = einval := by
  unfold fits at h
  split at h
  · cases h
    rfl
  · cases h

theorem postIp_error (s : Text) (err : Int) (h : postIp s = .error err) : err = einval := by
  unfold postIp at h
  split at h
  · cases h
    rfl
  · cases h

theorem postRotation_error (r err : Int) (h : postRotation r = .error err) : err = einval := by
  unfold postRotation at h
  split at h
  · cases h
    rfl
  · cases h

theorem postResolution_error (name : Text) (err : Int) (h : postResolution name = .error err) :
    err = einval := by
  unfold postResolution at h
  split at h
  · cases h
    rfl
  · cases h

theorem post_einval (p : CfgPost) : ∀ u ∈ p.fields, u.Einval :=
  List.forall_iff_forall_mem.mp
    ⟨einval_map fits_error _, einval_map fits_error _, einval_map_ok _ _,
      einval_map postResolution_error _, einval_map_ok _ _, einval_map_ok _ _, einval_map_ok _ _,
      einval_map_ok _ _, einval_map postRotation_error _, einval_map postIp_error _,
      einval_map postIp_error _, einval_map postIp_error _, einval_map postIp_error _,
      einval_map fits_error _, einval_map_ok _ _, einval_map_ok _ _, einval_map_ok _ _,
      einval_map_ok _ _, einval_map_ok _ _, einval_map_ok _ _⟩

theorem setIp_einval (f : Field) (v : UInt32 → f.Val) (val : Text) :
    (setIp f (fun ip => .ok (v ip)) val).Einval := by
  unfold setIp
  split
  · exact einval_error
  · exact einval_ok _

theorem set_einval (key val : Text) : (cmdField key val).Einval := by
  unfold cmdField
  repeat' apply einval_ite
  any_goals exact einval_ok _
  any_goals exact setIp_einval _ _ val
  · intro err h
    exact postResolution_error val err (Option.some.inj h)
  · exact einval_error

theorem applyFields_error {fs : List FieldUpdate} {c : Cfg} {err : Int}
    (hfs : ∀ u ∈ fs, u.Einval) (h : applyFields fs c = .error err) : err = einval := by
  induction fs generalizing c with
  | nil => cases h
  | cons u rest ih =>
    obtain ⟨hu, hrest⟩ := List.forall_mem_cons.mp hfs
    obtain ⟨g, value⟩ := u
    cases value with
    | none => exact ih hrest h
    | some r =>
      cases r with
      | error e =>
        cases h
        exact hu _ rfl
      | ok v => exact ih hrest h

theorem apply_error {u : Update} {c : Cfg} {err : Int} (h : u.apply c = .error err) :
    err = einval := by
  cases u with
  | post parsed =>
    cases parsed with
    | none =>
      cases h
      rfl
    | some p => exact applyFields_error (post_einval p) h
  | set key val =>
    have hfs : ∀ u ∈ [cmdField key val], u.Einval := by
      intro u hu
      rw [List.mem_singleton.mp hu]
      exact set_einval key val
    exact applyFields_error hfs h

/-- `cfg_set` stores this configuration. -/
def Stores (c : Cfg) (saved : Int) : Prop := ¬ c.Refused ∧ saved = 0

instance (c : Cfg) (saved : Int) : Decidable (Stores c saved) := by
  unfold Stores
  infer_instance

theorem cfgSet_stores {c : Cfg} {saved : Int} (h : Stores c saved) (s : CfgStore) :
    cfgSet s c saved = (⟨c, some c⟩, 0) := by
  unfold cfgSet
  rw [if_neg h.1, if_pos h.2]

theorem cfgSet_refuses {c : Cfg} {saved : Int} (h : ¬ Stores c saved) (s : CfgStore) :
    ∃ err, err ≠ 0 ∧ cfgSet s c saved = (s, err) := by
  unfold cfgSet
  by_cases hc : c.Refused
  · exact ⟨einval, by decide, if_pos hc⟩
  · have hs : saved ≠ 0 := fun hs => h ⟨hc, hs⟩
    rw [if_neg hc, if_neg hs]
    exact ⟨saved, hs, rfl⟩

theorem cfgSet_zero {s : CfgStore} {c : Cfg} {saved : Int} (h : (cfgSet s c saved).2 = 0) :
    (cfgSet s c saved).1 = ⟨c, some c⟩ := by
  by_cases hs : Stores c saved
  · rw [cfgSet_stores hs]
  · obtain ⟨err, he, hr⟩ := cfgSet_refuses hs s
    rw [hr] at h
    exact absurd h he

end ZephyrApps.PrusaCfg
