import ZephyrApps.CfgPosts
import ZephyrApps.HttpNumerals

/-!
# The page that shows the configuration

`config_out` of `web.c` and the page of `index.html`: what GET says of a configuration is shown in a
form, and what the form holds is posted back. What becomes of a string on the way there and back
(the encoder, the browser and `json_obj_parse`, which leaves escapes as they are) is a parameter.
-/
namespace ZephyrApps.ConfigPages
open AppSettings CStrings HttpUtil HttpNumerals CBuffers PrusaCfg CfgUpdates CfgPosts

/-- What `ip_str` leaves in its buffer. -/
def ipString (ip : UInt32) : Text := if ip = 0 then [] else ipText ip

/-- `struct config_out` -/
structure ConfigOut where
  name : Text
  tokenSet : Bool
  fingerprint : Text
  interval : UInt32
  resolution : Text
  quality : UInt32
  hflip : Bool
  vflip : Bool
  flash : Bool
  rotation : UInt32
  ip : Text
  netmask : Text
  gateway : Text
  dns : Text
  brightness : Int
  contrast : Int
  saturation : Int
  autoExposure : Bool
  autoWb : Bool
  autoGain : Bool
  deriving DecidableEq

/-- What `reply_config` says of a configuration; `fingerprint` is that of `cfg_fingerprint`. -/
def configOut (fingerprint : Text) (c : Cfg) : ConfigOut where
  name := c.name
  tokenSet := decide (c.token ≠ [])
  fingerprint := fingerprint
  interval := c.intervalS.toUInt32
  resolution := (cfgResolutions[c.resolution.toNat]?.map Prod.fst).getD []
  quality := c.quality.toUInt32
  hflip := c.hflip
  vflip := c.vflip
  flash := c.flash
  rotation := c.rotation.toUInt32 * 90
  ip := ipString c.ip
  netmask := ipString c.netmask
  gateway := ipString c.gateway
  dns := ipString c.dns
  brightness := c.brightness.toInt
  contrast := c.contrast.toInt
  saturation := c.saturation.toInt
  autoExposure := c.autoExposure
  autoWb := c.autoWb
  autoGain := c.autoGain

structure Typed where
  token : Text
  password : Text

def typedField (wire : Text → Text) (s : Text) : Option Text :=
  if s = [] then none else some (wire s)

/-- `show`: what the fields hold once `o` is assigned to them. A `select` takes nothing but one of its
options, and `+''` is 0; a `range` stays between its bounds. -/
def showForm (o : ConfigOut) : ConfigOut :=
  { o with
    interval := if o.interval ∈ [10, 30, 60, 600] then o.interval else 0
    resolution := if o.resolution ∈ cfgResolutions.map Prod.fst then o.resolution else []
    rotation := if o.rotation ∈ [0, 90, 180, 270] then o.rotation else 0
    brightness := max (-2) (min o.brightness 2)
    contrast := max (-2) (min o.contrast 2)
    saturation := max (-2) (min o.saturation 2) }

/-- `f.onsubmit`: the form `o`, with nothing changed but what is typed; `wire` is what becomes of a
string on the way. -/
def onsubmit (wire : Text → Text) (o : ConfigOut) (typed : Typed) : CfgPost where
  token := typedField wire typed.token
  password := typedField wire typed.password
  interval := some o.interval.toNat
  resolution := some (wire o.resolution)
  quality := some o.quality.toNat
  hflip := some o.hflip
  vflip := some o.vflip
  flash := some o.flash
  rotation := some o.rotation.toNat
  ip := some (wire o.ip)
  netmask := some (wire o.netmask)
  gateway := some (wire o.gateway)
  dns := some (wire o.dns)
  name := some (wire o.name)
  brightness := some o.brightness
  contrast := some o.contrast
  saturation := some o.saturation
  autoExposure := some o.autoExposure
  autoWb := some o.autoWb
  autoGain := some o.autoGain

/-- The constraints that `index.html` puts on its inputs: a name is `required`, the `pattern` of the
token is that of `prusa_camera_token_valid`, and the quality has a `min` and a `max`. -/
def MeetsConstraints (o : ConfigOut) (typed : Typed) : Prop :=
  o.name ≠ [] ∧ (typed.token = [] ∨ prusaCameraTokenValid typed.token = true) ∧
    5 ≤ o.quality ∧ o.quality ≤ 100

instance (o : ConfigOut) (typed : Typed) : Decidable (MeetsConstraints o typed) := by
  unfold MeetsConstraints
  infer_instance

/-- The Save button: a form that breaks a constraint is not submitted. -/
def save (wire : Text → Text) (o : ConfigOut) (typed : Typed) : Option CfgPost :=
  if MeetsConstraints (showForm o) typed then some (onsubmit wire (showForm o) typed) else none

/-- Characters that JSON neither escapes nor forbids. -/
def Plain (s : Text) : Prop := ∀ c ∈ s, 0x20 ≤ c ∧ c < 0x7F ∧ c ≠ 0x22 ∧ c ≠ 0x5C

instance decidablePlain (s : Text) : Decidable (Plain s) :=
  decidable_of_iff ((s.all fun c => decide (0x20 ≤ c ∧ c < 0x7F ∧ c ≠ 0x22 ∧ c ≠ 0x5C)) = true)
    (List.all_eq_true.trans (forall₂_congr fun _ _ => decide_eq_true_iff))

theorem Plain.append {s t : Text} (hs : Plain s) (ht : Plain t) : Plain (s ++ t) := by
  intro c hc
  exact (List.mem_append.mp hc).elim (hs c) (ht c)

theorem plain_digit {c : UInt8} {d : ℕ} (h : digitOf c = some d) (hd : d < 10) :
    0x20 ≤ c ∧ c < 0x7F ∧ c ≠ 0x22 ∧ c ≠ 0x5C := by
  have hc : ascii '0' ≤ c ∧ c ≤ ascii '9' := by
    unfold digitOf at h
    split at h
    · assumption
    · have ha : (ascii 'a').toNat = 97 := rfl
      have hA : (ascii 'A').toNat = 65 := rfl
      split at h
      · rename_i hx
        have := UInt8.le_iff_toNat_le.mp hx.1
        cases h
        omega
      · obtain ⟨hx, he⟩ := Option.ite_none_right_eq_some.mp h
        have := UInt8.le_iff_toNat_le.mp hx.1
        cases he
        omega
  have hlo : 48 ≤ c.toNat := UInt8.le_iff_toNat_le.mp hc.1
  have hhi : c.toNat ≤ 57 := UInt8.le_iff_toNat_le.mp hc.2
  refine ⟨UInt8.le_iff_toNat_le.mpr ?_, UInt8.lt_iff_toNat_lt.mpr ?_, ?_, ?_⟩
  · exact le_trans (by decide) hlo
  · exact lt_of_le_of_lt hhi (by decide)
  · rintro rfl
    exact absurd hlo (by decide)
  · rintro rfl
    exact absurd hhi (by decide)

theorem plain_dec (n : ℕ) : Plain (dec n) := by
  intro c hc
  obtain ⟨d, hd, hdigit⟩ := (numeral_dec n).digit hc
  exact plain_digit hdigit hd

theorem plain_dot : Plain (text ".") := by
  intro c hc
  rw [List.mem_singleton.mp hc]
  decide

theorem plain_ipString (ip : UInt32) : Plain (ipString ip) := by
  unfold ipString
  split
  · exact fun c hc => absurd hc List.not_mem_nil
  · exact ((((((plain_dec _).append plain_dot).append (plain_dec _)).append plain_dot).append
      (plain_dec _)).append plain_dot).append (plain_dec _)

theorem addressOf_ipString (ip : UInt32) : AddressOf (ipString ip) ip := by
  unfold ipString
  split
  · rename_i h
    exact .inl ⟨rfl, h⟩
  · exact .inr ⟨by simp [ipText, dec_ne_nil], dottedQuad_ipText ip⟩

/-- `ip_str` leaves the text that is shown. -/
theorem ipStr_ipString {buf : List UInt8} (hbuf : buf.length = 16) (ip : UInt32) :
    (ipStr buf ip).map cstr = some (ipString ip) := by
  by_cases hip : ip = 0
  · have hpos : 0 < buf.length := by omega
    obtain ⟨c, rest, rfl⟩ := List.exists_cons_of_ne_nil (List.ne_nil_of_length_pos hpos)
    have hw := writeAt_append (b := c :: rest) (c := [0]) [] (by simp)
    have hstr : ipStr (c :: rest) ip = some (0 :: rest) := by
      rw [ipStr, if_pos hip]
      simpa using hw
    rw [hstr, ipString, if_pos hip]
    rfl
  · rw [ipStr_eq hbuf hip, ipString, if_neg hip, Option.map_some, cstr_append,
      cstr_of_not_mem (noNul_ipText ip)]

theorem plain_resolution : ∀ r ∈ cfgResolutions, Plain r.1 := by
  have hall : (cfgResolutions.all fun r => decide (Plain r.1)) = true := by decide
  exact fun r hr => of_decide_eq_true (List.all_eq_true.mp hall r hr)

theorem cfgResolutionFind_shown {i : ℕ} (h : i < cfgResolutions.length) :
    ∃ r ∈ cfgResolutions, cfgResolutions[i]? = some r ∧ cfgResolutionFind r.1 = some i := by
  have hall : ∀ i < cfgResolutions.length, ∃ r ∈ cfgResolutions, cfgResolutions[i]? = some r ∧
      cfgResolutionFind r.1 = some i := by decide
  exact hall i h

/-- `c` with the secrets that were typed, or those of `d` where none was. -/
def withSecrets (c d : Cfg) (typed : Typed) : Cfg :=
  { c with
    token := if typed.token = [] then d.token else typed.token
    password := if typed.password = [] then d.password else typed.password }

/-- Secrets that the form lets through and that the camera can store. -/
structure Typed.Proper (typed : Typed) : Prop where
  token : typed.token = [] ∨ prusaCameraTokenValid typed.token = true
  password : typed.password.length ≤ cfgPasswordMax

variable {c d : Cfg} {typed : Typed} {wire : Text → Text}

theorem withSecrets_inRange (hc : InRange c) (hd : InRange d) (ht : typed.Proper) :
    InRange (withSecrets c d typed) := by
  refine ⟨fun f => ?_, hc.fixed⟩
  cases f with
  | token =>
    show _ ∨ _
    simp only [withSecrets, Cfg.get]
    split
    · exact hd.field .token
    · exact ht.token
  | password =>
    show List.length _ ≤ _
    simp only [withSecrets, Cfg.get]
    split
    · exact hd.field .password
    · exact ht.password
  | name => exact hc.field .name
  | intervalS => exact hc.field .intervalS
  | resolution => exact hc.field .resolution
  | quality => exact hc.field .quality
  | rotation => exact hc.field .rotation
  | brightness => exact hc.field .brightness
  | contrast => exact hc.field .contrast
  | saturation => exact hc.field .saturation
  | _ => trivial

theorem withSecrets_get {f : Field} (ht : f ≠ .token) (hp : f ≠ .password) :
    (withSecrets c d typed).get f = c.get f := by
  cases f with
  | token => exact absurd rfl ht
  | password => exact absurd rfl hp
  | _ => rfl

/-- The way of a string that needs no escape, and of those that were typed. -/
structure Carries (wire : Text → Text) (c : Cfg) (typed : Typed) : Prop where
  plain : ∀ s, Plain s → wire s = s
  name : wire c.name = c.name
  token : wire typed.token = typed.token
  password : wire typed.password = typed.password

theorem answers_typed (h : wire s = s) (old : Text) :
    Answers ((typedField wire s).map fun s x => x = s) old (if s = [] then old else s) := by
  unfold typedField
  split
  · rfl
  · exact h.symm

theorem rotation_toNat (hc : InRange c) :
    (c.rotation.toUInt32 * 90).toNat = c.rotation.toNat * 90 := by
  have hle : c.rotation.toNat ≤ 3 := hc.field .rotation
  rw [UInt32.toNat_mul, UInt8.toNat_toUInt32]
  exact Nat.mod_eq_of_lt (Nat.lt_of_le_of_lt (Nat.mul_le_mul_right 90 hle) (by decide))

theorem onsubmit_replaces (hc : InRange c) (hw : Carries wire c typed) (fingerprint : Text) :
    Replaces (onsubmit wire (configOut fingerprint c) typed) d (withSecrets c d typed) := by
  intro f
  have hip (ip : UInt32) : AddressOf (wire (ipString ip)) ip := by
    rw [hw.plain _ (plain_ipString ip)]
    exact addressOf_ipString ip
  cases f with
  | token => exact answers_typed hw.token d.token
  | password => exact answers_typed hw.password d.password
  | name => exact hw.name.symm
  | intervalS =>
    show (c.intervalS.toNat : Int) = (c.intervalS.toUInt32.toNat : Int)
    rw [UInt16.toNat_toUInt32]
  | resolution =>
    obtain ⟨r, hr, hat, hfind⟩ := cfgResolutionFind_shown (hc.field .resolution)
    show cfgResolutionFind (wire ((cfgResolutions[c.resolution.toNat]?.map Prod.fst).getD [])) = _
    have hat' : cfgResolutions[c.resolution.toNat]? = some r := hat
    rw [hat', Option.map_some, Option.getD_some, hw.plain _ (plain_resolution r hr)]
    exact hfind
  | quality =>
    show (c.quality.toNat : Int) = (c.quality.toUInt32.toNat : Int)
    rw [UInt8.toNat_toUInt32]
  | rotation =>
    show (c.rotation.toNat : Int) * 90 = ((c.rotation.toUInt32 * 90).toNat : Int)
    rw [rotation_toNat hc, Int.natCast_mul]
    rfl
  | ip => exact hip c.ip
  | netmask => exact hip c.netmask
  | gateway => exact hip c.gateway
  | dns => exact hip c.dns
  | brightness | contrast | saturation => rfl
  | hflip | vflip | flash | autoExposure | autoWb | autoGain => rfl

theorem onsubmit_nonneg (o : ConfigOut) : ¬ NegativeQuality (onsubmit wire o typed) := by
  rintro ⟨q, hq, hneg⟩
  cases hq
  omega

theorem save_shown (hc : InRange c) (hd : InRange d) (ht : typed.Proper)
    (hw : Carries wire c typed) (fingerprint : Text) (flash : Option Cfg) :
    applyPost ⟨d, flash⟩ (some (onsubmit wire (configOut fingerprint c) typed)) 0 =
      (⟨withSecrets c d typed, some (withSecrets c d typed)⟩, 0) := by
  have hr := withSecrets_inRange hc hd ht
  exact applyPost_stores
    ((apply_iff (onsubmit_nonneg _) hr).mpr (onsubmit_replaces hc hw fingerprint)) hr

theorem interval_shown (hc : InRange c) : c.intervalS.toUInt32 ∈ [10, 30, 60, 600] := by
  have hmem : c.intervalS.toNat ∈ [10, 30, 60, 600] := hc.field .intervalS
  rw [← UInt16.toNat_toUInt32] at hmem
  simpa [← UInt32.toNat_inj] using hmem

theorem resolution_shown (hc : InRange c) :
    (cfgResolutions[c.resolution.toNat]?.map Prod.fst).getD [] ∈ cfgResolutions.map Prod.fst := by
  obtain ⟨r, hr, hat, -⟩ := cfgResolutionFind_shown (hc.field .resolution)
  have hat' : cfgResolutions[c.resolution.toNat]? = some r := hat
  rw [hat', Option.map_some, Option.getD_some]
  exact List.mem_map_of_mem hr

theorem rotation_shown (hc : InRange c) : c.rotation.toUInt32 * 90 ∈ [0, 90, 180, 270] := by
  have hle : c.rotation.toNat ≤ 3 := hc.field .rotation
  have h0 : (0 : UInt32).toNat = 0 := rfl
  have h1 : (90 : UInt32).toNat = 90 := rfl
  have h2 : (180 : UInt32).toNat = 180 := rfl
  have h3 : (270 : UInt32).toNat = 270 := rfl
  simp only [List.mem_cons, List.not_mem_nil, or_false, ← UInt32.toNat_inj, rotation_toNat hc]
  omega

/-- A form shows as they are the values that its inputs can hold. -/
theorem showForm_eq {o : ConfigOut} (hinterval : o.interval ∈ [10, 30, 60, 600])
    (hresolution : o.resolution ∈ cfgResolutions.map Prod.fst)
    (hrotation : o.rotation ∈ [0, 90, 180, 270])
    (hbrightness : -2 ≤ o.brightness ∧ o.brightness ≤ 2)
    (hcontrast : -2 ≤ o.contrast ∧ o.contrast ≤ 2)
    (hsaturation : -2 ≤ o.saturation ∧ o.saturation ≤ 2) : showForm o = o := by
  have hrange {v : Int} (h : -2 ≤ v ∧ v ≤ 2) : max (-2) (min v 2) = v := by omega
  rw [showForm, if_pos hinterval, if_pos hresolution, if_pos hrotation, hrange hbrightness,
    hrange hcontrast, hrange hsaturation]

theorem showForm_configOut (hc : InRange c) (fingerprint : Text) :
    showForm (configOut fingerprint c) = configOut fingerprint c := by
  have hrange {v : Int8} (h : -2 ≤ v ∧ v ≤ 2) : -2 ≤ v.toInt ∧ v.toInt ≤ 2 :=
    ⟨Int8.le_iff_toInt_le.mp h.1, Int8.le_iff_toInt_le.mp h.2⟩
  exact showForm_eq (interval_shown hc) (resolution_shown hc) (rotation_shown hc)
    (hrange (hc.field .brightness)) (hrange (hc.field .contrast)) (hrange (hc.field .saturation))

/-- A form that shows what is in range is submitted from quality 5 on. -/
theorem meetsConstraints_iff (hc : InRange c) (ht : typed.Proper) (fingerprint : Text) :
    MeetsConstraints (showForm (configOut fingerprint c)) typed ↔ 5 ≤ c.quality := by
  have hq : (5 : UInt32) ≤ c.quality.toUInt32 ↔ 5 ≤ c.quality := by
    rw [UInt32.le_iff_toNat_le, UInt8.le_iff_toNat_le, UInt8.toNat_toUInt32]
    rfl
  rw [showForm_configOut hc]
  constructor
  · rintro ⟨-, -, h, -⟩
    exact hq.mp h
  · intro h
    have hle : c.quality ≤ 100 := hc.field .quality
    refine ⟨(hc.field .name).1, ht.token, hq.mpr h, ?_⟩
    show c.quality.toUInt32 ≤ 100
    rw [UInt32.le_iff_toNat_le, UInt8.toNat_toUInt32]
    exact UInt8.le_iff_toNat_le.mp hle

/-- Saving the page brings back what it shows. With a quality of 5 or more, what is shown of `c`
makes it `c` when it is posted to a camera with any configuration `d`, but for the secrets, which
stay those of `d` unless new ones are typed; and the page then shows what it showed. With a lower
quality, which `cfg_set` accepts, the form is not submitted. -/
theorem page_restores (wire : Text → Text) (hwire : ∀ s, Plain s → wire s = s) (fingerprint : Text)
    (c d : Cfg) (typed : Typed) (hc : InRange c) (hd : InRange d) (ht : typed.Proper)
    (hname : Plain c.name) (htoken : Plain typed.token) (hpassword : Plain typed.password)
    (flash : Option Cfg) :
    let o := configOut fingerprint c
    let r := withSecrets c d typed
    (5 ≤ c.quality → ∃ post, save wire o typed = some post ∧
      applyPost ⟨d, flash⟩ (some post) 0 = (⟨r, some r⟩, 0) ∧
        configOut fingerprint r = { o with tokenSet := decide (r.token ≠ []) }) ∧
      (c.quality < 5 → save wire o typed = none) := by
  intro o r
  constructor
  · intro hq
    have hw : Carries wire c typed :=
      ⟨hwire, hwire _ hname, hwire _ htoken, hwire _ hpassword⟩
    refine ⟨onsubmit wire o typed, ?_, save_shown hc hd ht hw fingerprint flash, rfl⟩
    rw [save, if_pos ((meetsConstraints_iff hc ht fingerprint).mpr hq),
      showForm_configOut hc]
  · intro hq
    rw [save, if_neg fun h => absurd ((meetsConstraints_iff hc ht fingerprint).mp h)
      (UInt8.not_le.mpr hq)]

def sideways : Cfg :=
  { cfgDefault with rotation := 1, ip := 0xC0A80032, netmask := 0xFFFFFF00, gateway := 0xC0A80001 }

theorem sideways_inRange : InRange sideways := inRange_iff.mpr (by decide)

/-- Saved over the default, with a password typed in; but not with a quality of 3. -/
theorem page_restores_sideways :
    let r : Cfg := { sideways with password := text "secret" }
    (∃ post, save id (configOut [] sideways) ⟨[], text "secret"⟩ = some post ∧
      applyPost ⟨cfgDefault, none⟩ (some post) 0 = (⟨r, some r⟩, 0) ∧
        configOut [] r = configOut [] sideways) ∧
      save id (configOut [] { sideways with quality := 3 }) ⟨[], []⟩ = none := by
  have hrestores := (page_restores id (fun _ _ => rfl) [] sideways cfgDefault ⟨[], text "secret"⟩
    sideways_inRange (inRange_iff.mpr cfgDefault_valid) ⟨.inl rfl, by decide⟩ (by decide)
    (by decide) (by decide) none).1 (by decide)
  have hrefuses := (page_restores id (fun _ _ => rfl) [] { sideways with quality := 3 } cfgDefault
    ⟨[], []⟩ (inRange_iff.mpr (by decide)) (inRange_iff.mpr cfgDefault_valid)
    ⟨.inl rfl, Nat.zero_le _⟩ (by decide) (by decide) (by decide) none).2 (by decide)
  exact ⟨hrestores, hrefuses⟩

/-- The page shows everything but the secrets: two configurations look the same if and only if they
differ in nothing but the token and the password, and a token is set in both or in neither. -/
theorem page_hides_secrets (fingerprint : Text) (c c' : Cfg) (hc : InRange c) (hc' : InRange c') :
    configOut fingerprint c = configOut fingerprint c' ↔
      (∀ f, f ≠ .token → f ≠ .password → c.get f = c'.get f) ∧ (c.token = [] ↔ c'.token = []) := by
  constructor
  · intro h
    -- what is shown of the two, saved on the same camera, makes the same of it
    have hproper : (⟨[], []⟩ : Typed).Proper := ⟨.inl rfl, Nat.zero_le _⟩
    have hsave := save_shown hc hc hproper ⟨fun _ _ => rfl, rfl, rfl, rfl⟩ fingerprint none
    have hsave' := save_shown hc' hc hproper ⟨fun _ _ => rfl, rfl, rfl, rfl⟩ fingerprint none
    rw [h] at hsave
    have hsame : withSecrets c c ⟨[], []⟩ = withSecrets c' c ⟨[], []⟩ :=
      congrArg (fun r : CfgStore × Int => r.1.ram) (hsave.symm.trans hsave')
    refine ⟨fun f ht hp => ?_, ?_⟩
    · have hget := congrArg (·.get f) hsame
      rwa [withSecrets_get ht hp, withSecrets_get ht hp] at hget
    · have hset : decide (c.token ≠ []) = decide (c'.token ≠ []) := congrArg ConfigOut.tokenSet h
      exact not_iff_not.mp (decide_eq_decide.mp hset)
  · rintro ⟨hget, htoken⟩
    obtain ⟨t, p, rfl⟩ : ∃ t p, c' = { c with token := t, password := p } := by
      refine ⟨c'.token, c'.password, cfg_ext fun f => ?_⟩
      cases f with
      | token | password => rfl
      | _ => exact (hget _ (by decide) (by decide)).symm
    have hset : decide (c.token ≠ []) = decide (t ≠ []) := decide_eq_decide.mpr (not_congr htoken)
    show configOut fingerprint c = { configOut fingerprint c with tokenSet := decide (t ≠ []) }
    rw [← hset]
    rfl

/-- The page does not tell whether there is a password. -/
theorem page_hides_secrets_sideways :
    configOut [] sideways = configOut [] { sideways with password := text "secret" } :=
  (page_hides_secrets [] sideways { sideways with password := text "secret" } sideways_inRange
    (inRange_iff.mpr (by decide))).mpr ⟨fun f ht hp => by cases f <;> first | rfl | contradiction,
      Iff.rfl⟩

end ZephyrApps.ConfigPages
