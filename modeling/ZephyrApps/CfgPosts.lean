import ZephyrApps.CfgUpdates

/-!
# What a POST of the configuration stores

`apply_post` is compared with what the body asks of each field: a value, and one that the
field may have. What is out of range reaches `cfg_set` clamped to the type of its field.
-/
namespace ZephyrApps.CfgPosts
open AppSettings CStrings HttpUtil PrusaCfg CfgUpdates

/-- `apply_post`, with nothing between its `cfg_get` and its `cfg_set`; `saved` is what
`settings_save_one` returns. -/
def applyPost (s : CfgStore) (parsed : Option CfgPost) (saved : Int) : CfgStore × Int :=
  commit (.post parsed) s s.ram saved

/-- `s` is empty, or the address `ip`. -/
def AddressOf (s : Text) (ip : UInt32) : Prop := (s = [] ∧ ip = 0) ∨ (s ≠ [] ∧ DottedQuad s ip)

/-- What a body wants of a field that it names: the values that are what it says. -/
def asks (p : CfgPost) : (f : Field) → Option (f.Val → Prop)
  | .token => p.token.map fun s x => x = s
  | .password => p.password.map fun s x => x = s
  | .name => p.name.map fun s x => x = s
  | .intervalS => p.interval.map fun v x => (x.toNat : Int) = v
  | .resolution => p.resolution.map fun s x => cfgResolutionFind s = some x.toNat
  | .quality => p.quality.map fun v x => (x.toNat : Int) = v
  | .hflip => p.hflip.map fun v x => x = v
  | .vflip => p.vflip.map fun v x => x = v
  | .flash => p.flash.map fun v x => x = v
  | .rotation => p.rotation.map fun v x => (x.toNat : Int) * 90 = v
  | .ip => p.ip.map AddressOf
  | .netmask => p.netmask.map AddressOf
  | .gateway => p.gateway.map AddressOf
  | .dns => p.dns.map AddressOf
  | .brightness => p.brightness.map fun v x => x.toInt = v
  | .contrast => p.contrast.map fun v x => x.toInt = v
  | .saturation => p.saturation.map fun v x => x.toInt = v
  | .autoExposure => p.autoExposure.map fun v x => x = v
  | .autoWb => p.autoWb.map fun v x => x = v
  | .autoGain => p.autoGain.map fun v x => x = v

/-- `new` is what is asked for, or the old value where nothing is. -/
def Answers {V : Type} (ask : Option (V → Prop)) (old new : V) : Prop :=
  match ask with
  | none => new = old
  | some holds => holds new

/-- `new` is `old` with the fields that the body names replaced by what it says of them. -/
def Replaces (p : CfgPost) (old new : Cfg) : Prop :=
  ∀ f, Answers (asks p f) (old.get f) (new.get f)

def Allowed : (f : Field) → f.Val → Prop
  | .token, x => x = [] ∨ prusaCameraTokenValid x = true
  | .password, x => x.length ≤ cfgPasswordMax
  | .name, x => x ≠ [] ∧ x.length ≤ cfgNameMax
  | .intervalS, x => x.toNat ∈ [10, 30, 60, 600]
  | .resolution, x => x.toNat < cfgResolutions.length
  | .quality, x => x ≤ 100
  | .rotation, x => x ≤ 3
  | .brightness, x | .contrast, x | .saturation, x => -2 ≤ x ∧ x ≤ 2
  | _, _ => True

structure InRange (c : Cfg) : Prop where
  field : ∀ f, Allowed f (c.get f)
  fixed : c.ip ≠ 0 → c.netmask ≠ 0 ∧ c.gateway ≠ 0

/-- Either an error, with everything as it was, or 0, and then both copies of the configuration
are the old one with what the body asks for. -/
def Exact (s : CfgStore) (parsed : Option CfgPost) (r : CfgStore × Int) : Prop :=
  (r.2 ≠ 0 ∧ r.1 = s) ∨
    (r.2 = 0 ∧ ∃ p new, parsed = some p ∧ Replaces p s.ram new ∧ InRange new ∧
      r.1 = ⟨new, some new⟩)

def value (p : CfgPost) : (f : Field) → Option (Except Int f.Val)
  | .token => p.token.map (fits cfgTokenMax)
  | .password => p.password.map (fits cfgPasswordMax)
  | .name => p.name.map (fits cfgNameMax)
  | .intervalS => p.interval.map fun v => .ok (clampU16 v)
  | .resolution => p.resolution.map postResolution
  | .quality => p.quality.map fun v => .ok (clampU8 v)
  | .hflip => p.hflip.map .ok
  | .vflip => p.vflip.map .ok
  | .flash => p.flash.map .ok
  | .rotation => p.rotation.map postRotation
  | .ip => p.ip.map postIp
  | .netmask => p.netmask.map postIp
  | .gateway => p.gateway.map postIp
  | .dns => p.dns.map postIp
  | .brightness => p.brightness.map fun v => .ok (clampI8 v)
  | .contrast => p.contrast.map fun v => .ok (clampI8 v)
  | .saturation => p.saturation.map fun v => .ok (clampI8 v)
  | .autoExposure => p.autoExposure.map .ok
  | .autoWb => p.autoWb.map .ok
  | .autoGain => p.autoGain.map .ok

/-- The order in which `apply_post` looks at the fields. -/
def postOrder : List Field :=
  [.token, .password, .intervalS, .resolution, .quality, .hflip, .vflip, .flash, .rotation, .ip,
    .netmask, .gateway, .dns, .name, .brightness, .contrast, .saturation, .autoExposure, .autoWb,
    .autoGain]

theorem fields_eq (p : CfgPost) : p.fields = postOrder.map fun f => ⟨f, value p f⟩ := rfl

theorem postOrder_nodup : postOrder.Nodup := by decide

theorem mem_postOrder (f : Field) : f ∈ postOrder := by
  cases f <;> decide

theorem cfg_ext {a b : Cfg} (h : ∀ f, a.get f = b.get f) : a = b := by
  cases a
  cases b
  rw [Cfg.mk.injEq]
  exact ⟨h .token, h .password, h .name, h .intervalS, h .resolution, h .quality, h .hflip,
    h .vflip, h .flash, h .rotation, h .ip, h .netmask, h .gateway, h .dns, h .brightness,
    h .contrast, h .saturation, h .autoExposure, h .autoWb, h .autoGain⟩

/-- A field that comes to `r` goes through with the value `new`. -/
def Goes {V : Type} (r : Option (Except Int V)) (old new : V) : Prop :=
  Answers (r.map fun e x => e = .ok x) old new

/-- Each field is set once, so that the order does not matter. -/
theorem applyFields_ok {vals : (f : Field) → Option (Except Int f.Val)} {order : List Field}
    (hd : order.Nodup) {c c' : Cfg} :
    applyFields (order.map fun f => ⟨f, vals f⟩) c = .ok c' ↔
      ∀ f, Goes (if f ∈ order then vals f else none) (c.get f) (c'.get f) := by
  induction order generalizing c with
  | nil =>
    constructor
    · intro h f
      cases h
      rfl
    · intro h
      rw [cfg_ext fun f => h f]
      rfl
  | cons g order ih =>
    obtain ⟨hg, hd⟩ := List.nodup_cons.mp hd
    have hother {f : Field} (hf : f ≠ g) : (f ∈ g :: order) = (f ∈ order) := by simp [hf]
    rw [List.map_cons]
    cases hv : vals g with
    | none =>
      rw [applyFields, ih hd]
      refine forall_congr' fun f => ?_
      by_cases hf : f = g
      · subst hf
        rw [if_neg hg, if_pos List.mem_cons_self, hv]
      · simp only [hother hf]
    | some r =>
      cases r with
      | error err =>
        refine iff_of_false (fun h => nomatch h) fun h => ?_
        have hself := h g
        rw [if_pos List.mem_cons_self, hv] at hself
        exact nomatch hself
      | ok v =>
        rw [applyFields, ih hd]
        refine forall_congr' fun f => ?_
        by_cases hf : f = g
        · subst hf
          rw [if_neg hg, if_pos List.mem_cons_self, hv, get_set]
          exact Iff.intro (fun h => congrArg Except.ok h.symm) fun h => (Except.ok.inj h).symm
        · simp only [hother hf, get_set_ne c (Ne.symm hf) v]

theorem apply_ok {p : CfgPost} {old new : Cfg} :
    (Update.post (some p)).apply old = .ok new ↔
      ∀ f, Goes (value p f) (old.get f) (new.get f) := by
  show applyFields p.fields old = .ok new ↔ _
  rw [fields_eq, applyFields_ok postOrder_nodup]
  exact forall_congr' fun f => by rw [if_pos (mem_postOrder f)]

theorem goes_map {α V : Type} {g : α → Except Int V} {holds : α → V → Prop} {o : Option α}
    {old x : V} (h : ∀ a ∈ o, g a = .ok x ↔ holds a x) :
    Goes (o.map g) old x ↔ Answers (o.map holds) old x := by
  cases o with
  | none => exact Iff.rfl
  | some a => exact h a rfl

theorem fits_ok {n : ℕ} {s x : Text} (hx : x.length ≤ n) : fits n s = .ok x ↔ x = s := by
  unfold fits
  constructor
  · intro h
    split at h
    · cases h
    · exact (Except.ok.inj h).symm
  · rintro rfl
    exact if_neg (not_lt.mpr hx)

/-- A clamp that ends inside the bounds has changed nothing; at the lower bound it may have. -/
theorem clamp_eq {v lo hi y : Int} (hlo : lo < y ∨ lo ≤ v ∧ lo ≤ y) (hhi : y < hi) :
    clamp v lo hi = y ↔ y = v := by
  unfold clamp
  split
  · omega
  · split
    · omega
    · exact eq_comm

theorem clamp_mem {lo hi : Int} (v : Int) (h : lo ≤ hi) : lo ≤ clamp v lo hi ∧ clamp v lo hi ≤ hi := by
  unfold clamp
  split
  · omega
  · split <;> omega

theorem clampU16_iff {v : Int} {x : UInt16} : clampU16 v = x ↔ clamp v 0 65535 = x.toNat := by
  obtain ⟨hlo, hhi⟩ := clamp_mem v (show (0 : Int) ≤ 65535 by decide)
  have hsmall : (clamp v 0 65535).toNat < UInt16.size := by simp [UInt16.size]; omega
  rw [clampU16, ← UInt16.toNat_inj, UInt16.toNat_ofNat_of_lt' hsmall]
  omega

theorem clampU8_iff {v : Int} {x : UInt8} : clampU8 v = x ↔ clamp v 0 255 = x.toNat := by
  obtain ⟨hlo, hhi⟩ := clamp_mem v (show (0 : Int) ≤ 255 by decide)
  have hsmall : (clamp v 0 255).toNat < UInt8.size := by simp [UInt8.size]; omega
  rw [clampU8, ← UInt8.toNat_inj, UInt8.toNat_ofNat_of_lt' hsmall]
  omega

theorem clampI8_iff {v : Int} {x : Int8} : clampI8 v = x ↔ clamp v (-128) 127 = x.toInt := by
  obtain ⟨hlo, hhi⟩ := clamp_mem v (show (-128 : Int) ≤ 127 by decide)
  rw [clampI8, ← Int8.toInt_inj, Int8.toInt_ofInt_of_le (by simpa using hlo) (by simp; omega)]

theorem postResolution_ok {name : Text} {x : UInt8} :
    postResolution name = .ok x ↔ cfgResolutionFind name = some x.toNat := by
  unfold postResolution
  cases h : cfgResolutionFind name with
  | none => exact iff_of_false (fun h => nomatch h) fun h => nomatch h
  | some i =>
    have hi : i < 6 := (List.findIdx?_eq_some_iff_findIdx_eq.mp h).1
    have hsmall : i < UInt8.size := by simp [UInt8.size]; omega
    rw [Except.ok.injEq, Option.some.injEq, ← UInt8.toNat_inj, UInt8.toNat_ofNat_of_lt' hsmall]

theorem postRotation_ok {r : Int} {x : UInt8} (hx : x ≤ 3) :
    postRotation r = .ok x ↔ (x.toNat : Int) * 90 = r := by
  have hle : x.toNat ≤ 3 := hx
  unfold postRotation
  by_cases hr : r < 0
  · rw [if_pos (Or.inr (Or.inl hr))]
    exact iff_of_false (fun h => nomatch h) (by omega)
  · rw [Int.tmod_eq_emod_of_nonneg (by omega), Int.tdiv_eq_ediv_of_nonneg (by omega)]
    split
    case isTrue hout => exact iff_of_false (fun h => nomatch h) (by omega)
    case isFalse hout =>
      have hsmall : (r / 90).toNat < UInt8.size := by simp only [UInt8.size]; omega
      rw [Except.ok.injEq, ← UInt8.toNat_inj, UInt8.toNat_ofNat_of_lt' hsmall]
      omega

theorem postIp_ok {s : Text} {ip : UInt32} : postIp s = .ok ip ↔ AddressOf s ip := by
  unfold postIp parseIp AddressOf
  by_cases hs : s = []
  · rw [if_pos hs]
    simp [hs, eq_comm]
  · rw [if_neg hs]
    simp only [hs, false_and, ne_eq, not_false_eq_true, true_and, false_or, ← httpParseIpv4_iff]
    cases httpParseIpv4 s with
    | error err => exact iff_of_false (fun h => nomatch h) fun h => nomatch h
    | ok ip' => exact Iff.rfl

theorem level_ok {v : Int} {x : Int8} (hx : -2 ≤ x ∧ x ≤ 2) :
    (Except.ok (clampI8 v) : Except Int Int8) = .ok x ↔ x.toInt = v := by
  have hlo : -2 ≤ x.toInt := Int8.le_iff_toInt_le.mp hx.1
  have hhi : x.toInt ≤ 2 := Int8.le_iff_toInt_le.mp hx.2
  rw [Except.ok.injEq, clampI8_iff, clamp_eq (by omega) (by omega)]

theorem same_ok {V : Type} {v x : V} : (Except.ok v : Except Int V) = .ok x ↔ x = v := by
  rw [Except.ok.injEq, eq_comm]

theorem length_of_valid {token : Text} (h : prusaCameraTokenValid token = true) :
    token.length = 20 := by
  unfold prusaCameraTokenValid at h
  simpa using (Bool.and_eq_true_iff.mp h).1

def NegativeQuality (p : CfgPost) : Prop := ∃ q ∈ p.quality, q < 0

/-- What a field goes through with, where that is allowed, is what the body asks for. -/
theorem goes_iff {p : CfgPost} (hp : ¬ NegativeQuality p) {f : Field} {old x : f.Val}
    (hx : Allowed f x) : Goes (value p f) old x ↔ Answers (asks p f) old x := by
  cases f with
  | token =>
    refine goes_map fun s _ => fits_ok ?_
    rcases hx with rfl | hx
    · exact Nat.zero_le _
    · rw [length_of_valid hx]
      decide
  | password => exact goes_map fun s _ => fits_ok hx
  | name => exact goes_map fun s _ => fits_ok hx.2
  | intervalS =>
    refine goes_map fun v _ => ?_
    have hmem : x.toNat ∈ [10, 30, 60, 600] := hx
    have hbounds : 0 < x.toNat ∧ x.toNat < 65535 := by
      simp only [List.mem_cons, List.not_mem_nil, or_false] at hmem
      omega
    rw [Except.ok.injEq, clampU16_iff, clamp_eq (by omega) (by omega)]
  | resolution => exact goes_map fun s _ => postResolution_ok
  | quality =>
    refine goes_map fun v hv => ?_
    have hpos : 0 ≤ v := not_lt.mp fun h => hp ⟨v, hv, h⟩
    have hle : x.toNat ≤ 100 := hx
    rw [Except.ok.injEq, clampU8_iff, clamp_eq (by omega) (by omega)]
  | rotation => exact goes_map fun r _ => postRotation_ok hx
  | ip | netmask | gateway | dns => exact goes_map fun s _ => postIp_ok
  | brightness | contrast | saturation => exact goes_map fun v _ => level_ok hx
  | hflip | vflip | flash | autoExposure | autoWb | autoGain => exact goes_map fun v _ => same_ok

theorem trigger_none {n : ℕ} : prusaCameraTriggerFromSeconds n = none ↔ n ∉ [10, 30, 60, 600] := by
  unfold prusaCameraTriggerFromSeconds
  rw [List.findIdx?_eq_none_iff]
  simp [eq_comm]

/-- `cfg_set` lets through what is in range. -/
theorem inRange_iff {c : Cfg} : InRange c ↔ ¬ c.Refused := by
  constructor
  · intro h
    have htoken : c.token = [] ∨ prusaCameraTokenValid c.token = true := h.field .token
    have hlen : c.token.length ≤ cfgTokenMax := by
      rcases htoken with ht | ht
      · simp [ht]
      · rw [length_of_valid ht]
        decide
    rintro (hr | hr | hr | hr | hr | hr | hr | hr | hr | hr | hr | hr | hr)
    · exact trigger_none.mp hr (h.field .intervalS)
    · exact htoken.elim hr.1 fun ht => Bool.noConfusion (ht.symm.trans hr.2)
    · exact (h.field .name).1 hr
    · exact absurd (h.field .name).2 (not_le.mpr hr)
    · exact hr (h.field .brightness)
    · exact hr (h.field .contrast)
    · exact hr (h.field .saturation)
    · exact absurd (h.field .resolution) (not_lt.mpr hr)
    · exact absurd (h.field .quality) (UInt8.not_le.mpr hr)
    · exact absurd (h.field .rotation) (UInt8.not_le.mpr hr)
    · exact hr.2.elim (h.fixed hr.1).1 (h.fixed hr.1).2
    · exact absurd hlen (not_le.mpr hr)
    · exact absurd (h.field .password) (not_le.mpr hr)
  · intro h
    unfold Cfg.Refused at h
    simp only [not_or, not_lt, not_le, UInt8.not_lt] at h
    obtain ⟨hi, ht, hn, hn', hb, hc, hs, hres, hq, hrot, hip, -, hpw⟩ := h
    refine ⟨fun f => ?_, fun h => not_or.mp fun hz => hip ⟨h, hz⟩⟩
    cases f with
    | token =>
      by_cases hne : c.token = []
      · exact Or.inl hne
      · exact Or.inr (Bool.eq_true_of_not_eq_false fun hv => ht ⟨hne, hv⟩)
    | password => exact hpw
    | name => exact ⟨hn, hn'⟩
    | intervalS => exact not_not.mp fun h => hi (trigger_none.mpr h)
    | resolution => exact hres
    | quality => exact hq
    | rotation => exact hrot
    | brightness => exact not_not.mp hb
    | contrast => exact not_not.mp hc
    | saturation => exact not_not.mp hs
    | _ => trivial

/-- Where no quality is below 0, a configuration in range that `apply_post` makes of its copy is
what the body asks for. -/
theorem apply_iff {p : CfgPost} (hp : ¬ NegativeQuality p) {old new : Cfg} (hnew : InRange new) :
    (Update.post (some p)).apply old = .ok new ↔ Replaces p old new := by
  rw [apply_ok]
  exact forall_congr' fun f => goes_iff hp (hnew.field f)

/-- A POST is refused, or what it makes of the copy is stored. -/
theorem applyPost_cases (s : CfgStore) (parsed : Option CfgPost) (saved : Int) :
    ((applyPost s parsed saved).2 ≠ 0 ∧ (applyPost s parsed saved).1 = s) ∨
      ∃ p new, parsed = some p ∧ (Update.post (some p)).apply s.ram = .ok new ∧ InRange new ∧
        saved = 0 ∧ applyPost s parsed saved = (⟨new, some new⟩, 0) := by
  unfold applyPost commit
  cases h : (Update.post parsed).apply s.ram with
  | error err =>
    rw [apply_error h]
    exact Or.inl ⟨show einval ≠ 0 by decide, rfl⟩
  | ok new =>
    by_cases hs : Stores new saved
    · obtain ⟨p, rfl⟩ : ∃ p, parsed = some p := by
        cases parsed with
        | none => cases h
        | some p => exact ⟨p, rfl⟩
      exact Or.inr ⟨p, new, rfl, h, inRange_iff.mpr hs.1, hs.2, cfgSet_stores hs s⟩
    · obtain ⟨err, he, hr⟩ := cfgSet_refuses hs s
      refine Or.inl ?_
      show (cfgSet s new saved).2 ≠ 0 ∧ (cfgSet s new saved).1 = s
      rw [hr]
      exact ⟨he, rfl⟩

theorem applyPost_stores {s : CfgStore} {p : CfgPost} {new : Cfg}
    (h : (Update.post (some p)).apply s.ram = .ok new) (hnew : InRange new) :
    applyPost s (some p) 0 = (⟨new, some new⟩, 0) := by
  unfold applyPost commit
  rw [h]
  exact cfgSet_stores ⟨inRange_iff.mp hnew, rfl⟩ s

/-- Without a quality below 0, a POST is accepted if what it asks for is in range and can be
saved. -/
theorem applyPost_zero {s : CfgStore} {p : CfgPost} (hp : ¬ NegativeQuality p) (saved : Int) :
    (applyPost s (some p) saved).2 = 0 ↔ saved = 0 ∧ ∃ new, Replaces p s.ram new ∧ InRange new := by
  constructor
  · intro h
    rcases applyPost_cases s (some p) saved with ⟨hne, -⟩ | ⟨q, new, hq, hnew, hr, hs, -⟩
    · exact absurd h hne
    · cases hq
      exact ⟨hs, new, (apply_iff hp hr).mp hnew, hr⟩
  · rintro ⟨rfl, new, hrep, hnew⟩
    rw [applyPost_stores ((apply_iff hp hnew).mpr hrep) hnew]

def withZeroQuality (p : CfgPost) : CfgPost := { p with quality := some 0 }

theorem withZeroQuality_nonneg (p : CfgPost) : ¬ NegativeQuality (withZeroQuality p) := by
  rintro ⟨q, hq, hneg⟩
  cases hq
  exact absurd hneg (by decide)

/-- `apply_post` does not tell a quality below 0 from 0. -/
theorem applyPost_withZeroQuality {p : CfgPost} (hp : NegativeQuality p) (s : CfgStore)
    (saved : Int) : applyPost s (some p) saved = applyPost s (some (withZeroQuality p)) saved := by
  obtain ⟨q, hq, hneg⟩ := hp
  have hclamp : clampU8 q = clampU8 0 := by
    rw [clampU8, clamp, if_pos (by omega)]
    rfl
  have hvalue : value p = value (withZeroQuality p) := by
    funext f
    cases f with
    | quality =>
      show p.quality.map _ = some (Except.ok (clampU8 0))
      rw [hq, Option.map_some, hclamp]
    | _ => rfl
  have happly (c : Cfg) :
      (Update.post (some p)).apply c = (Update.post (some (withZeroQuality p))).apply c := by
    show applyFields p.fields c = applyFields (withZeroQuality p).fields c
    rw [fields_eq, fields_eq, hvalue]
  unfold applyPost commit
  rw [happly]

/-- A body is answered as it should be, unless it asks for a quality below 0 and would be accepted
with 0 for that. -/
theorem exact_iff (s : CfgStore) (parsed : Option CfgPost) (saved : Int) :
    Exact s parsed (applyPost s parsed saved) ↔
      ∀ p ∈ parsed, NegativeQuality p → saved = 0 →
        ¬ ∃ new, Replaces (withZeroQuality p) s.ram new ∧ InRange new := by
  constructor
  · rintro h p rfl hneg hs hnew
    have hzero : (applyPost s (some p) saved).2 = 0 := by
      rw [applyPost_withZeroQuality hneg]
      exact (applyPost_zero (withZeroQuality_nonneg p) saved).mpr ⟨hs, hnew⟩
    obtain ⟨q, hq, hneg⟩ := hneg
    rcases h with ⟨hne, -⟩ | ⟨-, p', new, hp', hrep, -, -⟩
    · exact hne hzero
    · cases hp'
      -- no quality is the one that the body asks for
      have hask : Answers (asks p .quality) (s.ram.get .quality) (new.get .quality) :=
        hrep .quality
      rw [asks, hq] at hask
      have hval : (new.quality.toNat : Int) = q := hask
      omega
  · intro h
    rcases applyPost_cases s parsed saved with hr | ⟨p, new, rfl, hnew, hr, hs, hres⟩
    · exact Or.inl hr
    · have hp : ¬ NegativeQuality p := by
        intro hneg
        have hzero : (applyPost s (some (withZeroQuality p)) saved).2 = 0 := by
          rw [← applyPost_withZeroQuality hneg, hres]
        exact h p rfl hneg hs ((applyPost_zero (withZeroQuality_nonneg p) saved).mp hzero).2
      rw [hres]
      exact Or.inr ⟨rfl, p, new, rfl, (apply_iff hp hr).mp hnew, hr, rfl⟩

/-- A quality of -5 is stored as 0. -/
theorem negativeQuality_stored :
    ¬ Exact ⟨cfgDefault, none⟩ (some { CfgPost.empty with quality := some (-5) })
      (applyPost ⟨cfgDefault, none⟩ (some { CfgPost.empty with quality := some (-5) }) 0) := by
  rintro (⟨hne, -⟩ | ⟨-, p, new, hp, hrep, -, -⟩)
  · exact hne (by decide)
  · cases hp
    have hval : (new.quality.toNat : Int) = -5 := hrep .quality
    omega

end ZephyrApps.CfgPosts
