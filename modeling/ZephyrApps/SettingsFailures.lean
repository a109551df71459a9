import ZephyrApps.AdminGate
import ZephyrApps.SettingsReboot

/-!
# What a failed settings operation leaves behind

The setters of `app_settings.c` and the two admin posts that write settings. An
operation that writes one key changes nothing when it fails; one that writes several
may have saved some of them by then.
-/
namespace ZephyrApps.SettingsFailures
open AppSettings CStrings LittleEndianWords SettingsStore SettingsReboot ApiReplies PeerTableRoute
  AdminHandlers AdminGate

inductive SettingsOp where
  | setPeer (slot : Int) (ip : UInt32) (port : UInt16) (id : UInt32) (saved : Int)
  | clearPeer (slot : Int) (saved : Int)
  | setDeviceId (id : UInt32) (saved : Int)
  | setRingOffset (offset : UInt8) (saved : Int)
  | setOperator (op : Bool) (saved : Int)
  | wifiSetAll (nets : WifiIdx → WifiNet) (saved : WifiIdx → Int)
  | adminSettings (auth : Option Text) (body : Text) (savedRing savedId : Int)
  | adminWifi (auth : Option Text) (body : Text) (saved : WifiIdx → Int)

def settled (d : Remote) (r : Config × Int) : Remote × Bool :=
  ({ d with config := r.1 }, decide (r.2 ≠ 0))

/-- What a handler leaves, and whether it answered 4xx or 5xx. -/
def answered (r : Remote × Response) : Remote × Bool := (r.1, decide (400 ≤ r.2.status))

variable (fw : Firmware) (d : Remote)

/-- The operation, and whether it failed; the handlers get the server's buffer. -/
def perform : SettingsOp → Remote × Bool
  | .setPeer slot ip port id saved => settled d (d.config.setPeer slot ip port id saved)
  | .clearPeer slot saved => settled d (d.config.clearPeer slot saved)
  | .setDeviceId id saved => settled d (d.config.setDeviceId id saved)
  | .setRingOffset offset saved => settled d (d.config.setRingOffset offset saved)
  | .setOperator op saved => settled d (d.config.setOperator op saved)
  | .wifiSetAll nets saved => settled d (d.config.wifiSetAll nets saved)
  | .adminSettings auth body savedRing savedId =>
    answered (pstopApiAdminSettings fw auth pstopApiBodyMax d true body savedRing savedId)
  | .adminWifi auth body saved =>
    answered (pstopApiAdminWifi fw auth pstopApiBodyMax d true body saved)

/-- What the getters of `app_settings.h` return. -/
structure Getters where
  peerGet : Int → Except Int Peer
  deviceId : UInt32
  effectiveDeviceId : UInt32
  ringOffset : UInt8
  wifiGet : Int → Except Int WifiNet
  isOperator : Bool

def getters (img : Image) : Getters :=
  ⟨img.peerGet, img.deviceId, img.effectiveDeviceId, img.ringOffset, img.wifiGet, img.isOperator⟩

/-- No getter, no stored key and no reconfigure request differs. -/
structure Unchanged (d d' : Remote) : Prop where
  getters : getters d'.config.ram = getters d.config.ram
  flash : d'.config.flash = d.config.flash
  requests : d'.reconfigureRequests = d.reconfigureRequests

def FailsWhole (op : SettingsOp) : Prop := (perform fw d op).2 = true → Unchanged d (perform fw d op).1

variable {d}

theorem Unchanged.refl (d : Remote) : Unchanged d d := ⟨rfl, rfl, rfl⟩

def written (saved : WifiIdx → Int) : List WifiIdx :=
  (List.finRange 4).takeWhile fun i => decide (saved i = 0)

/-- The entry is in RAM and in flash as `nets` has it. -/
def Kept (c : Config) (nets : WifiIdx → WifiNet) (i : WifiIdx) : Prop :=
  c.ram.wifi i = nets i ∧ c.flash (Item.wifi i).key = some (wifiBytes (nets i))

/-- If a save of the list fails, those before it saved what was there. -/
def WifiWhole (c : Config) (nets : WifiIdx → WifiNet) (saved : WifiIdx → Int) : Prop :=
  (∃ i, saved i ≠ 0) → ∀ j ∈ written saved, Kept c nets j

/-- If the device id cannot be saved, the ring offset was not saved before it, or was
there already. -/
def RingWhole (c : Config) (offset : UInt8) (savedRing savedId : Int) : Prop :=
  savedRing = 0 → savedId ≠ 0 →
    c.ram.ringOffset = offset ∧ c.flash Item.ringOffset.key = some (wordBytes 1 offset.toNat)

variable (d)

/-- No save of the operation comes before one that fails, except of what was there. -/
def NothingSaved : SettingsOp → Prop
  | .wifiSetAll nets saved => WifiWhole d.config nets saved
  | .adminSettings auth body savedRing savedId =>
    adminOk fw auth pstopApiBodyMax = none → 0 < (fw.settingsJson body).fields →
      hasField (fw.settingsJson body).fields 0 = true → (fw.settingsJson body).ringOffset ≤ 15 →
      hasField (fw.settingsJson body).fields 1 = true →
      RingWhole d.config (fw.settingsJson body).ringOffset.toUInt8 savedRing savedId
  | .adminWifi auth body saved =>
    adminOk fw auth pstopApiBodyMax = none → (fw.wifiJson body).fields = 1 →
      ∀ nets, wifiFromJson d.config.ram (fw.wifiJson body) = .ok nets →
        WifiWhole d.config nets saved
  | _ => True

variable {d}

theorem saveOne_failed {saved : Int} (h : saved ≠ 0) (flash : Store) (key : Text)
    (value : List UInt8) : settingsSaveOne flash key value saved = flash := if_neg h

theorem storePeer_whole {c : Config} {slot : Int} {peer : Peer} {saved : Int}
    (h : (c.storePeer slot peer saved).2 ≠ 0) : (c.storePeer slot peer saved).1 = c := by
  unfold Config.storePeer at h ⊢
  cases hs : slotOf slot with
  | none => rfl
  | some i =>
    rw [hs] at h
    have hsaved : saved ≠ 0 := h
    simp only [if_neg hsaved, saveOne_failed hsaved]

theorem setDeviceId_whole {c : Config} {id : UInt32} {saved : Int}
    (h : (c.setDeviceId id saved).2 ≠ 0) : (c.setDeviceId id saved).1 = c := by
  have hsaved : saved ≠ 0 := h
  simp only [Config.setDeviceId, if_pos hsaved, saveOne_failed hsaved]

theorem setRingOffset_whole {c : Config} {offset : UInt8} {saved : Int}
    (h : (c.setRingOffset offset saved).2 ≠ 0) : (c.setRingOffset offset saved).1 = c := by
  unfold Config.setRingOffset at h ⊢
  by_cases ho : 16 ≤ offset
  · rw [if_pos ho]
  · rw [if_neg ho] at h ⊢
    have hsaved : saved ≠ 0 := h
    simp only [if_pos hsaved, saveOne_failed hsaved]

theorem setOperator_whole {c : Config} {op : Bool} {saved : Int}
    (h : (c.setOperator op saved).2 ≠ 0) : (c.setOperator op saved).1 = c := by
  have hsaved : saved ≠ 0 := h
  simp only [Config.setOperator, if_pos hsaved, saveOne_failed hsaved]

theorem settled_whole {r : Config × Int} (h : r.2 ≠ 0 → r.1 = d.config)
    (hf : (settled d r).2 = true) : Unchanged d (settled d r).1 := by
  have hr := h (of_decide_eq_true hf)
  simp only [settled, hr]
  exact Unchanged.refl d

def storeNet (nets : WifiIdx → WifiNet) (c : Config) (i : WifiIdx) : Config where
  ram := { c.ram with wifi := Function.update c.ram.wifi i (nets i) }
  flash := Function.update c.flash (Item.wifi i).key (some (wifiBytes (nets i)))

/-- The loop stores entries up to the first save that fails, and returns what it did. -/
theorem wifiLoop_eq (nets : WifiIdx → WifiNet) (saved : WifiIdx → Int) (rest : List WifiIdx)
    (c : Config) :
    (wifiLoop nets saved rest c).1 =
        (rest.takeWhile fun i => decide (saved i = 0)).foldl (storeNet nets) c ∧
      ((wifiLoop nets saved rest c).2 ≠ 0 ↔ ∃ i ∈ rest, saved i ≠ 0) := by
  induction rest generalizing c with
  | nil => simp [wifiLoop]
  | cons i rest ih =>
    rw [wifiLoop]
    by_cases hi : saved i = 0
    · obtain ⟨hc, hr⟩ := ih (storeNet nets c i)
      simp only [hi, ne_eq, not_true, if_false, settingsSaveOne, if_true, decide_true,
        List.takeWhile_cons_of_pos, List.foldl_cons, List.mem_cons, exists_eq_or_imp, false_or]
      exact ⟨hc, hr⟩
    · simp [hi, saveOne_failed hi]

theorem foldl_storeNet (nets : WifiIdx → WifiNet) (done : List WifiIdx) (c : Config) :
    (∀ i ∈ done, Kept (done.foldl (storeNet nets) c) nets i) ∧
      ((∀ i ∈ done, Kept c nets i) → done.foldl (storeNet nets) c = c) := by
  induction done using List.reverseRecOn with
  | nil => simp
  | append_singleton done i ih =>
    obtain ⟨hkept, hsame⟩ := ih
    rw [List.foldl_append, List.foldl_cons, List.foldl_nil]
    constructor
    · intro j hj
      by_cases hji : j = i
      · subst hji
        simp [Kept, storeNet]
      · have hjd : j ∈ done := (List.mem_append.mp hj).resolve_right (by simpa using hji)
        have hkey : (Item.wifi j).key ≠ (Item.wifi i).key := by
          intro hk
          cases key_injective hk
          exact hji rfl
        obtain ⟨hram, hflash⟩ := hkept j hjd
        simp only [Kept, storeNet, Function.update_of_ne hji, Function.update_of_ne hkey]
        exact ⟨hram, hflash⟩
    · intro h
      rw [hsame fun j hj => h j (by simp [hj])]
      obtain ⟨hram, hflash⟩ := h i (by simp)
      simp only [storeNet, ← hram, Function.update_eq_self]
      rw [hram, ← hflash, Function.update_eq_self]

/-- An unchanged remote has the entries it had. -/
theorem Kept.of_unchanged {d' : Remote} {nets : WifiIdx → WifiNet} {i : WifiIdx}
    (h : Unchanged d d') (hk : Kept d'.config nets i) : Kept d.config nets i := by
  have hget := congrArg Getters.wifiGet h.getters
  have hi := congrFun hget (i.val : Int)
  have hslot : slotOf (i.val : Int) = some i := slotOf_slot i
  simp only [getters, Image.wifiGet, hslot, Except.ok.injEq] at hi
  exact ⟨hi ▸ hk.1, h.flash ▸ hk.2⟩

/-- The list is stored whole or not at all exactly when the saves before a failure
saved what was there. -/
theorem wifiSetAll_whole {nets : WifiIdx → WifiNet} {saved : WifiIdx → Int} :
    ((d.config.wifiSetAll nets saved).2 ≠ 0 →
        Unchanged d { d with config := (d.config.wifiSetAll nets saved).1 }) ↔
      WifiWhole d.config nets saved := by
  obtain ⟨hc, hret⟩ := wifiLoop_eq nets saved (List.finRange 4) d.config
  have hfail : (d.config.wifiSetAll nets saved).2 ≠ 0 ↔ ∃ i, saved i ≠ 0 := by
    simpa only [Config.wifiSetAll, List.mem_finRange, true_and] using hret
  have hstored : (d.config.wifiSetAll nets saved).1 =
      (written saved).foldl (storeNet nets) d.config := hc
  obtain ⟨hkept, hsame⟩ := foldl_storeNet nets (written saved) d.config
  rw [hfail, hstored]
  constructor
  · intro h hi j hj
    exact Kept.of_unchanged (h hi) (hkept j hj)
  · intro h hi
    rw [hsame (h hi)]
    exact Unchanged.refl d

theorem length_cstr (bytes : List UInt8) : (cstr bytes).length ≤ bytes.length :=
  (List.takeWhile_prefix _).length_le

theorem length_int {k : ℤ} (h : k.natAbs ≤ 2 ^ 31) : (int k).length ≤ 11 := by
  have hdec : (dec k.natAbs).length ≤ 10 := length_dec (by decide) (h.trans_lt (by decide))
  have hsign : (text "-").length = 1 := rfl
  rw [int]
  split
  case isTrue =>
    rw [List.length_append]
    omega
  case isFalse => omega

/-- The list of networks is never too long for the server's buffer. -/
theorem wifiList_status (hidx : d.wifiActiveIdx.natAbs ≤ 2 ^ 31) :
    (wifiList fw pstopApiBodyMax d).status = 200 := by
  have hactive : (wifiActive fw d).natAbs ≤ 2 ^ 31 := by
    rw [wifiActive]
    split
    case isTrue => exact hidx
    case isFalse => decide
  have hint := length_int hactive
  have hstart : Fits pstopApiBodyMax 0 ⟨pstopApiBodyMax, [], false⟩ :=
    ⟨rfl, Nat.zero_le _, by decide, rfl⟩
  have hhead : (text "\x7b\"ok\":true,\"networks\":[").length ≤ 23 := by decide
  refine (((hstart.printf hhead (by decide)).foldl (k := 64) ?_ (List.finRange 4)
    (by rw [List.length_finRange]; decide)).printf (k := 30) ?_
    (by rw [List.length_finRange]; decide)).status 200
  · intro of i n hroom h
    dsimp only
    by_cases hempty : cstr (d.config.ram.wifi i).ssid = []
    · rw [if_pos hempty]
      exact ⟨h.total, h.length.trans (Nat.le_add_right _ _), hroom, h.complete⟩
    · rw [if_neg hempty]
      refine h.printf ?_ hroom
      have hssid := length_cstr (d.config.ram.wifi i).ssid
      have hsize := (d.config.ram.wifi i).ssid_length
      have hcomma : (if of.2 then [] else text ",").length ≤ 1 := by split <;> decide
      have hmask : (if cstr (d.config.ram.wifi i).pass = [] then [] else wifiMask).length ≤ 8 := by
        split <;> decide
      have h1 : (text "\x7b\"ssid\":\"").length = 9 := rfl
      have h2 : (text "\",\"pass\":\"").length = 10 := rfl
      have h3 : (text "\"\x7d").length = 2 := rfl
      simp only [List.length_append, h1, h2, h3]
      simp only [wifiSsidMax] at hsize
      omega
  · have h1 : (text "],\"active_idx\":").length = 15 := rfl
    have h2 : (text "\x7d").length = 1 := rfl
    simp only [List.length_append, h1, h2]
    omega

theorem answered_refused (cap : ℕ) (status : Int) (s : Text) (h : 400 ≤ status) :
    (answered (d, reply cap status s)).2 = true := by
  rcases reply_status cap status s with he | he
  · simp [answered, he, h]
  · simp [answered, he]

def settingsAnswer (d : Remote) : Remote × Response :=
  (d, reply pstopApiBodyMax 200 (text "\x7b\"ok\":true,\"ring_offset\":" ++
    dec d.config.ram.ringOffset.toNat ++ text ",\"device_id\":" ++
    dec d.config.ram.effectiveDeviceId.toNat ++ text ",\"device_id_pinned\":" ++
    boolText (decide (d.config.ram.deviceId ≠ 0)) ++ text "\x7d"))

theorem settingsAnswer_served (d : Remote) : (answered (settingsAnswer d)).2 = false := by
  have hring : (dec d.config.ram.ringOffset.toNat).length ≤ 3 :=
    length_dec (by decide) (d.config.ram.ringOffset.toNat_lt.trans (by decide))
  have hid := length_dec_word d.config.ram.effectiveDeviceId
  have hpinned := length_boolText (decide (d.config.ram.deviceId ≠ 0))
  have h1 : (text "\x7b\"ok\":true,\"ring_offset\":").length = 25 := rfl
  have h2 : (text ",\"device_id\":").length = 13 := rfl
  have h3 : (text ",\"device_id_pinned\":").length = 20 := rfl
  have h4 : (text "\x7d").length = 1 := rfl
  have hstatus : (settingsAnswer d).2.status = 200 := by
    apply served_reply (le_refl _)
    simp only [List.length_append, h1, h2, h3, h4, pstopApiBodyMax]
    omega
  rw [answered, hstatus]
  rfl

/-- The rest of a settings post, when the ring offset is done. -/
def settingsRest (d : Remote) (json : SettingsJson) (savedId : Int) : Remote × Response :=
  if hasField json.fields 1 then
    let d' := { d with config := (d.config.setDeviceId json.deviceId savedId).1 }
    if (d.config.setDeviceId json.deviceId savedId).2 ≠ 0 then
      (d', reply pstopApiBodyMax 500 (errorBody "settings write failed"))
    else settingsAnswer { d' with toControl := requestAll d'.toControl }
  else settingsAnswer d

/-- It fails when the device id cannot be saved, and leaves what it found. -/
theorem settingsRest_spec (d : Remote) (json : SettingsJson) (savedId : Int) :
    if hasField json.fields 1 = true ∧ savedId ≠ 0 then
      (settingsRest d json savedId).1 = d ∧ (answered (settingsRest d json savedId)).2 = true
    else (answered (settingsRest d json savedId)).2 = false := by
  have hret : (d.config.setDeviceId json.deviceId savedId).2 = savedId := rfl
  rw [settingsRest, hret]
  by_cases h1 : hasField json.fields 1 = true
  · by_cases hs : savedId = 0
    · simp only [h1, hs, ne_eq, not_true, and_false, if_false, if_true]
      exact settingsAnswer_served _
    · have hsame := setDeviceId_whole (hret.trans_ne hs)
      rw [if_pos ⟨h1, hs⟩, if_pos h1, if_pos hs]
      refine ⟨?_, answered_refused _ _ _ (by decide)⟩
      dsimp only
      rw [hsame]
  · rw [if_neg fun h => h1 h.1, if_neg h1]
    exact settingsAnswer_served d

theorem setRingOffset_small {c : Config} {offset : UInt8} {saved : Int} (h : ¬ 16 ≤ offset) :
    (c.setRingOffset offset saved).2 = saved := by
  rw [Config.setRingOffset, if_neg h]

def storeRing (c : Config) (offset : UInt8) : Config where
  ram := { c.ram with ringOffset := offset }
  flash := Function.update c.flash Item.ringOffset.key (some (wordBytes 1 offset.toNat))

theorem setRingOffset_saved {c : Config} {offset : UInt8} (h : ¬ 16 ≤ offset) :
    c.setRingOffset offset 0 = (storeRing c offset, 0) := by
  rw [Config.setRingOffset, if_neg h]
  rfl

theorem storeRing_unchanged {offset : UInt8} :
    Unchanged d { d with config := storeRing d.config offset } ↔
      d.config.ram.ringOffset = offset ∧
        d.config.flash Item.ringOffset.key = some (wordBytes 1 offset.toNat) := by
  constructor
  · intro h
    have hram : offset = d.config.ram.ringOffset := congrArg Getters.ringOffset h.getters
    have hflash := congrFun h.flash Item.ringOffset.key
    simp only [storeRing, Function.update_self] at hflash
    exact ⟨hram.symm, hflash.symm⟩
  · rintro ⟨hram, hflash⟩
    have hsame : storeRing d.config offset = d.config := by
      rw [storeRing, ← hflash, Function.update_eq_self, ← hram]
    rw [hsame]
    exact Unchanged.refl d

variable {fw}

/-- An operation that leaves the state it found fails whole. -/
theorem failsWhole_of_same {op : SettingsOp} (h : (perform fw d op).1 = d) : FailsWhole fw d op := by
  intro _
  rw [h]
  exact Unchanged.refl d

theorem failsWhole_of_served {op : SettingsOp} (h : (perform fw d op).2 = false) :
    FailsWhole fw d op := fun hf => absurd (h.symm.trans hf) (by decide)

theorem settings_checked {auth : Option Text} {body : Text} (d : Remote) (savedRing savedId : Int)
    (hgate : adminOk fw auth pstopApiBodyMax = none) (hf : ¬ (fw.settingsJson body).fields ≤ 0)
    (hr : ¬ (hasField (fw.settingsJson body).fields 0 = true ∧
      15 < (fw.settingsJson body).ringOffset)) :
    pstopApiAdminSettings fw auth pstopApiBodyMax d true body savedRing savedId =
      if hasField (fw.settingsJson body).fields 0 then
        let r := d.config.setRingOffset (fw.settingsJson body).ringOffset.toUInt8 savedRing
        if r.2 ≠ 0 then
          ({ d with config := r.1 }, reply pstopApiBodyMax 500 (errorBody "settings write failed"))
        else settingsRest { d with config := r.1 } (fw.settingsJson body) savedId
      else settingsRest d (fw.settingsJson body) savedId := by
  rw [pstopApiAdminSettings, hgate]
  dsimp only
  rw [if_pos rfl, if_neg hf, if_neg hr]
  by_cases h0 : hasField (fw.settingsJson body).fields 0 = true
  · simp only [if_pos h0]
    rfl
  · simp only [if_neg h0, ne_eq, not_true, if_false]
    rfl

theorem settings_ring_whole {auth : Option Text} {body : Text} {savedRing savedId : Int}
    (hgate : adminOk fw auth pstopApiBodyMax = none) (hf : 0 < (fw.settingsJson body).fields)
    (h0 : hasField (fw.settingsJson body).fields 0 = true)
    (hle : (fw.settingsJson body).ringOffset ≤ 15) :
    FailsWhole fw d (.adminSettings auth body savedRing savedId) ↔
      NothingSaved fw d (.adminSettings auth body savedRing savedId) := by
  have hr : ¬ (hasField (fw.settingsJson body).fields 0 = true ∧
      15 < (fw.settingsJson body).ringOffset) := fun h => absurd h.2 (UInt32.not_lt.mpr hle)
  have hsmall : ¬ 16 ≤ (fw.settingsJson body).ringOffset.toUInt8 := by
    have hle' : (fw.settingsJson body).ringOffset.toNat ≤ 15 := hle
    rw [UInt8.le_iff_toNat_le, UInt32.toNat_toUInt8, Nat.mod_eq_of_lt (by omega)]
    exact Nat.not_le.mpr (Nat.lt_succ_of_le hle')
  have hperform : perform fw d (.adminSettings auth body savedRing savedId) = answered
      (pstopApiAdminSettings fw auth pstopApiBodyMax d true body savedRing savedId) := rfl
  rw [settings_checked d savedRing savedId hgate (not_le.mpr hf) hr, if_pos h0] at hperform
  by_cases hs : savedRing = 0
  · subst hs
    rw [setRingOffset_saved hsmall] at hperform
    have hspec := settingsRest_spec
      { d with config := storeRing d.config (fw.settingsJson body).ringOffset.toUInt8 }
      (fw.settingsJson body) savedId
    by_cases h1 : hasField (fw.settingsJson body).fields 1 = true ∧ savedId ≠ 0
    · rw [if_pos h1] at hspec
      obtain ⟨hsame, hfailed⟩ := hspec
      have hleft : (perform fw d (.adminSettings auth body 0 savedId)).1 =
          { d with config := storeRing d.config (fw.settingsJson body).ringOffset.toUInt8 } :=
        (congrArg Prod.fst hperform).trans hsame
      have hfails : (perform fw d (.adminSettings auth body 0 savedId)).2 = true :=
        (congrArg Prod.snd hperform).trans hfailed
      rw [FailsWhole, hleft, hfails, storeRing_unchanged]
      constructor
      · intro h _ _ _ _ _ _ _
        exact h rfl
      · intro h _
        exact h hgate hf h0 hle h1.1 rfl h1.2
    · rw [if_neg h1] at hspec
      refine iff_of_true (failsWhole_of_served ((congrArg Prod.snd hperform).trans hspec)) ?_
      intro _ _ _ _ hid _ hs'
      exact absurd ⟨hid, hs'⟩ h1
  · have hfail := setRingOffset_whole (c := d.config) ((setRingOffset_small hsmall).trans_ne hs)
    have hret : (d.config.setRingOffset (fw.settingsJson body).ringOffset.toUInt8 savedRing).2 ≠ 0 :=
      (setRingOffset_small hsmall).trans_ne hs
    refine iff_of_true (failsWhole_of_same ?_) fun _ _ _ _ _ h => absurd h hs
    dsimp only at hperform
    rw [if_pos hret, hfail] at hperform
    exact congrArg Prod.fst hperform

/-- A post fails whole unless the ring offset was saved and the device id was not. -/
theorem adminSettings_whole {auth : Option Text} {body : Text} {savedRing savedId : Int} :
    FailsWhole fw d (.adminSettings auth body savedRing savedId) ↔
      NothingSaved fw d (.adminSettings auth body savedRing savedId) := by
  cases hgate : adminOk fw auth pstopApiBodyMax with
  | some denied =>
    have hsame : (perform fw d (.adminSettings auth body savedRing savedId)).1 = d := by
      simp only [perform, answered, pstopApiAdminSettings, hgate]
    exact iff_of_true (failsWhole_of_same hsame) fun h => by simp [hgate] at h
  | none =>
    by_cases hf : (fw.settingsJson body).fields ≤ 0
    · have hsame : (perform fw d (.adminSettings auth body savedRing savedId)).1 = d := by
        simp only [perform, answered, pstopApiAdminSettings, hgate, if_true, if_pos hf]
      exact iff_of_true (failsWhole_of_same hsame) fun _ h => absurd hf (not_le.mpr h)
    by_cases hr : hasField (fw.settingsJson body).fields 0 = true ∧
        15 < (fw.settingsJson body).ringOffset
    · have hsame : (perform fw d (.adminSettings auth body savedRing savedId)).1 = d := by
        simp only [perform, answered, pstopApiAdminSettings, hgate, if_true, if_neg hf, if_pos hr]
      exact iff_of_true (failsWhole_of_same hsame) fun _ _ _ h =>
        absurd hr.2 (UInt32.not_lt.mpr h)
    have hchecked := settings_checked d savedRing savedId hgate hf hr
    by_cases h0 : hasField (fw.settingsJson body).fields 0 = true
    · have hle : (fw.settingsJson body).ringOffset ≤ 15 :=
        UInt32.not_lt.mp fun h => hr ⟨h0, h⟩
      exact settings_ring_whole hgate (not_le.mp hf) h0 hle
    · rw [if_neg h0] at hchecked
      refine iff_of_true ?_ fun _ _ h => absurd h h0
      have hspec := settingsRest_spec d (fw.settingsJson body) savedId
      by_cases h1 : hasField (fw.settingsJson body).fields 1 = true ∧ savedId ≠ 0
      · rw [if_pos h1, ← hchecked] at hspec
        exact failsWhole_of_same hspec.1
      · rw [if_neg h1, ← hchecked] at hspec
        exact failsWhole_of_served hspec

/-- A post of networks fails whole exactly when its list does. -/
theorem adminWifi_whole {auth : Option Text} {body : Text} {saved : WifiIdx → Int}
    (hidx : d.wifiActiveIdx.natAbs ≤ 2 ^ 31) :
    FailsWhole fw d (.adminWifi auth body saved) ↔
      NothingSaved fw d (.adminWifi auth body saved) := by
  cases hgate : adminOk fw auth pstopApiBodyMax with
  | some denied =>
    have hsame : (perform fw d (.adminWifi auth body saved)).1 = d := by
      simp only [perform, answered, pstopApiAdminWifi, hgate]
    exact iff_of_true (failsWhole_of_same hsame) fun h => by simp [hgate] at h
  | none =>
    by_cases hf : (fw.wifiJson body).fields = 1
    · cases hnets : wifiFromJson d.config.ram (fw.wifiJson body) with
      | error err =>
        have hsame : (perform fw d (.adminWifi auth body saved)).1 = d := by
          simp only [perform, answered, pstopApiAdminWifi, hgate, if_true, hf, ne_eq, not_true,
            if_false, hnets]
        exact iff_of_true (failsWhole_of_same hsame) fun _ _ _ h => by simp [hnets] at h
      | ok nets =>
        have hright : NothingSaved fw d (.adminWifi auth body saved) ↔
            WifiWhole d.config nets saved := by
          simp only [NothingSaved, hgate, hf, true_imp_iff, hnets, Except.ok.injEq, forall_eq']
        have hperform : perform fw d (.adminWifi auth body saved) = answered
            (let r := d.config.wifiSetAll nets saved
            if r.2 ≠ 0 then
              ({ d with config := r.1 },
                reply pstopApiBodyMax 500 (errorBody "settings write failed"))
            else (wifiReloaded fw { d with config := r.1 },
              wifiList fw pstopApiBodyMax (wifiReloaded fw { d with config := r.1 }))) := by
          simp only [perform, pstopApiAdminWifi, hgate, if_true, hf, ne_eq, not_true, if_false,
            hnets]
        rw [hright, ← wifiSetAll_whole, FailsWhole, hperform]
        by_cases hret : (d.config.wifiSetAll nets saved).2 = 0
        · have hstatus := wifiList_status fw
            (d := wifiReloaded fw { d with config := (d.config.wifiSetAll nets saved).1 }) hidx
          simp [hret, answered, hstatus]
        · have hfailed := answered_refused
            (d := { d with config := (d.config.wifiSetAll nets saved).1 }) pstopApiBodyMax 500
            (errorBody "settings write failed") (by decide)
          dsimp only
          rw [if_pos hret, hfailed]
          exact ⟨fun h _ => h rfl, fun h _ => h hret⟩
    · have hsame : (perform fw d (.adminWifi auth body saved)).1 = d := by
        simp only [perform, answered, pstopApiAdminWifi, hgate, if_true, ne_eq, hf,
          not_false_eq_true]
      exact iff_of_true (failsWhole_of_same hsame) fun _ h => absurd h hf

/-- An operation that fails has changed nothing, exactly when none of its saves came
before one that failed, except of what was there. -/
theorem failsWhole_iff (fw : Firmware) (d : Remote) (op : SettingsOp)
    (hidx : d.wifiActiveIdx.natAbs ≤ 2 ^ 31) : FailsWhole fw d op ↔ NothingSaved fw d op := by
  cases op with
  | setPeer slot ip port id saved => exact iff_of_true (settled_whole storePeer_whole) trivial
  | clearPeer slot saved => exact iff_of_true (settled_whole storePeer_whole) trivial
  | setDeviceId id saved => exact iff_of_true (settled_whole setDeviceId_whole) trivial
  | setRingOffset offset saved => exact iff_of_true (settled_whole setRingOffset_whole) trivial
  | setOperator op saved => exact iff_of_true (settled_whole setOperator_whole) trivial
  | wifiSetAll nets saved =>
    rw [NothingSaved, ← wifiSetAll_whole, FailsWhole, perform, settled, decide_eq_true_iff]
  | adminSettings auth body savedRing savedId => exact adminSettings_whole
  | adminWifi auth body saved => exact adminWifi_whole hidx

def secondFails (i : WifiIdx) : Int := if i = 1 then eio else 0

def homeNet : WifiNet := netOf (text "home") (text "12345678")

/-- The first network has been replaced when the second save fails; had the first save failed,
nothing would have been. -/
theorem failsWhole_iff_wifi :
    ¬ FailsWhole lockedFirmware blankRemote (.wifiSetAll (fun _ => homeNet) secondFails) ∧
      FailsWhole lockedFirmware blankRemote (.wifiSetAll (fun _ => homeNet) fun _ => eio) := by
  have hiff := failsWhole_iff lockedFirmware blankRemote
  constructor
  · intro h
    have hwhole : WifiWhole blankRemote.config (fun _ => homeNet) secondFails :=
      (hiff (.wifiSetAll (fun _ => homeNet) secondFails) (by decide)).mp h
    exact absurd (hwhole ⟨1, by decide⟩ 0 (by decide)).1 (by decide)
  · refine (hiff (.wifiSetAll (fun _ => homeNet) fun _ => eio) (by decide)).mpr fun _ j hj => ?_
    exact absurd hj (List.not_mem_nil)

def openFirmware : Firmware :=
  { lockedFirmware with
    base64Decode := fun _ _ => some (text "admin:secret")
    settingsJson := fun _ => ⟨3, 5, 7⟩ }

/-- The first network is replaced though the second save fails, and the ring offset
is set though the device id cannot be saved. -/
theorem failsWhole_broken :
    ¬ FailsWhole lockedFirmware blankRemote (.wifiSetAll (fun _ => homeNet) secondFails) ∧
      ¬ FailsWhole openFirmware blankRemote
        (.adminSettings (some (text "Basic YWRtaW46c2VjcmV0")) [] 0 eio) := by
  constructor
  · intro h
    have hchanged := congrArg Getters.wifiGet (h (by decide)).getters
    exact absurd (congrFun hchanged 0) (by decide)
  · intro h
    have hchanged := congrArg Getters.ringOffset (h (by decide)).getters
    exact absurd hchanged (by decide)

end ZephyrApps.SettingsFailures
