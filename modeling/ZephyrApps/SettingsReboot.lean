import ZephyrApps.SettingsStore
import ZephyrApps.SystemRuns

/-!
# Settings survive a reboot

RAM is, item by item, what the stored value of the item's key makes of the cleared
statics: `app_settings_init` establishes that, whatever the order in which the keys
are loaded, and every setter keeps it, whether its save succeeds or fails. So loading
once more changes nothing that a getter returns.
-/
namespace ZephyrApps.SettingsReboot
open AppSettings CStrings LittleEndianWords SettingsStore KeyedLoads SystemRuns

def deviceIdFrom (value : List UInt8) (id : UInt32) : UInt32 :=
  if value.length = 4 then UInt32.ofNat (wordAt 4 0 value) else id

def operatorFrom (value : List UInt8) (op : Bool) : Bool :=
  if value.length = 1 then decide (wordAt 1 0 value ≠ 0) else op

def ringOffsetFrom (value : List UInt8) (offset : UInt8) : UInt8 :=
  if value.length = 1 then UInt8.ofNat (wordAt 1 0 value) else offset

def wifiFrom (value : List UInt8) (net : WifiNet) : WifiNet :=
  if h : value.length = wifiSize then (wifiOfBytes value h).closed else net

def peerFrom (value : List UInt8) (peer : Peer) : Peer :=
  if value.length = peerSize then peerOfBytes value else peer

/-- What the handler makes of the value of an item. -/
def itemLoad (item : Item) (value : List UInt8) (img : Image) : Image :=
  match item with
  | .deviceId => { img with deviceId := deviceIdFrom value img.deviceId }
  | .operator => { img with isOperator := operatorFrom value img.isOperator }
  | .ringOffset => { img with ringOffset := ringOffsetFrom value img.ringOffset }
  | .wifi i => { img with wifi := Function.update img.wifi i (wifiFrom value (img.wifi i)) }
  | .peer i => { img with peers := Function.update img.peers i (peerFrom value (img.peers i)) }

theorem nameSteq_wifi : ∀ i : WifiIdx,
    nameSteq (Item.wifi i).name (text "device_id") ≠ some none ∧
      nameSteq (Item.wifi i).name (text "operator") ≠ some none ∧
      nameSteq (Item.wifi i).name (text "ring_off") ≠ some none ∧
      (nameSteq (Item.wifi i).name (text "wifi")).join = some (dec i) ∧
      slotOf (atoi (dec i)) = some i := by decide

theorem nameSteq_peer : ∀ i : Slot,
    nameSteq (Item.peer i).name (text "device_id") ≠ some none ∧
      nameSteq (Item.peer i).name (text "operator") ≠ some none ∧
      nameSteq (Item.peer i).name (text "ring_off") ≠ some none ∧
      (nameSteq (Item.peer i).name (text "wifi")).join = none ∧
      (nameSteq (Item.peer i).name (text "peers")).join = some (dec i) ∧
      slotOf (atoi (dec i)) = some i := by decide

theorem name_plain (item : Item) : ascii '=' ∉ item.name := by
  cases item with
  | deviceId => decide
  | operator => decide
  | ringOffset => decide
  | wifi i => revert i; decide
  | peer i => revert i; decide

variable {steq : Text → Text → Option (Option Text)}

theorem settingsSet_item (hd : Documented steq) (item : Item) (value : List UInt8) {read : Int}
    (hread : 0 ≤ read) (img : Image) :
    (pstopSettingsSet steq item.name value read img).1 = itemLoad item value img := by
  have hs (key : Text) : steq item.name key = nameSteq item.name key :=
    hd item.name key (name_plain item)
  have hr : ¬ read < 0 := not_lt.mpr hread
  unfold pstopSettingsSet
  simp only [hs]
  cases item with
  | deviceId =>
    rw [if_pos (by decide)]
    by_cases hl : value.length = 4 <;> simp [hl, hr, itemLoad, deviceIdFrom]
  | operator =>
    rw [if_neg (by decide), if_pos (by decide)]
    by_cases hl : value.length = 1 <;> simp [hl, hr, itemLoad, operatorFrom]
  | ringOffset =>
    rw [if_neg (by decide), if_neg (by decide), if_pos (by decide)]
    by_cases hl : value.length = 1 <;> simp [hl, hr, itemLoad, ringOffsetFrom]
  | wifi i =>
    obtain ⟨h1, h2, h3, h4, h5⟩ := nameSteq_wifi i
    rw [if_neg h1, if_neg h2, if_neg h3]
    by_cases hl : value.length = wifiSize <;> simp [h4, h5, hl, hr, itemLoad, wifiFrom]
  | peer i =>
    obtain ⟨h1, h2, h3, h4, h5, h6⟩ := nameSteq_peer i
    rw [if_neg h1, if_neg h2, if_neg h3]
    by_cases hl : value.length = peerSize <;> simp [h4, h5, h6, hl, hr, itemLoad, peerFrom]

/-- A name that the setters use, or one that the handler makes nothing of. -/
def Known (steq : Text → Text → Option (Option Text)) (name : Text) : Prop :=
  (∃ item : Item, name = item.name) ∨
    ∀ value read img, (pstopSettingsSet steq name value read img).1 = img

theorem itemLoad_derivedId (item : Item) (value : List UInt8) (img : Image) :
    (itemLoad item value img).derivedId = img.derivedId := by
  cases item <;> rfl

theorem itemLoad_deviceId (item : Item) (value : List UInt8) (img : Image) :
    (itemLoad item value img).deviceId =
      if item = .deviceId then deviceIdFrom value img.deviceId else img.deviceId := by
  cases item <;> rfl

theorem itemLoad_operator (item : Item) (value : List UInt8) (img : Image) :
    (itemLoad item value img).isOperator =
      if item = .operator then operatorFrom value img.isOperator else img.isOperator := by
  cases item <;> rfl

theorem itemLoad_ringOffset (item : Item) (value : List UInt8) (img : Image) :
    (itemLoad item value img).ringOffset =
      if item = .ringOffset then ringOffsetFrom value img.ringOffset else img.ringOffset := by
  cases item <;> rfl

theorem itemLoad_wifi (item : Item) (value : List UInt8) (img : Image) (i : WifiIdx) :
    (itemLoad item value img).wifi i =
      if item = .wifi i then wifiFrom value (img.wifi i) else img.wifi i := by
  cases item with
  | wifi j =>
    by_cases hj : j = i
    · subst hj
      simp [itemLoad]
    · simp [itemLoad, hj, Ne.symm hj]
  | _ => rfl

theorem itemLoad_peer (item : Item) (value : List UInt8) (img : Image) (i : Slot) :
    (itemLoad item value img).peers i =
      if item = .peer i then peerFrom value (img.peers i) else img.peers i := by
  cases item with
  | peer j =>
    by_cases hj : j = i
    · subst hj
      simp [itemLoad]
    · simp [itemLoad, hj, Ne.symm hj]
  | _ => rfl

/-- A part that one item alone determines is owned by the item's name. -/
theorem owns_item {α : Type*} {part : Image → α} {decode : List UInt8 → α → α} {item : Item}
    {read : Text → Int} (hd : Documented steq) (hread : ∀ name, 0 ≤ read name)
    (h : ∀ item' value img, part (itemLoad item' value img) =
      if item' = item then decode value (part img) else part img) :
    Owns (fun name value img => (pstopSettingsSet steq name value (read name) img).1) (Known steq)
      item.name part decode where
  own value img := by
    rw [settingsSet_item hd item value (hread item.name), h, if_pos rfl]
  others name hname hne value img := by
    rcases hname with ⟨item', rfl⟩ | hname
    · rw [settingsSet_item hd item' value (hread item'.name), h,
        if_neg fun he => hne (congrArg Item.name he)]
    · rw [hname]

theorem wordAt_start (k n : ℕ) (after : List UInt8) :
    wordAt k 0 (wordBytes k n ++ after) = n % 256 ^ k := by
  have hnil : ([] : List UInt8).length = 0 := rfl
  exact wordAt_append hnil n after

theorem deviceIdFrom_bytes (id id' : UInt32) : deviceIdFrom (wordBytes 4 id.toNat) id' = id := by
  have h := wordAt_start 4 id.toNat []
  rw [List.append_nil] at h
  have hlt : id.toNat < 256 ^ 4 := id.toNat_lt
  rw [deviceIdFrom, if_pos (length_wordBytes 4 _), h, Nat.mod_eq_of_lt hlt, UInt32.ofNat_toNat]

theorem byteAt_bytes (n : ℕ) : wordAt 1 0 (wordBytes 1 n) = n % 256 := by
  have h := wordAt_start 1 n []
  rwa [List.append_nil] at h

theorem operatorFrom_bytes (op op' : Bool) : operatorFrom (wordBytes 1 op.toNat) op' = op := by
  rw [operatorFrom, if_pos (length_wordBytes 1 _), byteAt_bytes]
  cases op <;> rfl

theorem ringOffsetFrom_bytes (r r' : UInt8) : ringOffsetFrom (wordBytes 1 r.toNat) r' = r := by
  rw [ringOffsetFrom, if_pos (length_wordBytes 1 _), byteAt_bytes, Nat.mod_eq_of_lt r.toNat_lt,
    UInt8.ofNat_toNat]

theorem wifiBytes_length (net : WifiNet) : (wifiBytes net).length = wifiSize := by
  rw [wifiBytes, List.length_append, net.ssid_length, net.pass_length]
  rfl

theorem wifiFrom_bytes (net net' : WifiNet) : wifiFrom (wifiBytes net) net' = net.closed := by
  have h : wifiOfBytes (wifiBytes net) (wifiBytes_length net) = net := by
    cases net with
    | mk ssid pass hs hp =>
      simp only [wifiOfBytes, wifiBytes, WifiNet.mk.injEq]
      exact ⟨List.take_left' hs, List.drop_left' hs⟩
  rw [wifiFrom, dif_pos (wifiBytes_length net), h]

theorem peerBytes_length (peer : Peer) : (peerBytes peer).length = peerSize := by
  simp [peerBytes, peerSize]

theorem peerOfBytes_bytes (peer : Peer) : peerOfBytes (peerBytes peer) = peer := by
  have hip : wordAt 4 0 (peerBytes peer) = peer.ip.toNat :=
    (wordAt_start 4 _ _).trans (Nat.mod_eq_of_lt peer.ip.toNat_lt)
  have hport : wordAt 2 4 (peerBytes peer) = peer.port.toNat :=
    (wordAt_append (length_wordBytes 4 _) _ _).trans (Nat.mod_eq_of_lt peer.port.toNat_lt)
  have hid : wordAt 4 8 (peerBytes peer) = peer.id.toNat := by
    have hbefore : (wordBytes 4 peer.ip.toNat ++ (wordBytes 2 peer.port.toNat ++
        wordBytes 2 0)).length = 8 := by simp
    have h := wordAt_append (k := 4) hbefore peer.id.toNat
      (wordBytes 1 peer.configured.toNat ++ wordBytes 3 0)
    simp only [List.append_assoc] at h
    exact h.trans (Nat.mod_eq_of_lt peer.id.toNat_lt)
  have hconf : wordAt 1 12 (peerBytes peer) = peer.configured.toNat := by
    have hbefore : (wordBytes 4 peer.ip.toNat ++ (wordBytes 2 peer.port.toNat ++
        (wordBytes 2 0 ++ wordBytes 4 peer.id.toNat))).length = 12 := by simp
    have h := wordAt_append (k := 1) hbefore peer.configured.toNat (wordBytes 3 0)
    simp only [List.append_assoc] at h
    refine h.trans (Nat.mod_eq_of_lt ?_)
    cases peer.configured <;> decide
  cases peer with
  | mk ip port id configured =>
    simp only [peerOfBytes, hip, hport, hid, hconf, UInt32.ofNat_toNat, UInt16.ofNat_toNat]
    cases configured <;> rfl

theorem peerFrom_bytes (peer peer' : Peer) : peerFrom (peerBytes peer) peer' = peer := by
  rw [peerFrom, if_pos (peerBytes_length peer), peerOfBytes_bytes]

def items : List Item :=
  [.deviceId, .operator, .ringOffset] ++ (List.finRange 4).map .wifi ++
    (List.finRange 4).map .peer

theorem find_name (item : Item) :
    items.find? (fun i => decide (i.name = item.name)) = some item := by
  cases item with
  | deviceId => decide
  | operator => decide
  | ringOffset => decide
  | wifi i => revert i; decide
  | peer i => revert i; decide

theorem key_injective {item item' : Item} (h : item.key = item'.key) : item = item' := by
  have hn : item.name = item'.name := List.append_cancel_left h
  have hf := find_name item
  rw [hn, find_name item'] at hf
  exact (Option.some_injective _ hf).symm

/-- Below the root no key is stored that the handler takes for one of the setters'. -/
def OwnKeys (steq : Text → Text → Option (Option Text)) (flash : Store) : Prop :=
  ∀ name, (flash (keyOf name)).isSome → Known steq name

def ringStart (offset : UInt8) : UInt8 := if 16 ≤ offset then 0 else offset

variable {β : Type*} {view : WifiNet → β} {mac : List UInt8} {c : Config}

/-- RAM is what loading makes of the stored values; of a WiFi entry only the `view`. -/
structure Reflects (steq : Text → Text → Option (Option Text)) (view : WifiNet → β)
    (mac : List UInt8) (c : Config) : Prop where
  own : OwnKeys steq c.flash
  derivedId : c.ram.derivedId = deriveDeviceId mac
  deviceId : c.ram.deviceId = loaded deviceIdFrom 0 (c.flash Item.deviceId.key)
  operator : c.ram.isOperator = loaded operatorFrom false (c.flash Item.operator.key)
  ringOffset : c.ram.ringOffset =
    ringStart (loaded ringOffsetFrom 0 (c.flash Item.ringOffset.key))
  wifi : ∀ i, view (c.ram.wifi i) =
    view (loaded wifiFrom WifiNet.zero (c.flash (Item.wifi i).key))
  peer : ∀ i, c.ram.peers i = loaded peerFrom Peer.zero (c.flash (Item.peer i).key)

/-- What a load of the keys in any order leaves in RAM. -/
theorem init_reflects {flash : Store} {names : List Text} {read : Text → Int}
    (hd : Documented steq) (hown : OwnKeys steq flash) (hread : ∀ name, 0 ≤ read name)
    (hvisits : Visits names fun name => flash (keyOf name)) :
    Reflects steq view mac (appSettingsInit steq mac 0 0 read names flash).1 := by
  have hload {α : Type} (part : Image → α) {decode : List UInt8 → α → α} {item : Item}
      (h : ∀ item' value img, part (itemLoad item' value img) =
        if item' = item then decode value (part img) else part img) :
      part (loadSubtree steq flash read names (Image.cleared mac)) =
        loaded decode (part (Image.cleared mac)) (flash item.key) :=
    (owns_item hd hread h).load hvisits hown _
  have hderived : (loadSubtree steq flash read names (Image.cleared mac)).derivedId =
      deriveDeviceId mac := by
    have hsame : ∀ name ∈ names, ∀ value img,
        (pstopSettingsSet steq name value (read name) img).1.derivedId = img.derivedId := by
      intro name hname value img
      rcases hown name ((hvisits.mem name).mp hname) with ⟨item, rfl⟩ | hforeign
      · rw [settingsSet_item hd item value (hread _), itemLoad_derivedId]
      · rw [hforeign]
    exact load_same (fun img : Image => img.derivedId) hsame _
  have hram : (appSettingsInit steq mac 0 0 read names flash).1 =
      { ram :=
          { loadSubtree steq flash read names (Image.cleared mac) with
            ringOffset :=
              ringStart (loadSubtree steq flash read names (Image.cleared mac)).ringOffset }
        flash } := by
    simp only [appSettingsInit, ringStart, ne_eq, not_true, if_false]
    split <;> rfl
  rw [hram]
  exact
    { own := hown
      derivedId := hderived
      deviceId := hload (fun img => img.deviceId) itemLoad_deviceId
      operator := hload (fun img => img.isOperator) itemLoad_operator
      ringOffset := congrArg ringStart (hload (fun img => img.ringOffset) itemLoad_ringOffset)
      wifi := fun i => congrArg view (hload (fun img => img.wifi i) fun item value img =>
        itemLoad_wifi item value img i)
      peer := fun i => hload (fun img => img.peers i) fun item value img =>
        itemLoad_peer item value img i }

def Item.size : Item → ℕ
  | .deviceId => 4
  | .operator => 1
  | .ringOffset => 1
  | .wifi _ => wifiSize
  | .peer _ => peerSize

theorem saved_own {flash : Store} (h : OwnKeys steq flash) (item : Item) (value : List UInt8) :
    OwnKeys steq (Function.update flash item.key (some value)) := by
  intro name hname
  by_cases hk : keyOf name = item.key
  · exact Or.inl ⟨item, List.append_cancel_left hk⟩
  · rw [Function.update_of_ne hk] at hname
    exact h name hname

/-- What is stored under an item's key after a save under another item's. -/
theorem saved_key {flash : Store} {item item' : Item} {value : List UInt8} :
    Function.update flash item.key (some value) item'.key =
      if item = item' then some value else flash item'.key := by
  by_cases h : item = item'
  · subst h
    simp
  · rw [if_neg h, Function.update_of_ne fun hk => h (key_injective hk).symm]

theorem visits_saved {flash : Store} {names : List Text} (item : Item)
    (h : Visits names fun name => flash (keyOf name)) (hn : item.name ∉ names)
    (value : List UInt8) :
    Visits (item.name :: names) fun name =>
      Function.update flash item.key (some value) (keyOf name) := by
  have hu : (fun name => Function.update flash item.key (some value) (keyOf name)) =
      Function.update (fun name => flash (keyOf name)) item.name (some value) := by
    funext name
    by_cases hk : name = item.name
    · subst hk
      simp [Item.key]
    · have hne : keyOf name ≠ item.key := fun he => hk (List.append_cancel_left he)
      rw [Function.update_of_ne hne, Function.update_of_ne hk]
  rw [hu]
  exact h.cons hn value

/-- A save and the same change in RAM: a value of the item's size, and a ring offset in
range. -/
theorem Reflects.write (h : Reflects steq view mac c) {item : Item} {value : List UInt8}
    (hsize : value.length = Item.size item)
    (hring : item = .ringOffset → ∀ r, ¬ 16 ≤ ringOffsetFrom value r) :
    Reflects steq view mac
      ⟨itemLoad item value c.ram, Function.update c.flash item.key (some value)⟩ where
  own := saved_own h.own item value
  derivedId := (itemLoad_derivedId item value c.ram).trans h.derivedId
  deviceId := by
    dsimp only
    rw [saved_key, itemLoad_deviceId]
    split
    case isTrue hi =>
      subst hi
      exact (if_pos hsize).trans (if_pos hsize).symm
    case isFalse => exact h.deviceId
  operator := by
    dsimp only
    rw [saved_key, itemLoad_operator]
    split
    case isTrue hi =>
      subst hi
      exact (if_pos hsize).trans (if_pos hsize).symm
    case isFalse => exact h.operator
  ringOffset := by
    dsimp only
    rw [saved_key, itemLoad_ringOffset]
    split
    case isTrue hi =>
      subst hi
      have hl : value.length = 1 := hsize
      have hc (r : UInt8) : ringOffsetFrom value r = UInt8.ofNat (wordAt 1 0 value) := if_pos hl
      have hr := hring rfl 0
      rw [hc] at hr
      rw [hc, loaded, Option.elim_some, hc, ringStart, if_neg hr]
    case isFalse => exact h.ringOffset
  wifi i := by
    dsimp only
    rw [saved_key, itemLoad_wifi]
    split
    case isTrue hi =>
      subst hi
      have hl : value.length = wifiSize := hsize
      have hc (net : WifiNet) : wifiFrom value net = (wifiOfBytes value hl).closed := dif_pos hl
      rw [loaded, Option.elim_some, hc, hc]
    case isFalse => exact h.wifi i
  peer i := by
    dsimp only
    rw [saved_key, itemLoad_peer]
    split
    case isTrue hi =>
      subst hi
      exact (if_pos hsize).trans (if_pos hsize).symm
    case isFalse => exact h.peer i

/-- A save, failed or not, before which RAM changes as the handler would change it. -/
theorem Reflects.save (h : Reflects steq view mac c) (item : Item) (value : List UInt8) {img : Image}
    (saved : Int) (hsize : value.length = Item.size item)
    (hring : item = .ringOffset → ∀ r, ¬ 16 ≤ ringOffsetFrom value r)
    (himg : img = itemLoad item value c.ram) :
    Reflects steq view mac ⟨if saved ≠ 0 then c.ram else img,
      settingsSaveOne c.flash item.key value saved⟩ := by
  unfold settingsSaveOne
  by_cases hs : saved = 0
  · rw [if_neg (not_not_intro hs), if_pos hs, himg]
    exact h.write hsize hring
  · rw [if_pos hs, if_neg hs]
    exact h

/-- Of a WiFi entry only the view matters. -/
theorem Reflects.viewed (h : Reflects steq view mac c) {wifi : WifiIdx → WifiNet}
    (hw : ∀ i, view (wifi i) = view (c.ram.wifi i)) :
    Reflects steq view mac { c with ram := { c.ram with wifi } } where
  own := h.own
  derivedId := h.derivedId
  deviceId := h.deviceId
  operator := h.operator
  ringOffset := h.ringOffset
  wifi i := (hw i).trans (h.wifi i)
  peer := h.peer

inductive Setter where
  | setPeer (slot : Int) (ip : UInt32) (port : UInt16) (id : UInt32) (saved : Int)
  | clearPeer (slot : Int) (saved : Int)
  | setDeviceId (id : UInt32) (saved : Int)
  | setRingOffset (offset : UInt8) (saved : Int)
  | setOperator (op : Bool) (saved : Int)
  | wifiSetAll (nets : WifiIdx → WifiNet) (saved : WifiIdx → Int)

def Setter.apply (c : Config) : Setter → Config
  | .setPeer slot ip port id saved => (c.setPeer slot ip port id saved).1
  | .clearPeer slot saved => (c.clearPeer slot saved).1
  | .setDeviceId id saved => (c.setDeviceId id saved).1
  | .setRingOffset offset saved => (c.setRingOffset offset saved).1
  | .setOperator op saved => (c.setOperator op saved).1
  | .wifiSetAll nets saved => (c.wifiSetAll nets saved).1

/-- Every network that the call stores satisfies `P`. -/
def Setter.Nets (P : WifiNet → Prop) : Setter → Prop
  | .wifiSetAll nets _ => ∀ i, P (nets i)
  | _ => True

theorem Reflects.storePeer (h : Reflects steq view mac c) (slot : Int) (peer : Peer) (saved : Int) :
    Reflects steq view mac (c.storePeer slot peer saved).1 := by
  unfold Config.storePeer
  cases slotOf slot with
  | none => exact h
  | some i =>
    have hw := h.save (.peer i) (peerBytes peer) saved (peerBytes_length peer)
      (fun hi => nomatch hi) rfl
    simp only [itemLoad, peerFrom_bytes, ne_eq, ite_not] at hw
    exact hw

theorem Reflects.wifiLoop {nets : WifiIdx → WifiNet} {saved : WifiIdx → Int}
    (hnets : ∀ i, view (nets i).closed = view (nets i)) (rest : List WifiIdx)
    (h : Reflects steq view mac c) : Reflects steq view mac (wifiLoop nets saved rest c).1 := by
  induction rest generalizing c with
  | nil => exact h
  | cons i rest ih =>
    rw [SettingsStore.wifiLoop]
    by_cases hs : saved i = 0
    · rw [if_neg (not_not_intro hs)]
      have hw := h.save (.wifi i) (wifiBytes (nets i)) (saved i) (wifiBytes_length _)
        (fun hi => nomatch hi) rfl
      simp only [itemLoad, wifiFrom_bytes, if_neg (not_not_intro hs)] at hw
      refine ih (hw.viewed fun j => ?_)
      by_cases hj : j = i
      · subst hj
        simp [hnets]
      · simp [hj]
    · rw [if_pos hs]
      have hflash : settingsSaveOne c.flash (Item.wifi i).key (wifiBytes (nets i)) (saved i) =
          c.flash := if_neg hs
      rw [hflash]
      exact h

/-- A setter keeps it, for what its networks look like with their buffers closed. -/
theorem Reflects.setter (h : Reflects steq view mac c) {call : Setter}
    (hcall : call.Nets fun net => view net.closed = view net) :
    Reflects steq view mac (Setter.apply c call) := by
  cases call with
  | setPeer slot ip port id saved => exact h.storePeer slot _ saved
  | clearPeer slot saved => exact h.storePeer slot _ saved
  | setDeviceId id saved =>
    refine h.save .deviceId _ saved (length_wordBytes 4 _) (fun hi => nomatch hi) ?_
    simp only [itemLoad, deviceIdFrom_bytes]
  | setRingOffset offset saved =>
    rw [Setter.apply, Config.setRingOffset]
    split
    · exact h
    case isFalse hlt =>
      refine h.save .ringOffset _ saved (length_wordBytes 1 _) (fun _ r => ?_) ?_
      · rwa [ringOffsetFrom_bytes]
      · simp only [itemLoad, ringOffsetFrom_bytes]
  | setOperator op saved =>
    refine h.save .operator _ saved (length_wordBytes 1 _) (fun hi => nomatch hi) ?_
    simp only [itemLoad, operatorFrom_bytes]
  | wifiSetAll nets saved => exact h.wifiLoop hcall _

def WifiNet.strings (net : WifiNet) : Text × Text := (cstr net.ssid, cstr net.pass)

/-- Both strings of a network end in their buffers. -/
def WifiNet.Terminated (net : WifiNet) : Prop := 0 ∈ net.ssid ∧ 0 ∈ net.pass

theorem cstr_set {bytes : List UInt8} {n : ℕ} (h : 0 ∈ bytes.take (n + 1)) :
    cstr (bytes.set n 0) = cstr bytes := by
  induction bytes generalizing n with
  | nil => rfl
  | cons b bytes ih =>
    by_cases hb : b = 0
    · subst hb
      cases n <;> rfl
    · cases n with
      | zero => simp [Ne.symm hb] at h
      | succ n =>
        have hm : 0 ∈ bytes.take (n + 1) := by simpa [Ne.symm hb] using h
        have hc := ih hm
        unfold cstr at hc ⊢
        simpa [hb] using hc

theorem strings_closed {net : WifiNet} (h : WifiNet.Terminated net) :
    WifiNet.strings net.closed = WifiNet.strings net := by
  have hs : 0 ∈ net.ssid.take (wifiSsidMax + 1) := by
    rw [← net.ssid_length, List.take_length]
    exact h.1
  have hp : 0 ∈ net.pass.take (wifiPassMax + 1) := by
    rw [← net.pass_length, List.take_length]
    exact h.2
  exact Prod.ext (cstr_set hs) (cstr_set hp)

/-- Every getter returns the same; of a WiFi entry, the same strings. -/
structure SameGetters (a b : Image) : Prop where
  peer : ∀ slot, a.peerGet slot = b.peerGet slot
  deviceId : a.deviceId = b.deviceId
  effectiveDeviceId : a.effectiveDeviceId = b.effectiveDeviceId
  ringOffset : a.ringOffset = b.ringOffset
  isOperator : a.isOperator = b.isOperator
  wifi : ∀ idx, (a.wifiGet idx).map WifiNet.strings = (b.wifiGet idx).map WifiNet.strings

/-- RAM is determined by flash. -/
theorem Reflects.same {c c' : Config} (h : Reflects steq WifiNet.strings mac c)
    (h' : Reflects steq WifiNet.strings mac c') (hf : c'.flash = c.flash) :
    SameGetters c'.ram c.ram := by
  have hid : c'.ram.deviceId = c.ram.deviceId := by rw [h'.deviceId, h.deviceId, hf]
  have hpeers : c'.ram.peers = c.ram.peers := by
    funext i
    rw [h'.peer, h.peer, hf]
  refine ⟨fun slot => ?_, hid, ?_, ?_, ?_, fun idx => ?_⟩
  · rw [Image.peerGet, Image.peerGet, hpeers]
  · rw [Settings.effectiveDeviceId, Settings.effectiveDeviceId, hid, h'.derivedId, h.derivedId]
  · rw [h'.ringOffset, h.ringOffset, hf]
  · rw [h'.operator, h.operator, hf]
  · unfold Image.wifiGet
    cases slotOf idx with
    | none => rfl
    | some i =>
      have hw : WifiNet.strings (c'.ram.wifi i) = WifiNet.strings (c.ram.wifi i) := by
        rw [h'.wifi, h.wifi, hf]
      exact congrArg Except.ok hw

theorem Reflects.sameWifi {c c' : Config} (h : Reflects steq id mac c) (h' : Reflects steq id mac c')
    (hf : c'.flash = c.flash) (idx : Int) : c'.ram.wifiGet idx = c.ram.wifiGet idx := by
  have hw : c'.ram.wifi = c.ram.wifi := by
    funext i
    exact (h'.wifi i).trans ((congrArg id (by rw [hf])).trans (h.wifi i).symm)
  rw [Image.wifiGet, Image.wifiGet, hw]

/-- The settings after an `app_settings_init` that succeeds. -/
def booted (steq : Text → Text → Option (Option Text)) (mac : List UInt8) (read : Text → Int)
    (names : List Text) (flash : Store) : Config :=
  (appSettingsInit steq mac 0 0 read names flash).1

theorem booted_flash (steq : Text → Text → Option (Option Text)) (mac : List UInt8)
    (read : Text → Int) (names : List Text) (flash : Store) :
    (booted steq mac read names flash).flash = flash := by
  simp [booted, appSettingsInit]

theorem reflects_run {flash : Store} {names : List Text} {read : Text → Int}
    (hd : Documented steq) (hown : OwnKeys steq flash) (hread : ∀ name, 0 ≤ read name)
    (hvisits : Visits names fun name => flash (keyOf name)) {calls : List Setter}
    (hcalls : ∀ call ∈ calls, call.Nets fun net => view net.closed = view net) :
    Reflects steq view mac (run Setter.apply (booted steq mac read names flash) calls) :=
  run_invariant (I := fun _ c => Reflects steq view mac c)
    (C := fun _ call => call.Nets fun net => view net.closed = view net)
    (init_reflects hd hown hread hvisits) (fun _ _ h hcall => h.setter hcall) calls
    (.of_mem fun _ => hcalls)

/-- After any calls of the setters, with any failures of their saves, one more init
leaves every getter as it was, in whatever order either init loads the keys. A network
comes back byte for byte if its buffers end in NULs. -/
theorem settings_survive_reboot (hd : Documented steq) (mac : List UInt8) {flash : Store}
    (hown : OwnKeys steq flash) {names : List Text} {read : Text → Int}
    (hread : ∀ name, 0 ≤ read name) (hvisits : Visits names fun name => flash (keyOf name))
    (calls : List Setter) (hcalls : ∀ call ∈ calls, call.Nets WifiNet.Terminated)
    {names' : List Text} {read' : Text → Int} (hread' : ∀ name, 0 ≤ read' name)
    (hvisits' : Visits names' fun name =>
      (run Setter.apply (booted steq mac read names flash) calls).flash (keyOf name)) :
    let c := run Setter.apply (booted steq mac read names flash) calls
    let c' := booted steq mac read' names' c.flash
    SameGetters c'.ram c.ram ∧
      ((∀ call ∈ calls, call.Nets fun net => net.closed = net) →
        ∀ idx, c'.ram.wifiGet idx = c.ram.wifiGet idx) := by
  intro c c'
  have hf : c'.flash = c.flash := booted_flash _ _ _ _ _
  constructor
  · have hnets : ∀ call ∈ calls,
        call.Nets fun net => WifiNet.strings net.closed = WifiNet.strings net := by
      intro call hm
      have h := hcalls call hm
      cases call <;> first | trivial | exact fun i => strings_closed (h i)
    have h : Reflects steq WifiNet.strings mac c := reflects_run hd hown hread hvisits hnets
    exact h.same (init_reflects hd h.own hread' hvisits') hf
  · intro hnets
    have h : Reflects steq id mac c := reflects_run hd hown hread hvisits hnets
    exact h.sameWifi (init_reflects hd h.own hread' hvisits') hf

/-- A peer is set, flash refuses the operator role, and a WiFi list is stored up to its
second entry; the reboot loads the network before the peer. -/
theorem settings_survive_reboot_partly :
    let net : WifiNet :=
      ⟨text "lab" ++ List.replicate 30 0, List.replicate 65 0, by decide, by decide⟩
    let c := run Setter.apply (booted nameSteq [1, 2, 3] (fun _ => 0) [] fun _ => none)
      [.setPeer 2 0x7F000001 8890 0x01020304 0, .setOperator true (-5),
        .wifiSetAll (fun _ => net) fun i => if i = 0 then 0 else -5]
    c.ram.peerGet 2 = .ok ⟨0x7F000001, 8890, 0x01020304, true⟩ ∧
      SameGetters (booted nameSteq [1, 2, 3] (fun _ => 0) [text "wifi/0", text "peers/2"]
        c.flash).ram c.ram := by
  intro net c
  have hvisits : Visits [text "wifi/0", text "peers/2"] fun name => c.flash (keyOf name) :=
    visits_saved (.wifi 0) (visits_saved (.peer 2) visits_empty (by decide) _) (by decide) _
  have hempty : OwnKeys nameSteq fun _ => none := fun _ h => absurd h Bool.false_ne_true
  refine ⟨rfl, (settings_survive_reboot (fun _ _ _ => rfl) [1, 2, 3] hempty (fun _ => le_refl 0)
    visits_empty _ ?_ (fun _ => le_refl 0) hvisits).1⟩
  simp [Setter.Nets, WifiNet.Terminated, net]

end ZephyrApps.SettingsReboot
