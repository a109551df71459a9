import Mathlib.Data.Fin.VecNotation
import ZephyrApps.AppSettings
import ZephyrApps.SystemRuns

/-!
# The reports of the keypad

`report_keys` of `bt_keys` with the bindings of `keys.c`, which the shell may change between two
calls. What the host was told last is read off the notifications.
-/
namespace ZephyrApps.KeyReports
open AppSettings SystemRuns EventHistories

/-- `enum bt_keys_type` -/
inductive BtKeysType where
  | keyboard
  | consumer
  deriving DecidableEq

def BtKeysType.code : BtKeysType → UInt8
  | .keyboard => 0
  | .consumer => 1

/-- `struct bt_keys_binding` -/
structure Binding where
  type : UInt8
  usage : UInt16
  deriving DecidableEq

/-- One of the `BT_KEYS_NUM_KEYS` keys. -/
abbrev Key := Fin 4

/-- `bt_keys_map` before the settings are loaded. -/
def defaultMap : Key → Binding :=
  ![⟨BtKeysType.consumer.code, 0xB6⟩, ⟨BtKeysType.consumer.code, 0xCD⟩,
    ⟨BtKeysType.consumer.code, 0xB5⟩, ⟨BtKeysType.consumer.code, 0xE2⟩]

/-- `bt_keys_set`; `saved` is what `settings_save_one` returns. -/
def btKeysSet (map : Key → Binding) (index : UInt8) (type : BtKeysType) (usage : UInt16)
    (saved : Int) : (Key → Binding) × Int :=
  if h : index.toNat < 4 then (Function.update map ⟨index.toNat, h⟩ ⟨type.code, usage⟩, saved)
  else (map, einval)

inductive Transport where
  | hog
  | usb
  deriving DecidableEq

inductive Report where
  | keyboard (modifiers : UInt8) (keycodes : List UInt8)
  | consumer (usage : UInt16)
  deriving DecidableEq

/-- The transports of a build, with `CONFIG_USB_DEVICE_STACK_NEXT` or without. -/
def transports (usb : Bool) : List Transport := if usb then [.hog, .usb] else [.hog]

/-- `hog_notify_keyboard` or `hog_notify_consumer`, and the same over USB if it is built. -/
def notify (usb : Bool) (r : Report) (log : List (Transport × Report)) :
    List (Transport × Report) :=
  log ++ (transports usb).map fun t => (t, r)

/-- `HID_KEYBOARD_KEYS` -/
def hidKeyboardKeys : ℕ := 6

/-- The key map, the statics of `report_keys`, and what was notified so far. -/
structure Keypad where
  map : Key → Binding
  prevKbd : List UInt8
  prevConsumer : UInt16
  prevMask : UInt32
  activeConsumerKey : Option Key
  log : List (Transport × Report)

def Keypad.start (map : Key → Binding) : Keypad :=
  ⟨map, List.replicate hidKeyboardKeys 0, 0, 0, none, []⟩

/-- `mask & BIT(i)`; a mask is the bits of an `int`. -/
def pressed (mask : UInt32) (i : Key) : Bool := decide (mask &&& (1 <<< UInt32.ofNat i) ≠ 0)

/-- The key is held and bound as `type`. -/
def bound (map : Key → Binding) (mask : UInt32) (type : BtKeysType) (i : Key) : Bool :=
  pressed mask i && decide ((map i).type = type.code)

/-- The consumer key that is active in this call: the last one that is newly pressed, or else the one
before if it is held, or else the first one that is held. -/
def Keypad.activeKey (s : Keypad) (mask : UInt32) : Option Key :=
  let active := s.activeConsumerKey.filter (pressed mask)
  let active := (List.finRange 4).foldl (fun active i =>
    if bound s.map mask .consumer i && !pressed s.prevMask i then some i else active) active
  match active with
  | some i => some i
  | none => (List.finRange 4).find? (bound s.map mask .consumer)

/-- The usage of the active key, 0 if there is none. -/
def Keypad.consumerUsage (s : Keypad) (mask : UInt32) : UInt16 :=
  match s.activeKey mask with
  | none => 0
  | some i => (s.map i).usage

def addKey (map : Key → Binding) (mask : UInt32) (kbd : List UInt8 × ℕ) (i : Key) :
    List UInt8 × ℕ :=
  if bound map mask .keyboard i && decide (kbd.2 < hidKeyboardKeys) then
    (kbd.1.set kbd.2 (map i).usage.toUInt8, kbd.2 + 1)
  else kbd

def kbdOf (map : Key → Binding) (mask : UInt32) : List UInt8 :=
  ((List.finRange 4).foldl (addKey map mask) (List.replicate hidKeyboardKeys 0, 0)).1

/-- `report_keys` -/
def Keypad.reportKeys (usb : Bool) (s : Keypad) (mask : UInt32) : Keypad :=
  let consumer := s.consumerUsage mask
  let kbd := kbdOf s.map mask
  let s := { s with activeConsumerKey := s.activeKey mask, prevMask := mask }
  let s :=
    if kbd ≠ s.prevKbd then { s with prevKbd := kbd, log := notify usb (.keyboard 0 kbd) s.log }
    else s
  if consumer ≠ s.prevConsumer then
    { s with prevConsumer := consumer, log := notify usb (.consumer consumer) s.log }
  else s

/-- A call of `bt_keys_set` or of `report_keys`. -/
inductive Call where
  | set (index : UInt8) (type : BtKeysType) (usage : UInt16) (saved : Int)
  | report (mask : UInt32)
  deriving DecidableEq

def Keypad.step (usb : Bool) (s : Keypad) : Call → Keypad
  | .set index type usage saved => { s with map := (btKeysSet s.map index type usage saved).1 }
  | .report mask => s.reportKeys usb mask

def Report.usage : Report → Option UInt16
  | .consumer usage => some usage
  | .keyboard _ _ => none

def Report.keycodes : Report → Option (List UInt8)
  | .keyboard _ keycodes => some keycodes
  | .consumer _ => none

/-- What the last notification to `t` that has the field had in it, or `none` before the first. -/
def lastOf {β : Type} (field : Report → Option β) (t : Transport)
    (log : List (Transport × Report)) : Option β :=
  log.foldl (fun last n => if n.1 = t then (field n.2).or last else last) none

/-- The usage that was notified last, 0 before the first. -/
def lastConsumer (t : Transport) (log : List (Transport × Report)) : UInt16 :=
  (lastOf Report.usage t log).getD 0

/-- The keycodes that were notified last, all 0 before the first. -/
def lastKeyboard (t : Transport) (log : List (Transport × Report)) : List UInt8 :=
  (lastOf Report.keycodes t log).getD (List.replicate hidKeyboardKeys 0)

/-- `usage` is that of a held consumer key, or 0 if there is none. -/
def ConsumerOf (map : Key → Binding) (mask : UInt32) (usage : UInt16) : Prop :=
  (∃ i, bound map mask .consumer i = true ∧ usage = (map i).usage) ∨
    ((∀ i, bound map mask .consumer i = false) ∧ usage = 0)

instance (map : Key → Binding) (mask : UInt32) (usage : UInt16) :
    Decidable (ConsumerOf map mask usage) :=
  inferInstanceAs (Decidable (_ ∨ _))

def keyboardUsages (map : Key → Binding) (mask : UInt32) : List UInt16 :=
  ((List.finRange 4).filter (bound map mask .keyboard)).map fun i => (map i).usage

/-- The keycodes are the usages of the held keyboard keys, and 0 after them. -/
def KeyboardOf (map : Key → Binding) (mask : UInt32) (keycodes : List UInt8) : Prop :=
  keycodes.map UInt8.toNat = (keyboardUsages map mask).map UInt16.toNat ++
    List.replicate (hidKeyboardKeys - (keyboardUsages map mask).length) 0

/-- After a call with `mask` the reports reflect the held keys and their bindings, and are empty if
no key is held. -/
structure Reflects (usb : Bool) (s : Keypad) (mask : UInt32) : Prop where
  consumer : ∀ t ∈ transports usb, ConsumerOf s.map mask (lastConsumer t s.log)
  keyboard : ∀ t ∈ transports usb, KeyboardOf s.map mask (lastKeyboard t s.log)
  released : (∀ i, pressed mask i = false) → ∀ t ∈ transports usb,
    lastConsumer t s.log = 0 ∧ lastKeyboard t s.log = List.replicate hidKeyboardKeys 0

/-- The state after a call of `report_keys` reflects it. -/
def Shows (usb : Bool) (s : Keypad) : Call → Prop
  | .set .. => True
  | .report mask => Reflects usb (s.step usb (.report mask)) mask

/-- The consumer key that was active stays active, and is not bound as one. -/
def Stale (s : Keypad) (mask : UInt32) (i : Key) : Prop :=
  s.activeConsumerKey = some i ∧ pressed mask i = true ∧ (s.map i).type ≠ BtKeysType.consumer.code ∧
    ∀ j, bound s.map mask .consumer j = true → pressed s.prevMask j = true

/-- What a call of `report_keys` needs: a stale key does no harm only by its usage, and a keyboard
usage has 8 bits. -/
def Sound (s : Keypad) : Call → Prop
  | .set .. => True
  | .report mask =>
    (∀ i, Stale s mask i → ConsumerOf s.map mask (s.map i).usage) ∧
      ∀ i, bound s.map mask .keyboard i = true → (s.map i).usage.toNat < 256

section Keyboard

variable {map : Key → Binding} {mask : UInt32}

def keycodesOf (map : Key → Binding) (mask : UInt32) (keys : List Key) : List UInt8 :=
  (keys.filter (bound map mask .keyboard)).map fun i => (map i).usage.toUInt8

theorem foldl_addKey (map : Key → Binding) (mask : UInt32) {filled : List UInt8} {n : ℕ}
    {keys : List Key} (htotal : filled.length + n = hidKeyboardKeys) (hroom : keys.length ≤ n) :
    (keys.foldl (addKey map mask) (filled ++ List.replicate n 0, filled.length)).1 =
      filled ++ keycodesOf map mask keys ++
        List.replicate (n - (keycodesOf map mask keys).length) 0 := by
  induction keys generalizing filled n with
  | nil => simp [keycodesOf]
  | cons i keys ih =>
    rw [List.length_cons] at hroom
    rw [List.foldl_cons]
    cases hb : bound map mask .keyboard i with
    | false =>
      have hskip : addKey map mask (filled ++ List.replicate n 0, filled.length) i =
          (filled ++ List.replicate n 0, filled.length) := by simp [addKey, hb]
      rw [hskip, ih htotal (by omega)]
      simp [keycodesOf, hb]
    | true =>
      obtain ⟨m, rfl⟩ : ∃ m, n = m + 1 := ⟨n - 1, by omega⟩
      have hlt : filled.length < hidKeyboardKeys := by omega
      have hset : addKey map mask (filled ++ List.replicate (m + 1) 0, filled.length) i =
          ((filled ++ [(map i).usage.toUInt8]) ++ List.replicate m 0,
            (filled ++ [(map i).usage.toUInt8]).length) := by
        simp [addKey, hb, hlt, List.replicate_succ]
      rw [hset, ih (by simp; omega) (by omega)]
      simp [keycodesOf, hb, Nat.add_sub_add_right]

theorem kbdOf_eq (map : Key → Binding) (mask : UInt32) :
    kbdOf map mask = (keyboardUsages map mask).map UInt16.toUInt8 ++
      List.replicate (hidKeyboardKeys - (keyboardUsages map mask).length) 0 := by
  have htotal : ([] : List UInt8).length + hidKeyboardKeys = hidKeyboardKeys := Nat.zero_add _
  have hroom : (List.finRange 4).length ≤ hidKeyboardKeys := by simp [hidKeyboardKeys]
  have h := foldl_addKey map mask htotal hroom
  rw [List.nil_append, List.nil_append, List.length_nil] at h
  rw [kbdOf, h]
  simp [keycodesOf, keyboardUsages]

/-- The report lists the usages exactly if none of them is cut to its low byte. -/
theorem keyboardOf_kbdOf : KeyboardOf map mask (kbdOf map mask) ↔
    ∀ i, bound map mask .keyboard i = true → (map i).usage.toNat < 256 := by
  have hmem (u : UInt16) : u ∈ keyboardUsages map mask ↔
      ∃ i, bound map mask .keyboard i = true ∧ (map i).usage = u := by
    simp [keyboardUsages]
  have hlow (u : UInt16) : u.toUInt8.toNat = u.toNat ↔ u.toNat < 256 := by
    rw [UInt16.toNat_toUInt8]
    omega
  rw [KeyboardOf, kbdOf_eq, List.map_append, List.map_replicate, UInt8.toNat_zero,
    List.append_left_inj, List.map_map, List.map_inj_left]
  simp only [hmem, Function.comp_apply, hlow]
  constructor
  · exact fun h i hi => h _ ⟨i, hi, rfl⟩
  · rintro h u ⟨i, hi, rfl⟩
    exact h i hi

theorem bound_false (h : ∀ i, pressed mask i = false) (type : BtKeysType) (i : Key) :
    bound map mask type i = false := by
  rw [bound, h i, Bool.false_and]

theorem released_empty (h : ∀ i, pressed mask i = false) {usage : UInt16} {keycodes : List UInt8}
    (hc : ConsumerOf map mask usage) (hk : KeyboardOf map mask keycodes) :
    usage = 0 ∧ keycodes = List.replicate hidKeyboardKeys 0 := by
  constructor
  · rcases hc with ⟨i, hi, -⟩ | ⟨-, h0⟩
    · rw [bound_false h] at hi
      cases hi
    · exact h0
  · have hnone : keyboardUsages map mask = [] := by simp [keyboardUsages, bound_false h]
    rw [KeyboardOf, hnone] at hk
    have hzero : keycodes.map UInt8.toNat = (List.replicate hidKeyboardKeys 0).map UInt8.toNat := by
      rw [hk, List.map_replicate]
      rfl
    exact List.map_injective_iff.mpr (fun a b hab => UInt8.toNat_inj.mp hab) hzero

end Keyboard

section Consumer

variable {s : Keypad} {mask : UInt32}

/-- A loop that keeps the last key with a property ends with one of them if there is any. -/
theorem foldl_last (p : Key → Bool) (keys : List Key) (active : Option Key) :
    (∃ i ∈ keys, p i = true ∧
      keys.foldl (fun active i => if p i then some i else active) active = some i) ∨
    ((∀ i ∈ keys, p i = false) ∧
      keys.foldl (fun active i => if p i then some i else active) active = active) := by
  induction keys generalizing active with
  | nil => simp
  | cons i keys ih =>
    rw [List.foldl_cons]
    cases hi : p i with
    | true =>
      rcases ih (some i) with ⟨j, hj, hp, hfold⟩ | ⟨-, hfold⟩
      · exact Or.inl ⟨j, List.mem_cons_of_mem i hj, hp, hfold⟩
      · exact Or.inl ⟨i, List.mem_cons_self, hi, hfold⟩
    | false =>
      rcases ih active with ⟨j, hj, hp, hfold⟩ | ⟨hnone, hfold⟩
      · exact Or.inl ⟨j, List.mem_cons_of_mem i hj, hp, hfold⟩
      · exact Or.inr ⟨List.forall_mem_cons.mpr ⟨hi, hnone⟩, hfold⟩

/-- The active key: one that is held and bound, or a stale one, or none and no key is held and
bound. -/
theorem activeKey_cases (s : Keypad) (mask : UInt32) :
    (∃ i, s.activeKey mask = some i ∧ bound s.map mask .consumer i = true ∧ ∀ j, ¬ Stale s mask j) ∨
    (∃ i, s.activeKey mask = some i ∧ Stale s mask i) ∨
    (s.activeKey mask = none ∧ (∀ i, bound s.map mask .consumer i = false) ∧
      ∀ j, ¬ Stale s mask j) := by
  rw [Keypad.activeKey]
  rcases foldl_last (fun i => bound s.map mask .consumer i && !pressed s.prevMask i)
    (List.finRange 4) (s.activeConsumerKey.filter (pressed mask)) with
    ⟨i, -, hnew, hfold⟩ | ⟨hnone, hfold⟩
  · -- a newly pressed key takes over
    obtain ⟨hb, hprev⟩ := Bool.and_eq_true_iff.mp hnew
    refine Or.inl ⟨i, by rw [hfold], hb, fun j hj => ?_⟩
    rw [hj.2.2.2 i hb] at hprev
    cases hprev
  · have hold : ∀ j, bound s.map mask .consumer j = true → pressed s.prevMask j = true := by
      intro j hj
      simpa [hj] using hnone j (List.mem_finRange j)
    rw [hfold]
    cases hf : s.activeConsumerKey.filter (pressed mask) with
    | some i =>
      -- the key that was active is still held
      obtain ⟨ha, hp⟩ := Option.filter_eq_some_iff.mp hf
      by_cases ht : (s.map i).type = BtKeysType.consumer.code
      · refine Or.inl ⟨i, rfl, by simp [bound, hp, ht], fun j hj => ?_⟩
        obtain rfl : i = j := Option.some.inj (ha.symm.trans hj.1)
        exact hj.2.2.1 ht
      · exact Or.inr (Or.inl ⟨i, rfl, ha, hp, ht, hold⟩)
    | none =>
      have hno : ∀ j, ¬ Stale s mask j := fun j hj =>
        Option.filter_eq_none_iff.mp hf j hj.1 hj.2.1
      cases hfind : (List.finRange 4).find? (bound s.map mask .consumer) with
      | some i => exact Or.inl ⟨i, rfl, List.find?_some hfind, hno⟩
      | none =>
        refine Or.inr (Or.inr ⟨rfl, fun i => ?_, hno⟩)
        simpa using List.find?_eq_none.mp hfind i (List.mem_finRange i)

theorem consumerOf_consumerUsage : ConsumerOf s.map mask (s.consumerUsage mask) ↔
    ∀ i, Stale s mask i → ConsumerOf s.map mask (s.map i).usage := by
  rw [Keypad.consumerUsage]
  rcases activeKey_cases s mask with ⟨i, ha, hb, hno⟩ | ⟨i, ha, hs⟩ | ⟨ha, hb, hno⟩
  · rw [ha]
    exact iff_of_true (Or.inl ⟨i, hb, rfl⟩) fun j hj => absurd hj (hno j)
  · rw [ha]
    refine ⟨fun h j hj => ?_, fun h => h i hs⟩
    obtain rfl : i = j := Option.some.inj (hs.1.symm.trans hj.1)
    exact h
  · rw [ha]
    exact iff_of_true (Or.inr ⟨hb, rfl⟩) fun j hj => absurd hj (hno j)

end Consumer

section Notified

variable {usb : Bool} {s : Keypad} {mask : UInt32}

/-- A notification reaches every transport of the build. -/
theorem lastOf_notify {β : Type} (field : Report → Option β) {t : Transport}
    (ht : t ∈ transports usb) (r : Report) (log : List (Transport × Report)) :
    lastOf field t (notify usb r log) = (field r).or (lastOf field t log) := by
  rw [notify, lastOf, List.foldl_append]
  cases usb with
  | false =>
    obtain rfl : t = .hog := by simpa [transports] using ht
    rfl
  | true => cases t <;> rfl

@[simp] theorem lastConsumer_consumer {t : Transport} (ht : t ∈ transports usb) (usage : UInt16)
    (log : List (Transport × Report)) :
    lastConsumer t (notify usb (.consumer usage) log) = usage := by
  simp [lastConsumer, lastOf_notify _ ht, Report.usage]

@[simp] theorem lastConsumer_keyboard {t : Transport} (ht : t ∈ transports usb) (modifiers : UInt8)
    (keycodes : List UInt8) (log : List (Transport × Report)) :
    lastConsumer t (notify usb (.keyboard modifiers keycodes) log) = lastConsumer t log := by
  simp [lastConsumer, lastOf_notify _ ht, Report.usage]

@[simp] theorem lastKeyboard_keyboard {t : Transport} (ht : t ∈ transports usb) (modifiers : UInt8)
    (keycodes : List UInt8) (log : List (Transport × Report)) :
    lastKeyboard t (notify usb (.keyboard modifiers keycodes) log) = keycodes := by
  simp [lastKeyboard, lastOf_notify _ ht, Report.keycodes]

@[simp] theorem lastKeyboard_consumer {t : Transport} (ht : t ∈ transports usb) (usage : UInt16)
    (log : List (Transport × Report)) :
    lastKeyboard t (notify usb (.consumer usage) log) = lastKeyboard t log := by
  simp [lastKeyboard, lastOf_notify _ ht, Report.keycodes]

/-- The statics hold what each transport was told last. -/
structure Told (usb : Bool) (s : Keypad) : Prop where
  consumer : ∀ t ∈ transports usb, lastConsumer t s.log = s.prevConsumer
  keyboard : ∀ t ∈ transports usb, lastKeyboard t s.log = s.prevKbd

theorem told_start (map : Key → Binding) : Told usb (Keypad.start map) :=
  ⟨fun _ _ => rfl, fun _ _ => rfl⟩

theorem Keypad.reportKeys_map : (s.reportKeys usb mask).map = s.map := by
  simp only [Keypad.reportKeys]
  split <;> split <;> rfl

theorem Keypad.reportKeys_prevConsumer :
    (s.reportKeys usb mask).prevConsumer = s.consumerUsage mask := by
  simp only [Keypad.reportKeys]
  split <;> split <;> simp_all

theorem Keypad.reportKeys_prevKbd : (s.reportKeys usb mask).prevKbd = kbdOf s.map mask := by
  simp only [Keypad.reportKeys]
  split <;> split <;> simp_all

/-- A report that is not sent is the one that was sent last. -/
theorem Told.reportKeys (h : Told usb s) : Told usb (s.reportKeys usb mask) := by
  constructor
  · intro t ht
    simp only [Keypad.reportKeys]
    split <;> split <;> simp [ht, h.consumer t ht]
  · intro t ht
    simp only [Keypad.reportKeys]
    split <;> split <;> simp [ht, h.keyboard t ht]

theorem Told.step {call : Call} (h : Told usb s) : Told usb (s.step usb call) := by
  cases call with
  | set index type usage saved => exact ⟨h.consumer, h.keyboard⟩
  | report mask => exact h.reportKeys

/-- A call reflects the keys exactly if it meets the condition. -/
theorem shows_iff {call : Call} (h : Told usb s) : Shows usb s call ↔ Sound s call := by
  cases call with
  | set index type usage saved => exact Iff.rfl
  | report mask =>
    have htold : Told usb (s.reportKeys usb mask) := h.reportKeys
    have hc : ∀ t ∈ transports usb, ConsumerOf (s.reportKeys usb mask).map mask
        (lastConsumer t (s.reportKeys usb mask).log) ↔ ConsumerOf s.map mask (s.consumerUsage mask) := by
      intro t ht
      rw [htold.consumer t ht, Keypad.reportKeys_map, Keypad.reportKeys_prevConsumer]
    have hk : ∀ t ∈ transports usb, KeyboardOf (s.reportKeys usb mask).map mask
        (lastKeyboard t (s.reportKeys usb mask).log) ↔ KeyboardOf s.map mask (kbdOf s.map mask) := by
      intro t ht
      rw [htold.keyboard t ht, Keypad.reportKeys_map, Keypad.reportKeys_prevKbd]
    have hhog : Transport.hog ∈ transports usb := by cases usb <;> decide
    rw [Shows, Sound, ← consumerOf_consumerUsage, ← keyboardOf_kbdOf]
    constructor
    · intro hr
      exact ⟨(hc _ hhog).mp (hr.consumer _ hhog), (hk _ hhog).mp (hr.keyboard _ hhog)⟩
    · rintro ⟨hcons, hkbd⟩
      exact ⟨fun t ht => (hc t ht).mpr hcons, fun t ht => (hk t ht).mpr hkbd, fun hup t ht =>
        released_empty hup ((hc t ht).mpr hcons) ((hk t ht).mpr hkbd)⟩

end Notified

/-- The reports reflect the keys after every call of a run exactly if every call of it meets the
condition. -/
theorem reports_reflect_keys (usb : Bool) (map : Key → Binding) (calls : List Call) :
    Meets (Keypad.step usb) (Shows usb) (Keypad.start map) calls ↔
      Meets (Keypad.step usb) Sound (Keypad.start map) calls :=
  meets_iff (I := Told usb) (told_start map) (fun _ _ h => shows_iff h) (fun _ _ h _ => h.step) calls

/-- Key 0 is held when it becomes a keyboard key, and its usage goes out on the consumer report,
with no consumer key held. -/
theorem rebound_key_stays_consumer :
    ¬ Meets (Keypad.step true) (Shows true) (Keypad.start defaultMap)
      [.set 1 .keyboard 5 0, .report 1, .set 0 .keyboard 4 0, .report 3] := by
  intro h
  rw [meets_cons, meets_cons, meets_cons, meets_cons] at h
  have hcons := h.2.2.2.1.consumer .hog (by decide)
  revert hcons
  decide

/-- Whatever was bound and held before, a call with no key held leaves both reports empty. -/
theorem released_reports (usb : Bool) (map : Key → Binding) (calls : List Call) {mask : UInt32}
    (hup : ∀ i, pressed mask i = false) {t : Transport} (ht : t ∈ transports usb) :
    let log := (run (Keypad.step usb) (Keypad.start map) (calls ++ [.report mask])).log
    lastConsumer t log = 0 ∧ lastKeyboard t log = List.replicate hidKeyboardKeys 0 := by
  have htold : Told usb (run (Keypad.step usb) (Keypad.start map) calls) :=
    run_induction (I := fun _ s => Told usb s) (told_start map) (fun _ _ h => h.step) calls
  have hsound : Sound (run (Keypad.step usb) (Keypad.start map) calls) (.report mask) := by
    constructor
    · intro i hi
      have hp := hi.2.1
      rw [hup i] at hp
      cases hp
    · intro i hi
      rw [bound_false hup] at hi
      cases hi
  rw [run_concat]
  exact ((shows_iff htold).mpr hsound).released hup t ht

end ZephyrApps.KeyReports
