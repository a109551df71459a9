import ZephyrApps.AppSettings
import ZephyrApps.CStrings
import ZephyrApps.KeyedLoads
import ZephyrApps.LittleEndianWords

/-!
# The settings in RAM and in flash

All of `app_settings.c`: the statics, what its setters save under which key, and the
handler that reads the keys back after a reset. Zephyr's settings are a map from
keys to byte strings, which a failed save leaves as it was; `settings_name_steq` is a
parameter, and `Documented` what Zephyr says of it.
-/
namespace ZephyrApps.SettingsStore
open AppSettings CStrings LittleEndianWords

/-- `PSTOP_WIFI_SSID_MAX` -/
def wifiSsidMax : ℕ := 32
/-- `PSTOP_WIFI_PASS_MAX` -/
def wifiPassMax : ℕ := 64

/-- One of the `PSTOP_WIFI_MAX` WiFi entries. -/
abbrev WifiIdx := Fin 4

/-- `struct pstop_wifi_net` -/
structure WifiNet where
  ssid : List UInt8
  pass : List UInt8
  ssid_length : ssid.length = wifiSsidMax + 1
  pass_length : pass.length = wifiPassMax + 1
  deriving DecidableEq

/-- An entry that `memset` cleared. -/
def WifiNet.zero : WifiNet :=
  ⟨List.replicate (wifiSsidMax + 1) 0, List.replicate (wifiPassMax + 1) 0, by simp, by simp⟩

/-- The entry with NULs at the ends of its buffers. -/
def WifiNet.closed (net : WifiNet) : WifiNet :=
  ⟨net.ssid.set wifiSsidMax 0, net.pass.set wifiPassMax 0, by simp [net.ssid_length],
    by simp [net.pass_length]⟩

/-- The statics of `app_settings.c`. -/
structure Image extends Settings where
  ringOffset : UInt8
  wifi : WifiIdx → WifiNet

/-- `struct pstop_peer` as the little-endian targets lay it out, with its padding. -/
def peerBytes (peer : Peer) : List UInt8 :=
  wordBytes 4 peer.ip.toNat ++ (wordBytes 2 peer.port.toNat ++ (wordBytes 2 0 ++
    (wordBytes 4 peer.id.toNat ++ (wordBytes 1 peer.configured.toNat ++ wordBytes 3 0))))

/-- `sizeof(struct pstop_peer)` -/
def peerSize : ℕ := 16

def peerOfBytes (bytes : List UInt8) : Peer where
  ip := UInt32.ofNat (wordAt 4 0 bytes)
  port := UInt16.ofNat (wordAt 2 4 bytes)
  id := UInt32.ofNat (wordAt 4 8 bytes)
  configured := decide (wordAt 1 12 bytes ≠ 0)

def wifiBytes (net : WifiNet) : List UInt8 := net.ssid ++ net.pass

/-- `sizeof(struct pstop_wifi_net)` -/
def wifiSize : ℕ := wifiSsidMax + 1 + (wifiPassMax + 1)

def wifiOfBytes (bytes : List UInt8) (h : bytes.length = wifiSize) : WifiNet where
  ssid := bytes.take (wifiSsidMax + 1)
  pass := bytes.drop (wifiSsidMax + 1)
  ssid_length := by
    rw [List.length_take, h]
    rfl
  pass_length := by
    rw [List.length_drop, h]
    rfl

inductive Item where
  | deviceId
  | operator
  | ringOffset
  | wifi (idx : WifiIdx)
  | peer (slot : Slot)
  deriving DecidableEq

/-- The name of a key below `PSTOP_SETTINGS_ROOT`. -/
def Item.name : Item → Text
  | .deviceId => text "device_id"
  | .operator => text "operator"
  | .ringOffset => text "ring_off"
  | .wifi idx => text "wifi/" ++ dec idx
  | .peer slot => text "peers/" ++ dec slot

/-- The key of a name: `PSTOP_SETTINGS_ROOT "/" name`. -/
def keyOf (name : Text) : Text := text "pstop/" ++ name

def Item.key (item : Item) : Text := keyOf item.name

abbrev Store := Text → Option (List UInt8)

/-- `settings_save_one`, which returns `saved`. -/
def settingsSaveOne (store : Store) (key : Text) (value : List UInt8) (saved : Int) : Store :=
  if saved = 0 then Function.update store key (some value) else store

structure Config where
  ram : Image
  flash : Store

/-- The common part of `app_settings_set_peer` and `app_settings_clear_peer`, with
`save_peer`. -/
def Config.storePeer (c : Config) (slot : Int) (peer : Peer) (saved : Int) : Config × Int :=
  match slotOf slot with
  | none => (c, einval)
  | some i =>
    ({ ram := if saved = 0 then { c.ram with peers := Function.update c.ram.peers i peer } else c.ram
       flash := settingsSaveOne c.flash (Item.peer i).key (peerBytes peer) saved }, saved)

/-- `app_settings_set_peer` -/
def Config.setPeer (c : Config) (slot : Int) (ip : UInt32) (port : UInt16) (id : UInt32)
    (saved : Int) : Config × Int := c.storePeer slot ⟨ip, port, id, true⟩ saved

/-- `app_settings_clear_peer` -/
def Config.clearPeer (c : Config) (slot : Int) (saved : Int) : Config × Int :=
  c.storePeer slot Peer.zero saved

/-- `app_settings_set_device_id` -/
def Config.setDeviceId (c : Config) (id : UInt32) (saved : Int) : Config × Int :=
  ({ ram := if saved ≠ 0 then c.ram else { c.ram with deviceId := id }
     flash := settingsSaveOne c.flash Item.deviceId.key (wordBytes 4 id.toNat) saved }, saved)

/-- `app_settings_set_ring_offset` -/
def Config.setRingOffset (c : Config) (offset : UInt8) (saved : Int) : Config × Int :=
  if 16 ≤ offset then (c, einval)
  else
    ({ ram := if saved ≠ 0 then c.ram else { c.ram with ringOffset := offset }
       flash := settingsSaveOne c.flash Item.ringOffset.key (wordBytes 1 offset.toNat) saved },
      saved)

/-- `app_settings_set_operator` -/
def Config.setOperator (c : Config) (op : Bool) (saved : Int) : Config × Int :=
  ({ ram := if saved ≠ 0 then c.ram else { c.ram with isOperator := op }
     flash := settingsSaveOne c.flash Item.operator.key (wordBytes 1 op.toNat) saved }, saved)

/-- The loop of `app_settings_wifi_set_all` over the entries that remain; `saved` are
the results of its saves. -/
def wifiLoop (nets : WifiIdx → WifiNet) (saved : WifiIdx → Int) :
    List WifiIdx → Config → Config × Int
  | [], c => (c, 0)
  | i :: rest, c =>
    let flash := settingsSaveOne c.flash (Item.wifi i).key (wifiBytes (nets i)) (saved i)
    if saved i ≠ 0 then ({ c with flash }, saved i)
    else
      wifiLoop nets saved rest
        { ram := { c.ram with wifi := Function.update c.ram.wifi i (nets i) }, flash }

/-- `app_settings_wifi_set_all` -/
def Config.wifiSetAll (c : Config) (nets : WifiIdx → WifiNet) (saved : WifiIdx → Int) :
    Config × Int := wifiLoop nets saved (List.finRange 4) c

/-- `app_settings_peer_get` -/
def Image.peerGet (img : Image) (slot : Int) : Except Int Peer :=
  match slotOf slot with
  | none => .error einval
  | some i => .ok (img.peers i)

/-- `app_settings_wifi_get` -/
def Image.wifiGet (img : Image) (idx : Int) : Except Int WifiNet :=
  match slotOf idx with
  | none => .error einval
  | some i => .ok (img.wifi i)

/-- What the digits of `atoi` spell. -/
def atoiDigits (s : Text) : ℕ :=
  (s.takeWhile fun c => decide (ascii '0' ≤ c ∧ c ≤ ascii '9')).foldl
    (fun v c => v * 10 + (c.toNat - 48)) 0

/-- `atoi`: white space, a sign, digits; a number too large for an `int` is undefined
in C. -/
def atoi (s : Text) : Int :=
  match s.dropWhile fun c => decide (c = ascii ' ' ∨ (9 ≤ c ∧ c ≤ 13)) with
  | [] => 0
  | c :: s =>
    if c = ascii '-' then -atoiDigits s
    else if c = ascii '+' then atoiDigits s
    else atoiDigits (c :: s)

/-- What Zephyr documents of `settings_name_steq(name, key, &next)`: it tells whether
the name is the key, or goes on below it with `next`. -/
def nameSteq (name key : Text) : Option (Option Text) :=
  if name = key then some none
  else if key ++ [ascii '/'] <+: name then some (some (name.drop (key.length + 1)))
  else none

/-- `settings_name_steq` does what Zephyr documents; a name ends before any `=`. -/
def Documented (steq : Text → Text → Option (Option Text)) : Prop :=
  ∀ name key, ascii '=' ∉ name → steq name key = nameSteq name key

variable (steq : Text → Text → Option (Option Text))

/-- `pstop_settings_set` for a value of which `read_cb` returned `read`. -/
def pstopSettingsSet (name : Text) (value : List UInt8) (read : Int) (img : Image) :
    Image × Int :=
  if steq name (text "device_id") = some none then
    if value.length ≠ 4 then (img, einval)
    else if read < 0 then (img, eio)
    else ({ img with deviceId := UInt32.ofNat (wordAt 4 0 value) }, 0)
  else if steq name (text "operator") = some none then
    if value.length ≠ 1 then (img, einval)
    else if read < 0 then (img, eio)
    else ({ img with isOperator := decide (wordAt 1 0 value ≠ 0) }, 0)
  else if steq name (text "ring_off") = some none then
    if value.length ≠ 1 then (img, einval)
    else if read < 0 then (img, eio)
    else ({ img with ringOffset := UInt8.ofNat (wordAt 1 0 value) }, 0)
  else
    match (steq name (text "wifi")).join with
    | some next =>
      match slotOf (atoi next) with
      | none => (img, einval)
      | some i =>
        if h : value.length = wifiSize then
          if read < 0 then (img, eio)
          else ({ img with wifi := Function.update img.wifi i (wifiOfBytes value h).closed }, 0)
        else (img, einval)
    | none =>
      match (steq name (text "peers")).join with
      | some next =>
        match slotOf (atoi next) with
        | none => (img, einval)
        | some i =>
          if value.length ≠ peerSize then (img, einval)
          else if read < 0 then (img, eio)
          else ({ img with peers := Function.update img.peers i (peerOfBytes value) }, 0)
      | none => (img, enoent)

/-- `settings_load_subtree("pstop")`: the handler is called for every name, in the
order of `names`. -/
def loadSubtree (flash : Store) (read : Text → Int) (names : List Text) (img : Image) : Image :=
  KeyedLoads.load (fun name value img => (pstopSettingsSet steq name value (read name) img).1)
    (fun name => flash (keyOf name)) names img

/-- `derive_device_id`; `mac` is what `hwinfo_get_device_id` delivers. -/
def deriveDeviceId (mac : List UInt8) : UInt32 :=
  match mac.reverse with
  | b0 :: b1 :: b2 :: _ =>
    (0x01000000 : UInt32) ||| (b2.toUInt32 <<< 16) ||| (b1.toUInt32 <<< 8) ||| b0.toUInt32
  | _ => 0xC0A80105

/-- The statics as `app_settings_init` first clears them. -/
def Image.cleared (mac : List UInt8) : Image where
  peers _ := Peer.zero
  deviceId := 0
  derivedId := deriveDeviceId mac
  isOperator := false
  ringOffset := 0
  wifi _ := WifiNet.zero

/-- `app_settings_init`; `subsys` and `loaded` are what `settings_subsys_init` and
`settings_load_subtree` return. -/
def appSettingsInit (mac : List UInt8) (subsys loaded : Int) (read : Text → Int)
    (names : List Text) (flash : Store) : Config × Int :=
  let img := Image.cleared mac
  if subsys ≠ 0 then (⟨img, flash⟩, subsys)
  else
    let img := loadSubtree steq flash read names img
    if loaded ≠ 0 then (⟨img, flash⟩, loaded)
    else (⟨if 16 ≤ img.ringOffset then { img with ringOffset := 0 } else img, flash⟩, 0)

end ZephyrApps.SettingsStore
