import Mathlib.Algebra.GroupWithZero.Nat
import Mathlib.Logic.Function.Basic

/-!
# The settings of the protective stop

The RAM image that the setters and getters of `app_settings.c` share between the
HTTP thread and the comparator. A setter takes the result of `settings_save_one`
and changes the image only when the save succeeded.
-/
namespace ZephyrApps.AppSettings

/-- One of the `PSTOP_MAX_MACHINES` machine slots. -/
abbrev Slot := Fin 4

instance neZero_slots : NeZero 4 := ⟨by decide⟩

@[elab_as_elim]
theorem slot_cases {motive : Slot → Prop} (zero : motive 0) (one : motive 1) (two : motive 2)
    (three : motive 3) (s : Slot) : motive s :=
  match s with
  | 0 => zero
  | 1 => one
  | 2 => two
  | 3 => three

/-- The slot an `int` argument names, if it is in range. -/
def slotOf (slot : Int) : Option Slot :=
  if h : 0 ≤ slot ∧ slot < 4 then some ⟨slot.toNat, by omega⟩ else none

/-- `-ENOENT` -/
def enoent : Int := -2
/-- `-EIO` -/
def eio : Int := -5
/-- `-EINVAL` -/
def einval : Int := -22
/-- `-ENOSPC` -/
def enospc : Int := -28

/-- `struct pstop_peer` -/
structure Peer where
  ip : UInt32
  port : UInt16
  id : UInt32
  configured : Bool
  deriving DecidableEq

/-- A slot that `memset` cleared. -/
def Peer.zero : Peer := ⟨0, 0, 0, false⟩

structure Settings where
  peers : Slot → Peer
  deviceId : UInt32
  derivedId : UInt32
  isOperator : Bool

/-- `app_settings_effective_device_id` -/
def Settings.effectiveDeviceId (s : Settings) : UInt32 :=
  if s.deviceId ≠ 0 then s.deviceId else s.derivedId

/-- The common part of `app_settings_set_peer` and `app_settings_clear_peer`. -/
def Settings.storePeer (s : Settings) (slot : Int) (peer : Peer) (saved : Int) : Settings × Int :=
  match slotOf slot with
  | none => (s, einval)
  | some i => (if saved = 0 then { s with peers := Function.update s.peers i peer } else s, saved)

/-- `app_settings_set_peer` -/
def Settings.setPeer (s : Settings) (slot : Int) (ip : UInt32) (port : UInt16) (id : UInt32)
    (saved : Int) : Settings × Int := s.storePeer slot ⟨ip, port, id, true⟩ saved

/-- `app_settings_clear_peer` -/
def Settings.clearPeer (s : Settings) (slot : Int) (saved : Int) : Settings × Int :=
  s.storePeer slot Peer.zero saved

/-- `app_settings_set_device_id` -/
def Settings.setDeviceId (s : Settings) (id : UInt32) (saved : Int) : Settings × Int :=
  (if saved = 0 then { s with deviceId := id } else s, saved)

/-- `app_settings_set_operator` -/
def Settings.setOperator (s : Settings) (op : Bool) (saved : Int) : Settings × Int :=
  (if saved = 0 then { s with isOperator := op } else s, saved)

end ZephyrApps.AppSettings
