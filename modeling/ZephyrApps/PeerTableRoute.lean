import ZephyrApps.ApiReplies
import ZephyrApps.ControlPlane
import ZephyrApps.HttpUtil
import ZephyrApps.SettingsStore

/-!
# The peer-table routes

`pstop_api_pstop_peer` and `pstop_api_pstop_peers` of `api.c` with the parsing of
their parameters, and the settings and request words that they write. A request that
is refused changes nothing; one that is served has done to its slot what its URL
spells, and nothing else.
-/
namespace ZephyrApps.PeerTableRoute
open AppSettings CStrings HttpUtil SettingsStore ControlPlane ApiReplies

structure Control where
  config : Config
  rebondRequests : Slot → Bool
  reconfigureRequests : Slot → Bool

def Control.shared (d : Control) : Shared :=
  ⟨d.config.ram.toSettings, d.rebondRequests, d.reconfigureRequests⟩

/-- `pstop_lockstep_request_reconfigure` -/
def Control.requestReconfigure (d : Control) (slot : Int) : Control × Int :=
  ({ d with reconfigureRequests := (d.shared.requestReconfigure slot).1.reconfigureRequests },
    (d.shared.requestReconfigure slot).2)

/-- `pstop_lockstep_request_rebond` -/
def Control.requestRebond (d : Control) (slot : Int) : Control × Int :=
  ({ d with rebondRequests := (d.shared.requestRebond slot).1.rebondRequests },
    (d.shared.requestRebond slot).2)

/-- `PSTOP_DEFAULT_MACHINE_ID` -/
def pstopDefaultMachineId : UInt32 := 0x01020304

/-- `PSTOP_MAX_MACHINES` -/
def pstopMaxMachines : UInt32 := 4

/-- `http_query_get` into a buffer of `size` bytes, then `parse` of what it holds. -/
def param {α : Type} (url : Text) (key : String) (size : ℕ) (parse : Text → Except Int α) :
    Except Int α :=
  match httpQueryGet url (text key) size with
  | .error e => .error e
  | .ok val => parse val

/-- The port that `set_slot` accepts. -/
def portParam (url : Text) : Option UInt32 :=
  match param url "port" 24 httpParseU32 with
  | .error _ => none
  | .ok port => if port < 1 ∨ 65535 < port then none else some port

/-- The id that `set_slot` accepts. -/
def idParam (url : Text) : Option UInt32 :=
  match httpQueryGet url (text "id") 24 with
  | .error e => if e = enoent then some pstopDefaultMachineId else none
  | .ok val =>
    match httpParseU32 val with
    | .error _ => none
    | .ok id => if id = 0 then none else some id

/-- `set_slot`; an error comes with its text, a success with ip, port and id. -/
def setSlot (d : Control) (slot : Int) (url : Text) (saved : Int) :
    Control × Except (Int × String) (UInt32 × UInt32 × UInt32) :=
  match param url "ip" 24 httpParseIpv4 with
  | .error _ => (d, .error (einval, "bad or missing ip"))
  | .ok ip =>
    match portParam url with
    | none => (d, .error (einval, "bad or missing port"))
    | some port =>
      match idParam url with
      | none => (d, .error (einval, "bad id"))
      | some id =>
        let (config, ret) := d.config.setPeer slot ip port.toUInt16 id saved
        let d := { d with config }
        if ret ≠ 0 then (d, .error (ret, "settings write failed"))
        else ((d.requestReconfigure slot).1, .ok (ip, port, id))

/-- `clear_slot` -/
def clearSlot (d : Control) (slot : Int) (saved : Int) : Control × Int :=
  let (config, ret) := d.config.clearPeer slot saved
  let d := { d with config }
  (if ret = 0 then (d.requestReconfigure slot).1 else d, ret)

/-- What `%s` prints of a condition. -/
def boolText (b : Bool) : Text := if b then text "true" else text "false"

/-- What `%u.%u.%u.%u` prints of an address. -/
def dotted (ip : UInt32) : Text :=
  dec ((ip >>> 24) &&& 0xFF).toNat ++ text "." ++ dec ((ip >>> 16) &&& 0xFF).toNat ++ text "." ++
    dec ((ip >>> 8) &&& 0xFF).toNat ++ text "." ++ dec (ip &&& 0xFF).toNat

def rebondBody (slot : UInt32) : Text :=
  text "\x7b\"ok\":true,\"slot\":" ++ dec slot.toNat ++ text ",\"rebond\":true\x7d"

def clearedBody (ok : Bool) (slot : UInt32) : Text :=
  text "\x7b\"ok\":" ++ boolText ok ++ text ",\"slot\":" ++ dec slot.toNat ++
    text ",\"cleared\":true\x7d"

def setBody (slot ip port id : UInt32) : Text :=
  text "\x7b\"ok\":true,\"slot\":" ++ dec slot.toNat ++ text ",\"ip\":\"" ++ dotted ip ++
    text "\",\"port\":" ++ dec port.toNat ++ text ",\"id\":" ++ dec id.toNat ++ text "\x7d"

def cleared0Body (ok : Bool) : Text :=
  text "\x7b\"ok\":" ++ boolText ok ++ text ",\"cleared\":true\x7d"

def set0Body (ip port : UInt32) : Text :=
  text "\x7b\"ok\":true,\"ip\":\"" ++ dotted ip ++ text "\",\"port\":" ++ dec port.toNat ++
    text "\x7d"

/-- The reply to a `set_slot` that failed. -/
def setSlotError (cap : ℕ) (ret : Int) (err : String) : Response :=
  reply cap (if ret = einval then 400 else 500) (errorBody err)

/-- `pstop_api_pstop_peer` -/
def pstopApiPstopPeer (d : Control) (url : Text) (cap : ℕ) (saved : Int) : Control × Response :=
  if httpQueryFlag url (text "clear") then
    let (d, ret) := clearSlot d 0 saved
    (d, reply cap (if ret = 0 then 200 else 500) (cleared0Body (decide (ret = 0))))
  else
    match setSlot d 0 url saved with
    | (d, .error (ret, err)) => (d, setSlotError cap ret err)
    | (d, .ok (ip, port, _)) => (d, reply cap 200 (set0Body ip port))

/-- `pstop_api_pstop_peers`; `saved` is what `settings_save_one` returns. -/
def pstopApiPstopPeers (d : Control) (url : Text) (cap : ℕ) (saved : Int) : Control × Response :=
  match param url "slot" 8 httpParseU32 with
  | .error _ => (d, reply cap 400 (errorBody "missing slot"))
  | .ok slot =>
    if pstopMaxMachines ≤ slot then (d, reply cap 400 (errorBody "slot out of range"))
    else if httpQueryFlag url (text "rebond") then
      ((d.requestRebond slot.toNat).1, reply cap 200 (rebondBody slot))
    else if httpQueryFlag url (text "clear") then
      let (d, ret) := clearSlot d slot.toNat saved
      (d, reply cap (if ret = 0 then 200 else 500) (clearedBody (decide (ret = 0)) slot))
    else
      match setSlot d slot.toNat url saved with
      | (d, .error (ret, err)) => (d, setSlotError cap ret err)
      | (d, .ok (ip, port, id)) => (d, reply cap 200 (setBody slot ip port id))

inductive Request where
  | rebond
  | clear
  | set (ip : UInt32) (port : UInt16) (id : UInt32)
  deriving DecidableEq

/-- The flag is set: its first value is `1`. -/
def Flagged (url : Text) (key : String) : Prop := firstValue (text key) url = some (text "1")

def GivesId (url : Text) (id : UInt32) : Prop :=
  match firstValue (text "id") url with
  | none => id = pstopDefaultMachineId
  | some val => Denotes val id.toNat ∧ id ≠ 0

structure Sets (url : Text) (ip : UInt32) (port : UInt16) (id : UInt32) : Prop where
  givesIp : ∃ val, firstValue (text "ip") url = some val ∧ DottedQuad val ip
  givesPort : ∃ val, firstValue (text "port") url = some val ∧ Denotes val port.toNat
  port_pos : 1 ≤ port.toNat
  givesId : GivesId url id

/-- What the URL spells for its slot: rebonding goes before clearing, and clearing
before setting. -/
inductive Spells (url : Text) : Request → Prop
  | rebond : Flagged url "rebond" → Spells url .rebond
  | clear : ¬ Flagged url "rebond" → Flagged url "clear" → Spells url .clear
  | set {ip : UInt32} {port : UInt16} {id : UInt32} : ¬ Flagged url "rebond" →
      ¬ Flagged url "clear" → Sets url ip port id → Spells url (.set ip port id)

def Control.stored (d : Control) (slot : Slot) (peer : Peer) : Control where
  config :=
    { ram := { d.config.ram with peers := Function.update d.config.ram.peers slot peer }
      flash := Function.update d.config.flash (Item.peer slot).key (some (peerBytes peer)) }
  rebondRequests := d.rebondRequests
  reconfigureRequests := raise d.reconfigureRequests slot

def Control.served (d : Control) (slot : Slot) : Request → Control
  | .rebond => { d with rebondRequests := raise d.rebondRequests slot }
  | .clear => d.stored slot Peer.zero
  | .set ip port id => d.stored slot ⟨ip, port, id, true⟩

theorem param_ok {α : Type} {url : Text} {key : String} {size : ℕ} {parse : Text → Except Int α}
    {a : α} (hsize : 0 < size) (h : param url key size parse = .ok a) :
    ∃ val, firstValue (text key) url = some val ∧ parse val = .ok a := by
  rw [param] at h
  cases hget : httpQueryGet url (text key) size with
  | error e => simp [hget] at h
  | ok val =>
    rw [hget] at h
    exact ⟨val, ((httpQueryGet_ok hsize).mp hget).1, h⟩

theorem portParam_some {url : Text} {port : UInt32} (h : portParam url = some port) :
    ∃ val, firstValue (text "port") url = some val ∧ Denotes val port.toUInt16.toNat ∧
      1 ≤ port.toUInt16.toNat := by
  rw [portParam] at h
  cases hp : param url "port" 24 httpParseU32 with
  | error e => simp [hp] at h
  | ok port' =>
    simp only [hp] at h
    by_cases hrange : port' < 1 ∨ 65535 < port'
    · rw [if_pos hrange] at h
      exact nomatch h
    · rw [if_neg hrange] at h
      obtain rfl := Option.some.inj h
      obtain ⟨val, hval, hparse⟩ := param_ok (by decide) hp
      have hpos : ¬ port'.toNat < 1 := fun hlt => hrange (Or.inl hlt)
      have hmax : ¬ 65535 < port'.toNat := fun hlt => hrange (Or.inr hlt)
      have hport : port'.toUInt16.toNat = port'.toNat := by
        rw [UInt32.toNat_toUInt16]
        exact Nat.mod_eq_of_lt (by omega)
      rw [hport]
      exact ⟨val, hval, httpParseU32_ok.mp hparse, by omega⟩

theorem idParam_some {url : Text} {id : UInt32} (h : idParam url = some id) : GivesId url id := by
  rw [idParam, httpQueryGet_eq url (text "id") (by decide)] at h
  unfold GivesId
  cases hv : firstValue (text "id") url with
  | none => simpa [hv, copied, eq_comm] using h
  | some val =>
    by_cases hlen : 24 ≤ val.length
    · simp [hv, copied, hlen, enospc, enoent] at h
    · simp only [hv, copied, if_neg hlen] at h
      cases hp : httpParseU32 val with
      | error e => simp [hp] at h
      | ok id' =>
        by_cases hz : id' = 0
        · simp [hp, hz] at h
        · obtain rfl : id' = id := by simpa [hp, hz] using h
          exact ⟨httpParseU32_ok.mp hp, hz⟩

theorem slotOf_slot (slot : Slot) : slotOf (slot : ℕ) = some slot := by
  rw [slotOf, dif_pos (by omega)]
  rfl

variable {d : Control} {url : Text} {slot : Slot} {saved : Int}

theorem storePeer_failed (c : Config) (slot : Int) (peer : Peer) (h : saved ≠ 0) :
    (c.storePeer slot peer saved).1 = c ∧ (c.storePeer slot peer saved).2 ≠ 0 := by
  rw [Config.storePeer]
  cases slotOf slot with
  | none =>
    have hret : einval ≠ 0 := by decide
    exact ⟨rfl, hret⟩
  | some i => simp [settingsSaveOne, h]

theorem storePeer_saved (d : Control) (slot : Slot) (peer : Peer) :
    (d.config.storePeer (slot : ℕ) peer 0).2 = 0 ∧
      (({ d with config := (d.config.storePeer (slot : ℕ) peer 0).1 } : Control).requestReconfigure
        (slot : ℕ)).1 = d.stored slot peer := by
  simp [Config.storePeer, Control.requestReconfigure, Shared.requestReconfigure, Control.shared,
    slotOf_slot, settingsSaveOne, Control.stored]

/-- A slot is cleared, or nothing changes. -/
theorem clearSlot_spec (d : Control) (slot : Slot) (saved : Int) :
    clearSlot d (slot : ℕ) saved = (d.stored slot Peer.zero, 0) ∨
      ∃ ret, ret ≠ 0 ∧ clearSlot d (slot : ℕ) saved = (d, ret) := by
  by_cases hs : saved = 0
  · subst hs
    obtain ⟨hret, hstored⟩ := storePeer_saved d slot Peer.zero
    refine Or.inl ?_
    simp only [clearSlot, Config.clearPeer, hret, if_true, hstored]
  · obtain ⟨hc, hret⟩ := storePeer_failed d.config (slot : ℕ) Peer.zero hs
    refine Or.inr ⟨_, hret, ?_⟩
    simp only [clearSlot, Config.clearPeer, if_neg hret, hc]

/-- A slot is set to what the URL gives, or nothing changes. -/
theorem setSlot_spec (d : Control) (slot : Slot) (url : Text) (saved : Int) :
    (∃ ip port id, Sets url ip port.toUInt16 id ∧ setSlot d (slot : ℕ) url saved =
      (d.stored slot ⟨ip, port.toUInt16, id, true⟩, .ok (ip, port, id))) ∨
    ∃ ret err, setSlot d (slot : ℕ) url saved = (d, .error (ret, err)) := by
  rw [setSlot]
  cases hip : param url "ip" 24 httpParseIpv4 with
  | error e => exact Or.inr ⟨_, _, rfl⟩
  | ok ip =>
    cases hport : portParam url with
    | none => exact Or.inr ⟨_, _, rfl⟩
    | some port =>
      cases hid : idParam url with
      | none => exact Or.inr ⟨_, _, rfl⟩
      | some id =>
        by_cases hs : saved = 0
        · subst hs
          obtain ⟨hret, hstored⟩ := storePeer_saved d slot ⟨ip, port.toUInt16, id, true⟩
          obtain ⟨val, hval, hparse⟩ := param_ok (by decide) hip
          obtain ⟨val', hval', hden, hpos⟩ := portParam_some hport
          refine Or.inl ⟨ip, port, id, ?_, ?_⟩
          · exact ⟨⟨val, hval, httpParseIpv4_ok hparse⟩, ⟨val', hval', hden⟩, hpos,
              idParam_some hid⟩
          · simp only [Config.setPeer, hret, ne_eq, not_true, if_false, hstored]
        · obtain ⟨hc, hret⟩ :=
            storePeer_failed d.config (slot : ℕ) ⟨ip, port.toUInt16, id, true⟩ hs
          refine Or.inr ⟨(d.config.storePeer (slot : ℕ) ⟨ip, port.toUInt16, id, true⟩ saved).2,
            "settings write failed", ?_⟩
          simp only [Config.setPeer, if_pos hret, hc]

/-- An error of the request or of the server, and nothing has changed. -/
def Refused (d : Control) (r : Control × Response) : Prop :=
  (400 ≤ r.2.status ∧ r.2.status < 600) ∧ r.1 = d

theorem refused_reply (d : Control) (cap : ℕ) {status : Int} (s : Text)
    (h : 400 ≤ status ∧ status < 600) : Refused d (d, reply cap status s) := by
  refine ⟨?_, rfl⟩
  rcases reply_status cap status s with he | he
  · rwa [he]
  · rw [he]
    decide

theorem setSlotError_refused (d : Control) (cap : ℕ) (ret : Int) (err : String) :
    Refused d (d, setSlotError cap ret err) := by
  apply refused_reply
  split <;> decide

theorem length_dotted (ip : UInt32) : (dotted ip).length ≤ 43 := by
  have h1 := length_dec_word ((ip >>> 24) &&& 0xFF)
  have h2 := length_dec_word ((ip >>> 16) &&& 0xFF)
  have h3 := length_dec_word ((ip >>> 8) &&& 0xFF)
  have h4 := length_dec_word (ip &&& 0xFF)
  have hdot : (text ".").length = 1 := rfl
  simp only [dotted, List.length_append, hdot]
  omega

theorem rebondBody_fits (slot : UInt32) : (rebondBody slot).length < pstopApiBodyMax := by
  have hslot := length_dec_word slot
  have h1 : (text "\x7b\"ok\":true,\"slot\":").length = 18 := rfl
  have h2 : (text ",\"rebond\":true\x7d").length = 15 := rfl
  simp only [rebondBody, List.length_append, h1, h2, pstopApiBodyMax]
  omega

theorem length_boolText (b : Bool) : (boolText b).length ≤ 5 := by cases b <;> decide

theorem clearedBody_fits (ok : Bool) (slot : UInt32) :
    (clearedBody ok slot).length < pstopApiBodyMax := by
  have hslot := length_dec_word slot
  have hok := length_boolText ok
  have h1 : (text "\x7b\"ok\":").length = 6 := rfl
  have h2 : (text ",\"slot\":").length = 8 := rfl
  have h3 : (text ",\"cleared\":true\x7d").length = 16 := rfl
  simp only [clearedBody, List.length_append, h1, h2, h3, pstopApiBodyMax]
  omega

theorem setBody_fits (slot ip port id : UInt32) :
    (setBody slot ip port id).length < pstopApiBodyMax := by
  have hslot := length_dec_word slot
  have hip := length_dotted ip
  have hport := length_dec_word port
  have hid := length_dec_word id
  have h1 : (text "\x7b\"ok\":true,\"slot\":").length = 18 := rfl
  have h2 : (text ",\"ip\":\"").length = 7 := rfl
  have h3 : (text "\",\"port\":").length = 9 := rfl
  have h4 : (text ",\"id\":").length = 6 := rfl
  have h5 : (text "\x7d").length = 1 := rfl
  simp only [setBody, List.length_append, h1, h2, h3, h4, h5, pstopApiBodyMax]
  omega

theorem cleared0Body_fits (ok : Bool) : (cleared0Body ok).length < pstopApiBodyMax := by
  cases ok <;> decide

theorem set0Body_fits (ip port : UInt32) : (set0Body ip port).length < pstopApiBodyMax := by
  have hip := length_dotted ip
  have hport := length_dec_word port
  have h1 : (text "\x7b\"ok\":true,\"ip\":\"").length = 17 := rfl
  have h2 : (text "\",\"port\":").length = 9 := rfl
  have h3 : (text "\x7d").length = 1 := rfl
  simp only [set0Body, List.length_append, h1, h2, h3, pstopApiBodyMax]
  omega

theorem served_reply {cap : ℕ} {s : Text} (hcap : pstopApiBodyMax ≤ cap)
    (h : s.length < pstopApiBodyMax) : (reply cap 200 s).status = 200 := by
  rw [reply_fits 200 (h.trans_le hcap)]

/-- The first value for the slot denotes it. -/
def NamesSlot (url : Text) (slot : Slot) : Prop :=
  ∃ val, firstValue (text "slot") url = some val ∧ Denotes val slot

/-- The request was refused and has changed nothing; or its status is 200, and exactly
what the URL spells was done to the one slot that it names. -/
def Exact (d : Control) (url : Text) (r : Control × Response) : Prop :=
  Refused d r ∨
    (r.2.status = 200 ∧
      ∃ slot req, NamesSlot url slot ∧ Spells url req ∧ r.1 = d.served slot req)

/-- The route for slot 0 alone is as exact; it does not rebond. -/
theorem peer_route_exact (d : Control) (url : Text) (saved : Int) {cap : ℕ}
    (hcap : pstopApiBodyMax ≤ cap) :
    Refused d (pstopApiPstopPeer d url cap saved) ∨
      ((pstopApiPstopPeer d url cap saved).2.status = 200 ∧
        ((Flagged url "clear" ∧ (pstopApiPstopPeer d url cap saved).1 = d.served 0 .clear) ∨
          ∃ ip port id, ¬ Flagged url "clear" ∧ Sets url ip port id ∧
            (pstopApiPstopPeer d url cap saved).1 = d.served 0 (.set ip port id))) := by
  rw [pstopApiPstopPeer]
  by_cases hc : httpQueryFlag url (text "clear") = true
  · rw [if_pos hc]
    have hspec : clearSlot d 0 saved = (d.stored 0 Peer.zero, 0) ∨
        ∃ ret, ret ≠ 0 ∧ clearSlot d 0 saved = (d, ret) := clearSlot_spec d 0 saved
    rcases hspec with h | ⟨ret, hret, h⟩
    · rw [h]
      exact Or.inr ⟨served_reply hcap (cleared0Body_fits true),
        Or.inl ⟨(httpQueryFlag_iff _ _).mp hc, rfl⟩⟩
    · simp only [h, if_neg hret]
      exact Or.inl (refused_reply d cap _ (by decide))
  have hc' : ¬ Flagged url "clear" := fun h => hc ((httpQueryFlag_iff _ _).mpr h)
  rw [if_neg hc]
  have hspec : (∃ ip port id, Sets url ip port.toUInt16 id ∧ setSlot d 0 url saved =
      (d.stored 0 ⟨ip, port.toUInt16, id, true⟩, .ok (ip, port, id))) ∨
      ∃ ret err, setSlot d 0 url saved = (d, .error (ret, err)) := setSlot_spec d 0 url saved
  rcases hspec with ⟨ip, port, id, hsets, h⟩ | ⟨ret, err, h⟩
  · rw [h]
    exact Or.inr ⟨served_reply hcap (set0Body_fits ip port),
      Or.inr ⟨ip, port.toUInt16, id, hc', hsets, rfl⟩⟩
  · rw [h]
    exact Or.inl (setSlotError_refused d cap ret err)

/-- The branches of the handler for a slot that exists. -/
theorem named_exact {cap : ℕ} {n : UInt32} (hcap : pstopApiBodyMax ≤ cap)
    (hnames : NamesSlot url slot) :
    Exact d url
      (if httpQueryFlag url (text "rebond") then
        ((d.requestRebond (slot : ℕ)).1, reply cap 200 (rebondBody n))
      else if httpQueryFlag url (text "clear") then
        ((clearSlot d (slot : ℕ) saved).1, reply cap
          (if (clearSlot d (slot : ℕ) saved).2 = 0 then 200 else 500)
          (clearedBody (decide ((clearSlot d (slot : ℕ) saved).2 = 0)) n))
      else
        match setSlot d (slot : ℕ) url saved with
        | (d, .error (ret, err)) => (d, setSlotError cap ret err)
        | (d, .ok (ip, port, id)) => (d, reply cap 200 (setBody n ip port id))) := by
  by_cases hr : httpQueryFlag url (text "rebond") = true
  · rw [if_pos hr]
    refine Or.inr ⟨served_reply hcap (rebondBody_fits n), slot, .rebond, hnames,
      .rebond ((httpQueryFlag_iff _ _).mp hr), ?_⟩
    simp [Control.requestRebond, Shared.requestRebond, Control.shared, slotOf_slot, Control.served]
  have hr' : ¬ Flagged url "rebond" := fun h => hr ((httpQueryFlag_iff _ _).mpr h)
  rw [if_neg hr]
  by_cases hc : httpQueryFlag url (text "clear") = true
  · rw [if_pos hc]
    rcases clearSlot_spec d slot saved with h | ⟨ret, hret, h⟩
    · rw [h]
      exact Or.inr ⟨served_reply hcap (clearedBody_fits true n), slot, .clear, hnames,
        .clear hr' ((httpQueryFlag_iff _ _).mp hc), rfl⟩
    · simp only [h, if_neg hret]
      exact Or.inl (refused_reply d cap _ (by decide))
  have hc' : ¬ Flagged url "clear" := fun h => hc ((httpQueryFlag_iff _ _).mpr h)
  rw [if_neg hc]
  rcases setSlot_spec d slot url saved with ⟨ip, port, id, hsets, h⟩ | ⟨ret, err, h⟩
  · rw [h]
    exact Or.inr ⟨served_reply hcap (setBody_fits n ip port id), slot, .set ip port.toUInt16 id,
      hnames, .set hr' hc' hsets, rfl⟩
  · rw [h]
    exact Or.inl (setSlotError_refused d cap ret err)

/-- For every URL and whatever the save returns, the route is exact. -/
theorem peers_route_exact (d : Control) (url : Text) (saved : Int) {cap : ℕ}
    (hcap : pstopApiBodyMax ≤ cap) : Exact d url (pstopApiPstopPeers d url cap saved) := by
  rw [pstopApiPstopPeers]
  cases hp : param url "slot" 8 httpParseU32 with
  | error e => exact Or.inl (refused_reply d cap _ (by decide))
  | ok n =>
    by_cases hn : pstopMaxMachines ≤ n
    · simp only [if_pos hn]
      exact Or.inl (refused_reply d cap _ (by decide))
    · obtain ⟨val, hval, hparse⟩ := param_ok (by decide) hp
      have hlt : n.toNat < 4 := not_le.mp hn
      obtain ⟨slot, hslot⟩ : ∃ slot : Slot, n.toNat = slot := ⟨⟨n.toNat, hlt⟩, rfl⟩
      simp only [if_neg hn, hslot]
      exact named_exact hcap ⟨val, hval, hslot ▸ httpParseU32_ok.mp hparse⟩

/-- A slot is set to the address, port and id that its URL gives. -/
theorem peers_route_exact_set :
    let d : Control := ⟨⟨Image.cleared [1, 2, 3], fun _ => none⟩, fun _ => false, fun _ => false⟩
    let url := text "/api/pstop_peers?slot=2&ip=127.0.0.1&port=8892&id=0x0A0B0C0D"
    (pstopApiPstopPeers d url 2048 0).2.status = 200 ∧
      Exact d url (pstopApiPstopPeers d url 2048 0) := by
  intro d url
  refine ⟨?_, peers_route_exact d url 0 (le_refl _)⟩
  have hslot : param url "slot" 8 httpParseU32 = .ok 2 := by
    rw [param, httpQueryGet_eq _ _ (by decide)]
    decide
  have hr : httpQueryFlag url (text "rebond") = false := by
    rw [httpQueryFlag, httpQueryGet_eq _ _ (by decide)]
    decide
  have hc : httpQueryFlag url (text "clear") = false := by
    rw [httpQueryFlag, httpQueryGet_eq _ _ (by decide)]
    decide
  have hip : param url "ip" 24 httpParseIpv4 = .ok 0x7F000001 := by
    rw [param, httpQueryGet_eq _ _ (by decide)]
    decide
  have hport : portParam url = some 8892 := by
    rw [portParam, param, httpQueryGet_eq _ _ (by decide)]
    decide
  have hid : idParam url = some 0x0A0B0C0D := by
    rw [idParam, httpQueryGet_eq _ _ (by decide)]
    decide
  have hset : setSlot d (2 : UInt32).toNat url 0 = (d.stored 2 ⟨0x7F000001, 8892, 0x0A0B0C0D, true⟩,
      .ok (0x7F000001, 8892, 0x0A0B0C0D)) := by
    rw [setSlot, hip, hport, hid]
    rfl
  rw [pstopApiPstopPeers, hslot]
  simp only [hr, hc, hset]
  exact served_reply (le_refl _) (setBody_fits _ _ _ _)

end ZephyrApps.PeerTableRoute
