import ZephyrApps.ApiState

/-!
# Network interfaces

`uplink.c` on a target with interfaces of its own. The interfaces are numbered in the
order in which `net_if_foreach` visits them; their link and address change, their kind does not.
-/
namespace ZephyrApps.Uplinks
open ApiState

/-- What tells interfaces apart: `net_if_is_wifi`, and the link layer otherwise. -/
inductive IfaceKind where
  | wifi
  | ethernet
  | other
  deriving DecidableEq

/-- What is asked of an interface: `net_if_is_up`, and its preferred global IPv4 address
in host order, if it has one. -/
structure Link where
  up : Bool
  address : Option UInt32
  deriving DecidableEq

/-- The statics of `uplink.c`, with the interfaces on which DHCP was started. -/
structure Ifaces where
  ethIface : Option ℕ
  wifiIface : Option ℕ
  dhcp : List ℕ
  deriving DecidableEq

def Ifaces.init : Ifaces := ⟨none, none, []⟩

/-- `classify` -/
def classify (u : Ifaces) (iface : IfaceKind × ℕ) : Ifaces :=
  match iface.1 with
  | .wifi =>
    { u with wifiIface := u.wifiIface.or (some iface.2), dhcp := u.dhcp ++ [iface.2] }
  | .ethernet =>
    { u with ethIface := u.ethIface.or (some iface.2), dhcp := u.dhcp ++ [iface.2] }
  | .other => u

/-- `-ENODEV` -/
def enodev : Int := -19

/-- `uplink_init` -/
def uplinkInit (kinds : List IfaceKind) : Ifaces × Int :=
  let u := kinds.zipIdx.foldl classify .init
  (u, if u.ethIface = none ∧ u.wifiIface = none then enodev else 0)

/-- `iface_ipv4` -/
def ifaceIpv4 (links : ℕ → Link) (iface : Option ℕ) : UInt32 :=
  match iface with
  | none => 0
  | some i => if (links i).up then (links i).address.getD 0 else 0

/-- `uplink_ethernet_ready` -/
def uplinkEthernetReady (u : Ifaces) (links : ℕ → Link) : Bool := ifaceIpv4 links u.ethIface ≠ 0

/-- `uplink_status_get` -/
def uplinkStatusGet (u : Ifaces) (links : ℕ → Link) : UplinkStatus :=
  let ip := ifaceIpv4 links u.ethIface
  if ip ≠ 0 then ⟨.ethernet, ip⟩
  else
    let ip := ifaceIpv4 links u.wifiIface
    if ip ≠ 0 then ⟨.wifi, ip⟩ else ⟨.none, 0⟩

variable {k : IfaceKind} {kinds : List IfaceKind} {u : Ifaces} {links : ℕ → Link} {i : ℕ} {ip : UInt32}

theorem foldl_classify (ifaces : List (IfaceKind × ℕ)) (u : Ifaces) :
    ifaces.foldl classify u =
      ⟨u.ethIface.or ((ifaces.find? fun f => f.1 = .ethernet).map Prod.snd),
        u.wifiIface.or ((ifaces.find? fun f => f.1 = .wifi).map Prod.snd),
        u.dhcp ++ (ifaces.filter fun f => f.1 ≠ .other).map Prod.snd⟩ := by
  induction ifaces generalizing u with
  | nil => simp
  | cons f ifaces ih =>
    obtain ⟨kind, i⟩ := f
    rw [List.foldl_cons, ih]
    obtain ⟨eth, wifi, dhcp⟩ := u
    cases kind with
    | wifi => cases wifi <;> simp [classify]
    | ethernet => cases eth <;> simp [classify]
    | other => simp [classify]

def firstOf (k : IfaceKind) (kinds : List IfaceKind) : Option ℕ := kinds.findIdx? fun f => f = k

theorem find_zipIdx (k : IfaceKind) (kinds : List IfaceKind) (n : ℕ) :
    ((kinds.zipIdx n).find? fun f => f.1 = k).map Prod.snd = (firstOf k kinds).map (· + n) := by
  induction kinds generalizing n with
  | nil => rfl
  | cons f kinds ih =>
    rw [List.zipIdx_cons, List.find?_cons, firstOf, List.findIdx?_cons]
    by_cases hf : f = k
    · simp [hf]
    · have hrest := ih (n + 1)
      rw [firstOf] at hrest
      simp only [hf, decide_false, Bool.false_eq_true, if_false, hrest, Option.map_map]
      congr 1
      funext m
      simp only [Function.comp]
      omega

theorem uplinkInit_fst (kinds : List IfaceKind) :
    (uplinkInit kinds).1 = ⟨firstOf .ethernet kinds, firstOf .wifi kinds,
      (kinds.zipIdx.filter fun f => f.1 ≠ .other).map Prod.snd⟩ := by
  have heth := find_zipIdx .ethernet kinds 0
  have hwifi := find_zipIdx .wifi kinds 0
  simp only [Nat.add_zero, Option.map_id'] at heth hwifi
  simp only [uplinkInit, foldl_classify, heth, hwifi]
  rfl

theorem firstOf_eq_none : firstOf k kinds = none ↔ k ∉ kinds := by
  rw [firstOf, List.findIdx?_eq_none_iff]
  constructor
  · intro h hk
    have := h k hk
    simp at this
  · intro h f hf
    have hne : f ≠ k := fun e => h (e ▸ hf)
    simp [hne]

/-- The first interface of a kind is up and has the address `ip`. -/
def Serves (kinds : List IfaceKind) (links : ℕ → Link) (k : IfaceKind) (ip : UInt32) : Prop :=
  ∃ i, firstOf k kinds = some i ∧ (links i).up = true ∧ (links i).address = some ip

theorem ifaceIpv4_eq (hip : ip ≠ 0) :
    ifaceIpv4 links (firstOf k kinds) = ip ↔ Serves kinds links k ip := by
  unfold ifaceIpv4 Serves
  cases hi : firstOf k kinds with
  | none => simp [hip.symm]
  | some i =>
    cases hup : (links i).up <;> cases ha : (links i).address <;>
      simp [hup, ha, hip.symm]

/-- No interface of a kind is used with an address. -/
def Unserved (kinds : List IfaceKind) (links : ℕ → Link) (k : IfaceKind) : Prop :=
  ∀ ip ≠ 0, ¬Serves kinds links k ip

theorem unserved_iff : Unserved kinds links k ↔ ifaceIpv4 links (firstOf k kinds) = 0 := by
  constructor
  · intro h
    by_contra he
    exact h _ he ((ifaceIpv4_eq he).mp rfl)
  · intro he ip hip h
    exact hip (((ifaceIpv4_eq hip).mpr h).symm.trans he)

/-- The path the machine sessions are on: Ethernet before WiFi, an address only from an
interface that is up, none only when neither has one. -/
def Path (kinds : List IfaceKind) (links : ℕ → Link) : UplinkStatus → Prop
  | ⟨.ethernet, ip⟩ => ip ≠ 0 ∧ Serves kinds links .ethernet ip
  | ⟨.wifi, ip⟩ => ip ≠ 0 ∧ Serves kinds links .wifi ip ∧ Unserved kinds links .ethernet
  | ⟨.none, ip⟩ => ip = 0 ∧ Unserved kinds links .ethernet ∧ Unserved kinds links .wifi
  | ⟨.host, _⟩ => False

theorem mem_dhcp :
    i ∈ (uplinkInit kinds).1.dhcp ↔ kinds[i]? = some .wifi ∨ kinds[i]? = some .ethernet := by
  rw [uplinkInit_fst]
  simp only [List.mem_map, List.mem_filter, List.mem_zipIdx_iff_getElem?, decide_eq_true_eq]
  constructor
  · rintro ⟨⟨kind, j⟩, ⟨hk, hne⟩, rfl⟩
    cases kind with
    | wifi => exact .inl hk
    | ethernet => exact .inr hk
    | other => exact absurd rfl hne
  · intro h
    cases h with
    | inl h => exact ⟨(.wifi, i), ⟨h, IfaceKind.noConfusion⟩, rfl⟩
    | inr h => exact ⟨(.ethernet, i), ⟨h, IfaceKind.noConfusion⟩, rfl⟩

/-- DHCP is started on an interface once. -/
theorem dhcp_increasing (kinds : List IfaceKind) :
    (uplinkInit kinds).1.dhcp.Pairwise (· < ·) := by
  rw [uplinkInit_fst]
  have hsub : ((kinds.zipIdx.filter fun f => f.1 ≠ .other).map Prod.snd).Sublist
      (kinds.zipIdx.map Prod.snd) := List.filter_sublist.map _
  rw [List.zipIdx_map_snd] at hsub
  exact (List.pairwise_lt_range' 1).sublist hsub

theorem uplinkInit_ok :
    (uplinkInit kinds).2 = 0 ↔ ∃ i : ℕ, kinds[i]? = some .wifi ∨ kinds[i]? = some .ethernet := by
  have hret : (uplinkInit kinds).2 = 0 ↔
      ¬(firstOf .ethernet kinds = none ∧ firstOf .wifi kinds = none) := by
    have hi := uplinkInit_fst kinds
    rw [uplinkInit] at hi ⊢
    simp only at hi ⊢
    rw [hi]
    split <;> simp_all [enodev]
  rw [hret, firstOf_eq_none, firstOf_eq_none, exists_or, ← List.mem_iff_getElem?,
    ← List.mem_iff_getElem?, not_and_or, not_not, not_not, or_comm]

/-- An interface counts only if it is the first of its kind. -/
theorem uplinkStatusGet_congr {links' : ℕ → Link}
    (h : ∀ i, firstOf .ethernet kinds = some i ∨ firstOf .wifi kinds = some i →
      links' i = links i) :
    uplinkStatusGet (uplinkInit kinds).1 links' = uplinkStatusGet (uplinkInit kinds).1 links := by
  have hip (k : IfaceKind) (hk : ∀ i, firstOf k kinds = some i → links' i = links i) :
      ifaceIpv4 links' (firstOf k kinds) = ifaceIpv4 links (firstOf k kinds) := by
    cases hi : firstOf k kinds with
    | none => rfl
    | some i => rw [ifaceIpv4, ifaceIpv4, hk i hi]
  have heth := hip .ethernet fun i hi => h i (.inl hi)
  have hwifi := hip .wifi fun i hi => h i (.inr hi)
  rw [uplinkInit_fst, uplinkStatusGet, uplinkStatusGet, heth, hwifi]

/-- The status is the path, which depends on the first interface of each kind alone; DHCP runs
on every WiFi or Ethernet interface, also on those that never become the path. -/
theorem uplink_path (kinds : List IfaceKind) (links : ℕ → Link) :
    let u := (uplinkInit kinds).1
    (∀ s, uplinkStatusGet u links = s ↔ Path kinds links s) ∧
      (∀ links' : ℕ → Link,
        (∀ i, firstOf .ethernet kinds = some i ∨ firstOf .wifi kinds = some i →
          links' i = links i) →
        uplinkStatusGet u links' = uplinkStatusGet u links) ∧
      (∀ i, i ∈ u.dhcp ↔ kinds[i]? = some .wifi ∨ kinds[i]? = some .ethernet) ∧
      u.dhcp.Pairwise (· < ·) ∧
      ((uplinkInit kinds).2 = 0 ↔ ∃ i : ℕ, kinds[i]? = some .wifi ∨ kinds[i]? = some .ethernet) := by
  intro u
  refine ⟨fun s => ?_, fun links' h => uplinkStatusGet_congr h, fun i => mem_dhcp,
    dhcp_increasing kinds, uplinkInit_ok⟩
  obtain ⟨kind, ip⟩ := s
  have heth : ip ≠ 0 → (Serves kinds links .ethernet ip ↔
      ifaceIpv4 links (firstOf .ethernet kinds) = ip) := fun h => (ifaceIpv4_eq h).symm
  have hwifi : ip ≠ 0 → (Serves kinds links .wifi ip ↔
      ifaceIpv4 links (firstOf .wifi kinds) = ip) := fun h => (ifaceIpv4_eq h).symm
  -- what the two addresses are decides all four kinds
  cases kind <;> simp only [Path, unserved_iff] <;>
    simp only [u, uplinkStatusGet, uplinkInit_fst] <;> grind

end ZephyrApps.Uplinks
