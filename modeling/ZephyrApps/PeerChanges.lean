import ZephyrApps.SessionEndpoints

/-!
# No peer change is lost

An operation on a slot stores its peer and then requests a reconfigure; the
comparator clears all request bits and then reads the peers one by one. Once an
operation has returned, the next tick connects the slot to the stored peer, however
the writes fall between the steps of the ticks, and it leaves the other slots alone.
-/
namespace ZephyrApps.PeerChanges
open Pstop AppSettings ControlPlane EstopVerdict PstopSession LockstepComparator LockstepDevice
  LockstepTicks SessionEndpoints SystemRuns

/-- The peer that a write leaves stored for slot `s`, if it stores one. -/
def storedPeer (s : Slot) : HttpStep → Option Peer
  | .setPeer slot ip port id saved =>
    if slotOf slot = some s ∧ saved = 0 then some ⟨ip, port, id, true⟩ else none
  | .clearPeer slot saved => if slotOf slot = some s ∧ saved = 0 then some Peer.zero else none
  | _ => none

/-- The write stores or clears the peer of slot `s`. -/
def storesPeer (s : Slot) (w : HttpStep) : Bool := (storedPeer s w).isSome

/-- The write requests a reconfigure of slot `s`. -/
def requestsReconfigure (s : Slot) : HttpStep → Bool
  | .requestReconfigure slot => decide (slotOf slot = some s)
  | _ => false

/-- Every operation on slot `s` among the writes has returned: each stored peer is
followed by a request. -/
def Returned (s : Slot) (writes : List HttpStep) : Prop :=
  ∀ before w later, writes = before ++ w :: later → storesPeer s w = true →
    ∃ x ∈ later, requestsReconfigure s x = true

/-- The slot is active iff the peer is configured, and then connected to it. -/
structure Synced (m : MachineSlot) (peer : Peer) : Prop where
  active : m.active = true ↔ peer.configured = true
  addr : m.active = true → m.session.peerAddr = peer.ip
  port : m.active = true → m.session.peerPort = peer.port
  id : m.active = true → m.session.peerId = peer.id

variable {s : Slot} {writes : List HttpStep} {w : HttpStep}

theorem returned_concat :
    Returned s (writes ++ [w]) ↔
      requestsReconfigure s w = true ∨ (storesPeer s w = false ∧ Returned s writes) := by
  constructor
  · intro h
    by_cases hr : requestsReconfigure s w = true
    · exact Or.inl hr
    · refine Or.inr ⟨?_, fun before x later hw hx => ?_⟩
      · cases hs : storesPeer s w with
        | false => rfl
        | true =>
          obtain ⟨x, hx, -⟩ := h writes w [] rfl hs
          simp at hx
      · obtain ⟨y, hy, hyr⟩ := h before x (later ++ [w]) (by simp [hw]) hx
        rcases List.mem_append.mp hy with hy | hy
        · exact ⟨y, hy, hyr⟩
        · obtain rfl := List.mem_singleton.mp hy
          exact absurd hyr hr
  · intro h before x later hw hx
    rcases List.eq_nil_or_concat later with rfl | ⟨later, y, rfl⟩
    · obtain ⟨-, hw⟩ := List.append_inj' hw rfl
      obtain rfl : w = x := List.singleton_inj.mp hw
      rcases h with hr | ⟨hs, -⟩
      · cases w <;> simp_all [storesPeer, storedPeer, requestsReconfigure]
      · rw [hs] at hx
        exact absurd hx Bool.false_ne_true
    · have hw' : writes ++ [w] = (before ++ x :: later) ++ [y] := by simp [hw]
      obtain ⟨hb, hw'⟩ := List.append_inj' hw' rfl
      obtain rfl : w = y := List.singleton_inj.mp hw'
      rcases h with hr | ⟨-, hret⟩
      · exact ⟨w, by simp, hr⟩
      · obtain ⟨z, hz, hzr⟩ := hret before x later hb hx
        exact ⟨z, by simp [hz], hzr⟩

theorem apply_peers (s : Slot) (w : HttpStep) (σ : Shared) :
    (w.apply σ).settings.peers s = (storedPeer s w).getD (σ.settings.peers s) := by
  have hstore (slot : Int) (peer : Peer) (saved : Int) :
      ((σ.settings.storePeer slot peer saved).1).peers s =
        (if slotOf slot = some s ∧ saved = 0 then some peer else none).getD
          (σ.settings.peers s) := by
    unfold Settings.storePeer
    cases slotOf slot with
    | none => simp
    | some t =>
      by_cases hz : saved = 0
      · by_cases ht : t = s
        · simp [hz, ht]
        · simp [hz, ht, Function.update_of_ne (Ne.symm ht)]
      · simp [hz]
  cases w with
  | setPeer slot ip port id saved => exact hstore slot ⟨ip, port, id, true⟩ saved
  | clearPeer slot saved => exact hstore slot Peer.zero saved
  | setDeviceId id saved =>
    by_cases hz : saved = 0 <;> simp [HttpStep.apply, Settings.setDeviceId, hz, storedPeer]
  | setOperator op saved =>
    by_cases hz : saved = 0 <;> simp [HttpStep.apply, Settings.setOperator, hz, storedPeer]
  | requestReconfigure slot =>
    simp only [HttpStep.apply, Shared.requestReconfigure, storedPeer]
    cases slotOf slot <;> rfl
  | requestRebond slot =>
    simp only [HttpStep.apply, Shared.requestRebond, storedPeer]
    cases slotOf slot <;> rfl

theorem apply_peers_unstored (h : storesPeer s w = false) (σ : Shared) :
    (w.apply σ).settings.peers s = σ.settings.peers s := by
  rw [apply_peers, Option.isSome_eq_false_iff.mp h |> Option.isNone_iff_eq_none.mp,
    Option.getD_none]

theorem apply_reconfigure (s : Slot) (w : HttpStep) (σ : Shared) :
    (w.apply σ).reconfigureRequests s = (σ.reconfigureRequests s || requestsReconfigure s w) := by
  cases w with
  | requestReconfigure slot =>
    simp only [HttpStep.apply, Shared.requestReconfigure, requestsReconfigure]
    cases slotOf slot with
    | none => simp
    | some t =>
      by_cases ht : s = t
      · simp [ht, raise]
      · simp [raise, Function.update_of_ne ht, Ne.symm ht]
  | requestRebond slot =>
    simp only [HttpStep.apply, Shared.requestRebond, requestsReconfigure]
    cases slotOf slot <;> simp
  | _ => simp [HttpStep.apply, requestsReconfigure]

theorem after_peers (h : ∀ w ∈ writes, storesPeer s w = false) (σ : Shared) :
    (σ.after writes).settings.peers s = σ.settings.peers s := by
  induction writes generalizing σ with
  | nil => rfl
  | cons w writes ih =>
    rw [Shared.after_cons, ih fun x hx => h x (by simp [hx]), apply_peers_unstored (h w (by simp))]

theorem after_append (σ : Shared) (writes later : List HttpStep) :
    σ.after (writes ++ later) = (σ.after writes).after later := List.foldl_append

/-- With every operation returned and no request pending, the slot is in sync. -/
def Current (s : Slot) (writes : List HttpStep) (σ : Shared) (m : MachineSlot) : Prop :=
  Returned s writes → σ.reconfigureRequests s = false → Synced m (σ.settings.peers s)

theorem Synced.of_endpoint {m m' : MachineSlot} {peer : Peer} (h : Synced m peer)
    (he : endpoint m' = endpoint m) : Synced m' peer := by
  have ha : m'.active = m.active := congrArg Endpoint.active he
  refine ⟨by rw [ha]; exact h.active, fun hm => ?_, fun hm => ?_, fun hm => ?_⟩
  · exact (congrArg Endpoint.peerAddr he).trans (h.addr (ha ▸ hm))
  · exact (congrArg Endpoint.peerPort he).trans (h.port (ha ▸ hm))
  · exact (congrArg Endpoint.peerId he).trans (h.id (ha ▸ hm))

variable {σ σ' : Shared} {m m' : MachineSlot}

theorem Current.of_endpoint (h : Current s writes σ m) (he : endpoint m' = endpoint m) :
    Current s writes σ m' := fun hret hbit => (h hret hbit).of_endpoint he

/-- A write leaves the slot current: a stored peer is not returned yet, and a request
is pending. -/
theorem Current.apply (h : Current s writes σ m) (w : HttpStep) :
    Current s (writes ++ [w]) (w.apply σ) m := by
  intro hret hbit
  rw [apply_reconfigure, Bool.or_eq_false_iff] at hbit
  rcases returned_concat.mp hret with hr | ⟨hs, hret⟩
  · rw [hr] at hbit
    exact absurd hbit.2 (by decide)
  · rw [apply_peers_unstored hs]
    exact h hret hbit.1

theorem Current.after (h : Current s writes σ m) (later : List HttpStep) :
    Current s (writes ++ later) (σ.after later) m := by
  induction later generalizing writes σ with
  | nil => simpa using h
  | cons w later ih =>
    rw [List.append_cons]
    exact ih (h.apply w)

/-- What is current stays so across what touches neither the peer nor the request. -/
theorem Current.congr (h : Current s writes σ m)
    (hp : σ'.settings.peers s = σ.settings.peers s)
    (hr : σ'.reconfigureRequests s = σ.reconfigureRequests s) : Current s writes σ' m := by
  intro hret hbit
  rw [hp]
  exact h hret (hr ▸ hbit)

variable (p : PstopC)

theorem synced_config {peer : Peer} {sock bound : Int} (hs : 0 ≤ sock) (hb : 0 ≤ bound)
    (m : MachineSlot) : Synced (slotApplyConfig p s peer sock bound m) peer := by
  obtain ⟨hoff, hon⟩ := endpoint_config p s peer hs hb m
  cases hc : peer.configured with
  | false =>
    have ha : (slotApplyConfig p s peer sock bound m).active = false := hoff hc
    exact ⟨by simp [ha, hc], by simp [ha], by simp [ha], by simp [ha]⟩
  | true =>
    have he := hon hc
    have ha : (slotApplyConfig p s peer sock bound m).active = true := congrArg Endpoint.active he
    exact ⟨by simp [ha, hc], fun _ => congrArg Endpoint.peerAddr he,
      fun _ => congrArg Endpoint.peerPort he, fun _ => congrArg Endpoint.peerId he⟩

/-- The writes that land while `begin_tick` runs, after its clear of the requests. -/
def laterWrites (i : Tick) : List HttpStep :=
  i.http .rebond ++ ((List.finRange 4).flatMap fun s => i.http (.peer s)) ++ i.http .role

def samplerWrites (i : Tick) : List HttpStep :=
  i.sched.order.flatMap fun x => i.http (.sampler x.1 x.2)

def tickWrites (i : Tick) : List HttpStep :=
  i.http .reconfigure ++ laterWrites i ++ samplerWrites i

/-- The writes of `begin_tick` up to its read of the peer of slot `s`, and those after. -/
def writesToPeer (i : Tick) (s : Slot) : List HttpStep :=
  ((List.finRange 4).filter (· ≤ s)).flatMap fun t => i.http (.peer t)

def writesPastPeer (i : Tick) (s : Slot) : List HttpStep :=
  (((List.finRange 4).filter (s < ·)).flatMap fun t => i.http (.peer t)) ++ i.http .role

variable (d : Device) (i : Tick)

theorem laterWrites_eq (s : Slot) :
    laterWrites i = i.http .rebond ++ writesToPeer i s ++ writesPastPeer i s := by
  have hsplit : List.finRange 4 =
      (List.finRange 4).filter (· ≤ s) ++ (List.finRange 4).filter (s < ·) := by
    cases s using slot_cases <;> rfl
  rw [laterWrites, writesToPeer, writesPastPeer]
  conv_lhs => rw [hsplit, List.flatMap_append]
  simp

theorem atRole_eq (s : Slot) : d.atRole i = (d.atPeer i s).after (writesPastPeer i s) := by
  have hsplit : List.finRange 4 =
      (List.finRange 4).filter (· ≤ s) ++ (List.finRange 4).filter (s < ·) := by
    cases s using slot_cases <;> rfl
  have hall : (List.finRange 4).filter (· ≤ (3 : Slot)) = List.finRange 4 := rfl
  rw [Device.atRole, Device.atPeer, hall, hsplit, List.flatMap_append, Device.atPeer,
    ← after_append, ← after_append, writesPastPeer, List.append_assoc]

/-- The stored peer that `begin_tick` reads, when no peer is stored meanwhile. -/
theorem peers_stay (h : ∀ w ∈ laterWrites i, storesPeer s w = false) :
    (d.atPeer i s).settings.peers s = (d.atReconfigure i).settings.peers s ∧
      (d.atRole i).settings.peers s = (d.atPeer i s).settings.peers s := by
  rw [laterWrites_eq i s] at h
  constructor
  · calc (d.atPeer i s).settings.peers s
        = ({ d.atRebond i with rebondRequests := fun _ => false } : Shared).settings.peers s :=
          after_peers (fun w hw => h w (List.mem_append_left _ (List.mem_append_right _ hw))) _
      _ = ({ d.atReconfigure i with reconfigureRequests := fun _ => false } :
            Shared).settings.peers s := after_peers (fun w hw => h w (by simp [hw])) _
  · rw [atRole_eq d i s, after_peers fun w hw => h w (by simp [hw])]

/-- The slot as `begin_tick` leaves it, seen from its endpoint. -/
theorem endpoint_begin (s : Slot) : endpoint ((d.beginTick p i).lk.slots s) =
    endpoint (if (d.atReconfigure i).reconfigureRequests s then
      slotApplyConfig p s ((d.atPeer i s).settings.peers s) (i.sock s) (i.bound s) (d.lk.slots s)
    else d.lk.slots s) := endpoint_beginSlot p (d.beginReads i) i.sock i.bound s (d.lk.slots s)

variable {d i}

/-- A request is served with the peer as it is read, later than the clear. -/
theorem synced_of_request (hs : 0 ≤ i.sock s) (hb : 0 ≤ i.bound s)
    (hr : (d.atReconfigure i).reconfigureRequests s = true) :
    Synced ((d.beginTick p i).lk.slots s) ((d.atPeer i s).settings.peers s) := by
  refine (synced_config (s := s) p hs hb (d.lk.slots s)).of_endpoint ?_
  rw [endpoint_begin, if_pos hr]

theorem Current.begin (h : Current s writes d.shared (d.lk.slots s)) (hs : 0 ≤ i.sock s)
    (hb : 0 ≤ i.bound s) :
    Current s (writes ++ i.http .reconfigure ++ laterWrites i) (d.beginTick p i).shared
      ((d.beginTick p i).lk.slots s) := by
  change Current s _ (d.atRole i) _
  rw [laterWrites_eq i s, atRole_eq d i s, ← List.append_assoc]
  refine Current.after ?_ (writesPastPeer i s)
  cases hr : (d.atReconfigure i).reconfigureRequests s with
  | true => exact fun _ _ => synced_of_request p hs hb hr
  | false =>
    -- nothing was requested, so the clears change nothing for this slot
    have hm : endpoint ((d.beginTick p i).lk.slots s) = endpoint (d.lk.slots s) := by
      rw [endpoint_begin, hr, if_neg (by decide)]
    have hclear : Current s (writes ++ i.http .reconfigure)
        { d.atReconfigure i with reconfigureRequests := fun _ => false } (d.lk.slots s) :=
      (h.after (i.http .reconfigure)).congr rfl hr.symm
    have hrebond : Current s (writes ++ i.http .reconfigure ++ i.http .rebond)
        { d.atRebond i with rebondRequests := fun _ => false } (d.lk.slots s) :=
      (hclear.after (i.http .rebond)).congr rfl rfl
    rw [← List.append_assoc]
    exact (hrebond.after (writesToPeer i s)).of_endpoint hm

theorem shared_sampled (d : Device) (i : Tick) :
    (d.sampled p i).shared = (d.beginTick p i).shared.after (samplerWrites i) := by
  have hfold (xs : List (Channel × SamplerStep)) (d : Device) :
      (xs.foldl (Device.samplerAct p i) d).shared =
        d.shared.after (xs.flatMap fun x => i.http (.sampler x.1 x.2)) := by
    induction xs generalizing d with
    | nil => rfl
    | cons x xs ih =>
      rw [List.foldl_cons, ih, List.flatMap_cons, after_append]
      rfl
  exact hfold i.sched.order (d.beginTick p i)

theorem Current.tick (h : Current s writes d.shared (d.lk.slots s)) (hs : 0 ≤ i.sock s)
    (hb : 0 ≤ i.bound s) :
    Current s (writes ++ tickWrites i) (d.tick p i).shared ((d.tick p i).lk.slots s) := by
  have hbegin := (h.begin p hs hb).after (samplerWrites i)
  rw [← shared_sampled, List.append_assoc, List.append_assoc] at hbegin
  rw [tickWrites, List.append_assoc]
  exact hbegin.of_endpoint (endpoint_tick p d i s)

/-- The write is part of an operation on slot `s`. -/
def onSlot (s : Slot) : HttpStep → Bool
  | .setPeer slot _ _ _ _ | .clearPeer slot _ | .requestReconfigure slot =>
    decide (slotOf slot = some s)
  | _ => false

/-- The tick as it would be without the operations on slot `s`. -/
def without (s : Slot) (i : Tick) : Tick :=
  { i with http := fun point => (i.http point).filter fun w => !onSlot s w }

/-- The shared states differ in the peer and the request of slot `s` at most. -/
structure SameOff (s : Slot) (σ σ' : Shared) : Prop where
  peers : ∀ t ≠ s, σ'.settings.peers t = σ.settings.peers t
  reconfigure : ∀ t ≠ s, σ'.reconfigureRequests t = σ.reconfigureRequests t
  rebond : σ'.rebondRequests = σ.rebondRequests

theorem onSlot_frame (h : onSlot s w = true) {t : Slot} (ht : t ≠ s) (σ : Shared) :
    storedPeer t w = none ∧ requestsReconfigure t w = false ∧
      (w.apply σ).rebondRequests = σ.rebondRequests := by
  cases w with
  | setPeer slot ip port id saved =>
    have hs : slotOf slot = some s := of_decide_eq_true h
    simp [storedPeer, requestsReconfigure, HttpStep.apply, hs, ht.symm]
  | clearPeer slot saved =>
    have hs : slotOf slot = some s := of_decide_eq_true h
    simp [storedPeer, requestsReconfigure, HttpStep.apply, hs, ht.symm]
  | requestReconfigure slot =>
    have hs : slotOf slot = some s := of_decide_eq_true h
    simp [storedPeer, requestsReconfigure, HttpStep.apply, Shared.requestReconfigure, hs, ht.symm]
  | setDeviceId id saved => simp [onSlot] at h
  | setOperator op saved => simp [onSlot] at h
  | requestRebond slot => simp [onSlot] at h

/-- A write on another slot does the same to both states. -/
theorem SameOff.apply (h : SameOff s σ σ') (w : HttpStep) :
    SameOff s (w.apply σ) (w.apply σ') where
  peers t ht := by rw [apply_peers, apply_peers, h.peers t ht]
  reconfigure t ht := by rw [apply_reconfigure, apply_reconfigure, h.reconfigure t ht]
  rebond := by
    cases w with
    | requestRebond slot =>
      simp only [HttpStep.apply, Shared.requestRebond]
      cases slotOf slot with
      | none => exact h.rebond
      | some t => simp [h.rebond]
    | requestReconfigure slot =>
      simp only [HttpStep.apply, Shared.requestReconfigure]
      cases slotOf slot <;> exact h.rebond
    | _ => exact h.rebond

/-- A write on slot `s` does nothing outside it. -/
theorem SameOff.skip (h : SameOff s σ σ') (hw : onSlot s w = true) :
    SameOff s (w.apply σ) σ' where
  peers t ht := by rw [apply_peers, (onSlot_frame hw ht σ).1, h.peers t ht, Option.getD_none]
  reconfigure t ht := by
    rw [apply_reconfigure, (onSlot_frame hw ht σ).2.1, h.reconfigure t ht, Bool.or_false]
  rebond := by
    obtain ⟨t, ht⟩ := exists_ne s
    rw [(onSlot_frame hw ht σ).2.2, h.rebond]

theorem SameOff.after (h : SameOff s σ σ') (writes : List HttpStep) :
    SameOff s (σ.after writes) (σ'.after (writes.filter fun w => !onSlot s w)) := by
  induction writes generalizing σ σ' with
  | nil => exact h
  | cons w writes ih =>
    cases hw : onSlot s w with
    | true => simpa [hw] using ih (h.skip hw)
    | false => simpa [hw] using ih (h.apply w)

variable {d' : Device}

theorem SameOff.reconfigured (h : SameOff s d.shared d'.shared) (i : Tick) :
    SameOff s (d.atReconfigure i) (d'.atReconfigure (without s i)) := h.after (i.http .reconfigure)

theorem SameOff.rebonded (h : SameOff s d.shared d'.shared) (i : Tick) :
    SameOff s (d.atRebond i) (d'.atRebond (without s i)) := by
  have hr := h.reconfigured i
  have hclear : SameOff s { d.atReconfigure i with reconfigureRequests := fun _ => false }
      { d'.atReconfigure (without s i) with reconfigureRequests := fun _ => false } :=
    ⟨hr.peers, fun _ _ => rfl, hr.rebond⟩
  exact hclear.after (i.http .rebond)

theorem SameOff.peerRead (h : SameOff s d.shared d'.shared) (i : Tick) (t : Slot) :
    SameOff s (d.atPeer i t) (d'.atPeer (without s i) t) := by
  have hr := h.rebonded i
  have hclear : SameOff s { d.atRebond i with rebondRequests := fun _ => false }
      { d'.atRebond (without s i) with rebondRequests := fun _ => false } :=
    ⟨hr.peers, hr.reconfigure, rfl⟩
  have ha := hclear.after (writesToPeer i t)
  rw [writesToPeer, List.filter_flatMap] at ha
  exact ha

theorem SameOff.tick (h : SameOff s d.shared d'.shared) (i : Tick) :
    SameOff s (d.tick p i).shared (d'.tick p (without s i)).shared := by
  have hrole : SameOff s (d.atRole i) (d'.atRole (without s i)) :=
    (h.peerRead i 3).after (i.http .role)
  have hsampled := hrole.after (samplerWrites i)
  rw [samplerWrites, List.filter_flatMap] at hsampled
  change SameOff s (d.sampled p i).shared (d'.sampled p (without s i)).shared
  rw [shared_sampled, shared_sampled]
  exact hsampled

/-- What `begin_tick` does to a slot depends on that slot's reads. -/
theorem beginSlot_congr {r r' : BeginReads} {t : Slot} (hc : r.reconfigure t = r'.reconfigure t)
    (hb : r.rebond t = r'.rebond t) (hp : r.peer t = r'.peer t) (sock bound : Slot → Int)
    (m : MachineSlot) : beginSlot p r sock bound t m = beginSlot p r' sock bound t m := by
  rw [beginSlot, hc, hb, hp]
  rfl

theorem SameOff.begin (h : SameOff s d.shared d'.shared) (i : Tick) {t : Slot} (ht : t ≠ s) :
    (d.beginTick p i).lk.slots t =
      beginSlot p (d'.beginReads (without s i)) i.sock i.bound t (d.lk.slots t) :=
  beginSlot_congr p ((h.reconfigured i).reconfigure t ht).symm
    (congrFun (h.rebonded i).rebond t).symm ((h.peerRead i t).peers t ht).symm i.sock i.bound _

theorem sameOff_after (b : Boot) (s : Slot) (is : List Tick) :
    SameOff s (after p b is).shared (after p b (is.map (without s))).shared := by
  induction is using List.reverseRecOn with
  | nil => exact ⟨fun _ _ => rfl, fun _ _ => rfl, rfl⟩
  | append_singleton is i ih =>
    rw [List.map_append, List.map_singleton, after_concat, after_concat]
    exact ih.tick p i

def OpensSucceed (b : Boot) (is : List Tick) : Prop :=
  (∀ s, 0 ≤ b.sock s ∧ 0 ≤ b.bound s) ∧ ∀ i ∈ is, ∀ s, 0 ≤ i.sock s ∧ 0 ≤ i.bound s

def runWrites (is : List Tick) : List HttpStep := is.flatMap tickWrites

theorem current_after {b : Boot} {is : List Tick} (h : OpensSucceed b is) (s : Slot) :
    Current s (runWrites is) (after p b is).shared ((after p b is).lk.slots s) := by
  induction is using List.reverseRecOn with
  | nil => exact fun _ _ => synced_config p (h.1 s).1 (h.1 s).2 _
  | append_singleton is i ih =>
    have hi := h.2 i (by simp) s
    have hrun : runWrites (is ++ [i]) = runWrites is ++ tickWrites i := by simp [runWrites]
    rw [after_concat, hrun]
    exact (ih ⟨h.1, fun j hj => h.2 j (by simp [hj])⟩).tick p hi.1 hi.2

/-- In every run, whatever writes fall between the steps of the ticks: once all
operations on a slot have returned when a tick starts, and no peer is stored for the
slot while it runs `begin_tick`, the slot is in sync with its stored peer, then and at
the end of the tick; and to every other slot `begin_tick` does what it would have done
without any operation on this one, which is nothing unless that slot has requests of
its own. -/
theorem no_lost_peer_change (b : Boot) (is : List Tick) (i : Tick)
    (hopen : OpensSucceed b (is ++ [i])) :
    (∀ s, Returned s (runWrites is ++ i.http .reconfigure) →
      (∀ w ∈ laterWrites i, storesPeer s w = false) →
      let stored := ((after p b is).beginTick p i).shared.settings.peers s
      Synced (((after p b is).beginTick p i).lk.slots s) stored ∧
        Synced (((after p b is).tick p i).lk.slots s) stored) ∧
    ∀ s t, t ≠ s →
      let alone := (after p b (is.map (without s))).beginReads (without s i)
      ((after p b is).beginTick p i).lk.slots t =
          beginSlot p alone i.sock i.bound t ((after p b is).lk.slots t) ∧
        (alone.reconfigure t = false → alone.rebond t = false →
          ((after p b is).beginTick p i).lk.slots t = (after p b is).lk.slots t) := by
  constructor
  · intro s hret hlater
    have hi := hopen.2 i (by simp) s
    have hbefore : OpensSucceed b is := ⟨hopen.1, fun j hj => hopen.2 j (by simp [hj])⟩
    have hcur := current_after p hbefore s
    obtain ⟨hread, hend⟩ := peers_stay (after p b is) i hlater
    have hsync : Synced (((after p b is).beginTick p i).lk.slots s)
        (((after p b is).beginTick p i).shared.settings.peers s) := by
      change Synced _ (((after p b is).atRole i).settings.peers s)
      rw [hend]
      cases hr : ((after p b is).atReconfigure i).reconfigureRequests s with
      | true => exact synced_of_request p hi.1 hi.2 hr
      | false =>
        have hm : endpoint (((after p b is).beginTick p i).lk.slots s) =
            endpoint ((after p b is).lk.slots s) := by
          rw [endpoint_begin, hr, if_neg (by decide)]
        rw [hread]
        exact (hcur.after (i.http .reconfigure) hret hr).of_endpoint hm
    exact ⟨hsync, hsync.of_endpoint (endpoint_tick p _ i s)⟩
  · intro s t ht
    have hb := (sameOff_after p b s is).begin p i ht
    refine ⟨hb, fun hc hr => ?_⟩
    rw [hb]
    simp [beginSlot, hc, hr]

/-- A tick that starts after slot 1 was set to a machine at 127.0.0.1:9000. -/
def addedTick : Tick :=
  (quietTick 100 closedReads).writing .reconfigure
    [.setPeer 1 0x7F000001 9000 5 0, .requestReconfigure 1]

theorem no_lost_peer_change_added :
    Synced (((after reference oneMachine []).beginTick reference addedTick).lk.slots 1)
      ⟨0x7F000001, 9000, 5, true⟩ := by
  have hopen : OpensSucceed oneMachine ([] ++ [addedTick]) := by
    unfold OpensSucceed
    decide
  have hret : Returned 1 (runWrites [] ++ addedTick.http .reconfigure) := by
    change Returned 1 ([.setPeer 1 0x7F000001 9000 5 0] ++ [.requestReconfigure 1])
    exact returned_concat.mpr (Or.inl (by decide))
  exact ((no_lost_peer_change reference oneMachine [] addedTick hopen).1 1 hret (by decide)).1

end ZephyrApps.PeerChanges
