import Mathlib.Data.List.Chain
import ZephyrApps.RoundRobin
import ZephyrApps.SettingsStore
import ZephyrApps.SystemRuns
import ZephyrApps.Uplinks

/-!
# The WiFi supervisor

`wifi.c` of a build with WiFi: the passes of its work item, which another thread may ask at
any time to start again from the top of the stored list.
-/
namespace ZephyrApps.WifiStation
open ApiState CStrings RoundRobin SettingsStore SystemRuns Uplinks

/-- `PSTOP_WIFI_MAX` -/
def wifiMax : ℕ := 4

theorem wifiMax_pos : 0 < wifiMax := by decide

/-- `POLL_MS` -/
def pollMs : Int := 3000
/-- `CONNECT_TIMEOUT_MS` -/
def connectTimeoutMs : Int := 20000

inductive Security where
  | none
  | psk
  deriving DecidableEq

/-- `struct wifi_connect_req_params`, as far as it depends on the network. -/
structure ConnectParams where
  ssid : Text
  psk : Text
  security : Security
  deriving DecidableEq

def connectParams (net : WifiNet) : ConnectParams :=
  ⟨cstr net.ssid, cstr net.pass, if 0 < (cstr net.pass).length then .psk else .none⟩

/-- A request to the driver; a connect request is noted with the number of its network and
with what `net_mgmt` returns. -/
inductive Request where
  | disconnect
  | connect (idx : ℕ) (params : ConnectParams) (ret : Int)
  deriving DecidableEq

/-- The statics of `wifi.c`. -/
structure Station where
  activeIdx : Int
  reload : Bool
  trying : Int
  attemptMs : Int
  nextIdx : ℕ
  deriving DecidableEq

def Station.init : Station := ⟨-1, false, -1, 0, 0⟩

/-- What the calls of a pass return: the interfaces, the status of the station, the uptime when
an attempt is found to be over and when one is begun, and the stored networks. `reloaded`: another
thread called `pstop_wifi_reload` after the pass had looked at `reload`. -/
structure Pass where
  links : ℕ → Link
  statusRet : Int
  completed : Bool
  now : Int
  started : Int
  nets : Int → Except Int WifiNet
  connectRet : Int
  reloaded : Bool

/-- `connected` -/
def Pass.connected (p : Pass) : Bool := p.statusRet = 0 ∧ p.completed

/-- `disconnect` -/
def disconnect (s : Station) : Station × List Request :=
  ({ s with activeIdx := -1, trying := -1 }, [.disconnect])

/-- A network of the list that has a name. -/
def stored (nets : Int → Except Int WifiNet) (idx : ℕ) : Option WifiNet :=
  match nets idx with
  | .error _ => none
  | .ok net => if cstr net.ssid = [] then none else some net

/-- The network at which the loop of `try_next` stops. -/
def nextNet (nets : Int → Except Int WifiNet) (nextIdx : ℕ) : Option (ℕ × WifiNet) :=
  (pick wifiMax (fun idx => (stored nets idx).isSome) nextIdx).bind fun idx =>
    (stored nets idx).map fun net => (idx, net)

/-- `try_next` -/
def tryNext (p : Pass) (s : Station) : Station × List Request :=
  match nextNet p.nets s.nextIdx with
  | none => (s, [])
  | some (idx, net) =>
    ({ s with
        nextIdx := behind wifiMax idx
        trying := if p.connectRet = 0 then idx else -1
        attemptMs := p.started },
      [.connect idx (connectParams net) p.connectRet])

def takeReload (s : Station) : Station × List Request :=
  if s.reload then
    let r := disconnect { s with reload := false }
    ({ r.1 with nextIdx := 0 }, r.2)
  else (s, [])

def leave (s : Station) : Station × List Request :=
  if 0 ≤ s.activeIdx ∨ 0 ≤ s.trying then
    let r := disconnect s
    ({ r.1 with nextIdx := 0 }, r.2)
  else (s, [])

def noteJoined (s : Station) : Station :=
  if 0 ≤ s.trying ∧ s.activeIdx ≠ s.trying then { s with activeIdx := s.trying } else s

def noteLost (s : Station) : Station :=
  if 0 ≤ s.activeIdx then { s with activeIdx := -1, trying := -1 } else s

/-- No attempt is in flight, or the one that is has had its time. -/
def Due (p : Pass) (s : Station) : Prop :=
  s.trying < 0 ∨ connectTimeoutMs < p.now - s.attemptMs

instance (p : Pass) (s : Station) : Decidable (Due p s) := by
  unfold Due
  infer_instance

def search (p : Pass) (s : Station) : Station × List Request :=
  if Due p s then
    if 0 ≤ s.trying then
      let r := tryNext p { s with trying := -1 }
      (r.1, .disconnect :: r.2)
    else tryNext p s
  else (s, [])

def look (u : Ifaces) (p : Pass) (s : Station) : Station × List Request :=
  if uplinkEthernetReady u p.links then leave s
  else if p.connected then (noteJoined s, [])
  else search p (noteLost s)

/-- `supervise` -/
def supervise (u : Ifaces) (p : Pass) (s : Station) : Station × List Request :=
  let r := takeReload s
  let r' := look u p r.1
  ({ r'.1 with reload := p.reloaded }, r.2 ++ r'.2)

variable {u : Ifaces} {p : Pass} {s : Station} {nets : Int → Except Int WifiNet} {i idx c : ℕ}
  {net : WifiNet}

theorem stored_eq_some :
    stored nets i = some net ↔ nets i = .ok net ∧ cstr net.ssid ≠ [] := by
  unfold stored
  cases hn : nets i with
  | error e => simp
  | ok n =>
    by_cases hs : cstr n.ssid = []
    · simp only [hs, if_true, Except.ok.injEq, reduceCtorEq, false_iff, not_and, not_not]
      rintro rfl
      exact hs
    · simp only [hs, if_false, Option.some.injEq, Except.ok.injEq]
      constructor
      · rintro rfl
        exact ⟨rfl, hs⟩
      · exact And.left

theorem nextNet_eq_some (h : nextNet nets c = some (idx, net)) :
    pick wifiMax (fun idx => (stored nets idx).isSome) c = some idx ∧ idx < wifiMax ∧
      stored nets idx = some net := by
  obtain ⟨j, hj, hmap⟩ := Option.bind_eq_some_iff.mp h
  obtain ⟨n, hn, he⟩ := Option.map_eq_some_iff.mp hmap
  cases he
  exact ⟨hj, pick_lt wifiMax_pos hj, hn⟩

theorem nextNet_of_pick
    (h : pick wifiMax (fun idx => (stored nets idx).isSome) c = some idx) :
    ∃ net, stored nets idx = some net ∧ nextNet nets c = some (idx, net) := by
  obtain ⟨net, hnet⟩ := Option.isSome_iff_exists.mp (pick_ready h)
  refine ⟨net, hnet, ?_⟩
  rw [nextNet, h]
  simp [hnet]

/-- What `try_next` does: nothing, or one connect request for a stored network. -/
theorem tryNext_cases (p : Pass) (s : Station) :
    (nextNet p.nets s.nextIdx = none ∧ tryNext p s = (s, [])) ∨
      ∃ idx net, nextNet p.nets s.nextIdx = some (idx, net) ∧
        tryNext p s =
          (⟨s.activeIdx, s.reload, if p.connectRet = 0 then idx else -1, p.started,
            behind wifiMax idx⟩, [.connect idx (connectParams net) p.connectRet]) := by
  unfold tryNext
  cases h : nextNet p.nets s.nextIdx with
  | none => exact .inl ⟨rfl, rfl⟩
  | some r => exact .inr ⟨r.1, r.2, rfl, rfl⟩

inductive Event where
  | pass (p : Pass)
  | reload

/-- The supervisor, and every request it made, oldest first. -/
structure Radio where
  station : Station
  log : List Request

def Radio.init : Radio := ⟨.init, []⟩

def step (u : Ifaces) (r : Radio) : Event → Radio
  | .pass p => ⟨(supervise u p r.station).1, r.log ++ (supervise u p r.station).2⟩
  | .reload => ⟨{ r.station with reload := true }, r.log⟩

/-- The network the driver was last asked for, if it accepted and was not told to disconnect
since. -/
def note (asked : Option (ℕ × ConnectParams)) : Request → Option (ℕ × ConnectParams)
  | .disconnect => none
  | .connect idx params ret => if ret = 0 then some (idx, params) else asked

def standing (log : List Request) : Option (ℕ × ConnectParams) := log.foldl note none

def Refused (asked : List Request) : Prop :=
  ∀ q ∈ asked, ∃ idx params ret, q = .connect idx params ret ∧ ret ≠ 0

theorem refused_nil : Refused [] := fun _ h => nomatch h

theorem Refused.append {asked asked' : List Request} (h : Refused asked) (h' : Refused asked') :
    Refused (asked ++ asked') := fun q hq => (List.mem_append.mp hq).elim (h q) (h' q)

theorem foldl_refused {asked : List Request} (h : Refused asked) (a : Option (ℕ × ConnectParams)) :
    asked.foldl note a = a := by
  induction asked with
  | nil => rfl
  | cons q asked ih =>
    obtain ⟨idx, params, ret, rfl, hret⟩ := h q List.mem_cons_self
    rw [List.foldl_cons, note, if_neg hret]
    exact ih fun q hq => h q (List.mem_cons_of_mem _ hq)

variable {past : List Event} {log : List Request}

/-- The network that counts as joined is the one that is tried. -/
structure Coherent (s : Station) : Prop where
  active : s.activeIdx = -1 ∨ s.activeIdx = s.trying
  tried : s.trying = -1 ∨ 0 ≤ s.trying
  next : s.nextIdx < wifiMax

theorem Coherent.idle (ha : s.activeIdx = -1) (ht : s.trying = -1) (hn : s.nextIdx < wifiMax) :
    Coherent s := ⟨.inl ha, .inl ht, hn⟩

theorem Coherent.activeIdx_of_idle (h : Coherent s) (ht : s.trying = -1) : s.activeIdx = -1 :=
  h.active.elim id fun ha => ha.trans ht

theorem takeReload_coherent (h : Coherent s) : Coherent (takeReload s).1 := by
  unfold takeReload
  split
  · exact .idle rfl rfl wifiMax_pos
  · exact h

theorem leave_coherent (h : Coherent s) : Coherent (leave s).1 := by
  unfold leave
  split
  · exact .idle rfl rfl wifiMax_pos
  · exact h

theorem noteJoined_coherent (h : Coherent s) : Coherent (noteJoined s) := by
  unfold noteJoined
  split
  · exact ⟨.inr rfl, h.tried, h.next⟩
  · exact h

theorem noteLost_coherent (h : Coherent s) : Coherent (noteLost s) := by
  unfold noteLost
  split
  · exact .idle rfl rfl h.next
  · exact h

theorem noteLost_activeIdx (h : Coherent s) : (noteLost s).activeIdx = -1 := by
  unfold noteLost
  split
  · rfl
  · have ha := h.active
    have ht := h.tried
    omega

theorem tryNext_coherent (ha : s.activeIdx = -1) (ht : s.trying = -1) (hn : s.nextIdx < wifiMax) :
    Coherent (tryNext p s).1 := by
  obtain ⟨-, he⟩ | ⟨idx, net, hnext, he⟩ := tryNext_cases p s
  · rw [he]
    exact .idle ha ht hn
  · obtain ⟨-, hidx, -⟩ := nextNet_eq_some hnext
    rw [he]
    refine ⟨.inl ha, ?_, behind_lt hidx⟩
    dsimp only
    split
    · exact .inr (Int.natCast_nonneg idx)
    · exact .inl rfl

theorem search_coherent (ha : s.activeIdx = -1) (h : Coherent s) : Coherent (search p s).1 := by
  unfold search
  split
  · split
    · exact tryNext_coherent (s := { s with trying := -1 }) ha rfl h.next
    · rename_i ht
      exact tryNext_coherent ha (h.tried.resolve_right ht) h.next
  · exact h

theorem look_coherent (h : Coherent s) : Coherent (look u p s).1 := by
  unfold look
  split
  · exact leave_coherent h
  · split
    · exact noteJoined_coherent h
    · exact search_coherent (noteLost_activeIdx h) (noteLost_coherent h)

theorem run_coherent (u : Ifaces) (es : List Event) :
    Coherent (run (step u) .init es).station := by
  apply run_induction (I := fun _ (r : Radio) => Coherent r.station)
  · exact .idle rfl rfl wifiMax_pos
  intro past e h
  cases e with
  | pass p =>
    have hlook := look_coherent (u := u) (p := p) (takeReload_coherent h)
    exact ⟨hlook.active, hlook.tried, hlook.next⟩
  | reload => exact ⟨h.active, h.tried, h.next⟩

/-- What an attempt leaves: nothing is tried, whatever was refused, or what was asked for as the
pass read it. -/
inductive Attempt (p : Pass) : Station × List Request → Prop where
  | none {s' : Station} {asked : List Request} (idle : s'.trying = -1) (refused : Refused asked) :
    Attempt p (s', asked)
  | one {s' : Station} {idx : ℕ} {net : WifiNet} (trying : s'.trying = idx) (place : idx < wifiMax)
      (read : stored p.nets idx = some net) :
    Attempt p (s', [.connect idx (connectParams net) 0])

theorem tryNext_attempt (ht : s.trying = -1) : Attempt p (tryNext p s) := by
  obtain ⟨-, he⟩ | ⟨idx, net, hnext, he⟩ := tryNext_cases p s
  · rw [he]
    exact .none ht refused_nil
  · obtain ⟨-, hidx, hread⟩ := nextNet_eq_some hnext
    rw [he]
    by_cases hret : p.connectRet = 0
    · have hone : Attempt p (⟨s.activeIdx, s.reload, (if p.connectRet = 0 then idx else -1),
          p.started, behind wifiMax idx⟩, [.connect idx (connectParams net) 0]) :=
        .one (if_pos hret) hidx hread
      rwa [hret] at hone ⊢
    · refine .none (if_neg hret) fun q hq => ?_
      exact ⟨idx, connectParams net, p.connectRet, List.mem_singleton.mp hq, hret⟩

theorem search_idle (ht : s.trying = -1) : search p s = tryNext p s := by
  have hneg : s.trying < 0 := by omega
  rw [search, if_pos (.inl hneg), if_neg (by omega)]

theorem look_attempt (ha : s.activeIdx = -1) (ht : s.trying = -1) : Attempt p (look u p s) := by
  unfold look
  split
  · rw [leave, if_neg (by omega)]
    exact .none ht refused_nil
  split
  · rw [noteJoined, if_neg (by omega)]
    exact .none ht refused_nil
  · rw [noteLost, if_neg (by omega), search_idle ht]
    exact tryNext_attempt ht

/-- A pass finds that the network that counts as joined is lost. -/
structure Loses (u : Ifaces) (p : Pass) (s : Station) : Prop where
  joined : 0 ≤ s.activeIdx
  reload : s.reload = false
  ethernet : uplinkEthernetReady u p.links = false
  connected : p.connected = false

/-- What a pass makes of the network that is tried, with its requests. -/
inductive Tries (u : Ifaces) (p : Pass) (s s' : Station) : List Request → Prop where
  | waits (same : s'.trying = s.trying) : Tries u p s s' []
  | leaves {asked : List Request} (idle : s'.trying = -1) (refused : Refused asked) :
    Tries u p s s' (.disconnect :: asked)
  | misses {asked : List Request} (was : s.trying = -1 ∨ Loses u p s) (idle : s'.trying = -1)
      (refused : Refused asked) : Tries u p s s' asked
  | asks (asked : List Request) {idx : ℕ} {net : WifiNet} (trying : s'.trying = idx)
      (place : idx < wifiMax) (read : stored p.nets idx = some net) :
    Tries u p s s' (asked ++ [.connect idx (connectParams net) 0])

theorem Attempt.tries {r : Station × List Request} (h : Attempt p r) (s' : Station)
    (hs' : s'.trying = r.1.trying) : Tries u p s s' (.disconnect :: r.2) := by
  cases h with
  | none idle refused => exact .leaves (hs'.trans idle) refused
  | one trying place read => exact .asks [.disconnect] (hs'.trans trying) place read

theorem Attempt.missed {r : Station × List Request} (h : Attempt p r)
    (was : s.trying = -1 ∨ Loses u p s) (s' : Station) (hs' : s'.trying = r.1.trying) :
    Tries u p s s' r.2 := by
  cases h with
  | none idle refused => exact .misses was (hs'.trans idle) refused
  | one trying place read => exact .asks [] (hs'.trans trying) place read

theorem search_tries (h : Coherent s) (s' : Station) (hs' : s'.trying = (search p s).1.trying) :
    Tries u p s s' (search p s).2 := by
  unfold search at hs' ⊢
  split
  · rename_i hdue
    rw [if_pos hdue] at hs'
    split
    · rename_i ht
      rw [if_pos ht] at hs'
      exact (tryNext_attempt (s := { s with trying := -1 }) rfl).tries s' hs'
    · rename_i ht
      rw [if_neg ht] at hs'
      have hidle : s.trying = -1 := h.tried.resolve_right ht
      exact (tryNext_attempt hidle).missed (.inl hidle) s' hs'
  · rename_i hdue
    rw [if_neg hdue] at hs'
    exact .waits hs'

theorem look_tries (h : Coherent s) (hr : s.reload = false) (s' : Station)
    (hs' : s'.trying = (look u p s).1.trying) : Tries u p s s' (look u p s).2 := by
  unfold look at hs' ⊢
  split
  · rename_i heth
    rw [if_pos heth] at hs'
    unfold leave at hs' ⊢
    split
    · rename_i hany
      rw [if_pos hany] at hs'
      exact .leaves hs' refused_nil
    · rename_i hany
      rw [if_neg hany] at hs'
      exact .waits hs'
  rename_i heth
  rw [if_neg heth] at hs'
  split
  · rename_i hconn
    rw [if_pos hconn] at hs'
    refine .waits (hs'.trans ?_)
    unfold noteJoined
    split <;> rfl
  rename_i hconn
  rw [if_neg hconn] at hs'
  by_cases hact : 0 ≤ s.activeIdx
  · have hlost : noteLost s = { s with activeIdx := -1, trying := -1 } := if_pos hact
    have hloses : Loses u p s :=
      ⟨hact, hr, Bool.eq_false_iff.mpr heth, Bool.eq_false_iff.mpr hconn⟩
    rw [hlost, search_idle rfl] at hs' ⊢
    exact (tryNext_attempt rfl).missed (.inr hloses) s' hs'
  · have hsame : noteLost s = s := if_neg hact
    rw [hsame] at hs' ⊢
    exact search_tries h s' hs'

theorem supervise_tries (h : Coherent s) :
    Tries u p s (supervise u p s).1 (supervise u p s).2 := by
  by_cases hr : s.reload = true
  · have htaken : takeReload s =
        (⟨-1, false, -1, s.attemptMs, 0⟩, [.disconnect]) := if_pos hr
    rw [supervise, htaken]
    exact (look_attempt (u := u) (p := p) rfl rfl).tries _ rfl
  · have htaken : takeReload s = (s, []) := if_neg hr
    rw [supervise, htaken]
    exact look_tries h (Bool.eq_false_iff.mpr hr) _ rfl

/-- A pass among `es` asked the driver for network `i`, as that pass read it, the driver accepted,
and it was told nothing since. -/
def Asked (u : Ifaces) (es : List Event) (i : ℕ) : Prop :=
  i < wifiMax ∧ ∃ before p after net asked, es = before ++ .pass p :: after ∧
    p.nets i = .ok net ∧ cstr net.ssid ≠ [] ∧
    (supervise u p (run (step u) .init before).station).2 =
      asked ++ [.connect i (connectParams net) 0] ∧
    (run (step u) .init es).log = (run (step u) .init (before ++ [.pass p])).log

/-- A pass among `es` found that network `i` was lost, and since then the driver has neither been
told to disconnect nor accepted a request. -/
def Forgotten (u : Ifaces) (es : List Event) (i : ℕ) : Prop :=
  ∃ before p after, es = before ++ .pass p :: after ∧
    Loses u p (run (step u) .init before).station ∧
    (run (step u) .init before).station.activeIdx = i ∧
    Refused ((run (step u) .init es).log.drop (run (step u) .init before).log.length)

theorem log_concat (u : Ifaces) (es : List Event) (p : Pass) :
    (run (step u) .init (es ++ [.pass p])).log = (run (step u) .init es).log ++
      (supervise u p (run (step u) .init es).station).2 := by
  rw [run_concat]
  rfl

theorem Asked.later {e : Event} (h : Asked u past i)
    (hlog : (run (step u) .init (past ++ [e])).log = (run (step u) .init past).log) :
    Asked u (past ++ [e]) i := by
  obtain ⟨hi, before, p, after, net, asked, rfl, hread, hname, hasked, hsame⟩ := h
  refine ⟨hi, before, p, after ++ [e], net, asked, ?_, hread, hname, hasked, hlog.trans hsame⟩
  rw [List.append_assoc, List.cons_append]

theorem Asked.standing (h : Asked u past i) :
    ∃ params, standing (run (step u) .init past).log = some (i, params) := by
  obtain ⟨-, before, p, -, net, asked, -, -, -, hasked, hsame⟩ := h
  refine ⟨connectParams net, ?_⟩
  rw [hsame, log_concat, hasked, WifiStation.standing, ← List.append_assoc, List.foldl_append]
  rfl

theorem run_log (u : Ifaces) (r : Radio) (later : List Event) :
    r.log <+: (run (step u) r later).log := by
  apply run_induction (I := fun _ (r' : Radio) => r.log <+: r'.log)
  · exact List.prefix_rfl
  intro past e ih
  cases e with
  | pass p => exact ih.trans (List.prefix_append _ _)
  | reload => exact ih

theorem Forgotten.later {e : Event} {asked : List Request} (h : Forgotten u past i)
    (hlog : (run (step u) .init (past ++ [e])).log = (run (step u) .init past).log ++ asked)
    (hasked : Refused asked) : Forgotten u (past ++ [e]) i := by
  obtain ⟨before, p, after, rfl, hloses, hact, hrefused⟩ := h
  refine ⟨before, p, after ++ [e], ?_, hloses, hact, ?_⟩
  · rw [List.append_assoc, List.cons_append]
  · have hlen := (run_log u (run (step u) .init before) (.pass p :: after)).length_le
    rw [← run_append] at hlen
    rw [hlog, List.drop_append_of_le_length hlen]
    exact hrefused.append hasked

/-- What is tried was asked for last; with nothing tried, what the driver may still have was
lost. -/
structure Sound (u : Ifaces) (es : List Event) : Prop where
  tried : (run (step u) .init es).station.trying = -1 ∨
    ∃ i : ℕ, (run (step u) .init es).station.trying = i ∧ Asked u es i
  told : (run (step u) .init es).station.trying = -1 →
    ∀ i params, standing (run (step u) .init es).log = some (i, params) → Forgotten u es i

/-- An event that neither asks for anything nor changes what is tried. -/
theorem Sound.later {e : Event} (h : Sound u past)
    (hlog : (run (step u) .init (past ++ [e])).log = (run (step u) .init past).log)
    (htrying : (run (step u) .init (past ++ [e])).station.trying =
      (run (step u) .init past).station.trying) : Sound u (past ++ [e]) where
  tried := by
    rw [htrying]
    exact h.tried.imp id fun ⟨i, hi, ha⟩ => ⟨i, hi, ha.later hlog⟩
  told ht i params hstanding := by
    rw [htrying] at ht
    rw [hlog] at hstanding
    exact (h.told ht i params hstanding).later (by rw [hlog, List.append_nil]) refused_nil

theorem Sound.pass (h : Sound u past) (p : Pass) : Sound u (past ++ [.pass p]) := by
  have hlog := log_concat u past p
  have htrying : (run (step u) .init (past ++ [.pass p])).station.trying =
      (supervise u p (run (step u) .init past).station).1.trying := by
    rw [run_concat]
    rfl
  have htries := supervise_tries (u := u) (p := p) (run_coherent u past)
  generalize hs' : (supervise u p (run (step u) .init past).station).1 = s' at htrying htries
  generalize hasked : (supervise u p (run (step u) .init past).station).2 = asked at hlog htries
  cases htries with
  | waits same =>
    rw [List.append_nil] at hlog
    exact h.later hlog (htrying.trans same)
  | leaves idle refused =>
    refine ⟨.inl (htrying.trans idle), fun _ i params hstanding => ?_⟩
    rw [hlog, standing, List.foldl_append, List.foldl_cons, foldl_refused refused] at hstanding
    cases hstanding
  | misses was idle refused =>
    refine ⟨.inl (htrying.trans idle), fun _ i params hstanding => ?_⟩
    rw [hlog, standing, List.foldl_append, foldl_refused refused] at hstanding
    rcases was with was | hloses
    · exact (h.told was i params hstanding).later hlog refused
    · -- what was joined is what the driver was asked for last
      have hact := (run_coherent u past).active
      have hjoined := hloses.joined
      obtain ht | ⟨j, hj, ha⟩ := h.tried
      · omega
      obtain ⟨params', hstanding'⟩ := ha.standing
      cases hstanding'.symm.trans hstanding
      refine ⟨past, p, [], rfl, hloses, by omega, ?_⟩
      rw [hlog, List.drop_left]
      exact refused
  | @asks front idx net trying place read =>
    obtain ⟨hread, hname⟩ := stored_eq_some.mp read
    refine ⟨.inr ⟨idx, htrying.trans trying, place, past, p, [], net, front, rfl, hread, hname,
      hasked, rfl⟩, fun ht => ?_⟩
    have hneg : (idx : Int) = -1 := (htrying.trans trying).symm.trans ht
    omega

theorem run_sound (u : Ifaces) (es : List Event) : Sound u es := by
  induction es using List.reverseRecOn with
  | nil => exact ⟨.inl rfl, fun _ _ _ h => nomatch h⟩
  | append_singleton past e ih =>
    cases e with
    | pass p => exact ih.pass p
    | reload =>
      have hrun := run_concat (step u) .init past .reload
      exact ih.later (by rw [hrun]; rfl) (by rw [hrun]; rfl)

/-- What stands in `reload` after a part of a pass that began without a request. -/
theorem takeReload_reload (s : Station) : (takeReload s).1.reload = false := by
  unfold takeReload
  split
  · rfl
  · exact Bool.eq_false_iff.mpr ‹_›

theorem search_activeIdx (p : Pass) (s : Station) : (search p s).1.activeIdx = s.activeIdx := by
  have htry : ∀ s : Station, (tryNext p s).1.activeIdx = s.activeIdx := by
    intro s
    obtain ⟨-, he⟩ | ⟨idx, net, -, he⟩ := tryNext_cases p s <;> rw [he]
  unfold search
  split
  · split <;> exact htry _
  · rfl

/-- At the end of a pass a network counts as joined only if that pass found the station
connected, Ethernet without an address, and no reload requested. -/
theorem supervise_activeIdx (h : Coherent s) (ha : (supervise u p s).1.activeIdx ≠ -1) :
    uplinkEthernetReady u p.links = false ∧ p.connected = true ∧ s.reload = false := by
  have hs := takeReload_coherent h
  have hact : (look u p (takeReload s).1).1.activeIdx ≠ -1 := ha
  unfold look at hact
  split at hact
  · -- with Ethernet nothing stays joined
    exfalso
    apply hact
    unfold leave
    split
    · rfl
    · rename_i hidle
      exact hs.activeIdx_of_idle (hs.tried.resolve_right fun h => hidle (.inr h))
  rename_i heth
  split at hact
  · rename_i hconn
    refine ⟨Bool.eq_false_iff.mpr heth, hconn, Bool.eq_false_iff.mpr fun hreload => hact ?_⟩
    rw [takeReload, if_pos hreload]
    rfl
  · rw [search_activeIdx] at hact
    exact absurd (noteLost_activeIdx hs) hact

/-- Behind the last pass there are only reloads. -/
theorem last_pass (u : Ifaces) (es : List Event)
    (h : (run (step u) .init es).station.activeIdx ≠ -1) :
    ∃ before p after, es = before ++ .pass p :: after ∧ (∀ e ∈ after, e = .reload) ∧
      uplinkEthernetReady u p.links = false ∧ p.connected = true := by
  induction es using List.reverseRecOn with
  | nil => exact absurd rfl h
  | append_singleton past e ih =>
    rw [run_concat] at h
    cases e with
    | pass p =>
      obtain ⟨heth, hconn, -⟩ := supervise_activeIdx (run_coherent u past) h
      exact ⟨past, p, [], rfl, List.forall_mem_nil _, heth, hconn⟩
    | reload =>
      obtain ⟨before, p, after, rfl, hall, hrest⟩ := ih h
      refine ⟨before, p, after ++ [.reload], ?_, fun e he => ?_, hrest⟩
      · rw [List.append_assoc, List.cons_append]
      · rcases List.mem_append.mp he with he | he
        · exact hall e he
        · exact List.mem_singleton.mp he

/-- In every run the index that is reported is -1 or that of the network the driver was last
asked for, under the name and password that the pass which asked read for it; and the last pass
found the station connected, and Ethernet without an address. -/
theorem active_network (u : Ifaces) (es : List Event) :
    let r := run (step u) .init es
    r.station.activeIdx = -1 ∨
      (∃ i : ℕ, r.station.activeIdx = i ∧ Asked u es i) ∧
      ∃ before p after, es = before ++ .pass p :: after ∧ (∀ e ∈ after, e = .reload) ∧
        uplinkEthernetReady u p.links = false ∧ p.connected = true := by
  intro r
  by_cases hact : r.station.activeIdx = -1
  · exact .inl hact
  refine .inr ⟨?_, last_pass u es hact⟩
  have ha := (run_coherent u es).active.resolve_left hact
  obtain ht | ⟨i, hi, hasked⟩ := (run_sound u es).tried
  · exact absurd (ha.trans ht) hact
  · exact ⟨i, ha.trans hi, hasked⟩

theorem mem_tryNext {q : Request} (h : q ∈ (tryNext p s).2) :
    ∃ idx net, nextNet p.nets s.nextIdx = some (idx, net) ∧
      q = .connect idx (connectParams net) p.connectRet := by
  obtain ⟨-, he⟩ | ⟨idx, net, hn, he⟩ := tryNext_cases p s <;> rw [he] at h
  · cases h
  · exact ⟨idx, net, hn, List.mem_singleton.mp h⟩

theorem mem_search {params : ConnectParams} {ret : Int}
    (h : .connect idx params ret ∈ (search p s).2) :
    Due p s ∧ ∃ net, nextNet p.nets s.nextIdx = some (idx, net) ∧ params = connectParams net := by
  have hof : ∀ s' : Station, .connect idx params ret ∈ (tryNext p s').2 →
      ∃ net, nextNet p.nets s'.nextIdx = some (idx, net) ∧ params = connectParams net := by
    intro s' hq
    obtain ⟨idx', net, hn, he⟩ := mem_tryNext hq
    cases he
    exact ⟨net, hn, rfl⟩
  unfold search at h
  split at h
  · rename_i hdue
    split at h
    · cases List.mem_cons.mp h with
      | inl h => cases h
      | inr h => exact ⟨hdue, hof { s with trying := -1 } h⟩
    · exact ⟨hdue, hof _ h⟩
  · cases h

theorem takeReload_asks {q : Request} (h : q ∈ (takeReload s).2) : q = .disconnect := by
  unfold takeReload at h
  split at h
  · exact List.mem_singleton.mp h
  · cases h

theorem leave_asks {q : Request} (h : q ∈ (leave s).2) : q = .disconnect := by
  unfold leave at h
  split at h
  · exact List.mem_singleton.mp h
  · cases h

theorem mem_supervise {params : ConnectParams} {ret : Int}
    (h : .connect idx params ret ∈ (supervise u p s).2) :
    uplinkEthernetReady u p.links = false ∧ p.connected = false ∧
      Due p (noteLost (takeReload s).1) ∧
      ∃ net, nextNet p.nets (noteLost (takeReload s).1).nextIdx = some (idx, net) ∧
        params = connectParams net := by
  cases List.mem_append.mp h with
  | inl h => cases takeReload_asks h
  | inr h =>
    unfold look at h
    split at h
    · cases leave_asks h
    · split at h
      · cases h
      · exact ⟨Bool.eq_false_iff.mpr ‹_›, Bool.eq_false_iff.mpr ‹_›, mem_search h⟩

/-- With Ethernet nothing is left that is joined or tried. -/
theorem leave_idle (h : Coherent s) : (leave s).1.activeIdx = -1 ∧ (leave s).1.trying = -1 := by
  unfold leave
  split
  · exact ⟨rfl, rfl⟩
  · rename_i hidle
    have hnone : s.trying = -1 := h.tried.resolve_right fun h => hidle (.inr h)
    exact ⟨h.activeIdx_of_idle hnone, hnone⟩

theorem supervise_ethernet (h : Coherent s) (hready : uplinkEthernetReady u p.links = true) :
    (supervise u p s).1.activeIdx = -1 ∧ (supervise u p s).1.trying = -1 := by
  have hlook : look u p (takeReload s).1 = leave (takeReload s).1 := if_pos hready
  rw [supervise, hlook]
  exact leave_idle (takeReload_coherent h)

theorem ready_iff_kind (kinds : List IfaceKind) (links : ℕ → Link) :
    uplinkEthernetReady (uplinkInit kinds).1 links = true ↔
      (uplinkStatusGet (uplinkInit kinds).1 links).kind = .ethernet := by
  unfold uplinkEthernetReady uplinkStatusGet
  simp only [ne_eq, decide_eq_true_eq]
  split
  · simp [*]
  · split <;> simp_all

/-- A pass that finds the uplink on Ethernet leaves no network joined or tried, and the driver has
been told to leave whatever it was asked for, unless a pass found that it was lost; and a pass that
asks for a network finds the uplink off Ethernet and the station not connected, and asks for one
that it reads with a name. -/
theorem one_path (kinds : List IfaceKind) (es : List Event) (p : Pass) :
    let u := (uplinkInit kinds).1
    let r := run (step u) .init es
    let r' := step u r (.pass p)
    ((uplinkStatusGet u p.links).kind = .ethernet →
      r'.station.activeIdx = -1 ∧ r'.station.trying = -1 ∧
        ∀ i params, standing r'.log = some (i, params) → Forgotten u (es ++ [.pass p]) i) ∧
    ∀ idx params ret, .connect idx params ret ∈ r'.log.drop r.log.length →
      (uplinkStatusGet u p.links).kind ≠ .ethernet ∧ p.connected = false ∧
        ∃ net, stored p.nets idx = some net ∧ params = connectParams net := by
  intro u r r'
  have hrun : run (step u) .init (es ++ [.pass p]) = r' := run_concat _ _ _ _
  constructor
  · intro heth
    obtain ⟨hact, htrying⟩ := supervise_ethernet (run_coherent u es)
      ((ready_iff_kind kinds p.links).mpr heth)
    have htold := (run_sound u (es ++ [.pass p])).told
    rw [hrun] at htold
    exact ⟨hact, htrying, htold htrying⟩
  · intro idx params ret h
    have hnew : r'.log.drop r.log.length = (supervise u p r.station).2 := List.drop_left
    rw [hnew] at h
    obtain ⟨heth, hconn, -, net, hnext, hparams⟩ := mem_supervise h
    obtain ⟨-, -, hnet⟩ := nextNet_eq_some hnext
    refine ⟨fun hkind => ?_, hconn, net, hnet, hparams⟩
    rw [(ready_iff_kind kinds p.links).mpr hkind] at heth
    cases heth

/-- Nothing is joined or tried, and the next attempt goes over the list from the top. -/
def FromTop (s : Station) : Prop := s.activeIdx = -1 ∧ s.trying = -1 ∧ s.nextIdx = 0

/-- A station that is at the top, or will be before the next pass looks at it. -/
def Restarting (s : Station) : Prop := s.reload = true ∨ FromTop s

theorem Restarting.takeReload (h : Restarting s) : FromTop (takeReload s).1 := by
  unfold WifiStation.takeReload
  split
  · exact ⟨rfl, rfl, rfl⟩
  · exact h.resolve_left ‹_›

theorem FromTop.noteLost (h : FromTop s) : noteLost s = s := by
  rw [WifiStation.noteLost, if_neg (by rw [h.1]; decide)]

def AsksNone (asked : List Request) : Prop := ∀ idx params ret, .connect idx params ret ∉ asked

theorem asksNone_append {asked new : List Request} :
    AsksNone (asked ++ new) ↔ AsksNone asked ∧ AsksNone new := by
  unfold AsksNone
  simp only [List.mem_append, not_or, forall_and]

/-- As long as a pass asks for no network, the next one still starts from the top. -/
theorem FromTop.look (h : FromTop s) (hnone : AsksNone (look u p s).2) :
    FromTop (look u p s).1 := by
  have hlost := h.noteLost
  obtain ⟨ha, ht, hn⟩ := h
  unfold WifiStation.look at hnone ⊢
  split
  · rw [leave, if_neg (by omega)]
    exact ⟨ha, ht, hn⟩
  rename_i heth
  rw [if_neg heth] at hnone
  split
  · rw [noteJoined, if_neg (by omega)]
    exact ⟨ha, ht, hn⟩
  · rename_i hconn
    rw [if_neg hconn, hlost, search_idle ht] at hnone
    rw [hlost, search_idle ht]
    obtain ⟨-, he⟩ | ⟨idx, net, -, he⟩ := tryNext_cases p s
    · rw [he]
      exact ⟨ha, ht, hn⟩
    · rw [he] at hnone
      exact absurd (List.mem_singleton_self _) (hnone _ _ _)

/-- What a station that restarts asks for is the network stored first. -/
theorem Restarting.asks {params : ConnectParams} {ret : Int} (h : Restarting s)
    (hq : .connect idx params ret ∈ (supervise u p s).2) :
    (∃ net, stored p.nets idx = some net ∧ params = connectParams net) ∧
      ∀ j < idx, stored p.nets j = none := by
  obtain ⟨-, -, -, net, hnext, hparams⟩ := mem_supervise hq
  obtain ⟨hpick, -, hnet⟩ := nextNet_eq_some hnext
  refine ⟨⟨net, hnet, hparams⟩, fun j hj => ?_⟩
  rw [h.takeReload.noteLost, h.takeReload.2.2] at hpick
  exact Option.isSome_eq_false_iff.mp (pick_zero_least wifiMax_pos hpick j hj) |> Option.isNone_iff_eq_none.mp

theorem run_restarting (u : Ifaces) {r : Radio} (hr : Restarting r.station) (later : List Event)
    (hnone : AsksNone ((run (step u) r later).log.drop r.log.length)) :
    Restarting (run (step u) r later).station := by
  induction later using List.reverseRecOn with
  | nil => exact hr
  | append_singleton past e ih =>
    rw [run_concat] at hnone ⊢
    cases e with
    | reload => exact .inl rfl
    | pass p =>
      have hlen := (run_log u r past).length_le
      simp only [step, List.drop_append_of_le_length hlen, asksNone_append] at hnone
      have hpast := ih hnone.1
      exact .inr (hpast.takeReload.look (asksNone_append.mp hnone.2).2)

/-- Another thread calls `pstop_wifi_reload`, between two passes or during one. -/
def Event.reloads : Event → Bool
  | .pass p => p.reloaded
  | .reload => true

/-- After a reload, in every run: the next pass first tells the driver to disconnect and leaves no
network joined; and whenever one comes, the first network that is asked for afterwards is
the one stored first. -/
theorem reload_from_top (u : Ifaces) (es later : List Event) (e : Event) (h : e.reloads = true) :
    let r := run (step u) .init (es ++ [e])
    let r' := run (step u) r later
    (∀ p, (supervise u p r.station).2.head? = some .disconnect ∧
      (step u r (.pass p)).station.activeIdx = -1) ∧
    (AsksNone (r'.log.drop r.log.length) →
      ∀ p idx params ret, .connect idx params ret ∈ (supervise u p r'.station).2 →
        (∃ net, stored p.nets idx = some net ∧ params = connectParams net) ∧
          ∀ j < idx, stored p.nets j = none) := by
  intro r r'
  have hreload : r.station.reload = true := by
    have hr : r = step u (run (step u) .init es) e := run_concat _ _ _ _
    rw [hr]
    cases e with
    | pass p => exact h
    | reload => rfl
  refine ⟨fun p => ⟨?_, ?_⟩, fun hnone p idx params ret h => ?_⟩
  · rw [supervise, takeReload, if_pos hreload]
    rfl
  · by_contra hact
    obtain ⟨-, -, hno⟩ := supervise_activeIdx (run_coherent u (es ++ [e])) hact
    rw [hreload] at hno
    cases hno
  · exact (run_restarting u (.inl hreload) later hnone).asks h

/-- A pass off Ethernet that finds the station as `completed` says, with one network stored in the
second place if `listed`. -/
def joining (completed listed : Bool) : Pass where
  links _ := ⟨false, none⟩
  statusRet := 0
  completed
  now := 0
  started := 0
  nets idx := if listed ∧ idx = 1 then .ok ⟨76 :: List.replicate 32 0, List.replicate 65 0, rfl, rfl⟩
    else .ok .zero
  connectRet := 0
  reloaded := false

/-- The network in the second place is joined; after the reload a pass finds nothing stored. -/
theorem reload_from_top_joined :
    let es : List Event := [.pass (joining false true), .pass (joining true true)]
    let r := run (step .init) .init (es ++ [.reload])
    let r' := run (step .init) r [.pass (joining false false)]
    (run (step .init) .init es).station.activeIdx = 1 ∧
      (∀ p, (supervise .init p r.station).2.head? = some .disconnect) ∧
      ∀ p idx params ret, .connect idx params ret ∈ (supervise .init p r'.station).2 →
        (∃ net, stored p.nets idx = some net ∧ params = connectParams net) ∧
          ∀ j < idx, stored p.nets j = none := by
  intro es r r'
  obtain ⟨hnext, hfirst⟩ := reload_from_top .init es [.pass (joining false false)] .reload rfl
  refine ⟨by decide, fun p => (hnext p).1, hfirst fun idx params ret h => ?_⟩
  have hlog : r'.log.drop r.log.length = [.disconnect] := by decide
  rw [hlog] at h
  cases List.mem_singleton.mp h

/-- A pass that finds no uplink, with network `i` stored, and no reload during it. -/
structure Down (u : Ifaces) (i : ℕ) (p : Pass) : Prop where
  ethernet : uplinkEthernetReady u p.links = false
  connected : p.connected = false
  reloaded : p.reloaded = false
  stored : ∃ net, stored p.nets i = some net
  started : p.now ≤ p.started

/-- Passes that follow one another by their own timer. -/
def Spaced (ps : List Pass) : Prop := ps.IsChain fun p q => p.started + pollMs ≤ q.now

def asked (u : Ifaces) : Station → List Pass → List Request
  | _, [] => []
  | s, p :: ps => (supervise u p s).2 ++ asked u (supervise u p s).1 ps

theorem run_passes (u : Ifaces) (r : Radio) (ps : List Pass) :
    (run (step u) r (ps.map .pass)).log = r.log ++ asked u r.station ps := by
  induction ps generalizing r with
  | nil => exact (List.append_nil _).symm
  | cons p ps ih =>
    have hp := ih (step u r (.pass p))
    rw [asked, ← List.append_assoc]
    exact hp

theorem Down.supervise (hd : Down u i p) (hr : s.reload = false) :
    supervise u p s = ({ (search p (noteLost s)).1 with reload := false }, (search p (noteLost s)).2) := by
  have hreload : takeReload s = (s, []) := by rw [takeReload, hr]; rfl
  have hlook : look u p s = search p (noteLost s) := by
    rw [look, hd.ethernet, hd.connected]
    rfl
  rw [WifiStation.supervise, hreload, hlook, hd.reloaded]
  rfl

theorem noteLost_nextIdx (s : Station) : (noteLost s).nextIdx = s.nextIdx := by
  unfold noteLost
  split <;> rfl

/-- An attempt that is waited for is that of a station that has lost nothing. -/
theorem noteLost_of_not_due (h : ¬Due p (noteLost s)) : noteLost s = s ∧ ¬Due p s := by
  have hlost : noteLost s = s := by
    unfold noteLost at h ⊢
    split
    · rw [if_pos ‹_›] at h
      exact absurd (.inl (show (-1 : Int) < 0 by decide)) h
    · rfl
  rw [hlost] at h
  exact ⟨hlost, h⟩

theorem Spaced.next {q : Pass} {ps : List Pass} (h : Spaced (p :: ps)) (hq : q ∈ ps.head?) :
    p.started + pollMs ≤ q.now := by
  cases ps with
  | nil => cases hq
  | cons q' ps =>
    cases hq
    exact (List.isChain_cons_cons.mp h).1

/-- A pass that finds no attempt worth waiting for begins the next one in turn. -/
theorem search_due (hd : Down u i p) (hi : i < wifiMax) (hn : s.nextIdx < wifiMax)
    (hdue : Due p s) :
    ∃ j params ret, j < wifiMax ∧ gap wifiMax s.nextIdx j ≤ gap wifiMax s.nextIdx i ∧
      .connect j params ret ∈ (search p s).2 ∧ (search p s).1.nextIdx = behind wifiMax j ∧
        (search p s).1.attemptMs = p.started := by
  obtain ⟨net, hnet⟩ := hd.stored
  obtain ⟨j, hpick, hj, hle⟩ :=
    pick_gap_le (fun idx => (stored p.nets idx).isSome) hn hi (by simp only [hnet, Option.isSome_some])
  obtain ⟨net', -, hnext⟩ := nextNet_of_pick hpick
  have htry : ∀ s' : Station, s'.nextIdx = s.nextIdx →
      .connect j (connectParams net') p.connectRet ∈ (tryNext p s').2 ∧
        (tryNext p s').1.nextIdx = behind wifiMax j ∧ (tryNext p s').1.attemptMs = p.started := by
    intro s' hs'
    rw [tryNext, hs', hnext]
    exact ⟨List.mem_singleton_self _, rfl, rfl⟩
  refine ⟨j, connectParams net', p.connectRet, hj, hle, ?_⟩
  rw [search, if_pos hdue]
  split
  · obtain ⟨hmem, hrest⟩ := htry { s with trying := -1 } rfl
    exact ⟨List.mem_cons_of_mem _ hmem, hrest⟩
  · exact htry s rfl

/-- From a station whose attempt has `k` passes left at most, network `i` is asked for within `k`
passes and another seven for each place that the cursor is away from it. -/
theorem tried_within (hi : i < wifiMax) (ps : List Pass) {k : ℕ} (hr : s.reload = false)
    (hn : s.nextIdx < wifiMax) (hd : ∀ p ∈ ps, Down u i p) (hs : Spaced ps)
    (hk : ∀ p ∈ ps.head?, s.trying < 0 ∨ connectTimeoutMs < p.now - s.attemptMs + pollMs * (k - 1))
    (hpos : 0 < k) (hlen : k + 7 * gap wifiMax s.nextIdx i ≤ ps.length) :
    ∃ params ret, .connect i params ret ∈ asked u s ps := by
  induction ps generalizing s k with
  | nil =>
    rw [List.length_nil] at hlen
    omega
  | cons p ps ih =>
    have hp := hd p List.mem_cons_self
    have hnow := hp.started
    have hps : ∀ q ∈ ps, Down u i q := fun q hq => hd q (List.mem_cons_of_mem _ hq)
    have hfirst := hk p rfl
    rw [asked, hp.supervise hr]
    rw [List.length_cons] at hlen
    by_cases hdue : Due p (noteLost s)
    · obtain ⟨j, params, ret, hj, hle, hmem, hnext, hstart⟩ :=
        search_due hp hi ((noteLost_nextIdx s).symm ▸ hn) hdue
      rw [noteLost_nextIdx] at hle
      by_cases hji : j = i
      · exact ⟨params, ret, List.mem_append_left _ (hji ▸ hmem)⟩
      -- the cursor comes closer by a place at least, and the new attempt lasts seven passes
      have hcloser := gap_behind hn hi hj hji hle
      obtain ⟨params', ret', hlater⟩ := ih
        (s := { (search p (noteLost s)).1 with reload := false }) (k := 7) rfl
        (hnext.symm ▸ behind_lt hj) hps hs.of_cons
        (fun q hq => by
          have hgap := hs.next hq
          simp only [hstart, connectTimeoutMs, pollMs] at hgap ⊢
          omega)
        (by omega) (by simp only [hnext]; omega)
      exact ⟨params', ret', List.mem_append_right _ hlater⟩
    · obtain ⟨hlost, hnot⟩ := noteLost_of_not_due hdue
      have hsearch : search p (noteLost s) = (s, []) := by rw [hlost, search, if_neg hnot]
      have hwait : 1 < k := by
        by_contra hk1
        have hone : k = 1 := by omega
        subst hone
        apply hnot
        cases hfirst with
        | inl h => exact .inl h
        | inr h => exact .inr (by simpa using h)
      have hsame : { s with reload := false } = s := by rw [← hr]
      rw [hsearch, List.nil_append]
      simp only [hsame]
      refine ih (k := k - 1) hr hn hps hs.of_cons ?_ (by omega) (by omega)
      intro q hq
      have hgap := hs.next hq
      cases hfirst with
      | inl h => exact .inl h
      | inr h =>
        right
        simp only [pollMs] at h hgap ⊢
        push_cast [Nat.cast_sub hwait.le]
        omega

theorem takeReload_attemptMs (s : Station) : (takeReload s).1.attemptMs = s.attemptMs := by
  unfold takeReload
  split <;> rfl

/-- A reload only puts a request in front. -/
theorem supervise_taken (u : Ifaces) (p : Pass) (s : Station) :
    supervise u p s = ((supervise u p (takeReload s).1).1,
      (takeReload s).2 ++ (supervise u p (takeReload s).1).2) := by
  have hagain : takeReload (takeReload s).1 = ((takeReload s).1, []) := by
    rw [takeReload, if_neg (Bool.eq_false_iff.mp (takeReload_reload s))]
  rw [supervise, supervise, hagain]
  rfl

/-- Every stored network gets its turn: whatever happened before, among 29 passes that find no
uplink while a network stays stored, with no reload among them, one asks for that network. -/
theorem every_network_tried (u : Ifaces) (es : List Event) (ps : List Pass) (i : ℕ)
    (hi : i < wifiMax) (hd : ∀ p ∈ ps, Down u i p) (hs : Spaced ps)
    (hnow : ∀ p ∈ ps.head?, (run (step u) .init es).station.attemptMs ≤ p.now)
    (hlen : 29 ≤ ps.length) :
    let r := run (step u) .init es
    ∃ params ret,
      .connect i params ret ∈ (run (step u) r (ps.map .pass)).log.drop r.log.length := by
  intro r
  rw [run_passes, List.drop_left]
  cases ps with
  | nil => cases hlen
  | cons p ps =>
    have hn : (takeReload r.station).1.nextIdx < wifiMax := (takeReload_coherent (run_coherent u es)).next
    have hgap : gap wifiMax (takeReload r.station).1.nextIdx i < 4 := gap_lt hn hi
    have hfirst : r.station.attemptMs ≤ p.now := hnow p rfl
    rw [asked, supervise_taken, List.append_assoc]
    obtain ⟨params, ret, hmem⟩ := tried_within hi (p :: ps) (k := 8)
      (takeReload_reload r.station) hn hd hs
      (fun q hq => by
        cases hq
        simp only [takeReload_attemptMs, connectTimeoutMs, pollMs]
        omega)
      (by omega) (by omega)
    exact ⟨params, ret, List.mem_append_right _ hmem⟩

/-- A pass at `3 n` seconds without any uplink, with one network stored in the third place. -/
def searching (n : ℕ) : Pass where
  links _ := ⟨false, none⟩
  statusRet := 0
  completed := false
  now := pollMs * n
  started := pollMs * n
  nets idx := if idx = 2 then .ok ⟨76 :: List.replicate 32 0, List.replicate 65 0, rfl, rfl⟩
    else .ok .zero
  connectRet := 0
  reloaded := false

theorem searching_down (n : ℕ) : Down .init 2 (searching n) :=
  ⟨rfl, rfl, rfl, ⟨_, rfl⟩, le_refl _⟩

theorem searching_spaced (n : ℕ) : Spaced ((List.range n).map searching) := by
  rw [Spaced, List.isChain_map, List.isChain_iff_getElem]
  intro i hi
  simp only [List.getElem_range, searching, pollMs]
  omega

theorem every_network_tried_third : ∃ params ret, .connect 2 params ret ∈
    (run (step .init) .init (((List.range 29).map searching).map .pass)).log.drop 0 :=
  every_network_tried .init [] ((List.range 29).map searching) 2 (by decide)
    (fun p hp => by
      obtain ⟨n, -, rfl⟩ := List.mem_map.mp hp
      exact searching_down n)
    (searching_spaced 29) (fun p hp => by cases hp; decide) (by decide)

end ZephyrApps.WifiStation
