import ZephyrApps.SettingsFailures

/-!
# The WiFi list, fetched and posted back

The admin page fetches the list with masked passwords and posts it back. What the
handler stored before is a list of names and passwords; `shown` is what a GET tells of
it, and a mask that comes back stands for the password stored first under its name.
-/
namespace ZephyrApps.WifiRoundTrip
open AppSettings CStrings SettingsStore SettingsReboot ApiReplies PeerTableRoute AdminHandlers
  AdminGate SettingsFailures

def networkJson (net : Text × Text) : Text :=
  text "\x7b\"ssid\":\"" ++ net.1 ++ text "\",\"pass\":\"" ++ net.2 ++ text "\"\x7d"

def networksArray (nets : List (Text × Text)) : Text :=
  text "[" ++ (text ",").intercalate (nets.map networkJson) ++ text "]"

def networksBody (array : Text) : Text := text "\x7b\"networks\":" ++ array ++ text "\x7d"

def masked (net : Text × Text) : Text × Text := (net.1, if net.2 = [] then [] else wifiMask)

/-- The name and the password of an entry, if it has a name. -/
def network (net : WifiNet) : Option (Text × Text) :=
  if cstr net.ssid = [] then none else some (cstr net.ssid, cstr net.pass)

def shown (img : Image) : List (Text × Text) :=
  (List.finRange 4).filterMap fun i => (network (img.wifi i)).map masked

/-- `json_obj_parse` takes an array of at most four networks as it stands, if no string
in it has to be escaped. -/
def Verbatim (fw : Firmware) : Prop :=
  ∀ nets : List (Text × Text), nets.length ≤ 4 →
    (∀ net ∈ nets, plainString net.1 = true ∧ plainString net.2 = true) →
    (fw.wifiJson (networksBody (networksArray nets))).fields = 1 ∧
      (fw.wifiJson (networksBody (networksArray nets))).networks =
        nets.map fun net => ⟨some net.1, some net.2⟩

section
variable (fw : Firmware) (auth : Option Text) (d : Remote)

/-- Lists that POSTs made, each answered with 200; anything else may change between them. -/
inductive Posted : (WifiIdx → WifiNet) → Prop where
  | none : Posted fun _ => WifiNet.zero
  | accepted {auth : Option Text} {cap : ℕ} {d : Remote} {body : Text} {saved : WifiIdx → Int}
      (before : Posted d.config.ram.wifi)
      (taken : (pstopApiAdminWifi fw auth cap d true body saved).2.status = 200) :
      Posted (pstopApiAdminWifi fw auth cap d true body saved).1.config.ram.wifi

/-- The answer to a GET; nothing is saved for it. -/
def fetched : Response := (pstopApiAdminWifi fw auth pstopApiBodyMax d false [] fun _ => 0).2

def posted (array : Text) (saved : WifiIdx → Int) : Remote × Response :=
  pstopApiAdminWifi fw auth pstopApiBodyMax d true (networksBody array) saved

/-- The array that a GET returns can be posted back: it is accepted if it can be saved, and
the list is as it was. -/
structure PostedBack : Prop where
  returned : fetched fw auth d = { Response.init with
    status := 200
    body := text "\x7b\"ok\":true,\"networks\":" ++ networksArray (shown d.config.ram) ++
      (text ",\"active_idx\":" ++ int (wifiActive fw d) ++ text "\x7d") }
  accepted : ∀ saved, (∀ i, saved i = 0) →
    (posted fw auth d (networksArray (shown d.config.ram)) saved).2.status = 200
  unchanged : ∀ saved, (posted fw auth d (networksArray (shown d.config.ram)) saved).1.config.ram.wifi =
    d.config.ram.wifi
  stored : ∀ saved, (∀ i, saved i = 0) → ∀ i,
    (posted fw auth d (networksArray (shown d.config.ram)) saved).1.config.flash (Item.wifi i).key =
      some (wifiBytes (d.config.ram.wifi i))

end

/-- Two lists that differ in nothing but the passwords of networks that have one. -/
def SameNetworks (img img' : Image) : Prop :=
  ∀ i, cstr (img.wifi i).ssid = cstr (img'.wifi i).ssid ∧
    (cstr (img.wifi i).pass = [] ↔ cstr (img'.wifi i).pass = [])

/-- The list can be fetched and posted back, and what is fetched tells nothing of the passwords
but where there is one. -/
structure Lossless (fw : Firmware) (auth : Option Text) (d : Remote) : Prop where
  back : PostedBack fw auth d
  secret : ∀ d' : Remote, SameNetworks d.config.ram d'.config.ram →
    d'.wifiActiveIdx = d.wifiActiveIdx → fetched fw auth d' = fetched fw auth d

/-- No entry before this one has its name. -/
def FirstOfName (img : Image) (i : WifiIdx) : Prop :=
  ∀ k < i, cstr (img.wifi k).ssid ≠ cstr (img.wifi i).ssid

/-- A network that has a password has the one of the first network of its name. -/
def PasswordsByName (img : Image) : Prop :=
  ∀ i j, FirstOfName img i → cstr (img.wifi i).ssid = cstr (img.wifi j).ssid →
    cstr (img.wifi j).pass ≠ [] → cstr (img.wifi i).pass = cstr (img.wifi j).pass

structure Storable (net : Text × Text) : Prop where
  named : net.1 ≠ []
  ssidLength : net.1.length ≤ wifiSsidMax
  ssidPlain : plainString net.1 = true
  passLength : net.2.length ≤ wifiPassMax
  passPlain : plainString net.2 = true

def entries (nets : List (Text × Text)) : WifiIdx → WifiNet :=
  fun i => (nets.map fun net => netOf net.1 net.2).getD i WifiNet.zero

/-- The entries hold a list of networks from the first on. -/
def Listed (wifi : WifiIdx → WifiNet) : Prop :=
  ∃ nets : List (Text × Text), nets.length ≤ 4 ∧ (∀ net ∈ nets, Storable net) ∧ wifi = entries nets

theorem plain_nul {s : Text} (h : plainString s = true) : (0 : UInt8) ∉ s := by
  intro h0
  have hc := List.all_eq_true.mp h 0 h0
  exact absurd hc (by decide)

theorem cstr_buffer {n : ℕ} {s : Text} (hn : s.length ≤ n) (hs : plainString s = true) :
    cstr (buffer n s) = s := by
  have hlength : n + 1 - s.length = n - s.length + 1 := by omega
  have hnul : ∀ c ∈ s, decide (c ≠ 0) = true := by
    intro c hc
    refine decide_eq_true ?_
    rintro rfl
    exact plain_nul hs hc
  rw [cstr, buffer, List.take_of_length_le hn, hlength, List.takeWhile_append_of_pos hnul,
    List.replicate_succ, List.takeWhile_cons_of_neg (by simp), List.append_nil]

theorem Storable.strings {net : Text × Text} (h : Storable net) :
    cstr (netOf net.1 net.2).ssid = net.1 ∧ cstr (netOf net.1 net.2).pass = net.2 :=
  ⟨cstr_buffer h.ssidLength h.ssidPlain, cstr_buffer h.passLength h.passPlain⟩

theorem entries_getElem? {nets : List (Text × Text)} (i : WifiIdx) :
    entries nets i = (nets[i.val]?).elim WifiNet.zero fun net => netOf net.1 net.2 := by
  rw [entries, List.getD_eq_getElem?_getD, List.getElem?_map]
  cases nets[i.val]? with
  | none => rfl
  | some net => rfl

theorem network_entries {nets : List (Text × Text)} (hs : ∀ net ∈ nets, Storable net) (i : WifiIdx) :
    network (entries nets i) = nets[i.val]? := by
  rw [entries_getElem?]
  cases h : nets[i.val]? with
  | none => rfl
  | some net =>
    have hnet := hs net (List.mem_of_getElem? h)
    obtain ⟨hssid, hpass⟩ := hnet.strings
    rw [Option.elim_some, network, hssid, hpass, if_neg hnet.named]

theorem filterMap_finRange {α : Type*} {l : List α} {n : ℕ} (h : l.length ≤ n) :
    ((List.finRange n).filterMap fun i => l[i.val]?) = l := by
  induction l generalizing n with
  | nil => simp
  | cons a l ih =>
    cases n with
    | zero => simp at h
    | succ n =>
      have hl := ih (n := n) (by simpa using h)
      rw [List.finRange_succ, List.filterMap_cons, List.filterMap_map]
      exact congrArg (a :: ·) hl

/-- A GET shows every network of the list, in its order. -/
theorem shown_entries {img : Image} {nets : List (Text × Text)} (hl : nets.length ≤ 4)
    (hs : ∀ net ∈ nets, Storable net) (h : img.wifi = entries nets) :
    shown img = nets.map masked := by
  simp only [shown, h, network_entries hs]
  rw [← List.map_filterMap, filterMap_finRange hl]

theorem FirstOfName.eq {img : Image} {i j : WifiIdx} (hi : FirstOfName img i)
    (hj : FirstOfName img j) (h : cstr (img.wifi i).ssid = cstr (img.wifi j).ssid) : i = j := by
  rcases Nat.lt_trichotomy i.val j.val with hlt | he | hlt
  · exact absurd h (hj i hlt)
  · exact Fin.ext he
  · exact absurd h.symm (hi j hlt)

theorem storedPass_first (img : Image) (j : WifiIdx) : ∃ i, FirstOfName img i ∧
    cstr (img.wifi i).ssid = cstr (img.wifi j).ssid ∧
      storedPass img (cstr (img.wifi j).ssid) = cstr (img.wifi i).pass := by
  rw [storedPass]
  cases hfind : (List.finRange 4).find? fun i =>
      decide (cstr (img.wifi i).ssid = cstr (img.wifi j).ssid) with
  | none =>
    have hj := List.find?_eq_none.mp hfind j (List.mem_finRange j)
    exact absurd (decide_eq_true rfl) hj
  | some i =>
    obtain ⟨hi, n, hn, hget, hbefore⟩ := List.find?_eq_some_iff_getElem.mp hfind
    have hname : cstr (img.wifi i).ssid = cstr (img.wifi j).ssid := of_decide_eq_true hi
    refine ⟨i, fun k hk hsame => ?_, hname, rfl⟩
    have hin : n = i.val := by
      rw [← hget, List.getElem_finRange]
      rfl
    have hkn : k.val < n := hin ▸ hk
    have hno := hbefore k hkn
    rw [List.getElem_finRange] at hno
    simp [hsame, hname] at hno

/-- The first passwords are all that a posted mask needs. -/
theorem passwordsByName_iff {img : Image} : PasswordsByName img ↔
    ∀ j, cstr (img.wifi j).pass ≠ [] →
      storedPass img (cstr (img.wifi j).ssid) = cstr (img.wifi j).pass := by
  constructor
  · intro h j hj
    obtain ⟨i, hfirst, hname, hpass⟩ := storedPass_first img j
    rw [hpass]
    exact h i j hfirst hname hj
  · intro h i j hfirst hname hj
    obtain ⟨i', hfirst', hname', hpass⟩ := storedPass_first img j
    obtain rfl := hfirst.eq hfirst' (hname.trans hname'.symm)
    rw [← hpass]
    exact h j hj

section
variable {α β γ ε : Type*} {f : α → Except ε β} {l : List α}

theorem mapM_ok {P : γ → Prop} {g : γ → β} {bs : List β}
    (hf : ∀ a b, f a = .ok b → ∃ c, P c ∧ b = g c) (h : l.mapM f = .ok bs) :
    ∃ cs : List γ, cs.length = l.length ∧ (∀ c ∈ cs, P c) ∧ bs = cs.map g := by
  induction l generalizing bs with
  | nil =>
    cases h
    exact ⟨[], rfl, by simp, rfl⟩
  | cons a l ih =>
    rw [List.mapM_cons] at h
    cases ha : f a with
    | error e =>
      rw [ha] at h
      cases h
    | ok b =>
      rw [ha] at h
      cases hl : l.mapM f with
      | error e =>
        rw [hl] at h
        cases h
      | ok bs' =>
        rw [hl] at h
        cases h
        obtain ⟨c, hc, rfl⟩ := hf a b ha
        obtain ⟨cs, hlength, hcs, rfl⟩ := ih hl
        refine ⟨c :: cs, congrArg (· + 1) hlength, ?_, rfl⟩
        intro c' hc'
        rcases List.mem_cons.mp hc' with rfl | hc'
        · exact hc
        · exact hcs c' hc'

theorem mapM_of_ok {g : α → β} (hf : ∀ a ∈ l, f a = .ok (g a)) : l.mapM f = .ok (l.map g) := by
  induction l with
  | nil => rfl
  | cons a l ih =>
    rw [List.mapM_cons, hf a (by simp), ih fun b hb => hf b (by simp [hb])]
    rfl

end

/-- What is stored for a name came from the list. -/
theorem storedPass_storable {img : Image} (h : Listed img.wifi) (ssid : Text) :
    (storedPass img ssid).length ≤ wifiPassMax ∧ plainString (storedPass img ssid) = true := by
  rw [storedPass]
  cases (List.finRange 4).find? fun j => decide (cstr (img.wifi j).ssid = ssid) with
  | none => exact ⟨Nat.zero_le _, rfl⟩
  | some j =>
    obtain ⟨nets, -, hs, hwifi⟩ := h
    dsimp only
    rw [hwifi, entries_getElem?]
    cases hj : nets[j.val]? with
    | none => decide
    | some net =>
      have hnet := hs net (List.mem_of_getElem? hj)
      rw [Option.elim_some, hnet.strings.2]
      exact ⟨hnet.passLength, hnet.passPlain⟩

/-- Every entry that is accepted can be stored. -/
theorem wifiEntry_ok {img : Image} {json : WifiNetJson} {entry : WifiNet} (h : Listed img.wifi)
    (hok : wifiEntry img json = .ok entry) :
    ∃ net : Text × Text, Storable net ∧ entry = netOf net.1 net.2 := by
  rw [wifiEntry] at hok
  cases hssid : json.ssid with
  | none =>
    rw [hssid] at hok
    cases hok
  | some ssid =>
    rw [hssid] at hok
    dsimp only at hok
    split at hok
    case isTrue => cases hok
    case isFalse hname =>
      obtain ⟨hne, hlen, hplain⟩ : ssid ≠ [] ∧ ssid.length ≤ wifiSsidMax ∧ plainString ssid = true := by
        simpa [not_or] using hname
      split at hok
      case isTrue =>
        cases hok
        obtain ⟨hlength, hpass⟩ := storedPass_storable h ssid
        exact ⟨(ssid, storedPass img ssid), ⟨hne, hlen, hplain, hlength, hpass⟩, rfl⟩
      case isFalse =>
        split at hok
        case isTrue => cases hok
        case isFalse hpass =>
          cases hok
          refine ⟨(ssid, json.pass.getD []), ⟨hne, hlen, hplain, ?_, ?_⟩, rfl⟩
          · by_cases hempty : json.pass.getD [] = []
            · simp [hempty]
            · simp only [hempty, ne_eq, not_false_eq_true, true_and, not_or] at hpass
              exact Nat.not_lt.mp hpass.2.1
          · by_cases hempty : json.pass.getD [] = []
            · rw [hempty]
              rfl
            · simp only [hempty, ne_eq, not_false_eq_true, true_and, not_or] at hpass
              simpa using hpass.2.2

theorem wifiFromJson_listed {img : Image} {json : WifiJson} {nets : WifiIdx → WifiNet}
    (h : Listed img.wifi) (hok : wifiFromJson img json = .ok nets) : Listed nets := by
  rw [wifiFromJson] at hok
  cases hl : json.networks.mapM (wifiEntry img) with
  | error err =>
    rw [hl] at hok
    cases hok
  | ok es =>
    rw [hl] at hok
    cases hok
    obtain ⟨stored, hlength, hs, rfl⟩ := mapM_ok (fun _ _ he => wifiEntry_ok h he) hl
    exact ⟨stored, hlength.trans_le json.bounded, hs, rfl⟩

theorem wifiSetAll_ret {c : Config} {nets : WifiIdx → WifiNet} {saved : WifiIdx → Int} :
    (c.wifiSetAll nets saved).2 = 0 ↔ ∀ i, saved i = 0 := by
  have hret := (wifiLoop_eq nets saved (List.finRange 4) c).2
  rw [← not_iff_not, Config.wifiSetAll]
  exact hret.trans (by simp)

/-- If every save succeeds, the list is in RAM and in flash. -/
theorem wifiSetAll_kept {c : Config} {nets : WifiIdx → WifiNet} {saved : WifiIdx → Int}
    (h : ∀ i, saved i = 0) (i : WifiIdx) : Kept (c.wifiSetAll nets saved).1 nets i := by
  have hall : ((List.finRange 4).takeWhile fun i => decide (saved i = 0)) = List.finRange 4 :=
    List.takeWhile_eq_self_iff.mpr fun i _ => decide_eq_true (h i)
  rw [Config.wifiSetAll, (wifiLoop_eq nets saved (List.finRange 4) c).1, hall]
  exact (foldl_storeNet nets (List.finRange 4) c).1 i (List.mem_finRange i)

/-- Saving the list that is there changes nothing in RAM. -/
theorem wifiSetAll_same {c : Config} {saved : WifiIdx → Int} :
    (c.wifiSetAll c.ram.wifi saved).1.ram.wifi = c.ram.wifi := by
  rw [Config.wifiSetAll, (wifiLoop_eq c.ram.wifi saved (List.finRange 4) c).1]
  induction (List.finRange 4).takeWhile (fun i => decide (saved i = 0))
      using List.reverseRecOn with
  | nil => rfl
  | append_singleton done i ih =>
    rw [List.foldl_append, List.foldl_cons, List.foldl_nil, storeNet, ih]
    exact Function.update_eq_self i c.ram.wifi

variable {fw : Firmware} {auth : Option Text} {d : Remote}

theorem adminWifi_post {cap : ℕ} {body : Text} (saved : WifiIdx → Int) {nets : WifiIdx → WifiNet}
    (hauth : adminOk fw auth cap = none) (hf : (fw.wifiJson body).fields = 1)
    (hnets : wifiFromJson d.config.ram (fw.wifiJson body) = .ok nets) :
    pstopApiAdminWifi fw auth cap d true body saved =
      (let r := d.config.wifiSetAll nets saved
      if r.2 ≠ 0 then
        ({ d with config := r.1 }, reply cap 500 (errorBody "settings write failed"))
      else (wifiReloaded fw { d with config := r.1 },
        wifiList fw cap (wifiReloaded fw { d with config := r.1 }))) := by
  simp only [pstopApiAdminWifi, hauth, if_true, hf, ne_eq, not_true, if_false, hnets]

theorem reply_refuses {cap : ℕ} {status : Int} {s : Text} (h : status ≠ 200) :
    (reply cap status s).status ≠ 200 := by
  rcases reply_status cap status s with he | he
  · rwa [he]
  · rw [he]
    decide

theorem adminOk_refuses {cap : ℕ} {denied : Response} (h : adminOk fw auth cap = some denied) :
    denied.status ≠ 200 := by
  rw [adminOk] at h
  split at h
  case isTrue =>
    cases h
    exact reply_refuses (by decide)
  case isFalse =>
    split at h
    case isTrue => cases h
    case isFalse =>
      cases h
      exact reply_refuses (by decide)

theorem accepted_listed {cap : ℕ} {body : Text} {saved : WifiIdx → Int}
    (h : Listed d.config.ram.wifi)
    (hok : (pstopApiAdminWifi fw auth cap d true body saved).2.status = 200) :
    Listed (pstopApiAdminWifi fw auth cap d true body saved).1.config.ram.wifi := by
  cases hauth : adminOk fw auth cap with
  | some denied =>
    simp only [pstopApiAdminWifi, hauth] at hok
    exact absurd hok (adminOk_refuses hauth)
  | none =>
    by_cases hf : (fw.wifiJson body).fields = 1
    · cases hnets : wifiFromJson d.config.ram (fw.wifiJson body) with
      | error err =>
        simp only [pstopApiAdminWifi, hauth, if_true, hf, ne_eq, not_true, if_false, hnets] at hok
        exact absurd hok (reply_refuses (by decide))
      | ok nets =>
        rw [adminWifi_post saved hauth hf hnets] at hok ⊢
        by_cases hret : (d.config.wifiSetAll nets saved).2 = 0
        · have hram : (d.config.wifiSetAll nets saved).1.ram.wifi = nets :=
            funext fun i => (wifiSetAll_kept (wifiSetAll_ret.mp hret) i).1
          have hlisted := wifiFromJson_listed h hnets
          simp only [hret, ne_eq, not_true, if_false, wifiReloaded, hram]
          exact hlisted
        · simp only [ne_eq, hret, not_false_eq_true, if_true] at hok
          exact absurd hok (reply_refuses (by decide))
    · simp only [pstopApiAdminWifi, hauth, if_true, ne_eq, hf, not_false_eq_true] at hok
      exact absurd hok (reply_refuses (by decide))

theorem Posted.listed {wifi : WifiIdx → WifiNet} (h : Posted fw wifi) : Listed wifi := by
  induction h with
  | none => exact ⟨[], Nat.zero_le _, by simp, rfl⟩
  | accepted _ taken ih => exact accepted_listed ih taken

def wifiItem (img : Image) (of : Out × Bool) (i : WifiIdx) : Out × Bool :=
  let net := img.wifi i
  if cstr net.ssid = [] then of
  else
    (of.1.printf ((if of.2 then [] else text ",") ++ text "\x7b\"ssid\":\"" ++ cstr net.ssid ++
      text "\",\"pass\":\"" ++ (if cstr net.pass = [] then [] else wifiMask) ++
      text "\"\x7d"), false)

theorem printf_complete {o : Out} {s : Text} (h : (o.printf s).overflow = false) :
    o.overflow = false ∧ (o.printf s).body = o.body ++ s := by
  rw [Out.printf] at h ⊢
  by_cases ho : o.overflow = true
  · rw [if_pos ho, ho] at h
    cases h
  · rw [if_neg ho] at h ⊢
    by_cases hs : o.cap - o.body.length ≤ s.length
    · rw [if_pos hs] at h
      cases h
    · rw [if_neg hs]
      exact ⟨Bool.eq_false_iff.mpr ho, rfl⟩

theorem intercalate_concat {sep s : Text} {l : List Text} (h : l ≠ []) :
    sep.intercalate (l ++ [s]) = sep.intercalate l ++ (sep ++ s) := by
  induction l with
  | nil => exact absurd rfl h
  | cons a l ih =>
    cases l with
    | nil => simp [List.intercalate]
    | cons b l =>
      have hrest := ih (List.cons_ne_nil b l)
      rw [List.cons_append, List.cons_append, List.intercalate_cons_cons, ← List.cons_append, hrest,
        List.intercalate_cons_cons]
      simp only [List.append_assoc]

/-- The loop prints the networks with commas between them. -/
theorem foldl_wifiItem {img : Image} {o : Out} (is : List WifiIdx)
    (h : (is.foldl (wifiItem img) (o, true)).1.overflow = false) :
    let nets := is.filterMap fun i => (network (img.wifi i)).map masked
    (is.foldl (wifiItem img) (o, true)).1.body =
        o.body ++ (text ",").intercalate (nets.map networkJson) ∧
      (is.foldl (wifiItem img) (o, true)).2 = decide (nets = []) := by
  induction is using List.reverseRecOn with
  | nil => simp
  | append_singleton is i ih =>
    rw [List.foldl_append, List.foldl_cons, List.foldl_nil, wifiItem] at h ⊢
    rw [List.filterMap_append, List.filterMap_cons, List.filterMap_nil]
    dsimp only at h ⊢
    generalize hn : (is.filterMap fun i => (network (img.wifi i)).map masked) = nets at ih ⊢
    by_cases hname : cstr (img.wifi i).ssid = []
    · have hnet : network (img.wifi i) = none := if_pos hname
      rw [if_pos hname] at h
      rw [if_pos hname, hnet, Option.map_none, List.append_nil]
      exact ih h
    · have hnet : network (img.wifi i) = some (cstr (img.wifi i).ssid, cstr (img.wifi i).pass) :=
        if_neg hname
      rw [if_neg hname] at h
      rw [if_neg hname, hnet, Option.map_some]
      obtain ⟨hbefore, hbody⟩ := printf_complete h
      obtain ⟨hprinted, hfirst⟩ := ih hbefore
      refine ⟨?_, by simp⟩
      rw [hbody, hprinted, hfirst, List.map_append, List.map_singleton]
      by_cases hnets : nets = []
      · simp [hnets, networkJson, masked, List.append_assoc]
      · rw [intercalate_concat (by simpa using hnets)]
        simp [hnets, networkJson, masked, List.append_assoc]

/-- The answer to a GET has the networks that it shows. -/
theorem wifiList_body (fw : Firmware) (hidx : d.wifiActiveIdx.natAbs ≤ 2 ^ 31) :
    wifiList fw pstopApiBodyMax d = { Response.init with
      status := 200
      body := text "\x7b\"ok\":true,\"networks\":" ++ networksArray (shown d.config.ram) ++
        (text ",\"active_idx\":" ++ int (wifiActive fw d) ++ text "\x7d") } := by
  have hstatus := wifiList_status fw hidx
  have hhead : (text "\x7b\"ok\":true,\"networks\":[") =
      text "\x7b\"ok\":true,\"networks\":" ++ text "[" := rfl
  have htail : (text "],\"active_idx\":") = text "]" ++ text ",\"active_idx\":" := rfl
  have hlist : wifiList fw pstopApiBodyMax d = finish
      ((((List.finRange 4).foldl (wifiItem d.config.ram)
        ((⟨pstopApiBodyMax, [], false⟩ : Out).printf (text "\x7b\"ok\":true,\"networks\":["),
          true)).1).printf
        (text "],\"active_idx\":" ++ int (wifiActive fw d) ++ text "\x7d")) 200 := rfl
  rw [hlist] at hstatus ⊢
  generalize hend : Out.printf _ (text "],\"active_idx\":" ++ int (wifiActive fw d) ++
    text "\x7d") = o at hstatus ⊢
  have hcomplete : o.overflow = false := by
    cases ho : o.overflow with
    | false => rfl
    | true =>
      rw [finish, if_pos ho] at hstatus
      exact absurd (show (500 : Int) = 200 from hstatus) (by decide)
  obtain ⟨hitems, hbody⟩ := printf_complete (hend ▸ hcomplete)
  rw [finish, if_neg (Bool.eq_false_iff.mp hcomplete)]
  obtain ⟨hprinted, -⟩ := foldl_wifiItem _ hitems
  rw [← hend, hbody, hprinted]
  have hstart : ((⟨pstopApiBodyMax, [], false⟩ : Out).printf
      (text "\x7b\"ok\":true,\"networks\":[")).body = text "\x7b\"ok\":true,\"networks\":[" := rfl
  rw [hstart, hhead, htail, networksArray, shown]
  simp only [List.append_assoc]

/-- The password that an entry has after its mask was posted. -/
def passAfter (img : Image) (net : Text × Text) : Text :=
  if net.2 = [] then [] else storedPass img net.1

/-- What a GET showed of a network is accepted again. -/
theorem wifiEntry_masked {img : Image} {net : Text × Text} (h : Storable net) :
    wifiEntry img ⟨some (masked net).1, some (masked net).2⟩ =
      .ok (netOf net.1 (passAfter img net)) := by
  have hname : ¬ ((masked net).1 = [] ∨ wifiSsidMax < (masked net).1.length ∨
      plainString (masked net).1 = false) := by
    rintro (h' | h' | h')
    · exact h.named h'
    · exact absurd h.ssidLength (Nat.not_le.mpr h')
    · cases h.ssidPlain.symm.trans h'
  rw [wifiEntry]
  dsimp only [Option.getD_some]
  rw [if_neg hname]
  by_cases hopen : net.2 = []
  · have hnone : (masked net).2 = [] := if_pos hopen
    have hmask : ([] : Text) ≠ wifiMask := by decide
    rw [hnone, if_neg hmask, if_neg (by simp), passAfter, if_pos hopen]
    rfl
  · have hmask : (masked net).2 = wifiMask := if_neg hopen
    rw [hmask, if_pos rfl, passAfter, if_neg hopen]
    rfl

theorem plain_masked {net : Text × Text} (h : Storable net) :
    plainString (masked net).1 = true ∧ plainString (masked net).2 = true := by
  refine ⟨h.ssidPlain, ?_⟩
  by_cases hopen : net.2 = []
  · have hnone : (masked net).2 = [] := if_pos hopen
    rw [hnone]
    rfl
  · have hmask : (masked net).2 = wifiMask := if_neg hopen
    rw [hmask]
    decide

/-- What a POST of the masked list is taken for. -/
theorem wifiFromJson_masked (hv : Verbatim fw) (img : Image) {nets : List (Text × Text)}
    (hl : nets.length ≤ 4) (hs : ∀ net ∈ nets, Storable net) :
    (fw.wifiJson (networksBody (networksArray (nets.map masked)))).fields = 1 ∧
      wifiFromJson img (fw.wifiJson (networksBody (networksArray (nets.map masked)))) =
        .ok (entries (nets.map fun net => (net.1, passAfter img net))) := by
  have hplain : ∀ net ∈ nets.map masked, plainString net.1 = true ∧ plainString net.2 = true := by
    intro net hnet
    obtain ⟨net, hmem, rfl⟩ := List.mem_map.mp hnet
    exact plain_masked (hs net hmem)
  obtain ⟨hf, hnets⟩ := hv (nets.map masked) (by rwa [List.length_map]) hplain
  refine ⟨hf, ?_⟩
  rw [wifiFromJson, hnets, List.map_map]
  have hok : (nets.map ((fun net => (⟨some net.1, some net.2⟩ : WifiNetJson)) ∘ masked)).mapM
      (wifiEntry img) = .ok (nets.map fun net => netOf net.1 (passAfter img net)) := by
    rw [List.mapM_map]
    exact mapM_of_ok fun net hnet => wifiEntry_masked (hs net hnet)
  rw [hok, Except.map]
  refine congrArg Except.ok (funext fun i => ?_)
  rw [entries, List.map_map]
  rfl

/-- The list stays what it is exactly if every password is the one stored for its name. -/
theorem entries_passAfter {img : Image} {nets : List (Text × Text)} (hl : nets.length ≤ 4)
    (hs : ∀ net ∈ nets, Storable net) (h : img.wifi = entries nets) :
    entries (nets.map fun net => (net.1, passAfter img net)) = img.wifi ↔
      PasswordsByName img := by
  have hsize : ∀ net, (passAfter img net).length ≤ wifiPassMax ∧
      plainString (passAfter img net) = true := by
    intro net
    rw [passAfter]
    split
    case isTrue => exact ⟨Nat.zero_le _, rfl⟩
    case isFalse => exact storedPass_storable ⟨nets, hl, hs, h⟩ net.1
  rw [passwordsByName_iff, funext_iff]
  refine forall_congr' fun i => ?_
  rw [h, entries_getElem?, entries_getElem?, List.getElem?_map]
  cases hi : nets[i.val]? with
  | none =>
    have hempty : cstr WifiNet.zero.pass = [] := by decide
    simp [hempty]
  | some net =>
    have hnet := hs net (List.mem_of_getElem? hi)
    obtain ⟨hssid, hpass⟩ := hnet.strings
    simp only [Option.map_some, Option.elim_some, hssid, hpass]
    constructor
    · intro he hne
      have hcstr := congrArg (fun entry => cstr entry.pass) he
      simp only [hpass] at hcstr
      rw [← hcstr]
      have hbuffer : cstr (netOf net.1 (passAfter img net)).pass = passAfter img net :=
        cstr_buffer (hsize net).1 (hsize net).2
      rw [hbuffer, passAfter, if_neg hne]
    · intro hsame
      have hafter : passAfter img net = net.2 := by
        rw [passAfter]
        by_cases hopen : net.2 = []
        · rw [if_pos hopen, hopen]
        · rw [if_neg hopen, hsame hopen]
      rw [hafter]

theorem fetched_eq (hauth : adminOk fw auth pstopApiBodyMax = none) :
    fetched fw auth d = wifiList fw pstopApiBodyMax d := by
  rw [fetched, pstopApiAdminWifi, hauth]
  rfl

/-- The passwords do not show. -/
theorem wifiList_masked {d' : Remote} (cap : ℕ) (h : SameNetworks d.config.ram d'.config.ram)
    (hidx : d'.wifiActiveIdx = d.wifiActiveIdx) : wifiList fw cap d' = wifiList fw cap d := by
  have hitem : wifiItem d'.config.ram = wifiItem d.config.ram := by
    funext of i
    obtain ⟨hssid, hpass⟩ := h i
    simp only [wifiItem, hssid, hpass]
  have hactive : wifiActive fw d' = wifiActive fw d := by rw [wifiActive, wifiActive, hidx]
  have hlist (d : Remote) : wifiList fw cap d = finish
      ((((List.finRange 4).foldl (wifiItem d.config.ram)
        ((⟨cap, [], false⟩ : Out).printf (text "\x7b\"ok\":true,\"networks\":["), true)).1).printf
        (text "],\"active_idx\":" ++ int (wifiActive fw d) ++ text "\x7d")) 200 := rfl
  rw [hlist d', hlist d, hitem, hactive]

/-- A list that was posted can be fetched and posted back exactly if all its networks of one
name that have a password have the one of the first of them. -/
theorem lossless_iff (hv : Verbatim fw) (hp : Posted fw d.config.ram.wifi)
    (hauth : adminOk fw auth pstopApiBodyMax = none) (hidx : d.wifiActiveIdx.natAbs ≤ 2 ^ 31) :
    Lossless fw auth d ↔ PasswordsByName d.config.ram := by
  obtain ⟨nets, hl, hs, hwifi⟩ := hp.listed
  have hshown := shown_entries hl hs hwifi
  obtain ⟨hf, hnets⟩ := wifiFromJson_masked hv d.config.ram hl hs
  have hposted (saved : WifiIdx → Int) := adminWifi_post saved hauth hf hnets
  rw [← entries_passAfter hl hs hwifi]
  constructor
  · intro h
    have hsame := h.back.unchanged fun _ => 0
    have hret : (d.config.wifiSetAll (entries (nets.map fun net =>
        (net.1, passAfter d.config.ram net))) fun _ => 0).2 = 0 := wifiSetAll_ret.mpr fun _ => rfl
    rw [posted, hshown, hposted] at hsame
    simp only [hret, ne_eq, not_true, if_false, wifiReloaded] at hsame
    rw [← hsame]
    exact (funext fun i => (wifiSetAll_kept (fun _ => rfl) i).1).symm
  · intro h
    rw [h] at hposted
    have hlist := wifiList_body fw hidx
    refine ⟨⟨(fetched_eq hauth).trans hlist, ?_, ?_, ?_⟩, ?_⟩
    · intro saved hsaved
      rw [posted, hshown, hposted]
      simp only [wifiSetAll_ret.mpr hsaved, ne_eq, not_true, if_false]
      exact wifiList_status fw hidx
    · intro saved
      rw [posted, hshown, hposted]
      dsimp only
      split
      case isTrue => exact wifiSetAll_same
      case isFalse => exact wifiSetAll_same
    · intro saved hsaved i
      rw [posted, hshown, hposted]
      simp only [wifiSetAll_ret.mpr hsaved, ne_eq, not_true, if_false, wifiReloaded]
      exact (wifiSetAll_kept hsaved i).2
    · intro d' hd' hidx'
      rw [fetched_eq hauth, fetched_eq hauth]
      exact wifiList_masked pstopApiBodyMax hd' hidx'

/-- The names and the passwords among the pieces between quotes. -/
def pairs : List Text → List (Text × Text)
  | _ :: _ :: ssid :: _ :: _ :: _ :: pass :: _ :: rest => (ssid, pass) :: pairs rest
  | _ => []

def readNetworks (body : Text) : WifiJson where
  fields := 1
  networks := ((pairs ((body.splitOn 0x22).drop 3)).take 4).map fun net => ⟨some net.1, some net.2⟩
  bounded := by
    rw [List.length_map]
    exact List.length_take_le 4 _

theorem splitOn_quote {s t : Text} (h : (0x22 : UInt8) ∉ s) :
    (s ++ 0x22 :: t).splitOn 0x22 = s :: t.splitOn 0x22 := by
  have hs : ∀ c ∈ s, decide (c ≠ 0x22) = true := by
    intro c hc
    refine decide_eq_true ?_
    rintro rfl
    exact h hc
  rw [splitOn_eq, List.takeWhile_append_of_pos hs, List.dropWhile_append_of_pos hs]
  simp

theorem plain_quote {s : Text} (h : plainString s = true) : (0x22 : UInt8) ∉ s := by
  intro hq
  have hc := List.all_eq_true.mp h 0x22 hq
  exact absurd hc (by decide)

/-- A network in quotes is two of the pieces. -/
theorem splitOn_network {before after : Text} {net : Text × Text} (hb : (0x22 : UInt8) ∉ before)
    (hssid : plainString net.1 = true) (hpass : plainString net.2 = true) :
    (before ++ (networkJson net ++ after)).splitOn 0x22 =
      (before ++ text "\x7b") :: text "ssid" :: text ":" :: net.1 :: text "," :: text "pass" ::
        text ":" :: net.2 :: (text "\x7d" ++ after).splitOn 0x22 := by
  have hopen : (0x22 : UInt8) ∉ before ++ text "\x7b" := by
    rw [List.mem_append]
    rintro (h | h)
    · exact hb h
    · exact absurd h (by decide)
  have htext : before ++ (networkJson net ++ after) =
      (before ++ text "\x7b") ++ 0x22 :: (text "ssid" ++ 0x22 :: (text ":" ++ 0x22 :: (net.1 ++
        0x22 :: (text "," ++ 0x22 :: (text "pass" ++ 0x22 :: (text ":" ++ 0x22 :: (net.2 ++
          0x22 :: (text "\x7d" ++ after)))))))) := by
    have h1 : text "\x7b\"ssid\":\"" = text "\x7b" ++ 0x22 :: (text "ssid" ++ 0x22 :: (text ":" ++
      [0x22])) := rfl
    have h2 : text "\",\"pass\":\"" = 0x22 :: (text "," ++ 0x22 :: (text "pass" ++ 0x22 :: (text ":" ++
      [0x22]))) := rfl
    have h3 : text "\"\x7d" = 0x22 :: text "\x7d" := rfl
    simp only [networkJson, h1, h2, h3, List.append_assoc, List.cons_append, List.nil_append]
  rw [htext, splitOn_quote hopen, splitOn_quote (by decide), splitOn_quote (by decide),
    splitOn_quote (plain_quote hssid), splitOn_quote (by decide), splitOn_quote (by decide),
    splitOn_quote (by decide), splitOn_quote (plain_quote hpass)]

/-- The pieces after the first one are the networks. -/
theorem pairs_networks {nets : List (Text × Text)}
    (hplain : ∀ net ∈ nets, plainString net.1 = true ∧ plainString net.2 = true) {before : Text}
    (hb : (0x22 : UInt8) ∉ before) :
    pairs (((before ++ ((text ",").intercalate (nets.map networkJson) ++ text "]\x7d")).splitOn
      0x22).drop 1) = nets := by
  induction nets generalizing before with
  | nil =>
    have hq : (0x22 : UInt8) ∉ before ++ text "]\x7d" := by
      rw [List.mem_append]
      rintro (h | h)
      · exact hb h
      · exact absurd h (by decide)
    have hend := splitOn_eq 0x22 (before ++ text "]\x7d")
    rw [List.map_nil, List.intercalate_nil, List.nil_append, hend, List.drop_one, List.tail_cons]
    have hdrop : (before ++ text "]\x7d").dropWhile (· ≠ 0x22) = [] := by
      rw [List.dropWhile_eq_nil_iff]
      intro c hc
      refine decide_eq_true ?_
      rintro rfl
      exact hq hc
    rw [hdrop]
    rfl
  | cons net nets ih =>
    obtain ⟨hssid, hpass⟩ := hplain net (by simp)
    have hrest := fun net hnet => hplain net (List.mem_cons_of_mem _ hnet)
    cases nets with
    | nil =>
      rw [List.map_singleton, List.intercalate_singleton, splitOn_network hb hssid hpass]
      have hnext := ih hrest (show (0x22 : UInt8) ∉ text "\x7d" by decide)
      rw [splitOn_eq] at hnext ⊢
      exact congrArg ((net.1, net.2) :: ·) hnext
    | cons net' nets =>
      rw [List.map_cons, List.map_cons, List.intercalate_cons_cons, ← List.map_cons, List.append_assoc,
        List.append_assoc, splitOn_network hb hssid hpass]
      have hnext := ih hrest (show (0x22 : UInt8) ∉ text "\x7d," by decide)
      have hcomma : text "\x7d," = text "\x7d" ++ text "," := rfl
      rw [hcomma, List.append_assoc] at hnext
      rw [splitOn_eq] at hnext ⊢
      exact congrArg ((net.1, net.2) :: ·) hnext

/-- A firmware that takes the admin's credentials and arrays of networks. -/
def listFirmware : Firmware := { openFirmware with wifiJson := readNetworks }

theorem listFirmware_verbatim : Verbatim listFirmware := by
  intro nets hl hplain
  refine ⟨rfl, ?_⟩
  have hbody : networksBody (networksArray nets) = text "\x7b" ++ 0x22 :: (text "networks" ++ 0x22 ::
      (text ":[" ++ ((text ",").intercalate (nets.map networkJson) ++ text "]\x7d"))) := by
    have h1 : text "\x7b\"networks\":" = text "\x7b" ++ 0x22 :: (text "networks" ++ 0x22 :: text ":") :=
      rfl
    have h2 : text ":[" = text ":" ++ text "[" := rfl
    have h3 : text "]\x7d" = text "]" ++ text "\x7d" := rfl
    simp only [networksBody, networksArray, h1, h2, h3, List.append_assoc, List.cons_append]
  have hpairs := pairs_networks hplain (show (0x22 : UInt8) ∉ text ":[" by decide)
  have hread : (readNetworks (networksBody (networksArray nets))).networks =
      ((pairs ((networksBody (networksArray nets)).splitOn 0x22 |>.drop 3)).take 4).map
        fun net => ⟨some net.1, some net.2⟩ := rfl
  have hwifi : listFirmware.wifiJson = readNetworks := rfl
  rw [hwifi, hread, hbody, splitOn_quote (by decide), splitOn_quote (by decide), List.drop_succ_cons,
    List.drop_succ_cons, hpairs, List.take_of_length_le hl]

def adminAuth : Option Text := some (text "Basic YWRtaW46c2VjcmV0")

def remoteWith (nets : List (Text × Text)) : Remote :=
  (posted listFirmware adminAuth blankRemote (networksArray nets) fun _ => 0).1

def homeAndGuest : List (Text × Text) := [(text "home", text "12345678"), (text "guest", [])]

def homeTwice : List (Text × Text) := [(text "home", text "12345678"), (text "home", text "87654321")]

theorem lossless_iff_guest : Lossless listFirmware adminAuth (remoteWith homeAndGuest) := by
  have hstart : Posted listFirmware blankRemote.config.ram.wifi := .none
  have hnames : PasswordsByName (remoteWith homeAndGuest).config.ram := by
    unfold PasswordsByName FirstOfName
    decide
  exact (lossless_iff listFirmware_verbatim (hstart.accepted (by decide)) (by decide)
    (by decide)).mpr hnames

/-- The second of two networks of one name gets the password of the first. -/
theorem homeTwice_changed : Posted listFirmware (remoteWith homeTwice).config.ram.wifi ∧
    fetched listFirmware adminAuth (remoteWith homeTwice) = { Response.init with
      status := 200
      body := text "\x7b\"ok\":true,\"networks\":" ++ networksArray (homeTwice.map masked) ++
        text ",\"active_idx\":-1\x7d" } ∧
    ((posted listFirmware adminAuth (remoteWith homeTwice) (networksArray (homeTwice.map masked))
      fun _ => 0).1.config.ram.wifi 1) = netOf (text "home") (text "12345678") ∧
    (remoteWith homeTwice).config.ram.wifi 1 = netOf (text "home") (text "87654321") ∧
    ¬ Lossless listFirmware adminAuth (remoteWith homeTwice) := by
  have hstart : Posted listFirmware blankRemote.config.ram.wifi := .none
  have hafter : (posted listFirmware adminAuth (remoteWith homeTwice)
      (networksArray (homeTwice.map masked)) fun _ => 0).1.config.ram.wifi 1 =
        netOf (text "home") (text "12345678") := by decide
  have hbefore : (remoteWith homeTwice).config.ram.wifi 1 =
      netOf (text "home") (text "87654321") := by decide
  have hshown : shown (remoteWith homeTwice).config.ram = homeTwice.map masked := by decide
  refine ⟨hstart.accepted (by decide), by decide, hafter, hbefore, ?_⟩
  intro h
  have hsame := congrFun (h.back.unchanged fun _ => 0) 1
  rw [hshown, hafter, hbefore] at hsame
  exact absurd hsame (by decide)

end ZephyrApps.WifiRoundTrip
