import ZephyrApps.CodexHid
import ZephyrApps.EventHistories

/-!
# Reassembly and fragmentation

An object that comes in fragments is handed over whole and once, however it was cut,
unless a fragment after the first of its bytes begins like a request, which makes the
receiver start afresh though the object it sees may be nested, or the fragment with its
last brace fills the buffer up.
-/
namespace ZephyrApps.HidReassembly
open CStrings JsonTexts CodexHid EventHistories

def braces (s : Text) : ℕ := s.count beginObject

theorem braces_append (s t : Text) : braces (s ++ t) = braces s + braces t := List.count_append

theorem braces_le {s t : Text} (h : s.Sublist t) : braces s ≤ braces t := h.count_le _

theorem braces_space {w : Text} (h : Whitespace w) : braces w = 0 := by
  refine List.count_eq_zero.mpr fun hmem => ?_
  exact absurd (h _ hmem) (by decide)

theorem rxStore_braces (rx payload : Text) :
    braces (rxStore rx payload).1 ≤ braces (rx ++ payload) ∧
      ∀ t ∈ (rxStore rx payload).2, braces t ≤ braces (rx ++ payload) := by
  unfold rxStore
  split
  next h => exact ⟨by simp [h], by simp⟩
  next =>
    split
    · exact ⟨by simp [braces], by simp⟩
    · split
      · refine ⟨by simp [braces], fun t ht => ?_⟩
        cases ht
        exact braces_le (List.takeWhile_sublist _)
      · exact ⟨le_rfl, by simp⟩

/-- What is kept and what is handed over has no more braces than what came in. -/
theorem rxAppend_braces (rx payload : Text) :
    braces (rxAppend rx payload).1 ≤ braces (rx ++ payload) ∧
      ∀ t ∈ (rxAppend rx payload).2, braces t ≤ braces (rx ++ payload) := by
  let rx' := if rx ≠ [] ∧ methodStart <+: payload then [] else rx
  let payload' := if rx' = [] then payload.dropWhile (· ≠ beginObject) else payload
  have hrx : rx'.Sublist rx := by
    dsimp only [rx']
    split
    · exact List.nil_sublist rx
    · exact List.Sublist.refl rx
  have hpayload : payload'.Sublist payload := by
    dsimp only [payload']
    split
    · exact List.dropWhile_sublist _
    · exact List.Sublist.refl payload
  have hle : braces (rx' ++ payload') ≤ braces (rx ++ payload) := braces_le (hrx.append hpayload)
  obtain ⟨hkept, hhanded⟩ := rxStore_braces rx' payload'
  exact ⟨hkept.trans hle, fun t ht => (hhanded t ht).trans hle⟩

theorem receive_braces (fs : List Fragment) (rx : Text) :
    ∀ t ∈ (receive rx (fs.map Fragment.bytes)).2, braces t ≤ braces (rx ++ carried fs) := by
  induction fs generalizing rx with
  | nil => simp [receive]
  | cons f fs ih =>
    intro t ht
    obtain ⟨hkept, hhanded⟩ := rxAppend_braces rx f.payload
    have hcarried : braces (rx ++ carried (f :: fs)) =
        braces (rx ++ f.payload) + braces (carried fs) := by
      rw [← braces_append, carried, List.flatMap_cons, List.append_assoc]
      rfl
    rw [receive_fragment] at ht
    rcases List.mem_append.mp ht with ht | ht
    · have hle := hhanded t (by simpa using ht)
      omega
    · have hle := ih _ t ht
      rw [braces_append] at hle
      omega

/-- What the receiver finds in the text of an object. -/
structure Whole (O : Text) : Prop where
  first : ∃ rest, O = beginObject :: rest
  scan : ∀ p, scanObject 0 false (O ++ p) = some p
  noNul : 0 ∉ O

theorem whole_object {o : JsonObject} (h : o.Legal) : Whole (objectText o.blank o.members) :=
  ⟨⟨_, rfl⟩, scanObject_object h.blank h.spaced h.values,
    noNul_closed.object (noNul_closed.members h.blank h.spaced fun m hm =>
      noNul_closed.value (h.values m hm))⟩

theorem Whole.ne_nil {O : Text} (h : Whole O) : O ≠ [] := by
  obtain ⟨rest, rfl⟩ := h.first
  simp

/-- Whatever is cut off its front begins with its brace. -/
theorem Whole.head_cut {O tail g rest : Text} (h : Whole O) (hcut : O ++ tail = g ++ rest)
    (hg : g ≠ []) : ∀ c ∈ g.head?, c = beginObject := by
  obtain ⟨O', rfl⟩ := h.first
  obtain ⟨c, g', rfl⟩ := List.exists_cons_of_ne_nil hg
  intro d hd
  cases hd
  exact (List.cons.inj hcut).1.symm

theorem Whole.part {p q : Text} (h : Whole (p ++ q)) (hq : q ≠ []) :
    rxObjectComplete p = false := by
  by_contra hp
  have hcomplete : rxObjectComplete p = true := by simpa using hp
  obtain ⟨r, hr⟩ := Option.isSome_iff_exists.mp hcomplete
  have hwhole := h.scan []
  rw [List.append_nil, scanObject_append hr] at hwhole
  have hnil := List.append_eq_nil_iff.mp (Option.some.inj hwhole)
  exact hq hnil.2

theorem Whole.complete {O : Text} (h : Whole O) (extra : Text) :
    rxObjectComplete (O ++ extra) = true := by
  rw [rxObjectComplete, h.scan extra]
  rfl

theorem Whole.cstr {O extra : Text} (h : Whole O) (he : Whitespace extra) :
    cstr (O ++ extra) = O ++ extra := by
  refine List.takeWhile_eq_self_iff.mpr fun c hc => ?_
  rcases List.mem_append.mp hc with hc | hc
  · have hne : c ≠ 0 := fun h0 => h.noNul (h0 ▸ hc)
    simpa using hne
  · simpa using (he c hc).plain.nul

theorem rxStore_part {rx f q : Text} (h : Whole (rx ++ (f ++ q))) (hf : f ≠ []) (hq : q ≠ [])
    (hlen : (rx ++ (f ++ q)).length < codexJsonMax) : rxStore rx f = (rx ++ f, none) := by
  have hroom : ¬ codexJsonMax ≤ rx.length + f.length := by
    simp only [List.length_append] at hlen
    omega
  rw [← List.append_assoc] at h
  have hpart : ¬ rxObjectComplete (rx ++ f) = true := by
    rw [h.part hq]
    exact Bool.false_ne_true
  rw [rxStore, if_neg hf, if_neg hroom, if_neg hpart]

theorem rxStore_whole {rx q extra : Text} (h : Whole (rx ++ q)) (hq : q ≠ [])
    (he : Whitespace extra) :
    rxStore rx (q ++ extra) =
      ([], if codexJsonMax ≤ rx.length + (q ++ extra).length then none
        else some (rx ++ q ++ extra)) := by
  have hne : q ++ extra ≠ [] := by simp [hq]
  rw [rxStore, if_neg hne]
  by_cases hfull : codexJsonMax ≤ rx.length + (q ++ extra).length
  · rw [if_pos hfull, if_pos hfull]
  · rw [if_neg hfull, if_neg hfull, ← List.append_assoc, if_pos (h.complete extra), h.cstr he]

theorem rxAppend_empty (payload : Text) :
    rxAppend [] payload = rxStore [] (payload.dropWhile (· ≠ beginObject)) := by
  simp [rxAppend]

theorem rxAppend_resync {rx payload : Text} (h : methodStart <+: payload) :
    rxAppend rx payload = rxAppend [] payload := by
  simp only [rxAppend, h, and_true]
  by_cases hrx : rx = [] <;> simp [hrx]

theorem rxAppend_kept {rx payload : Text} (hrx : rx ≠ []) (h : ¬ methodStart <+: payload) :
    rxAppend rx payload = rxStore rx payload := by
  simp [rxAppend, hrx, h]

theorem dropWhile_space {w g : Text} (hw : Whitespace w) (hg : ∀ c ∈ g.head?, c = beginObject) :
    (w ++ g).dropWhile (· ≠ beginObject) = g := by
  have hskip : ∀ c ∈ w, decide (c ≠ beginObject) = true := by
    intro c hc
    exact decide_eq_true (hw c hc).plain.object.1
  rw [List.dropWhile_append_of_pos hskip]
  cases g with
  | nil => rfl
  | cons c g =>
    rw [hg c rfl]
    rfl

theorem rxAppend_space {w : Text} (hw : Whitespace w) : rxAppend [] w = ([], none) := by
  have hdrop := dropWhile_space hw (g := []) (by simp)
  rw [List.append_nil] at hdrop
  rw [rxAppend_empty, hdrop]
  rfl

theorem carried_cons (f : Fragment) (fs : List Fragment) :
    carried (f :: fs) = f.payload ++ carried fs := List.flatMap_cons

theorem receive_space {fs : List Fragment} (h : Whitespace (carried fs)) :
    receive [] (fs.map Fragment.bytes) = ([], []) := by
  induction fs with
  | nil => rfl
  | cons f fs ih =>
    rw [carried_cons, whitespace_append] at h
    rw [receive_fragment, rxAppend_space h.1, ih h.2]
    rfl

/-- What follows the `n`-th byte in the fragment that brings it. -/
def restOfFragment (n : ℕ) : List Fragment → Text
  | [] => []
  | f :: fs =>
    if n ≤ f.payload.length then f.payload.drop n else restOfFragment (n - f.payload.length) fs

/-- The object is handed over once, with no more than the rest of the fragment that brings
its last byte, the `n`-th; and nothing stays behind. -/
def Reassembles (O : Text) (n : ℕ) (rx : Text) (fs : List Fragment) : Prop :=
  ∃ extra, extra <+: restOfFragment n fs ∧ receive rx (fs.map Fragment.bytes) = ([], [O ++ extra])

/-- The fragment `f` after `past` bytes does no harm to the object from the byte `start` up
to the byte `n`: it does not begin like a request inside the object, and if it brings the
last byte then there is room for it. -/
structure Harmless (start n past : ℕ) (f : Fragment) : Prop where
  inside : start < past → past < n → ¬ methodStart <+: f.payload
  room : past < n → n ≤ past + f.payload.length → past + f.payload.length < start + codexJsonMax

instance (start n past : ℕ) (f : Fragment) : Decidable (Harmless start n past f) :=
  decidable_of_iff
    ((start < past → past < n → ¬ methodStart <+: f.payload) ∧
      (past < n → n ≤ past + f.payload.length → past + f.payload.length < start + codexJsonMax))
    ⟨fun h => ⟨h.1, h.2⟩, fun h => ⟨h.inside, h.room⟩⟩

def AllHarmless (start n past : ℕ) (fs : List Fragment) : Prop :=
  Each (fun before f => Harmless start n (past + (carried before).length) f) fs

instance (start n past : ℕ) (fs : List Fragment) : Decidable (AllHarmless start n past fs) := by
  unfold AllHarmless
  infer_instance

theorem allHarmless_cons (start n past : ℕ) (f : Fragment) (fs : List Fragment) :
    AllHarmless start n past (f :: fs) ↔
      Harmless start n past f ∧ AllHarmless start n (past + f.payload.length) fs := by
  have hlen (before : List Fragment) : past + (carried (f :: before)).length =
      past + f.payload.length + (carried before).length := by
    rw [carried_cons, List.length_append, Nat.add_assoc]
  simp only [AllHarmless, each_cons, hlen]
  rfl

/-- Once the object is over, no fragment does harm. -/
theorem allHarmless_after {start n past : ℕ} (h : n ≤ past) (fs : List Fragment) :
    AllHarmless start n past fs := by
  refine Each.of_mem fun before f _ => ⟨fun _ hlt => ?_, fun hlt => ?_⟩ <;> omega

/-- A fragment that is over before the object is. -/
theorem allHarmless_next {start n past : ℕ} {f : Fragment} {fs : List Fragment}
    (hpast : past + f.payload.length < n) (hinside : start < past → ¬ methodStart <+: f.payload) :
    AllHarmless start n past (f :: fs) ↔ AllHarmless start n (past + f.payload.length) fs := by
  rw [allHarmless_cons]
  exact and_iff_right ⟨fun hs _ => hinside hs, fun _ hle => absurd hle (Nat.not_le.mpr hpast)⟩

/-- The fragment that brings the last byte. -/
theorem allHarmless_last {start n past : ℕ} {f : Fragment} {fs : List Fragment} (hpast : past < n)
    (hlast : n ≤ past + f.payload.length) (hinside : start < past → ¬ methodStart <+: f.payload) :
    AllHarmless start n past (f :: fs) ↔ past + f.payload.length < start + codexJsonMax := by
  rw [allHarmless_cons]
  constructor
  · exact fun h => h.1.room hpast hlast
  · exact fun hroom => ⟨⟨fun hs _ => hinside hs, fun _ _ => hroom⟩, allHarmless_after hlast fs⟩

theorem reassembles_last {rx₀ rx q extra : Text} {n : ℕ} {f : Fragment} {fs : List Fragment}
    (hO : Whole (rx ++ q)) (hq : q ≠ []) (he : Whitespace extra) (hfs : Whitespace (carried fs))
    (happend : rxAppend rx₀ f.payload = rxStore rx (q ++ extra))
    (hrest : restOfFragment n (f :: fs) = extra) :
    Reassembles (rx ++ q) n rx₀ (f :: fs) ↔ rx.length + (q ++ extra).length < codexJsonMax := by
  rw [Reassembles, receive_fragment, happend, rxStore_whole hO hq he, receive_space hfs, hrest]
  by_cases hfull : codexJsonMax ≤ rx.length + (q ++ extra).length
  · rw [if_pos hfull]
    refine iff_of_false ?_ (Nat.not_lt.mpr hfull)
    rintro ⟨e, -, h⟩
    cases h
  · rw [if_neg hfull]
    exact iff_of_true ⟨extra, List.prefix_refl extra, rfl⟩ (Nat.not_le.mp hfull)

theorem reassembles_next {O rx₀ rx : Text} {n : ℕ} {f : Fragment} {fs : List Fragment}
    (happend : rxAppend rx₀ f.payload = (rx, none)) (hn : f.payload.length < n) :
    Reassembles O n rx₀ (f :: fs) ↔ Reassembles O (n - f.payload.length) rx fs := by
  rw [Reassembles, Reassembles, receive_fragment, happend, restOfFragment,
    if_neg (Nat.not_le.mpr hn)]
  rfl

/-- A fresh start inside the object loses it: what follows has too few braces. -/
theorem not_reassembles_resync {O rx q tail : Text} {n : ℕ} {f : Fragment} {fs : List Fragment}
    (hO : Whole O) (hsplit : O = rx ++ q) (hrx : rx ≠ []) (htail : Whitespace tail)
    (hfs : carried (f :: fs) = q ++ tail) (hmethod : methodStart <+: f.payload) :
    ¬ Reassembles O n rx (f :: fs) := by
  rintro ⟨extra, -, hreceive⟩
  have hsame : receive rx ((f :: fs).map Fragment.bytes) =
      receive [] ((f :: fs).map Fragment.bytes) := by
    rw [receive_fragment, receive_fragment, rxAppend_resync hmethod]
  have hfew : braces (O ++ extra) ≤ braces (q ++ tail) := by
    rw [← hfs]
    refine receive_braces (f :: fs) [] _ ?_
    rw [← hsame, hreceive]
    exact List.mem_singleton_self _
  have hfirst : 0 < braces rx := by
    obtain ⟨rest, hrest⟩ := hO.first
    obtain ⟨c, rx', rfl⟩ := List.exists_cons_of_ne_nil hrx
    rw [hsplit, List.cons_append] at hrest
    rw [(List.cons.inj hrest).1]
    exact List.count_pos_iff.mpr (by simp)
  rw [hsplit, braces_append, braces_append, braces_append, braces_space htail] at hfew
  omega

theorem append_split {a b c d : Text} (h : a ++ b = c ++ d) (hlen : c.length ≤ a.length) :
    ∃ e, a = c ++ e ∧ d = e ++ b := by
  rcases List.append_eq_append_iff.mp h with ⟨e, hc, hb⟩ | ⟨e, ha, hd⟩
  · have he : e = [] := by
      rw [hc, List.length_append] at hlen
      exact List.length_eq_zero_iff.mp (by omega)
    subst he
    exact ⟨[], by simpa using hc.symm, by simpa using hb.symm⟩
  · exact ⟨e, ha, hd⟩

theorem inside_iff {O rx q tail : Text} {fs : List Fragment} (start : ℕ) (hO : Whole O)
    (hshort : O.length < codexJsonMax) (hsplit : O = rx ++ q) (hrx : rx ≠ []) (hq : q ≠ [])
    (htail : Whitespace tail) (hfs : carried fs = q ++ tail) :
    Reassembles O q.length rx fs ↔
      AllHarmless start (start + O.length) (start + rx.length) fs := by
  induction fs generalizing rx q with
  | nil => simp [carried, hq] at hfs
  | cons f fs ih =>
    have hlen : O.length = rx.length + q.length := by rw [hsplit, List.length_append]
    have hrxlen : 0 < rx.length := List.length_pos_of_ne_nil hrx
    have hqlen : 0 < q.length := List.length_pos_of_ne_nil hq
    by_cases hmethod : methodStart <+: f.payload
    · refine iff_of_false (not_reassembles_resync hO hsplit hrx htail hfs hmethod) fun h => ?_
      have hharmless := ((allHarmless_cons ..).mp h).1
      exact hharmless.inside (by omega) (by omega) hmethod
    · have hkept := rxAppend_kept hrx hmethod
      rw [carried_cons] at hfs
      by_cases hlast : q.length ≤ f.payload.length
      · obtain ⟨extra, hf, htail'⟩ := append_split hfs hlast
        rw [htail', whitespace_append] at htail
        have hrest : restOfFragment q.length (f :: fs) = extra := by
          rw [restOfFragment, if_pos hlast, hf, List.drop_left]
        rw [allHarmless_last (by omega) (by omega) fun _ => hmethod, hsplit,
          reassembles_last (hsplit ▸ hO) hq htail.1 htail.2 (by rw [hkept, hf]) hrest, ← hf]
        omega
      · obtain ⟨q', hq', hfs'⟩ := append_split hfs.symm (Nat.le_of_not_le hlast)
        have hne : q' ≠ [] := by
          rintro rfl
          rw [hq', List.append_nil] at hlast
          exact hlast le_rfl
        have hqlen' : q'.length = q.length - f.payload.length := by
          rw [hq', List.length_append, Nat.add_sub_cancel_left]
        have hO' : Whole (rx ++ (f.payload ++ q')) := by rwa [← hq', ← hsplit]
        have hstored := rxStore_part hO' f.nonempty hne (by rwa [← hq', ← hsplit])
        rw [hstored] at hkept
        rw [reassembles_next hkept (Nat.lt_of_not_le hlast), ← hqlen']
        have hnext : Reassembles O q'.length (rx ++ f.payload) fs ↔
            AllHarmless start (start + O.length) (start + (rx ++ f.payload).length) fs :=
          ih (by rw [hsplit, hq', List.append_assoc]) (by simp [hrx]) hne hfs'
        rw [hnext, List.length_append, ← Nat.add_assoc,
          allHarmless_next (by omega) fun _ => hmethod]

theorem before_iff {O w tail : Text} {fs : List Fragment} {start past : ℕ} (hO : Whole O)
    (hshort : O.length < codexJsonMax) (hw : Whitespace w) (htail : Whitespace tail)
    (hfs : carried fs = w ++ (O ++ tail)) (hstart : past + w.length = start) :
    Reassembles O (w.length + O.length) [] fs ↔
      AllHarmless start (start + O.length) past fs := by
  have hOlen : 0 < O.length := List.length_pos_of_ne_nil hO.ne_nil
  induction fs generalizing w past with
  | nil => simp [carried, hO.ne_nil] at hfs
  | cons f fs ih =>
    have hinside : start < past → ¬ methodStart <+: f.payload := fun h => absurd h (by omega)
    rw [carried_cons] at hfs
    by_cases hspace : f.payload.length ≤ w.length
    · obtain ⟨w', hw', hfs'⟩ := append_split hfs.symm hspace
      have hlen : w.length = f.payload.length + w'.length := by rw [hw', List.length_append]
      rw [hw', whitespace_append] at hw
      have hnext : Reassembles O (w'.length + O.length) [] fs ↔
          AllHarmless start (start + O.length) (past + f.payload.length) fs :=
        ih hw.2 hfs' (by omega)
      have hn : w.length + O.length - f.payload.length = w'.length + O.length := by omega
      rw [reassembles_next (rxAppend_space hw.1) (by omega), hn, hnext,
        allHarmless_next (by omega) hinside]
    · obtain ⟨g, hf, hfs'⟩ := append_split hfs (Nat.le_of_not_le hspace)
      have hflen : f.payload.length = w.length + g.length := by rw [hf, List.length_append]
      have hg : g ≠ [] := by
        rintro rfl
        exact hspace (by simp [hf])
      have happend : rxAppend [] f.payload = rxStore [] g := by
        rw [rxAppend_empty, hf, dropWhile_space hw (hO.head_cut hfs' hg)]
      by_cases hlast : O.length ≤ g.length
      · obtain ⟨extra, hextra, htail'⟩ := append_split hfs'.symm hlast
        rw [htail', whitespace_append] at htail
        have hrest : restOfFragment (w.length + O.length) (f :: fs) = extra := by
          rw [restOfFragment, if_pos (by omega), hf, hextra, ← List.append_assoc,
            ← List.length_append, List.drop_left]
        have hiff : Reassembles ([] ++ O) (w.length + O.length) [] (f :: fs) ↔
            ([] : Text).length + (O ++ extra).length < codexJsonMax :=
          reassembles_last hO hO.ne_nil htail.1 htail.2 (by rw [happend, hextra]) hrest
        rw [allHarmless_last (by omega) (by omega) hinside]
        rw [List.nil_append, List.length_nil, ← hextra] at hiff
        rw [hiff]
        omega
      · obtain ⟨q, hq, hfs''⟩ := append_split hfs' (Nat.le_of_not_le hlast)
        have hOq : O.length = g.length + q.length := by rw [hq, List.length_append]
        have hne : q ≠ [] := by
          rintro rfl
          simp at hOq
          omega
        have hstored : rxStore [] g = (g, none) := by
          have hO' : Whole ([] ++ (g ++ q)) := by rwa [List.nil_append, ← hq]
          have h := rxStore_part hO' hg hne (by rwa [List.nil_append, ← hq])
          rwa [List.nil_append] at h
        have hn : w.length + O.length - f.payload.length = q.length := by omega
        have hpast : past + f.payload.length = start + g.length := by omega
        rw [reassembles_next (happend.trans hstored) (by omega), hn,
          allHarmless_next (by omega) hinside, hpast]
        exact inside_iff start hO hshort hq hg hne htail hfs''

/-- However a message is cut, with or without a newline after it: its object is handed over
once and nothing stays behind, if and only if all fragments are harmless. What
`codex_hid_send` makes of a message is one way to cut it. -/
theorem reassembles_iff {o : JsonObject} (h : o.Legal) (hshort : o.text.length < codexJsonMax) :
    let O := objectText o.blank o.members
    let n := o.lead.length + O.length
    (∀ fs, carried fs = o.text ∨ carried fs = o.text ++ text "\n" →
      (Reassembles O n [] fs ↔ AllHarmless o.lead.length n 0 fs)) ∧
    ∀ answers, (∀ k, answers k = 0) → o.text.length + 1 < codexJsonMax →
      ∃ fs, codexHidSend o.text answers = (fs.map Fragment.bytes, 0) ∧
        carried fs = o.text ++ text "\n" := by
  intro O n
  have hO : Whole O := whole_object h
  have hOshort : O.length < codexJsonMax := by
    simp only [JsonObject.text, List.length_append] at hshort
    change (objectText o.blank o.members).length < codexJsonMax
    omega
  constructor
  · intro fs hfs
    obtain ⟨tail, htail, hfs⟩ : ∃ tail, Whitespace tail ∧ carried fs = o.lead ++ (O ++ tail) := by
      rcases hfs with hfs | hfs
      · exact ⟨o.trail, h.trail, hfs⟩
      · refine ⟨o.trail ++ text "\n", fun c hc => ?_, by simp [hfs, JsonObject.text, O]⟩
        rcases List.mem_append.mp hc with hc | hc
        · exact h.trail c hc
        · rw [List.mem_singleton.mp hc]
          decide
    exact before_iff hO hOshort h.lead htail hfs (Nat.zero_add _)
  · intro answers hanswers hroom
    have hfits : ¬ codexJsonMax ≤ (o.text ++ text "\n").length := by
      have hline : (text "\n").length = 1 := rfl
      rw [List.length_append, hline]
      omega
    obtain ⟨fs, hsend, hcarried⟩ := sendLoop_fragments answers hanswers 0 (o.text ++ text "\n")
    refine ⟨fs, ?_, hcarried⟩
    rw [codexHidSend, if_neg hfits, hsend]

def nestedMethod : JsonObject where
  lead := []
  blank := []
  members := [⟨[], text "params", [], [],
    arrayText [] [⟨[], objectText [] [⟨[], text "method", [], [], text "1", []⟩], []⟩], []⟩]
  trail := []

theorem nestedMethod_legal : nestedMethod.Legal := by
  have hname : Chars (text "method") := chars_of_unescaped (by decide)
  have hparams : Chars (text "params") := chars_of_unescaped (by decide)
  have hone : Value (text "1") := value_int (Or.inr ⟨⟨by decide, by decide⟩, by decide⟩)
  have hobject : Value (objectText [] [⟨[], text "method", [], [], text "1", []⟩]) := by
    refine .object (by decide) (fun m hm => ?_) fun m hm => ?_ <;> rw [List.mem_singleton.mp hm]
    · exact ⟨by decide, hname, by decide, by decide, by decide⟩
    · exact hone
  refine ⟨by decide, by decide, fun m hm => ?_, fun m hm => ?_, by decide⟩ <;>
    rw [List.mem_singleton.mp hm]
  · exact ⟨by decide, hparams, by decide, by decide, by decide⟩
  · refine .array (by decide) (fun e he => ?_) fun e he => ?_ <;> rw [List.mem_singleton.mp he]
    · exact ⟨by decide, by decide⟩
    · exact hobject

def cutLate : List Fragment :=
  [⟨text "\x7b\"params\":[\x7b\"method\":1", true, [], by decide, by decide⟩,
    ⟨text "\x7d]\x7d", false, [0, 0], by decide, by decide⟩]

theorem reassembles_iff_late :
    Reassembles (objectText nestedMethod.blank nestedMethod.members)
      (nestedMethod.lead.length + (objectText nestedMethod.blank nestedMethod.members).length) []
      cutLate :=
  ((reassembles_iff nestedMethod_legal (by decide)).1 cutLate (Or.inl (by decide))).mpr (by decide)

def cutInside : List Fragment :=
  [⟨text "\x7b\"params\":[", true, [], by decide, by decide⟩,
    ⟨text "\x7b\"method\":1\x7d]\x7d", true, [], by decide, by decide⟩]

/-- A message cut before a nested object that begins like a request: what is handed over is
the nested object. -/
theorem nested_request_handed_over :
    nestedMethod.Legal ∧ nestedMethod.text.length < codexJsonMax ∧
      carried cutInside = nestedMethod.text ∧
      receive [] (cutInside.map Fragment.bytes) = ([], [text "\x7b\"method\":1\x7d]\x7d"]) ∧
      ¬ Reassembles (objectText nestedMethod.blank nestedMethod.members)
        (nestedMethod.lead.length + (objectText nestedMethod.blank nestedMethod.members).length) []
        cutInside := by
  have hreceive : receive [] (cutInside.map Fragment.bytes) =
      ([], [text "\x7b\"method\":1\x7d]\x7d"]) := by decide +kernel
  refine ⟨nestedMethod_legal, by decide, by decide, hreceive, ?_⟩
  rintro ⟨extra, -, h⟩
  rw [hreceive] at h
  have htext : text "\x7b\"method\":1\x7d]\x7d" =
      objectText nestedMethod.blank nestedMethod.members ++ extra :=
    (List.cons.inj (Prod.mk.inj h).2).1
  have hlong : (objectText nestedMethod.blank nestedMethod.members).length = 25 := by decide
  have hshort : (text "\x7b\"method\":1\x7d]\x7d").length = 14 := by decide
  have hlen := congrArg List.length htext
  rw [List.length_append, hlong, hshort] at hlen
  omega

end ZephyrApps.HidReassembly
