import ZephyrApps.HidReassembly

/-!
# Messages that fill the buffer up

A fragment for which there is no room is dropped with all that came before it, and the
fragments after it are taken for a new message from their first brace on. What is handed
over of a message that is too long is said by the stretches into which it falls.
-/
namespace ZephyrApps.HidOverflow
open CStrings JsonTexts CodexHid EventHistories HidReassembly

theorem receive_append (rx : Text) (fs gs : List Fragment) :
    receive rx ((fs ++ gs).map Fragment.bytes) =
      ((receive (receive rx (fs.map Fragment.bytes)).1 (gs.map Fragment.bytes)).1,
        (receive rx (fs.map Fragment.bytes)).2 ++
          (receive (receive rx (fs.map Fragment.bytes)).1 (gs.map Fragment.bytes)).2) := by
  induction fs generalizing rx with
  | nil => rfl
  | cons f fs ih =>
    rw [List.cons_append, receive_fragment, receive_fragment, ih]
    simp only [List.append_assoc]

theorem carried_append (fs gs : List Fragment) : carried (fs ++ gs) = carried fs ++ carried gs :=
  List.flatMap_append

/-- What a stretch of fragments leaves in an empty buffer, if none of it is dropped. -/
def kept (fs : List Fragment) : Text := (carried fs).dropWhile (· ≠ beginObject)

theorem kept_append (fs gs : List Fragment) :
    kept (fs ++ gs) = if kept fs = [] then kept gs else kept fs ++ carried gs := by
  rw [kept, carried_append, List.dropWhile_append]
  simp only [List.isEmpty_iff]
  rfl

theorem kept_part (fs gs : List Fragment) : kept fs <+: kept (fs ++ gs) := by
  rw [kept_append]
  split
  case isTrue h =>
    rw [h]
    exact List.nil_prefix
  case isFalse => exact List.prefix_append _ _

/-- What `rx_append` does with a buffer that has the fragment in it. -/
def stored (rx : Text) : Text × Option Text :=
  if codexJsonMax ≤ rx.length then ([], none)
  else if rxObjectComplete rx then ([], some (cstr rx))
  else (rx, none)

theorem rxStore_stored {rx payload : Text} (h : rx = [] ∨ payload ≠ []) :
    rxStore rx payload = stored (rx ++ payload) := by
  unfold rxStore stored
  split
  case isTrue hnil =>
    obtain rfl : rx = [] := h.resolve_right fun hne => hne hnil
    subst hnil
    decide
  case isFalse => rw [List.length_append]

theorem rxAppend_stored {fs : List Fragment} {f : Fragment}
    (h : kept fs ≠ [] → ¬ methodStart <+: f.payload) :
    rxAppend (kept fs) f.payload = stored (kept (fs ++ [f])) := by
  have hf : kept [f] = f.payload.dropWhile (· ≠ beginObject) := by
    rw [kept, carried, List.flatMap_singleton]
  rw [kept_append]
  by_cases hk : kept fs = []
  · rw [hk, rxAppend_empty, rxStore_stored (Or.inl rfl), if_pos rfl, hf, List.nil_append]
  · rw [rxAppend_kept hk (h hk), rxStore_stored (Or.inr f.nonempty), if_neg hk, carried,
      List.flatMap_singleton]

/-- A stretch that stays in the buffer: it does not fill it up, makes no object complete, and
no fragment after its first brace begins like a request. -/
structure Waiting (fs : List Fragment) : Prop where
  short : (kept fs).length < codexJsonMax
  part : rxObjectComplete (kept fs) = false
  inside : Each (fun before f => kept before ≠ [] → ¬ methodStart <+: f.payload) fs

theorem rxObjectComplete_mono {s t : Text} (h : s <+: t) (hs : rxObjectComplete s = true) :
    rxObjectComplete t = true := by
  obtain ⟨u, rfl⟩ := h
  obtain ⟨r, hr⟩ := Option.isSome_iff_exists.mp hs
  rw [rxObjectComplete, scanObject_append hr]
  rfl

theorem Waiting.left {fs gs : List Fragment} (h : Waiting (fs ++ gs)) : Waiting fs where
  short := (kept_part fs gs).length_le.trans_lt h.short
  part := by
    by_contra hc
    have hcomplete := rxObjectComplete_mono (kept_part fs gs) (by simpa using hc)
    exact Bool.false_ne_true (h.part.symm.trans hcomplete)
  inside := h.inside.left

theorem waiting_nil : Waiting [] := ⟨by decide, by decide, each_nil _⟩

theorem stored_waiting {rx : Text} (hshort : rx.length < codexJsonMax)
    (hpart : rxObjectComplete rx = false) : stored rx = (rx, none) := by
  rw [stored, if_neg (Nat.not_le.mpr hshort), hpart]
  rfl

theorem receive_waiting {fs : List Fragment} (h : Waiting fs) :
    receive [] (fs.map Fragment.bytes) = (kept fs, []) := by
  induction fs using List.reverseRecOn with
  | nil => rfl
  | append_singleton fs f ih =>
    have hinside := (each_concat.mp h.inside).2
    rw [receive_append, ih h.left, List.map_singleton]
    simp only [receive, setReport_fragment, rxAppend_stored hinside,
      stored_waiting h.short h.part]
    rfl

/-- The fragments fall into stretches none of which is handed over: each but the last one,
`rest`, waits until a fragment comes for which there is no room or which begins like a
request. -/
inductive Swallowed : List Fragment → List Fragment → Prop where
  | waiting {fs : List Fragment} (h : Waiting fs) : Swallowed fs fs
  | full {fs later rest : List Fragment} {f : Fragment} (h : Waiting fs)
      (inside : kept fs ≠ [] → ¬ methodStart <+: f.payload)
      (noRoom : codexJsonMax ≤ (kept (fs ++ [f])).length) (hlater : Swallowed later rest) :
    Swallowed (fs ++ f :: later) rest
  | restart {fs later rest : List Fragment} {f : Fragment} (h : Waiting fs)
      (method : methodStart <+: f.payload) (hlater : Swallowed (f :: later) rest) :
    Swallowed (fs ++ f :: later) rest

theorem Swallowed.rest_waiting {fs rest : List Fragment} (h : Swallowed fs rest) :
    Waiting rest := by
  induction h with
  | waiting h => exact h
  | full _ _ _ _ ih => exact ih
  | restart _ _ _ ih => exact ih

theorem receive_full {fs later : List Fragment} {f : Fragment} (h : Waiting fs)
    (inside : kept fs ≠ [] → ¬ methodStart <+: f.payload)
    (noRoom : codexJsonMax ≤ (kept (fs ++ [f])).length) :
    receive [] ((fs ++ f :: later).map Fragment.bytes) =
      receive [] (later.map Fragment.bytes) := by
  rw [receive_append, receive_waiting h, receive_fragment, rxAppend_stored inside, stored,
    if_pos noRoom]
  rfl

theorem receive_method {f : Fragment} (rx : Text) (later : List Fragment)
    (method : methodStart <+: f.payload) :
    receive rx ((f :: later).map Fragment.bytes) =
      receive [] ((f :: later).map Fragment.bytes) := by
  rw [receive_fragment, receive_fragment, rxAppend_resync method]

theorem receive_restart {fs later : List Fragment} {f : Fragment} (h : Waiting fs)
    (method : methodStart <+: f.payload) :
    receive [] ((fs ++ f :: later).map Fragment.bytes) =
      receive [] ((f :: later).map Fragment.bytes) := by
  rw [receive_append, receive_waiting h]
  dsimp only
  rw [receive_method (kept fs) later method]
  rfl

theorem Swallowed.receive {fs rest : List Fragment} (h : Swallowed fs rest) :
    receive [] (fs.map Fragment.bytes) = (kept rest, []) := by
  induction h with
  | waiting h => exact receive_waiting h
  | full h inside noRoom _ ih => exact (receive_full h inside noRoom).trans ih
  | restart h method _ ih => exact (receive_restart h method).trans ih

theorem kept_single_short (f : Fragment) : (kept [f]).length < codexJsonMax := by
  have hle : (kept [f]).length ≤ f.payload.length := by
    rw [kept, carried, List.flatMap_singleton]
    exact (List.dropWhile_sublist _).length_le
  have hshort : f.payload.length ≤ 61 := f.short
  exact Nat.lt_of_le_of_lt (hle.trans hshort) (by decide)

theorem waiting_single {f : Fragment} (h : rxObjectComplete (kept [f]) = false) :
    Waiting [f] := by
  refine ⟨kept_single_short f, h, ?_⟩
  rw [each_cons]
  exact ⟨fun hk => absurd rfl hk, each_nil _⟩

theorem part_of_stored {rx : Text} (hshort : rx.length < codexJsonMax)
    (h : (stored rx).2.toList = []) : rxObjectComplete rx = false := by
  by_contra hc
  rw [Bool.not_eq_false] at hc
  rw [stored, if_neg (Nat.not_le.mpr hshort), if_pos hc] at h
  exact List.cons_ne_nil _ _ h

/-- What is handed over at the end of a stretch. -/
theorem receive_concat {fs : List Fragment} {f : Fragment} (h : Waiting fs)
    (inside : kept fs ≠ [] → ¬ methodStart <+: f.payload) :
    receive [] ((fs ++ [f]).map Fragment.bytes) =
      ((stored (kept (fs ++ [f]))).1, (stored (kept (fs ++ [f]))).2.toList) := by
  rw [receive_append, receive_waiting h, List.map_singleton]
  simp only [CodexHid.receive, setReport_fragment, rxAppend_stored inside, List.nil_append,
    List.append_nil]

/-- A fragment more, of which nothing is handed over either. -/
theorem Waiting.concat {fs : List Fragment} {f : Fragment} (h : Waiting fs)
    (quiet : (CodexHid.receive [] ((fs ++ [f]).map Fragment.bytes)).2 = []) :
    ∃ rest, Swallowed (fs ++ [f]) rest := by
  by_cases inside : kept fs ≠ [] → ¬ methodStart <+: f.payload
  · rw [receive_concat h inside] at quiet
    by_cases noRoom : codexJsonMax ≤ (kept (fs ++ [f])).length
    · exact ⟨[], .full h inside noRoom (.waiting waiting_nil)⟩
    · have hshort := Nat.lt_of_not_le noRoom
      refine ⟨_, .waiting ⟨hshort, part_of_stored hshort quiet, ?_⟩⟩
      exact each_concat.mpr ⟨h.inside, inside⟩
  · have hmethod : methodStart <+: f.payload := by
      by_contra hm
      exact inside fun _ => hm
    have halone : kept ([] : List Fragment) ≠ [] → ¬ methodStart <+: f.payload :=
      fun hk => absurd rfl hk
    rw [receive_restart h hmethod, ← List.nil_append [f], receive_concat waiting_nil halone,
      List.nil_append] at quiet
    have hpart := part_of_stored (kept_single_short f) quiet
    exact ⟨_, .restart h hmethod (.waiting (waiting_single hpart))⟩

theorem Swallowed.concat {fs rest : List Fragment} {f : Fragment} (h : Swallowed fs rest)
    (quiet : (CodexHid.receive [] ((fs ++ [f]).map Fragment.bytes)).2 = []) :
    ∃ rest', Swallowed (fs ++ [f]) rest' := by
  induction h with
  | waiting h => exact h.concat quiet
  | @full fs later rest g h inside noRoom _ ih =>
    rw [List.append_assoc, List.cons_append] at quiet ⊢
    rw [receive_full h inside noRoom] at quiet
    obtain ⟨rest', hrest⟩ := ih quiet
    exact ⟨rest', .full h inside noRoom hrest⟩
  | @restart fs later rest g h method _ ih =>
    rw [List.append_assoc, List.cons_append] at quiet ⊢
    rw [receive_restart h method] at quiet
    obtain ⟨rest', hrest⟩ := ih quiet
    exact ⟨rest', .restart h method hrest⟩

/-- Nothing is handed over of just the fragments that fall into such stretches. -/
theorem quiet_iff (fs : List Fragment) :
    (receive [] (fs.map Fragment.bytes)).2 = [] ↔ ∃ rest, Swallowed fs rest := by
  constructor
  · intro quiet
    induction fs using List.reverseRecOn with
    | nil => exact ⟨[], .waiting waiting_nil⟩
    | append_singleton fs f ih =>
      have hfs : (receive [] (fs.map Fragment.bytes)).2 = [] := by
        rw [receive_append] at quiet
        exact (List.append_eq_nil_iff.mp quiet).1
      obtain ⟨rest, hrest⟩ := ih hfs
      exact hrest.concat quiet
  · rintro ⟨rest, h⟩
    rw [h.receive]

theorem kept_eq_nil {fs : List Fragment} : kept fs = [] ↔ beginObject ∉ carried fs := by
  rw [kept, List.dropWhile_eq_nil_iff]
  constructor
  · intro h hmem
    exact absurd (h _ hmem) (by decide)
  · intro h c hc
    exact decide_eq_true fun heq => h (heq ▸ hc)

theorem waiting_of_no_brace {fs : List Fragment} (h : beginObject ∉ carried fs) : Waiting fs := by
  refine ⟨?_, ?_, ?_⟩
  · rw [kept_eq_nil.mpr h]
    decide
  · rw [kept_eq_nil.mpr h]
    rfl
  · induction fs using List.reverseRecOn with
    | nil => exact each_nil _
    | append_singleton fs f ih =>
      rw [carried_append, List.mem_append, not_or] at h
      exact each_concat.mpr ⟨ih h.1, fun hk => absurd (kept_eq_nil.mpr h.1) hk⟩

/-- An object whose later fragments have no brace, if none before them begins like a request. -/
theorem swallowed_object {O tail : Text} {fs later : List Fragment} {f : Fragment} (hO : Whole O)
    (hcarried : carried (fs ++ f :: later) = O ++ tail) (hne : carried fs ≠ [])
    (hroom : (carried fs).length < codexJsonMax) (hlong : (carried fs).length < O.length)
    (noRoom : codexJsonMax ≤ (carried fs ++ f.payload).length)
    (hmethod : ∀ g ∈ fs ++ [f], ¬ methodStart <+: g.payload)
    (hlater : beginObject ∉ carried later) : Swallowed (fs ++ f :: later) later := by
  rw [carried_append] at hcarried
  have hkept : kept fs = carried fs := by
    have hhead := hO.head_cut hcarried.symm hne
    exact dropWhile_space (w := []) (fun _ h => absurd h List.not_mem_nil) hhead
  have hwaiting : Waiting fs := by
    refine ⟨hkept ▸ hroom, ?_, Each.of_mem fun _ g hg _ => hmethod g (by simp [hg])⟩
    obtain ⟨q, hq, -⟩ := append_split hcarried.symm hlong.le
    have hqne : q ≠ [] := by
      rintro rfl
      rw [hq, List.append_nil] at hlong
      exact Nat.lt_irrefl _ hlong
    rw [hkept]
    exact (hq ▸ hO).part hqne
  refine .full hwaiting (fun _ => hmethod f (by simp)) ?_ (.waiting (waiting_of_no_brace hlater))
  rw [kept_append, if_neg (hkept ▸ hne), hkept, carried_cons]
  simpa [carried] using noRoom

def placeOf (inString : Bool) : Place := if inString then .inside else .outside

theorem placeOf_char {c : UInt8} (hc : c ≠ backslash) :
    (placeOf true).next c = placeOf (c ≠ quote) := by
  by_cases hq : c = quote
  · rw [hq]
    decide
  · rw [decide_eq_true hq]
    exact Place.inside_next hq hc

theorem placeOf_other {c : UInt8} (hq : c ≠ quote) : (placeOf false).next c = placeOf false :=
  if_neg hq

/-- Where the scan is after a text that is no complete object. -/
theorem scanObject_through {depth : ℤ} {inString : Bool} {s : Text}
    (h : scanObject depth inString s = none) (hd : 0 < depth)
    (hplace : (placeOf inString).after s = .outside) :
    ∃ d, 0 < d ∧ ∀ p, scanObject depth inString (s ++ p) = scanObject d false p := by
  fun_induction scanObject depth inString s with
  | case1 depth inString =>
    cases inString with
    | false => exact ⟨depth, hd, fun p => rfl⟩
    | true => cases hplace
  | case2 => cases hplace
  | case3 depth c q ih =>
    obtain ⟨d, hpos, hscan⟩ := ih h hd hplace
    refine ⟨d, hpos, fun p => ?_⟩
    rw [List.cons_append, List.cons_append, scanObject_escape, hscan]
  | case4 depth c p hc ih =>
    rw [Place.after, List.foldl_cons, placeOf_char hc] at hplace
    obtain ⟨d, hpos, hscan⟩ := ih h hd hplace
    refine ⟨d, hpos, fun p => ?_⟩
    rw [List.cons_append, scanObject_char depth hc, hscan]
  | case5 depth inString p hs ih =>
    rw [Bool.not_eq_true] at hs
    rw [hs] at hplace
    obtain ⟨d, hpos, hscan⟩ := ih h hd hplace
    refine ⟨d, hpos, fun p => ?_⟩
    rw [hs, List.cons_append, scanObject_quote, hscan]
  | case6 depth inString p hs _ ih =>
    rw [Bool.not_eq_true] at hs
    rw [hs] at hplace
    obtain ⟨d, hpos, hscan⟩ := ih h (Int.lt_add_one_of_le hd.le) hplace
    refine ⟨d, hpos, fun p => ?_⟩
    rw [hs, List.cons_append, scanObject_begin, hscan]
  | case7 => cases h
  | case8 depth inString p hs hne _ _ ih =>
    rw [Bool.not_eq_true] at hs
    rw [hs] at hplace
    obtain ⟨d, hpos, hscan⟩ := ih h (by omega) hplace
    refine ⟨d, hpos, fun p => ?_⟩
    rw [hs, List.cons_append, scanObject_end, if_neg hne, hscan]
  | case9 depth inString c p hs hq hb he ih =>
    rw [Bool.not_eq_true] at hs
    rw [hs, Place.after, List.foldl_cons, placeOf_other hq] at hplace
    obtain ⟨d, hpos, hscan⟩ := ih h hd hplace
    refine ⟨d, hpos, fun p => ?_⟩
    rw [hs, List.cons_append, scanObject_other depth hq hb he, hscan]

/-- What is complete from within an object is complete by itself. -/
theorem scanObject_shallow {depth : ℤ} {inString : Bool} {s r : Text} (k : ℤ) (hk : 0 ≤ k)
    (hd : 0 < depth) (h : scanObject (depth + k) inString s = some r) :
    (scanObject depth inString s).isSome := by
  fun_induction scanObject depth inString s with
  | case1 depth inString => cases h
  | case2 => simp [scanObject] at h
  | case3 depth c q ih =>
    rw [scanObject_escape] at h
    exact ih hd h
  | case4 depth c p hc ih =>
    rw [scanObject_char _ hc] at h
    exact ih hd h
  | case5 depth inString p hs ih =>
    rw [Bool.not_eq_true] at hs
    rw [hs, scanObject_quote] at h
    exact ih hd h
  | case6 depth inString p hs _ ih =>
    rw [Bool.not_eq_true] at hs
    rw [hs, scanObject_begin, Int.add_right_comm] at h
    exact ih (Int.lt_add_one_of_le hd.le) h
  | case7 => rfl
  | case8 depth inString p hs hne _ _ ih =>
    rw [Bool.not_eq_true] at hs
    have hne' : ¬ depth + k - 1 = 0 := by omega
    have hsub : depth + k - 1 = depth - 1 + k := by omega
    rw [hs, scanObject_end, if_neg hne', hsub] at h
    exact ih (by omega) h
  | case9 depth inString c p hs hq hb he ih =>
    rw [Bool.not_eq_true] at hs
    rw [hs, scanObject_other _ hq hb he] at h
    exact ih hd h

structure Request (O : Text) : Prop extends Whole O where
  proper : Proper O
  method : methodStart <+: O
  last : O.getLast? = some endObject

theorem request_object {r : JsonObject} (h : r.Legal)
    (hm : methodStart <+: objectText r.blank r.members) :
    Request (objectText r.blank r.members) := by
  refine ⟨whole_object h, ?_, hm, ?_⟩
  · exact proper_composed.object (proper_composed.members h.blank h.spaced fun m hmem =>
      proper_composed.value (h.values m hmem))
  · rw [objectText, ← List.cons_append, List.getLast?_append]
    rfl

/-- Part of a request that begins like one does not complete an object from within. -/
theorem Request.not_within {q u : Text} {d : ℤ} (hq : Whole (q ++ u)) (hu : u ≠ [])
    (hm : methodStart <+: q) (hd : 0 < d) : scanObject d false q ≠ some [] := by
  obtain ⟨b, rfl⟩ := hm
  intro hscan
  have hbegin : methodStart ++ b = beginObject :: (methodStart.tail ++ b) := rfl
  rw [hbegin, scanObject_begin, Int.add_comm d 1] at hscan
  have hshallow := scanObject_shallow d hd.le (by decide) hscan
  have hcomplete : rxObjectComplete (methodStart ++ b) = true := by
    rw [rxObjectComplete, hbegin, scanObject_begin]
    exact hshallow
  exact Bool.false_ne_true ((hq.part hu).symm.trans hcomplete)

/-- In a request no string ends where another request could begin. -/
theorem Request.place {s q : Text} (hO : Request (s ++ q)) (hm : methodStart <+: q) :
    Place.outside.after s = .outside := by
  obtain ⟨b, rfl⟩ := hm
  by_contra hplace
  have hafter : Place.outside.after (s ++ [beginObject, quote]) = .outside := by
    rw [Place.after_append]
    generalize Place.outside.after s = place at hplace ⊢
    cases place with
    | outside => exact absurd rfl hplace
    | inside | escaped => decide
  have hsplit : s ++ (methodStart ++ b) =
      s ++ [beginObject, quote] ++ ascii 'm' :: (methodStart.drop 3 ++ b) := by
    rw [List.append_assoc]
    rfl
  have hletter : Bare (ascii 'm') ∨
      ascii 'm' ∈ [quote, beginArray, endArray, beginObject, endObject] :=
    hO.proper.2 _ _ _ hsplit hafter
  exact absurd hletter (by decide)

/-- Part of a request does not complete it after something incomplete. -/
theorem Request.no_overlap {O s p tail : Text} (hO : Request O) (hs : s ≠ [])
    (hpart : rxObjectComplete s = false) (hp : p <+: O ++ tail) : ¬ O <+: s ++ p := by
  intro hsp
  have hlt : s.length < O.length := by
    by_contra hle
    have hprefix : O <+: s :=
      List.prefix_of_prefix_length_le hsp (List.prefix_append s p) (Nat.le_of_not_lt hle)
    have hcomplete := hO.complete []
    rw [List.append_nil] at hcomplete
    exact Bool.false_ne_true (hpart.symm.trans (rxObjectComplete_mono hprefix hcomplete))
  obtain ⟨q, rfl⟩ : s <+: O :=
    List.prefix_of_prefix_length_le (List.prefix_append s p) hsp hlt.le
  have hqp : q <+: p := (List.prefix_append_right_inj s).mp hsp
  obtain ⟨u, hu⟩ : q <+: s ++ q :=
    List.prefix_of_prefix_length_le (hqp.trans hp) (List.prefix_append _ tail) (by simp)
  have hq : q ≠ [] := by
    rintro rfl
    simp at hlt
  have hu' : u ≠ [] := by
    rintro rfl
    have hlen := congrArg List.length hu
    simp only [List.append_nil, List.length_append] at hlen
    exact hs (List.length_eq_zero_iff.mp (by omega))
  have hlast : endObject ∈ q := by
    have hget := hO.last
    rw [List.getLast?_append_of_ne_nil _ hq] at hget
    exact List.mem_of_getLast? hget
  have hm : methodStart <+: q := by
    rcases List.prefix_or_prefix_of_prefix hO.method ⟨u, hu⟩ with hm | hm
    · exact hm
    · exact absurd (hm.subset hlast) (by decide)
  obtain ⟨c, s', rfl⟩ := List.exists_cons_of_ne_nil hs
  obtain ⟨rest, hrest⟩ := hO.first
  obtain rfl : c = beginObject := (List.cons.inj hrest).1
  have hplace : (placeOf false).after s' = .outside := hO.place hm
  have hs' : scanObject 1 false s' = none := by
    rw [rxObjectComplete, scanObject_begin] at hpart
    simpa using hpart
  obtain ⟨d, hd, hscan⟩ := scanObject_through hs' (by decide) hplace
  have hwhole := hO.scan []
  rw [List.append_nil, List.cons_append, scanObject_begin, Int.zero_add, hscan] at hwhole
  exact Request.not_within (hu ▸ hO.toWhole) hu' hm hd hwhole

theorem head_brace {O p q tail : Text} (hO : Whole O) (hp : p ≠ []) (h : p ++ q = O ++ tail) :
    0 < braces p := by
  have hhead := hO.head_cut h.symm hp
  obtain ⟨c, p, rfl⟩ := List.exists_cons_of_ne_nil hp
  rw [hhead c rfl]
  exact List.count_pos_iff.mpr (by simp)

/-- Fragments without the first byte of an object have too few braces for it. -/
theorem receive_few {O p tail extra rx : Text} {gs : List Fragment} (hO : Whole O)
    (htail : Whitespace tail) (hp : p ≠ []) (hgs : p ++ carried gs = O ++ tail) :
    receive [] (gs.map Fragment.bytes) ≠ (rx, [O ++ extra]) := by
  intro h
  have hfew : braces (O ++ extra) ≤ braces ([] ++ carried gs) := by
    refine receive_braces gs [] _ ?_
    rw [h]
    exact List.mem_singleton_self _
  have hsum := congrArg braces hgs
  have hpos := head_brace hO hp hgs
  rw [braces_append, braces_append, braces_space htail] at hsum
  rw [List.nil_append, braces_append] at hfew
  omega

/-- A request of which the first fragment does not begin like one is lost on a buffer with
bytes in it. -/
theorem receive_stale {O s tail : Text} (hO : Request O) (htail : Whitespace tail) (hs : s ≠ [])
    (hpart : rxObjectComplete s = false) {p : Text} {gs : List Fragment}
    (hgs : p ++ carried gs = O ++ tail)
    (hfirst : p = [] → ∀ g ∈ gs.head?, ¬ methodStart <+: g.payload) (extra : Text) :
    receive (s ++ p) (gs.map Fragment.bytes) ≠ ([], [O ++ extra]) := by
  induction gs generalizing p with
  | nil =>
    intro h
    cases (Prod.mk.inj h).2
  | cons g gs ih =>
    have hnext : p ++ g.payload ++ carried gs = O ++ tail := by
      rw [← hgs, carried_cons, List.append_assoc]
    have hne : p ++ g.payload ≠ [] := by simp [g.nonempty]
    by_cases hmethod : methodStart <+: g.payload
    · have hp : p ≠ [] := fun hp => hfirst hp g rfl hmethod
      rw [receive_method _ _ hmethod]
      exact receive_few hO.toWhole htail hp hgs
    · have hkept : s ++ p ≠ [] := by simp [hs]
      rw [receive_fragment, rxAppend_kept hkept hmethod, rxStore_stored (Or.inr g.nonempty),
        List.append_assoc]
      by_cases hroom : codexJsonMax ≤ (s ++ (p ++ g.payload)).length
      · rw [stored, if_pos hroom]
        exact receive_few hO.toWhole htail hne hnext
      · by_cases hcomplete : rxObjectComplete (s ++ (p ++ g.payload)) = true
        · rw [stored, if_neg hroom, if_pos hcomplete]
          intro h
          have htext : cstr (s ++ (p ++ g.payload)) = O ++ extra :=
            (List.cons.inj (Prod.mk.inj h).2).1
          have hprefix : O <+: s ++ (p ++ g.payload) :=
            (List.prefix_append O extra).trans (htext ▸ List.takeWhile_prefix _)
          exact hO.no_overlap hs hpart ⟨_, hnext⟩ hprefix
        · rw [stored, if_neg hroom, if_neg hcomplete]
          exact ih hnext fun hnil => absurd hnil hne

/-- Of the fragments `fs` nothing is handed over, and the request in the fragments `gs` after
them once and intact. -/
def DroppedWhole (fs : List Fragment) (r : JsonObject) (gs : List Fragment) : Prop :=
  let O := objectText r.blank r.members
  (receive [] (fs.map Fragment.bytes)).2 = [] ∧
    Reassembles O (r.lead.length + O.length) (receive [] (fs.map Fragment.bytes)).1 gs

/-- A request that begins like one has nothing before its object. -/
theorem request_text {r : JsonObject} (h : r.Legal) (hm : methodStart <+: r.text) :
    r.lead = [] ∧ Request (objectText r.blank r.members) := by
  have hlead : r.lead = [] := by
    by_contra hne
    obtain ⟨c, w, hw⟩ := List.exists_cons_of_ne_nil hne
    obtain ⟨b, hb⟩ := hm
    rw [JsonObject.text, hw] at hb
    have hc : beginObject = c := (List.cons.inj hb).1
    have hspace : IsWs c := h.lead c (by simp [hw])
    exact absurd (hc ▸ hspace) (by decide)
  refine ⟨hlead, request_object h ?_⟩
  have hprefix : objectText r.blank r.members <+: r.text := by
    rw [JsonObject.text, hlead]
    exact List.prefix_append _ _
  rcases List.prefix_or_prefix_of_prefix hm hprefix with hm | hshort
  · exact hm
  · have hend : endObject ∈ objectText r.blank r.members := by simp [objectText]
    exact absurd (hshort.subset hend) (by decide)

theorem carried_request {r : JsonObject} (h : r.Legal) (hlead : r.lead = []) {gs : List Fragment}
    (hgs : carried gs = r.text ∨ carried gs = r.text ++ text "\n") :
    ∃ tail, Whitespace tail ∧ carried gs = objectText r.blank r.members ++ tail := by
  rw [JsonObject.text, hlead, List.nil_append] at hgs
  rcases hgs with hgs | hgs
  · exact ⟨r.trail, h.trail, hgs⟩
  · refine ⟨r.trail ++ text "\n", whitespace_append.mpr ⟨h.trail, by decide⟩, ?_⟩
    rw [hgs, List.append_assoc]

/-- Whatever the fragments `fs` carry and however the request is cut: they are dropped whole
and the request is handed over, if and only if they fall into stretches that are dropped, no
brace stays behind unless the request's first fragment begins like a request, and all its
fragments are harmless. -/
theorem droppedWhole_iff (fs : List Fragment) {r : JsonObject} (h : r.Legal)
    (hshort : r.text.length < codexJsonMax) (hm : methodStart <+: r.text) {gs : List Fragment}
    (hgs : carried gs = r.text ∨ carried gs = r.text ++ text "\n") :
    DroppedWhole fs r gs ↔
      (∃ rest, Swallowed fs rest ∧
        (beginObject ∈ carried rest → ∃ g ∈ gs.head?, methodStart <+: g.payload)) ∧
      AllHarmless r.lead.length (r.lead.length + (objectText r.blank r.members).length) 0 gs := by
  obtain ⟨hlead, hrequest⟩ := request_text h hm
  have halone := (reassembles_iff h hshort).1 gs hgs
  have hsame {rest : List Fragment}
      (hbehind : beginObject ∈ carried rest → ∃ g ∈ gs.head?, methodStart <+: g.payload) :
      receive (kept rest) (gs.map Fragment.bytes) = receive [] (gs.map Fragment.bytes) := by
    by_cases hbrace : beginObject ∈ carried rest
    · obtain ⟨g, hg, hmethod⟩ := hbehind hbrace
      cases gs with
      | nil => cases hg
      | cons g' gs =>
        cases hg
        exact receive_method (kept rest) gs hmethod
    · rw [kept_eq_nil.mpr hbrace]
  constructor
  · rintro ⟨hquiet, hreassembles⟩
    obtain ⟨rest, hrest⟩ := (quiet_iff fs).mp hquiet
    rw [hrest.receive] at hreassembles
    have hbehind : beginObject ∈ carried rest → ∃ g ∈ gs.head?, methodStart <+: g.payload := by
      intro hbrace
      by_contra hfirst
      have hkept : kept rest ≠ [] := fun hnil => kept_eq_nil.mp hnil hbrace
      obtain ⟨tail, htail, hcarried⟩ := carried_request h hlead hgs
      obtain ⟨extra, -, hreceive⟩ := hreassembles
      have hstale := receive_stale hrequest htail hkept hrest.rest_waiting.part
        (p := []) hcarried (fun _ g hg hmethod => hfirst ⟨g, hg, hmethod⟩) extra
      rw [List.append_nil] at hstale
      exact hstale hreceive
    refine ⟨⟨rest, hrest, hbehind⟩, halone.mp ?_⟩
    rw [Reassembles, hsame hbehind] at hreassembles
    exact hreassembles
  · rintro ⟨⟨rest, hrest, hbehind⟩, hharmless⟩
    refine ⟨(quiet_iff fs).mpr ⟨rest, hrest⟩, ?_⟩
    rw [hrest.receive, Reassembles, hsame hbehind]
    exact halone.mpr hharmless

def request : JsonObject where
  lead := []
  blank := []
  members := [⟨[], text "method", [], [], text "1", []⟩]
  trail := []

def requestCut : List Fragment :=
  [⟨text "\x7b\"meth", true, [], by decide, by decide⟩,
    ⟨text "od\":1\x7d", false, [0], by decide, by decide⟩]

theorem request_legal : request.Legal := by
  have hname : Chars (text "method") := chars_of_unescaped (by decide)
  have hone : Value (text "1") := value_int (Or.inr ⟨⟨by decide, by decide⟩, by decide⟩)
  refine ⟨by decide, by decide, fun m hm => ?_, fun m hm => ?_, by decide⟩ <;>
    rw [List.mem_singleton.mp hm]
  · exact ⟨by decide, hname, by decide, by decide, by decide⟩
  · exact hone

/-- Letters, as many as there are in two fragments more than fill the buffer up. -/
def letters : Text := List.replicate 600 (ascii 'x')

def letterFragment : Fragment :=
  ⟨List.replicate 60 (ascii 'x'), false, [], by decide, by decide⟩

theorem letters_chars : Chars letters := by
  refine chars_of_unescaped fun c hc => ?_
  rw [List.eq_of_mem_replicate hc]
  decide

def longMember : Member := ⟨[], text "a", [], [], quoted letters, []⟩

theorem longMember_spaced : longMember.Spaced :=
  ⟨by decide, chars_of_unescaped (by decide), by decide, by decide, by decide⟩

def longMessage : JsonObject := ⟨[], [], [longMember], []⟩

theorem longMessage_legal : longMessage.Legal := by
  refine ⟨by decide, by decide, fun m hm => ?_, fun m hm => ?_, by decide⟩ <;>
    rw [List.mem_singleton.mp hm]
  · exact longMember_spaced
  · exact .string letters_chars

def longHead : Fragment := ⟨text "\x7b\"a\":\"", true, [], by decide, by decide⟩

def longTail : List Fragment := [letterFragment, ⟨text "\"\x7d", true, [], by decide, by decide⟩]

def longCut : List Fragment :=
  longHead :: List.replicate 8 letterFragment ++ letterFragment :: longTail

theorem droppedWhole_iff_long :
    longMessage.Legal ∧ codexJsonMax ≤ longMessage.text.length ∧
      carried longCut = longMessage.text ∧ DroppedWhole longCut request requestCut := by
  have hcarried : carried longCut = objectText [] [longMember] ++ [] := by decide +kernel
  have hlong : codexJsonMax ≤ (objectText [] [longMember]).length := by decide +kernel
  have hswallowed : Swallowed longCut longTail :=
    swallowed_object (whole_object longMessage_legal) hcarried (by decide) (by decide +kernel)
      (by decide +kernel) (by decide +kernel) (by decide +kernel) (by decide +kernel)
  refine ⟨longMessage_legal, by simpa [JsonObject.text, longMessage] using hlong,
    by simpa [JsonObject.text, longMessage] using hcarried, ?_⟩
  refine (droppedWhole_iff longCut request_legal (by decide) (by decide) (Or.inl (by decide))).mpr
    ⟨⟨longTail, hswallowed, fun hbrace => absurd hbrace (by decide +kernel)⟩, by decide⟩

def nestedMessage : JsonObject where
  lead := []
  blank := []
  members := [longMember,
    ⟨[], text "b", [], [], objectText [] [⟨[], text "c", [], [], text "1", []⟩], []⟩]
  trail := []

theorem nestedMessage_legal : nestedMessage.Legal := by
  have hb : Chars (text "b") := chars_of_unescaped (by decide)
  have hc : Chars (text "c") := chars_of_unescaped (by decide)
  have hone : Value (text "1") := value_int (Or.inr ⟨⟨by decide, by decide⟩, by decide⟩)
  have hobject : Value (objectText [] [⟨[], text "c", [], [], text "1", []⟩]) := by
    refine .object (by decide) (fun m hm => ?_) fun m hm => ?_ <;> rw [List.mem_singleton.mp hm]
    · exact ⟨by decide, hc, by decide, by decide, by decide⟩
    · exact hone
  refine ⟨by decide, by decide, fun m hm => ?_, fun m hm => ?_, by decide⟩
  · rcases List.mem_pair.mp hm with rfl | rfl
    · exact longMember_spaced
    · exact ⟨by decide, hb, by decide, by decide, by decide⟩
  · rcases List.mem_pair.mp hm with rfl | rfl
    · exact .string letters_chars
    · exact hobject

def nestedCut : List Fragment :=
  longHead :: List.replicate 10 letterFragment ++
    [⟨text "\",\"b\":", true, [], by decide, by decide⟩,
      ⟨text "\x7b\"c\":1\x7d\x7d", true, [], by decide, by decide⟩]

/-- An object in what comes after the drop is handed over. -/
theorem nested_tail_handed_over :
    nestedMessage.Legal ∧ codexJsonMax ≤ nestedMessage.text.length ∧
      carried nestedCut = nestedMessage.text ∧
      receive [] (nestedCut.map Fragment.bytes) = ([], [text "\x7b\"c\":1\x7d\x7d"]) ∧
      ¬ DroppedWhole nestedCut request requestCut := by
  have hreceive : receive [] (nestedCut.map Fragment.bytes) =
      ([], [text "\x7b\"c\":1\x7d\x7d"]) := by decide +kernel
  refine ⟨nestedMessage_legal, by decide +kernel, by decide +kernel, hreceive, fun h => ?_⟩
  have hquiet := h.1
  rw [hreceive] at hquiet
  exact List.cons_ne_nil _ _ hquiet

end ZephyrApps.HidOverflow
