import ZephyrApps.JsonTexts

/-!
# Looking up a member of a JSON object

`codex_json.c` on the text before the NUL. A pointer into the text is what follows it
there; at the end of the text it points at the NUL.
-/
namespace ZephyrApps.CodexJson
open CStrings JsonTexts

/-- `skip_ws` -/
def skipWs : Text → Text
  | [] => []
  | c :: p => if c = ascii ' ' ∨ c = 0x09 ∨ c = 0x0A ∨ c = 0x0D then skipWs p else c :: p

/-- The loop of `skip_string`, after the opening quote. -/
def stringRest : Text → Option Text
  | [] => none
  | c :: p =>
    if c = quote then some p
    else if c = 0 then none
    else
      match p with
      | [] => none
      | d :: q => if c = backslash ∧ d ≠ 0 then stringRest q else stringRest (d :: q)

/-- `skip_string` -/
def skipString (p : Text) : Option Text := stringRest p.tail

theorem skipWs_length (p : Text) : (skipWs p).length ≤ p.length := by
  fun_induction skipWs p with
  | case1 => exact Nat.le_refl _
  | case2 c p _ ih => exact Nat.le_succ_of_le ih
  | case3 => exact Nat.le_refl _

theorem stringRest_length {p q : Text} (h : stringRest p = some q) : q.length < p.length := by
  fun_induction stringRest p with
  | case1 => cases h
  | case2 p =>
    cases h
    exact Nat.lt_succ_self _
  | case3 => cases h
  | case4 => cases h
  | case5 c _ _ d p _ ih =>
    have hlt := ih h
    simp only [List.length_cons]
    omega
  | case6 c _ _ d p _ ih =>
    have hlt := ih h
    simp only [List.length_cons] at hlt ⊢
    omega

/-- The loop of `skip_value` over an object or an array. -/
def skipNested (depth : ℤ) (p : Text) : Option Text :=
  match p with
  | [] => none
  | c :: p =>
    if c = quote then
      match _h : stringRest p with
      | none => none
      | some q => if 0 < depth then skipNested depth q else some q
    else if c = beginObject ∨ c = beginArray then
      if 0 < depth + 1 then skipNested (depth + 1) p else some p
    else if c = endObject ∨ c = endArray then
      if 0 < depth - 1 then skipNested (depth - 1) p else some p
    else if c = 0 then none
    else if 0 < depth then skipNested depth p
    else some p
termination_by p.length
decreasing_by
  · have hlt := stringRest_length _h
    simp only [List.length_cons]
    omega
  all_goals simp

def skipScalar : Text → Text
  | [] => []
  | c :: p => if c ≠ 0 ∧ c ∉ text ",\x7d] \t\n\r" then skipScalar p else c :: p

/-- `skip_value` -/
def skipValue (p : Text) : Option Text :=
  if p.head? = some quote then skipString p
  else if p.head? = some beginObject ∨ p.head? = some beginArray then skipNested 0 p
  else some (skipScalar p)

theorem skipNested_length {depth : ℤ} {p q : Text} (h : skipNested depth p = some q) :
    q.length < p.length := by
  fun_induction skipNested depth p with
  | case1 | case2 | case9 => cases h
  | case3 depth p r hr hd ih =>
    have hlt := stringRest_length hr
    have hq := ih h
    simp only [List.length_cons]
    omega
  | case4 depth p r hr hd =>
    cases h
    exact Nat.lt_succ_of_lt (stringRest_length hr)
  | case5 _ c p _ _ _ ih | case7 _ c p _ _ _ _ ih | case10 _ c p _ _ _ _ _ ih =>
    exact Nat.lt_succ_of_lt (ih h)
  | case6 | case8 | case11 =>
    cases h
    exact Nat.lt_succ_self _

theorem skipScalar_length (p : Text) : (skipScalar p).length ≤ p.length := by
  fun_induction skipScalar p with
  | case1 => exact Nat.le_refl _
  | case2 c p _ ih => exact Nat.le_succ_of_le ih
  | case3 => exact Nat.le_refl _

theorem skipValue_length {p q : Text} (h : skipValue p = some q) : q.length ≤ p.length := by
  unfold skipValue at h
  split at h
  · have := stringRest_length h
    simp only [List.length_tail] at this
    omega
  · split at h
    · exact (skipNested_length h).le
    · cases h
      exact skipScalar_length p

structure Entry where
  name : Text
  nameEnd : Text
  value : Text
  valueEnd : Text

/-- A round of the loop of `codex_json_member` up to the comparison of the name. -/
def readMember (p : Text) : Option Entry :=
  match skipWs p with
  | [] => none
  | c :: name =>
    if c ≠ quote then none
    else
      (skipString (c :: name)).bind fun nameEnd =>
        match skipWs nameEnd with
        | [] => none
        | c :: rest =>
          if c ≠ ascii ':' then none
          else
            let value := skipWs rest
            (skipValue value).map fun valueEnd => ⟨name, nameEnd, value, valueEnd⟩

theorem readMember_length {p : Text} {e : Entry} (h : readMember p = some e) :
    e.valueEnd.length < p.length := by
  have hp := skipWs_length p
  unfold readMember at h
  split at h
  · cases h
  next c name hname =>
    rw [hname, List.length_cons] at hp
    split at h
    · cases h
    · obtain ⟨nameEnd, hn, h⟩ := Option.bind_eq_some_iff.mp h
      have hlt : nameEnd.length < name.length := stringRest_length hn
      have hle := skipWs_length nameEnd
      split at h
      · cases h
      next c rest hrest =>
        rw [hrest, List.length_cons] at hle
        split at h
        · cases h
        · obtain ⟨valueEnd, hv, rfl⟩ := Option.map_eq_some_iff.mp h
          have hvalue := skipValue_length hv
          have hrest := skipWs_length rest
          dsimp only
          omega

/-- The loop of `codex_json_member`: the value and its length. -/
def memberLoop (key : Text) (p : Text) : Option (Text × ℕ) :=
  match _h : readMember p with
  | none => none
  | some e =>
    let nameLen := e.name.length - e.nameEnd.length - 1
    if nameLen = key.length ∧ e.name.take key.length = key then
      some (e.value, e.value.length - e.valueEnd.length)
    else
      match _hn : skipWs e.valueEnd with
      | [] => none
      | c :: next => if c ≠ ascii ',' then none else memberLoop key next
termination_by p.length
decreasing_by
  have hread := readMember_length _h
  have hws := skipWs_length e.valueEnd
  rw [_hn, List.length_cons] at hws
  omega

/-- `codex_json_member` -/
def codexJsonMember (json key : Text) : Option (Text × ℕ) :=
  match skipWs json with
  | [] => none
  | c :: p => if c ≠ beginObject then none else memberLoop key p

/-- `codex_json_str_eq`, of a value that is not `NULL`. -/
def codexJsonStrEq (val : Text) (len : ℕ) (expect : Text) : Bool :=
  decide (len = expect.length + 2 ∧ val.head? = some quote) &&
    decide (val.tail.take expect.length = expect)

theorem skipWs_append {w p : Text} (hw : Whitespace w) (hp : StartsDark p) :
    skipWs (w ++ p) = p := by
  induction w with
  | nil =>
    cases p with
    | nil => rfl
    | cons c p =>
      have hc : ¬ IsWs c := hp c rfl
      rw [List.nil_append, skipWs]
      exact if_neg hc
  | cons c w ih =>
    have hc : IsWs c := hw c (by simp)
    rw [List.cons_append, skipWs]
    exact (if_pos hc).trans (ih fun x hx => hw x (by simp [hx]))

theorem stringRest_quote (p : Text) : stringRest (quote :: p) = some p := by
  unfold stringRest
  rw [if_pos rfl]

theorem stringRest_unescaped {c : UInt8} {p : Text} (hq : c ≠ quote) (h0 : c ≠ 0)
    (hb : c ≠ backslash) : stringRest (c :: p) = stringRest p := by
  conv_lhs => unfold stringRest
  rw [if_neg hq, if_neg h0]
  cases p with
  | nil => simp [stringRest]
  | cons d q => exact if_neg fun h => hb h.1

theorem stringRest_escaped {d : UInt8} {p : Text} (hd : d ≠ 0) :
    stringRest (backslash :: d :: p) = stringRest p := by
  conv_lhs => unfold stringRest
  rw [if_neg (by decide), if_neg (by decide)]
  exact if_pos ⟨rfl, hd⟩

theorem stringRest_chars {s : Text} (h : Chars s) (p : Text) :
    stringRest (s ++ quote :: p) = some p := by
  induction h with
  | nil => exact stringRest_quote p
  | unescaped printable noQuote noEscape _ ih =>
    rw [List.cons_append, stringRest_unescaped noQuote ?_ noEscape, ih]
    rintro rfl
    exact absurd printable (by decide)
  | escape short _ ih =>
    rw [List.cons_append, List.cons_append, stringRest_escaped ?_, ih]
    rintro rfl
    exact absurd short (by decide)
  | @unicode a b c d rest hex _ ih =>
    have hdigit {x : UInt8} (hx : x ∈ [a, b, c, d]) (q : Text) :
        stringRest (x :: q) = stringRest q := by
      obtain ⟨hq, h0, hb⟩ := digit_plain (hex x hx)
      exact stringRest_unescaped hq h0 hb
    simp only [List.cons_append]
    rw [stringRest_escaped (by decide), hdigit (by simp), hdigit (by simp), hdigit (by simp),
      hdigit (by simp), ih]

theorem skipNested_string {depth : ℤ} (hd : 0 < depth) {s : Text} (hs : Chars s) (p : Text) :
    skipNested depth (quoted s ++ p) = skipNested depth p := by
  have hrest : stringRest (s ++ [quote] ++ p) = some p := by
    rw [List.append_assoc]
    exact stringRest_chars hs p
  rw [quoted, List.cons_append, List.cons_append, skipNested, if_pos rfl]
  split
  next hnone =>
    rw [hrest] at hnone
    cases hnone
  next q hq =>
    cases hrest.symm.trans hq
    exact if_pos hd

theorem skipNested_plain {depth : ℤ} (hd : 0 < depth) {c : UInt8} (hc : Plain c) (p : Text) :
    skipNested depth (c :: p) = skipNested depth p := by
  have hopen : ¬ (c = beginObject ∨ c = beginArray) := not_or.mpr ⟨hc.object.1, hc.array.1⟩
  have hclose : ¬ (c = endObject ∨ c = endArray) := not_or.mpr ⟨hc.object.2, hc.array.2⟩
  rw [skipNested, if_neg hc.quote, if_neg hopen, if_neg hclose, if_neg hc.nul, if_pos hd]

theorem skipNested_begin {depth : ℤ} (hd : 0 ≤ depth) {c : UInt8}
    (hc : c = beginObject ∨ c = beginArray) (p : Text) :
    skipNested depth (c :: p) = skipNested (depth + 1) p := by
  have hq : c ≠ quote := by rcases hc with rfl | rfl <;> decide
  rw [skipNested, if_neg hq, if_pos hc, if_pos (Int.lt_add_one_of_le hd)]

theorem skipNested_end {depth : ℤ} {c : UInt8} (hc : c = endObject ∨ c = endArray) (p : Text) :
    skipNested (depth + 1) (c :: p) = if 0 < depth then skipNested depth p else some p := by
  have hq : c ≠ quote := by rcases hc with rfl | rfl <;> decide
  have hopen : ¬ (c = beginObject ∨ c = beginArray) := by rcases hc with rfl | rfl <;> decide
  rw [skipNested, if_neg hq, if_neg hopen, if_pos hc, Int.add_sub_cancel]

/-- The loop passes over what stands between brackets. -/
theorem skipNested_closed :
    Closed fun s => ∀ depth : ℤ, 0 < depth → ∀ p,
      skipNested depth (s ++ p) = skipNested depth p where
  nil depth hd p := rfl
  append hs ht depth hd p := by rw [List.append_assoc, hs depth hd, ht depth hd]
  plain hc depth hd p := skipNested_plain hd hc p
  string hs depth hd p := skipNested_string hd hs p
  array hs depth hd p := by
    rw [List.cons_append, List.append_assoc, skipNested_begin hd.le (Or.inr rfl),
      hs _ (Int.lt_add_one_of_le hd.le), List.singleton_append, skipNested_end (Or.inr rfl),
      if_pos hd]
  object hs depth hd p := by
    rw [List.cons_append, List.append_assoc, skipNested_begin hd.le (Or.inl rfl),
      hs _ (Int.lt_add_one_of_le hd.le), List.singleton_append, skipNested_end (Or.inl rfl),
      if_pos hd]

theorem skipNested_whole {b e : UInt8} (hb : b = beginObject ∨ b = beginArray)
    (he : e = endObject ∨ e = endArray) {s : Text}
    (hs : ∀ depth : ℤ, 0 < depth → ∀ p, skipNested depth (s ++ p) = skipNested depth p) (p : Text) :
    skipNested 0 (b :: (s ++ [e]) ++ p) = some p := by
  rw [List.cons_append, List.append_assoc, skipNested_begin le_rfl hb, hs _ (by decide),
    List.singleton_append, skipNested_end he, if_neg (by decide)]

def Stops (p : Text) : Prop :=
  ∀ c ∈ p.head?, IsWs c ∨ c = valueSeparator ∨ c = endObject ∨ c = endArray

theorem skipScalar_append {s p : Text} (hs : ∀ c ∈ s, ScalarChar c) (hp : Stops p) :
    skipScalar (s ++ p) = p := by
  induction s with
  | nil =>
    cases p with
    | nil => rfl
    | cons c p =>
      have hc : c ∈ text ",\x7d] \t\n\r" := by
        rcases hp c rfl with (rfl | rfl | rfl | rfl) | rfl | rfl | rfl <;> decide
      exact if_neg fun h => h.2 hc
  | cons c s ih =>
    have hc : ScalarChar c := hs c (by simp)
    have hstop : c ∉ text ",\x7d] \t\n\r" := by
      intro hmem
      have hne : ∀ x ∈ text ",\x7d] \t\n\r", ¬ ScalarChar x := by decide
      exact hne c hmem hc
    rw [List.cons_append, skipScalar, if_pos ⟨hc.plain.nul, hstop⟩]
    exact ih fun x hx => hs x (by simp [hx])

theorem skipValue_begin {c : UInt8} (hc : c = beginObject ∨ c = beginArray) (p : Text) :
    skipValue (c :: p) = skipNested 0 (c :: p) := by
  have hq : c ≠ quote := by rcases hc with rfl | rfl <;> decide
  have hhead : (c :: p).head? = some beginObject ∨ (c :: p).head? = some beginArray := by
    simpa using hc
  rw [skipValue, if_neg (by simpa using hq), if_pos hhead]

theorem skipValue_value {v p : Text} (hv : Value v) (hp : Stops p) :
    skipValue (v ++ p) = some p := by
  cases hv with
  | scalar h =>
    obtain ⟨c, s, rfl⟩ := List.exists_cons_of_ne_nil h.ne_nil
    have hc : Plain c := (h.chars c (by simp)).plain
    have hnested : ¬ ((c :: s ++ p).head? = some beginObject ∨
        (c :: s ++ p).head? = some beginArray) := by
      simp [hc.object.1, hc.array.1]
    rw [skipValue, if_neg (by simp [hc.quote]), if_neg hnested, skipScalar_append h.chars hp]
  | @string s h =>
    have hrest : skipValue (quoted s ++ p) = stringRest (s ++ [quote] ++ p) := if_pos rfl
    rw [hrest, List.append_assoc]
    exact stringRest_chars h p
  | array hb spaced values =>
    have hinner := skipNested_closed.elements hb spaced fun e he =>
      skipNested_closed.value (values e he)
    have hwhole := skipNested_whole (Or.inr rfl) (Or.inr rfl) hinner p
    exact (skipValue_begin (Or.inr rfl) _).trans hwhole
  | object hb spaced values =>
    have hinner := skipNested_closed.members hb spaced fun m hm =>
      skipNested_closed.value (values m hm)
    have hwhole := skipNested_whole (Or.inl rfl) (Or.inl rfl) hinner p
    exact (skipValue_begin (Or.inl rfl) _).trans hwhole

theorem Stops.space {w p : Text} (hw : Whitespace w) (hp : Stops p) : Stops (w ++ p) := by
  cases w with
  | nil => exact hp
  | cons c w =>
    intro d hd
    cases hd
    exact Or.inl (hw c (by simp))

theorem skipWs_cons {w : Text} (hw : Whitespace w) {c : UInt8} (hc : ¬ IsWs c) (p : Text) :
    skipWs (w ++ c :: p) = c :: p := by
  refine skipWs_append hw fun d hd => ?_
  cases hd
  exact hc

/-- A member and what follows it, from one point after the other. -/
theorem member_text (m : Member) (p : Text) :
    m.text ++ p = m.before ++ quote :: (m.name ++ quote :: (m.afterName ++ nameSeparator ::
      (m.beforeValue ++ (m.value ++ (m.afterValue ++ p))))) := by
  simp [Member.text, quoted]

theorem readMember_member {m : Member} (h : m.Spaced) (hv : Value m.value) {p : Text}
    (hp : Stops p) :
    ∃ e, readMember (m.text ++ p) = some e ∧ e.name = m.name ++ quote :: e.nameEnd ∧
      e.value = m.value ++ (m.afterValue ++ p) ∧ e.valueEnd = m.afterValue ++ p := by
  let value := m.value ++ (m.afterValue ++ p)
  let nameEnd := m.afterName ++ nameSeparator :: (m.beforeValue ++ value)
  have hname : skipWs (m.text ++ p) = quote :: (m.name ++ quote :: nameEnd) := by
    rw [member_text]
    exact skipWs_cons h.before (by decide) _
  have hstring : skipString (quote :: (m.name ++ quote :: nameEnd)) = some nameEnd :=
    stringRest_chars h.name nameEnd
  have hcolon : skipWs nameEnd = nameSeparator :: (m.beforeValue ++ value) :=
    skipWs_cons h.afterName (by decide) _
  have hvalue : skipWs (m.beforeValue ++ value) = value :=
    skipWs_append h.beforeValue (hv.startsDark _)
  have hend : skipValue value = some (m.afterValue ++ p) :=
    skipValue_value hv (hp.space h.afterValue)
  refine ⟨⟨m.name ++ quote :: nameEnd, nameEnd, value, m.afterValue ++ p⟩, ?_, rfl, rfl, rfl⟩
  rw [readMember, hname]
  dsimp only
  rw [if_neg (by decide), hstring, Option.bind_some, hcolon]
  dsimp only
  rw [if_neg (by decide), hvalue, hend, Option.map_some]

/-- The comparison of the name with the key. -/
theorem name_matches {e : Entry} {name : Text} (h : e.name = name ++ quote :: e.nameEnd)
    (key : Text) :
    (e.name.length - e.nameEnd.length - 1 = key.length ∧ e.name.take key.length = key) ↔
      name = key := by
  have hlen : e.name.length - e.nameEnd.length - 1 = name.length := by
    rw [h, List.length_append, List.length_cons]
    omega
  rw [hlen, h]
  constructor
  · rintro ⟨hl, ht⟩
    rwa [← hl, List.take_left' rfl] at ht
  · rintro rfl
    exact ⟨rfl, List.take_left' rfl⟩

/-- What the loop does at a member that another one or the end of the object follows. -/
theorem memberLoop_member {m : Member} (h : m.Spaced) (hv : Value m.value) (key : Text)
    {c : UInt8} (hc : c = valueSeparator ∨ c = endObject) (p : Text) :
    memberLoop key (m.text ++ c :: p) =
      if m.name = key then some (m.value ++ (m.afterValue ++ c :: p), m.value.length)
      else if c = valueSeparator then memberLoop key p else none := by
  have hstops : Stops (c :: p) := by
    intro d hd
    cases hd
    rcases hc with rfl | rfl
    · exact Or.inr (Or.inl rfl)
    · exact Or.inr (Or.inr (Or.inl rfl))
  have hdark : ¬ IsWs c := by rcases hc with rfl | rfl <;> decide
  obtain ⟨e, hread, hname, hvalue, hend⟩ := readMember_member h hv hstops
  have hnext : skipWs e.valueEnd = c :: p := by
    rw [hend]
    exact skipWs_cons h.afterValue hdark p
  have hlen : e.value.length - e.valueEnd.length = m.value.length := by
    rw [hvalue, hend, List.length_append, Nat.add_sub_cancel]
  rw [memberLoop]
  split
  next hnone =>
    rw [hread] at hnone
    cases hnone
  next e' he' =>
    cases hread.symm.trans he'
    dsimp only
    by_cases hm : m.name = key
    · rw [if_pos ((name_matches hname key).mpr hm), if_pos hm, hlen, hvalue]
    · rw [if_neg (mt (name_matches hname key).mp hm), if_neg hm]
      split
      next hnil =>
        rw [hnext] at hnil
        cases hnil
      next d next hcons =>
        cases hnext.symm.trans hcons
        have hcomma : valueSeparator = ascii ',' := rfl
        rcases hc with rfl | rfl
        · rw [if_neg (not_not_intro hcomma), if_pos rfl]
        · rw [if_pos (by decide), if_neg (by decide)]

/-- What follows a member in an object, with `after` the members after it. -/
def restOf (o : JsonObject) (after : List Member) : Text :=
  after.flatMap (fun m => valueSeparator :: m.text) ++ endObject :: o.trail

def fromValue (o : JsonObject) (m : Member) (after : List Member) : Text :=
  m.value ++ (m.afterValue ++ restOf o after)

theorem memberLoop_last (o : JsonObject) {m : Member} (h : m.Spaced) (hv : Value m.value)
    (key : Text) :
    memberLoop key (m.text ++ restOf o []) =
      if m.name = key then some (fromValue o m [], m.value.length) else none :=
  memberLoop_member h hv key (Or.inr rfl) o.trail

theorem memberLoop_next (o : JsonObject) {m : Member} (h : m.Spaced) (hv : Value m.value)
    (key : Text) (x : Member) (after : List Member) :
    memberLoop key (m.text ++ restOf o (x :: after)) =
      if m.name = key then some (fromValue o m (x :: after), m.value.length)
      else memberLoop key (x.text ++ restOf o after) := by
  have hrest : restOf o (x :: after) = valueSeparator :: (x.text ++ restOf o after) := by
    simp [restOf]
  rw [fromValue, hrest, memberLoop_member h hv key (Or.inl rfl), if_pos rfl]

theorem memberLoop_found (o : JsonObject) {key : Text} {m x : Member} {after pre post : List Member}
    (hms : m :: after = pre ++ x :: post) (spaced : ∀ y ∈ m :: after, y.Spaced)
    (values : ∀ y ∈ m :: after, Value y.value) (hx : x.name = key)
    (hpre : ∀ y ∈ pre, y.name ≠ key) :
    memberLoop key (m.text ++ restOf o after) = some (fromValue o x post, x.value.length) := by
  have hs : m.Spaced := spaced m (by simp)
  have hv : Value m.value := values m (by simp)
  induction pre generalizing m after with
  | nil =>
    obtain ⟨rfl, rfl⟩ := List.cons.inj hms
    cases after with
    | nil => rw [memberLoop_last o hs hv, if_pos hx]
    | cons y after => rw [memberLoop_next o hs hv, if_pos hx]
  | cons y pre ih =>
    obtain ⟨rfl, hafter⟩ := List.cons.inj hms
    cases after with
    | nil => simp at hafter
    | cons z after =>
      rw [memberLoop_next o hs hv, if_neg (hpre m (by simp))]
      refine ih hafter (fun w hw => spaced w (by simp [hw])) (fun w hw => values w (by simp [hw]))
        (fun w hw => hpre w (by simp [hw])) ?_ ?_
      · exact spaced z (by simp)
      · exact values z (by simp)

theorem memberLoop_absent (o : JsonObject) {key : Text} {m : Member} {after : List Member}
    (spaced : ∀ y ∈ m :: after, y.Spaced) (values : ∀ y ∈ m :: after, Value y.value)
    (h : ∀ y ∈ m :: after, y.name ≠ key) : memberLoop key (m.text ++ restOf o after) = none := by
  induction after generalizing m with
  | nil =>
    rw [memberLoop_last o (spaced m (by simp)) (values m (by simp)), if_neg (h m (by simp))]
  | cons z after ih =>
    rw [memberLoop_next o (spaced m (by simp)) (values m (by simp)), if_neg (h m (by simp))]
    exact ih (fun w hw => spaced w (by simp [hw])) (fun w hw => values w (by simp [hw]))
      fun w hw => h w (by simp [hw])

theorem codexJsonMember_text {o : JsonObject} (h : o.Legal) (key : Text) :
    codexJsonMember o.text key =
      memberLoop key (separated o.blank (o.members.map Member.text) ++ endObject :: o.trail) := by
  have htext : o.text = o.lead ++ beginObject ::
      (separated o.blank (o.members.map Member.text) ++ endObject :: o.trail) := by
    simp [JsonObject.text, objectText]
  rw [codexJsonMember, htext, skipWs_cons h.lead (by decide)]
  exact if_neg (not_not_intro rfl)

theorem separated_members (o : JsonObject) (m : Member) (after : List Member) :
    separated o.blank ((m :: after).map Member.text) ++ endObject :: o.trail =
      m.text ++ restOf o after := by
  simp [separated, restOf, List.flatMap_map]

theorem fromValue_suffix {o : JsonObject} {before after : List Member} {m : Member}
    (hms : o.members = before ++ m :: after) : fromValue o m after <:+ o.text := by
  have hmember : fromValue o m after <:+ m.text ++ restOf o after := by
    refine ⟨m.before ++ quote :: (m.name ++ quote :: (m.afterName ++ nameSeparator ::
      m.beforeValue)), ?_⟩
    rw [member_text]
    simp [fromValue]
  have hinner : m.text ++ restOf o after <:+
      separated o.blank (o.members.map Member.text) ++ endObject :: o.trail := by
    rw [hms]
    cases before with
    | nil =>
      simpa only [List.nil_append, separated_members] using List.suffix_refl _
    | cons b before =>
      rw [List.cons_append, separated_members]
      refine ⟨b.text ++ (before.flatMap (fun x => valueSeparator :: x.text) ++
        [valueSeparator]), ?_⟩
      simp [restOf]
  refine (hmember.trans hinner).trans ⟨o.lead ++ [beginObject], ?_⟩
  simp [JsonObject.text, objectText]

/-- The lookup finds the first of the top-level members whose name is the key, and of its
value just the text; it finds nothing if no member is so named. -/
theorem codexJsonMember_first {o : JsonObject} (h : o.Legal) (key : Text) :
    (∀ before m after, o.members = before ++ m :: after → m.name = key →
      (∀ x ∈ before, x.name ≠ key) →
      fromValue o m after <:+ o.text ∧
        codexJsonMember o.text key = some (fromValue o m after, m.value.length)) ∧
    ((∀ m ∈ o.members, m.name ≠ key) → codexJsonMember o.text key = none) := by
  rw [codexJsonMember_text h key]
  constructor
  · intro before m after hms hname hbefore
    refine ⟨fromValue_suffix hms, ?_⟩
    cases hm : o.members with
    | nil => simp [hm] at hms
    | cons x rest =>
      have hspaced := h.spaced
      have hvalues := h.values
      rw [hm] at hms hspaced hvalues
      rw [separated_members]
      exact memberLoop_found o hms hspaced hvalues hname hbefore
  · intro hnone
    cases hm : o.members with
    | nil =>
      have hread : readMember (o.blank ++ endObject :: o.trail) = none := by
        rw [readMember, skipWs_cons h.blank (by decide)]
        exact if_pos (by decide)
      rw [List.map_nil, separated, memberLoop]
      split
      next => rfl
      next e he =>
        rw [hread] at he
        cases he
    | cons x rest =>
      have hspaced := h.spaced
      have hvalues := h.values
      rw [hm] at hnone hspaced hvalues
      rw [separated_members]
      exact memberLoop_absent o hspaced hvalues hnone

/-- The first of the top-level members whose name is the key. -/
def firstMember (o : JsonObject) (key : Text) : Option Member :=
  o.members.find? fun m => m.name = key

theorem codexJsonMember_none {o : JsonObject} (h : o.Legal) {key : Text}
    (hm : firstMember o key = none) : codexJsonMember o.text key = none := by
  refine (codexJsonMember_first h key).2 fun m hmem => ?_
  simpa using List.find?_eq_none.mp hm m hmem

theorem codexJsonMember_some {o : JsonObject} (h : o.Legal) {key : Text} {m : Member}
    (hm : firstMember o key = some m) :
    Value m.value ∧
      ∃ rest, codexJsonMember o.text key = some (m.value ++ rest, m.value.length) := by
  obtain ⟨hname, before, after, hms, hbefore⟩ := List.find?_eq_some_iff_append.mp hm
  refine ⟨h.values m (by simp [hms]), m.afterValue ++ restOf o after, ?_⟩
  have hfirst := (codexJsonMember_first h key).1 before m after hms (by simpa using hname)
    (by simpa using hbefore)
  exact hfirst.2

/-- A value is compared as it is spelt, with its quotes. -/
theorem codexJsonStrEq_value {v : Text} (hv : Value v) (rest expect : Text) :
    codexJsonStrEq (v ++ rest) v.length expect = decide (v = quoted expect) := by
  rw [codexJsonStrEq, ← Bool.decide_and]
  refine decide_eq_decide.mpr ⟨?_, ?_⟩
  · rintro ⟨⟨hlen, hhead⟩, htake⟩
    obtain ⟨c, v, rfl⟩ := List.exists_cons_of_ne_nil (l := v) (by
      rintro rfl
      simp at hlen)
    obtain rfl : c = quote := by simpa using hhead
    cases hv with
    | scalar h => exact absurd (h.chars quote (by simp)) (by decide)
    | @string s h =>
      have hs : s.length = expect.length := by simpa using hlen
      have hwhole : (quote :: (s ++ [quote]) ++ rest).tail.take expect.length = s := by
        rw [← hs, List.cons_append, List.tail_cons, List.append_assoc, List.take_left]
      exact congrArg quoted (hwhole.symm.trans htake)
  · rintro rfl
    simp [quoted]

/-- An `id` in an object that is the value of the first member, and the `id` itself. -/
def nestedId : JsonObject where
  lead := []
  blank := []
  members :=
    [⟨[], text "params", [], text " ", objectText [] [⟨[], text "id", [], [], text "0", []⟩], []⟩,
      ⟨text " ", text "id", [], [], text "7", text " "⟩]
  trail := text "\n"

theorem nestedId_legal : nestedId.Legal := by
  have hname : Chars (text "id") := chars_of_unescaped (by decide)
  have hparams : Chars (text "params") := chars_of_unescaped (by decide)
  have hseven : Value (text "7") := value_int (Or.inr ⟨⟨by decide, by decide⟩, by decide⟩)
  have hnested : Value (objectText [] [⟨[], text "id", [], [], text "0", []⟩]) := by
    refine .object (by decide) (fun m hm => ?_) fun m hm => ?_ <;>
      rw [List.mem_singleton.mp hm]
    · exact ⟨by decide, hname, by decide, by decide, by decide⟩
    · exact value_int (Or.inl rfl)
  refine ⟨by decide, by decide, fun m hm => ?_, fun m hm => ?_, by decide⟩
  · rcases List.mem_pair.mp hm with rfl | rfl
    · exact ⟨by decide, hparams, by decide, by decide, by decide⟩
    · exact ⟨by decide, hname, by decide, by decide, by decide⟩
  · rcases List.mem_pair.mp hm with rfl | rfl
    · exact hnested
    · exact hseven

theorem codexJsonMember_first_id :
    codexJsonMember nestedId.text (text "id") = some (text "7 \x7d\n", 1) :=
  ((codexJsonMember_first nestedId_legal (text "id")).1 [_] _ [] rfl rfl (by decide)).2

end ZephyrApps.CodexJson
