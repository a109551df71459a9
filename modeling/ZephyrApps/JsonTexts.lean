import ZephyrApps.CStrings

/-!
# JSON texts

The grammar of RFC 8259 over bytes, with the whitespace and the raw text of every part
kept, so that a position in a text can be named. Of a string it asks what its ASCII
characters must be; the bytes of longer characters are taken as they are. `Closed` is
the rule for what a scanner does over a value: it need only be shown of its pieces.
-/
namespace ZephyrApps.JsonTexts
open CStrings

def quote : UInt8 := 0x22
def backslash : UInt8 := 0x5C
def beginArray : UInt8 := 0x5B
def endArray : UInt8 := 0x5D
def beginObject : UInt8 := 0x7B
def endObject : UInt8 := 0x7D
def nameSeparator : UInt8 := 0x3A
def valueSeparator : UInt8 := 0x2C

def IsWs (c : UInt8) : Prop := c = 0x20 ∨ c = 0x09 ∨ c = 0x0A ∨ c = 0x0D

def Whitespace (w : Text) : Prop := ∀ c ∈ w, IsWs c

def IsDigit (c : UInt8) : Prop := ascii '0' ≤ c ∧ c ≤ ascii '9'

inductive Chars : Text → Prop where
  | nil : Chars []
  | unescaped {c : UInt8} {rest : Text} (printable : 0x20 ≤ c) (noQuote : c ≠ quote)
      (noEscape : c ≠ backslash) (h : Chars rest) : Chars (c :: rest)
  | escape {c : UInt8} {rest : Text}
      (short : c ∈ [quote, backslash, 0x2F, 0x62, 0x66, 0x6E, 0x72, 0x74]) (h : Chars rest) :
    Chars (backslash :: c :: rest)
  | unicode {a b c d : UInt8} {rest : Text} (hex : ∀ x ∈ [a, b, c, d], (digitOf x).isSome)
      (h : Chars rest) : Chars (backslash :: ascii 'u' :: a :: b :: c :: d :: rest)

def quoted (s : Text) : Text := quote :: s ++ [quote]

def Digits (s : Text) : Prop := s ≠ [] ∧ ∀ c ∈ s, IsDigit c

/-- Zero, or digits that do not begin with zero. -/
def IntPart (s : Text) : Prop := s = text "0" ∨ Digits s ∧ s.head? ≠ some (ascii '0')

def FracPart (s : Text) : Prop := s = [] ∨ ∃ ds, Digits ds ∧ s = ascii '.' :: ds

def ExpPart (s : Text) : Prop :=
  s = [] ∨ ∃ e sign ds, (e = ascii 'e' ∨ e = ascii 'E') ∧
    (sign = [] ∨ sign = text "+" ∨ sign = text "-") ∧ Digits ds ∧ s = e :: (sign ++ ds)

def Number (s : Text) : Prop :=
  ∃ sign int frac exp, (sign = [] ∨ sign = text "-") ∧ IntPart int ∧ FracPart frac ∧ ExpPart exp ∧
    s = sign ++ int ++ frac ++ exp

def Scalar (s : Text) : Prop :=
  s = text "true" ∨ s = text "false" ∨ s = text "null" ∨ Number s

structure Element where
  before : Text
  value : Text
  after : Text

def Element.text (e : Element) : Text := e.before ++ (e.value ++ e.after)

structure Member where
  before : Text
  name : Text
  afterName : Text
  beforeValue : Text
  value : Text
  afterValue : Text

def Member.text (m : Member) : Text :=
  m.before ++ (quoted m.name ++ (m.afterName ++ nameSeparator ::
    (m.beforeValue ++ (m.value ++ m.afterValue))))

/-- What stands between the brackets: `blank` if there is nothing else. -/
def separated (blank : Text) : List Text → Text
  | [] => blank
  | t :: ts => t ++ ts.flatMap (valueSeparator :: ·)

structure Element.Spaced (e : Element) : Prop where
  before : Whitespace e.before
  after : Whitespace e.after

/-- All of a member but its value is as it should be. -/
structure Member.Spaced (m : Member) : Prop where
  before : Whitespace m.before
  name : Chars m.name
  afterName : Whitespace m.afterName
  beforeValue : Whitespace m.beforeValue
  afterValue : Whitespace m.afterValue

def arrayText (blank : Text) (es : List Element) : Text :=
  beginArray :: (separated blank (es.map Element.text) ++ [endArray])

def objectText (blank : Text) (ms : List Member) : Text :=
  beginObject :: (separated blank (ms.map Member.text) ++ [endObject])

inductive Value : Text → Prop where
  | scalar {s : Text} (h : Scalar s) : Value s
  | string {s : Text} (h : Chars s) : Value (quoted s)
  | array {blank : Text} (hb : Whitespace blank) {es : List Element} (spaced : ∀ e ∈ es, e.Spaced)
      (values : ∀ e ∈ es, Value e.value) : Value (arrayText blank es)
  | object {blank : Text} (hb : Whitespace blank) {ms : List Member} (spaced : ∀ m ∈ ms, m.Spaced)
      (values : ∀ m ∈ ms, Value m.value) : Value (objectText blank ms)

structure JsonObject where
  lead : Text
  blank : Text
  members : List Member
  trail : Text

def JsonObject.text (o : JsonObject) : Text := o.lead ++ (objectText o.blank o.members ++ o.trail)

structure JsonObject.Legal (o : JsonObject) : Prop where
  lead : Whitespace o.lead
  blank : Whitespace o.blank
  spaced : ∀ m ∈ o.members, m.Spaced
  values : ∀ m ∈ o.members, Value m.value
  trail : Whitespace o.trail

/-- A character that stands for itself wherever it is outside a string. -/
structure Plain (c : UInt8) : Prop where
  nul : c ≠ 0
  quote : c ≠ quote
  array : c ≠ beginArray ∧ c ≠ endArray
  object : c ≠ beginObject ∧ c ≠ endObject

/-- `P` holds of the pieces of values and of what is put together from them. -/
structure Closed (P : Text → Prop) : Prop where
  nil : P []
  append : ∀ {s t}, P s → P t → P (s ++ t)
  plain : ∀ {c}, Plain c → P [c]
  string : ∀ {s}, Chars s → P (quoted s)
  array : ∀ {s}, P s → P (beginArray :: (s ++ [endArray]))
  object : ∀ {s}, P s → P (beginObject :: (s ++ [endObject]))

theorem whitespace_append {v w : Text} :
    Whitespace (v ++ w) ↔ Whitespace v ∧ Whitespace w := List.forall_mem_append

theorem IsWs.plain {c : UInt8} (h : IsWs c) : Plain c := by
  rcases h with rfl | rfl | rfl | rfl <;> exact ⟨by decide, by decide, by decide, by decide⟩

-- along the text, and not over all bytes
scoped instance {p : UInt8 → Prop} [DecidablePred p] (s : Text) : Decidable (∀ c ∈ s, p c) :=
  List.decidableBAll p s

instance (c : UInt8) : Decidable (IsWs c) := by
  unfold IsWs
  infer_instance

instance (w : Text) : Decidable (Whitespace w) := by
  unfold Whitespace
  infer_instance

instance (c : UInt8) : Decidable (IsDigit c) := by
  unfold IsDigit
  infer_instance

def ScalarChar (c : UInt8) : Prop := IsDigit c ∨ c ∈ text "+-.Eaeflnrstu"

instance (c : UInt8) : Decidable (ScalarChar c) := by
  unfold ScalarChar
  infer_instance

theorem ScalarChar.ne {c d : UInt8} (h : ScalarChar c) (hd : ¬ ScalarChar d) : c ≠ d := by
  rintro rfl
  exact hd h

theorem ScalarChar.plain {c : UInt8} (h : ScalarChar c) : Plain c :=
  ⟨h.ne (by decide), h.ne (by decide), ⟨h.ne (by decide), h.ne (by decide)⟩,
    ⟨h.ne (by decide), h.ne (by decide)⟩⟩

theorem ScalarChar.dark {c : UInt8} (h : ScalarChar c) : ¬ IsWs c := by
  rintro (rfl | rfl | rfl | rfl) <;> exact absurd h (by decide)

theorem Digits.chars {s : Text} (h : Digits s) : ∀ c ∈ s, ScalarChar c :=
  fun c hc => Or.inl (h.2 c hc)

theorem sign_chars {s : Text} (h : s = [] ∨ s = text "+" ∨ s = text "-") :
    ∀ c ∈ s, ScalarChar c := by
  rcases h with rfl | rfl | rfl <;> decide

theorem ExpPart.chars {s : Text} (h : ExpPart s) : ∀ c ∈ s, ScalarChar c := by
  rcases h with rfl | ⟨e, sign, ds, he, hsign, hds, rfl⟩
  · simp
  · intro c hc
    rcases List.mem_cons.mp hc with rfl | hc
    · rcases he with rfl | rfl <;> decide
    · rcases List.mem_append.mp hc with hc | hc
      · exact sign_chars hsign c hc
      · exact hds.chars c hc

theorem FracPart.chars {s : Text} (h : FracPart s) : ∀ c ∈ s, ScalarChar c := by
  rcases h with rfl | ⟨ds, hds, rfl⟩
  · simp
  · intro c hc
    rcases List.mem_cons.mp hc with rfl | hc
    · decide
    · exact hds.chars c hc

theorem IntPart.chars {s : Text} (h : IntPart s) : ∀ c ∈ s, ScalarChar c := by
  rcases h with rfl | ⟨hds, -⟩
  · decide
  · exact hds.chars

theorem Number.chars {s : Text} (h : Number s) : ∀ c ∈ s, ScalarChar c := by
  obtain ⟨sign, int, frac, exp, hsign, hint, hfrac, hexp, rfl⟩ := h
  have hsign' : sign = [] ∨ sign = text "+" ∨ sign = text "-" := hsign.imp_right Or.inr
  intro c hc
  rcases List.mem_append.mp hc with hc | hc
  · rcases List.mem_append.mp hc with hc | hc
    · rcases List.mem_append.mp hc with hc | hc
      · exact sign_chars hsign' c hc
      · exact hint.chars c hc
    · exact hfrac.chars c hc
  · exact hexp.chars c hc

theorem Scalar.chars {s : Text} (h : Scalar s) : ∀ c ∈ s, ScalarChar c := by
  rcases h with rfl | rfl | rfl | hn
  · decide
  · decide
  · decide
  · exact hn.chars

theorem Scalar.ne_nil {s : Text} (h : Scalar s) : s ≠ [] := by
  rcases h with rfl | rfl | rfl | ⟨sign, int, frac, exp, -, hint, -, -, rfl⟩
  · decide
  · decide
  · decide
  · have hne : int ≠ [] := by
      rcases hint with rfl | ⟨hds, -⟩
      · decide
      · exact hds.1
    simp [hne]

theorem digit_plain {c : UInt8} (h : (digitOf c).isSome) : c ≠ quote ∧ c ≠ 0 ∧ c ≠ backslash := by
  refine ⟨?_, ?_, ?_⟩ <;> rintro rfl <;> exact absurd h (by decide)

theorem chars_of_unescaped {s : Text} (h : ∀ c ∈ s, 0x20 ≤ c ∧ c ≠ quote ∧ c ≠ backslash) :
    Chars s := by
  induction s with
  | nil => exact .nil
  | cons c s ih =>
    obtain ⟨hp, hq, hb⟩ := h c (by simp)
    exact .unescaped hp hq hb (ih fun x hx => h x (by simp [hx]))

theorem value_int {s : Text} (h : IntPart s) : Value s := by
  have hn : Number s := ⟨[], s, [], [], Or.inl rfl, h, Or.inl rfl, Or.inl rfl, by simp⟩
  exact .scalar (Or.inr (Or.inr (Or.inr hn)))

def StartsDark (s : Text) : Prop := ∀ c ∈ s.head?, ¬ IsWs c

/-- A value does not begin with whitespace. -/
theorem Value.startsDark {v : Text} (hv : Value v) (rest : Text) : StartsDark (v ++ rest) := by
  cases hv with
  | scalar h =>
    obtain ⟨c, s, rfl⟩ := List.exists_cons_of_ne_nil h.ne_nil
    intro d hd
    cases hd
    exact (h.chars c (by simp)).dark
  | string =>
    intro d hd
    cases hd
    decide
  | array =>
    intro d hd
    cases hd
    decide
  | object =>
    intro d hd
    cases hd
    decide

/-- A character that stands outside of the strings and is no bracket. -/
def Bare (c : UInt8) : Prop := ScalarChar c ∨ IsWs c ∨ c = nameSeparator ∨ c = valueSeparator

instance (c : UInt8) : Decidable (Bare c) := by
  unfold Bare
  infer_instance

theorem Bare.plain {c : UInt8} (h : Bare c) : Plain c := by
  rcases h with h | h | rfl | rfl
  · exact h.plain
  · exact h.plain
  · exact ⟨by decide, by decide, by decide, by decide⟩
  · exact ⟨by decide, by decide, by decide, by decide⟩

/-- `P` holds of the pieces that values have and of what is put together from them. -/
structure Composed (P : Text → Prop) : Prop where
  nil : P []
  append : ∀ {s t}, P s → P t → P (s ++ t)
  bare : ∀ {c}, Bare c → P [c]
  string : ∀ {s}, Chars s → P (quoted s)
  array : ∀ {s}, P s → P (beginArray :: (s ++ [endArray]))
  object : ∀ {s}, P s → P (beginObject :: (s ++ [endObject]))

section
variable {P : Text → Prop} (hP : Composed P)
include hP

theorem Composed.bareText {s : Text} (h : ∀ c ∈ s, Bare c) : P s := by
  induction s with
  | nil => exact hP.nil
  | cons c s ih =>
    have hc : P [c] := hP.bare (h c (by simp))
    exact hP.append hc (ih fun x hx => h x (by simp [hx]))

theorem Composed.whitespace {w : Text} (h : Whitespace w) : P w :=
  hP.bareText fun c hc => Or.inr (Or.inl (h c hc))

theorem Composed.separated {blank : Text} {ts : List Text} (hb : P blank) (h : ∀ t ∈ ts, P t) :
    P (separated blank ts) := by
  cases ts with
  | nil => exact hb
  | cons t ts =>
    refine hP.append (h t (by simp)) ?_
    have hts : ∀ x ∈ ts, P x := fun x hx => h x (by simp [hx])
    clear h
    induction ts with
    | nil => exact hP.nil
    | cons x ts ih =>
      have hcomma : P [valueSeparator] := hP.bare (Or.inr (Or.inr (Or.inr rfl)))
      have hx : P (valueSeparator :: x) := hP.append hcomma (hts x (by simp))
      rw [List.flatMap_cons]
      exact hP.append hx (ih fun y hy => hts y (by simp [hy]))

theorem Composed.element {e : Element} (h : e.Spaced) (hv : P e.value) : P e.text :=
  hP.append (hP.whitespace h.before) (hP.append hv (hP.whitespace h.after))

theorem Composed.member {m : Member} (h : m.Spaced) (hv : P m.value) : P m.text := by
  have hcolon : P [nameSeparator] := hP.bare (Or.inr (Or.inr (Or.inl rfl)))
  have hvalue : P (m.beforeValue ++ (m.value ++ m.afterValue)) :=
    hP.append (hP.whitespace h.beforeValue) (hP.append hv (hP.whitespace h.afterValue))
  exact hP.append (hP.whitespace h.before) (hP.append (hP.string h.name)
    (hP.append (hP.whitespace h.afterName) (hP.append hcolon hvalue)))

theorem Composed.elements {blank : Text} {es : List Element} (hb : Whitespace blank)
    (spaced : ∀ e ∈ es, e.Spaced) (values : ∀ e ∈ es, P e.value) :
    P (JsonTexts.separated blank (es.map Element.text)) := by
  refine hP.separated (hP.whitespace hb) fun t ht => ?_
  obtain ⟨e, he, rfl⟩ := List.mem_map.mp ht
  exact hP.element (spaced e he) (values e he)

theorem Composed.members {blank : Text} {ms : List Member} (hb : Whitespace blank)
    (spaced : ∀ m ∈ ms, m.Spaced) (values : ∀ m ∈ ms, P m.value) :
    P (JsonTexts.separated blank (ms.map Member.text)) := by
  refine hP.separated (hP.whitespace hb) fun t ht => ?_
  obtain ⟨m, hm, rfl⟩ := List.mem_map.mp ht
  exact hP.member (spaced m hm) (values m hm)

/-- What holds of the pieces holds of every value. -/
theorem Composed.value {s : Text} (h : Value s) : P s := by
  induction h with
  | scalar h => exact hP.bareText fun c hc => Or.inl (h.chars c hc)
  | string h => exact hP.string h
  | array hb spaced values ih => exact hP.array (hP.elements hb spaced ih)
  | object hb spaced values ih => exact hP.object (hP.members hb spaced ih)

end

section
variable {P : Text → Prop} (hP : Closed P)
include hP

theorem Closed.composed : Composed P :=
  ⟨hP.nil, hP.append, fun h => hP.plain h.plain, hP.string, hP.array, hP.object⟩

theorem Closed.elements {blank : Text} {es : List Element} (hb : Whitespace blank)
    (spaced : ∀ e ∈ es, e.Spaced) (values : ∀ e ∈ es, P e.value) :
    P (separated blank (es.map Element.text)) :=
  hP.composed.elements hb spaced values

theorem Closed.members {blank : Text} {ms : List Member} (hb : Whitespace blank)
    (spaced : ∀ m ∈ ms, m.Spaced) (values : ∀ m ∈ ms, P m.value) :
    P (separated blank (ms.map Member.text)) :=
  hP.composed.members hb spaced values

theorem Closed.value {s : Text} (h : Value s) : P s := hP.composed.value h

end

theorem Chars.noNul {s : Text} (h : Chars s) : 0 ∉ s := by
  induction h with
  | nil => simp
  | unescaped printable _ _ _ ih =>
    refine List.not_mem_cons_of_ne_of_not_mem ?_ ih
    rintro rfl
    exact absurd printable (by decide)
  | escape short _ ih =>
    refine List.not_mem_cons_of_ne_of_not_mem (by decide)
      (List.not_mem_cons_of_ne_of_not_mem ?_ ih)
    rintro rfl
    exact absurd short (by decide)
  | @unicode a b c d rest hex _ ih =>
    have hdigit {x : UInt8} (hx : x ∈ [a, b, c, d]) : (0 : UInt8) ≠ x :=
      (digit_plain (hex x hx)).2.1.symm
    have hu : (0 : UInt8) ≠ ascii 'u' := by decide
    have hb : (0 : UInt8) ≠ backslash := by decide
    simp only [List.mem_cons, not_or]
    exact ⟨hb, hu, hdigit (by simp), hdigit (by simp), hdigit (by simp), hdigit (by simp), ih⟩

theorem noNul_closed : Closed fun s => (0 : UInt8) ∉ s where
  nil := by simp
  append hs ht := by simp [hs, ht]
  plain hc := by simpa using hc.nul.symm
  string hs := by simp [quoted, hs.noNul, show (0 : UInt8) ≠ quote by decide]
  array hs := by
    simp [hs, show (0 : UInt8) ≠ beginArray by decide, show (0 : UInt8) ≠ endArray by decide]
  object hs := by
    simp [hs, show (0 : UInt8) ≠ beginObject by decide, show (0 : UInt8) ≠ endObject by decide]

inductive Place where
  | outside
  | inside
  | escaped
  deriving DecidableEq

def Place.next : Place → UInt8 → Place
  | outside, c => if c = quote then inside else outside
  | inside, c => if c = backslash then escaped else if c = quote then outside else inside
  | escaped, _ => inside

def Place.after (p : Place) (s : Text) : Place := s.foldl Place.next p

theorem Place.after_append (p : Place) (s t : Text) : p.after (s ++ t) = (p.after s).after t :=
  List.foldl_append

/-- Every character that stands in place `p`, if the text begins in place `start`, has `Q`. -/
def StandsAt (Q : UInt8 → Prop) (start p : Place) (s : Text) : Prop :=
  ∀ a c b, s = a ++ c :: b → start.after a = p → Q c

theorem standsAt_nil (Q : UInt8 → Prop) (start p : Place) : StandsAt Q start p [] := by
  intro a c b h
  simp at h

theorem standsAt_cons {Q : UInt8 → Prop} {start p : Place} {c : UInt8} {s : Text} :
    StandsAt Q start p (c :: s) ↔ (start = p → Q c) ∧ StandsAt Q (start.next c) p s := by
  constructor
  · intro h
    refine ⟨h [] c s rfl, fun a d b hs hp => ?_⟩
    exact h (c :: a) d b (by rw [hs, List.cons_append]) hp
  · rintro ⟨hc, hs⟩ a d b h hp
    cases a with
    | nil =>
      cases h
      exact hc hp
    | cons x a =>
      rw [List.cons_append] at h
      cases h
      exact hs a d b rfl hp

theorem standsAt_append {Q : UInt8 → Prop} {start p : Place} {s t : Text} :
    StandsAt Q start p (s ++ t) ↔ StandsAt Q start p s ∧ StandsAt Q (start.after s) p t := by
  induction s generalizing start with
  | nil => simp [standsAt_nil, Place.after]
  | cons c s ih =>
    rw [List.cons_append, standsAt_cons, standsAt_cons, ih, and_assoc]
    rfl

theorem Place.inside_next {c : UInt8} (hq : c ≠ quote) (hb : c ≠ backslash) :
    Place.inside.next c = .inside := by
  rw [Place.next, if_neg hb, if_neg hq]

/-- A string ends with its closing quote, and is nowhere over before. -/
theorem Chars.place {s : Text} (h : Chars s) (Q : UInt8 → Prop) :
    Place.inside.after (s ++ [quote]) = .outside ∧
      StandsAt Q .inside .outside (s ++ [quote]) := by
  have hplain {c : UInt8} {t : Text} (hq : c ≠ quote) (hb : c ≠ backslash)
      (ht : Place.inside.after t = .outside ∧ StandsAt Q .inside .outside t) :
      Place.inside.after (c :: t) = .outside ∧ StandsAt Q .inside .outside (c :: t) := by
    rw [standsAt_cons, Place.after, List.foldl_cons, Place.inside_next hq hb]
    exact ⟨ht.1, fun h => (nomatch h), ht.2⟩
  have hescape {c : UInt8} {t : Text}
      (ht : Place.inside.after t = .outside ∧ StandsAt Q .inside .outside t) :
      Place.inside.after (backslash :: c :: t) = .outside ∧
        StandsAt Q .inside .outside (backslash :: c :: t) := by
    rw [standsAt_cons, standsAt_cons]
    exact ⟨ht.1, fun h => (nomatch h), fun h => (nomatch h), ht.2⟩
  induction h with
  | nil => exact ⟨by decide, standsAt_cons.mpr ⟨fun h => (nomatch h), standsAt_nil _ _ _⟩⟩
  | unescaped _ noQuote noEscape _ ih => exact hplain noQuote noEscape ih
  | escape _ _ ih => exact hescape ih
  | @unicode a b c d rest hex _ ih =>
    have hdigit {x : UInt8} (hx : x ∈ [a, b, c, d]) : x ≠ quote ∧ x ≠ backslash :=
      ⟨(digit_plain (hex x hx)).1, (digit_plain (hex x hx)).2.2⟩
    have hd := hdigit (x := d) (by simp)
    have hc := hdigit (x := c) (by simp)
    have hb := hdigit (x := b) (by simp)
    have ha := hdigit (x := a) (by simp)
    exact hescape (hplain ha.1 ha.2 (hplain hb.1 hb.2 (hplain hc.1 hc.2 (hplain hd.1 hd.2 ih))))

/-- Outside of its strings a text has bare characters, brackets and opening quotes. -/
def Proper (s : Text) : Prop :=
  Place.outside.after s = .outside ∧
    StandsAt (fun c => Bare c ∨ c ∈ [quote, beginArray, endArray, beginObject, endObject])
      .outside .outside s

theorem Proper.append {s t : Text} (hs : Proper s) (ht : Proper t) : Proper (s ++ t) := by
  refine ⟨by rw [Place.after_append, hs.1, ht.1], standsAt_append.mpr ⟨hs.2, ?_⟩⟩
  rw [hs.1]
  exact ht.2

theorem proper_single {c : UInt8} (hq : c ≠ quote)
    (hc : Bare c ∨ c ∈ [quote, beginArray, endArray, beginObject, endObject]) : Proper [c] :=
  ⟨if_neg hq, standsAt_cons.mpr ⟨fun _ => hc, standsAt_nil _ _ _⟩⟩

theorem proper_composed : Composed Proper where
  nil := ⟨rfl, standsAt_nil _ _ _⟩
  append hs ht := hs.append ht
  bare hc := proper_single hc.plain.quote (Or.inl hc)
  string hs := by
    obtain ⟨hafter, hstands⟩ := hs.place fun c =>
      Bare c ∨ c ∈ [quote, beginArray, endArray, beginObject, endObject]
    exact ⟨hafter, standsAt_cons.mpr ⟨fun _ => Or.inr (by simp), hstands⟩⟩
  array hs :=
    (proper_single (by decide) (Or.inr (by decide))).append
      (hs.append (proper_single (by decide) (Or.inr (by decide))))
  object hs :=
    (proper_single (by decide) (Or.inr (by decide))).append
      (hs.append (proper_single (by decide) (Or.inr (by decide))))

end ZephyrApps.JsonTexts
