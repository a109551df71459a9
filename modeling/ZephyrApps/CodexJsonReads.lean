import ZephyrApps.CodexJsonPointers

/-!
# The JSON scanner reads no byte after the NUL

A pointer into the message stands for what follows it there, and the scanner with pointers
does what the scanner on the text does, so none of its reads fails. `skip_value` is the one
that need not move: it passes a value of no characters and takes it for one.
-/
namespace ZephyrApps.CodexJsonReads
open CStrings JsonTexts CodexJson CodexJsonPointers

variable {txt : Text}

def ptr (txt q : Text) : ℕ := txt.length - q.length

theorem read_end : (txt ++ [0])[ptr txt []]? = some 0 := by
  simp [ptr]

theorem read_cons {c : UInt8} {q : Text} (h : c :: q <:+ txt) :
    (txt ++ [0])[ptr txt (c :: q)]? = some c := by
  obtain ⟨before, rfl⟩ := h
  simp [ptr]

theorem ptr_tail {c : UInt8} {q : Text} (h : c :: q <:+ txt) :
    ptr txt (c :: q) + 1 = ptr txt q := by
  have hle := h.length_le
  simp only [ptr, List.length_cons] at hle ⊢
  omega

theorem tail_suffix {c : UInt8} {q : Text} (h : c :: q <:+ txt) : q <:+ txt :=
  (List.suffix_cons c q).trans h

theorem skipWs_suffix (q : Text) : skipWs q <:+ q := by
  fun_induction skipWs q with
  | case1 => exact List.suffix_refl _
  | case2 c q _ ih => exact ih.trans (List.suffix_cons c q)
  | case3 => exact List.suffix_refl _

theorem stringRest_suffix {q r : Text} (h : stringRest q = some r) : r <:+ q := by
  fun_induction stringRest q with
  | case1 | case3 | case4 => cases h
  | case2 q =>
    cases h
    exact List.suffix_cons _ _
  | case5 c _ _ d q _ ih =>
    exact ((ih h).trans (List.suffix_cons d q)).trans (List.suffix_cons _ _)
  | case6 c _ _ d q _ ih => exact (ih h).trans (List.suffix_cons _ _)

theorem skipNested_suffix {depth : ℤ} {q r : Text} (h : skipNested depth q = some r) :
    r <:+ q := by
  fun_induction skipNested depth q with
  | case1 | case2 | case9 => cases h
  | case3 depth q s hs hd ih =>
    exact ((ih h).trans (stringRest_suffix hs)).trans (List.suffix_cons _ _)
  | case4 depth q s hs hd =>
    cases h
    exact (stringRest_suffix hs).trans (List.suffix_cons _ _)
  | case5 _ c q _ _ _ ih | case7 _ c q _ _ _ _ ih | case10 _ c q _ _ _ _ _ ih =>
    exact (ih h).trans (List.suffix_cons _ _)
  | case6 | case8 | case11 =>
    cases h
    exact List.suffix_cons _ _

theorem skipScalar_suffix (q : Text) : skipScalar q <:+ q := by
  fun_induction skipScalar q with
  | case1 => exact List.suffix_refl _
  | case2 c q _ ih => exact ih.trans (List.suffix_cons c q)
  | case3 => exact List.suffix_refl _

theorem skipValue_suffix {q r : Text} (h : skipValue q = some r) : r <:+ q := by
  unfold skipValue at h
  split at h
  · exact (stringRest_suffix h).trans (List.tail_suffix q)
  · split at h
    · exact skipNested_suffix h
    · cases h
      exact skipScalar_suffix q

theorem skipWsAt_ptr {q : Text} (hq : q <:+ txt) :
    skipWsAt (txt ++ [0]) (ptr txt q) = some (ptr txt (skipWs q)) := by
  induction q with
  | nil =>
    rw [skipWsAt_read read_end]
    exact if_neg (by decide)
  | cons c q ih =>
    rw [skipWsAt_read (read_cons hq), skipWs]
    split
    case isTrue =>
      rw [ptr_tail hq]
      exact ih (tail_suffix hq)
    case isFalse => rfl

theorem skipScalarAt_ptr {q : Text} (hq : q <:+ txt) :
    skipScalarAt (txt ++ [0]) (ptr txt q) = some (ptr txt (skipScalar q)) := by
  induction q with
  | nil =>
    rw [skipScalarAt_read read_end]
    exact if_neg fun h => h.1 rfl
  | cons c q ih =>
    rw [skipScalarAt_read (read_cons hq), skipScalar]
    split
    case isTrue =>
      rw [ptr_tail hq]
      exact ih (tail_suffix hq)
    case isFalse => rfl

theorem read_second {c d : UInt8} {q : Text} (hq : c :: d :: q <:+ txt) :
    (txt ++ [0])[ptr txt (c :: d :: q) + 1]? = some d := by
  rw [ptr_tail hq]
  exact read_cons (tail_suffix hq)

theorem stringRestAt_ptr {q : Text} (hq : q <:+ txt) :
    stringRestAt (txt ++ [0]) (ptr txt q) = some ((stringRest q).map (ptr txt)) := by
  fun_induction stringRest q with
  | case1 => exact stringRestAt_nul read_end
  | case2 q =>
    rw [stringRestAt_quote (read_cons hq), ptr_tail hq]
    rfl
  | case3 => exact stringRestAt_nul (read_cons hq)
  | case4 c hc h0 =>
    have hnext : (txt ++ [0])[ptr txt [c] + 1]? = some 0 := by
      rw [ptr_tail hq]
      exact read_end
    rw [stringRestAt_read (read_cons hq) hnext hc h0, if_neg fun h => h.2 rfl, ptr_tail hq]
    exact stringRestAt_nul read_end
  | case5 c hc h0 d q hesc ih =>
    have htwo : ptr txt (c :: d :: q) + 2 = ptr txt q := by
      rw [← ptr_tail (tail_suffix hq), ← ptr_tail hq]
    rw [stringRestAt_read (read_cons hq) (read_second hq) hc h0, if_pos hesc, htwo]
    exact ih (tail_suffix (tail_suffix hq))
  | case6 c hc h0 d q hesc ih =>
    rw [stringRestAt_read (read_cons hq) (read_second hq) hc h0, if_neg hesc, ptr_tail hq]
    exact ih (tail_suffix hq)

theorem skipStringAt_ptr {c : UInt8} {q : Text} (hq : c :: q <:+ txt) :
    skipStringAt (txt ++ [0]) (ptr txt (c :: q)) =
      some ((skipString (c :: q)).map (ptr txt)) := by
  rw [skipStringAt, ptr_tail hq]
  exact stringRestAt_ptr (tail_suffix hq)

theorem skipStringAt_rest {c : UInt8} {q : Text} {r : Option Text} (hq : c :: q <:+ txt)
    (hs : stringRest q = r) :
    skipStringAt (txt ++ [0]) (ptr txt (c :: q)) = some (r.map (ptr txt)) := by
  rw [skipStringAt_ptr hq, skipString, List.tail_cons, hs]

theorem skipNestedAt_ptr {depth : ℤ} {q : Text} (hq : q <:+ txt) :
    skipNestedAt (txt ++ [0]) depth (ptr txt q) = some ((skipNested depth q).map (ptr txt)) := by
  fun_induction skipNested depth q with
  | case1 depth =>
    rw [skipNestedAt_read read_end (by decide)]
    rfl
  | case2 depth q hs => exact skipNestedAt_unterminated (read_cons hq) (skipStringAt_rest hq hs)
  | case3 depth q r hs hd ih =>
    rw [skipNestedAt_string (read_cons hq) (skipStringAt_rest hq hs), if_pos hd]
    exact ih ((stringRest_suffix hs).trans (tail_suffix hq))
  | case4 depth q r hs hd =>
    rw [skipNestedAt_string (read_cons hq) (skipStringAt_rest hq hs), if_neg hd]
    rfl
  | case5 depth c q hc hopen hd ih =>
    rw [skipNestedAt_read (read_cons hq) hc, if_pos hopen, if_pos hd, ptr_tail hq]
    exact ih (tail_suffix hq)
  | case6 depth c q hc hopen hd =>
    rw [skipNestedAt_read (read_cons hq) hc, if_pos hopen, if_neg hd, ptr_tail hq]
    rfl
  | case7 depth c q hc hopen hclose hd ih =>
    rw [skipNestedAt_read (read_cons hq) hc, if_neg hopen, if_pos hclose, if_pos hd, ptr_tail hq]
    exact ih (tail_suffix hq)
  | case8 depth c q hc hopen hclose hd =>
    rw [skipNestedAt_read (read_cons hq) hc, if_neg hopen, if_pos hclose, if_neg hd, ptr_tail hq]
    rfl
  | case9 depth q hc hopen hclose =>
    rw [skipNestedAt_read (read_cons hq) hc, if_neg hopen, if_neg hclose, if_pos rfl]
    rfl
  | case10 depth c q hc hopen hclose h0 hd ih =>
    rw [skipNestedAt_read (read_cons hq) hc, if_neg hopen, if_neg hclose, if_neg h0, if_pos hd,
      ptr_tail hq]
    exact ih (tail_suffix hq)
  | case11 depth c q hc hopen hclose h0 hd =>
    rw [skipNestedAt_read (read_cons hq) hc, if_neg hopen, if_neg hclose, if_neg h0, if_neg hd,
      ptr_tail hq]
    rfl

theorem skipValueAt_ptr {q : Text} (hq : q <:+ txt) :
    skipValueAt (txt ++ [0]) (ptr txt q) = some ((skipValue q).map (ptr txt)) := by
  cases q with
  | nil =>
    rw [skipValueAt, read_end]
    exact congrArg (Option.map some) (skipScalarAt_ptr hq)
  | cons c q =>
    simp only [skipValueAt, read_cons hq, skipValue, List.head?_cons, Option.some.injEq]
    split
    case isTrue => exact skipStringAt_ptr hq
    case isFalse =>
      split
      case isTrue => exact skipNestedAt_ptr hq
      case isFalse => exact congrArg (Option.map some) (skipScalarAt_ptr hq)

def entryPtr (txt : Text) (e : Entry) : EntryAt where
  name := ptr txt e.name
  nameEnd := ptr txt e.nameEnd
  value := ptr txt e.value
  valueEnd := ptr txt e.valueEnd

/-- The parts of a member follow each other in the text. -/
structure Ordered (q : Text) (e : Entry) : Prop where
  name : e.name <:+ q
  nameEnd : e.nameEnd.length < e.name.length
  value : e.value <:+ q
  valueEnd : e.valueEnd <:+ e.value

theorem Ordered.valueEnd_suffix {q : Text} {e : Entry} (h : Ordered q e) : e.valueEnd <:+ q :=
  h.valueEnd.trans h.value

theorem readMember_ordered {q : Text} {e : Entry} (h : readMember q = some e) : Ordered q e := by
  have hws := skipWs_suffix q
  unfold readMember at h
  split at h
  · cases h
  next c name hname =>
    rw [hname] at hws
    split at h
    · cases h
    · obtain ⟨nameEnd, hn, h⟩ := Option.bind_eq_some_iff.mp h
      have hcolon := skipWs_suffix nameEnd
      split at h
      · cases h
      next d rest hrest =>
        rw [hrest] at hcolon
        split at h
        · cases h
        · obtain ⟨valueEnd, hv, rfl⟩ := Option.map_eq_some_iff.mp h
          have hnameEnd : nameEnd <:+ q := (stringRest_suffix hn).trans (tail_suffix hws)
          refine ⟨tail_suffix hws, stringRest_length hn, ?_, skipValue_suffix hv⟩
          exact (skipWs_suffix rest).trans (tail_suffix (hcolon.trans hnameEnd))

theorem readMemberAt_ptr {q : Text} (hq : q <:+ txt) :
    readMemberAt (txt ++ [0]) (ptr txt q) = some ((readMember q).map (entryPtr txt)) := by
  have hws := (skipWs_suffix q).trans hq
  rw [readMemberAt, skipWsAt_ptr hq, Option.bind_some, readMember]
  cases hname : skipWs q with
  | nil =>
    rw [read_end]
    rfl
  | cons c name =>
    rw [hname] at hws
    rw [read_cons hws, Option.bind_some]
    dsimp only
    split
    case isTrue => rfl
    case isFalse =>
      rw [skipStringAt_ptr hws, Option.bind_some]
      cases hs : skipString (c :: name) with
      | none => rfl
      | some nameEnd =>
        have hnameEnd : nameEnd <:+ txt := (stringRest_suffix hs).trans (tail_suffix hws)
        have hcolon := (skipWs_suffix nameEnd).trans hnameEnd
        simp only [Option.map_some, Option.bind_some, skipWsAt_ptr hnameEnd]
        cases hrest : skipWs nameEnd with
        | nil =>
          rw [read_end]
          rfl
        | cons d rest =>
          rw [hrest] at hcolon
          have hvalue := (skipWs_suffix rest).trans (tail_suffix hcolon)
          rw [read_cons hcolon, Option.bind_some]
          dsimp only
          split
          case isTrue => rfl
          case isFalse =>
            rw [ptr_tail hcolon, skipWsAt_ptr (tail_suffix hcolon), Option.bind_some,
              skipValueAt_ptr hvalue, ptr_tail hws]
            simp only [Option.map_some, Option.map_map]
            rfl

theorem reads_take {q : Text} (hq : q <:+ txt) {n : ℕ} (hn : n ≤ q.length) :
    ((List.range n).mapM fun i => (txt ++ [0])[ptr txt q + i]?) = some (q.take n) := by
  induction n with
  | zero => rfl
  | succ n ih =>
    have hread : (txt ++ [0])[ptr txt q + n]? = some q[n] := by
      obtain ⟨before, rfl⟩ := hq
      have hptr : ptr (before ++ q) q = before.length := by simp [ptr]
      rw [hptr, List.append_assoc, List.getElem?_append_right (Nat.le_add_right _ _),
        Nat.add_sub_cancel_left, List.getElem?_append_left hn, List.getElem?_eq_getElem hn]
    rw [List.range_succ, List.mapM_append, ih (Nat.le_of_succ_le hn)]
    simp [hread]

theorem isNamedAt_ptr {q : Text} (hq : q <:+ txt) {e : Entry} (he : Ordered q e) (key : Text) :
    isNamedAt (txt ++ [0]) (entryPtr txt e) key =
      some (decide (e.name.length - e.nameEnd.length - 1 = key.length ∧
        e.name.take key.length = key)) := by
  have hname := he.name.trans hq
  have hle := hname.length_le
  have hlt := he.nameEnd
  have hlen : ptr txt e.nameEnd - ptr txt e.name - 1 = e.name.length - e.nameEnd.length - 1 := by
    unfold ptr
    omega
  rw [isNamedAt, entryPtr, hlen]
  split
  case isTrue h =>
    rw [memcmpAt, reads_take hname (by omega)]
    simp [h]
  case isFalse h => simp [h]

def foundPtr (txt : Text) (r : Text × ℕ) : ℕ × ℕ := (ptr txt r.1, r.2)

/-- The round of a member with another name. -/
theorem memberLoopAt_other {key q : Text} {e : Entry} {c : UInt8} (hq : q <:+ txt)
    (h : readMember q = some e)
    (hn : ¬ (e.name.length - e.nameEnd.length - 1 = key.length ∧ e.name.take key.length = key))
    (hc : (txt ++ [0])[ptr txt (skipWs e.valueEnd)]? = some c) :
    memberLoopAt (txt ++ [0]) key (ptr txt q) =
      if c ≠ ascii ',' then some none
      else memberLoopAt (txt ++ [0]) key (ptr txt (skipWs e.valueEnd) + 1) := by
  have hread := readMemberAt_ptr hq
  rw [h] at hread
  have hord := readMember_ordered h
  have hnamed := isNamedAt_ptr hq hord key
  rw [decide_eq_false hn] at hnamed
  have hws := skipWsAt_ptr (hord.valueEnd.trans (hord.value.trans hq))
  exact memberLoopAt_next hread hnamed hws hc

theorem memberLoopAt_ptr (key : Text) {q : Text} (hq : q <:+ txt) :
    memberLoopAt (txt ++ [0]) key (ptr txt q) = some ((memberLoop key q).map (foundPtr txt)) := by
  fun_induction memberLoop key q with
  | case1 q h =>
    have hread := readMemberAt_ptr hq
    rw [h] at hread
    exact memberLoopAt_none hread
  | case2 q e h nameLen hn =>
    have hread := readMemberAt_ptr hq
    rw [h] at hread
    have hord := readMember_ordered h
    have hnamed := isNamedAt_ptr hq hord key
    rw [decide_eq_true hn] at hnamed
    have hvalue := (hord.value.trans hq).length_le
    have hvalueEnd := hord.valueEnd.length_le
    have hlen : ptr txt e.valueEnd - ptr txt e.value = e.value.length - e.valueEnd.length := by
      unfold ptr
      omega
    rw [memberLoopAt_found hread hnamed]
    simp [entryPtr, foundPtr, hlen]
  | case3 q e h nameLen hn hend =>
    have hc : (txt ++ [0])[ptr txt (skipWs e.valueEnd)]? = some 0 := by
      rw [hend]
      exact read_end
    rw [memberLoopAt_other hq h hn hc]
    exact if_pos (by decide)
  | case4 q e h nameLen hn c next hnext hc =>
    have hcomma := (skipWs_suffix e.valueEnd).trans ((readMember_ordered h).valueEnd_suffix.trans hq)
    rw [hnext] at hcomma
    have hread := read_cons hcomma
    rw [← hnext] at hread
    rw [memberLoopAt_other hq h hn hread]
    exact if_pos hc
  | case5 q e h nameLen hn c next hnext hc ih =>
    have hcomma := (skipWs_suffix e.valueEnd).trans ((readMember_ordered h).valueEnd_suffix.trans hq)
    rw [hnext] at hcomma
    have hread := read_cons hcomma
    rw [← hnext] at hread
    rw [memberLoopAt_other hq h hn hread, if_neg hc, hnext, ptr_tail hcomma]
    exact ih (tail_suffix hcomma)

/-- The lookup with pointers is the lookup on the text. -/
theorem codexJsonMemberAt_ptr (txt key : Text) :
    codexJsonMemberAt (txt ++ [0]) key = some ((codexJsonMember txt key).map (foundPtr txt)) := by
  have hstart : ptr txt txt = 0 := Nat.sub_self _
  have hws := skipWsAt_ptr (List.suffix_refl txt)
  have hbegin := skipWs_suffix txt
  rw [hstart] at hws
  rw [codexJsonMemberAt, hws, Option.bind_some, codexJsonMember]
  cases hp : skipWs txt with
  | nil =>
    rw [read_end]
    rfl
  | cons c p =>
    rw [hp] at hbegin
    rw [read_cons hbegin, Option.bind_some]
    dsimp only
    split
    case isTrue => rfl
    case isFalse =>
      rw [ptr_tail hbegin]
      exact memberLoopAt_ptr key (tail_suffix hbegin)

/-- A value that is found lies in the text. -/
theorem memberLoop_span {key q value : Text} {len : ℕ} (h : memberLoop key q = some (value, len)) :
    value <:+ q ∧ len ≤ value.length := by
  fun_induction memberLoop key q with
  | case1 | case3 | case4 => cases h
  | case2 q e he =>
    cases h
    exact ⟨(readMember_ordered he).value, Nat.sub_le _ _⟩
  | case5 q e he _ _ c next hnext _ ih =>
    obtain ⟨hvalue, hlen⟩ := ih h
    have hord := readMember_ordered he
    have hcomma := skipWs_suffix e.valueEnd
    rw [hnext] at hcomma
    have hq := tail_suffix (hcomma.trans (hord.valueEnd.trans hord.value))
    exact ⟨hvalue.trans hq, hlen⟩

theorem codexJsonMember_span {txt key value : Text} {len : ℕ}
    (h : codexJsonMember txt key = some (value, len)) : value <:+ txt ∧ len ≤ value.length := by
  have hbegin := skipWs_suffix txt
  unfold codexJsonMember at h
  split at h
  · cases h
  next c p hp =>
    rw [hp] at hbegin
    split at h
    · cases h
    · obtain ⟨hvalue, hlen⟩ := memberLoop_span h
      exact ⟨hvalue.trans (tail_suffix hbegin), hlen⟩

theorem readMember_parts {q name nameEnd rest valueEnd : Text} (hname : skipWs q = quote :: name)
    (hstring : stringRest name = some nameEnd) (hcolon : skipWs nameEnd = ascii ':' :: rest)
    (hvalue : skipValue (skipWs rest) = some valueEnd) :
    readMember q = some ⟨name, nameEnd, skipWs rest, valueEnd⟩ := by
  have hskip : skipString (quote :: name) = some nameEnd := hstring
  simp only [readMember, hname, hskip, hcolon, hvalue, Option.bind_some, Option.map_some, ne_eq,
    not_true, if_false]

theorem codexJsonMember_head {key q p : Text} {e : Entry} (hbegin : skipWs q = beginObject :: p)
    (hread : readMember p = some e)
    (hn : e.name.length - e.nameEnd.length - 1 = key.length ∧ e.name.take key.length = key) :
    codexJsonMember q key = some (e.value, e.value.length - e.valueEnd.length) := by
  rw [codexJsonMember, hbegin]
  dsimp only
  rw [if_neg (not_not_intro rfl), memberLoop]
  split
  next h => cases hread.symm.trans h
  next e' h =>
    cases hread.symm.trans h
    exact if_pos hn

/-- The lookup reads nothing after the NUL, and what it returns lies before it. -/
def Finds (txt key : Text) : Prop :=
  ∃ found, codexJsonMemberAt (txt ++ [0]) key = some found ∧
    ∀ v ∈ found, v.1 + v.2 ≤ txt.length

/-- It fails or moves on from `p`, at most up to the NUL and without a read after it. -/
def Advances (txt : Text) (p : ℕ) (r : Option (Option ℕ)) : Prop :=
  ∃ o, r = some o ∧ ∀ q ∈ o, p < q ∧ q ≤ txt.length

theorem codexJsonMember_finds (txt key : Text) : Finds txt key := by
  refine ⟨_, codexJsonMemberAt_ptr txt key, fun v hv => ?_⟩
  obtain ⟨⟨value, len⟩, h, rfl⟩ := Option.map_eq_some_iff.mp hv
  obtain ⟨hvalue, hlen⟩ := codexJsonMember_span h
  have hle := hvalue.length_le
  simp only [foundPtr, ptr]
  omega

theorem advances_of_length {q : Text} (hq : q <:+ txt) {o : Option Text}
    (h : ∀ r ∈ o, r.length < q.length) :
    Advances txt (ptr txt q) (some (o.map (ptr txt))) := by
  refine ⟨_, rfl, fun r hr => ?_⟩
  obtain ⟨rest, hrest, rfl⟩ := Option.map_eq_some_iff.mp hr
  have hlt := h rest hrest
  have hle := hq.length_le
  refine ⟨?_, Nat.sub_le _ _⟩
  unfold ptr
  omega

theorem skipStringAt_advances {c : UInt8} {q : Text} (hq : c :: q <:+ txt) :
    Advances txt (ptr txt (c :: q)) (skipStringAt (txt ++ [0]) (ptr txt (c :: q))) := by
  rw [skipStringAt_ptr hq]
  refine advances_of_length hq fun r hr => ?_
  have hlt := stringRest_length hr
  exact Nat.lt_succ_of_lt hlt

/-- A character that no value is without. -/
def Solid (c : UInt8) : Prop := c ≠ 0 ∧ c ∉ text ",\x7d] \t\n\r"

theorem skipValue_shorter {c : UInt8} {q r : Text} (hc : Solid c)
    (h : skipValue (c :: q) = some r) : r.length < (c :: q).length := by
  unfold skipValue at h
  split at h
  · exact Nat.lt_succ_of_lt (stringRest_length h)
  · split at h
    · exact skipNested_length h
    · cases h
      have hscalar : skipScalar (c :: q) = skipScalar q := if_pos hc
      rw [hscalar]
      exact Nat.lt_succ_of_le (skipScalar_length q)

/-- What no value begins with is passed as a value of no characters. -/
theorem skipValue_empty {q : Text} (h : ∀ c ∈ q.head?, ¬ Solid c) : skipValue q = some q := by
  cases q with
  | nil => rfl
  | cons c q =>
    have hc : ¬ Solid c := h c rfl
    have hquote : c ≠ quote := by
      rintro rfl
      exact hc ⟨by decide, by decide⟩
    have hopen : ¬ (c = beginObject ∨ c = beginArray) := by
      rintro (rfl | rfl) <;> exact hc ⟨by decide, by decide⟩
    simp only [skipValue, List.head?_cons, Option.some.injEq, if_neg hquote, if_neg hopen]
    exact if_neg hc

/-- The lookup and `skip_string` are safe on any bytes; `skip_value` stays in place, and does
not fail, just where no value begins. -/
theorem safe_iff (txt key : Text) {p : ℕ} (hp : p ≤ txt.length) :
    (Finds txt key ∧
      (txt[p]? = some quote → Advances txt p (skipStringAt (txt ++ [0]) p)) ∧
      Advances txt p (skipValueAt (txt ++ [0]) p)) ↔
    ∃ c, txt[p]? = some c ∧ Solid c := by
  have hq : txt.drop p <:+ txt := List.drop_suffix p txt
  have hptr : ptr txt (txt.drop p) = p := by
    simp only [ptr, List.length_drop]
    omega
  have hhead : (txt.drop p).head? = txt[p]? := List.head?_drop
  generalize txt.drop p = q at hq hptr hhead
  subst hptr
  rw [← hhead]
  constructor
  · rintro ⟨-, -, o, ho, hadv⟩
    by_contra hnone
    have hempty := skipValue_empty fun c hc hsolid => hnone ⟨c, hc, hsolid⟩
    rw [skipValueAt_ptr hq, hempty] at ho
    cases ho
    exact Nat.lt_irrefl _ (hadv _ rfl).1
  · rintro ⟨c, hc, hsolid⟩
    cases q with
    | nil => cases hc
    | cons d q =>
      cases hc
      refine ⟨codexJsonMember_finds txt key, fun _ => skipStringAt_advances hq, ?_⟩
      rw [skipValueAt_ptr hq]
      exact advances_of_length hq fun r hr => skipValue_shorter hsolid hr

def numberedMethod : Text := beginObject :: (quoted (text "method") ++ text ":0\x7d")

theorem safe_iff_number :
    Finds numberedMethod (text "method") ∧
      (numberedMethod[10]? = some quote →
        Advances numberedMethod 10 (skipStringAt (numberedMethod ++ [0]) 10)) ∧
      Advances numberedMethod 10 (skipValueAt (numberedMethod ++ [0]) 10) :=
  (safe_iff numberedMethod (text "method") (by decide)).mpr
    ⟨ascii '0', by decide, by decide, by decide⟩

def emptyMethod : Text := beginObject :: (quoted (text "method") ++ [nameSeparator, endObject])

/-- Its value is passed where it begins, and is found there with no characters. -/
theorem emptyMethod_stays :
    codexJsonMemberAt (emptyMethod ++ [0]) (text "method") = some (some (10, 0)) ∧
    skipValueAt (emptyMethod ++ [0]) 10 = some (some 10) ∧
    ¬ (Finds emptyMethod (text "method") ∧
      (emptyMethod[10]? = some quote →
        Advances emptyMethod 10 (skipStringAt (emptyMethod ++ [0]) 10)) ∧
      Advances emptyMethod 10 (skipValueAt (emptyMethod ++ [0]) 10)) := by
  have hptr : ptr emptyMethod [endObject] = 10 := by decide
  have hempty : skipValue [endObject] = some [endObject] := rfl
  have hvalue : skipValueAt (emptyMethod ++ [0]) 10 = some (some 10) := by
    have hend : [endObject] <:+ emptyMethod := by decide
    have hskip := skipValueAt_ptr hend
    rw [hptr, hempty, Option.map_some, hptr] at hskip
    exact hskip
  refine ⟨?_, hvalue, ?_⟩
  · have hname : Chars (text "method") := chars_of_unescaped (by decide)
    have hbegin : skipWs emptyMethod = beginObject :: emptyMethod.tail := rfl
    have hquote : skipWs emptyMethod.tail = quote :: emptyMethod.tail.tail := rfl
    have hread := readMember_parts hquote (stringRest_chars hname [nameSeparator, endObject]) rfl
      hempty
    rw [codexJsonMemberAt_ptr, codexJsonMember_head hbegin hread (by decide)]
    exact congrArg (fun p => some (some (p, 0))) hptr
  · rintro ⟨-, -, o, ho, hadv⟩
    cases hvalue.symm.trans ho
    exact Nat.lt_irrefl _ (hadv 10 rfl).1

end ZephyrApps.CodexJsonReads
