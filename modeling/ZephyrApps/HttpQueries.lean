import ZephyrApps.CBuffers
import ZephyrApps.HttpUtil

/-!
# Query strings in their buffers

`http_query_get` and `http_query_flag` over the bytes of the URL, of the key and of `out`, which has
`out_len` bytes. An access outside of them is `none`; what is returned comes with `out` after the
call.
-/
namespace ZephyrApps.HttpQueries
open AppSettings CStrings HttpUtil CBuffers

/-- A round of the loop of `http_query_get`, for the pair at `p`: what it returns if the pair is for
the key. -/
def pairAt (url key out : List UInt8) (keyLen p pairLen : ℕ) :
    Option (Option (List UInt8 × Int)) :=
  if keyLen < pairLen then do
    let same ← strncmp url p key 0 keyLen
    if same then
      let c ← url[p + keyLen]?
      if c = ascii '=' then
        let val := p + keyLen + 1
        let valLen := pairLen - keyLen - 1
        if out.length ≤ valLen then some (some (out, enospc))
        else
          let bytes ← readAt url val valLen
          let out ← writeAt out 0 bytes
          let out ← writeAt out valLen [0]
          some (some (out, 0))
      else some none
    else some none
  else some none

/-- The loop of `http_query_get` over the pairs from `p` on. -/
def queryLoopAt (url key out : List UInt8) (keyLen p : ℕ) : Option (List UInt8 × Int) :=
  match _h : url[p]? with
  | none => none
  | some c =>
    if c = 0 then some (out, enoent)
    else
      match _he : strchr url p (ascii '&') with
      | none => none
      | some none =>
        (strlen url p).bind fun pairLen =>
          (pairAt url key out keyLen p pairLen).map fun r => r.getD (out, enoent)
      | some (some e) =>
        match pairAt url key out keyLen p (e - p) with
        | none => none
        | some (some r) => some r
        | some none => queryLoopAt url key out keyLen (e + 1)
termination_by url.length - p
decreasing_by
  have hlt := (List.getElem?_eq_some_iff.mp _h).1
  have hle := strchr_le _he
  omega

/-- `http_query_get` -/
def httpQueryGetAt (url key out : List UInt8) : Option (List UInt8 × Int) :=
  if out.length = 0 then some (out, einval)
  else do
    let out ← writeAt out 0 [0]
    match ← strchr url 0 (ascii '?') with
    | none => some (out, enoent)
    | some p => do
      let keyLen ← strlen key 0
      queryLoopAt url key out keyLen (p + 1)

/-- `http_query_flag`; `val` is what its buffer holds before. -/
def httpQueryFlagAt (url key val : List UInt8) : Option Bool := do
  let (val, ret) ← httpQueryGetAt url key val
  if ret = 0 then some (decide ((← stringAt val 0) = text "1")) else some false

/-- `val` is what follows `key` and an equals sign in the first pair of the query that begins with
these. -/
def FirstPair (key url val : Text) : Prop :=
  ∃ path q before after, url = path ++ ascii '?' :: q ∧ ascii '?' ∉ path ∧
    q.splitOn (ascii '&') = before ++ (key ++ ascii '=' :: val) :: after ∧
    ∀ pair ∈ before, ¬ ∃ v, pair = key ++ ascii '=' :: v

theorem valueOf_eq_some {key pair val : Text} :
    valueOf key pair = some val ↔ pair = key ++ ascii '=' :: val := by
  rw [valueOf]
  split
  case isTrue h =>
    obtain ⟨v, rfl⟩ := h
    simp
  case isFalse h =>
    refine iff_of_false (Option.some_ne_none val).symm ?_
    rintro rfl
    exact h ⟨val, by simp⟩

theorem query_eq_some {url q : Text} :
    query url = some q ↔ ∃ path, url = path ++ ascii '?' :: q ∧ ascii '?' ∉ path := by
  rw [query]
  by_cases hm : ascii '?' ∈ url
  · obtain ⟨path, q', rfl, hpath⟩ := List.eq_append_cons_of_mem hm
    rw [dropWhile_ne_append hpath]
    constructor
    · intro h
      exact ⟨path, by rw [Option.some.inj h], hpath⟩
    · rintro ⟨path', he, hpath'⟩
      have hdrop := congrArg (List.dropWhile (· ≠ ascii '?')) he
      rw [dropWhile_ne_append hpath, dropWhile_ne_append hpath'] at hdrop
      exact congrArg some (List.cons.inj hdrop).2
  · rw [dropWhile_ne_self hm]
    refine iff_of_false (Option.some_ne_none q).symm ?_
    rintro ⟨path, rfl, -⟩
    exact hm (by simp)

/-- The value that the search for the key finds is that of the first pair. -/
theorem firstValue_eq_some {key url val : Text} :
    firstValue key url = some val ↔ FirstPair key url val := by
  simp only [firstValue, Option.bind_eq_some_iff, query_eq_some, List.findSome?_eq_some_iff,
    valueOf_eq_some, Option.eq_none_iff_forall_not_mem, Option.mem_def]
  constructor
  · rintro ⟨q, ⟨path, hurl, hpath⟩, before, pair, after, hsplit, rfl, hbefore⟩
    exact ⟨path, q, before, after, hurl, hpath, hsplit,
      fun p hp h => h.elim fun v hv => hbefore p hp v hv⟩
  · rintro ⟨path, q, before, after, hurl, hpath, hsplit, hbefore⟩
    exact ⟨q, ⟨path, hurl, hpath⟩, before, _, after, hsplit, rfl,
      fun p hp v hv => hbefore p hp ⟨v, hv⟩⟩

/-- `out` after a search, and what `http_query_get` returns. -/
def stored (out : List UInt8) : Except Int Text → List UInt8 × Int
  | .ok val => (val ++ 0 :: out.drop (val.length + 1), 0)
  | .error e => (out, e)

variable {key q out : List UInt8}

/-- `memcpy` of a value that fits, and the NUL after it. -/
theorem writeAt_val {val : Text} (h : val.length < out.length) :
    writeAt out 0 val = some (val ++ out.drop val.length) ∧
      writeAt (val ++ out.drop val.length) val.length [0] =
        some (val ++ 0 :: out.drop (val.length + 1)) := by
  have hval := writeAt_append (b := out) [] h.le
  have hroom : ([0] : List UInt8).length ≤ (out.drop val.length).length := by
    rw [List.length_drop, List.length_singleton]
    omega
  have hnul := writeAt_append val hroom
  exact ⟨by simpa using hval, by simpa using hnul⟩

/-- A round looks for the key in the pair, and stores what follows it there. -/
theorem pairAt_eq (out pre rest more : List UInt8) {pair val : Text} (hq : 0 ∉ q) (hkey : 0 ∉ key)
    (hp : pair = q.takeWhile (· ≠ ascii '&'))
    (hv : val = (q.drop (key.length + 1)).take (pair.length - key.length - 1)) :
    pairAt (pre ++ (q ++ 0 :: rest)) (key ++ 0 :: more) out key.length pre.length pair.length =
      some (if pairFor key q pair then
        some (stored out (if out.length ≤ val.length then .error enospc else .ok val)) else none) := by
  have hpair : pair.length ≤ q.length := hp ▸ (List.takeWhile_prefix _).length_le
  rw [pairAt, pairFor]
  by_cases hlen : key.length < pair.length
  · have hstr : strncmp (pre ++ (q ++ 0 :: rest)) pre.length (key ++ 0 :: more) 0 key.length =
        some (decide (q.take key.length = key)) := by
      have h := strncmp_append pre q rest [] key more key.length
      simpa [cstr_of_not_mem hq, cstr_of_not_mem hkey] using h
    have hat : (pre ++ (q ++ 0 :: rest))[pre.length + key.length]? = q[key.length]? := by
      rw [List.getElem?_append_right (Nat.le_add_right _ _), Nat.add_sub_cancel_left,
        List.getElem?_append_left (hlen.trans_le hpair)]
    rw [if_pos hlen, hstr, hat, Option.bind_eq_bind, Option.bind_some]
    by_cases htake : q.take key.length = key
    · obtain ⟨c, hc⟩ : ∃ c, q[key.length]? = some c :=
        ⟨_, List.getElem?_eq_getElem (hlen.trans_le hpair)⟩
      by_cases heq : c = ascii '='
      · have hval : val.length = pair.length - key.length - 1 := by
          rw [hv, List.length_take, List.length_drop]
          omega
        have hread : readAt (pre ++ (q ++ 0 :: rest)) (pre.length + key.length + 1) val.length =
            some val := by
          have hsplit : pre ++ (q ++ 0 :: rest) =
              (pre ++ q.take (key.length + 1)) ++ (q.drop (key.length + 1) ++ 0 :: rest) := by
            rw [List.append_assoc, ← List.append_assoc (q.take _), List.take_append_drop]
          have hpos : (pre ++ q.take (key.length + 1)).length = pre.length + key.length + 1 := by
            rw [List.length_append, List.length_take]
            omega
          have hle : val.length ≤ (q.drop (key.length + 1)).length := by
            rw [hval, List.length_drop]
            omega
          rw [hsplit, ← hpos, readAt_append _ (by rw [List.length_append]; omega),
            List.take_append_of_le_length hle, hval, ← hv]
        simp only [htake, hc, heq, hlen, decide_true, if_true, Option.bind_eq_bind, Option.bind_some,
          Bool.and_self, ← hval]
        by_cases hfit : out.length ≤ val.length
        · rw [if_pos hfit, if_pos hfit]
          rfl
        · obtain ⟨hcopy, hnul⟩ := writeAt_val (Nat.not_le.mp hfit)
          rw [if_neg hfit, if_neg hfit, hread, Option.bind_some, hcopy, Option.bind_some, hnul]
          rfl
      · simp [htake, hc, heq]
    · simp [htake]
  · simp [hlen]

section Round

variable {url keyBuf : List UInt8} {keyLen p e n : ℕ} {c : UInt8}

/-- A round of the loop, for the pair that ends where the next `&` is, or the string. -/
theorem queryLoopAt_pair (hc : url[p]? = some c) :
    queryLoopAt url keyBuf out keyLen p =
      if c = 0 then some (out, enoent)
      else
        (strchr url p (ascii '&')).bind fun next =>
          match next with
          | none =>
            (strlen url p).bind fun pairLen =>
              (pairAt url keyBuf out keyLen p pairLen).map fun r => r.getD (out, enoent)
          | some e =>
            (pairAt url keyBuf out keyLen p (e - p)).bind fun r =>
              r.or (queryLoopAt url keyBuf out keyLen (e + 1)) := by
  rw [queryLoopAt]
  split
  · simp_all
  · next d hd =>
    obtain rfl : c = d := Option.some.inj (hc.symm.trans hd)
    by_cases h0 : c = 0
    · rw [if_pos h0, if_pos h0]
    rw [if_neg h0, if_neg h0]
    split
    · next he => rw [he]; rfl
    · next he => rw [he]; rfl
    · next e he =>
      rw [he, Option.bind_some]
      dsimp only
      cases pairAt url keyBuf out keyLen p (e - p) with
      | none => rfl
      | some r => cases r <;> rfl

theorem queryLoopAt_end (hc : url[p]? = some 0) :
    queryLoopAt url keyBuf out keyLen p = some (out, enoent) := by
  rw [queryLoopAt_pair hc, if_pos rfl]

theorem queryLoopAt_next (hc : url[p]? = some c) (h0 : c ≠ 0)
    (he : strchr url p (ascii '&') = some (some e)) :
    queryLoopAt url keyBuf out keyLen p = (pairAt url keyBuf out keyLen p (e - p)).bind fun r =>
      r.or (queryLoopAt url keyBuf out keyLen (e + 1)) := by
  rw [queryLoopAt_pair hc, if_neg h0, he, Option.bind_some]

theorem queryLoopAt_last (hc : url[p]? = some c) (h0 : c ≠ 0)
    (he : strchr url p (ascii '&') = some none) (hn : strlen url p = some n) :
    queryLoopAt url keyBuf out keyLen p =
      (pairAt url keyBuf out keyLen p n).map fun r => r.getD (out, enoent) := by
  rw [queryLoopAt_pair hc, if_neg h0, he, Option.bind_some]
  simp only [hn, Option.bind_some]

/-- What a round of the loop goes on with, if the pair is not for the key. -/
theorem queryLoopAt_round (pre rest : List UInt8) (hq : 0 ∉ q) (hne : q ≠ [])
    {r : Option (List UInt8 × Int)}
    (hr : pairAt (pre ++ (q ++ 0 :: rest)) keyBuf out keyLen pre.length
      (q.takeWhile (· ≠ ascii '&')).length = some r) :
    queryLoopAt (pre ++ (q ++ 0 :: rest)) keyBuf out keyLen pre.length =
      r.or (match q.dropWhile (· ≠ ascii '&') with
        | [] => some (out, enoent)
        | _ :: _ =>
          queryLoopAt (pre ++ (q ++ 0 :: rest)) keyBuf out keyLen
            (pre.length + (q.takeWhile (· ≠ ascii '&')).length + 1)) := by
  obtain ⟨c, q', rfl⟩ := List.exists_cons_of_ne_nil hne
  have hat : (pre ++ (c :: q' ++ 0 :: rest))[pre.length]? = some c := by simp
  have h0 : c ≠ 0 := fun h => hq (by simp [h])
  have hstr := strchr_append pre (c :: q') rest (ascii '&')
  rw [cstr_of_not_mem hq] at hstr
  by_cases hm : ascii '&' ∈ c :: q'
  · rw [if_pos hm] at hstr
    rw [queryLoopAt_next hat h0 hstr, Nat.add_sub_cancel_left, hr, Option.bind_some]
    obtain ⟨pair, next, he, hpair⟩ := List.eq_append_cons_of_mem hm
    rw [he, dropWhile_ne_append hpair]
  · rw [if_neg hm] at hstr
    have hlast := strlen_append pre (c :: q') rest
    rw [cstr_of_not_mem hq] at hlast
    rw [takeWhile_ne_self hm] at hr
    rw [queryLoopAt_last hat h0 hstr hlast, hr, dropWhile_ne_self hm]
    cases r <;> rfl

end Round

/-- The loop over the buffers does what the loop over the pairs does. -/
theorem queryLoopAt_eq (out pre rest more : List UInt8) (hq : 0 ∉ q) (hkey : 0 ∉ key) :
    queryLoopAt (pre ++ (q ++ 0 :: rest)) (key ++ 0 :: more) out key.length pre.length =
      some (stored out (queryLoop key out.length q)) := by
  induction q using queryLoop.induct key out.length generalizing pre with
  | case1 =>
    rw [queryLoopAt_end (by simp), queryLoop]
    rfl
  | case2 q pair val hne hfor hlen =>
    have hpair := pairAt_eq out pre rest more hq hkey rfl rfl
    rw [if_pos hfor, if_pos hlen] at hpair
    rw [queryLoopAt_round pre rest hq hne hpair, queryLoop, if_neg hne, if_pos hfor, if_pos hlen]
    rfl
  | case3 q pair val hne hfor hlen =>
    have hpair := pairAt_eq out pre rest more hq hkey rfl rfl
    rw [if_pos hfor, if_neg hlen] at hpair
    rw [queryLoopAt_round pre rest hq hne hpair, queryLoop, if_neg hne, if_pos hfor, if_neg hlen]
    rfl
  | case4 q pair hne hfor hnext =>
    have hpair := pairAt_eq out pre rest more hq hkey rfl rfl
    rw [if_neg hfor] at hpair
    rw [queryLoopAt_round pre rest hq hne hpair, queryLoop, if_neg hne, if_neg hfor, hnext]
    rfl
  | case5 q pair hne hfor c next hnext ih =>
    have hpair := pairAt_eq out pre rest more hq hkey rfl rfl
    rw [if_neg hfor] at hpair
    have hsplit : q = pair ++ c :: next := by
      rw [← hnext, List.takeWhile_append_dropWhile]
    have hpos : (pre ++ pair ++ [c]).length = pre.length + pair.length + 1 := by simp [Nat.add_assoc]
    have hbuf : pre ++ pair ++ [c] ++ (next ++ 0 :: rest) = pre ++ (q ++ 0 :: rest) := by
      rw [congrArg (· ++ 0 :: rest) hsplit]
      simp
    have hrest := ih (pre ++ pair ++ [c]) fun hm => hq (by simp [hsplit, hm])
    rw [hbuf, hpos] at hrest
    rw [queryLoopAt_round pre rest hq hne hpair, queryLoop, if_neg hne, if_neg hfor, hnext]
    exact hrest

variable {url : Text}

/-- The search in the buffers stores what the search in the strings returns; `out` is empty before
it. -/
theorem httpQueryGetAt_eq (rest more : List UInt8) (hurl : 0 ∉ url) (hkey : 0 ∉ key)
    (hout : 0 < out.length) : httpQueryGetAt (url ++ 0 :: rest) (key ++ 0 :: more) out =
      some (stored (0 :: out.tail) (httpQueryGet url key out.length)) := by
  obtain ⟨b, out', rfl⟩ := List.exists_cons_of_ne_nil (List.ne_nil_of_length_pos hout)
  have hclear : writeAt (b :: out') 0 [0] = some (0 :: out') := by
    simpa using writeAt_append (b := b :: out') (c := [0]) [] (Nat.succ_le_succ (Nat.zero_le _))
  have hstr := strchr_append [] url rest (ascii '?')
  have hkeyLen := strlen_append [] key more
  rw [List.nil_append, List.length_nil, cstr_of_not_mem hurl, Nat.zero_add] at hstr
  rw [List.nil_append, List.length_nil, cstr_of_not_mem hkey] at hkeyLen
  rw [httpQueryGetAt, if_neg hout.ne', httpQueryGet, if_neg hout.ne']
  simp only [hclear, hstr, hkeyLen, Option.bind_eq_bind, Option.bind_some]
  by_cases hm : ascii '?' ∈ url
  · obtain ⟨path, q, rfl, hpath⟩ := List.eq_append_cons_of_mem hm
    have hq : 0 ∉ q := fun h => hurl (by simp [h])
    have hloop := queryLoopAt_eq (0 :: out') (path ++ [ascii '?']) rest more hq hkey
    rw [if_pos hm, takeWhile_ne_append hpath, dropWhile_ne_append hpath]
    simpa using hloop
  · rw [if_neg hm, dropWhile_ne_self hm]
    rfl

/-- The search is its reference: the first pair with the name decides, its value is copied whole or
not at all, and no byte after the NUL of the URL is read. -/
theorem httpQueryGet_reference (hurl : 0 ∉ url) (hkey : 0 ∉ key) (hout : 0 < out.length) :
    ∃ r, httpQueryGetAt (url ++ [0]) (key ++ [0]) out = some r ∧
      (r.2 = 0 ↔ ∃ val, FirstPair key url val ∧ val.length < out.length) ∧
      (r.2 = enospc ↔ ∃ val, FirstPair key url val ∧ out.length ≤ val.length) ∧
      (r.2 = enoent ↔ ¬ ∃ val, FirstPair key url val) ∧
      (∀ val, FirstPair key url val → val.length < out.length →
        r.1 = val ++ 0 :: out.drop (val.length + 1)) ∧
      (r.2 ≠ 0 → r.1 = 0 :: out.tail) := by
  refine ⟨_, httpQueryGetAt_eq [] [] hurl hkey hout, ?_⟩
  rw [httpQueryGet_eq url key hout]
  simp only [← firstValue_eq_some]
  cases hv : firstValue key url with
  | none => simp [copied, stored, enoent, enospc]
  | some val =>
    by_cases hfit : out.length ≤ val.length
    · have hlt := Nat.not_lt.mpr hfit
      rw [copied, if_pos hfit]
      simp [stored, enoent, enospc, hfit, hlt]
    · have hlt := Nat.not_le.mp hfit
      rw [copied, if_neg hfit]
      simp [stored, enoent, enospc, hlt]

/-- In a buffer that holds a longer name with the same end before the key. -/
theorem httpQueryGet_reference_slot :
    let out : List UInt8 := List.replicate 8 0xAA
    ∃ r, httpQueryGetAt (text "/p?xslot=9&slot=2" ++ [0]) (text "slot" ++ [0]) out = some r ∧
      r.2 = 0 ∧ r.1 = text "2" ++ 0 :: List.replicate 6 0xAA := by
  intro out
  have hfirst : FirstPair (text "slot") (text "/p?xslot=9&slot=2") (text "2") := by
    refine ⟨text "/p", text "xslot=9&slot=2", [text "xslot=9"], [], rfl, by decide, by decide, ?_⟩
    rintro pair hp ⟨v, rfl⟩
    have he := List.mem_singleton.mp hp
    exact absurd (congrArg (List.take 4) he) (by simp [text, ascii])
  have hurl : 0 ∉ text "/p?xslot=9&slot=2" := by decide
  have hkey : 0 ∉ text "slot" := by decide
  have hout : 0 < out.length := by decide
  obtain ⟨r, hr, hok, -, -, hval, -⟩ := httpQueryGet_reference hurl hkey hout
  exact ⟨r, hr, hok.mpr ⟨_, hfirst, by decide⟩, hval _ hfirst (by decide)⟩

/-- The pieces of a string stand in it. -/
theorem infix_of_mem_splitOn {sep : UInt8} {s piece : Text} (h : piece ∈ s.splitOn sep) :
    piece <:+: s := by
  induction hlen : s.length using Nat.strong_induction_on generalizing s with
  | _ len ih =>
    rw [splitOn_eq, List.mem_cons] at h
    rcases h with rfl | h
    · exact (List.takeWhile_prefix _).isInfix
    · have hsuffix : s.dropWhile (· ≠ sep) <:+ s := List.dropWhile_suffix _
      cases hd : s.dropWhile (· ≠ sep) with
      | nil =>
        rw [hd] at h
        cases h
      | cons c next =>
        rw [hd] at h hsuffix
        have hnext : next <:+ s := (List.suffix_cons c next).trans hsuffix
        have hlt : next.length < len := by
          have hle := hsuffix.length_le
          rw [List.length_cons] at hle
          omega
        exact (ih _ hlt h rfl).trans hnext.isInfix

theorem FirstPair.in_url {val : Text} (h : FirstPair key url val) : val <:+: url := by
  obtain ⟨path, q, before, after, rfl, -, hsplit, -⟩ := h
  have hpair : key ++ ascii '=' :: val <:+: q := infix_of_mem_splitOn (by rw [hsplit]; simp)
  have hval : val <:+ key ++ ascii '=' :: val := ⟨key ++ [ascii '='], by simp⟩
  have hq : q <:+ path ++ ascii '?' :: q := ⟨path ++ [ascii '?'], by simp⟩
  exact (hval.isInfix.trans hpair).trans hq.isInfix

/-- The flag in the buffers is the flag of the strings, whatever the buffer of the value held. -/
theorem httpQueryFlagAt_eq {val : List UInt8} (rest more : List UInt8) (hurl : 0 ∉ url)
    (hkey : 0 ∉ key) (hval : val.length = 4) :
    httpQueryFlagAt (url ++ 0 :: rest) (key ++ 0 :: more) val = some (httpQueryFlag url key) := by
  have hpos : 0 < val.length := by omega
  have hget := httpQueryGetAt_eq rest more hurl hkey hpos
  rw [hval] at hget
  rw [httpQueryFlagAt, hget, httpQueryFlag, httpQueryGet_eq url key (by decide)]
  cases hv : firstValue key url with
  | none => rfl
  | some v =>
    by_cases hfit : 4 ≤ v.length
    · rw [copied, if_pos hfit]
      rfl
    · have hno : 0 ∉ v := fun hm => hurl ((FirstPair.in_url (firstValue_eq_some.mp hv)).subset hm)
      have hstr := stringAt_append [] v (val.tail.drop v.length)
      rw [copied, if_neg hfit]
      rw [List.nil_append, List.length_nil, cstr_of_not_mem hno] at hstr
      simp only [stored, List.drop_succ_cons, Option.bind_eq_bind, Option.bind_some, if_true, hstr]

end ZephyrApps.HttpQueries
