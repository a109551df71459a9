import ZephyrApps.AppSettings
import ZephyrApps.CStrings

/-!
# Request parsing

The functions of `http_util.c` over C strings. A pointer into a string is what
remains of it, an output buffer is the string written to it, and a negative return
is the error of an `Except`. `firstValue`, `Denotes` and `DottedQuad` say what the
texts mean.
-/
namespace ZephyrApps.HttpUtil
open AppSettings CStrings

/-- The pair at `p` is for `key`. -/
def pairFor (key p pair : Text) : Bool :=
  decide (key.length < pair.length) && decide (p.take key.length = key) &&
    decide (p[key.length]? = some (ascii '='))

/-- The loop of `http_query_get` over the pairs from `p` on. -/
def queryLoop (key : Text) (outLen : ℕ) (p : Text) : Except Int Text :=
  let pair := p.takeWhile (· ≠ ascii '&')
  let val := (p.drop (key.length + 1)).take (pair.length - key.length - 1)
  if p = [] then .error enoent
  else if pairFor key p pair then if outLen ≤ val.length then .error enospc else .ok val
  else
    match _h : p.dropWhile (· ≠ ascii '&') with
    | [] => .error enoent
    | _ :: next => queryLoop key outLen next
  termination_by p.length
  decreasing_by
    have hl := (List.dropWhile_suffix (l := p) (· ≠ ascii '&')).length_le
    rw [_h] at hl
    exact hl

/-- `http_query_get`; on an error the buffer holds the empty string. -/
def httpQueryGet (url key : Text) (outLen : ℕ) : Except Int Text :=
  if outLen = 0 then .error einval
  else
    match url.dropWhile (· ≠ ascii '?') with
    | [] => .error enoent
    | _ :: p => queryLoop key outLen p

/-- `http_query_flag` -/
def httpQueryFlag (url key : Text) : Bool :=
  match httpQueryGet url key 4 with
  | .ok val => decide (val = text "1")
  | .error _ => false

/-- The digits of one octet: its value, how many they are, and what follows. -/
def octetLoop (v digits : ℕ) : Text → Option (ℕ × ℕ × Text)
  | [] => some (v, digits, [])
  | c :: s =>
    if ascii '0' ≤ c ∧ c ≤ ascii '9' then
      let v := v * 10 + (c.toNat - 48)
      if 255 < v ∨ 3 < digits + 1 then none else octetLoop v (digits + 1) s
    else some (v, digits, c :: s)

/-- The octets that remain, with a dot after each but the last. -/
def octetsLoop (ip : UInt32) (s : Text) : ℕ → Option (UInt32 × Text)
  | 0 => some (ip, s)
  | k + 1 => do
    let (v, digits, s) ← octetLoop 0 0 s
    guard (digits ≠ 0)
    let ip := (ip <<< 8) ||| UInt32.ofNat v
    if k = 0 then some (ip, s)
    else
      match s with
      | [] => none
      | c :: s => if c = ascii '.' then octetsLoop ip s k else none

/-- `http_parse_ipv4` -/
def httpParseIpv4 (s : Text) : Except Int UInt32 :=
  match octetsLoop 0 s 4 with
  | some (ip, []) => .ok ip
  | _ => .error einval

/-- `hex_digit` -/
def hexDigit (c : UInt8) : Int :=
  if ascii '0' ≤ c ∧ c ≤ ascii '9' then c.toNat - 48
  else if ascii 'a' ≤ c ∧ c ≤ ascii 'f' then c.toNat - 97 + 10
  else if ascii 'A' ≤ c ∧ c ≤ ascii 'F' then c.toNat - 65 + 10
  else -1

/-- The loop of `http_parse_u32`; `v` is an `uint64_t`. -/
def u32Loop (base v : UInt64) : Text → Except Int UInt32
  | [] => .ok v.toUInt32
  | c :: s =>
    let d := hexDigit c
    if d < 0 ∨ base.toNat ≤ d then .error einval
    else
      let v := v * base + UInt64.ofNat d.toNat
      if 0xFFFFFFFF < v then .error einval else u32Loop base v s

/-- `http_parse_u32` -/
def httpParseU32 : Text → Except Int UInt32
  | [] => .error einval
  | [c] => u32Loop 10 0 [c]
  | c :: x :: s =>
    if c = ascii '0' ∧ (x = ascii 'x' ∨ x = ascii 'X') then
      if s = [] then .error einval else u32Loop 16 0 s
    else u32Loop 10 0 (c :: x :: s)

/-- The loop over the password; `diff` gathers the bits in which it differs. -/
def diffLoop (diff : UInt8) : List UInt8 → Text → UInt8
  | d :: decoded, c :: password => diffLoop (diff ||| (d ^^^ c)) decoded password
  | _, _ => diff

/-- `http_basic_auth_ok`; `base64Decode` writes at most as many bytes as its first
argument says, or fails. -/
def httpBasicAuthOk (base64Decode : ℕ → Text → Option (List UInt8)) (header : Option Text)
    (user password : Text) : Bool :=
  match header with
  | none => false
  | some header =>
    if password = [] then false
    else if header.take 6 ≠ text "Basic " then false
    else
      match base64Decode 127 (header.drop 6) with
      | none => false
      | some decoded =>
        if decoded.length ≠ user.length + 1 + password.length ∨ decoded.take user.length ≠ user ∨
            decoded[user.length]? ≠ some (ascii ':') then false
        else decide (diffLoop 0 (decoded.drop (user.length + 1)) password = 0)

/-- The value that a pair gives to `key`, if it is for it. -/
def valueOf (key pair : Text) : Option Text :=
  if key ++ [ascii '='] <+: pair then some (pair.drop (key.length + 1)) else none

def query (url : Text) : Option Text :=
  match url.dropWhile (· ≠ ascii '?') with
  | [] => none
  | _ :: q => some q

/-- The value of the first pair for `key`; pairs are separated by `&`. -/
def firstValue (key url : Text) : Option Text :=
  (query url).bind fun q => (q.splitOn (ascii '&')).findSome? (valueOf key)

def copied (outLen : ℕ) : Option Text → Except Int Text
  | none => .error enoent
  | some val => if outLen ≤ val.length then .error enospc else .ok val

/-- The first pair of `p` is for `key` exactly if it gives it a value, which is the
one the loop copies. -/
theorem valueOf_pair (key p : Text) : valueOf key (p.takeWhile (· ≠ ascii '&')) =
    if pairFor key p (p.takeWhile (· ≠ ascii '&')) then
      some ((p.drop (key.length + 1)).take
        ((p.takeWhile (· ≠ ascii '&')).length - key.length - 1))
    else none := by
  obtain ⟨rest, hp⟩ := List.takeWhile_prefix (· ≠ ascii '&') (l := p)
  generalize p.takeWhile (· ≠ ascii '&') = pair at hp
  subst hp
  have hval : ((pair ++ rest).drop (key.length + 1)).take (pair.length - key.length - 1) =
      pair.drop (key.length + 1) := by
    rw [Nat.sub_sub, ← List.drop_take, List.take_left]
  have hfor : pairFor key (pair ++ rest) pair = true ↔ key ++ [ascii '='] <+: pair := by
    rw [pairFor, Bool.and_eq_true, Bool.and_eq_true, decide_eq_true_eq, decide_eq_true_eq,
      decide_eq_true_eq]
    constructor
    · rintro ⟨⟨hlen, htake⟩, hget⟩
      rw [List.take_append_of_le_length hlen.le] at htake
      rw [List.getElem?_append_left hlen] at hget
      have h : pair.take (key.length + 1) = key ++ [ascii '='] := by
        rw [List.take_add_one, htake, hget]
        rfl
      exact h ▸ List.take_prefix _ _
    · rintro ⟨val, rfl⟩
      simp
  rw [valueOf, hval]
  exact if_congr hfor.symm rfl rfl

/-- The loop copies the first value among the pairs from `p` on. -/
theorem queryLoop_eq (key : Text) (outLen : ℕ) (p : Text) :
    queryLoop key outLen p = copied outLen ((p.splitOn (ascii '&')).findSome? (valueOf key)) := by
  induction p using queryLoop.induct key outLen with
  | case1 => simp [queryLoop, valueOf, copied]
  | case2 p pair val hp hfor hlen =>
    rw [queryLoop, if_neg hp, if_pos hfor, if_pos hlen, splitOn_eq, List.findSome?_cons,
      valueOf_pair, if_pos hfor]
    exact (if_pos hlen).symm
  | case3 p pair val hp hfor hlen =>
    rw [queryLoop, if_neg hp, if_pos hfor, if_neg hlen, splitOn_eq, List.findSome?_cons,
      valueOf_pair, if_pos hfor]
    exact (if_neg hlen).symm
  | case4 p pair hp hfor hnext =>
    rw [queryLoop, if_neg hp, if_neg hfor, splitOn_eq, List.findSome?_cons, valueOf_pair,
      if_neg hfor, hnext]
    rfl
  | case5 p pair hp hfor c next hnext ih =>
    rw [queryLoop, if_neg hp, if_neg hfor, splitOn_eq, List.findSome?_cons, valueOf_pair,
      if_neg hfor, hnext]
    exact ih

theorem httpQueryGet_eq (url key : Text) {outLen : ℕ} (h : 0 < outLen) :
    httpQueryGet url key outLen = copied outLen (firstValue key url) := by
  rw [httpQueryGet, if_neg h.ne', firstValue, query]
  cases url.dropWhile (· ≠ ascii '?') with
  | nil => rfl
  | cons c q => exact queryLoop_eq key outLen q

theorem httpQueryGet_ok {url key val : Text} {outLen : ℕ} (h : 0 < outLen) :
    httpQueryGet url key outLen = .ok val ↔ firstValue key url = some val ∧ val.length < outLen := by
  rw [httpQueryGet_eq url key h]
  cases firstValue key url with
  | none => simp [copied]
  | some v =>
    by_cases hv : outLen ≤ v.length
    · simp only [copied, if_pos hv, reduceCtorEq, Option.some.injEq, false_iff]
      rintro ⟨rfl, hlt⟩
      exact absurd hv (Nat.not_le.mpr hlt)
    · simp only [copied, if_neg hv, Except.ok.injEq, Option.some.injEq]
      constructor
      · rintro rfl
        exact ⟨rfl, Nat.not_le.mp hv⟩
      · exact fun h => h.1

/-- The flag is set exactly if the first value for the key is `1`. -/
theorem httpQueryFlag_iff (url key : Text) :
    httpQueryFlag url key = true ↔ firstValue key url = some (text "1") := by
  rw [httpQueryFlag, httpQueryGet_eq url key (by decide)]
  cases firstValue key url with
  | none => simp [copied]
  | some v =>
    by_cases hv : 4 ≤ v.length
    · simp only [copied, if_pos hv, Bool.false_eq_true, Option.some.injEq, false_iff]
      rintro rfl
      exact absurd hv (by decide)
    · simp [copied, if_neg hv]

/-- `s` is a number of the API: decimal, or hexadecimal after `0x` or `0X`. -/
def Denotes (s : Text) (n : ℕ) : Prop :=
  (s ≠ [] ∧ Numeral 10 s n) ∨
    ∃ x digits, (x = ascii 'x' ∨ x = ascii 'X') ∧ s = ascii '0' :: x :: digits ∧ digits ≠ [] ∧
      Numeral 16 digits n

theorem hexDigit_eq (c : UInt8) : hexDigit c = (digitOf c).elim (-1) (↑) := by
  unfold hexDigit digitOf
  split
  case isTrue h =>
    have hc : 48 ≤ c.toNat := h.1
    simp only [Option.elim_some]
    omega
  split
  case isTrue h =>
    have hc : 97 ≤ c.toNat := h.1
    simp only [Option.elim_some]
    omega
  split
  case isTrue h =>
    have hc : 65 ≤ c.toNat := h.1
    simp only [Option.elim_some]
    omega
  rfl

/-- The loop goes on with the digits of the base, as long as the number fits. -/
theorem u32Loop_ok {base v : UInt64} {before s : Text} {w : UInt32}
    (hbase : 0 < base.toNat ∧ base.toNat ≤ 16) (hv : Numeral base.toNat before v.toNat)
    (hfit : v.toNat < 2 ^ 32) :
    u32Loop base v s = .ok w ↔ Numeral base.toNat (before ++ s) w.toNat := by
  induction s generalizing v before with
  | nil =>
    have hw : v.toUInt32.toNat = v.toNat := by
      rw [UInt64.toNat_toUInt32, Nat.mod_eq_of_lt hfit]
    rw [u32Loop, List.append_nil, Except.ok.injEq]
    constructor
    · rintro rfl
      rwa [hw]
    · intro h
      exact UInt32.toNat_inj.mp (hw.trans (hv.unique h))
  | cons c s ih =>
    have hcons : before ++ c :: s = before ++ [c] ++ s := by simp
    rw [u32Loop, hexDigit_eq]
    by_cases hc : ∃ d < base.toNat, digitOf c = some d
    · obtain ⟨d, hd, hc⟩ := hc
      have hdigit : ¬ (((d : Int) < 0) ∨ (base.toNat : Int) ≤ d) := by omega
      have hnext : (v * base + UInt64.ofNat d).toNat = v.toNat * base.toNat + d := by
        have hmul : v.toNat * base.toNat ≤ 2 ^ 32 * 16 := Nat.mul_le_mul hfit.le hbase.2
        rw [UInt64.toNat_add, UInt64.toNat_mul, UInt64.toNat_ofNat', Nat.mod_eq_of_lt (by omega),
          Nat.mod_eq_of_lt (by omega), Nat.mod_eq_of_lt (by omega)]
      have hv' := hv.concat hc hd
      rw [← hnext] at hv'
      simp only [hc, Option.elim_some, if_neg hdigit, Int.toNat_natCast]
      by_cases hbig : (0xFFFFFFFF : UInt64) < v * base + UInt64.ofNat d
      · rw [if_pos hbig, hcons]
        refine iff_of_false (fun h => nomatch h) fun h => ?_
        have hlarge : 0xFFFFFFFF < (v * base + UInt64.ofNat d).toNat := hbig
        have hle := hv'.le_of_append hbase.1 h
        have hw := w.toNat_lt
        omega
      · rw [if_neg hbig, hcons]
        refine ih hv' ?_
        have hsmall : ¬ 0xFFFFFFFF < (v * base + UInt64.ofNat d).toNat := hbig
        omega
    · have hdigit : ((digitOf c).elim (-1) (fun d : ℕ => (d : Int)) < 0) ∨
          (base.toNat : Int) ≤ (digitOf c).elim (-1) (fun d : ℕ => (d : Int)) := by
        cases hd : digitOf c with
        | none => exact Or.inl (by decide)
        | some d =>
          refine Or.inr ?_
          have hle : ¬ d < base.toNat := fun hlt => hc ⟨d, hlt, hd⟩
          simp only [Option.elim_some]
          omega
      rw [if_pos hdigit]
      exact iff_of_false (fun h => nomatch h) fun h => hc (h.digit (by simp))

theorem not_numeral_x {b n : ℕ} {s : Text} {x : UInt8} (hx : x = ascii 'x' ∨ x = ascii 'X')
    (hm : x ∈ s) : ¬ Numeral b s n := fun h => by
  obtain ⟨d, -, hd⟩ := h.digit hm
  rcases hx with rfl | rfl
  · exact nomatch (show digitOf (ascii 'x') = none by decide).symm.trans hd
  · exact nomatch (show digitOf (ascii 'X') = none by decide).symm.trans hd

/-- `http_parse_u32` accepts the numbers below 2^32, and nothing else. -/
theorem httpParseU32_ok {s : Text} {w : UInt32} :
    httpParseU32 s = .ok w ↔ Denotes s w.toNat := by
  have hdec (s : Text) : u32Loop 10 0 s = .ok w ↔ Numeral 10 s w.toNat := by
    have h : u32Loop 10 0 s = .ok w ↔ Numeral (10 : UInt64).toNat ([] ++ s) w.toNat :=
      u32Loop_ok (by decide) (numeral_nil _) (by decide)
    exact h
  have hhex (s : Text) : u32Loop 16 0 s = .ok w ↔ Numeral 16 s w.toNat := by
    have h : u32Loop 16 0 s = .ok w ↔ Numeral (16 : UInt64).toNat ([] ++ s) w.toNat :=
      u32Loop_ok (by decide) (numeral_nil _) (by decide)
    exact h
  cases s with
  | nil => simp [httpParseU32, Denotes]
  | cons c s =>
    cases s with
    | nil => simp [httpParseU32, Denotes, hdec]
    | cons x s =>
      rw [httpParseU32]
      by_cases hp : c = ascii '0' ∧ (x = ascii 'x' ∨ x = ascii 'X')
      · obtain ⟨rfl, hx⟩ := hp
        rw [if_pos ⟨rfl, hx⟩]
        have hd : Denotes (ascii '0' :: x :: s) w.toNat ↔ s ≠ [] ∧ Numeral 16 s w.toNat := by
          constructor
          · rintro (⟨-, h⟩ | ⟨x', digits, -, he, hne, h⟩)
            · exact (not_numeral_x hx (by simp) h).elim
            · obtain ⟨-, rfl⟩ : x = x' ∧ s = digits := by simpa using he
              exact ⟨hne, h⟩
          · rintro ⟨hne, h⟩
            exact Or.inr ⟨x, s, hx, rfl, hne, h⟩
        rw [hd]
        by_cases hs : s = []
        · rw [if_pos hs]
          exact iff_of_false (fun h => nomatch h) fun h => h.1 hs
        · rw [if_neg hs, hhex]
          exact (and_iff_right hs).symm
      · rw [if_neg hp, hdec]
        constructor
        · exact fun h => Or.inl ⟨List.cons_ne_nil _ _, h⟩
        · rintro (⟨-, h⟩ | ⟨x', digits, hx, he, -, -⟩)
          · exact h
          · obtain ⟨rfl, rfl, -⟩ : c = ascii '0' ∧ x = x' ∧ s = digits := by simpa using he
            exact absurd ⟨rfl, hx⟩ hp

/-- One to three digits that spell at most 255. -/
structure Octet (s : Text) (n : ℕ) : Prop where
  nonempty : s ≠ []
  short : s.length ≤ 3
  numeral : Numeral 10 s n
  small : n ≤ 255

/-- `s` is an address: four octets with dots between them, the first one the highest. -/
def DottedQuad (s : Text) (ip : UInt32) : Prop :=
  ∃ octets : List (Text × ℕ), octets.length = 4 ∧ (∀ o ∈ octets, Octet o.1 o.2) ∧
    s = [ascii '.'].intercalate (octets.map Prod.fst) ∧
    ip.toNat = octets.foldl (fun v o => v * 256 + o.2) 0

theorem digitOf_decimal {c : UInt8} (h : ascii '0' ≤ c ∧ c ≤ ascii '9') :
    digitOf c = some (c.toNat - 48) ∧ c.toNat - 48 < 10 := by
  have hle : c.toNat ≤ 57 := h.2
  exact ⟨if_pos h, by omega⟩

/-- The digits that the loop takes go on with those before them. -/
theorem octetLoop_some {before s s' : Text} {v digits v' n : ℕ} (hv : Numeral 10 before v)
    (hn : before.length = digits) (hfit : v ≤ 255 ∧ digits ≤ 3)
    (h : octetLoop v digits s = some (v', n, s')) :
    ∃ ds, s = ds ++ s' ∧ Numeral 10 (before ++ ds) v' ∧ n = digits + ds.length ∧
      v' ≤ 255 ∧ n ≤ 3 := by
  induction s generalizing before v digits with
  | nil =>
    obtain ⟨rfl, rfl, rfl⟩ : v = v' ∧ digits = n ∧ [] = s' := by simpa [octetLoop] using h
    exact ⟨[], rfl, by simpa using hv, rfl, hfit⟩
  | cons c s ih =>
    rw [octetLoop] at h
    by_cases hc : ascii '0' ≤ c ∧ c ≤ ascii '9'
    · obtain ⟨hd, hlt⟩ := digitOf_decimal hc
      rw [if_pos hc] at h
      by_cases hbig : 255 < v * 10 + (c.toNat - 48) ∨ 3 < digits + 1
      · rw [if_pos hbig] at h
        exact nomatch h
      · rw [if_neg hbig] at h
        obtain ⟨ds, rfl, hds, rfl, hle⟩ := ih (hv.concat hd hlt) (by simp [hn]) (by omega) h
        refine ⟨c :: ds, rfl, by simpa using hds, by simp; omega, hle⟩
    · obtain ⟨rfl, rfl, rfl⟩ : v = v' ∧ digits = n ∧ c :: s = s' := by simpa [hc] using h
      exact ⟨[], rfl, by simpa using hv, rfl, hfit⟩

/-- An octet appended to an address that has room for it. -/
theorem shiftIn_toNat {ip : UInt32} {v k : ℕ} (hip : (ip.toNat + 1) * 256 ^ (k + 1) ≤ 2 ^ 32)
    (hv : v ≤ 255) : ((ip <<< 8) ||| UInt32.ofNat v).toNat = ip.toNat * 256 + v := by
  have hk : 1 ≤ 256 ^ k := Nat.one_le_pow _ _ (by decide)
  have hroom : (ip.toNat + 1) * 256 ≤ 2 ^ 32 := by
    calc (ip.toNat + 1) * 256 ≤ (ip.toNat + 1) * 256 * 256 ^ k := Nat.le_mul_of_pos_right _ hk
      _ = (ip.toNat + 1) * 256 ^ (k + 1) := by ring
      _ ≤ 2 ^ 32 := hip
  have hshift : (ip <<< 8).toNat = ip.toNat <<< 8 := by
    rw [UInt32.toNat_shiftLeft]
    simp only [Nat.shiftLeft_eq]
    exact Nat.mod_eq_of_lt (by simp; omega)
  have hv' : (UInt32.ofNat v).toNat = v := UInt32.toNat_ofNat_of_lt' (by simp [UInt32.size]; omega)
  rw [UInt32.toNat_or, hshift, hv', ← Nat.shiftLeft_add_eq_or_of_lt (by omega), Nat.shiftLeft_eq]

/-- After that there is room for one octet less. -/
theorem shiftIn_room {ip : UInt32} {v k : ℕ} (hip : (ip.toNat + 1) * 256 ^ (k + 1) ≤ 2 ^ 32)
    (hv : v ≤ 255) : (((ip <<< 8) ||| UInt32.ofNat v).toNat + 1) * 256 ^ k ≤ 2 ^ 32 := by
  rw [shiftIn_toNat hip hv]
  calc (ip.toNat * 256 + v + 1) * 256 ^ k ≤ ((ip.toNat + 1) * 256) * 256 ^ k :=
        Nat.mul_le_mul_right _ (by omega)
    _ = (ip.toNat + 1) * 256 ^ (k + 1) := by ring
    _ ≤ 2 ^ 32 := hip

theorem octetsLoop_some {k : ℕ} {ip ip' : UInt32} {s s' : Text}
    (hip : (ip.toNat + 1) * 256 ^ k ≤ 2 ^ 32) (h : octetsLoop ip s k = some (ip', s')) :
    ∃ octets : List (Text × ℕ), octets.length = k ∧ (∀ o ∈ octets, Octet o.1 o.2) ∧
      s = [ascii '.'].intercalate (octets.map Prod.fst) ++ s' ∧
      ip'.toNat = octets.foldl (fun v o => v * 256 + o.2) ip.toNat := by
  induction k generalizing ip s with
  | zero =>
    obtain ⟨rfl, rfl⟩ : ip = ip' ∧ s = s' := by simpa [octetsLoop] using h
    exact ⟨[], rfl, by simp, rfl, rfl⟩
  | succ k ih =>
    rw [octetsLoop] at h
    cases ho : octetLoop 0 0 s with
    | none => simp [ho] at h
    | some r =>
      obtain ⟨v, digits, rest⟩ := r
      obtain ⟨ds, rfl, hds, rfl, hle, hn⟩ :=
        octetLoop_some (numeral_nil 10) rfl (by decide) ho
      simp only [ho, Option.bind_eq_bind, Option.bind_some] at h
      by_cases hd : ds = []
      · simp [hd] at h
      have ha : Octet ds v :=
        ⟨hd, by simpa using hn, by simpa using hds, hle⟩
      have hshift := shiftIn_toNat hip hle
      have hpos : guard (0 + ds.length ≠ 0) = some () := by simp [hd]
      have hlen : ([] : Text).length + ds.length = 0 + ds.length := rfl
      rw [hlen, hpos, Option.bind_some] at h
      by_cases hk : k = 0
      · subst hk
        obtain ⟨rfl, rfl⟩ : (ip <<< 8) ||| UInt32.ofNat v = ip' ∧ rest = s' := by simpa using h
        exact ⟨[(ds, v)], rfl, by simpa using ha, by simp, hshift⟩
      · rw [if_neg hk] at h
        cases rest with
        | nil => exact nomatch h
        | cons c rest =>
          by_cases hc : c = ascii '.'
          · subst hc
            obtain ⟨octets, hcount, hall, rfl, hval⟩ := ih (shiftIn_room hip hle) (by simpa using h)
            refine ⟨(ds, v) :: octets, by simp [hcount], ?_, ?_, ?_⟩
            · intro o ho
              rcases List.mem_cons.mp ho with rfl | ho
              · exact ha
              · exact hall o ho
            · cases octets with
              | nil => exact absurd hcount.symm hk
              | cons o octets => simp [List.intercalate]
            · rw [hval, hshift]
              rfl
          · simp [hc] at h

/-- What `http_parse_ipv4` accepts is an address. -/
theorem httpParseIpv4_ok {s : Text} {ip : UInt32} (h : httpParseIpv4 s = .ok ip) :
    DottedQuad s ip := by
  rw [httpParseIpv4] at h
  cases ho : octetsLoop 0 s 4 with
  | none => simp [ho] at h
  | some r =>
    obtain ⟨ip', rest⟩ := r
    cases rest with
    | cons c rest => simp [ho] at h
    | nil =>
      obtain rfl : ip' = ip := by simpa [ho] using h
      obtain ⟨octets, hlen, hall, hs, hip⟩ := octetsLoop_some (by decide) ho
      exact ⟨octets, hlen, hall, by simpa using hs, hip⟩

theorem diffLoop_eq_zero {diff : UInt8} {decoded : List UInt8} {password : Text}
    (h : decoded.length = password.length) :
    diffLoop diff decoded password = 0 ↔ diff = 0 ∧ decoded = password := by
  induction decoded generalizing diff password with
  | nil =>
    obtain rfl : password = [] := List.length_eq_zero_iff.mp h.symm
    simp [diffLoop]
  | cons d decoded ih =>
    cases password with
    | nil => simp at h
    | cons c password =>
      rw [diffLoop, ih (by simpa using h), UInt8.or_eq_zero_iff, UInt8.xor_eq_zero_iff,
        List.cons_eq_cons, and_assoc]

def credentials (user password : Text) : Text := user ++ ascii ':' :: password

/-- The bytes are compared as a whole: nothing before, between or after the user and
the password. -/
theorem credentials_iff {user password : Text} {decoded : List UInt8} :
    (decoded.length = user.length + 1 + password.length ∧ decoded.take user.length = user ∧
      decoded[user.length]? = some (ascii ':') ∧ decoded.drop (user.length + 1) = password) ↔
    decoded = credentials user password := by
  constructor
  · rintro ⟨-, huser, hcolon, hpw⟩
    have hlt := (List.getElem?_eq_some_iff.mp hcolon).1
    calc decoded = decoded.take user.length ++ decoded.drop user.length :=
          (List.take_append_drop _ _).symm
      _ = user ++ decoded[user.length] :: decoded.drop (user.length + 1) := by
          rw [huser, List.drop_eq_getElem_cons hlt]
      _ = credentials user password := by
          rw [hpw, credentials, (List.getElem?_eq_some_iff.mp hcolon).2]
  · rintro rfl
    simp [credentials]
    omega

/-- Exactly the user and the password after `Basic ` are accepted, and no empty
password. -/
theorem httpBasicAuthOk_iff {base64Decode : ℕ → Text → Option (List UInt8)} {header : Option Text}
    {user password : Text} :
    httpBasicAuthOk base64Decode header user password = true ↔ password ≠ [] ∧
      ∃ rest, header = some (text "Basic " ++ rest) ∧
        base64Decode 127 rest = some (credentials user password) := by
  cases header with
  | none => simp [httpBasicAuthOk]
  | some header =>
    rw [httpBasicAuthOk]
    by_cases hp : password = []
    · simp [hp]
    rw [if_neg hp, and_iff_right hp]
    by_cases hs : header.take 6 = text "Basic "
    · rw [if_neg (not_not.mpr hs)]
      have hheader : header = text "Basic " ++ header.drop 6 := by
        rw [← hs, List.take_append_drop]
      have hrest : (∃ rest, some header = some (text "Basic " ++ rest) ∧
          base64Decode 127 rest = some (credentials user password)) ↔
          base64Decode 127 (header.drop 6) = some (credentials user password) := by
        constructor
        · rintro ⟨rest, he, h⟩
          have hdrop : (text "Basic " ++ rest).drop 6 = rest := rfl
          rw [Option.some.inj he, hdrop]
          exact h
        · exact fun h => ⟨_, congrArg some hheader, h⟩
      rw [hrest]
      cases base64Decode 127 (header.drop 6) with
      | none => simp
      | some decoded =>
        rw [Option.some.injEq, ← credentials_iff]
        by_cases hd : decoded.length ≠ user.length + 1 + password.length ∨
            decoded.take user.length ≠ user ∨ decoded[user.length]? ≠ some (ascii ':')
        · simp only [if_pos hd]
          refine iff_of_false Bool.false_ne_true ?_
          rintro ⟨hlen, huser, hcolon, -⟩
          rcases hd with hd | hd | hd
          · exact hd hlen
          · exact hd huser
          · exact hd hcolon
        · simp only [if_neg hd]
          obtain ⟨hlen, huser, hcolon⟩ := by simpa only [not_or, not_not] using hd
          have hrem : (decoded.drop (user.length + 1)).length = password.length := by
            rw [List.length_drop, hlen]
            omega
          rw [decide_eq_true_eq, diffLoop_eq_zero hrem]
          simp [hlen, huser, hcolon]
    · rw [if_pos hs]
      refine iff_of_false Bool.false_ne_true ?_
      rintro ⟨rest, he, -⟩
      rw [Option.some.inj he] at hs
      exact hs rfl

theorem decimal_digitOf {c : UInt8} {d : ℕ} (hc : digitOf c = some d) (hd : d < 10) :
    (ascii '0' ≤ c ∧ c ≤ ascii '9') ∧ c.toNat - 48 = d := by
  unfold digitOf at hc
  split_ifs at hc with h0 ha hA
  · exact ⟨h0, by simpa using hc⟩
  · have hle : 97 ≤ c.toNat := ha.1
    have he : c.toNat - 87 = d := by simpa using hc
    omega
  · have hle : 65 ≤ c.toNat := hA.1
    have he : c.toNat - 55 = d := by simpa using hc
    omega

theorem octetLoop_reads {before ds s' : Text} {v digits v' : ℕ} (hv : Numeral 10 before v)
    (hn : before.length = digits) (hv' : Numeral 10 (before ++ ds) v') (hle : v' ≤ 255)
    (hshort : (before ++ ds).length ≤ 3)
    (hs' : ∀ c ∈ s'.head?, ¬ (ascii '0' ≤ c ∧ c ≤ ascii '9')) :
    octetLoop v digits (ds ++ s') = some (v', digits + ds.length, s') := by
  induction ds generalizing before v digits with
  | nil =>
    rw [List.append_nil] at hv'
    rw [hv.unique hv']
    cases s' with
    | nil => rfl
    | cons c s' => exact if_neg (hs' c rfl)
  | cons c ds ih =>
    have hassoc : before ++ c :: ds = (before ++ [c]) ++ ds := by simp
    rw [hassoc] at hv' hshort
    obtain ⟨d, hd, hc⟩ := hv'.digit (show c ∈ before ++ [c] ++ ds by simp)
    obtain ⟨hdigit, hval⟩ := decimal_digitOf hc hd
    have hnext : Numeral 10 (before ++ [c]) (v * 10 + d) := hv.concat hc hd
    have hsmall : v * 10 + d ≤ v' := hnext.le_of_append (by decide) hv'
    have hlen : (before ++ [c]).length = digits + 1 := by simp [hn]
    have hroom : ¬ (255 < v * 10 + d ∨ 3 < digits + 1) := by
      rw [List.length_append, hlen] at hshort
      omega
    rw [List.cons_append, octetLoop, if_pos hdigit, hval, if_neg hroom, ih hnext hlen hv' hshort]
    simp [Nat.add_comm, Nat.add_left_comm]

theorem octetsLoop_reads {octets : List (Text × ℕ)} {ip : UInt32} (hne : octets ≠ [])
    (hall : ∀ o ∈ octets, Octet o.1 o.2) (hip : (ip.toNat + 1) * 256 ^ octets.length ≤ 2 ^ 32) :
    ∃ ip', octetsLoop ip ([ascii '.'].intercalate (octets.map Prod.fst)) octets.length =
      some (ip', []) ∧ ip'.toNat = octets.foldl (fun v o => v * 256 + o.2) ip.toNat := by
  induction octets generalizing ip with
  | nil => exact absurd rfl hne
  | cons o rest ih =>
    obtain ⟨ho, hrest⟩ := List.forall_mem_cons.mp hall
    have hshift := shiftIn_toNat hip ho.small
    have hread (s' : Text) (hs' : ∀ c ∈ s'.head?, ¬ (ascii '0' ≤ c ∧ c ≤ ascii '9')) :
        octetLoop 0 0 (o.1 ++ s') = some (o.2, o.1.length, s') := by
      simpa using octetLoop_reads (numeral_nil 10) rfl ho.numeral ho.small ho.short hs'
    cases rest with
    | nil =>
      refine ⟨(ip <<< 8) ||| UInt32.ofNat o.2, ?_, hshift⟩
      have hlast : octetLoop 0 0 o.1 = some (o.2, o.1.length, []) := by
        simpa using hread [] (by simp)
      simp [octetsLoop, hlast, ho.nonempty]
    | cons o' rest =>
      obtain ⟨ip', hloop, hval⟩ := ih (List.cons_ne_nil _ _) hrest (shiftIn_room hip ho.small)
      refine ⟨ip', ?_, by simp only [hval, hshift, List.foldl_cons]⟩
      have htext : [ascii '.'].intercalate ((o :: o' :: rest).map Prod.fst) =
          o.1 ++ ascii '.' :: [ascii '.'].intercalate ((o' :: rest).map Prod.fst) := by
        simp [List.intercalate]
      rw [htext, List.length_cons, octetsLoop, hread _ (by simp; decide)]
      simpa [ho.nonempty] using hloop

/-- `http_parse_ipv4` accepts the addresses, and nothing else. -/
theorem httpParseIpv4_iff {s : Text} {ip : UInt32} : httpParseIpv4 s = .ok ip ↔ DottedQuad s ip := by
  refine ⟨httpParseIpv4_ok, fun ⟨octets, hlen, hall, hs, hip⟩ => ?_⟩
  have hne : octets ≠ [] := List.ne_nil_of_length_pos (by omega)
  have hroom : ((0 : UInt32).toNat + 1) * 256 ^ octets.length ≤ 2 ^ 32 := by simp [hlen]
  obtain ⟨ip', hloop, hval⟩ := octetsLoop_reads hne hall hroom
  have he : ip' = ip := UInt32.toNat_inj.mp (hval.trans hip.symm)
  rw [hlen, ← hs] at hloop
  rw [httpParseIpv4, hloop, he]

end ZephyrApps.HttpUtil
