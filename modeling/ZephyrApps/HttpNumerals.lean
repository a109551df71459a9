import ZephyrApps.CBuffers
import ZephyrApps.PrusaCfg

/-!
# Numbers and addresses in their buffers

`http_parse_ipv4` and `http_parse_u32` over the bytes of the string, with the word at `out`, and
`ip_str` and `parse_ip` of `web.c`. A read outside the buffer is `none`, and so is a value that does
not fit into its word.
-/
namespace ZephyrApps.HttpNumerals
open AppSettings CStrings HttpUtil PrusaCfg CBuffers

/-- The word at `out` after a parser, and what the parser returns. -/
def assigned (out : UInt32) : Except Int UInt32 → UInt32 × Int
  | .ok w => (w, 0)
  | .error e => (out, e)

/-- `(v * 10U) + d` in 32 bits -/
def nextDecimal (v d : UInt32) : Option UInt32 :=
  if v.toNat * 10 + d.toNat < 2 ^ 32 then some (v * 10 + d) else none

/-- `(ip << 8) | v` with no bit of `ip` lost -/
def shiftIn (ip v : UInt32) : Option UInt32 :=
  if ip.toNat * 2 ^ 8 < 2 ^ 32 then some ((ip <<< 8) ||| v) else none

/-- The digits of an octet from `s` on: the value, how many they are and where they end, or nothing
if they are too many or too large. -/
def octetLoopAt (buf : List UInt8) (v : UInt32) (digits s : ℕ) : Option (Option (UInt32 × ℕ × ℕ)) :=
  match _h : buf[s]? with
  | none => none
  | some c =>
    if ascii '0' ≤ c ∧ c ≤ ascii '9' then
      match nextDecimal v (c.toUInt32 - 48) with
      | none => none
      | some v =>
        if 255 < v ∨ 3 < digits + 1 then some none else octetLoopAt buf v (digits + 1) (s + 1)
    else some (some (v, digits, s))
termination_by buf.length - s
decreasing_by
  have hlt := (List.getElem?_eq_some_iff.mp _h).1
  omega

/-- The octets that remain from `s` on. -/
def octetsLoopAt (buf : List UInt8) (ip : UInt32) (s : ℕ) : ℕ → Option (Option (UInt32 × ℕ))
  | 0 => some (some (ip, s))
  | k + 1 =>
    (octetLoopAt buf 0 0 s).bind fun
      | none => some none
      | some (v, digits, s) =>
        if digits = 0 then some none
        else
          (shiftIn ip v).bind fun ip =>
            if k = 0 then some (some (ip, s))
            else
              buf[s]?.bind fun c =>
                if c = ascii '.' then octetsLoopAt buf ip (s + 1) k else some none

/-- `http_parse_ipv4` -/
def httpParseIpv4At (buf : List UInt8) (out : UInt32) : Option (UInt32 × Int) :=
  (octetsLoopAt buf 0 0 4).bind fun
    | none => some (out, einval)
    | some (ip, s) => buf[s]?.map fun c => if c = 0 then (ip, 0) else (out, einval)

/-- What `"%u.%u.%u.%u"` prints of the octets of an address. -/
def ipText (ip : UInt32) : Text :=
  dec (ip >>> 24).toNat ++ text "." ++ dec ((ip >>> 16) &&& 0xFF).toNat ++ text "." ++
    dec ((ip >>> 8) &&& 0xFF).toNat ++ text "." ++ dec (ip &&& 0xFF).toNat

/-- `ip_str` -/
def ipStr (buf : List UInt8) (ip : UInt32) : Option (List UInt8) :=
  if ip = 0 then writeAt buf 0 [0] else snprintf buf 0 16 (ipText ip)

/-- `parse_ip` of `web.c` -/
def parseIpAt (buf : List UInt8) (out : UInt32) : Option (UInt32 × Int) :=
  buf[0]?.bind fun c => if c = 0 then some (0, 0) else httpParseIpv4At buf out

/-- `(v * base) + d` in 64 bits -/
def nextDigit (v : UInt64) (base d : UInt32) : Option UInt64 :=
  if v.toNat * base.toNat + d.toNat < 2 ^ 64 then some (v * base.toUInt64 + d.toUInt64) else none

/-- The loop of `http_parse_u32` from `s` on. -/
def u32LoopAt (buf : List UInt8) (base : UInt32) (v : UInt64) (s : ℕ) :
    Option (Except Int UInt32) :=
  match _h : buf[s]? with
  | none => none
  | some c =>
    if c = 0 then some (.ok v.toUInt32)
    else
      let d := hexDigit c
      if d < 0 ∨ base ≤ UInt32.ofNat d.toNat then some (.error einval)
      else
        match nextDigit v base (UInt32.ofNat d.toNat) with
        | none => none
        | some v => if 0xFFFFFFFF < v then some (.error einval) else u32LoopAt buf base v (s + 1)
termination_by buf.length - s
decreasing_by
  have hlt := (List.getElem?_eq_some_iff.mp _h).1
  omega

/-- The string at `buf` begins with `0x` or `0X`. -/
def hexAt (buf : List UInt8) : Option Bool :=
  buf[0]?.bind fun c =>
    if c = ascii '0' then buf[1]?.map fun x => decide (x = ascii 'x' ∨ x = ascii 'X')
    else some false

/-- `http_parse_u32` -/
def httpParseU32At (buf : List UInt8) (out : UInt32) : Option (UInt32 × Int) := do
  let c ← buf[0]?
  if c = 0 then some (out, einval)
  else
    if ← hexAt buf then
      let c ← buf[2]?
      if c = 0 then some (out, einval) else (u32LoopAt buf 16 0 2).map (assigned out)
    else (u32LoopAt buf 10 0 0).map (assigned out)

variable {buf pre rest q : List UInt8} {c : UInt8} {p : ℕ}

theorem getElem?_here : (pre ++ (c :: q ++ 0 :: rest))[pre.length]? = some c := by simp

theorem getElem?_nul : (pre ++ ([] ++ 0 :: rest))[pre.length]? = some 0 := by simp

section Octets

variable {v v' ip : UInt32} {digits k : ℕ}

theorem octetLoopAt_round (hc : buf[p]? = some c) :
    octetLoopAt buf v digits p =
      if ascii '0' ≤ c ∧ c ≤ ascii '9' then
        (nextDecimal v (c.toUInt32 - 48)).bind fun v =>
          if 255 < v ∨ 3 < digits + 1 then some none else octetLoopAt buf v (digits + 1) (p + 1)
      else some (some (v, digits, p)) := by
  rw [octetLoopAt]
  split
  · simp_all
  · next d hd =>
    obtain rfl : c = d := Option.some.inj (hc.symm.trans hd)
    cases nextDecimal v (c.toUInt32 - 48) <;> rfl

theorem octetLoopAt_end (hc : buf[p]? = some c) (hdigit : ¬ (ascii '0' ≤ c ∧ c ≤ ascii '9')) :
    octetLoopAt buf v digits p = some (some (v, digits, p)) := by
  rw [octetLoopAt_round hc, if_neg hdigit]

theorem octetLoopAt_digit (hc : buf[p]? = some c) (hdigit : ascii '0' ≤ c ∧ c ≤ ascii '9')
    (hnext : nextDecimal v (c.toUInt32 - 48) = some v') :
    octetLoopAt buf v digits p =
      if 255 < v' ∨ 3 < digits + 1 then some none else octetLoopAt buf v' (digits + 1) (p + 1) := by
  rw [octetLoopAt_round hc, if_pos hdigit, hnext, Option.bind_some]

/-- A value of at most 255 has room for one more digit. -/
theorem nextDecimal_eq (hv : v.toNat ≤ 255) (hdigit : ascii '0' ≤ c ∧ c ≤ ascii '9') :
    ∃ v', nextDecimal v (c.toUInt32 - 48) = some v' ∧
      v'.toNat = v.toNat * 10 + (c.toNat - 48) := by
  have hlo : 48 ≤ c.toNat := hdigit.1
  have hhi : c.toNat ≤ 57 := hdigit.2
  have hd : (c.toUInt32 - 48).toNat = c.toNat - 48 := by
    rw [UInt32.toNat_sub_of_le]
    · rfl
    · exact hlo
  refine ⟨v * 10 + (c.toUInt32 - 48), if_pos (by omega), ?_⟩
  have h10 : (10 : UInt32).toNat = 10 := rfl
  rw [UInt32.toNat_add, UInt32.toNat_mul, hd, h10]
  omega

/-- The loop over the buffer reads what the loop over the string does. -/
theorem octetLoopAt_eq (pre q rest : List UInt8) (v : UInt32) (digits : ℕ) (hv : v.toNat ≤ 255) :
    octetLoopAt (pre ++ (q ++ 0 :: rest)) v digits pre.length =
      some ((octetLoop v.toNat digits q).map fun r =>
        (UInt32.ofNat r.1, r.2.1, pre.length + q.length - r.2.2.length)) := by
  induction q generalizing pre v digits with
  | nil =>
    rw [octetLoopAt_end getElem?_nul (by decide), octetLoop]
    simp
  | cons c q ih =>
    rw [octetLoop]
    by_cases hdigit : ascii '0' ≤ c ∧ c ≤ ascii '9'
    · obtain ⟨v', hnext, hv'⟩ := nextDecimal_eq hv hdigit
      rw [octetLoopAt_digit getElem?_here hdigit hnext, if_pos hdigit]
      by_cases hmany : 255 < v' ∨ 3 < digits + 1
      · have hmany' : 255 < v.toNat * 10 + (c.toNat - 48) ∨ 3 < digits + 1 := hv' ▸ hmany
        simp only [if_pos hmany, if_pos hmany', Option.map_none]
      · have hmany' : ¬ (255 < v.toNat * 10 + (c.toNat - 48) ∨ 3 < digits + 1) := hv' ▸ hmany
        have hrest := ih (pre ++ [c]) v' (digits + 1) (by omega)
        rw [hv'] at hrest
        simp only [if_neg hmany, if_neg hmany']
        simpa [Nat.add_assoc, Nat.add_comm 1] using hrest
    · rw [octetLoopAt_end getElem?_here hdigit, if_neg hdigit]
      simp

/-- Room for the octets that remain is room for the next one. -/
theorem shiftIn_eq (hip : (ip.toNat + 1) * 256 ^ (k + 1) ≤ 2 ^ 32) :
    shiftIn ip v = some ((ip <<< 8) ||| v) := by
  have hk : 1 ≤ 256 ^ k := Nat.one_le_pow _ _ (by decide)
  have hroom : (ip.toNat + 1) * 256 ≤ 2 ^ 32 := by
    calc (ip.toNat + 1) * 256 ≤ (ip.toNat + 1) * 256 * 256 ^ k := Nat.le_mul_of_pos_right _ hk
      _ = (ip.toNat + 1) * 256 ^ (k + 1) := by ring
      _ ≤ 2 ^ 32 := hip
  rw [shiftIn, if_pos (by omega)]

theorem octetsLoopAt_eq (pre q rest : List UInt8) (ip : UInt32) (k : ℕ)
    (hip : (ip.toNat + 1) * 256 ^ k ≤ 2 ^ 32) :
    octetsLoopAt (pre ++ (q ++ 0 :: rest)) ip pre.length k =
      some ((octetsLoop ip q k).map fun r => (r.1, pre.length + q.length - r.2.length)) := by
  induction k generalizing ip pre q with
  | zero => simp [octetsLoopAt, octetsLoop]
  | succ k ih =>
    have hloop := octetLoopAt_eq pre q rest 0 0 (by decide)
    rw [octetsLoopAt, hloop, octetsLoop]
    cases ho : octetLoop 0 0 q with
    | none => simp [ho]
    | some r =>
      obtain ⟨v, n, q'⟩ := r
      obtain ⟨ds, rfl, -, -, hle, -⟩ := octetLoop_some (numeral_nil 10) rfl (by decide) ho
      by_cases hn : n = 0
      · simp [ho, hn]
      have hp : pre.length + (ds ++ q').length - q'.length = (pre ++ ds).length := by
        simp only [List.length_append]
        omega
      have hbuf : pre ++ (ds ++ q' ++ 0 :: rest) = pre ++ ds ++ (q' ++ 0 :: rest) := by simp
      have hzero : octetLoop (0 : UInt32).toNat 0 (ds ++ q') = some (v, n, q') := ho
      have hpos : guard (n ≠ 0) = some () := by simp [hn]
      simp only [hzero, hpos, hn, hp, hbuf, shiftIn_eq hip, if_false, Option.map_some,
        Option.bind_eq_bind, Option.bind_some]
      by_cases hk : k = 0
      · simp only [if_pos hk, Option.map_some, hp]
      rw [if_neg hk, if_neg hk]
      cases q' with
      | nil => rw [getElem?_nul]; rfl
      | cons c q' =>
        rw [getElem?_here, Option.bind_some]
        by_cases hdot : c = ascii '.'
        · have hrest := ih (pre ++ ds ++ [c]) q' _ (shiftIn_room hip hle)
          have hpre : (pre ++ ds ++ [c]).length = (pre ++ ds).length + 1 := by simp [Nat.add_assoc]
          have hall : pre ++ ds ++ [c] ++ (q' ++ 0 :: rest) = pre ++ ds ++ (c :: q' ++ 0 :: rest) := by
            simp
          rw [hpre, hall] at hrest
          have hend : (pre ++ ds).length + 1 + q'.length = pre.length + (ds ++ c :: q').length := by
            simp only [List.length_append, List.length_cons]
            omega
          simp only [if_pos hdot, hrest, hend]
        · simp only [if_neg hdot, Option.map_none]

end Octets

theorem httpParseIpv4At_eq (s rest : List UInt8) (hs : 0 ∉ s) (out : UInt32) :
    httpParseIpv4At (s ++ 0 :: rest) out = some (assigned out (httpParseIpv4 s)) := by
  have hloop := octetsLoopAt_eq [] s rest 0 4 (by decide)
  rw [List.nil_append, List.length_nil, Nat.zero_add] at hloop
  rw [httpParseIpv4At, hloop, Option.bind_some, httpParseIpv4]
  cases ho : octetsLoop 0 s 4 with
  | none => rfl
  | some r =>
    obtain ⟨ip, q⟩ := r
    obtain ⟨octets, -, -, hq, -⟩ := octetsLoop_some (by decide) ho
    generalize [ascii '.'].intercalate (octets.map Prod.fst) = head at hq
    subst hq
    have hp : (head ++ q).length - q.length = head.length := by simp
    rw [Option.map_some]
    simp only [hp, List.append_assoc]
    cases q with
    | nil => rw [getElem?_nul]; rfl
    | cons c q =>
      have h0 : c ≠ 0 := fun h => hs (by simp [h])
      rw [getElem?_here, Option.map_some, if_neg h0]
      rfl

theorem toNat_lowByte (w : UInt32) : (w &&& 0xFF).toNat = w.toNat % 256 := by
  rw [UInt32.toNat_and]
  exact Nat.and_two_pow_sub_one_eq_mod w.toNat 8

theorem toNat_octets (ip : UInt32) :
    (ip >>> 24).toNat = ip.toNat / 2 ^ 24 ∧ (ip >>> 16).toNat = ip.toNat / 2 ^ 16 ∧
      (ip >>> 8).toNat = ip.toNat / 2 ^ 8 := by
  simp only [UInt32.toNat_shiftRight]
  exact ⟨Nat.shiftRight_eq_div_pow _ _, Nat.shiftRight_eq_div_pow _ _, Nat.shiftRight_eq_div_pow _ _⟩

theorem octet_dec {n : ℕ} (h : n ≤ 255) : Octet (dec n) n :=
  ⟨dec_ne_nil n, length_dec (by decide) (by omega), numeral_dec n, h⟩

theorem dottedQuad_ipText (ip : UInt32) : DottedQuad (ipText ip) ip := by
  obtain ⟨h24, h16, h8⟩ := toNat_octets ip
  have hlt := ip.toNat_lt
  refine ⟨[(ip >>> 24).toNat, ((ip >>> 16) &&& 0xFF).toNat, ((ip >>> 8) &&& 0xFF).toNat,
    (ip &&& 0xFF).toNat].map fun n => (dec n, n), rfl, ?_, ?_, ?_⟩
  · intro o ho
    obtain ⟨n, hn, rfl⟩ := List.mem_map.mp ho
    refine octet_dec ?_
    simp only [toNat_lowByte, h24, h16, h8, List.mem_cons, List.not_mem_nil, or_false] at hn
    omega
  · simp [ipText, List.intercalate, text]
  · simp only [List.map_cons, List.map_nil, List.foldl_cons, List.foldl_nil, toNat_lowByte, h24, h16,
      h8]
    omega

theorem length_ipText (ip : UInt32) : (ipText ip).length ≤ 15 := by
  obtain ⟨h24, h16, h8⟩ := toNat_octets ip
  have hlt := ip.toNat_lt
  have hdot : (text ".").length = 1 := rfl
  have hlen (n : ℕ) (hn : n ≤ 255) : (dec n).length ≤ 3 := length_dec (by decide) (by omega)
  have h1 := hlen (ip >>> 24).toNat (by omega)
  have h2 := hlen ((ip >>> 16) &&& 0xFF).toNat (by rw [toNat_lowByte]; omega)
  have h3 := hlen ((ip >>> 8) &&& 0xFF).toNat (by rw [toNat_lowByte]; omega)
  have h4 := hlen (ip &&& 0xFF).toNat (by rw [toNat_lowByte]; omega)
  simp only [ipText, List.length_append, hdot]
  omega

theorem noNul_ipText (ip : UInt32) : 0 ∉ ipText ip := by
  have hdot : 0 ∉ text "." := by decide
  simp only [ipText, List.mem_append, not_or]
  exact ⟨⟨⟨⟨⟨⟨(numeral_dec _).noNul, hdot⟩, (numeral_dec _).noNul⟩, hdot⟩, (numeral_dec _).noNul⟩,
    hdot⟩, (numeral_dec _).noNul⟩

/-- The buffer of `ip_str` has room for every address. -/
theorem ipStr_eq {buf : List UInt8} (hbuf : buf.length = 16) {ip : UInt32} (hip : ip ≠ 0) :
    ipStr buf ip = some (ipText ip ++ 0 :: buf.drop ((ipText ip).length + 1)) := by
  have hlen := length_ipText ip
  have htake : (ipText ip).take 15 = ipText ip := List.take_of_length_le hlen
  have hroom : (ipText ip ++ [0]).length ≤ buf.length := by
    rw [List.length_append, List.length_singleton]
    omega
  have hw := writeAt_append [] hroom
  rw [ipStr, if_neg hip, snprintf, if_neg (by decide)]
  simpa [htake] using hw

/-- Saving the page unchanged keeps every address. -/
theorem parseIpAt_ipStr {buf : List UInt8} (hbuf : buf.length = 16) (ip out : UInt32) :
    ∃ b, ipStr buf ip = some b ∧ parseIpAt b out = some (ip, 0) := by
  by_cases hip : ip = 0
  · have hpos : 0 < buf.length := by omega
    obtain ⟨c, rest, rfl⟩ := List.exists_cons_of_ne_nil (List.ne_nil_of_length_pos hpos)
    have hw := writeAt_append (b := c :: rest) (c := [0]) [] (by simp)
    refine ⟨0 :: rest, by rw [ipStr, if_pos hip]; simpa using hw, ?_⟩
    rw [hip]
    rfl
  · refine ⟨_, ipStr_eq hbuf hip, ?_⟩
    have hread : httpParseIpv4 (ipText ip) = .ok ip := httpParseIpv4_iff.mpr (dottedQuad_ipText ip)
    have hne : ipText ip ≠ [] := by simp [ipText, dec_ne_nil]
    have hno := noNul_ipText ip
    obtain ⟨c, s, hs⟩ := List.exists_cons_of_ne_nil hne
    have h0 : c ≠ 0 := fun h => hno (by simp [hs, h])
    have hparse := httpParseIpv4At_eq (ipText ip) (buf.drop ((ipText ip).length + 1)) hno out
    have hfirst : (ipText ip ++ 0 :: buf.drop ((ipText ip).length + 1))[0]? = some c := by
      simp [hs]
    rw [parseIpAt, hfirst, Option.bind_some, if_neg h0, hparse, hread]
    rfl

theorem httpParseIpv4_error {s : Text} {e : Int} (h : httpParseIpv4 s = .error e) : e = einval := by
  rw [httpParseIpv4] at h
  split at h
  · cases h
  · exact (Except.error.inj h).symm

/-- `http_parse_ipv4` accepts the addresses and nothing else, without a read after the NUL and
without an overflow, and reads back what `ip_str` prints. -/
theorem ipv4_exact :
    (∀ (s : Text) (out : UInt32), 0 ∉ s → ∃ r, httpParseIpv4At (s ++ [0]) out = some r ∧
      (r.2 = 0 ↔ ∃ ip, DottedQuad s ip) ∧ (∀ ip, DottedQuad s ip → r = (ip, 0)) ∧
      (r.2 ≠ 0 → r = (out, einval))) ∧
    ∀ (buf : List UInt8) (ip out : UInt32), buf.length = 16 →
      ∃ b, ipStr buf ip = some b ∧ parseIpAt b out = some (ip, 0) := by
  refine ⟨fun s out hs => ⟨_, httpParseIpv4At_eq s [] hs out, ?_⟩,
    fun buf ip out hbuf => parseIpAt_ipStr hbuf ip out⟩
  simp only [← httpParseIpv4_iff]
  cases hp : httpParseIpv4 s with
  | ok ip => simp [assigned]
  | error e =>
    obtain rfl := httpParseIpv4_error hp
    simp [assigned, einval]

/-- An address that is read, and printed and read. -/
theorem ipv4_exact_loopback :
    httpParseIpv4At (text "127.0.0.1" ++ [0]) 7 = some (0x7F000001, 0) ∧
      ∃ b, ipStr (List.replicate 16 0xAA) 0x7F000001 = some b ∧
        parseIpAt b 7 = some (0x7F000001, 0) := by
  have hquad : DottedQuad (text "127.0.0.1") 0x7F000001 := dottedQuad_ipText 0x7F000001
  obtain ⟨r, hr, -, hread, -⟩ := ipv4_exact.1 (text "127.0.0.1") 7 (by decide)
  exact ⟨hr.trans (congrArg some (hread _ hquad)), ipv4_exact.2 _ _ 7 rfl⟩

section Numbers

variable {base : UInt32} {v : UInt64}

theorem hexDigit_lt (c : UInt8) : hexDigit c < 16 := by
  rw [hexDigit]
  split
  case isTrue h =>
    have hle : c.toNat ≤ 57 := h.2
    omega
  split
  case isTrue h =>
    have hle : c.toNat ≤ 102 := h.2
    omega
  split
  case isTrue h =>
    have hle : c.toNat ≤ 70 := h.2
    omega
  decide

theorem u32LoopAt_round (hc : buf[p]? = some c) :
    u32LoopAt buf base v p =
      if c = 0 then some (.ok v.toUInt32)
      else if hexDigit c < 0 ∨ base ≤ UInt32.ofNat (hexDigit c).toNat then some (.error einval)
      else
        (nextDigit v base (UInt32.ofNat (hexDigit c).toNat)).bind fun v =>
          if 0xFFFFFFFF < v then some (.error einval) else u32LoopAt buf base v (p + 1) := by
  rw [u32LoopAt]
  split
  · simp_all
  · next d hd =>
    obtain rfl : c = d := Option.some.inj (hc.symm.trans hd)
    dsimp only
    cases nextDigit v base (UInt32.ofNat (hexDigit c).toNat) <;> rfl

theorem u32LoopAt_end (hc : buf[p]? = some 0) : u32LoopAt buf base v p = some (.ok v.toUInt32) := by
  rw [u32LoopAt_round hc, if_pos rfl]

theorem u32LoopAt_bad (hc : buf[p]? = some c) (h0 : c ≠ 0)
    (hd : hexDigit c < 0 ∨ base ≤ UInt32.ofNat (hexDigit c).toNat) :
    u32LoopAt buf base v p = some (.error einval) := by
  rw [u32LoopAt_round hc, if_neg h0, if_pos hd]

theorem u32LoopAt_digit {v' : UInt64} (hc : buf[p]? = some c) (h0 : c ≠ 0)
    (hd : ¬ (hexDigit c < 0 ∨ base ≤ UInt32.ofNat (hexDigit c).toNat))
    (hnext : nextDigit v base (UInt32.ofNat (hexDigit c).toNat) = some v') :
    u32LoopAt buf base v p =
      if 0xFFFFFFFF < v' then some (.error einval) else u32LoopAt buf base v' (p + 1) := by
  rw [u32LoopAt_round hc, if_neg h0, if_neg hd, hnext, Option.bind_some]

/-- A value of 32 bits has room for one more digit in 64 bits. -/
theorem nextDigit_eq (hv : v.toNat < 2 ^ 32) (hbase : base.toNat ≤ 16) {d : ℕ} (hd : d < 16) :
    nextDigit v base (UInt32.ofNat d) = some (v * base.toUInt64 + UInt64.ofNat d) := by
  have hd32 : (UInt32.ofNat d).toNat = d := UInt32.toNat_ofNat_of_lt' (by simp [UInt32.size]; omega)
  have hd64 : (UInt32.ofNat d).toUInt64 = UInt64.ofNat d := by
    apply UInt64.toNat_inj.mp
    rw [UInt32.toNat_toUInt64, hd32, UInt64.toNat_ofNat_of_lt' (by simp [UInt64.size]; omega)]
  have hmul : v.toNat * base.toNat ≤ 2 ^ 32 * 16 := Nat.mul_le_mul hv.le hbase
  rw [nextDigit, if_pos (by rw [hd32]; omega), hd64]

theorem u32LoopAt_eq (pre q rest : List UInt8) (base : UInt32) (v : UInt64) (hq : 0 ∉ q)
    (hv : v.toNat < 2 ^ 32) (hbase : base.toNat ≤ 16) :
    u32LoopAt (pre ++ (q ++ 0 :: rest)) base v pre.length = some (u32Loop base.toUInt64 v q) := by
  induction q generalizing pre v with
  | nil => rw [u32LoopAt_end getElem?_nul, u32Loop]
  | cons c q ih =>
    have h0 : c ≠ 0 := fun h => hq (by simp [h])
    have hlt := hexDigit_lt c
    have hd32 : (UInt32.ofNat (hexDigit c).toNat).toNat = (hexDigit c).toNat :=
      UInt32.toNat_ofNat_of_lt' (by simp [UInt32.size]; omega)
    have hbig : base ≤ UInt32.ofNat (hexDigit c).toNat ↔ base.toNat ≤ (hexDigit c).toNat := by
      rw [UInt32.le_iff_toNat_le, hd32]
    rw [u32Loop]
    by_cases hd : hexDigit c < 0 ∨ base ≤ UInt32.ofNat (hexDigit c).toNat
    · have hd' : hexDigit c < 0 ∨ (base.toUInt64.toNat : Int) ≤ hexDigit c := by
        rw [hbig] at hd
        rw [UInt32.toNat_toUInt64]
        omega
      rw [u32LoopAt_bad getElem?_here h0 hd]
      simp only [if_pos hd']
    · have hd' : ¬ (hexDigit c < 0 ∨ (base.toUInt64.toNat : Int) ≤ hexDigit c) := by
        rw [hbig] at hd
        rw [UInt32.toNat_toUInt64]
        omega
      have hnext := nextDigit_eq hv hbase (show (hexDigit c).toNat < 16 by omega)
      rw [u32LoopAt_digit getElem?_here h0 hd hnext]
      simp only [if_neg hd']
      by_cases hmax : 0xFFFFFFFF < v * base.toUInt64 + UInt64.ofNat (hexDigit c).toNat
      · rw [if_pos hmax, if_pos hmax]
      · have hsmall : ¬ 0xFFFFFFFF < (v * base.toUInt64 + UInt64.ofNat (hexDigit c).toNat).toNat := hmax
        have hrest := ih (pre ++ [c]) (v * base.toUInt64 + UInt64.ofNat (hexDigit c).toNat)
          (fun hm => hq (by simp [hm])) (by omega)
        rw [if_neg hmax, if_neg hmax]
        simpa using hrest

end Numbers

theorem httpParseU32At_dec {r : Except Int UInt32} {out : UInt32} (hc : buf[0]? = some c)
    (h0 : c ≠ 0) (hhex : hexAt buf = some false) (hloop : u32LoopAt buf 10 0 0 = some r) :
    httpParseU32At buf out = some (assigned out r) := by
  simp [httpParseU32At, hc, h0, hhex, hloop]

theorem httpParseU32At_hex {d : UInt8} {out : UInt32} (hc : buf[0]? = some c) (h0 : c ≠ 0)
    (hhex : hexAt buf = some true) (hd : buf[2]? = some d) : httpParseU32At buf out =
      if d = 0 then some (out, einval) else (u32LoopAt buf 16 0 2).map (assigned out) := by
  simp [httpParseU32At, hc, h0, hhex, hd]

/-- The parser of the buffer is that of the string. -/
theorem httpParseU32At_eq (s : Text) (hs : 0 ∉ s) (out : UInt32) :
    httpParseU32At (s ++ [0]) out = some (assigned out (httpParseU32 s)) := by
  have hdec (q : Text) (hq : 0 ∉ q) : u32LoopAt (q ++ [0]) 10 0 0 = some (u32Loop 10 0 q) :=
    u32LoopAt_eq [] q [] 10 0 hq (by decide) (by decide)
  match s, hs with
  | [], _ => rfl
  | [c], hs =>
    have h0 : c ≠ 0 := fun h => hs (by simp [h])
    have hhex : hexAt ([c] ++ [0]) = some false := by
      by_cases hc : c = ascii '0'
      · rw [hc]
        decide
      · simp [hexAt, hc]
    exact httpParseU32At_dec rfl h0 hhex (hdec [c] hs)
  | c :: x :: s, hs =>
    have h0 : c ≠ 0 := fun h => hs (by simp [h])
    have hhex : hexAt (c :: x :: s ++ [0]) =
        some (decide (c = ascii '0' ∧ (x = ascii 'x' ∨ x = ascii 'X'))) := by
      by_cases hc : c = ascii '0' <;> simp [hexAt, hc]
    rw [httpParseU32]
    by_cases hx : c = ascii '0' ∧ (x = ascii 'x' ∨ x = ascii 'X')
    · rw [decide_eq_true hx] at hhex
      rw [if_pos hx]
      cases s with
      | nil => exact httpParseU32At_hex rfl h0 hhex rfl
      | cons d s =>
        have hd : d ≠ 0 := fun h => hs (by simp [h])
        have hloop := u32LoopAt_eq [c, x] (d :: s) [] 16 0
          (fun hm => hs (by simp [List.mem_cons.mp hm])) (by decide) (by decide)
        rw [if_neg (List.cons_ne_nil _ _)]
        refine (httpParseU32At_hex rfl h0 hhex rfl).trans ?_
        rw [if_neg hd]
        exact congrArg (Option.map (assigned out)) hloop
    · rw [decide_eq_false hx] at hhex
      rw [if_neg hx]
      exact httpParseU32At_dec rfl h0 hhex (hdec _ hs)

theorem u32Loop_error {base v : UInt64} {s : Text} {e : Int} (h : u32Loop base v s = .error e) :
    e = einval := by
  induction s generalizing v with
  | nil => cases h
  | cons c s ih =>
    rw [u32Loop] at h
    dsimp only at h
    split at h
    · exact (Except.error.inj h).symm
    · split at h
      · exact (Except.error.inj h).symm
      · exact ih h

theorem httpParseU32_error {s : Text} {e : Int} (h : httpParseU32 s = .error e) : e = einval := by
  match s with
  | [] => exact (Except.error.inj h).symm
  | [c] => exact u32Loop_error h
  | c :: x :: s =>
    rw [httpParseU32] at h
    split at h
    · split at h
      · exact (Except.error.inj h).symm
      · exact u32Loop_error h
    · exact u32Loop_error h

/-- `http_parse_u32` accepts the numbers of 32 bits and nothing else, without a read after the NUL
and without an overflow of its 64 bits. -/
theorem u32_exact {s : Text} (hs : 0 ∉ s) (out : UInt32) :
    ∃ r, httpParseU32At (s ++ [0]) out = some r ∧ (r.2 = 0 ↔ ∃ n < 2 ^ 32, Denotes s n) ∧
      (∀ n < 2 ^ 32, Denotes s n → r = (UInt32.ofNat n, 0)) ∧ (r.2 ≠ 0 → r = (out, einval)) := by
  refine ⟨_, httpParseU32At_eq s hs out, ?_⟩
  have hreads (n : ℕ) (hn : n < 2 ^ 32) (h : Denotes s n) : httpParseU32 s = .ok (UInt32.ofNat n) := by
    rw [httpParseU32_ok, UInt32.toNat_ofNat_of_lt' hn]
    exact h
  cases hp : httpParseU32 s with
  | ok w =>
    have hw := httpParseU32_ok.mp hp
    refine ⟨iff_of_true rfl ⟨_, w.toNat_lt, hw⟩, fun n hn h => ?_, fun h => absurd rfl h⟩
    obtain rfl : w = UInt32.ofNat n := Except.ok.inj (hp.symm.trans (hreads n hn h))
    rfl
  | error e =>
    obtain rfl := httpParseU32_error hp
    have hnone : ∀ n < 2 ^ 32, ¬ Denotes s n := fun n hn h => by
      have he := hp.symm.trans (hreads n hn h)
      cases he
    have hret : einval ≠ 0 := by decide
    refine ⟨iff_of_false hret ?_, fun n hn h => absurd h (hnone n hn), fun _ => rfl⟩
    rintro ⟨n, hn, h⟩
    exact hnone n hn h

/-- A numeral with leading zeros, in the base of an upper case `X`. -/
theorem u32_exact_padded :
    httpParseU32At (text "0X00000000000000000aBcD" ++ [0]) 7 = some (0xABCD, 0) := by
  have hden : Denotes (text "0X00000000000000000aBcD") 0xABCD := by
    refine Or.inr ⟨ascii 'X', text "00000000000000000aBcD", Or.inr rfl, rfl, by decide, ?_⟩
    exact ⟨List.replicate 17 0 ++ [10, 11, 12, 13], by decide, by decide, by decide⟩
  obtain ⟨r, hr, -, hread, -⟩ := u32_exact (s := text "0X00000000000000000aBcD") (by decide) 7
  exact hr.trans (congrArg some (hread _ (by decide) hden))

end ZephyrApps.HttpNumerals
