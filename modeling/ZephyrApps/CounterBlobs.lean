import ZephyrApps.HealthCounters
import Mathlib.Tactic.Ring

/-!
# The blob of the health counters

`health_decode` and `health_encode` are inverse to each other: between the counters and
the byte strings of 34 bytes that begin with the version. Every other byte string is
refused and the counters that the caller passed stay.
-/
namespace ZephyrApps.CounterBlobs
open HealthCounters

/-- `get_u32` -/
def getU32 (p : List UInt8) : UInt32 :=
  (p.getD 0 0).toUInt32 <<< 24 ||| (p.getD 1 0).toUInt32 <<< 16 |||
    (p.getD 2 0).toUInt32 <<< 8 ||| (p.getD 3 0).toUInt32

theorem or_eq_add (b : ℕ) {k low : ℕ} (h : low < 2 ^ k) : b * 2 ^ k ||| low = b * 2 ^ k + low := by
  rw [Nat.mul_comm, Nat.two_pow_add_eq_or_of_lt h]

theorem getU32_toNat (a b c d : UInt8) (p : List UInt8) :
    (getU32 (a :: b :: c :: d :: p)).toNat =
      a.toNat * 2 ^ 24 + (b.toNat * 2 ^ 16 + (c.toNat * 2 ^ 8 + d.toNat)) := by
  have ha := a.toNat_lt
  have hb := b.toNat_lt
  have hc := c.toNat_lt
  have hd := d.toNat_lt
  have hshift (x : UInt8) {k : ℕ} (hx : x.toNat * 2 ^ k < 4294967296) :
      (x.toNat <<< k) % 4294967296 = x.toNat * 2 ^ k := by
    rw [Nat.shiftLeft_eq, Nat.mod_eq_of_lt hx]
  obtain ⟨hA, hB, hC, h16, h8⟩ : a.toNat * 2 ^ 24 < 4294967296 ∧ b.toNat * 2 ^ 16 < 4294967296 ∧
      c.toNat * 2 ^ 8 < 4294967296 ∧ b.toNat * 2 ^ 16 + (c.toNat * 2 ^ 8 + d.toNat) < 2 ^ 24 ∧
      c.toNat * 2 ^ 8 + d.toNat < 2 ^ 16 := by
    refine ⟨?_, ?_, ?_, ?_, ?_⟩ <;> omega
  have hword : (getU32 (a :: b :: c :: d :: p)).toNat = (a.toNat <<< 24) % 4294967296 |||
      (b.toNat <<< 16) % 4294967296 ||| (c.toNat <<< 8) % 4294967296 ||| d.toNat := by
    simp [getU32]
  rw [hword, hshift a hA, hshift b hB, hshift c hC, Nat.or_assoc, Nat.or_assoc,
    or_eq_add c.toNat hd, or_eq_add b.toNat h8, or_eq_add a.toNat h16]

theorem putU32_toNat (v : UInt32) :
    (putU32 v).map UInt8.toNat =
      [v.toNat / 16777216, v.toNat / 65536 % 256, v.toNat / 256 % 256, v.toNat % 256] := by
  have hv := v.toNat_lt
  have htop : v.toNat / 16777216 < 256 := by omega
  simpa [putU32, Nat.shiftRight_eq_div_pow] using htop

theorem getU32_putU32 (v : UInt32) (p : List UInt8) : getU32 (putU32 v ++ p) = v := by
  have hb := putU32_toNat v
  obtain ⟨a, b, c, d, hp⟩ : ∃ a b c d, putU32 v = [a, b, c, d] := ⟨_, _, _, _, rfl⟩
  rw [hp] at hb ⊢
  simp only [List.map_cons, List.map_nil, List.cons.injEq, and_true] at hb
  obtain ⟨ha, hb, hc, hd⟩ := hb
  rw [← UInt32.toNat_inj, List.cons_append, List.cons_append, List.cons_append, List.cons_append,
    getU32_toNat, ha, hb, hc, hd]
  omega

theorem putU32_getU32 {p : List UInt8} (h : 4 ≤ p.length) : putU32 (getU32 p) = p.take 4 := by
  obtain ⟨a, b, c, d, p, rfl⟩ : ∃ a b c d q, p = a :: b :: c :: d :: q := by
    match p, h with
    | a :: b :: c :: d :: q, _ => exact ⟨a, b, c, d, q, rfl⟩
  have ha := a.toNat_lt
  have hb := b.toNat_lt
  have hc := c.toNat_lt
  have hd := d.toNat_lt
  have hinj : Function.Injective (List.map UInt8.toNat) :=
    List.map_injective_iff.mpr fun _ _ h => UInt8.toNat_inj.mp h
  refine hinj ?_
  rw [putU32_toNat, getU32_toNat]
  simp only [List.take_succ_cons, List.take_zero, List.map_cons, List.map_nil, List.cons.injEq,
    and_true]
  omega

@[simp] theorem length_putU32 (v : UInt32) : (putU32 v).length = 4 := rfl

/-- `HEALTH_BLOB_VER` -/
def healthBlobVer : UInt8 := 1
/-- `HEALTH_BLOB_LEN` -/
def healthBlobLen : ℕ := 34

/-- `health_decode` of the bytes at `blob`, with the counters at `out` after it. -/
def healthDecode (blob : List UInt8) (out : Counters) : Bool × Counters :=
  if h : blob.length = healthBlobLen ∧ blob.getD 0 0 = healthBlobVer then
    (true,
      { presses := getU32 (blob.drop 1)
        mismatchEvents := getU32 (blob.drop 5)
        uptimeS := getU32 (blob.drop 9)
        boots := getU32 (blob.drop 13)
        flashes := getU32 (blob.drop 17)
        otas := getU32 (blob.drop 21)
        fwSha := (blob.drop 25).take 8
        buttonSwaps := blob.getD 33 0
        fwSha_length := by
          rw [List.length_take, List.length_drop, h.1]
          rfl })
  else (false, out)

theorem length_healthEncode (c : Counters) : (healthEncode c).length = healthBlobLen := by
  simp [healthEncode, c.fwSha_length, healthBlobLen]

theorem decode_encode (c out : Counters) : healthDecode (healthEncode c) out = (true, c) := by
  have hsha : ((healthEncode c).drop 25).take 8 = c.fwSha := List.take_left' c.fwSha_length
  have hswaps : (healthEncode c).getD 33 0 = c.buttonSwaps := by
    have htail : (healthEncode c).drop 25 = c.fwSha ++ [c.buttonSwaps] := rfl
    have hget : (healthEncode c)[33]? = ((healthEncode c).drop 25)[8]? := by
      rw [List.getElem?_drop]
    rw [List.getD_eq_getElem?_getD, hget, htail, ← c.fwSha_length, List.getElem?_concat_length]
    rfl
  rw [healthDecode, dif_pos ⟨length_healthEncode c, rfl⟩]
  congr 1
  cases c with
  | mk presses mismatchEvents uptimeS boots flashes otas fwSha buttonSwaps hlen =>
    rw [Counters.mk.injEq]
    exact ⟨getU32_putU32 presses _, getU32_putU32 mismatchEvents _, getU32_putU32 uptimeS _,
      getU32_putU32 boots _, getU32_putU32 flashes _, getU32_putU32 otas _, hsha, hswaps⟩

theorem take_one_of_getD {blob : List UInt8} {b d : UInt8} (hlen : 0 < blob.length)
    (h : blob.getD 0 d = b) : blob.take 1 = [b] := by
  cases blob with
  | nil => exact absurd hlen (Nat.lt_irrefl 0)
  | cons a blob => exact congrArg (fun x => [x]) h

theorem take_drop_append (blob : List UInt8) (k n : ℕ) :
    (blob.drop k).take n ++ blob.drop (k + n) = blob.drop k := by
  rw [← List.drop_drop, List.take_append_drop]

theorem encode_decode {blob : List UInt8} (hlen : blob.length = healthBlobLen)
    (hver : blob.getD 0 0 = healthBlobVer) (out : Counters) :
    (healthDecode blob out).1 = true ∧ healthEncode (healthDecode blob out).2 = blob := by
  have hword {k : ℕ} (hk : k + 4 ≤ 34) : putU32 (getU32 (blob.drop k)) = (blob.drop k).take 4 := by
    refine putU32_getU32 ?_
    rw [List.length_drop, hlen]
    exact Nat.le_sub_of_add_le' hk
  rw [healthDecode, dif_pos ⟨hlen, hver⟩]
  have hfirst : blob.take 1 = [1] := take_one_of_getD (by rw [hlen]; decide) hver
  have hlast : [blob.getD 33 0] = blob.drop 33 := by
    have hlt : 33 < blob.length := by
      rw [hlen]
      decide
    have hend : blob.drop (33 + 1) = [] := List.drop_of_length_le (le_of_eq hlen)
    rw [List.drop_eq_getElem_cons hlt, hend, List.getD_eq_getElem?_getD,
      List.getElem?_eq_getElem hlt, Option.getD_some]
  have h1 : (blob.take 1) ++ blob.drop 1 = blob := List.take_append_drop 1 blob
  have h5 : (blob.drop 1).take 4 ++ blob.drop 5 = blob.drop 1 := take_drop_append blob 1 4
  have h9 : (blob.drop 5).take 4 ++ blob.drop 9 = blob.drop 5 := take_drop_append blob 5 4
  have h13 : (blob.drop 9).take 4 ++ blob.drop 13 = blob.drop 9 := take_drop_append blob 9 4
  have h17 : (blob.drop 13).take 4 ++ blob.drop 17 = blob.drop 13 := take_drop_append blob 13 4
  have h21 : (blob.drop 17).take 4 ++ blob.drop 21 = blob.drop 17 := take_drop_append blob 17 4
  have h25 : (blob.drop 21).take 4 ++ blob.drop 25 = blob.drop 21 := take_drop_append blob 21 4
  have h33 : (blob.drop 25).take 8 ++ blob.drop 33 = blob.drop 25 := take_drop_append blob 25 8
  refine ⟨rfl, ?_⟩
  unfold healthEncode
  dsimp only
  rw [hword (by decide), hword (by decide), hword (by decide), hword (by decide),
    hword (by decide), hword (by decide), ← hfirst, hlast]
  simp only [List.append_assoc, h33, h25, h21, h17, h13, h9, h5, h1]

theorem decode_refused {blob : List UInt8}
    (h : blob.length ≠ healthBlobLen ∨ blob.getD 0 0 ≠ healthBlobVer) (out : Counters) :
    healthDecode blob out = (false, out) :=
  dif_neg fun hc => h.elim (fun hl => hl hc.1) fun hv => hv hc.2

/-- Encoding and decoding are inverse to each other, and nothing else is decoded. -/
theorem blob_bijective :
    (∀ c out, (healthEncode c).length = 34 ∧ healthDecode (healthEncode c) out = (true, c)) ∧
    (∀ blob out, blob.length = 34 → blob.getD 0 0 = healthBlobVer →
      (healthDecode blob out).1 = true ∧ healthEncode (healthDecode blob out).2 = blob) ∧
    ∀ blob out, blob.length ≠ 34 ∨ blob.getD 0 0 ≠ healthBlobVer →
      healthDecode blob out = (false, out) :=
  ⟨fun c out => ⟨length_healthEncode c, decode_encode c out⟩,
    fun _ out hlen hver => encode_decode hlen hver out, fun _ out h => decode_refused h out⟩

end ZephyrApps.CounterBlobs
