import Mathlib.Tactic.Ring

/-!
# Little-endian words in byte strings

A word of `k` bytes is laid out lowest byte first. `wordAt k i bs` reads one back
from position `i`; reading at the place where a word was laid out returns it.
-/
namespace ZephyrApps.LittleEndianWords

/-- The low `k` bytes of `n`, lowest first. -/
def wordBytes : ℕ → ℕ → List UInt8
  | 0, _ => []
  | k + 1, n => UInt8.ofNat n :: wordBytes k (n / 256)

def ofBytes : List UInt8 → ℕ
  | [] => 0
  | b :: bs => b.toNat + 256 * ofBytes bs

/-- The `k`-byte word that starts at byte `i`. -/
def wordAt (k i : ℕ) (bs : List UInt8) : ℕ := ofBytes ((bs.drop i).take k)

@[simp] theorem length_wordBytes (k n : ℕ) : (wordBytes k n).length = k := by
  induction k generalizing n with
  | zero => rfl
  | succ k ih => simp [wordBytes, ih]

theorem ofBytes_wordBytes (k n : ℕ) : ofBytes (wordBytes k n) = n % 256 ^ k := by
  induction k generalizing n with
  | zero => simp [wordBytes, ofBytes, Nat.mod_one]
  | succ k ih =>
    have hb : (UInt8.ofNat n).toNat = n % 256 := by simp
    rw [wordBytes, ofBytes, ih, hb, pow_succ', Nat.mod_mul]

/-- A word is read back from the position at which it was laid out. -/
theorem wordAt_append {k i : ℕ} {before : List UInt8} (hi : before.length = i) (n : ℕ)
    (after : List UInt8) :
    wordAt k i (before ++ (wordBytes k n ++ after)) = n % 256 ^ k := by
  subst hi
  rw [wordAt, List.drop_left, List.take_append_of_le_length (by simp),
    List.take_of_length_le (by simp), ofBytes_wordBytes]

end ZephyrApps.LittleEndianWords
