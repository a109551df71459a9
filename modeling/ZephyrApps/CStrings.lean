import Mathlib.Data.List.Basic
import Mathlib.Data.List.Induction
import Mathlib.Data.List.TakeWhile
import Mathlib.Data.Nat.Digits.Defs

/-!
# C strings and numerals

A C string is the list of the characters before its NUL. A numeral denotes the
number that its digits spell in a base, most significant digit first, however long
it is; `dec` is what `%u` prints.
-/
namespace ZephyrApps.CStrings

abbrev Text := List UInt8

def ascii (c : Char) : UInt8 := c.val.toUInt8

def text (s : String) : Text := s.toList.map ascii

def cstr (bytes : List UInt8) : Text := bytes.takeWhile (· ≠ 0)

/-- The pieces of a string between separators: the first one, and those of what
follows its separator. -/
theorem splitOn_eq (sep : UInt8) (s : Text) :
    s.splitOn sep = s.takeWhile (· ≠ sep) :: (match s.dropWhile (· ≠ sep) with
      | [] => []
      | _ :: next => next.splitOn sep) := by
  induction s with
  | nil => rfl
  | cons c s ih =>
    rw [List.splitOn_cons_eq_if_modifyHead]
    by_cases hc : c = sep
    · simp [hc]
    · rw [if_neg (by simpa using hc), ih]
      simp [hc]

section Separator

variable {c : UInt8} {p s : Text}

theorem ne_of_mem (h : c ∉ p) : ∀ x ∈ p, decide (x ≠ c) = true := by
  intro x hx
  have hne : x ≠ c := fun he => h (he ▸ hx)
  simpa using hne

theorem takeWhile_ne_self (h : c ∉ s) : s.takeWhile (· ≠ c) = s :=
  List.takeWhile_eq_self_iff.mpr (ne_of_mem h)

theorem dropWhile_ne_self (h : c ∉ s) : s.dropWhile (· ≠ c) = [] :=
  List.dropWhile_eq_nil_iff.mpr (ne_of_mem h)

theorem takeWhile_ne_append (h : c ∉ p) : (p ++ c :: s).takeWhile (· ≠ c) = p := by
  rw [List.takeWhile_append_of_pos (ne_of_mem h)]
  simp

theorem dropWhile_ne_append (h : c ∉ p) : (p ++ c :: s).dropWhile (· ≠ c) = c :: s := by
  rw [List.dropWhile_append_of_pos (ne_of_mem h)]
  simp

end Separator

/-- The value of a character as a digit: decimal, or hexadecimal in either case. -/
def digitOf (c : UInt8) : Option ℕ :=
  if ascii '0' ≤ c ∧ c ≤ ascii '9' then some (c.toNat - 48)
  else if ascii 'a' ≤ c ∧ c ≤ ascii 'f' then some (c.toNat - 87)
  else if ascii 'A' ≤ c ∧ c ≤ ascii 'F' then some (c.toNat - 55)
  else none

/-- `s` spells `n` in base `b`. -/
def Numeral (b : ℕ) (s : Text) (n : ℕ) : Prop :=
  ∃ ds : List ℕ, s.map digitOf = ds.map some ∧ (∀ d ∈ ds, d < b) ∧ n = Nat.ofDigits b ds.reverse

theorem numeral_nil (b : ℕ) : Numeral b [] 0 := ⟨[], rfl, by simp, rfl⟩

theorem Numeral.concat {b n d : ℕ} {s : Text} {c : UInt8} (h : Numeral b s n)
    (hc : digitOf c = some d) (hd : d < b) : Numeral b (s ++ [c]) (n * b + d) := by
  obtain ⟨ds, hs, hds, rfl⟩ := h
  refine ⟨ds ++ [d], by simp [hs, hc], ?_, ?_⟩
  · intro d' hd'
    rcases List.mem_append.mp hd' with hd' | hd'
    · exact hds d' hd'
    · rwa [List.mem_singleton.mp hd']
  · rw [List.reverse_append, List.reverse_singleton, List.singleton_append, Nat.ofDigits_cons]
    ring

/-- A numeral with something after its first digits goes on with a digit. -/
theorem Numeral.of_concat {b n : ℕ} {s : Text} {c : UInt8} (h : Numeral b (s ++ [c]) n) :
    ∃ m d, Numeral b s m ∧ digitOf c = some d ∧ d < b ∧ n = m * b + d := by
  obtain ⟨ds, hs, hds, rfl⟩ := h
  induction ds using List.reverseRecOn with
  | nil => simp at hs
  | append_singleton ds d _ =>
    simp only [List.map_append, List.map_cons, List.map_nil] at hs
    obtain ⟨hs, hc⟩ := List.append_inj' hs rfl
    have hd : ∀ x ∈ ds, x < b := fun x hx => hds x (by simp [hx])
    refine ⟨Nat.ofDigits b ds.reverse, d, ⟨ds, hs, hd, rfl⟩, by simpa using hc,
      hds d (by simp), ?_⟩
    rw [List.reverse_append, List.reverse_singleton, List.singleton_append, Nat.ofDigits_cons]
    ring

theorem Numeral.unique {b n m : ℕ} {s : Text} (h : Numeral b s n) (h' : Numeral b s m) :
    n = m := by
  obtain ⟨ds, hs, -, rfl⟩ := h
  obtain ⟨ds', hs', -, rfl⟩ := h'
  have hd : ds = ds' := List.map_injective_iff.mpr (Option.some_injective ℕ) (hs.symm.trans hs')
  rw [hd]

theorem Numeral.digit {b n : ℕ} {s : Text} (h : Numeral b s n) {c : UInt8} (hc : c ∈ s) :
    ∃ d < b, digitOf c = some d := by
  obtain ⟨ds, hs, hds, -⟩ := h
  have hm : digitOf c ∈ ds.map some := hs ▸ List.mem_map_of_mem hc
  obtain ⟨d, hd, he⟩ := List.mem_map.mp hm
  exact ⟨d, hds d hd, he.symm⟩

/-- More digits spell no smaller a number. -/
theorem Numeral.le_of_append {b n m : ℕ} {s s' : Text} (hb : 0 < b) (h : Numeral b s n)
    (h' : Numeral b (s ++ s') m) : n ≤ m := by
  induction s' using List.reverseRecOn generalizing m with
  | nil =>
    rw [List.append_nil] at h'
    exact (h.unique h').le
  | append_singleton s' c ih =>
    rw [← List.append_assoc] at h'
    obtain ⟨k, d, hk, -, -, rfl⟩ := h'.of_concat
    calc n ≤ k := ih hk
      _ ≤ k * b := Nat.le_mul_of_pos_right k hb
      _ ≤ k * b + d := Nat.le_add_right _ _

/-- What `%u` and, for a number that is not negative, `%d` print. -/
def dec (n : ℕ) : Text := (Nat.toDigits 10 n).map ascii

theorem digitOf_digitChar : ∀ d < 10, digitOf (ascii d.digitChar) = some d := by decide

theorem numeral_dec (n : ℕ) : Numeral 10 (dec n) n := by
  induction n using Nat.strong_induction_on with
  | _ n ih =>
    rw [dec, Nat.toDigits_eq_if (by decide)]
    split
    case isTrue h =>
      simpa using (numeral_nil 10).concat (digitOf_digitChar n h) h
    case isFalse h =>
      have hlt : n / 10 < n := Nat.div_lt_self (by omega) (by decide)
      have hmod : n % 10 < 10 := Nat.mod_lt n (by decide)
      have hcat := (ih (n / 10) hlt).concat (digitOf_digitChar (n % 10) hmod) hmod
      have hn : n / 10 * 10 + n % 10 = n := Nat.div_add_mod' n 10
      rw [hn] at hcat
      simpa [dec] using hcat

theorem dec_ne_nil (n : ℕ) : dec n ≠ [] := by
  simp [dec, Nat.toDigits_ne_nil]

theorem Numeral.noNul {b n : ℕ} {s : Text} (h : Numeral b s n) : 0 ∉ s := by
  intro hm
  obtain ⟨d, -, hd⟩ := h.digit hm
  exact nomatch (show digitOf 0 = none by decide).symm.trans hd

theorem length_dec {n k : ℕ} (hk : 0 < k) (h : n < 10 ^ k) : (dec n).length ≤ k := by
  rw [dec, List.length_map]
  exact (Nat.length_toDigits_le_iff (by decide) hk).mpr h

theorem length_dec_word (w : UInt32) : (dec w.toNat).length ≤ 10 :=
  length_dec (by decide) (w.toNat_lt.trans (by decide))

end ZephyrApps.CStrings
