import Mathlib.Data.List.Infix
import Mathlib.Data.List.TakeWhile
import ZephyrApps.CStrings

/-!
# Strings in a buffer

Where a word stands first in a text, the pieces of a text between words, and the strings of a
buffer of bytes. What reaches outside the buffer is `none`.
-/
namespace ZephyrApps.CBuffers
open CStrings

section Search

variable {α : Type*} {w p s t : List α} {j k : ℕ}

/-- `w` stands at `k` in `s`, and nowhere before. -/
structure First (w s : List α) (k : ℕ) : Prop where
  stands : w <+: s.drop k
  before : ∀ j < k, ¬ w <+: s.drop j

theorem First.unique (h : First w s j) (h' : First w s k) : j = k := by
  rcases lt_trichotomy j k with hlt | heq | hgt
  · exact absurd h.stands (h'.before j hlt)
  · exact heq
  · exact absurd h'.stands (h.before k hgt)

theorem First.le (hw : w ≠ []) (h : First w s k) : k + w.length ≤ s.length := by
  have hpos : 0 < w.length := List.length_pos_iff.mpr hw
  have hle : w.length ≤ (s.drop k).length := h.stands.length_le
  rw [List.length_drop] at hle
  omega

theorem stands_of_part (hp : p <+: s) (hk : k + w.length ≤ p.length) :
    w <+: p.drop k ↔ w <+: s.drop k := by
  have hdrop : p.drop k <+: s.drop k := hp.drop k
  refine ⟨fun h => h.trans hdrop, fun h => ?_⟩
  refine List.prefix_of_prefix_length_le h hdrop ?_
  rw [List.length_drop]
  omega

/-- What stands in the first part of a text first, stands first in the whole. -/
theorem first_of_part (hw : w ≠ []) (hp : p <+: s) :
    First w p k ↔ First w s k ∧ k + w.length ≤ p.length := by
  constructor
  · intro h
    have hle := h.le hw
    refine ⟨⟨(stands_of_part hp hle).mp h.stands, fun j hj hs => ?_⟩, hle⟩
    exact h.before j hj ((stands_of_part hp (by omega)).mpr hs)
  · rintro ⟨h, hle⟩
    refine ⟨(stands_of_part hp hle).mpr h.stands, fun j hj hs => ?_⟩
    exact h.before j hj ((stands_of_part hp (by omega)).mp hs)

theorem first_zero : First w s 0 ↔ w <+: s :=
  ⟨fun h => h.stands, fun h => ⟨h, fun j hj => absurd hj (Nat.not_lt_zero j)⟩⟩

theorem first_cons_succ {c : α} (h : ¬ w <+: c :: s) : First w (c :: s) (k + 1) ↔ First w s k := by
  constructor
  · exact fun hf => ⟨hf.stands, fun j hj => hf.before (j + 1) (Nat.succ_lt_succ hj)⟩
  · refine fun hf => ⟨hf.stands, fun j hj => ?_⟩
    cases j with
    | zero => exact h
    | succ j => exact hf.before j (Nat.lt_of_succ_lt_succ hj)

variable [DecidableEq α]

/-- Where `w` stands first. -/
def find (w : List α) : List α → Option ℕ
  | [] => if w <+: [] then some 0 else none
  | c :: s => if w <+: c :: s then some 0 else (find w s).map (· + 1)

theorem find_eq_some : find w s = some k ↔ First w s k := by
  induction s generalizing k with
  | nil =>
    rw [find]
    split
    case isTrue h =>
      have hf : First w [] 0 := first_zero.mpr h
      rw [Option.some.injEq]
      exact ⟨fun hk => hk ▸ hf, fun hk => hf.unique hk⟩
    case isFalse h =>
      refine iff_of_false (fun hk => nomatch hk) fun hf => h ?_
      simpa using hf.stands
  | cons c s ih =>
    rw [find]
    split
    case isTrue h =>
      have hf : First w (c :: s) 0 := first_zero.mpr h
      rw [Option.some.injEq]
      exact ⟨fun hk => hk ▸ hf, fun hk => hf.unique hk⟩
    case isFalse h =>
      cases k with
      | zero => exact iff_of_false (by simp) fun hf => h hf.stands
      | succ k => simpa [first_cons_succ h] using ih

/-- The pieces between the places of `w`, after `piece` of the first one. -/
def piecesFrom (w piece : List α) : List α → List (List α)
  | [] => [piece]
  | c :: s =>
    if w <:+ piece ++ [c] then
      (piece ++ [c]).take (piece.length + 1 - w.length) :: piecesFrom w [] s
    else piecesFrom w (piece ++ [c]) s

/-- The pieces of a text between the places where `w` stands. -/
def pieces (w s : List α) : List (List α) := piecesFrom w [] s

theorem piecesFrom_spec (hw : w ≠ []) {piece : List α} (hp : ¬ w <:+: piece) (s : List α) :
    ((piecesFrom w piece s).map (· ++ w)).flatten = piece ++ s ++ w ∧
      ∀ l ∈ piecesFrom w piece s, ¬ w <:+: l := by
  have hnil : ¬ w <:+: [] := fun h => hw (List.eq_nil_of_infix_nil h)
  induction s generalizing piece with
  | nil => simp [piecesFrom, hp]
  | cons c s ih =>
    rw [piecesFrom]
    split
    case isTrue h =>
      obtain ⟨hflat, hall⟩ := ih hnil
      obtain ⟨l, hl⟩ := h
      have hlen : l.length + w.length = piece.length + 1 := by
        simpa using congrArg List.length hl
      have hsub : piece.length + 1 - w.length = l.length := by omega
      have htake : (piece ++ [c]).take (piece.length + 1 - w.length) = l := by
        rw [hsub, ← hl, List.take_left]
      -- the piece ends before the last character, which is one of `w`
      have hprefix : l <+: piece := by
        have hpos : 0 < w.length := List.length_pos_iff.mpr hw
        exact List.prefix_of_prefix_length_le ⟨w, hl⟩ (List.prefix_append _ _) (by omega)
      rw [htake, List.map_cons, List.flatten_cons, hflat, hl]
      refine ⟨by simp, List.forall_mem_cons.mpr ⟨fun hin => ?_, hall⟩⟩
      exact hp (hin.trans hprefix.isInfix)
    case isFalse h =>
      have hp' : ¬ w <:+: piece ++ [c] := fun hin =>
        (List.infix_concat_iff.mp hin).elim h hp
      obtain ⟨hflat, hall⟩ := ih hp'
      exact ⟨by simpa using hflat, hall⟩

/-- With `w` after each of them, the pieces make up the text with `w` after it. -/
theorem flatten_pieces (hw : w ≠ []) (s : List α) :
    ((pieces w s).map (· ++ w)).flatten = s ++ w := by
  exact (piecesFrom_spec hw (fun h => hw (List.eq_nil_of_infix_nil h)) s).1

theorem not_infix_of_mem_pieces (hw : w ≠ []) {l : List α} (hl : l ∈ pieces w s) : ¬ w <:+: l :=
  (piecesFrom_spec hw (fun h => hw (List.eq_nil_of_infix_nil h)) s).2 l hl

end Search

variable {b c s rest : List UInt8}

/-- The string at a position of a buffer, if a NUL ends it there. -/
def stringAt (b : List UInt8) (i : ℕ) : Option Text :=
  if 0 ∈ b.drop i then some (cstr (b.drop i)) else none

/-- `strstr` from a position. -/
def strstr (b : List UInt8) (i : ℕ) (w : Text) : Option (Option ℕ) :=
  (stringAt b i).map fun s => (find w s).map (i + ·)

/-- `strlen` of the string at a position. -/
def strlen (b : List UInt8) (i : ℕ) : Option ℕ := (stringAt b i).map List.length

/-- `strchr` from a position, for a character other than NUL. -/
def strchr (b : List UInt8) (i : ℕ) (c : UInt8) : Option (Option ℕ) :=
  (stringAt b i).map fun s => if c ∈ s then some (i + (s.takeWhile (· ≠ c)).length) else none

/-- `strncmp` of two strings in buffers finds no difference. -/
def strncmp (b : List UInt8) (i : ℕ) (d : List UInt8) (j n : ℕ) : Option Bool := do
  let s ← stringAt b i
  let t ← stringAt d j
  some (decide (s.take n = t.take n))

/-- The `n` bytes from a position on. -/
def readAt (b : List UInt8) (i n : ℕ) : Option (List UInt8) :=
  if i + n ≤ b.length then some ((b.drop i).take n) else none

/-- The bytes from a position on that are `c`: how many there are before another one. -/
def countFrom (c : UInt8) : List UInt8 → Option ℕ
  | [] => none
  | d :: s => if d = c then (countFrom c s).map (· + 1) else some 0

/-- `while (b[i] == c) i++;` -/
def skip (b : List UInt8) (i : ℕ) (c : UInt8) : Option ℕ := (countFrom c (b.drop i)).map (i + ·)

/-- The buffer with `bytes` at a position. -/
def writeAt (b : List UInt8) (i : ℕ) (bytes : List UInt8) : Option (List UInt8) :=
  if i + bytes.length ≤ b.length then some (b.take i ++ bytes ++ b.drop (i + bytes.length))
  else none

/-- `snprintf` of a text that is formatted: what fits into `n` bytes, with a NUL after it. -/
def snprintf (b : List UInt8) (i n : ℕ) (s : Text) : Option (List UInt8) :=
  if n = 0 then some b else writeAt b i (s.take (n - 1) ++ [0])

theorem cstr_of_not_mem (hs : 0 ∉ s) : cstr s = s := takeWhile_ne_self hs

theorem cstr_append : cstr (s ++ 0 :: rest) = cstr s := by
  rw [cstr, cstr, List.takeWhile_append]
  split
  case isTrue h =>
    rw [(List.takeWhile_prefix _).eq_of_length h]
    simp
  case isFalse h => rfl

theorem not_mem_cstr (s : List UInt8) : 0 ∉ cstr s := by
  intro h
  simpa using List.mem_takeWhile_imp h

/-- What has no NUL is in the string if it is in front of the buffer. -/
theorem prefix_cstr {p : Text} (hp : p <+: b) (h0 : 0 ∉ p) : p <+: cstr b := by
  obtain ⟨t, rfl⟩ := hp
  rw [cstr, List.takeWhile_append_of_pos (ne_of_mem h0)]
  exact List.prefix_append _ _

theorem stringAt_append (a s rest : List UInt8) :
    stringAt (a ++ (s ++ 0 :: rest)) a.length = some (cstr s) := by
  rw [stringAt, List.drop_left, if_pos (by simp), cstr_append]

theorem strstr_append (a : List UInt8) (w : Text) :
    strstr (a ++ (s ++ 0 :: rest)) a.length w = some ((find w (cstr s)).map (a.length + ·)) := by
  rw [strstr, stringAt_append a, Option.map_some]

theorem strlen_append (a s rest : List UInt8) :
    strlen (a ++ (s ++ 0 :: rest)) a.length = some (cstr s).length := by
  rw [strlen, stringAt_append a, Option.map_some]

theorem strchr_append (a s rest : List UInt8) (d : UInt8) :
    strchr (a ++ (s ++ 0 :: rest)) a.length d =
      some (if d ∈ cstr s then some (a.length + ((cstr s).takeWhile (· ≠ d)).length) else none) := by
  rw [strchr, stringAt_append a, Option.map_some]

/-- What `strchr` finds is not before where it starts. -/
theorem strchr_le {i j : ℕ} {d : UInt8} (h : strchr b i d = some (some j)) : i ≤ j := by
  obtain ⟨s, -, hs⟩ := Option.map_eq_some_iff.mp h
  split at hs
  case isTrue =>
    cases hs
    exact Nat.le_add_right _ _
  case isFalse => cases hs

theorem strncmp_append (a s rest a' t more : List UInt8) (n : ℕ) :
    strncmp (a ++ (s ++ 0 :: rest)) a.length (a' ++ (t ++ 0 :: more)) a'.length n =
      some (decide ((cstr s).take n = (cstr t).take n)) := by
  simp only [strncmp, stringAt_append, Option.bind_eq_bind, Option.bind_some]

theorem readAt_append (a : List UInt8) {n : ℕ} (h : n ≤ b.length) :
    readAt (a ++ b) a.length n = some (b.take n) := by
  rw [readAt, if_pos (by rw [List.length_append]; omega), List.drop_left]

theorem countFrom_append {d x : UInt8} (hx : x ≠ d) :
    countFrom d (s ++ x :: rest) = some (s.takeWhile (· = d)).length := by
  induction s with
  | nil => simp [countFrom, hx]
  | cons e s ih =>
    rw [List.cons_append, countFrom]
    by_cases he : e = d
    · simp [he, ih]
    · simp [he]

theorem skip_append (a : List UInt8) {d x : UInt8} (hx : x ≠ d) :
    skip (a ++ (s ++ x :: rest)) a.length d = some (a.length + (s.takeWhile (· = d)).length) := by
  rw [skip, List.drop_left, countFrom_append hx, Option.map_some]

theorem writeAt_append (a : List UInt8) (h : c.length ≤ b.length) :
    writeAt (a ++ b) a.length c = some (a ++ c ++ b.drop c.length) := by
  rw [writeAt, if_pos (by rw [List.length_append]; omega), List.take_left, List.drop_append]
  simp

theorem length_writeAt {i : ℕ} (h : writeAt b i c = some s) : s.length = b.length := by
  unfold writeAt at h
  split at h
  case isTrue hle =>
    cases h
    simp only [List.length_append, List.length_take, List.length_drop]
    omega
  case isFalse => cases h

theorem snprintf_inside {i n : ℕ} (hn : 0 < n) (hroom : i + n ≤ b.length) (s : Text) :
    ∃ b', snprintf b i n s = some b' ∧ b'.length = b.length ∧
      b'.take (i + min s.length (n - 1)) = b.take i ++ s.take (n - 1) := by
  have hlen : (s.take (n - 1) ++ [0]).length = min s.length (n - 1) + 1 := by
    rw [List.length_append, List.length_take, Nat.min_comm]
    rfl
  have hfits : i + (s.take (n - 1) ++ [0]).length ≤ b.length := by omega
  have hprint : snprintf b i n s = writeAt b i (s.take (n - 1) ++ [0]) := by
    rw [snprintf, if_neg (Nat.ne_of_gt hn)]
  have hwrite : writeAt b i (s.take (n - 1) ++ [0]) = some (b.take i ++ (s.take (n - 1) ++ [0]) ++
      b.drop (i + (s.take (n - 1) ++ [0]).length)) := if_pos hfits
  refine ⟨_, hprint.trans hwrite, length_writeAt hwrite, ?_⟩
  have hfront : (b.take i ++ s.take (n - 1)).length = i + min s.length (n - 1) := by
    rw [List.length_append, List.length_take, List.length_take, Nat.min_comm (n - 1)]
    omega
  rw [← List.append_assoc, List.append_assoc _ [0], ← hfront, List.take_left]

end ZephyrApps.CBuffers
