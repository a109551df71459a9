import Mathlib.Algebra.GroupWithZero.Nat
import Mathlib.Data.List.DropRight
import Mathlib.Data.List.OfFn
import Mathlib.Logic.Function.Basic

/-!
# Rings as windows of a stream

A ring of `n` cells keeps the last `n` elements pushed to it. Its window lists
them, oldest first; pushing is appending and forgetting what no longer fits. The
window is also read off the cells directly, in at most two slices, and cells
overwritten under an old head damage the oldest elements only.
-/
namespace ZephyrApps.RingWindows

variable {α : Type*} {n : ℕ}

/-- `head` is the cell written next; `wrapped` once every cell has been written. -/
structure Ring (α : Type*) (n : ℕ) where
  cells : Fin n → α
  head : Fin n
  wrapped : Bool

def Ring.held (r : Ring α n) : ℕ := if r.wrapped then n else r.head

theorem held_le (r : Ring α n) : r.held ≤ n := by
  unfold Ring.held
  split
  · exact le_refl n
  · exact r.head.isLt.le

variable [NeZero n]

/-- `total` cells from `start` on, around the ring. -/
def segment (cells : Fin n → α) (start total : ℕ) : List α :=
  (List.range total).map fun i => cells (Fin.ofNat n (start + i))

/-- What the ring holds, oldest first. -/
def Ring.window (r : Ring α n) : List α := segment r.cells (r.head + n - r.held) r.held

def Ring.push (r : Ring α n) (a : α) : Ring α n where
  cells := Function.update r.cells r.head a
  head := Fin.ofNat n (r.head + 1)
  wrapped := r.wrapped || decide (r.head + 1 = n)

def Ring.pushAll (r : Ring α n) (as : List α) : Ring α n := as.foldl Ring.push r

@[simp] theorem pushAll_nil (r : Ring α n) : r.pushAll [] = r := rfl

@[simp] theorem pushAll_cons (r : Ring α n) (a : α) (as : List α) :
    r.pushAll (a :: as) = (r.push a).pushAll as := rfl

@[simp] theorem segment_length (cells : Fin n → α) (start total : ℕ) :
    (segment cells start total).length = total := by simp [segment]

theorem segment_congr {cells cells' : Fin n → α} {start start' total : ℕ}
    (h : ∀ i < total, cells (Fin.ofNat n (start + i)) = cells' (Fin.ofNat n (start' + i))) :
    segment cells start total = segment cells' start' total :=
  List.map_congr_left fun i hi => h i (List.mem_range.mp hi)

theorem ofNat_mod (k i : ℕ) : Fin.ofNat n (k % n + i) = Fin.ofNat n (k + i) := by
  ext
  simp [Fin.ofNat]

@[simp] theorem segment_mod (cells : Fin n → α) (start total : ℕ) :
    segment cells (start % n) total = segment cells start total :=
  segment_congr fun i _ => by rw [ofNat_mod]

theorem ofNat_add_self (k : ℕ) : Fin.ofNat n (k + n) = Fin.ofNat n k := by
  ext
  simp [Fin.ofNat]

theorem segment_drop (cells : Fin n → α) (start total k : ℕ) :
    (segment cells start total).drop k = segment cells (start + k) (total - k) := by
  apply List.ext_getElem
  · simp
  · intro i _ _
    simp [segment, Nat.add_assoc]

theorem segment_concat (cells : Fin n → α) (start total : ℕ) :
    segment cells start (total + 1) =
      segment cells start total ++ [cells (Fin.ofNat n (start + total))] := by
  simp [segment, List.range_succ]

theorem segment_rtake (cells : Fin n → α) (start total cap : ℕ) :
    (segment cells start total).rtake cap =
      segment cells (start + (total - cap)) (total - (total - cap)) := by
  rw [List.rtake, segment_length, segment_drop]

/-- Reading from `start` to the end of the cells and on from the first one. -/
theorem segment_slices (cells : Fin n → α) {start total : ℕ} (hs : start < n) (ht : total ≤ n) :
    ((List.ofFn cells).drop start).take (min (n - start) total) ++
        (List.ofFn cells).take (total - min (n - start) total) =
      segment cells start total := by
  apply List.ext_getElem
  · simp
    omega
  · intro i hi hi'
    simp only [segment_length] at hi'
    have hl : (((List.ofFn cells).drop start).take (min (n - start) total)).length =
        min (n - start) total := by simp
    rw [List.getElem_append]
    split
    case isTrue h =>
      rw [hl] at h
      have hm : (start + i) % n = start + i := Nat.mod_eq_of_lt (by omega)
      simp [segment, Fin.ofNat, hm]
    case isFalse h =>
      rw [hl] at h
      have hm : (start + i) % n = i - min (n - start) total := by
        have he : start + i = (i - (n - start)) + n := by omega
        rw [he, Nat.add_mod_right, Nat.mod_eq_of_lt (by omega)]
        omega
      simp only [List.getElem_take, List.getElem_ofFn, segment, List.getElem_map,
        List.getElem_range, Fin.ofNat]
      congr 1
      ext
      simp only [hl]
      exact hm.symm

variable (r : Ring α n)

@[simp] theorem window_length : r.window.length = r.held := segment_length _ _ _

theorem held_push (a : α) : (r.push a).held = min (r.held + 1) n := by
  have hh := r.head.isLt
  unfold Ring.held
  by_cases hw : r.wrapped = true
  · simp [Ring.push, hw]
  · by_cases he : (r.head : ℕ) + 1 = n
    · simp [Ring.push, hw, he]
    · have hm : ((r.head : ℕ) + 1) % n = r.head + 1 := Nat.mod_eq_of_lt (by omega)
      have hmin : min ((r.head : ℕ) + 1) n = r.head + 1 := min_eq_left (by omega)
      rw [if_neg hw, hmin]
      simp [Ring.push, hw, he, Fin.ofNat, hm]

/-- The cells other than the head are those from one to `n - 1` behind it. -/
theorem ofNat_ne_head {i : ℕ} (h0 : 0 < i) (hi : i < n) : Fin.ofNat n (r.head + i) ≠ r.head := by
  intro h
  have hv : ((r.head : ℕ) + i) % n = r.head := congrArg Fin.val h
  have hh := r.head.isLt
  by_cases hc : (r.head : ℕ) + i < n
  · rw [Nat.mod_eq_of_lt hc] at hv
    omega
  · rw [Nat.mod_eq_sub_mod (by omega), Nat.mod_eq_of_lt (by omega)] at hv
    omega

theorem ofNat_head_add_self : Fin.ofNat n (r.head + n) = r.head := by
  rw [ofNat_add_self]
  ext
  exact Nat.mod_eq_of_lt r.head.isLt

/-- The window after a push, as it starts from the old head. -/
theorem window_push_eq (a : α) :
    (r.push a).window =
      segment (Function.update r.cells r.head a) (r.head + 1 + n - min (r.held + 1) n)
        (min (r.held + 1) n) := by
  have hh : ((r.push a).head : ℕ) = (r.head + 1) % n := rfl
  rw [Ring.window, held_push, hh, ← segment_mod]
  have hm : min (r.held + 1) n ≤ n := min_le_right _ _
  rw [Nat.add_sub_assoc hm, Nat.mod_add_mod, ← Nat.add_sub_assoc hm, segment_mod]
  rfl

/-- Cells behind the head keep their elements. -/
theorem segment_push (a : α) {start total : ℕ} (hs : 0 < start) (ht : start + total ≤ n) :
    segment (Function.update r.cells r.head a) (r.head + start) total =
      segment r.cells (r.head + start) total := by
  refine segment_congr fun i hi => Function.update_of_ne ?_ _ _
  rw [Nat.add_assoc]
  exact ofNat_ne_head r (by omega) (by omega)

/-- Pushing appends the element and forgets the oldest if the ring was full. -/
theorem window_push (a : α) : (r.push a).window = (r.window ++ [a]).rtake n := by
  have hl := held_le r
  have hlast : Function.update r.cells r.head a (Fin.ofNat n (r.head + n)) = a := by
    rw [ofNat_head_add_self, Function.update_self]
  rw [window_push_eq]
  by_cases hf : r.held < n
  case pos =>
    have hs : (r.head : ℕ) + 1 + n - (r.held + 1) = r.head + (n - r.held) := by omega
    have hk : (r.head : ℕ) + (n - r.held) + r.held = r.head + n := by omega
    have hw : r.window = segment r.cells (r.head + (n - r.held)) r.held := by
      rw [Ring.window, Nat.add_sub_assoc hl]
    have hd : (r.window ++ [a]).length - n = 0 := by
      simp
      omega
    rw [min_eq_left hf, hs, segment_concat, hk, hlast, segment_push r a (by omega) (by omega),
      List.rtake, hd, List.drop_zero, hw]
  case neg =>
    have he : r.held = n := by omega
    have h1 : 0 < n := r.head.pos
    have hs : (r.head : ℕ) + 1 + n - n = r.head + 1 := by omega
    have hk : (r.head : ℕ) + 1 + (n - 1) = r.head + n := by omega
    have hw : r.window = segment r.cells r.head n := by
      rw [Ring.window, he, Nat.add_sub_cancel]
    have hd : (r.window ++ [a]).length - n = 1 := by
      simp
      omega
    have hnew : segment (Function.update r.cells r.head a) (r.head + 1) n =
        segment r.cells (r.head + 1) (n - 1) ++ [a] := by
      have hc := segment_concat (Function.update r.cells r.head a) (r.head + 1) (n - 1)
      rw [Nat.sub_add_cancel h1, hk, hlast] at hc
      rw [hc, segment_push r a Nat.one_pos (by omega)]
    rw [min_eq_right (by omega), hs, hnew, List.rtake, hd, List.drop_append_of_le_length, hw,
      segment_drop]
    simp
    omega

/-- Forgetting twice is forgetting once. -/
theorem rtake_rtake_append (l m : List α) (n : ℕ) : (l.rtake n ++ m).rtake n = (l ++ m).rtake n := by
  simp only [List.rtake_eq_reverse_take_reverse, List.reverse_append, List.reverse_reverse,
    List.take_append, List.take_take]
  rw [min_eq_left (by omega)]

/-- Elements that do not fit anyway need not be pushed. -/
theorem rtake_append_rtake (l m : List α) (n : ℕ) : (l ++ m.rtake n).rtake n = (l ++ m).rtake n := by
  simp only [List.rtake_eq_reverse_take_reverse, List.reverse_append, List.reverse_reverse,
    List.take_append, List.take_take, List.length_take, min_self]
  congr 3
  omega

theorem window_pushAll (as : List α) : (r.pushAll as).window = (r.window ++ as).rtake n := by
  induction as generalizing r with
  | nil =>
    have hl := held_le r
    simp [List.rtake, hl]
  | cons a as ih =>
    rw [pushAll_cons, ih, window_push, rtake_rtake_append, List.append_assoc,
      List.singleton_append]

theorem head_pushAll (as : List α) : ((r.pushAll as).head : ℕ) = (r.head + as.length) % n := by
  induction as generalizing r with
  | nil => exact (Nat.mod_eq_of_lt r.head.isLt).symm
  | cons a as ih =>
    have hh : ((r.push a).head : ℕ) = (r.head + 1) % n := rfl
    rw [pushAll_cons, ih, hh, Nat.mod_add_mod, List.length_cons, Nat.add_assoc,
      Nat.add_comm 1 as.length]

theorem wrapped_pushAll (as : List α) :
    (r.pushAll as).wrapped = (r.wrapped || decide (n ≤ r.head + as.length)) := by
  have hn := r.head.isLt
  induction as generalizing r with
  | nil => simp
  | cons a as ih =>
    have hh : ((r.push a).head : ℕ) = (r.head + 1) % n := rfl
    have hw : (r.push a).wrapped = (r.wrapped || decide ((r.head : ℕ) + 1 = n)) := rfl
    rw [pushAll_cons, ih _ (r.push a).head.isLt, hh, hw, Bool.or_assoc, List.length_cons]
    congr 1
    by_cases he : (r.head : ℕ) + 1 = n
    · have hle : n ≤ r.head + (as.length + 1) := by omega
      simp [he, hle]
    · rw [Nat.mod_eq_of_lt (by omega)]
      simp only [he, decide_false, Bool.false_or, decide_eq_decide]
      omega

/-- Pushing `k` elements touches the next `k` cells only. -/
theorem cells_pushAll (as : List α) {j : ℕ} (hk : as.length ≤ j) (hj : j < n) :
    (r.pushAll as).cells (Fin.ofNat n (r.head + j)) = r.cells (Fin.ofNat n (r.head + j)) := by
  induction as generalizing r j with
  | nil => rfl
  | cons a as ih =>
    rw [List.length_cons] at hk
    have hp : Fin.ofNat n (r.head + j) = Fin.ofNat n ((r.push a).head + (j - 1)) := by
      have hh : ((r.push a).head : ℕ) = (r.head + 1) % n := rfl
      rw [hh, ofNat_mod]
      congr 1
      omega
    rw [pushAll_cons, hp, ih (r.push a) (by omega) (by omega), ← hp]
    exact Function.update_of_ne (ofNat_ne_head r (by omega) hj) _ _

/-- Overwriting `k` cells under an old head spares all but the oldest `k` elements. -/
theorem window_overwritten (as : List α) :
    ({ r with cells := (r.pushAll as).cells } : Ring α n).window.drop as.length =
      r.window.drop as.length := by
  have hl := held_le r
  have hs : (r.head : ℕ) + n - r.held + as.length = r.head + (n - r.held + as.length) := by omega
  have hheld : ({ r with cells := (r.pushAll as).cells } : Ring α n).held = r.held := rfl
  rw [Ring.window, Ring.window, segment_drop, segment_drop, hheld, hs]
  refine segment_congr fun i hi => ?_
  rw [Nat.add_assoc]
  exact cells_pushAll r as (by omega) (by omega)

end ZephyrApps.RingWindows
