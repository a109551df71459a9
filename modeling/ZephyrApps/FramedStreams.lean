import Mathlib.Data.List.Infix

/-!
# Streams of messages that tell where they end

A reader takes messages one after another from what has arrived of a stream.
-/
namespace ZephyrApps.FramedStreams

variable {α β : Type}

/-- How messages are written, and how one is read from the front of a stream. -/
structure Framing (α β : Type) where
  frame : α → List β
  read : List β → Option (α × List β)
  read_frame : ∀ a s, read (frame a ++ s) = some (a, s)
  /-- What follows a message has no part in it. -/
  read_append : ∀ {p a rest} t, read p = some (a, rest) → read (p ++ t) = some (a, rest ++ t)
  read_nil : read [] = none

namespace Framing

variable (f : Framing α β)

/-- At most `fuel` messages. -/
def readFrom : ℕ → List β → List α
  | 0, _ => []
  | fuel + 1, s =>
    match f.read s with
    | none => []
    | some (a, rest) => a :: readFrom fuel rest

def readAll (s : List β) : List α := f.readFrom s.length s

theorem frame_ne_nil (a : α) : f.frame a ≠ [] := by
  intro h
  have hread := f.read_frame a []
  rw [h, List.append_nil, f.read_nil] at hread
  cases hread

/-- A message that has not arrived as a whole is waited for. -/
theorem read_part {a : α} {p t : List β} (h : f.frame a = p ++ t) (ht : t ≠ []) :
    f.read p = none := by
  cases hp : f.read p with
  | none => rfl
  | some r =>
    obtain ⟨b, rest⟩ := r
    have hb := f.read_append t hp
    have ha := f.read_frame a []
    rw [List.append_nil, h, hb] at ha
    simp only [Option.some.injEq, Prod.mk.injEq, List.append_eq_nil_iff] at ha
    exact absurd ha.2.2 ht

theorem length_le_flatMap (as : List α) : as.length ≤ (as.flatMap f.frame).length := by
  induction as with
  | nil => exact Nat.le_refl 0
  | cons a as ih =>
    have ha := List.length_pos_iff.mpr (f.frame_ne_nil a)
    rw [List.flatMap_cons, List.length_append, List.length_cons]
    omega

theorem readFrom_flatMap {part : List β} (hpart : f.read part = none) (as : List α) {fuel : ℕ}
    (hfuel : as.length ≤ fuel) : f.readFrom fuel (as.flatMap f.frame ++ part) = as := by
  induction as generalizing fuel with
  | nil =>
    cases fuel with
    | zero => rfl
    | succ fuel => simp [readFrom, hpart]
  | cons a as ih =>
    cases fuel with
    | zero => simp at hfuel
    | succ fuel =>
      have hrest := ih (Nat.le_of_succ_le_succ hfuel)
      rw [List.flatMap_cons, List.append_assoc, readFrom, f.read_frame]
      exact congrArg (a :: ·) hrest

/-- Messages that have arrived, with the beginning of another. -/
theorem readAll_flatMap {part : List β} (hpart : f.read part = none) (as : List α) :
    f.readAll (as.flatMap f.frame ++ part) = as := by
  refine f.readFrom_flatMap hpart as ?_
  have h := f.length_le_flatMap as
  rw [List.length_append]
  omega

theorem readFrom_mono {p s : List β} (hp : p <+: s) {n m : ℕ} (hnm : n ≤ m) :
    f.readFrom n p <+: f.readFrom m s := by
  obtain ⟨t, rfl⟩ := hp
  induction n generalizing p m with
  | zero => exact List.nil_prefix
  | succ n ih =>
    obtain ⟨m, rfl⟩ : ∃ m', m = m' + 1 := ⟨m - 1, by omega⟩
    cases hr : f.read p with
    | none =>
      rw [readFrom, hr]
      exact List.nil_prefix
    | some r =>
      obtain ⟨a, rest⟩ := r
      rw [readFrom, readFrom, hr, f.read_append t hr]
      exact (List.prefix_cons_inj a).mpr (ih (by omega))

/-- More of a stream has no fewer messages. -/
theorem readAll_mono {p s : List β} (hp : p <+: s) : f.readAll p <+: f.readAll s :=
  f.readFrom_mono hp hp.length_le

end Framing

end ZephyrApps.FramedStreams
