import Mathlib.Algebra.Group.Nat.Defs
import ZephyrApps.ConsecutiveRuns
import ZephyrApps.SystemRuns

/-!
# The filter before the purple ring

`ring_mismatch_update` divides its calls into windows of 250 ms and more. Its streak is the
run of closed windows at the end in which the count changed, saturated at three, and its
deadline is kept ahead of the open window for as long as that run is three long.
-/
namespace ZephyrApps.MismatchFilter
open ConsecutiveRuns EventHistories SystemRuns

/-- `RING_MISMATCH_WINDOW_MS` -/
def ringMismatchWindowMs : UInt64 := 250
/-- `RING_MISMATCH_PERSIST_FRAMES` -/
def ringMismatchPersistFrames : UInt32 := 3
/-- `RING_MISMATCH_HOLD_MS` -/
def ringMismatchHoldMs : UInt64 := 300

/-- `struct ring_mismatch` -/
structure RingMismatch where
  lastCount : UInt32
  streak : UInt32
  windowStartMs : UInt64
  advanced : Bool
  untilMs : UInt64

/-- `ring_mismatch_init` -/
def ringMismatchInit (count : UInt32) : RingMismatch := ⟨count, 0, 0, false, 0⟩

/-- What `ring_mismatch_update` does for a count that changed. -/
def noteCount (m : RingMismatch) (count : UInt32) (nowMs : UInt64) : RingMismatch :=
  if count ≠ m.lastCount then
    let m := { m with lastCount := count, advanced := true }
    if ringMismatchPersistFrames ≤ m.streak then { m with untilMs := nowMs + ringMismatchHoldMs }
    else m
  else m

def closeWindow (m : RingMismatch) (nowMs : UInt64) : RingMismatch :=
  if ringMismatchWindowMs ≤ nowMs - m.windowStartMs then
    let m :=
      if m.advanced then
        let m :=
          if m.streak < ringMismatchPersistFrames then { m with streak := m.streak + 1 } else m
        if ringMismatchPersistFrames ≤ m.streak then
          { m with untilMs := nowMs + ringMismatchHoldMs }
        else m
      else { m with streak := 0 }
    { m with advanced := false, windowStartMs := nowMs }
  else m

/-- `ring_mismatch_update` -/
def ringMismatchUpdate (m : RingMismatch) (count : UInt32) (nowMs : UInt64) : RingMismatch × Bool :=
  let m := closeWindow (noteCount m count nowMs) nowMs
  (m, decide (nowMs < m.untilMs))

structure FilterCall where
  count : UInt32
  nowMs : UInt64

def filterRun (count : UInt32) (calls : List FilterCall) : RingMismatch :=
  run (fun m call => (ringMismatchUpdate m call.count call.nowMs).1) (ringMismatchInit count) calls

def painted (count : UInt32) (past : List FilterCall) (call : FilterCall) : Bool :=
  (ringMismatchUpdate (filterRun count past) call.count call.nowMs).2

/-- A call's time, and whether the count changed at it. -/
structure Sample where
  time : ℕ
  changed : Bool

/-- The samples of calls after one with `count`. -/
def samples (count : UInt32) : List FilterCall → List Sample
  | [] => []
  | call :: calls => ⟨call.nowMs.toNat, decide (call.count ≠ count)⟩ :: samples call.count calls

/-- The windows that are closed, when the open one began, and what it has so far. -/
structure Division where
  closed : List (List Sample)
  start : ℕ
  current : List Sample

/-- A window closes at the first call at least 250 ms after its start. -/
def Division.add (d : Division) (s : Sample) : Division :=
  if 250 ≤ s.time - d.start then ⟨d.closed ++ [d.current ++ [s]], s.time, []⟩
  else { d with current := d.current ++ [s] }

/-- The windows of calls after `ring_mismatch_init`. -/
def windows (count : UInt32) (calls : List FilterCall) : Division :=
  (samples count calls).foldl Division.add ⟨[], 0, []⟩

def changedIn (w : List Sample) : Bool := w.any fun s => s.changed

def lastChange (count : UInt32) (calls : List FilterCall) : Option ℕ :=
  ((samples count calls).filter fun s => s.changed).getLast?.map Sample.time

/-- The times never go back, and are times of a signed clock, as `k_uptime_get` is one. -/
def Clocked (calls : List FilterCall) : Prop :=
  Each (fun past call => ∀ before ∈ past, before.nowMs ≤ call.nowMs) calls ∧
    ∀ call ∈ calls, call.nowMs.toNat < 2 ^ 63

/-- Consecutive calls are at most `g` ms apart. -/
def Spaced (g : ℕ) (calls : List FilterCall) : Prop :=
  Each (fun past call => ∀ last ∈ past.getLast?, call.nowMs.toNat ≤ last.nowMs.toNat + g) calls

section
variable {m : RingMismatch} {count : UInt32} {nowMs : UInt64}

theorem noteCount_spec (m : RingMismatch) (count : UInt32) (nowMs : UInt64) :
    let m' := noteCount m count nowMs
    m'.lastCount = count ∧ m'.streak = m.streak ∧ m'.windowStartMs = m.windowStartMs ∧
      m'.advanced = (m.advanced || decide (count ≠ m.lastCount)) ∧
      m'.untilMs =
        if count ≠ m.lastCount ∧ ringMismatchPersistFrames ≤ m.streak then nowMs + ringMismatchHoldMs
        else m.untilMs := by
  rw [noteCount]
  by_cases hc : count ≠ m.lastCount
  · rw [if_pos hc]
    by_cases hs : ringMismatchPersistFrames ≤ m.streak
    · simp [hc, hs]
    · simp [hc, hs]
  · rw [if_neg hc]
    simp [not_not.mp hc]

def nextStreak (m : RingMismatch) : UInt32 :=
  if m.advanced then if m.streak < ringMismatchPersistFrames then m.streak + 1 else m.streak else 0

theorem closeWindow_spec (h : ringMismatchWindowMs ≤ nowMs - m.windowStartMs) :
    let m' := closeWindow m nowMs
    m'.lastCount = m.lastCount ∧ m'.streak = nextStreak m ∧ m'.windowStartMs = nowMs ∧
      m'.advanced = false ∧
      m'.untilMs =
        if m.advanced = true ∧ ringMismatchPersistFrames ≤ nextStreak m then
          nowMs + ringMismatchHoldMs
        else m.untilMs := by
  rw [closeWindow, if_pos h, nextStreak]
  cases ha : m.advanced with
  | false => simp
  | true =>
    by_cases hs : m.streak < ringMismatchPersistFrames
    · by_cases hp : ringMismatchPersistFrames ≤ m.streak + 1
      · simp [hs, hp]
      · simp [hs, hp]
    · have hp : ringMismatchPersistFrames ≤ m.streak := UInt32.not_lt.mp hs
      simp [hs, hp]

theorem nextStreak_toNat (h : m.streak.toNat ≤ 3) :
    (nextStreak m).toNat = if m.advanced then min 3 (m.streak.toNat + 1) else 0 := by
  rw [nextStreak]
  cases m.advanced with
  | false => rfl
  | true =>
    have hlt : m.streak < ringMismatchPersistFrames ↔ m.streak.toNat < 3 := UInt32.lt_iff_toNat_lt
    by_cases hs : m.streak.toNat < 3
    · rw [if_pos rfl, if_pos rfl, if_pos (hlt.mpr hs), UInt32.toNat_add, UInt32.toNat_one]
      omega
    · rw [if_pos rfl, if_pos rfl, if_neg fun h => hs (hlt.mp h)]
      omega

/-- All that a call does: it only adds to the open window, or it closes it. -/
structure Updates (m : RingMismatch) (count : UInt32) (now : ℕ) (m' : RingMismatch) : Prop where
  lastCount : m'.lastCount = count
  window :
    let changed := decide (count ≠ m.lastCount)
    (now - m.windowStartMs.toNat < 250 ∧ m'.windowStartMs = m.windowStartMs ∧
        m'.advanced = (m.advanced || changed) ∧ m'.streak = m.streak ∧
        m'.untilMs.toNat = if changed = true ∧ 3 ≤ m.streak.toNat then now + 300 else m.untilMs.toNat) ∨
      (250 ≤ now - m.windowStartMs.toNat ∧ m'.windowStartMs.toNat = now ∧ m'.advanced = false ∧
        m'.streak.toNat =
          (if (m.advanced || changed) = true then min 3 (m.streak.toNat + 1) else 0) ∧
        m'.untilMs.toNat =
          if (m.advanced || changed) = true ∧ 2 ≤ m.streak.toNat then now + 300
          else m.untilMs.toNat)

theorem hold_toNat (h : nowMs.toNat < 2 ^ 63) :
    (nowMs + ringMismatchHoldMs).toNat = nowMs.toNat + 300 := by
  have hms : ringMismatchHoldMs.toNat = 300 := rfl
  rw [UInt64.toNat_add, hms]
  omega

theorem persist_iff : ringMismatchPersistFrames ≤ m.streak ↔ 3 ≤ m.streak.toNat :=
  UInt32.le_iff_toNat_le

theorem window_iff (h : m.windowStartMs.toNat ≤ nowMs.toNat) :
    ringMismatchWindowMs ≤ nowMs - m.windowStartMs ↔
      250 ≤ nowMs.toNat - m.windowStartMs.toNat := by
  have hms : ringMismatchWindowMs.toNat = 250 := rfl
  rw [UInt64.le_iff_toNat_le, UInt64.toNat_sub_of_le _ _ (UInt64.le_iff_toNat_le.mpr h), hms]

theorem update_spec (count : UInt32) (hstart : m.windowStartMs.toNat ≤ nowMs.toNat)
    (hnow : nowMs.toNat < 2 ^ 63) (hstreak : m.streak.toNat ≤ 3) :
    Updates m count nowMs.toNat (ringMismatchUpdate m count nowMs).1 := by
  have hhold := hold_toNat hnow
  obtain ⟨hcount, hs, hw, hadv, huntil⟩ := noteCount_spec m count nowMs
  have hupdate : (ringMismatchUpdate m count nowMs).1 = closeWindow (noteCount m count nowMs) nowMs :=
    rfl
  rw [hupdate]
  have hle : (noteCount m count nowMs).windowStartMs.toNat ≤ nowMs.toNat := by rwa [hw]
  have hwindow := window_iff hle
  rw [hw] at hwindow
  by_cases hlong : 250 ≤ nowMs.toNat - m.windowStartMs.toNat
  · obtain ⟨hcount', hs', hw', hadv', huntil'⟩ :=
      closeWindow_spec (m := noteCount m count nowMs) (by rw [hw]; exact hwindow.mpr hlong)
    have hnext := nextStreak_toNat (m := noteCount m count nowMs) (by rwa [hs])
    rw [hadv, hs] at hnext
    refine ⟨hcount'.trans hcount, Or.inr ⟨hlong, congrArg UInt64.toNat hw', hadv', ?_, ?_⟩⟩
    · rw [hs', hnext]
    · have hthree : ringMismatchPersistFrames ≤ nextStreak (noteCount m count nowMs) ↔
          3 ≤ (nextStreak (noteCount m count nowMs)).toNat := UInt32.le_iff_toNat_le
      rw [huntil', hadv]
      by_cases hany : (m.advanced || decide (count ≠ m.lastCount)) = true
      · rw [if_pos hany] at hnext
        rw [hnext] at hthree
        by_cases htwo : 2 ≤ m.streak.toNat
        · have hlong : ringMismatchPersistFrames ≤ nextStreak (noteCount m count nowMs) :=
            hthree.mpr (by omega)
          rw [if_pos ⟨hany, hlong⟩, if_pos ⟨hany, htwo⟩, hhold]
        · have hshort : ¬ ringMismatchPersistFrames ≤ nextStreak (noteCount m count nowMs) := by
            rw [hthree]
            omega
          have hno : ¬ (count ≠ m.lastCount ∧ ringMismatchPersistFrames ≤ m.streak) := by
            rw [persist_iff]
            omega
          rw [if_neg fun h => hshort h.2, if_neg fun h => htwo h.2, huntil, if_neg hno]
      · have hno : ¬ (count ≠ m.lastCount ∧ ringMismatchPersistFrames ≤ m.streak) := fun h =>
          hany (by simp [h.1])
        rw [if_neg fun h => hany h.1, if_neg fun h => hany h.1, huntil, if_neg hno]
  · have hopen : ¬ ringMismatchWindowMs ≤ nowMs - (noteCount m count nowMs).windowStartMs := by
      rw [hw]
      exact fun h => hlong (hwindow.mp h)
    rw [closeWindow, if_neg hopen]
    refine ⟨hcount, Or.inl ⟨Nat.not_le.mp hlong, hw, hadv, hs, ?_⟩⟩
    rw [huntil]
    by_cases hc : count ≠ m.lastCount ∧ ringMismatchPersistFrames ≤ m.streak
    · rw [if_pos hc, if_pos ⟨decide_eq_true hc.1, persist_iff.mp hc.2⟩, hhold]
    · rw [if_neg hc, if_neg fun h => hc ⟨of_decide_eq_true h.1, persist_iff.mpr h.2⟩]

end

variable {count : UInt32} {past : List FilterCall} {call : FilterCall}

def countAfter (count : UInt32) (calls : List FilterCall) : UInt32 :=
  (calls.getLast?.map FilterCall.count).getD count

def sampleOf (count : UInt32) (past : List FilterCall) (call : FilterCall) : Sample :=
  ⟨call.nowMs.toNat, decide (call.count ≠ countAfter count past)⟩

theorem samples_concat (count : UInt32) (past : List FilterCall) (call : FilterCall) :
    samples count (past ++ [call]) = samples count past ++ [sampleOf count past call] := by
  induction past generalizing count with
  | nil => rfl
  | cons first past ih =>
    have hlast : sampleOf first.count past call = sampleOf count (first :: past) call := by
      rw [sampleOf, sampleOf, countAfter, countAfter]
      cases past with
      | nil => rfl
      | cons second past => rw [List.getLast?_cons_cons, List.getLast?_cons]; rfl
    rw [List.cons_append, samples, samples, ih, hlast]
    rfl

theorem windows_concat (count : UInt32) (past : List FilterCall) (call : FilterCall) :
    windows count (past ++ [call]) = (windows count past).add (sampleOf count past call) := by
  rw [windows, samples_concat, List.foldl_append]
  rfl

theorem countAfter_concat : countAfter count (past ++ [call]) = call.count := by
  rw [countAfter, List.getLast?_concat]
  rfl

structure Tracks (count : UInt32) (past : List FilterCall) (m : RingMismatch) : Prop where
  lastCount : m.lastCount = countAfter count past
  start : m.windowStartMs.toNat = (windows count past).start
  advanced : m.advanced = changedIn (windows count past).current
  streak : m.streak.toNat = min 3 (trailing changedIn (windows count past).closed)
  earned : 0 < m.untilMs.toNat → Completed changedIn 3 (windows count past).closed
  held : 3 ≤ trailing changedIn (windows count past).closed →
    (windows count past).start + 300 ≤ m.untilMs.toNat

/-- A window begins when the clock starts, or at a call. -/
theorem start_cases (count : UInt32) (past : List FilterCall) :
    (windows count past).start = 0 ∨
      ∃ call ∈ past, (windows count past).start = call.nowMs.toNat := by
  induction past using List.reverseRecOn with
  | nil => exact Or.inl rfl
  | append_singleton past call ih =>
    rw [windows_concat, Division.add]
    split
    case isTrue => exact Or.inr ⟨call, by simp, rfl⟩
    case isFalse =>
      rcases ih with h | ⟨before, hb, h⟩
      · exact Or.inl h
      · exact Or.inr ⟨before, by simp [hb], h⟩

theorem Clocked.start_le (h : Clocked (past ++ [call])) (count : UInt32) :
    (windows count past).start ≤ call.nowMs.toNat := by
  rcases start_cases count past with hs | ⟨before, hb, hs⟩
  · rw [hs]
    exact Nat.zero_le _
  · rw [hs]
    exact UInt64.le_iff_toNat_le.mp ((each_concat.mp h.1).2 before hb)

theorem Clocked.before (h : Clocked (past ++ [call])) : Clocked past :=
  ⟨(each_concat.mp h.1).1, fun before hb => h.2 before (by simp [hb])⟩

theorem changedIn_concat (w : List Sample) (s : Sample) :
    changedIn (w ++ [s]) = (changedIn w || s.changed) := by
  simp [changedIn]

/-- A call in terms of the windows: it is added to the open one, or closes it. -/
theorem Tracks.update {m : RingMismatch} (h : Tracks count past m) (hc : Clocked (past ++ [call])) :
    let m' := (ringMismatchUpdate m call.count call.nowMs).1
    let w := windows count past
    let s := sampleOf count past call
    m'.lastCount = countAfter count (past ++ [call]) ∧
      ((s.time < w.start + 250 ∧ windows count (past ++ [call]) = { w with current := w.current ++ [s] } ∧
          m'.windowStartMs = m.windowStartMs ∧ m'.advanced = changedIn (w.current ++ [s]) ∧
          m'.streak = m.streak ∧
          m'.untilMs.toNat =
            if s.changed = true ∧ 3 ≤ m.streak.toNat then s.time + 300 else m.untilMs.toNat) ∨
        (w.start + 250 ≤ s.time ∧
          windows count (past ++ [call]) = ⟨w.closed ++ [w.current ++ [s]], s.time, []⟩ ∧
          m'.windowStartMs.toNat = s.time ∧ m'.advanced = false ∧
          m'.streak.toNat =
            (if changedIn (w.current ++ [s]) = true then min 3 (m.streak.toNat + 1) else 0) ∧
          m'.untilMs.toNat =
            if changedIn (w.current ++ [s]) = true ∧ 2 ≤ m.streak.toNat then s.time + 300
            else m.untilMs.toNat)) := by
  have hstreak : m.streak.toNat ≤ 3 := by
    rw [h.streak]
    exact Nat.min_le_left 3 _
  have hle := hc.start_le count
  have hchanged : decide (call.count ≠ m.lastCount) = (sampleOf count past call).changed := by
    rw [h.lastCount]
    rfl
  have htime : (sampleOf count past call).time = call.nowMs.toNat := rfl
  obtain ⟨hcount, hwindow⟩ :=
    update_spec call.count (by rwa [h.start]) (hc.2 call (by simp)) hstreak
  rw [hchanged, h.advanced, h.start] at hwindow
  dsimp only at hwindow ⊢
  rw [← changedIn_concat, ← htime] at hwindow
  rw [← htime] at hle
  refine ⟨hcount.trans countAfter_concat.symm, ?_⟩
  rcases hwindow with ⟨hopen, hrest⟩ | ⟨hlong, hrest⟩
  · refine Or.inl ⟨by omega, ?_, hrest⟩
    rw [windows_concat, Division.add, if_neg (Nat.not_le.mpr hopen)]
  · refine Or.inr ⟨by omega, ?_, hrest⟩
    rw [windows_concat, Division.add, if_pos hlong]

theorem Tracks.next {m : RingMismatch} (h : Tracks count past m) (hc : Clocked (past ++ [call])) :
    Tracks count (past ++ [call]) (ringMismatchUpdate m call.count call.nowMs).1 := by
  have hle : (windows count past).start ≤ (sampleOf count past call).time := hc.start_le count
  have hstreak := h.streak
  obtain ⟨hcount, ⟨-, hadd, hs, ha, hstr, hu⟩ | ⟨-, hadd, hs, ha, hstr, hu⟩⟩ := h.update hc
  · refine ⟨hcount, ?_, ?_, ?_, fun hpos => ?_, fun hthree => ?_⟩
    · rw [hs, hadd, h.start]
    · rw [ha, hadd]
    · rw [hstr, hadd, hstreak]
    · rw [hadd]
      rw [hu] at hpos
      by_cases hset : (sampleOf count past call).changed = true ∧ 3 ≤ m.streak.toNat
      · have hthree : 3 ≤ trailing changedIn (windows count past).closed := by omega
        exact completed_of_le_trailing hthree
      · rw [if_neg hset] at hpos
        exact h.earned hpos
    · rw [hadd] at hthree ⊢
      have hheld := h.held hthree
      rw [hu]
      dsimp only
      split
      case isTrue => omega
      case isFalse => exact hheld
  · have htrailing := trailing_concat changedIn (windows count past).closed
      ((windows count past).current ++ [sampleOf count past call])
    refine ⟨hcount, ?_, ?_, ?_, fun hpos => ?_, fun hthree => ?_⟩
    · rw [hs, hadd]
    · rw [ha, hadd]
      rfl
    · rw [hstr, hadd, htrailing, hstreak]
      split
      case isTrue => omega
      case isFalse => rfl
    · rw [hadd]
      rw [hu] at hpos
      by_cases hset : changedIn ((windows count past).current ++ [sampleOf count past call]) = true ∧
          2 ≤ m.streak.toNat
      · refine completed_of_le_trailing ?_
        rw [htrailing, if_pos hset.1]
        omega
      · rw [if_neg hset] at hpos
        exact (h.earned hpos).append _
    · rw [hadd, htrailing] at hthree
      by_cases hany : changedIn ((windows count past).current ++ [sampleOf count past call]) = true
      · rw [if_pos hany] at hthree
        rw [hu, if_pos ⟨hany, by omega⟩, hadd]
      · rw [if_neg hany] at hthree
        omega

theorem filterRun_concat : filterRun count (past ++ [call]) =
    (ringMismatchUpdate (filterRun count past) call.count call.nowMs).1 :=
  run_concat _ _ _ _

theorem tracks_run (count : UInt32) {calls : List FilterCall} (h : Clocked calls) :
    Tracks count calls (filterRun count calls) := by
  induction calls using List.reverseRecOn with
  | nil =>
    refine ⟨rfl, rfl, rfl, rfl, fun hpos => ?_, fun hthree => ?_⟩
    · exact absurd hpos (Nat.lt_irrefl 0)
    · have hzero : trailing changedIn (windows count []).closed = 0 := rfl
      omega
  | append_singleton past call ih =>
    rw [filterRun_concat]
    exact (ih h.before).next h

theorem lastChange_concat : lastChange count (past ++ [call]) =
    if (sampleOf count past call).changed = true then some call.nowMs.toNat
    else lastChange count past := by
  rw [lastChange, samples_concat, List.filter_append]
  split
  case isTrue h =>
    rw [List.filter_cons_of_pos h, List.filter_nil, List.getLast?_concat]
    rfl
  case isFalse h =>
    rw [List.filter_cons_of_neg h, List.filter_nil, List.append_nil, lastChange]

theorem mem_samples {s : Sample} (h : s ∈ samples count past) :
    ∃ before ∈ past, s.time = before.nowMs.toNat := by
  induction past using List.reverseRecOn with
  | nil => cases h
  | append_singleton past call ih =>
    rw [samples_concat] at h
    rcases List.mem_append.mp h with h | h
    · obtain ⟨before, hb, ht⟩ := ih h
      exact ⟨before, by simp [hb], ht⟩
    · rw [List.mem_singleton.mp h]
      exact ⟨call, by simp, rfl⟩

theorem Clocked.sample_le (h : Clocked (past ++ [call])) {s : Sample} (hs : s ∈ samples count past) :
    s.time ≤ call.nowMs.toNat := by
  obtain ⟨before, hb, ht⟩ := mem_samples hs
  rw [ht]
  exact UInt64.le_iff_toNat_le.mp ((each_concat.mp h.1).2 before hb)

theorem change_le {calls : List FilterCall} (hc : Clocked calls) {s : Sample}
    (hs : s ∈ samples count calls) (hch : s.changed = true) :
    ∃ T, lastChange count calls = some T ∧ s.time ≤ T := by
  induction calls using List.reverseRecOn with
  | nil => cases hs
  | append_singleton past call ih =>
    rw [samples_concat] at hs
    rw [lastChange_concat]
    rcases List.mem_append.mp hs with hs | hs
    · by_cases hnew : (sampleOf count past call).changed = true
      · rw [if_pos hnew]
        exact ⟨_, rfl, hc.sample_le hs⟩
      · rw [if_neg hnew]
        exact ih hc.before hs
    · rw [List.mem_singleton.mp hs] at hch ⊢
      rw [if_pos hch]
      exact ⟨_, rfl, Nat.le_refl _⟩

/-- What the open window has came after its start, and the last call is in it if any is. -/
theorem current_spec (count : UInt32) {calls : List FilterCall} (hc : Clocked calls) :
    (∀ s ∈ (windows count calls).current, s ∈ samples count calls ∧
        (windows count calls).start ≤ s.time) ∧
      ((windows count calls).current ≠ [] →
        ∃ last ∈ calls.getLast?, last.nowMs.toNat < (windows count calls).start + 250) := by
  induction calls using List.reverseRecOn with
  | nil => exact ⟨by simp [windows, samples], fun h => absurd rfl h⟩
  | append_singleton past call ih =>
    have htime : (sampleOf count past call).time = call.nowMs.toNat := rfl
    have hle := hc.start_le count
    obtain ⟨hcurrent, -⟩ := ih hc.before
    rw [windows_concat, Division.add, samples_concat]
    split
    case isTrue => exact ⟨by simp, fun h => absurd rfl h⟩
    case isFalse hopen =>
      refine ⟨fun s hs => ?_, fun _ => ⟨call, by simp, ?_⟩⟩
      · rcases List.mem_append.mp hs with hs | hs
        · obtain ⟨hmem, hstart⟩ := hcurrent s hs
          exact ⟨by simp [hmem], hstart⟩
        · rw [List.mem_singleton.mp hs]
          exact ⟨by simp, hle⟩
      · dsimp only
        omega

/-- A window with a change is closed soon after the last change. -/
theorem close_le {g : ℕ} (hc : Clocked (past ++ [call])) (hg : Spaced g (past ++ [call]))
    (hch : changedIn ((windows count past).current ++ [sampleOf count past call]) = true) :
    ∃ T, lastChange count (past ++ [call]) = some T ∧ call.nowMs.toNat ≤ T + 250 + g := by
  rw [lastChange_concat]
  by_cases hnew : (sampleOf count past call).changed = true
  · rw [if_pos hnew]
    exact ⟨_, rfl, by omega⟩
  · rw [if_neg hnew]
    rw [changedIn_concat, Bool.eq_false_iff.mpr hnew, Bool.or_false, changedIn, List.any_eq_true] at hch
    obtain ⟨s, hs, hchanged⟩ := hch
    obtain ⟨hcurrent, hlast⟩ := current_spec count hc.before
    obtain ⟨hmem, hstart⟩ := hcurrent s hs
    obtain ⟨T, hT, hle⟩ := change_le hc.before hmem hchanged
    obtain ⟨last, hl, hsoon⟩ := hlast (List.ne_nil_of_mem hs)
    have hspace := (each_concat.mp hg).2 last hl
    exact ⟨T, hT, by omega⟩

/-- The deadline is not long after the last change. -/
def Ends (g : ℕ) (count : UInt32) (past : List FilterCall) (m : RingMismatch) : Prop :=
  0 < m.untilMs.toNat →
    ∃ T, lastChange count past = some T ∧ m.untilMs.toNat ≤ T + 250 + g + 300

theorem Ends.next {g : ℕ} {m : RingMismatch} (h : Ends g count past m) (ht : Tracks count past m)
    (hc : Clocked (past ++ [call])) (hg : Spaced g (past ++ [call])) :
    Ends g count (past ++ [call]) (ringMismatchUpdate m call.count call.nowMs).1 := by
  intro hpos
  have htime : (sampleOf count past call).time = call.nowMs.toNat := rfl
  -- an old deadline is before that of a later change
  have hold (hp : 0 < m.untilMs.toNat) : ∃ T, lastChange count (past ++ [call]) = some T ∧
      m.untilMs.toNat ≤ T + 250 + g + 300 := by
    obtain ⟨T, hT, hle⟩ := h hp
    rw [lastChange_concat]
    by_cases hnew : (sampleOf count past call).changed = true
    · rw [if_pos hnew]
      refine ⟨_, rfl, hle.trans ?_⟩
      obtain ⟨s, hs, rfl⟩ := Option.map_eq_some_iff.mp hT
      have hmem := List.mem_of_mem_filter (List.mem_of_getLast? hs)
      have hsle := hc.sample_le hmem
      omega
    · rw [if_neg hnew]
      exact ⟨T, hT, hle⟩
  obtain ⟨-, ⟨-, -, -, -, -, hu⟩ | ⟨-, -, -, -, -, hu⟩⟩ := ht.update hc
  · by_cases hset : (sampleOf count past call).changed = true ∧ 3 ≤ m.streak.toNat
    · rw [if_pos hset] at hu
      rw [lastChange_concat, if_pos hset.1, hu]
      exact ⟨_, rfl, by omega⟩
    · rw [if_neg hset] at hu
      rw [hu] at hpos ⊢
      exact hold hpos
  · by_cases hset : changedIn ((windows count past).current ++ [sampleOf count past call]) = true ∧
        2 ≤ m.streak.toNat
    · rw [if_pos hset] at hu
      obtain ⟨T, hT, hle⟩ := close_le hc hg hset.1
      rw [hu]
      exact ⟨T, hT, by omega⟩
    · rw [if_neg hset] at hu
      rw [hu] at hpos ⊢
      exact hold hpos

theorem ends_run {g : ℕ} {calls : List FilterCall} (hc : Clocked calls) (hg : Spaced g calls) :
    Ends g count calls (filterRun count calls) := by
  induction calls using List.reverseRecOn with
  | nil => exact fun hpos => absurd hpos (Nat.lt_irrefl 0)
  | append_singleton past call ih =>
    rw [filterRun_concat]
    exact (ih hc.before (each_concat.mp hg).1).next (tracks_run count hc.before) hc hg

/-- Purple only for sustained disagreement, and it ends. A call paints only if three
consecutive windows had changes; it paints if the windows that were closed last, three or
more, all had; and where calls are at most `g` ms apart, it does not paint once the last
change is 250 + g + 300 ms ago. -/
theorem painted_spec (count : UInt32) {calls : List FilterCall} (h : Clocked calls) :
    Each (fun past call =>
      let closed := (windows count (past ++ [call])).closed
      (painted count past call = true → Completed changedIn 3 closed) ∧
        (∀ ws, ws <:+ closed → 3 ≤ ws.length → (∀ w ∈ ws, changedIn w = true) →
          painted count past call = true) ∧
        ∀ g, Spaced g calls → ∀ T, lastChange count (past ++ [call]) = some T →
          T + 250 + g + 300 ≤ call.nowMs.toNat → painted count past call = false) calls := by
  rintro past call future rfl
  have hsplit : past ++ call :: future = (past ++ [call]) ++ future := by simp
  have hc : Clocked (past ++ [call]) := by
    rw [hsplit] at h
    exact ⟨h.1.left, fun before hb => h.2 before (List.mem_append_left future hb)⟩
  have htracks := tracks_run count hc
  have hpaint : painted count past call = true ↔
      call.nowMs.toNat < (filterRun count (past ++ [call])).untilMs.toNat := by
    rw [filterRun_concat, painted]
    exact decide_eq_true_iff.trans UInt64.lt_iff_toNat_lt
  refine ⟨fun hp => ?_, fun ws hsuffix hlength hall => ?_, fun g hg T hT hlate => ?_⟩
  · exact htracks.earned (Nat.zero_lt_of_lt (hpaint.mp hp))
  · have hthree := hlength.trans (length_le_trailing hsuffix hall)
    have hheld := htracks.held hthree
    have htime : (sampleOf count past call).time = call.nowMs.toNat := rfl
    rw [hpaint]
    obtain ⟨-, ⟨hopen, hadd, -⟩ | ⟨-, hadd, -⟩⟩ := (tracks_run count hc.before).update hc
    · rw [hadd] at hheld
      dsimp only at hheld
      omega
    · rw [hadd] at hheld
      dsimp only at hheld
      omega
  · rw [hsplit] at hg
    refine Bool.eq_false_iff.mpr fun hp => ?_
    have hlt := hpaint.mp hp
    obtain ⟨T', hT', hle⟩ := ends_run hc (g := g) hg.left (Nat.zero_lt_of_lt hlt)
    cases hT.symm.trans hT'
    omega

/-- A sustained fault, one change in every window, and then quiet. -/
def sustained : List FilterCall :=
  [⟨1, 100⟩, ⟨2, 300⟩, ⟨3, 600⟩, ⟨4, 900⟩, ⟨4, 1000⟩, ⟨4, 1200⟩, ⟨4, 1500⟩, ⟨4, 1800⟩]

theorem painted_sustained : painted 0 (sustained.take 3) ⟨4, 900⟩ = true ∧
    painted 0 (sustained.take 4) ⟨4, 1000⟩ = true ∧ painted 0 (sustained.take 7) ⟨4, 1800⟩ = false := by
  have hclock : Clocked sustained := by
    unfold Clocked
    decide
  have hspaced : Spaced 300 sustained := by
    unfold Spaced
    decide
  have hall := painted_spec 0 hclock
  obtain ⟨-, hfirst, -⟩ := hall (sustained.take 3) ⟨4, 900⟩ (sustained.drop 4) rfl
  obtain ⟨-, hnext, -⟩ := hall (sustained.take 4) ⟨4, 1000⟩ (sustained.drop 5) rfl
  obtain ⟨-, -, hend⟩ := hall (sustained.take 7) ⟨4, 1800⟩ [] rfl
  refine ⟨hfirst _ (List.suffix_refl _) (by decide) (by decide),
    hnext _ (List.suffix_refl _) (by decide) (by decide), ?_⟩
  exact hend 300 hspaced 900 (by decide) (by decide)

end ZephyrApps.MismatchFilter
