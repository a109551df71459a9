import Mathlib
import ZephyrApps.EventHistories
import ZephyrApps.RingWindows
import ZephyrApps.SystemRuns

/-!
# The sampler of the power meter

`sampler.c` of PowerBread: what `sampler_get` tells of the readings of each channel, over any run of
readings, readings that fail, and resets of the statistics.
-/
namespace ZephyrApps.PowerMeter
open EventHistories SystemRuns RingWindows

/-- `PB_NUM_CH` -/
abbrev numCh : ℕ := 2

/-- `PB_CHART_POINTS` -/
abbrev chartPoints : ℕ := 160

/-- `CHART_DECIMATION` -/
def chartDecimation : ℕ := 5

/-- What the arithmetic of `float` and `double` does: the conversions, `dt_h` of so many milliseconds,
`ma_sum / n`, and `1e9f`. -/
structure Numbers (F D : Type*) where
  toDouble : F → D
  toFloat : D → F
  toInt32 : F → Int32
  hours : ℤ → D
  per : D → UInt32 → D
  big : F

/-- What `read_channels` gives for a channel. -/
structure Reading (F : Type*) where
  v : F
  ma : F
  mw : F

/-- `struct channel_acc`; the ring of the chart has been written all over, with zeros. -/
structure ChannelAcc (F D : Type*) where
  v : F
  ma : F
  mw : F
  vMin : F
  vMax : F
  maMin : F
  maMax : F
  maSum : D
  n : UInt32
  mah : D
  mwh : D
  chart : Ring Int32 chartPoints

/-- `struct pb_channel_stats` -/
structure ChannelStats (F : Type*) where
  v : F
  ma : F
  mw : F
  vMin : F
  vMax : F
  maMin : F
  maMax : F
  maAvg : F
  mah : F
  mwh : F
  chart : List Int32

/-- The statics, and `decim` and `last_t` of the thread. -/
structure Sampler (F D : Type*) where
  acc : Fin numCh → ChannelAcc F D
  sensorOk : Bool
  decim : ℕ
  lastT : ℤ

variable {F D : Type*} [LinearOrder F] [Zero F] [Neg F] [Add D] [Mul D] [Zero D]

/-- `reset_channel` -/
def resetChannel (num : Numbers F D) (c : ChannelAcc F D) : ChannelAcc F D :=
  { c with
    vMin := num.big
    maMin := num.big
    vMax := -num.big
    maMax := -num.big
    maSum := 0
    n := 0
    mah := 0
    mwh := 0 }

/-- The statics before the thread has started at `t`. -/
def boot (t : ℤ) : Sampler F D :=
  ⟨fun _ => ⟨0, 0, 0, 0, 0, 0, 0, 0, 0, 0, 0, ⟨fun _ => 0, 0, true⟩⟩, false, 0, t⟩

/-- `sampler_reset_stats` -/
def samplerResetStats (num : Numbers F D) (s : Sampler F D) : Sampler F D :=
  { s with acc := fun i => resetChannel num (s.acc i) }

/-- `MIN` and `MAX` -/
def cMin (a b : F) : F := if a < b then a else b

def cMax (a b : F) : F := if b < a then a else b

def ChannelAcc.add (num : Numbers F D) (c : ChannelAcc F D) (r : Reading F) (dtH : D) (push : Bool) :
    ChannelAcc F D where
  v := r.v
  ma := r.ma
  mw := r.mw
  vMin := cMin c.vMin r.v
  vMax := cMax c.vMax r.v
  maMin := cMin c.maMin r.ma
  maMax := cMax c.maMax r.ma
  maSum := c.maSum + num.toDouble r.ma
  n := c.n + 1
  mah := c.mah + num.toDouble r.ma * dtH
  mwh := c.mwh + num.toDouble r.mw * dtH
  chart := if push then c.chart.push (num.toInt32 r.ma) else c.chart

/-- A reading of all channels at `now`, one that fails, and a call of `sampler_reset_stats`, with which
the thread starts. -/
inductive Event (F : Type*) where
  | reading (now : ℤ) (r : Fin numCh → Reading F)
  | failed
  | reset

def step (num : Numbers F D) (s : Sampler F D) : Event F → Sampler F D
  | .reading now r =>
    let dtH := num.hours (now - s.lastT)
    let push := decide (chartDecimation ≤ s.decim + 1)
    { acc := fun i => (s.acc i).add num (r i) dtH push
      sensorOk := true
      decim := if push then 0 else s.decim + 1
      lastT := now }
  | .failed => { s with sensorOk := false }
  | .reset => samplerResetStats num s

/-- `sampler_get` for a channel -/
def samplerGet (num : Numbers F D) (s : Sampler F D) (i : Fin numCh) : ChannelStats F :=
  let c := s.acc i
  let known (x : F) : F := if 0 < c.n then x else 0
  { v := c.v
    ma := c.ma
    mw := c.mw
    vMin := known c.vMin
    vMax := known c.vMax
    maMin := known c.maMin
    maMax := known c.maMax
    maAvg := known (num.toFloat (num.per c.maSum c.n))
    mah := num.toFloat c.mah
    mwh := num.toFloat c.mwh
    chart := segment c.chart.cells c.chart.head chartPoints }

def readings (i : Fin numCh) (es : List (Event F)) : List (Reading F) :=
  es.filterMap fun
    | .reading _ r => some (r i)
    | _ => none

/-- When the last reading was, for a thread that has started at `t`. -/
def lastTime (t : ℤ) (es : List (Event F)) : ℤ :=
  ((es.filterMap fun e => match e with
    | .reading now _ => some now
    | _ => none).getLast?).getD t

/-- The readings of a channel with the time since the one before. -/
def spans (i : Fin numCh) (t : ℤ) : List (Event F) → List (Reading F × ℤ)
  | [] => []
  | .reading now r :: es => (r i, now - t) :: spans i now es
  | _ :: es => spans i t es

def decimated {α : Type*} (xs : List α) : List α :=
  (xs.zipIdx 1).filterMap fun x => if x.2 % chartDecimation = 0 then some x.1 else none

def charted (num : Numbers F D) (rs : List (Reading F)) : List Int32 :=
  (decimated rs).map fun r => num.toInt32 r.ma

def attempts (es : List (Event F)) : List Bool :=
  es.filterMap fun
    | .reading _ _ => some true
    | .failed => some false
    | .reset => none

def Event.isReset : Event F → Bool
  | .reset => true
  | _ => false

def Event.isReading : Event F → Bool
  | .reading _ _ => true
  | _ => false

variable {num : Numbers F D} {i : Fin numCh} {t : ℤ} {es : List (Event F)}

section Readings

omit [LinearOrder F] [Zero F] [Neg F]

theorem readings_reading (now : ℤ) (r : Fin numCh → Reading F) :
    readings i (es ++ [.reading now r]) = readings i es ++ [r i] := by simp [readings]

theorem readings_other {e : Event F} (he : e.isReading = false) :
    readings i (es ++ [e]) = readings i es := by
  cases e with
  | reading now r => cases he
  | failed | reset => simp [readings]

theorem lastTime_reading (now : ℤ) (r : Fin numCh → Reading F) :
    lastTime t (es ++ [.reading now r]) = now := by simp [lastTime]

theorem lastTime_other {e : Event F} (he : e.isReading = false) :
    lastTime t (es ++ [e]) = lastTime t es := by
  cases e with
  | reading now r => cases he
  | failed | reset => simp [lastTime]

theorem lastTime_cons (now : ℤ) (r : Fin numCh → Reading F) :
    lastTime t (.reading now r :: es) = lastTime now es := by
  simp [lastTime, List.getLast?_cons]

theorem lastTime_append (es' : List (Event F)) :
    lastTime t (es ++ es') = lastTime (lastTime t es) es' := by
  induction es' using List.reverseRecOn with
  | nil => rw [List.append_nil]; rfl
  | append_singleton es' e ih =>
    rw [← List.append_assoc]
    cases e with
    | reading now r => rw [lastTime_reading, lastTime_reading]
    | failed => rw [lastTime_other rfl, lastTime_other rfl, ih]
    | reset => rw [lastTime_other rfl, lastTime_other rfl, ih]

theorem spans_reading (now : ℤ) (r : Fin numCh → Reading F) :
    spans i t (es ++ [.reading now r]) = spans i t es ++ [(r i, now - lastTime t es)] := by
  induction es generalizing t with
  | nil => rfl
  | cons e es ih =>
    cases e with
    | reading now' r' =>
      rw [List.cons_append, spans, ih, spans, lastTime_cons]
      rfl
    | failed => exact ih
    | reset => exact ih

theorem spans_other {e : Event F} (he : e.isReading = false) :
    spans i t (es ++ [e]) = spans i t es := by
  induction es generalizing t with
  | nil =>
    cases e with
    | reading now r => cases he
    | failed | reset => rfl
  | cons e' es ih =>
    cases e' with
    | reading now r => exact congrArg ((r i, now - t) :: ·) ih
    | failed => exact ih
    | reset => exact ih

theorem spans_readings : (spans i t es).map Prod.fst = readings i es := by
  induction es generalizing t with
  | nil => rfl
  | cons e es ih =>
    cases e with
    | reading now r => exact congrArg (r i :: ·) ih
    | failed => exact ih
    | reset => exact ih

/-- No time is left out, and none counted twice. -/
theorem sum_spans : ((spans i t es).map Prod.snd).sum = lastTime t es - t := by
  induction es generalizing t with
  | nil => exact (sub_self t).symm
  | cons e es ih =>
    cases e with
    | reading now r =>
      rw [spans, List.map_cons, List.sum_cons, ih, lastTime_cons]
      omega
    | failed => exact ih
    | reset => exact ih

theorem decimated_concat {α : Type*} (xs : List α) (x : α) :
    decimated (xs ++ [x]) =
      if (xs.length + 1) % chartDecimation = 0 then decimated xs ++ [x] else decimated xs := by
  unfold decimated
  rw [List.zipIdx_append, List.filterMap_append]
  have hlast : [x].zipIdx (1 + xs.length) = [(x, xs.length + 1)] := by
    rw [Nat.add_comm]
    rfl
  rw [hlast]
  split <;> simp [*]

end Readings

/-- What is left of the readings of a channel since the last reset, with the time since the one
before each. -/
structure Stats (num : Numbers F D) (rs : List (Reading F × ℤ)) (c : ChannelAcc F D) : Prop where
  n : c.n = UInt32.ofNat rs.length
  vMin : IsLeast {x | x = num.big ∨ ∃ r ∈ rs, r.1.v = x} c.vMin
  vMax : IsGreatest {x | x = -num.big ∨ ∃ r ∈ rs, r.1.v = x} c.vMax
  maMin : IsLeast {x | x = num.big ∨ ∃ r ∈ rs, r.1.ma = x} c.maMin
  maMax : IsGreatest {x | x = -num.big ∨ ∃ r ∈ rs, r.1.ma = x} c.maMax
  maSum : c.maSum = (rs.map fun r => num.toDouble r.1.ma).foldl (· + ·) 0
  mah : c.mah = (rs.map fun r => num.toDouble r.1.ma * num.hours r.2).foldl (· + ·) 0
  mwh : c.mwh = (rs.map fun r => num.toDouble r.1.mw * num.hours r.2).foldl (· + ·) 0

structure Tells (num : Numbers F D) (rs : List (Reading F)) (c : ChannelAcc F D) : Prop where
  none : rs = [] → c.v = 0 ∧ c.ma = 0 ∧ c.mw = 0
  last : ∀ r, rs.getLast? = some r → c.v = r.v ∧ c.ma = r.ma ∧ c.mw = r.mw
  chart : c.chart.window = (List.replicate chartPoints 0 ++ charted num rs).rtake chartPoints
  wrapped : c.chart.wrapped = true

variable {rs : List (Reading F × ℤ)} {c : ChannelAcc F D} {f : Reading F → F} {big m : F}

omit [Zero F] [Neg F] in
theorem cMin_eq (a b : F) : cMin a b = min a b := (min_def_lt a b).symm

omit [Zero F] [Neg F] in
theorem cMax_eq (a b : F) : cMax a b = max a b := (max_def_lt b a).symm.trans (max_comm b a)

omit [LinearOrder F] [Zero F] [Neg F] in
theorem values_concat (r : Reading F × ℤ) :
    {x | x = big ∨ ∃ r' ∈ rs ++ [r], f r'.1 = x} = {x | x = big ∨ ∃ r' ∈ rs, f r'.1 = x} ∪ {f r.1} := by
  ext x
  constructor
  · rintro (hx | ⟨r', hr, hx⟩)
    · exact .inl (.inl hx)
    · rcases List.mem_append.mp hr with hr | hr
      · exact .inl (.inr ⟨r', hr, hx⟩)
      · exact .inr (List.mem_singleton.mp hr ▸ hx.symm)
  · rintro ((hx | ⟨r', hr, hx⟩) | hx)
    · exact .inl hx
    · exact .inr ⟨r', List.mem_append_left _ hr, hx⟩
    · exact .inr ⟨r, by simp, Set.mem_singleton_iff.mp hx |>.symm⟩

omit [Zero F] [Neg F] in
theorem isLeast_concat (h : IsLeast {x | x = big ∨ ∃ r ∈ rs, f r.1 = x} m) (r : Reading F × ℤ) :
    IsLeast {x | x = big ∨ ∃ r' ∈ rs ++ [r], f r'.1 = x} (cMin m (f r.1)) := by
  rw [values_concat, cMin_eq]
  exact h.union isLeast_singleton

omit [Zero F] [Neg F] in
theorem isGreatest_concat (h : IsGreatest {x | x = big ∨ ∃ r ∈ rs, f r.1 = x} m)
    (r : Reading F × ℤ) :
    IsGreatest {x | x = big ∨ ∃ r' ∈ rs ++ [r], f r'.1 = x} (cMax m (f r.1)) := by
  rw [values_concat, cMax_eq]
  exact h.union isGreatest_singleton

omit [Zero F] in
theorem stats_reset (num : Numbers F D) (c : ChannelAcc F D) : Stats num [] (resetChannel num c) where
  n := rfl
  vMin := by simp [resetChannel]
  vMax := by simp [resetChannel]
  maMin := by simp [resetChannel]
  maMax := by simp [resetChannel]
  maSum := rfl
  mah := rfl
  mwh := rfl

omit [Zero F] in
theorem Stats.add (h : Stats num rs c) (r : Reading F) (dt : ℤ) (push : Bool) :
    Stats num (rs ++ [(r, dt)]) (c.add num r (num.hours dt) push) where
  n := by
    have hn : (c.add num r (num.hours dt) push).n = c.n + 1 := rfl
    rw [hn, h.n, List.length_append, List.length_singleton, UInt32.ofNat_add]
    rfl
  vMin := isLeast_concat h.vMin (r, dt)
  vMax := isGreatest_concat h.vMax (r, dt)
  maMin := isLeast_concat h.maMin (r, dt)
  maMax := isGreatest_concat h.maMax (r, dt)
  maSum := by
    rw [List.map_append, List.foldl_append, ← h.maSum]
    rfl
  mah := by
    rw [List.map_append, List.foldl_append, ← h.mah]
    rfl
  mwh := by
    rw [List.map_append, List.foldl_append, ← h.mwh]
    rfl

omit [Neg F] [Zero D] in
theorem Tells.add {rs : List (Reading F)} (h : Tells num rs c) (r : Reading F) (dtH : D) {push : Bool}
    (hpush : push = decide ((rs.length + 1) % chartDecimation = 0)) :
    Tells num (rs ++ [r]) (c.add num r dtH push) where
  none hnil := absurd hnil (by simp)
  last r' hr' := by
    obtain rfl : r = r' := by simpa using hr'
    exact ⟨rfl, rfl, rfl⟩
  chart := by
    change (if push then c.chart.push (num.toInt32 r.ma) else c.chart).window = _
    rw [charted, decimated_concat, hpush]
    by_cases hfifth : (rs.length + 1) % chartDecimation = 0
    · rw [if_pos (decide_eq_true hfifth), if_pos hfifth, window_push, h.chart, rtake_rtake_append,
        List.map_append, List.append_assoc]
      rfl
    · rw [if_neg (by simpa using hfifth), if_neg hfifth]
      exact h.chart
  wrapped := by
    change (if push then c.chart.push (num.toInt32 r.ma) else c.chart).wrapped = true
    split
    · simp [Ring.push, h.wrapped]
    · exact h.wrapped

omit [LinearOrder F] [Add D] [Mul D] in
theorem Tells.reset {rs : List (Reading F)} (h : Tells num rs c) :
    Tells num rs (resetChannel num c) := ⟨h.none, h.last, h.chart, h.wrapped⟩

structure Knows (num : Numbers F D) (t : ℤ) (es : List (Event F)) (s : Sampler F D) : Prop where
  decim : ∀ i, s.decim = (readings i es).length % chartDecimation
  lastT : s.lastT = lastTime t es
  ok : s.sensorOk = ((attempts es).getLast?).getD false
  tells : ∀ i, Tells num (readings i es) (s.acc i)

theorem knows_step (s : Sampler F D) (h : Knows num t es s) (e : Event F) :
    Knows num t (es ++ [e]) (step num s e) := by
  cases e with
  | reading now r =>
    have hpush : ∀ i, decide (chartDecimation ≤ s.decim + 1) =
        decide (((readings i es).length + 1) % chartDecimation = 0) := fun i => by
      have hd := h.decim i
      unfold chartDecimation at hd ⊢
      exact decide_eq_decide.mpr (by omega)
    refine ⟨fun i => ?_, (lastTime_reading now r).symm, by simp [attempts, step], fun i => ?_⟩
    · change (if decide (chartDecimation ≤ s.decim + 1) then 0 else s.decim + 1) = _
      have hd := h.decim i
      rw [readings_reading, List.length_append, List.length_singleton]
      unfold chartDecimation at hd ⊢
      split <;> simp only [decide_eq_true_eq] at * <;> omega
    · rw [readings_reading]
      exact (h.tells i).add (r i) _ (hpush i)
  | failed =>
    refine ⟨fun i => ?_, h.lastT.trans (lastTime_other rfl).symm, by simp [attempts, step], fun i => ?_⟩
    · rw [readings_other rfl]
      exact h.decim i
    · rw [readings_other rfl]
      exact h.tells i
  | reset =>
    refine ⟨fun i => ?_, h.lastT.trans (lastTime_other rfl).symm, ?_, fun i => ?_⟩
    · rw [readings_other rfl]
      exact h.decim i
    · simpa [attempts, step, samplerResetStats] using h.ok
    · rw [readings_other rfl]
      exact (h.tells i).reset

/-- A ring that is full is read from its head on. -/
theorem segment_wrapped {α : Type*} {n : ℕ} [NeZero n] {r : Ring α n} (h : r.wrapped = true) :
    segment r.cells r.head n = r.window := by
  have hheld : r.held = n := if_pos h
  rw [Ring.window, hheld, Nat.add_sub_cancel]

omit [LinearOrder F] [Neg F] [Add D] [Mul D] in
theorem knows_boot (num : Numbers F D) (t : ℤ) : Knows num t [] (boot t) where
  decim _ := rfl
  lastT := rfl
  ok := rfl
  tells i := by
    refine ⟨fun _ => ⟨rfl, rfl, rfl⟩, nofun, ?_, rfl⟩
    have hzeros : segment (fun _ : Fin chartPoints => (0 : Int32)) 0 chartPoints =
        List.replicate chartPoints 0 := List.map_const' ..
    have hwindow : (⟨fun _ => 0, 0, true⟩ : Ring Int32 chartPoints).window =
        List.replicate chartPoints 0 := hzeros
    have hall : (List.replicate chartPoints (0 : Int32)).rtake chartPoints =
        List.replicate chartPoints 0 := by simp [List.rtake]
    have hnone : List.replicate chartPoints (0 : Int32) ++ charted num (readings i []) =
        List.replicate chartPoints 0 := List.append_nil _
    rw [hnone, hall]
    exact hwindow

theorem knows_run (num : Numbers F D) (t : ℤ) (es : List (Event F)) :
    Knows num t es (run (step num) (boot t) es) :=
  run_induction (knows_boot num t) (fun _ e h => knows_step _ h e) es

theorem stats_run (num : Numbers F D) (t : ℤ) (before : List (Event F)) {after : List (Event F)}
    (h : ∀ e ∈ after, e.isReset = false) (i : Fin numCh) :
    Stats num (spans i (lastTime t before) after)
      ((run (step num) (boot t) (before ++ .reset :: after)).acc i) := by
  induction after using List.reverseRecOn with
  | nil =>
    rw [run_concat]
    exact stats_reset num _
  | append_singleton after e ih =>
    have hstats := ih fun x hx => h x (List.mem_append_left _ hx)
    have he := h e (by simp)
    have hsplit : before ++ .reset :: (after ++ [e]) = (before ++ .reset :: after) ++ [e] := by simp
    rw [hsplit, run_concat]
    cases e with
    | reading now r =>
      have hlast : (run (step num) (boot t) (before ++ .reset :: after)).lastT =
          lastTime (lastTime t before) after := by
        rw [(knows_run num t _).lastT, ← List.singleton_append, ← List.append_assoc,
          lastTime_append, lastTime_other rfl]
      rw [spans_reading, ← hlast]
      exact hstats.add (r i) _ _
    | failed =>
      rw [spans_other rfl]
      exact hstats
    | reset => cases he

/-- What a reader is told. In every run: whether the last attempt to read has succeeded; of each
channel the last reading; the chart of the last 160 of
every fifth reading, oldest first, behind zeros while there are fewer; and the least and the
greatest readings since the last reset, with the sentinels, or zeros if there are none, which is also
said when the count of readings wraps. -/
theorem meter_tells (num : Numbers F D) (t : ℤ) (before : List (Event F)) {after : List (Event F)}
    (h : ∀ e ∈ after, e.isReset = false) (i : Fin numCh) :
    let es := before ++ .reset :: after
    let all := readings i es
    let own := readings i after
    let s := run (step num) (boot t) es
    let o := samplerGet num s i
    s.sensorOk = ((attempts es).getLast?).getD false ∧
      (all = [] → o.v = 0 ∧ o.ma = 0 ∧ o.mw = 0) ∧
      (∀ r, all.getLast? = some r → o.v = r.v ∧ o.ma = r.ma ∧ o.mw = r.mw) ∧
      o.chart = (List.replicate chartPoints 0 ++ charted num all).rtake chartPoints ∧
      (own.length % 2 ^ 32 = 0 → o.vMin = 0 ∧ o.vMax = 0 ∧ o.maMin = 0 ∧ o.maMax = 0 ∧ o.maAvg = 0) ∧
      (own.length % 2 ^ 32 ≠ 0 →
        IsLeast {x | x = num.big ∨ ∃ r ∈ own, r.v = x} o.vMin ∧
        IsGreatest {x | x = -num.big ∨ ∃ r ∈ own, r.v = x} o.vMax ∧
        IsLeast {x | x = num.big ∨ ∃ r ∈ own, r.ma = x} o.maMin ∧
        IsGreatest {x | x = -num.big ∨ ∃ r ∈ own, r.ma = x} o.maMax) := by
  intro es all own s o
  have htells := (knows_run num t (before ++ .reset :: after)).tells i
  have hstats := stats_run num t before h i
  have hown : own = (spans i (lastTime t before) after).map Prod.fst := spans_readings.symm
  have hmem : ∀ (f : Reading F → F) x, (∃ r ∈ own, f r = x) ↔
      ∃ r ∈ spans i (lastTime t before) after, f r.1 = x := fun f x => by
    rw [hown]
    simp
  have hn : (0 < ((run (step num) (boot t) (before ++ .reset :: after)).acc i).n) ↔
      own.length % 2 ^ 32 ≠ 0 := by
    rw [hstats.n, hown, List.length_map, UInt32.lt_iff_toNat_lt, UInt32.toNat_ofNat']
    exact Nat.pos_iff_ne_zero
  refine ⟨(knows_run num t es).ok, htells.none, htells.last,
    (segment_wrapped htells.wrapped).trans htells.chart, fun h0 => ?_, fun h0 => ?_⟩
  · have hnot := mt hn.mp (not_not.mpr h0)
    exact ⟨if_neg hnot, if_neg hnot, if_neg hnot, if_neg hnot, if_neg hnot⟩
  · have hpos := hn.mpr h0
    have hvMin : o.vMin = _ := if_pos hpos
    have hvMax : o.vMax = _ := if_pos hpos
    have hmaMin : o.maMin = _ := if_pos hpos
    have hmaMax : o.maMax = _ := if_pos hpos
    simp only [hmem, hvMin, hvMax, hmaMin, hmaMax]
    exact ⟨hstats.vMin, hstats.vMax, hstats.maMin, hstats.maMax⟩

section Exact

variable {K : Type*} [Field K] [LinearOrder K] [IsStrictOrderedRing K]

def exact (toInt32 : K → Int32) : Numbers K K where
  toDouble := id
  toFloat := id
  toInt32 := toInt32
  hours dt := dt / 3600000
  per sum n := sum / n.toNat
  big := 1000000000

variable {g : Reading K → K} {rs : List (Reading K × ℤ)}

theorem sum_hours (rs : List (Reading K × ℤ)) :
    3600000 * (rs.map fun r => g r.1 * (r.2 / 3600000 : K)).foldl (· + ·) 0 =
      (rs.map fun r => g r.1 * (r.2 : K)).sum := by
  rw [← List.sum_eq_foldl, ← List.sum_map_mul_left]
  refine congrArg List.sum (List.map_congr_left fun r _ => ?_)
  have hne : (3600000 : K) ≠ 0 := by norm_num
  field_simp

theorem sum_between {lo hi : K} (h : ∀ r ∈ rs, 0 ≤ r.2 ∧ lo ≤ g r.1 ∧ g r.1 ≤ hi) :
    lo * ((rs.map Prod.snd).sum : ℤ) ≤ (rs.map fun r => g r.1 * (r.2 : K)).sum ∧
      (rs.map fun r => g r.1 * (r.2 : K)).sum ≤ hi * ((rs.map Prod.snd).sum : ℤ) := by
  induction rs with
  | nil => simp
  | cons r rs ih =>
    obtain ⟨hdt, hlo, hhi⟩ := h r List.mem_cons_self
    obtain ⟨ihlo, ihhi⟩ := ih fun x hx => h x (List.mem_cons_of_mem r hx)
    have hdt : (0 : K) ≤ (r.2 : K) := Int.cast_nonneg hdt
    simp only [List.map_cons, List.sum_cons, Int.cast_add, mul_add]
    exact ⟨add_le_add (mul_le_mul_of_nonneg_right hlo hdt) ihlo,
      add_le_add (mul_le_mul_of_nonneg_right hhi hdt) ihhi⟩

/-- Charge and energy are counted since the last reset without a gap: with numbers that are not
rounded they are the sums of the readings, each for the time since the one before it, those times add up
to the time from the last reading before the reset to the last one, and so what is told lies between
what the least and the greatest of the readings would have given throughout. The average is that of
the readings. -/
theorem charge_counted (toInt32 : K → Int32) (t : ℤ) (before : List (Event K)) {after : List (Event K)}
    (h : ∀ e ∈ after, e.isReset = false) (i : Fin numCh) :
    let es := before ++ .reset :: after
    let own := spans i (lastTime t before) after
    let passed := lastTime t es - lastTime t before
    let o := samplerGet (exact toInt32) (run (step (exact toInt32)) (boot t) es) i
    3600000 * o.mah = (own.map fun r => r.1.ma * (r.2 : K)).sum ∧
      3600000 * o.mwh = (own.map fun r => r.1.mw * (r.2 : K)).sum ∧
      (own.map Prod.snd).sum = passed ∧
      (∀ lo hi, (∀ r ∈ own, 0 ≤ r.2 ∧ lo ≤ r.1.ma ∧ r.1.ma ≤ hi) →
        lo * (passed : K) ≤ 3600000 * o.mah ∧ 3600000 * o.mah ≤ hi * (passed : K)) ∧
      (own ≠ [] → own.length < 2 ^ 32 → o.maAvg * own.length = (own.map fun r => r.1.ma).sum) := by
  intro es own passed o
  have hstats := stats_run (exact toInt32) t before h i
  have hmah : 3600000 * o.mah = (own.map fun r => r.1.ma * (r.2 : K)).sum :=
    (congrArg (3600000 * ·) hstats.mah).trans (sum_hours (g := Reading.ma) own)
  have hmwh : 3600000 * o.mwh = (own.map fun r => r.1.mw * (r.2 : K)).sum :=
    (congrArg (3600000 * ·) hstats.mwh).trans (sum_hours (g := Reading.mw) own)
  have hpassed : (own.map Prod.snd).sum = passed := by
    have hlast : lastTime t es = lastTime (lastTime t before) after := by
      have hsplit : es = (before ++ [.reset]) ++ after := by simp [es]
      rw [hsplit, lastTime_append, lastTime_other rfl]
    exact sum_spans.trans (by rw [← hlast])
  refine ⟨hmah, hmwh, hpassed, fun lo hi hbetween => ?_, fun hne hlen => ?_⟩
  · rw [hmah, ← hpassed]
    exact sum_between (g := Reading.ma) hbetween
  · have hn : (((run (step (exact toInt32)) (boot t) es).acc i).n).toNat = own.length := by
      rw [hstats.n, UInt32.toNat_ofNat', Nat.mod_eq_of_lt hlen]
    have hlenpos : 0 < own.length := List.length_pos_iff.mpr hne
    have hpos : 0 < ((run (step (exact toInt32)) (boot t) es).acc i).n := by
      rw [UInt32.lt_iff_toNat_lt, hn]
      exact hlenpos
    have havg : o.maAvg = (own.map fun r => r.1.ma).foldl (· + ·) 0 / own.length := by
      rw [← hn]
      exact (if_pos hpos).trans (congrArg (· / _) hstats.maSum)
    have hcast : (own.length : K) ≠ 0 := Nat.cast_ne_zero.mpr hlenpos.ne'
    rw [havg, ← List.sum_eq_foldl, div_mul_cancel₀ _ hcast]

end Exact

/-- `(int32_t)` of a number that is not rounded -/
def truncated (x : ℚ) : Int32 := Int32.ofInt (x.num.tdiv x.den)

def both (v ma : ℚ) : Fin numCh → Reading ℚ := fun _ => ⟨v, ma, v * ma⟩

def threeReadings : List (Event ℚ) :=
  [.reading 20 (both 5 300), .failed, .reading 40 (both 5 100), .reading 50 (both 4 (-7))]

theorem threeReadings_unmarked : ∀ e ∈ threeReadings, e.isReset = false := by
  simp [threeReadings, Event.isReset]

def firstCh : Fin numCh := ⟨0, by decide⟩

theorem meter_tells_three :
    IsLeast {x | x = 1000000000 ∨ ∃ r ∈ readings firstCh threeReadings, r.ma = x}
      (samplerGet (exact truncated) (run (step (exact truncated)) (boot 0)
        ([.reading 10 (both 3 2)] ++ .reset :: threeReadings)) firstCh).maMin :=
  ((meter_tells (exact truncated) 0 [.reading 10 (both 3 2)]
    threeReadings_unmarked firstCh).2.2.2.2.2 (by decide)).2.2.1

theorem charge_counted_three :
    ((spans firstCh 10 threeReadings).map Prod.snd).sum = (50 : ℤ) - 10 :=
  (charge_counted truncated 0 [.reading 10 (both 3 2)] threeReadings_unmarked firstCh).2.2.1

end ZephyrApps.PowerMeter
