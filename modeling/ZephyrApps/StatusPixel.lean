import ZephyrApps.ApiState
import ZephyrApps.RunLengths
import ZephyrApps.StatusRing

/-!
# The status pixel

The blink pattern of `ring.c` for the last octet of the address, and how `leds.c` paints it. Times
are taken without a bound: no pattern is longer than half a minute.
-/
namespace ZephyrApps.StatusPixel
open ApiState RunLengths StatusRing

/-- `enum status_iface` -/
inductive StatusIface where
  | none
  | ethernet
  | wifi
  deriving DecidableEq

/-- `STATUS_BRIGHTNESS` -/
def statusBrightness : UInt8 := 48
/-- `STATUS_ON_MS` -/
def statusOnMs : ℕ := 180
/-- `STATUS_OFF_MS` -/
def statusOffMs : ℕ := 220
/-- `STATUS_ZERO_MS` -/
def statusZeroMs : ℕ := 550
/-- `STATUS_DIGIT_GAP_MS` -/
def statusDigitGapMs : ℕ := 550
/-- `STATUS_CYCLE_GAP_MS` -/
def statusCycleGapMs : ℕ := 1500
/-- `STATUS_STROBE_MS` -/
def statusStrobeMs : ℕ := 120

/-- `UINT32_MAX`, for which `walk` only measures. -/
def uint32Max : ℕ := 2 ^ 32 - 1

/-- `iface_colour` -/
def ifaceColour : StatusIface → RingRgb
  | .ethernet => ⟨0, 0, statusBrightness⟩
  | .wifi => ⟨statusBrightness, statusBrightness, 0⟩
  | .none => ⟨0, 0, 0⟩

/-- `STEP`: it goes on from `at_`, or `walk` returns there with what `*lit` is. -/
def stepTo (tMs : ℕ) (on : Bool) (ms at_ : ℕ) : Except (ℕ × Bool) ℕ :=
  if tMs ≠ uint32Max ∧ tMs < at_ + ms then .error (at_, on) else .ok (at_ + ms)

def pause (tMs n ms at_ : ℕ) : Except (ℕ × Bool) ℕ :=
  if 0 < n then stepTo tMs false ms at_ else .ok at_

/-- `digits` of an octet. -/
def digitsOf (octet : UInt8) : List ℕ :=
  (if 100 ≤ octet.toNat then [octet.toNat / 100] else []) ++
    ((if 10 ≤ octet.toNat then [octet.toNat / 10 % 10] else []) ++ [octet.toNat % 10])

def walkDigit (tMs digit at_ : ℕ) : Except (ℕ × Bool) ℕ :=
  if digit = 0 then stepTo tMs true statusZeroMs at_
  else (List.range digit).foldlM (fun at_ b => do
    let at_ ← pause tMs b statusOffMs at_
    stepTo tMs true statusOnMs at_) at_

/-- The steps of `walk`. -/
def walkSteps (iface : StatusIface) (octet : UInt8) (fault : Bool) (tMs : ℕ) :
    Except (ℕ × Bool) ℕ :=
  if fault then do
    let at_ ← stepTo tMs true statusStrobeMs 0
    stepTo tMs false statusStrobeMs at_
  else if iface = .none then stepTo tMs false 1000 0
  else do
    let at_ ← (digitsOf octet).zipIdx.foldlM (fun at_ d => do
      let at_ ← pause tMs d.2 statusDigitGapMs at_
      walkDigit tMs d.1 at_) 0
    stepTo tMs false statusCycleGapMs at_

/-- Where it returns, and what `*lit` is then. -/
def returned : Except (ℕ × Bool) ℕ → ℕ × Bool
  | .error stop => stop
  | .ok at_ => (at_, false)

/-- `walk` -/
def walk (iface : StatusIface) (octet : UInt8) (fault : Bool) (tMs : ℕ) : ℕ × Bool :=
  returned (walkSteps iface octet fault tMs)

/-- `status_cycle_ms` -/
def statusCycleMs (iface : StatusIface) (octet : UInt8) (fault : Bool) : ℕ :=
  (walk iface octet fault uint32Max).1

/-- `status_pixel` -/
def statusPixel (iface : StatusIface) (octet : UInt8) (fault : Bool) (tMs : ℕ) : RingRgb :=
  if (walk iface octet fault tMs).2 = false then ⟨0, 0, 0⟩
  else if fault then ⟨statusBrightness, 0, 0⟩
  else ifaceColour iface

/-- `status_iface_of` -/
def statusIfaceOf : UplinkKind → StatusIface
  | .ethernet | .host => .ethernet
  | .wifi => .wifi
  | .none => .none

/-- `paint_pixel` of a pixel that is ready: what it is updated to. -/
def paintPixel (up : UplinkStatus) (mismatch : Bool) (nowMs : ℕ) : RingRgb :=
  let iface := statusIfaceOf up.kind
  let octet := (up.ipv4 &&& 0xFF).toUInt8
  let cycle := statusCycleMs iface octet mismatch
  statusPixel iface octet mismatch (nowMs % cycle)

variable {iface : StatusIface} {octet : UInt8} {fault : Bool} {tMs at_ : ℕ}

def pauseRuns (n ms : ℕ) : List (Bool × ℕ) := if 0 < n then [(false, ms)] else []

def digitRuns (digit : ℕ) : List (Bool × ℕ) :=
  if digit = 0 then [(true, statusZeroMs)]
  else (List.range digit).flatMap fun b => pauseRuns b statusOffMs ++ [(true, statusOnMs)]

def pattern (iface : StatusIface) (octet : UInt8) (fault : Bool) : List (Bool × ℕ) :=
  if fault then [(true, statusStrobeMs), (false, statusStrobeMs)]
  else if iface = .none then [(false, 1000)]
  else ((digitsOf octet).zipIdx.flatMap fun d => pauseRuns d.2 statusDigitGapMs ++ digitRuns d.1) ++
    [(false, statusCycleGapMs)]

def steps (tMs : ℕ) (rs : List (Bool × ℕ)) (at_ : ℕ) : Except (ℕ × Bool) ℕ :=
  rs.foldlM (fun at_ r => stepTo tMs r.1 r.2 at_) at_

theorem steps_append (rs rs' : List (Bool × ℕ)) (at_ : ℕ) :
    steps tMs (rs ++ rs') at_ = steps tMs rs at_ >>= steps tMs rs' := List.foldlM_append

theorem foldlM_steps {β : Type} (l : List β) (f : β → List (Bool × ℕ)) (at_ : ℕ) :
    l.foldlM (fun at_ b => steps tMs (f b) at_) at_ = steps tMs (l.flatMap f) at_ := by
  induction l generalizing at_ with
  | nil => rfl
  | cons b l ih =>
    rw [List.foldlM_cons, List.flatMap_cons, steps_append]
    congr 1
    funext at_
    exact ih at_

theorem steps_single (on : Bool) (ms : ℕ) : steps tMs [(on, ms)] = stepTo tMs on ms := by
  funext at_
  simp [steps]

theorem steps_pause (n ms : ℕ) (rs : List (Bool × ℕ)) (at_ : ℕ) :
    steps tMs (pauseRuns n ms ++ rs) at_ = pause tMs n ms at_ >>= steps tMs rs := by
  rw [steps_append, pauseRuns, pause]
  split
  · rw [steps_single]
  · rfl

theorem walkDigit_eq (digit at_ : ℕ) : walkDigit tMs digit at_ = steps tMs (digitRuns digit) at_ := by
  unfold walkDigit digitRuns
  split
  · rw [steps_single]
  · rw [← foldlM_steps]
    congr 1
    funext at_ b
    rw [steps_pause, steps_single]

theorem walkSteps_eq (iface : StatusIface) (octet : UInt8) (fault : Bool) (tMs : ℕ) :
    walkSteps iface octet fault tMs = steps tMs (pattern iface octet fault) 0 := by
  unfold walkSteps pattern
  split
  · simp [steps]
  · split
    · rw [steps_single]
    · rw [steps_append, ← foldlM_steps, steps_single]
      congr 2
      funext at_ d
      rw [steps_pause]
      congr 1
      funext at_
      exact walkDigit_eq d.1 at_

/-- A walk that stops: within the run that holds `t`. -/
theorem steps_stop {rs : List (Bool × ℕ)} {t : ℕ} (ht : t ≠ uint32Max) (hat : at_ ≤ t)
    (hend : t < at_ + duration rs) :
    ∃ stop, steps t rs at_ = .error stop ∧ (expand rs)[t - at_]? = some stop.2 := by
  induction rs generalizing at_ with
  | nil =>
    rw [duration, List.map_nil, List.sum_nil] at hend
    omega
  | cons r rs ih =>
    rw [duration_cons] at hend
    rw [expand_cons, steps, List.foldlM_cons, stepTo]
    by_cases hin : t < at_ + r.2
    · rw [if_pos ⟨ht, hin⟩]
      refine ⟨_, rfl, ?_⟩
      rw [List.getElem?_append_left (by rw [List.length_replicate]; omega),
        List.getElem?_replicate_of_lt (by omega)]
    · rw [if_neg (fun h => hin h.2), List.getElem?_append_right (by rw [List.length_replicate]; omega),
        List.length_replicate]
      have hle : at_ + r.2 ≤ t := by omega
      obtain ⟨stop, hs, hget⟩ := ih hle (by omega)
      exact ⟨stop, hs, by rw [← hget]; congr 1; omega⟩

/-- A walk that only measures. -/
theorem steps_measure (rs : List (Bool × ℕ)) (at_ : ℕ) :
    steps uint32Max rs at_ = .ok (at_ + duration rs) := by
  induction rs generalizing at_ with
  | nil => rfl
  | cons r rs ih =>
    rw [steps, List.foldlM_cons, stepTo, if_neg (fun h => h.1 rfl), duration_cons, ← Nat.add_assoc]
    exact ih _

theorem statusCycleMs_eq : statusCycleMs iface octet fault = duration (pattern iface octet fault) := by
  rw [statusCycleMs, walk, walkSteps_eq, steps_measure, returned, Nat.zero_add]

theorem digitRuns_next (d : ℕ) :
    digitRuns (d + 2) = digitRuns (d + 1) ++ [(false, statusOffMs), (true, statusOnMs)] := by
  rw [digitRuns, digitRuns, if_neg (by omega), if_neg (by omega), List.range_succ (n := d + 1),
    List.flatMap_append]
  congr 1

theorem digitRuns_ne_nil (d : ℕ) : digitRuns d ≠ [] := by
  cases d with
  | zero => exact List.cons_ne_nil _ _
  | succ d =>
    cases d with
    | zero => exact List.cons_ne_nil _ _
    | succ d =>
      rw [digitRuns_next]
      exact List.append_ne_nil_of_right_ne_nil _ (List.cons_ne_nil _ _)

structure Lit (rs : List (Bool × ℕ)) : Prop where
  proper : Proper rs
  first : ∀ r ∈ rs.head?, r.1 = true
  last : ∀ r ∈ rs.getLast?, r.1 = true

theorem lit_single {ms : ℕ} (h : 0 < ms) : Lit [(true, ms)] := by
  refine ⟨⟨List.isChain_singleton _, ?_⟩, ?_, ?_⟩ <;> simp [h]

/-- The runs of a digit are lit at both ends, and do not take long. -/
theorem digitRuns_lit (d : ℕ) : Lit (digitRuns d) ∧ duration (digitRuns d) ≤ 550 + 400 * d := by
  induction d with
  | zero => exact ⟨lit_single (by decide), by decide⟩
  | succ d ih =>
    cases d with
    | zero => exact ⟨lit_single (by decide), by decide⟩
    | succ d =>
      obtain ⟨⟨⟨hchain, hpos⟩, hfirst, hlast⟩, hdur⟩ := ih
      rw [digitRuns_next]
      refine ⟨⟨⟨?_, ?_⟩, ?_, ?_⟩, ?_⟩
      · rw [List.isChain_append]
        refine ⟨hchain, by simp, fun r hr r' hr' => ?_⟩
        cases hr'
        rw [hlast r hr]
        exact Bool.noConfusion
      · simp only [List.forall_mem_append]
        exact ⟨hpos, by decide⟩
      · rw [List.head?_append_of_ne_nil _ (digitRuns_ne_nil _)]
        exact hfirst
      · simp
      · simp only [duration, List.map_append, List.sum_append] at hdur ⊢
        simp [statusOffMs, statusOnMs]
        omega

/-- One more run for a viewer who counts blinks, with the digits before: a long blink counts none,
and a pause that is not the short one ends a digit. -/
def readRun (seen : List ℕ × ℕ) (r : Bool × ℕ) : List ℕ × ℕ :=
  if r.1 then (if r.2 = statusZeroMs then seen else (seen.1, seen.2 + 1))
  else if r.2 = statusOffMs then seen
  else (seen.1 ++ [seen.2], 0)

def readOctet (rs : List (Bool × ℕ)) : ℕ :=
  (rs.foldl readRun ([], 0)).1.foldl (fun n digit => 10 * n + digit) 0

theorem foldl_digitRuns (done : List ℕ) (d : ℕ) :
    (digitRuns d).foldl readRun (done, 0) = (done, d) := by
  induction d with
  | zero => rfl
  | succ d ih =>
    cases d with
    | zero => rfl
    | succ d =>
      rw [digitRuns_next, List.foldl_append, ih]
      rfl

/-- The runs of the digits from the `n`-th on, and the pause at the end. -/
def tailRuns (ds : List ℕ) (n : ℕ) : List (Bool × ℕ) :=
  ((ds.zipIdx n).flatMap fun d => pauseRuns d.2 statusDigitGapMs ++ digitRuns d.1) ++
    [(false, statusCycleGapMs)]

theorem tailRuns_cons (d : ℕ) (ds : List ℕ) (n : ℕ) :
    tailRuns (d :: ds) n = pauseRuns n statusDigitGapMs ++ (digitRuns d ++ tailRuns ds (n + 1)) := by
  simp [tailRuns, List.zipIdx_cons]

theorem pauseRuns_succ (n ms : ℕ) : pauseRuns (n + 1) ms = [(false, ms)] := if_pos n.succ_pos

theorem foldl_tailRuns (done : List ℕ) (c : ℕ) (ds : List ℕ) (n : ℕ) :
    (tailRuns ds (n + 1)).foldl readRun (done, c) = (done ++ c :: ds, 0) := by
  induction ds generalizing done c n with
  | nil => rfl
  | cons d ds ih =>
    have hgap : readRun (done, c) (false, statusDigitGapMs) = (done ++ [c], 0) := rfl
    rw [tailRuns_cons, pauseRuns_succ, List.singleton_append, List.foldl_cons, hgap,
      List.foldl_append, foldl_digitRuns, ih]
    simp

theorem tailRuns_proper (ds : List ℕ) (n : ℕ) :
    Proper (tailRuns ds (n + 1)) ∧ ∀ r ∈ (tailRuns ds (n + 1)).head?, r.1 = false := by
  induction ds generalizing n with
  | nil => exact ⟨⟨List.isChain_singleton _, by simp [tailRuns, statusCycleGapMs]⟩, by simp [tailRuns]⟩
  | cons d ds ih =>
    obtain ⟨⟨⟨hchain, hpos⟩, hfirst, hlast⟩, -⟩ := digitRuns_lit d
    obtain ⟨⟨hchain', hpos'⟩, hfirst'⟩ := ih (n + 1)
    have hne : digitRuns d ≠ [] := digitRuns_ne_nil d
    rw [tailRuns_cons, pauseRuns_succ]
    refine ⟨⟨?_, ?_⟩, by simp⟩
    · rw [List.isChain_append, List.isChain_append]
      refine ⟨List.isChain_singleton _, ⟨hchain, hchain', fun r hr r' hr' => ?_⟩, fun r hr r' hr' => ?_⟩
      · rw [hlast r hr, hfirst' r' hr']
        exact Bool.noConfusion
      · cases hr
        rw [List.head?_append_of_ne_nil _ hne] at hr'
        rw [hfirst r' hr']
        exact Bool.noConfusion
    · simp only [List.forall_mem_append]
      exact ⟨by decide, hpos, hpos'⟩

theorem duration_append (rs rs' : List (Bool × ℕ)) :
    duration (rs ++ rs') = duration rs + duration rs' := by
  rw [duration, List.map_append, List.sum_append]
  rfl

theorem tailRuns_duration {ds : List ℕ} (h : ∀ d ∈ ds, d < 10) (n : ℕ) :
    duration (tailRuns ds n) ≤ 5000 * ds.length + 1500 := by
  induction ds generalizing n with
  | nil => exact Nat.le_refl _
  | cons d ds ih =>
    have hrest := ih (fun d' hd' => h d' (List.mem_cons_of_mem _ hd')) (n + 1)
    have hd := h d List.mem_cons_self
    have hdigit := (digitRuns_lit d).2
    have hpause : duration (pauseRuns n statusDigitGapMs) ≤ 550 := by
      unfold pauseRuns
      split <;> decide
    rw [tailRuns_cons, duration_append, duration_append, List.length_cons]
    omega

theorem digitsOf_lt (octet : UInt8) : ∀ d ∈ digitsOf octet, d < 10 := by
  have h := octet.toNat_lt
  intro d hd
  unfold digitsOf at hd
  simp only [List.mem_append, List.mem_ite_nil_right, List.mem_singleton] at hd
  omega

theorem digitsOf_value (octet : UInt8) :
    (digitsOf octet).foldl (fun n digit => 10 * n + digit) 0 = octet.toNat := by
  have h := octet.toNat_lt
  unfold digitsOf
  split <;> split <;> simp only [List.nil_append, List.cons_append, List.foldl_cons, List.foldl_nil] <;>
    omega

theorem digitsOf_cons (octet : UInt8) : ∃ d ds, digitsOf octet = d :: ds ∧ ds.length ≤ 2 := by
  unfold digitsOf
  split <;> split <;> exact ⟨_, _, rfl, by simp⟩

theorem pattern_digits (h : iface ≠ .none) :
    pattern iface octet false = tailRuns (digitsOf octet) 0 := by
  rw [pattern, if_neg Bool.false_ne_true, if_neg h, tailRuns]

/-- What a digit is followed by does not join it. -/
theorem pattern_proper (h : fault = true ∨ iface ≠ .none) : Proper (pattern iface octet fault) := by
  cases fault with
  | true => exact ⟨by simp [pattern], by simp [pattern, statusStrobeMs]⟩
  | false =>
    obtain ⟨d, ds, hds, -⟩ := digitsOf_cons octet
    obtain ⟨⟨⟨hchain, hpos⟩, -, hlast⟩, -⟩ := digitRuns_lit d
    obtain ⟨⟨hchain', hpos'⟩, hfirst'⟩ := tailRuns_proper ds 0
    rw [pattern_digits (h.resolve_left Bool.false_ne_true), hds, tailRuns_cons]
    rw [pauseRuns, if_neg (Nat.lt_irrefl 0), List.nil_append]
    refine ⟨?_, List.forall_mem_append.mpr ⟨hpos, hpos'⟩⟩
    rw [List.isChain_append]
    refine ⟨hchain, hchain', fun r hr r' hr' => ?_⟩
    rw [hlast r hr, hfirst' r' hr']
    exact Bool.noConfusion

theorem readOctet_pattern (h : iface ≠ .none) :
    readOctet (pattern iface octet false) = octet.toNat := by
  obtain ⟨d, ds, hds, -⟩ := digitsOf_cons octet
  have hread : (tailRuns (digitsOf octet) 0).foldl readRun ([], 0) = (digitsOf octet, 0) := by
    rw [hds, tailRuns_cons, pauseRuns, if_neg (Nat.lt_irrefl 0), List.nil_append, List.foldl_append,
      foldl_digitRuns, foldl_tailRuns, List.nil_append]
  rw [readOctet, pattern_digits h, hread, digitsOf_value]

/-- No pattern is empty, and none is as long as `walk` could not tell from measuring. -/
theorem cycle_bounds (iface : StatusIface) (octet : UInt8) (fault : Bool) :
    0 < statusCycleMs iface octet fault ∧ statusCycleMs iface octet fault < uint32Max := by
  rw [statusCycleMs_eq]
  cases fault with
  | true =>
    rw [pattern, if_pos rfl]
    exact ⟨by decide, by decide⟩
  | false =>
    by_cases h : iface = .none
    · rw [pattern, if_neg Bool.false_ne_true, if_pos h]
      exact ⟨by decide, by decide⟩
    · obtain ⟨d, ds, hds, hlen⟩ := digitsOf_cons octet
      have hdur := tailRuns_duration (digitsOf_lt octet) 0
      rw [pattern_digits h]
      refine ⟨?_, ?_⟩
      · rw [tailRuns, duration_append]
        have : duration [(false, statusCycleGapMs)] = 1500 := rfl
        omega
      · rw [hds, List.length_cons] at hdur
        rw [hds, uint32Max]
        omega

/-- At a time of the cycle the pixel is lit as its pattern says. -/
theorem walk_lit {t : ℕ} (h : t < statusCycleMs iface octet fault) :
    (expand (pattern iface octet fault))[t]? = some (walk iface octet fault t).2 := by
  have hmax := (cycle_bounds iface octet fault).2
  rw [statusCycleMs_eq] at h hmax
  have hend : t < 0 + duration (pattern iface octet fault) := by omega
  obtain ⟨stop, hs, hget⟩ := steps_stop (by omega) (Nat.zero_le t) hend
  rw [walk, walkSteps_eq, hs]
  exact hget

/-- The samples of a cycle are its pattern. -/
theorem samples_cycle (iface : StatusIface) (octet : UInt8) (fault : Bool) :
    (List.range (statusCycleMs iface octet fault)).map (fun t => (walk iface octet fault t).2) =
      expand (pattern iface octet fault) := by
  apply List.ext_getElem?
  intro t
  by_cases ht : t < statusCycleMs iface octet fault
  · rw [List.getElem?_map, List.getElem?_range ht, Option.map_some, walk_lit ht]
  · have hlen := length_expand (pattern iface octet fault)
    rw [← statusCycleMs_eq] at hlen
    rw [List.getElem?_eq_none (by rw [List.length_map, List.length_range]; omega),
      List.getElem?_eq_none (by omega)]

def dark : RingRgb := ⟨0, 0, 0⟩

/-- The light of a pixel over the `k`-th cycle, millisecond by millisecond. `leds.c` paints it only
once a frame: the pixel shows the sample of the last frame, and a blink is seen as long as frames
come more often than the light changes. -/
def light (up : UplinkStatus) (mismatch : Bool) (k : ℕ) : List Bool :=
  let cycle := statusCycleMs (statusIfaceOf up.kind) (up.ipv4 &&& 0xFF).toUInt8 mismatch
  (List.range cycle).map fun t => decide (paintPixel up mismatch (k * cycle + t) ≠ dark)

variable {up : UplinkStatus}

theorem statusPixel_ne_dark (h : fault = true ∨ iface ≠ .none) (t : ℕ) :
    decide (statusPixel iface octet fault t ≠ dark) = (walk iface octet fault t).2 := by
  have hred : (⟨statusBrightness, 0, 0⟩ : RingRgb) ≠ dark := by decide
  unfold statusPixel
  cases hlit : (walk iface octet fault t).2 with
  | false => simp [dark]
  | true =>
    cases fault with
    | true => simpa using hred
    | false => cases iface <;> simp_all [ifaceColour, dark, statusBrightness]

theorem light_eq {mismatch : Bool} (h : mismatch = true ∨ statusIfaceOf up.kind ≠ .none) (k : ℕ) :
    light up mismatch k =
      expand (pattern (statusIfaceOf up.kind) (up.ipv4 &&& 0xFF).toUInt8 mismatch) := by
  rw [light, ← samples_cycle]
  apply List.map_congr_left
  intro t ht
  rw [paintPixel, Nat.mul_add_mod_self_right, Nat.mod_eq_of_lt (List.mem_range.mp ht),
    statusPixel_ne_dark h]

theorem lastOctet (ip : UInt32) : (ip &&& 0xFF).toUInt8.toNat = ip.toNat % 256 := by
  rw [UInt32.toNat_toUInt8, UInt32.toNat_and]
  have hmask : (0xFF : UInt32).toNat = 2 ^ 8 - 1 := rfl
  rw [hmask, Nat.and_two_pow_sub_one_eq_mod, Nat.mod_mod]

theorem statusPixel_colour (t : ℕ) :
    statusPixel iface octet false t = dark ∨ statusPixel iface octet false t = ifaceColour iface := by
  unfold statusPixel
  split
  · exact .inl rfl
  · exact .inr rfl

theorem statusPixel_strobe {t : ℕ} (h : t < 240) :
    statusPixel iface octet true t = if t < 120 then ⟨statusBrightness, 0, 0⟩ else dark := by
  have hmax : t ≠ uint32Max := by
    rw [uint32Max]
    omega
  by_cases hlit : t < 120
  · have hwalk : walk iface octet true t = (0, true) := by
      simp [walk, walkSteps, stepTo, statusStrobeMs, hmax, hlit, returned, bind, Except.bind]
    rw [statusPixel, hwalk, if_pos hlit]
    rfl
  · have hwalk : walk iface octet true t = (120, false) := by
      simp [walk, walkSteps, stepTo, statusStrobeMs, hmax, hlit, h, returned, bind, Except.bind]
    rw [statusPixel, hwalk, if_neg hlit]
    rfl

/-- The status pixel tells the uplink. A viewer who counts the blinks of a cycle, sampled each
millisecond, reads the last octet of the address, and the colour is the uplink's; without an uplink
it is dark; while the samplers disagree it is strobed red. -/
theorem pixel_tells_uplink (up : UplinkStatus) :
    (statusIfaceOf up.kind ≠ .none → ∀ k,
      readOctet (runs (light up false k)) = up.ipv4.toNat % 256 ∧
        ∀ t, paintPixel up false t = dark ∨
          paintPixel up false t = ifaceColour (statusIfaceOf up.kind)) ∧
    (statusIfaceOf up.kind = .none → ∀ t, paintPixel up false t = dark) ∧
    ∀ t, paintPixel up true t = if t % 240 < 120 then ⟨statusBrightness, 0, 0⟩ else dark := by
  refine ⟨fun h k => ⟨?_, fun t => ?_⟩, fun h t => ?_, fun t => ?_⟩
  · rw [light_eq (.inr h), runs_expand (pattern_proper (.inr h)), readOctet_pattern h, lastOctet]
  · exact statusPixel_colour _
  · rw [paintPixel, h]
    exact (statusPixel_colour _).elim id id
  · have hcycle : statusCycleMs (statusIfaceOf up.kind) (up.ipv4 &&& 0xFF).toUInt8 true = 240 := by
      rw [statusCycleMs_eq, pattern, if_pos rfl]
      rfl
    rw [paintPixel, hcycle, statusPixel_strobe (Nat.mod_lt _ (by decide))]

end ZephyrApps.StatusPixel
