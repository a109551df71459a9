import Mathlib.Data.Fintype.EquivFin
import Mathlib.Data.List.FinRange
import Mathlib.Data.List.Induction
import ZephyrApps.AppSettings
import ZephyrApps.ArrayWrites
import ZephyrApps.PstopMessages

/-!
# The status ring

One frame of the sixteen pixels of `ring.c`: every configured slot has a segment, composed
in logical order and rotated at the end. What a pixel shows is read off the slot whose
segment it lies in.
-/
namespace ZephyrApps.StatusRing
open AppSettings ArrayWrites Pstop

/-- `RING_LEDS` -/
def ringLeds : ℕ := 16
/-- `RING_BRIGHTNESS` -/
def ringBrightness : UInt8 := 40
/-- `WHITE_LEVEL` -/
def whiteLevel : UInt8 := ringBrightness / 2
/-- `AMBER_GREEN_PCT` -/
def amberGreenPct : UInt32 := 40
/-- `RING_LINK_FRESH_MS` -/
def ringLinkFreshMs : UInt64 := 2000
/-- `RING_AMBER_ON_MS`, `RING_AMBER_OFF_MS` and `RING_AMBER_REST_MS` -/
def ringAmberOnMs : UInt32 := 160
def ringAmberOffMs : UInt32 := 200
def ringAmberRestMs : UInt32 := 900

/-- `wave_pct` and `WAVE_FLOOR_PCT` -/
def wavePct : List UInt32 := [170, 135, 105, 80, 65]
def waveFloorPct : UInt32 := 55

/-- `struct ring_rgb` -/
structure RingRgb where
  r : UInt8
  g : UInt8
  b : UInt8
  deriving DecidableEq

abbrev Pixels := Fin ringLeds → RingRgb

/-- `scale` -/
def scale (v : UInt8) (pct : UInt32) : UInt8 :=
  let s := v.toUInt32 * pct / 100
  (if 255 < s then 255 else s).toUInt8

/-- `amber_on` -/
def amberOn (nowMs : UInt64) (n : UInt32) : Bool :=
  let group := ringAmberOnMs + ringAmberOffMs
  let period := n * group + ringAmberRestMs
  let phase := (nowMs % period.toUInt64).toUInt32
  if n * group ≤ phase then false else decide (phase % group < ringAmberOnMs)

/-- `fill` -/
def fill (c : RingRgb) : Pixels := fun _ => c

/-- `enum ring_state` -/
inductive RingState where
  | idle | unreachable | bond | ok | stop | mismatch | locate
  deriving DecidableEq

def RingState.value : RingState → ℕ
  | .idle => 0
  | .unreachable => 1
  | .bond => 2
  | .ok => 3
  | .stop => 4
  | .mismatch => 5
  | .locate => 6

/-- `PSTOP_SESS_BONDED` -/
def pstopSessBonded : UInt8 := 2

/-- `struct ring_slot` -/
structure RingSlot where
  configured : Bool
  state : UInt8
  lastMsg : UInt8
  lastReplyMs : UInt64

/-- `struct ring_input` -/
structure RingInput where
  nowMs : UInt64
  slots : Slot → RingSlot
  mismatch : Bool
  locate : Bool
  uplinkUp : Bool
  waveHead : UInt8
  offset : UInt8

variable (inp : RingInput)

/-- `fresh` in `compose` -/
def fresh (s : RingSlot) : Bool :=
  decide (s.state = pstopSessBonded) && decide (0 < s.lastReplyMs) &&
    decide (s.lastReplyMs ≤ inp.nowMs) && decide (inp.nowMs - s.lastReplyMs < ringLinkFreshMs)

/-- What `compose` decides for a slot: `st`, `c` and `wave`. -/
structure Shows where
  st : RingState
  c : RingRgb
  wave : Bool

def shows (amber : UInt8) (s : RingSlot) : Shows :=
  if !fresh inp s then ⟨.unreachable, ⟨amber, scale amber amberGreenPct, 0⟩, false⟩
  else if s.lastMsg = messageStop then ⟨.stop, ⟨ringBrightness, 0, 0⟩, true⟩
  else if s.lastMsg = messageOk then ⟨.ok, ⟨0, ringBrightness, 0⟩, true⟩
  else ⟨.bond, ⟨0, 0, ringBrightness⟩, false⟩

/-- `d` in `compose`, the distance of a pixel from the head of the wave -/
def waveDistance (waveHead : UInt8) (p : ℕ) : Int :=
  ((waveHead.toNat : Int) - p + ringLeds).tmod ringLeds

def wavePctAt (waveHead : UInt8) (p : ℕ) : UInt32 :=
  if waveDistance waveHead p < wavePct.length then wavePct.getD (waveDistance waveHead p).toNat 0
  else waveFloorPct

def pixelOf (s : Shows) (p : ℕ) : RingRgb :=
  if s.wave then
    let pct := wavePctAt inp.waveHead p
    ⟨scale s.c.r pct, scale s.c.g pct, scale s.c.b pct⟩
  else s.c

/-- Where the segment of the `j`-th of `n` configured slots begins. -/
def segmentStart (n j : ℕ) : ℕ := j * ringLeds / n

def paintSegment (s : Shows) (start stop : ℕ) (logical : Pixels) : Pixels :=
  (List.range' start (stop - start)).foldl (fun logical p => setAt logical p (pixelOf inp s p)) logical

def paintSlot (amber : UInt8) (n : ℕ) (of : RingState × Pixels) (slot : Slot × ℕ) :
    RingState × Pixels :=
  let s := shows inp amber (inp.slots slot.1)
  (if of.1.value < s.st.value then s.st else of.1,
    paintSegment inp s (segmentStart n slot.2) (segmentStart n (slot.2 + 1)) of.2)

/-- `configured` in `compose` -/
def configuredSlots : List Slot := (List.finRange 4).filter fun slot => (inp.slots slot).configured

/-- `amber` in `compose` -/
def amberLevel : UInt8 := if amberOn inp.nowMs (if inp.uplinkUp then 1 else 3) then ringBrightness else 0

/-- `compose` -/
def compose : RingState × Pixels :=
  let logical := fill ⟨0, 0, 0⟩
  if inp.locate then (.locate, setAt logical 0 ⟨ringBrightness, ringBrightness, ringBrightness⟩)
  else if inp.mismatch then (.mismatch, fill ⟨ringBrightness, 0, ringBrightness⟩)
  else
    let configured := configuredSlots inp
    let n := configured.length
    if n = 0 then (.idle, fill ⟨whiteLevel, whiteLevel, whiteLevel⟩)
    else configured.zipIdx.foldl (paintSlot inp (amberLevel inp) n) (.idle, logical)

/-- `ring_frame`, which writes to `out`. -/
def ringFrame (out : Pixels) : RingState × Pixels :=
  let (st, logical) := compose inp
  (st, (List.finRange ringLeds).foldl (fun out (i : Fin ringLeds) =>
    setAt out ((i + inp.offset.toNat % ringLeds) % ringLeds) (logical i)) out)

def physical (p : Fin ringLeds) : Fin ringLeds :=
  ⟨(p + inp.offset.toNat) % ringLeds, Nat.mod_lt _ (by decide)⟩

/-- A pixel lies in the segment of the `j`-th of `n` configured slots. -/
def InSegment (n j p : ℕ) : Prop := segmentStart n j ≤ p ∧ p < segmentStart n (j + 1)

/-- The slot whose segment a pixel lies in. -/
def SegmentOf (slot : Slot) (p : ℕ) : Prop :=
  ∃ j, (configuredSlots inp)[j]? = some slot ∧ InSegment (configuredSlots inp).length j p

/-- The link of a slot is up: bonded, and the last reply is neither in the future nor old. -/
def LinkUp (s : RingSlot) : Prop :=
  s.state = pstopSessBonded ∧ 0 < s.lastReplyMs.toNat ∧
    s.lastReplyMs.toNat ≤ inp.nowMs.toNat ∧ inp.nowMs.toNat - s.lastReplyMs.toNat < 2000

def RingRgb.PureGreen (c : RingRgb) : Prop := 0 < c.g ∧ c.r = 0 ∧ c.b = 0

def RingRgb.PureRed (c : RingRgb) : Prop := 0 < c.r ∧ c.g = 0 ∧ c.b = 0

def LinkState (s : RingSlot) (st : RingState) : Prop :=
  (¬ LinkUp inp s ∧ st = .unreachable) ∨
    (LinkUp inp s ∧ ((s.lastMsg = messageStop ∧ st = .stop) ∨ (s.lastMsg = messageOk ∧ st = .ok) ∨
      (s.lastMsg ≠ messageStop ∧ s.lastMsg ≠ messageOk ∧ st = .bond)))

/-- The state of the ring: a flag's, or the worst of the configured slots. -/
structure WorstState (st : RingState) : Prop where
  locate : inp.locate = true → st = .locate
  mismatch : inp.locate = false → inp.mismatch = true → st = .mismatch
  idle : inp.locate = false → inp.mismatch = false →
    (∀ slot, (inp.slots slot).configured = false) → st = .idle
  worst : inp.locate = false → inp.mismatch = false →
    (∃ slot, (inp.slots slot).configured = true) →
      (∃ slot, (inp.slots slot).configured = true ∧ LinkState inp (inp.slots slot) st) ∧
        ∀ slot st', (inp.slots slot).configured = true → LinkState inp (inp.slots slot) st' →
          st'.value ≤ st.value

/-- The configured slots divide the ring in their order. -/
structure Divided : Prop where
  configured : ∀ slot p, SegmentOf inp slot p → (inp.slots slot).configured = true
  covered : (∃ slot, (inp.slots slot).configured = true) →
    ∀ p < ringLeds, ∃! slot, SegmentOf inp slot p
  ordered : ∀ slot slot' p p', SegmentOf inp slot p → SegmentOf inp slot' p' → slot < slot' → p < p'

section
variable {n j k p : ℕ}

theorem segmentStart_mono (h : j ≤ k) : segmentStart n j ≤ segmentStart n k :=
  Nat.div_le_div_right (Nat.mul_le_mul_right ringLeds h)

theorem segmentStart_zero (n : ℕ) : segmentStart n 0 = 0 := by
  rw [segmentStart, Nat.zero_mul, Nat.zero_div]

theorem segmentStart_last (h : 0 < n) : segmentStart n n = ringLeds :=
  Nat.mul_div_cancel_left ringLeds h

theorem InSegment.eq (hj : InSegment n j p) (hk : InSegment n k p) : j = k := by
  rcases Nat.lt_trichotomy j k with hlt | he | hlt
  · have hle := segmentStart_mono (n := n) hlt
    exact absurd (hle.trans hk.1) (Nat.not_le.mpr hj.2)
  · exact he
  · have hle := segmentStart_mono (n := n) hlt
    exact absurd (hle.trans hj.1) (Nat.not_le.mpr hk.2)

/-- What comes before the end of the `m`-th segment lies in one of those. -/
theorem exists_segment {m : ℕ} (h : p < segmentStart n m) : ∃ j < m, InSegment n j p := by
  induction m with
  | zero =>
    rw [segmentStart_zero] at h
    exact absurd h (Nat.not_lt_zero p)
  | succ m ih =>
    by_cases hm : p < segmentStart n m
    · obtain ⟨j, hj, hp⟩ := ih hm
      exact ⟨j, Nat.lt_succ_of_lt hj, hp⟩
    · exact ⟨m, Nat.lt_succ_self m, Nat.not_lt.mp hm, h⟩

/-- The segments cover every pixel once. -/
theorem segment_exists_unique (hn : 0 < n) (hp : p < ringLeds) : ∃! j, j < n ∧ InSegment n j p := by
  have hend : p < segmentStart n n := by rwa [segmentStart_last hn]
  obtain ⟨j, hj, hseg⟩ := exists_segment hend
  exact ⟨j, ⟨hj, hseg⟩, fun k hk => hk.2.eq hseg⟩

end

section
variable {inp} {s : RingSlot} {amber : UInt8} {p : ℕ}

/-- The wave never reads outside of its table. -/
theorem waveDistance_bounds (waveHead : UInt8) (hp : p < ringLeds) :
    0 ≤ waveDistance waveHead p ∧ waveDistance waveHead p < ringLeds := by
  have hnonneg : (0 : Int) ≤ (waveHead.toNat : Int) - p + ringLeds := by
    simp only [ringLeds] at hp ⊢
    omega
  exact ⟨Int.tmod_nonneg _ hnonneg, Int.tmod_lt_of_pos _ (by decide)⟩

theorem wavePctAt_mem (waveHead : UInt8) (p : ℕ) :
    wavePctAt waveHead p ∈ waveFloorPct :: wavePct := by
  rw [wavePctAt]
  split
  case isTrue h =>
    have hlt : (waveDistance waveHead p).toNat < wavePct.length := by
      simp only [wavePct, List.length_cons, List.length_nil] at h ⊢
      omega
    rw [List.getD_eq_getElem?_getD, List.getElem?_eq_getElem hlt, Option.getD_some]
    exact List.mem_cons_of_mem _ (List.getElem_mem hlt)
  case isFalse => exact List.mem_cons_self

/-- The wave neither darkens nor overflows the base colour. -/
theorem scale_wave (waveHead : UInt8) (p : ℕ) :
    0 < scale ringBrightness (wavePctAt waveHead p) ∧ scale 0 (wavePctAt waveHead p) = 0 := by
  have hall : (waveFloorPct :: wavePct).all
      (fun pct => decide (0 < scale ringBrightness pct ∧ scale 0 pct = 0)) = true := by decide
  exact of_decide_eq_true (List.all_eq_true.mp hall _ (wavePctAt_mem waveHead p))

theorem fresh_iff : fresh inp s = true ↔ LinkUp inp s := by
  have hsub (h : s.lastReplyMs ≤ inp.nowMs) :
      (inp.nowMs - s.lastReplyMs < ringLinkFreshMs) ↔
        inp.nowMs.toNat - s.lastReplyMs.toNat < 2000 := by
    rw [UInt64.lt_iff_toNat_lt, UInt64.toNat_sub_of_le _ _ h]
    rfl
  simp only [fresh, LinkUp, Bool.and_eq_true, decide_eq_true_eq, and_assoc, UInt64.lt_iff_toNat_lt]
  constructor
  · rintro ⟨hstate, hpos, hle, hfresh⟩
    exact ⟨hstate, hpos, UInt64.le_iff_toNat_le.mp hle, (hsub hle).mp
      (UInt64.lt_iff_toNat_lt.mpr hfresh)⟩
  · rintro ⟨hstate, hpos, hle, hfresh⟩
    have hle' := UInt64.le_iff_toNat_le.mpr hle
    exact ⟨hstate, hpos, hle', UInt64.lt_iff_toNat_lt.mp ((hsub hle').mpr hfresh)⟩

theorem amberLevel_cases (inp : RingInput) :
    amberLevel inp = ringBrightness ∨ amberLevel inp = 0 := by
  rw [amberLevel]
  cases amberOn inp.nowMs (if inp.uplinkUp = true then 1 else 3) with
  | true => exact Or.inl rfl
  | false => exact Or.inr rfl

theorem shows_state (inp : RingInput) (amber : UInt8) (s : RingSlot) :
    LinkState inp s (shows inp amber s).st := by
  rw [shows]
  split
  case isTrue hf =>
    refine Or.inl ⟨fun hup => ?_, rfl⟩
    rw [fresh_iff.mpr hup] at hf
    cases hf
  case isFalse hf =>
    have hup : LinkUp inp s := fresh_iff.mp (by simpa using hf)
    refine Or.inr ⟨hup, ?_⟩
    split
    case isTrue hstop => exact Or.inl ⟨hstop, rfl⟩
    case isFalse hstop =>
      split
      case isTrue hok => exact Or.inr (Or.inl ⟨hok, rfl⟩)
      case isFalse hok => exact Or.inr (Or.inr ⟨hstop, hok, rfl⟩)

/-- The four colours of a segment, wherever the wave is. -/
theorem pixelOf_shows (inp : RingInput) (s : RingSlot) (p : ℕ) :
    let c := pixelOf inp (shows inp (amberLevel inp) s) p
    (¬ LinkUp inp s ∧ (c = ⟨ringBrightness, 16, 0⟩ ∨ c = ⟨0, 0, 0⟩)) ∨
      (LinkUp inp s ∧ s.lastMsg = messageStop ∧ c.PureRed) ∨
      (LinkUp inp s ∧ s.lastMsg = messageOk ∧ c.PureGreen) ∨
      (LinkUp inp s ∧ s.lastMsg ≠ messageStop ∧ s.lastMsg ≠ messageOk ∧ c = ⟨0, 0, ringBrightness⟩) := by
  obtain ⟨hlit, hdark⟩ := scale_wave inp.waveHead p
  simp only [shows]
  split
  case isTrue hf =>
    refine Or.inl ⟨fun hup => ?_, ?_⟩
    · rw [fresh_iff.mpr hup] at hf
      cases hf
    · rcases amberLevel_cases inp with h | h
      · exact Or.inl (by rw [h]; rfl)
      · exact Or.inr (by rw [h]; rfl)
  case isFalse hf =>
    have hup : LinkUp inp s := fresh_iff.mp (by simpa using hf)
    refine Or.inr ?_
    split
    case isTrue hstop => exact Or.inl ⟨hup, hstop, hlit, hdark, hdark⟩
    case isFalse hstop =>
      refine Or.inr ?_
      split
      case isTrue hok => exact Or.inl ⟨hup, hok, hlit, hdark, hdark⟩
      case isFalse hok => exact Or.inr ⟨hup, hstop, hok, rfl⟩

/-- Amber, nothing and blue are neither green nor red. -/
theorem neither_pure {c : RingRgb}
    (h : c = ⟨ringBrightness, 16, 0⟩ ∨ c = ⟨0, 0, 0⟩ ∨ c = ⟨0, 0, ringBrightness⟩) :
    ¬ c.PureGreen ∧ ¬ c.PureRed := by
  rcases h with rfl | rfl | rfl
  · exact ⟨fun hg => absurd hg.2.1 (by decide), fun hr => absurd hr.2.1 (by decide)⟩
  · exact ⟨fun hg => absurd hg.1 (by decide), fun hr => absurd hr.1 (by decide)⟩
  · exact ⟨fun hg => absurd hg.1 (by decide), fun hr => absurd hr.1 (by decide)⟩

theorem RingRgb.PureRed.not_green {c : RingRgb} (hr : c.PureRed) : ¬ c.PureGreen := fun hg =>
  absurd hr.2.1 (UInt8.ne_of_lt hg.1).symm

/-- Green is a link that is up and says OK. -/
theorem pixelOf_green (inp : RingInput) (s : RingSlot) (p : ℕ) :
    (pixelOf inp (shows inp (amberLevel inp) s) p).PureGreen ↔
      LinkUp inp s ∧ s.lastMsg = messageOk := by
  rcases pixelOf_shows inp s p with ⟨hdown, hc⟩ | ⟨-, hmsg, hc⟩ | ⟨hup, hmsg, hc⟩ | ⟨-, -, hno, hc⟩
  · exact iff_of_false (neither_pure (hc.imp_right Or.inl)).1 fun h => hdown h.1
  · exact iff_of_false hc.not_green fun h => absurd (hmsg.symm.trans h.2) (by decide)
  · exact iff_of_true hc ⟨hup, hmsg⟩
  · exact iff_of_false (neither_pure (Or.inr (Or.inr hc))).1 fun h => hno h.2

/-- Red is a link that is up and says STOP. -/
theorem pixelOf_red (inp : RingInput) (s : RingSlot) (p : ℕ) :
    (pixelOf inp (shows inp (amberLevel inp) s) p).PureRed ↔
      LinkUp inp s ∧ s.lastMsg = messageStop := by
  rcases pixelOf_shows inp s p with ⟨hdown, hc⟩ | ⟨hup, hmsg, hc⟩ | ⟨-, hmsg, hc⟩ | ⟨-, hno, -, hc⟩
  · exact iff_of_false (neither_pure (hc.imp_right Or.inl)).2 fun h => hdown h.1
  · exact iff_of_true hc ⟨hup, hmsg⟩
  · refine iff_of_false (fun hr => hr.not_green hc) fun h => ?_
    exact absurd (hmsg.symm.trans h.2) (by decide)
  · exact iff_of_false (neither_pure (Or.inr (Or.inr hc))).2 fun h => hno h.2

end

section
variable {inp}

theorem paintSegment_in {s : Shows} {start stop : ℕ} {logical : Pixels} {q : Fin ringLeds}
    (h : start ≤ q.val ∧ q.val < stop) :
    paintSegment inp s start stop logical q = pixelOf inp s q := by
  have hmem : q.val ∈ List.range' start (stop - start) := by
    rw [List.mem_range'_1]
    omega
  exact foldl_setAt hmem rfl List.nodup_range' (fun _ _ he => he) logical

theorem paintSegment_out {s : Shows} {start stop : ℕ} {logical : Pixels} {q : Fin ringLeds}
    (h : ¬ (start ≤ q.val ∧ q.val < stop)) :
    paintSegment inp s start stop logical q = logical q := by
  refine foldl_setAt_other (fun p hp he => h ?_) logical
  rw [List.mem_range'_1] at hp
  omega

/-- After the first slots of `n`: their segments are painted, and the state is the worst of
theirs. -/
structure Painted (inp : RingInput) (n : ℕ) (slots : List Slot) (r : RingState × Pixels) : Prop where
  pixels : ∀ j slot, slots[j]? = some slot → ∀ q : Fin ringLeds, InSegment n j q →
    r.2 q = pixelOf inp (shows inp (amberLevel inp) (inp.slots slot)) q
  worst : ∀ slot ∈ slots, (shows inp (amberLevel inp) (inp.slots slot)).st.value ≤ r.1.value
  reached : r.1 = .idle ∧ slots = [] ∨
    ∃ slot ∈ slots, r.1 = (shows inp (amberLevel inp) (inp.slots slot)).st

theorem shows_value_pos (inp : RingInput) (amber : UInt8) (s : RingSlot) :
    0 < (shows inp amber s).st.value := by
  rcases shows_state inp amber s with ⟨-, h⟩ | ⟨-, ⟨-, h⟩ | ⟨-, h⟩ | ⟨-, -, h⟩⟩
  · rw [h]
    decide
  · rw [h]
    decide
  · rw [h]
    decide
  · rw [h]
    decide

theorem Painted.next {n : ℕ} {slots : List Slot} {r : RingState × Pixels} (h : Painted inp n slots r)
    (slot : Slot) :
    Painted inp n (slots ++ [slot]) (paintSlot inp (amberLevel inp) n r (slot, slots.length)) := by
  refine ⟨?_, ?_, ?_⟩
  · intro j slot' hj q hq
    by_cases hlast : j = slots.length
    · subst hlast
      rw [List.getElem?_concat_length] at hj
      cases hj
      exact paintSegment_in hq
    · have hlt : j < slots.length := by
        have hbound := (List.getElem?_eq_some_iff.mp hj).1
        rw [List.length_append, List.length_singleton] at hbound
        omega
      rw [List.getElem?_append_left hlt] at hj
      have hout : ¬ InSegment n slots.length q := fun hin => hlast (hq.eq hin)
      exact (paintSegment_out hout).trans (h.pixels j slot' hj q hq)
  · intro slot' hslot
    have hle : r.1.value ≤ (paintSlot inp (amberLevel inp) n r (slot, slots.length)).1.value := by
      dsimp only [paintSlot]
      split
      case isTrue hlt => exact Nat.le_of_lt hlt
      case isFalse => exact Nat.le_refl _
    rcases List.mem_append.mp hslot with hslot | hslot
    · exact (h.worst slot' hslot).trans hle
    · rw [List.mem_singleton.mp hslot]
      dsimp only [paintSlot]
      split
      case isTrue => exact Nat.le_refl _
      case isFalse hge => exact Nat.not_lt.mp hge
  · refine Or.inr ?_
    dsimp only [paintSlot]
    split
    case isTrue => exact ⟨slot, by simp, rfl⟩
    case isFalse hge =>
      rcases h.reached with ⟨hidle, -⟩ | ⟨slot', hslot', hst⟩
      · rw [hidle] at hge
        exact absurd (shows_value_pos inp (amberLevel inp) (inp.slots slot)) hge
      · exact ⟨slot', by simp [hslot'], hst⟩

theorem painted_foldl (inp : RingInput) (n : ℕ) (logical : Pixels) (slots : List Slot) :
    Painted inp n slots
      (slots.zipIdx.foldl (paintSlot inp (amberLevel inp) n) (.idle, logical)) := by
  induction slots using List.reverseRecOn with
  | nil =>
    refine ⟨fun j slot hj => ?_, fun slot hs => ?_, Or.inl ⟨rfl, rfl⟩⟩
    · cases hj
    · cases hs
  | append_singleton slots slot ih =>
    rw [List.zipIdx_append, List.foldl_append, List.zipIdx_singleton, List.foldl_cons, List.foldl_nil,
      Nat.zero_add]
    exact ih.next slot

end

theorem physical_injective : Function.Injective (physical inp) := by
  intro p q h
  have hval := congrArg Fin.val h
  have hp := p.isLt
  have hq := q.isLt
  simp only [physical, ringLeds] at hval hp hq
  exact Fin.ext (by omega)

/-- Every physical pixel is written, with the logical pixel it belongs to. -/
theorem ringFrame_pixel (out : Pixels) (p : Fin ringLeds) :
    (ringFrame inp out).2 (physical inp p) = (compose inp).2 p := by
  have hindex (i : Fin ringLeds) :
      (i.val + inp.offset.toNat % ringLeds) % ringLeds = (physical inp i).val :=
    Nat.add_mod_mod i.val inp.offset.toNat ringLeds
  refine foldl_setAt (f := fun i : Fin ringLeds => (i.val + inp.offset.toNat % ringLeds) % ringLeds)
    (List.mem_finRange p) (hindex p).symm (List.nodup_finRange ringLeds) (fun j _ hj => ?_) out
  exact physical_injective inp (Fin.ext ((hindex j).symm.trans (hj.trans (hindex p))))

section
variable {inp}

theorem mem_configuredSlots {slot : Slot} :
    slot ∈ configuredSlots inp ↔ (inp.slots slot).configured = true := by
  simp [configuredSlots]

theorem configuredSlots_eq_nil :
    configuredSlots inp = [] ↔ ∀ slot, (inp.slots slot).configured = false := by
  simp [configuredSlots]

theorem configuredSlots_sorted (inp : RingInput) : (configuredSlots inp).Pairwise (· < ·) :=
  (List.pairwise_lt_finRange 4).filter _

theorem segments_divided (inp : RingInput) : Divided inp := by
  refine ⟨fun slot p h => ?_, fun h p hp => ?_, fun slot slot' p p' h h' hlt => ?_⟩
  · obtain ⟨j, hj, -⟩ := h
    exact mem_configuredSlots.mp (List.mem_of_getElem? hj)
  · obtain ⟨slot, hslot⟩ := h
    have hpos := List.length_pos_of_mem (mem_configuredSlots.mpr hslot)
    obtain ⟨j, ⟨hj, hseg⟩, -⟩ := segment_exists_unique hpos hp
    refine ⟨(configuredSlots inp)[j], ⟨j, List.getElem?_eq_getElem hj, hseg⟩, ?_⟩
    rintro slot' ⟨k, hk, hseg'⟩
    have hjk := hseg'.eq hseg
    subst hjk
    exact (List.getElem?_eq_some_iff.mp hk).2.symm
  · obtain ⟨j, hj, hseg⟩ := h
    obtain ⟨k, hk, hseg'⟩ := h'
    obtain ⟨hjl, rfl⟩ := List.getElem?_eq_some_iff.mp hj
    obtain ⟨hkl, rfl⟩ := List.getElem?_eq_some_iff.mp hk
    rcases Nat.lt_trichotomy j k with hjk | hjk | hjk
    · exact lt_of_lt_of_le hseg.2 ((segmentStart_mono hjk).trans hseg'.1)
    · subst hjk
      exact absurd hlt (Fin.lt_irrefl _)
    · have hgt := List.pairwise_iff_getElem.mp (configuredSlots_sorted inp) k j hkl hjl hjk
      exact absurd hlt (Fin.lt_asymm hgt)

theorem linkState_unique {s : RingSlot} {st st' : RingState} (h : LinkState inp s st)
    (h' : LinkState inp s st') : st = st' := by
  have hne : messageStop ≠ messageOk := by decide
  rcases h with ⟨hdown, rfl⟩ | ⟨hup, h⟩
  · rcases h' with ⟨-, rfl⟩ | ⟨hup, -⟩
    · rfl
    · exact absurd hup hdown
  · rcases h' with ⟨hdown, -⟩ | ⟨-, h'⟩
    · exact absurd hup hdown
    · rcases h with ⟨hm, rfl⟩ | ⟨hm, rfl⟩ | ⟨hs, ho, rfl⟩
      · rcases h' with ⟨-, rfl⟩ | ⟨hm', -⟩ | ⟨hs, -⟩
        · rfl
        · exact absurd (hm.symm.trans hm') hne
        · exact absurd hm hs
      · rcases h' with ⟨hm', -⟩ | ⟨-, rfl⟩ | ⟨-, ho, -⟩
        · exact absurd (hm'.symm.trans hm) hne
        · rfl
        · exact absurd hm ho
      · rcases h' with ⟨hm', -⟩ | ⟨hm', -⟩ | ⟨-, -, rfl⟩
        · exact absurd hm' hs
        · exact absurd hm' ho
        · rfl

/-- What a logical pixel shows, with the flags off. -/
theorem compose_segment {slot : Slot} {q : Fin ringLeds} (hlocate : inp.locate = false)
    (hmismatch : inp.mismatch = false) (h : SegmentOf inp slot q) :
    (compose inp).2 q = pixelOf inp (shows inp (amberLevel inp) (inp.slots slot)) q := by
  obtain ⟨j, hj, hseg⟩ := h
  have hpos : (configuredSlots inp).length ≠ 0 := by
    have hlt := (List.getElem?_eq_some_iff.mp hj).1
    omega
  have hcompose : compose inp = (configuredSlots inp).zipIdx.foldl
      (paintSlot inp (amberLevel inp) (configuredSlots inp).length) (.idle, fill ⟨0, 0, 0⟩) := by
    simp only [compose, hlocate, hmismatch, hpos, Bool.false_eq_true, if_false]
  rw [hcompose]
  exact (painted_foldl inp _ _ _).pixels j slot hj q hseg

theorem compose_state (inp : RingInput) : WorstState inp (compose inp).1 := by
  refine ⟨fun hl => ?_, fun hl hm => ?_, fun hl hm hnone => ?_, fun hl hm hsome => ?_⟩
  · rw [compose, if_pos hl]
  · simp only [compose, hl, hm, Bool.false_eq_true, if_false, if_true]
  · simp [compose, hl, hm, configuredSlots_eq_nil.mpr hnone]
  · have hne : configuredSlots inp ≠ [] := by
      obtain ⟨slot, hslot⟩ := hsome
      exact List.ne_nil_of_mem (mem_configuredSlots.mpr hslot)
    have hpos : ¬ (configuredSlots inp).length = 0 := by simpa using hne
    have hpainted := painted_foldl inp (configuredSlots inp).length (fill ⟨0, 0, 0⟩)
      (configuredSlots inp)
    simp only [compose, hl, hm, Bool.false_eq_true, if_false, hpos]
    constructor
    · rcases hpainted.reached with ⟨-, he⟩ | ⟨slot, hslot, hst⟩
      · exact absurd he hne
      · refine ⟨slot, mem_configuredSlots.mp hslot, ?_⟩
        rw [hst]
        exact shows_state inp (amberLevel inp) (inp.slots slot)
    · intro slot st' hconf hst'
      rw [linkState_unique hst' (shows_state inp (amberLevel inp) (inp.slots slot))]
      exact hpainted.worst slot (mem_configuredSlots.mpr hconf)

/-- A frame with a flag on, or with no machine, has no pure colour. -/
theorem compose_plain (h : inp.locate = true ∨ inp.mismatch = true ∨ configuredSlots inp = [])
    (q : Fin ringLeds) : ¬ ((compose inp).2 q).PureGreen ∧ ¬ ((compose inp).2 q).PureRed := by
  have hcolour : (compose inp).2 q = ⟨ringBrightness, ringBrightness, ringBrightness⟩ ∨
      (compose inp).2 q = ⟨0, 0, 0⟩ ∨ (compose inp).2 q = ⟨ringBrightness, 0, ringBrightness⟩ ∨
      (compose inp).2 q = ⟨whiteLevel, whiteLevel, whiteLevel⟩ := by
    rw [compose]
    cases hlocate : inp.locate with
    | true =>
      by_cases hq : q.val = 0
      · have hself := setAt_self (fill ⟨0, 0, 0⟩) q ⟨ringBrightness, ringBrightness, ringBrightness⟩
        rw [hq] at hself
        exact Or.inl hself
      · exact Or.inr (Or.inl (setAt_ne _ _ hq))
    | false =>
      cases hmismatch : inp.mismatch with
      | true => exact Or.inr (Or.inr (Or.inl rfl))
      | false =>
        rcases h with h | h | h
        · cases hlocate.symm.trans h
        · cases hmismatch.symm.trans h
        · refine Or.inr (Or.inr (Or.inr ?_))
          simp [h, fill]
  have hplain : ∀ c ∈ [(⟨ringBrightness, ringBrightness, ringBrightness⟩ : RingRgb), ⟨0, 0, 0⟩,
      ⟨ringBrightness, 0, ringBrightness⟩, ⟨whiteLevel, whiteLevel, whiteLevel⟩],
      ¬ c.PureGreen ∧ ¬ c.PureRed := by
    unfold RingRgb.PureGreen RingRgb.PureRed
    decide
  refine hplain _ ?_
  rcases hcolour with hc | hc | hc | hc <;> simp [hc]

end

/-- The ring never shows a false colour. A frame writes every pixel; the physical pixel of a
logical one is pure green exactly if no flag is on and the slot in whose segment it lies has
a link that is up and says OK, and pure red likewise with STOP; and the state returned is
the worst. -/
theorem ringFrame_shows (inp : RingInput) (out : Pixels) :
    (∀ out', (ringFrame inp out').2 = (ringFrame inp out).2) ∧
      Function.Bijective (physical inp) ∧ Divided inp ∧
      (∀ p : Fin ringLeds, ((ringFrame inp out).2 (physical inp p)).PureGreen ↔
        inp.locate = false ∧ inp.mismatch = false ∧ ∃ slot, SegmentOf inp slot p ∧
          LinkUp inp (inp.slots slot) ∧ (inp.slots slot).lastMsg = messageOk) ∧
      (∀ p : Fin ringLeds, ((ringFrame inp out).2 (physical inp p)).PureRed ↔
        inp.locate = false ∧ inp.mismatch = false ∧ ∃ slot, SegmentOf inp slot p ∧
          LinkUp inp (inp.slots slot) ∧ (inp.slots slot).lastMsg = messageStop) ∧
      WorstState inp (ringFrame inp out).1 := by
  have hbij : Function.Bijective (physical inp) :=
    Finite.injective_iff_bijective.mp (physical_injective inp)
  have hcolours (p : Fin ringLeds) (pure : RingRgb → Prop) (msg : UInt8)
      (hplain : (inp.locate = true ∨ inp.mismatch = true ∨ configuredSlots inp = []) →
        ¬ pure ((compose inp).2 p))
      (hpixel : ∀ s, pure (pixelOf inp (shows inp (amberLevel inp) s) p) ↔
        LinkUp inp s ∧ s.lastMsg = msg) :
      pure ((ringFrame inp out).2 (physical inp p)) ↔
        inp.locate = false ∧ inp.mismatch = false ∧ ∃ slot, SegmentOf inp slot p ∧
          LinkUp inp (inp.slots slot) ∧ (inp.slots slot).lastMsg = msg := by
    rw [ringFrame_pixel]
    constructor
    · intro hc
      have hflags : ¬ (inp.locate = true ∨ inp.mismatch = true ∨ configuredSlots inp = []) :=
        fun h => hplain h hc
      rw [not_or, not_or] at hflags
      obtain ⟨hlocate, hmismatch, hsome⟩ := hflags
      have hl := Bool.eq_false_iff.mpr hlocate
      have hm := Bool.eq_false_iff.mpr hmismatch
      have hconf : ∃ slot, (inp.slots slot).configured = true := by
        by_contra hno
        refine hsome (configuredSlots_eq_nil.mpr fun slot => Bool.eq_false_iff.mpr fun h => ?_)
        exact hno ⟨slot, h⟩
      obtain ⟨slot, hslot, -⟩ := (segments_divided inp).covered hconf p p.isLt
      rw [compose_segment hl hm hslot] at hc
      exact ⟨hl, hm, slot, hslot, (hpixel _).mp hc⟩
    · rintro ⟨hl, hm, slot, hslot, hup⟩
      rw [compose_segment hl hm hslot]
      exact (hpixel _).mpr hup
  refine ⟨fun out' => funext fun q => ?_, hbij, segments_divided inp, fun p => ?_, fun p => ?_,
    compose_state inp⟩
  · obtain ⟨p, rfl⟩ := hbij.2 q
    rw [ringFrame_pixel, ringFrame_pixel]
  · exact hcolours p RingRgb.PureGreen messageOk (fun h => (compose_plain h p).1)
      fun s => pixelOf_green inp s p
  · exact hcolours p RingRgb.PureRed messageStop (fun h => (compose_plain h p).2)
      fun s => pixelOf_red inp s p

end ZephyrApps.StatusRing
