import ZephyrApps.EventHistories
import ZephyrApps.HealthService

/-!
# Rising edges of the aligned ticks

`health_edge_step` for calls in any order of the channels, with ticks that a channel may
miss. `aligned` are the ticks that both channels reported, with both verdicts; the
detector's state is a function of its last reports and of the last aligned tick.
-/
namespace ZephyrApps.HealthEdges
open HealthService EstopVerdict EventHistories

section
variable {α : Type*} {p : α → Bool}

def rises (p : α → Bool) (l : List α) : ℕ := (l.zip l.tail).countP fun e => !p e.1 && p e.2

def edgeTo (p : α → Bool) (last : Option α) (x : α) : Bool :=
  match last with
  | none => false
  | some a => p x && !p a

theorem countP_one (p : α → Bool) (x : α) : [x].countP p = (p x).toNat := by
  cases h : p x <;> simp [h]

theorem zip_tail_concat (l : List α) (x : α) :
    (l ++ [x]).zip (l ++ [x]).tail = l.zip l.tail ++ l.getLast?.toList.map fun a => (a, x) := by
  induction l with
  | nil => rfl
  | cons a l ih =>
    cases l with
    | nil => rfl
    | cons b l => exact congrArg ((a, b) :: ·) ih

theorem rises_concat (p : α → Bool) (l : List α) (x : α) :
    rises p (l ++ [x]) = rises p l + (edgeTo p l.getLast? x).toNat := by
  rw [rises, zip_tail_concat, List.countP_append, ← rises]
  cases l.getLast? with
  | none => rfl
  | some a =>
    rw [Option.toList_some, List.map_singleton, countP_one, edgeTo, Bool.and_comm]

end

/-- The channel that an `int` argument names, if it is in range. -/
def channelOf (channel : Int) : Option Channel :=
  if h : 0 ≤ channel ∧ channel ≤ 1 then some ⟨channel.toNat, by omega⟩ else none

def partner (c : Channel) : Channel := if c = 0 then 1 else 0

/-- The arguments of a call of `health_edge_step`. -/
structure EdgeCall where
  channel : Int
  tick : UInt32
  verdict : UInt8

/-- `health_edge_step` of any `int`. -/
def edgeStep (stopCode : UInt8) (st : HealthEdge) (call : EdgeCall) : HealthEdge × EdgeOut :=
  match channelOf call.channel with
  | none => (st, ⟨false, false⟩)
  | some c => healthEdgeStep st c call.tick call.verdict stopCode

def edgeRun (stopCode : UInt8) (calls : List EdgeCall) : HealthEdge × List EdgeOut :=
  calls.foldl (fun s call =>
    ((edgeStep stopCode s.1 call).1, s.2 ++ [(edgeStep stopCode s.1 call).2])) (.zero, [])

def outputs (stopCode : UInt8) (calls : List EdgeCall) : List EdgeOut := (edgeRun stopCode calls).2

/-- The comparator's observer calls the detector for channel 0 and then for channel 1. -/
theorem observeEdge_eq (st : HealthEdge) (t : ObservedTick) :
    observeEdge st t =
      edgeStep Pstop.messageStop (edgeStep Pstop.messageStop st ⟨0, t.tick, t.verdict0⟩).1
        ⟨1, t.tick, t.verdict1⟩ := rfl

def reports (c : Channel) (calls : List EdgeCall) : List (UInt32 × UInt8) :=
  calls.filterMap fun call =>
    if channelOf call.channel = some c then some (call.tick, call.verdict) else none

/-- The verdicts of the two channels for the ticks that both reported. -/
def aligned (calls : List EdgeCall) : List (UInt8 × UInt8) :=
  (reports 0 calls).filterMap fun r => ((reports 1 calls).lookup r.1).map fun v => (r.2, v)

/-- Ticks increase: no call is about an older tick than one before it, and no channel reports
a tick twice. -/
def InOrder (calls : List EdgeCall) : Prop :=
  Each (fun past call => ∀ c, channelOf call.channel = some c →
    (∀ r ∈ reports c past, r.1 < call.tick) ∧ ∀ r ∈ reports (partner c) past, r.1 ≤ call.tick) calls

scoped instance decidableReports {p : UInt32 × UInt8 → Prop} [DecidablePred p]
    (l : List (UInt32 × UInt8)) : Decidable (∀ r ∈ l, p r) :=
  List.decidableBAll p l

instance (calls : List EdgeCall) : Decidable (InOrder calls) := by
  unfold InOrder
  infer_instance

variable (stopCode : UInt8)

def bothStop (v : UInt8 × UInt8) : Bool := decide (v.1 = stopCode) && decide (v.2 = stopCode)

def disagree (v : UInt8 × UInt8) : Bool := decide (v.1 = stopCode) != decide (v.2 = stopCode)

def eventsAt (event : EdgeOut → Bool) (t : UInt32) (calls : List EdgeCall) : ℕ :=
  (calls.zip (outputs stopCode calls)).countP fun e => decide (e.1.tick = t) && event e.2

variable {stopCode} {past calls : List EdgeCall} {call : EdgeCall} {c : Channel}

theorem reports_self (h : channelOf call.channel = some c) :
    reports c (past ++ [call]) = reports c past ++ [(call.tick, call.verdict)] := by
  simp [reports, h]

theorem reports_other (h : channelOf call.channel ≠ some c) :
    reports c (past ++ [call]) = reports c past := by
  simp [reports, h]

theorem aligned_concat_none (h : channelOf call.channel = none) :
    aligned (past ++ [call]) = aligned past := by
  have hno (c : Channel) : channelOf call.channel ≠ some c := by
    rw [h]
    intro he
    cases he
  rw [aligned, reports_other (hno 0), reports_other (hno 1), ← aligned]

theorem partner_ne (c : Channel) : partner c ≠ c := by
  revert c
  decide

theorem InOrder.sorted (h : InOrder calls) (c : Channel) :
    (reports c calls).Pairwise fun r r' => r.1 < r'.1 := by
  induction calls using List.reverseRecOn with
  | nil => exact List.Pairwise.nil
  | append_singleton past call ih =>
    obtain ⟨hpast, hcall⟩ := each_concat.mp h
    by_cases hc : channelOf call.channel = some c
    · rw [reports_self hc, List.pairwise_append]
      refine ⟨ih hpast, List.pairwise_singleton _ _, fun r hr r' hr' => ?_⟩
      rw [List.mem_singleton.mp hr']
      exact (hcall c hc).1 r hr
    · rw [reports_other hc]
      exact ih hpast

theorem lookup_last {rs : List (UInt32 × UInt8)} {t : UInt32} {v : UInt8}
    (hs : rs.Pairwise fun r r' => r.1 < r'.1) (hle : ∀ r ∈ rs, r.1 ≤ t) (h : rs.lookup t = some v) :
    ∃ before, rs = before ++ [(t, v)] ∧ ∀ r ∈ before, r.1 ≠ t := by
  obtain ⟨l₁, l₂, rfl, hbefore⟩ := List.lookup_eq_some_iff.mp h
  have hempty : l₂ = [] := by
    cases l₂ with
    | nil => rfl
    | cons r l₂ =>
      have hlt : t < r.1 := by
        have hright := (List.pairwise_append.mp hs).2.1
        exact (List.pairwise_cons.mp hright).1 r (by simp)
      exact absurd hlt (UInt32.not_lt.mpr (hle r (by simp)))
  subst hempty
  refine ⟨l₁, rfl, fun r hr he => ?_⟩
  have hne := hbefore r hr
  simp [he] at hne

theorem lookup_none_of_lt {rs : List (UInt32 × UInt8)} {t : UInt32} (h : ∀ r ∈ rs, r.1 < t) :
    rs.lookup t = none := by
  refine List.lookup_eq_none_iff.mpr fun r hr => ?_
  have hne : t ≠ r.1 := fun he => absurd (h r hr) (by rw [he]; exact UInt32.lt_irrefl r.1)
  simpa using hne

def levels (c : Channel) (v w : UInt8) : UInt8 × UInt8 := if c = 0 then (v, w) else (w, v)

/-- A call aligns its tick if the other channel has reported it. -/
theorem aligned_concat (h : InOrder (past ++ [call])) (hc : channelOf call.channel = some c) :
    aligned (past ++ [call]) = aligned past ++
      ((reports (partner c) past).lookup call.tick).toList.map (levels c call.verdict) := by
  obtain ⟨hpast, hcall⟩ := each_concat.mp h
  obtain ⟨hown, hother⟩ := hcall c hc
  have hne : channelOf call.channel ≠ some (partner c) := by
    rw [hc]
    exact fun he => partner_ne c (Option.some.inj he).symm
  induction c using channel_cases with
  | zero =>
    rw [aligned, reports_self hc, reports_other (c := 1) hne, List.filterMap_append, ← aligned]
    have hpartner : partner 0 = 1 := rfl
    rw [hpartner, List.filterMap_cons, List.filterMap_nil]
    cases (reports 1 past).lookup call.tick with
    | none => rfl
    | some w => rfl
  | one =>
    have hpartner : partner 1 = 0 := rfl
    rw [hpartner] at hother hne ⊢
    have hlookup (t : UInt32) : (reports 1 (past ++ [call])).lookup t =
        ((reports 1 past).lookup t).or (if t = call.tick then some call.verdict else none) := by
      rw [reports_self hc, List.lookup_append]
      by_cases ht : t = call.tick
      · subst ht
        rw [List.lookup_cons_self, if_pos rfl]
      · have hbeq : (t == call.tick) = false := beq_eq_false_iff_ne.mpr ht
        rw [List.lookup_cons, hbeq, if_neg ht]
        rfl
    have hsame : ∀ rs : List (UInt32 × UInt8), (∀ r ∈ rs, r.1 ≠ call.tick) →
        rs.filterMap (fun r => ((reports 1 (past ++ [call])).lookup r.1).map fun v => (r.2, v)) =
          rs.filterMap fun r => ((reports 1 past).lookup r.1).map fun v => (r.2, v) := by
      intro rs hrs
      refine List.filterMap_congr fun r hr => ?_
      rw [hlookup, if_neg (hrs r hr), Option.or_none]
    rw [aligned, aligned, reports_other (c := 0) hne]
    cases hw : (reports 0 past).lookup call.tick with
    | none =>
      have hno : ∀ r ∈ reports 0 past, r.1 ≠ call.tick := by
        intro r hr he
        have hr' := List.lookup_eq_none_iff.mp hw r hr
        simp [he] at hr'
      rw [hsame _ hno, Option.toList_none, List.map_nil, List.append_nil]
    | some w =>
      obtain ⟨before, hsplit, hbefore⟩ := lookup_last (InOrder.sorted hpast 0) hother hw
      have hnone := lookup_none_of_lt hown
      rw [hsplit, List.filterMap_append, List.filterMap_append, hsame before hbefore]
      simp [hlookup, hnone, levels]

section
variable {st : HealthEdge} {t : UInt32} {v : UInt8}

def heard (st : HealthEdge) (c : Channel) (t : UInt32) (v : UInt8) : HealthEdge :=
  { st with
    tick := Function.update st.tick c t
    verdict := Function.update st.verdict c v
    seen := Function.update st.seen c true }

theorem heard_self (st : HealthEdge) (t : UInt32) (v : UInt8) (c : Channel) :
    (heard st c t v).seen c = true ∧ (heard st c t v).tick c = t ∧
      (heard st c t v).verdict c = v := by
  simp [heard]

theorem heard_other (st : HealthEdge) (t : UInt32) (v : UInt8) {d : Channel} (h : d ≠ c) :
    (heard st c t v).seen d = st.seen d ∧ (heard st c t v).tick d = st.tick d ∧
      (heard st c t v).verdict d = st.verdict d := by
  simp [heard, h]

/-- Without the other channel's report of the tick there is nothing to compare. -/
theorem healthEdgeStep_alone (h : ¬ (st.seen (partner c) = true ∧ st.tick (partner c) = t)) :
    healthEdgeStep st c t v stopCode = (heard st c t v, ⟨false, false⟩) := by
  have hwait : ((heard st c t v).seen 0 && (heard st c t v).seen 1) = false ∨
      (heard st c t v).tick 0 ≠ (heard st c t v).tick 1 := by
    by_cases hs : st.seen (partner c) = true
    · refine Or.inr ?_
      have ht : st.tick (partner c) ≠ t := fun ht => h ⟨hs, ht⟩
      induction c using channel_cases with
      | zero => exact ht.symm
      | one => exact ht
    · refine Or.inl ?_
      have hf : st.seen (partner c) = false := Bool.eq_false_iff.mpr hs
      induction c using channel_cases with
      | zero => exact hf
      | one => exact (congrArg (· && true) hf)
  exact if_pos hwait

/-- With it the levels are compared to those of the last aligned tick, if there was one. -/
theorem healthEdgeStep_aligned (hs : st.seen (partner c) = true) (ht : st.tick (partner c) = t) :
    healthEdgeStep st c t v stopCode =
      (let l := levels c v (st.verdict (partner c))
      ({ heard st c t v with
          primed := true
          stopBoth := bothStop stopCode l
          mismatch := disagree stopCode l },
        if st.primed then
          ⟨bothStop stopCode l && !st.stopBoth, disagree stopCode l && !st.mismatch⟩
        else ⟨false, false⟩)) := by
  have hboth : ¬ (((heard st c t v).seen 0 && (heard st c t v).seen 1) = false ∨
      (heard st c t v).tick 0 ≠ (heard st c t v).tick 1) := by
    rw [not_or, Bool.not_eq_false, not_not]
    induction c using channel_cases with
    | zero => exact ⟨hs, ht.symm⟩
    | one => exact ⟨congrArg (· && true) hs, ht⟩
  induction c using channel_cases with
  | zero => exact if_neg hboth
  | one => exact if_neg hboth

end

/-- What the detector remembers: the last report of each channel, and the levels of the last
aligned tick. -/
structure Tracks (stopCode : UInt8) (calls : List EdgeCall) (st : HealthEdge) : Prop where
  seen : ∀ c, st.seen c = true ↔ reports c calls ≠ []
  last : ∀ c r, (reports c calls).getLast? = some r → st.tick c = r.1 ∧ st.verdict c = r.2
  primed : st.primed = (aligned calls).getLast?.isSome
  level : ∀ l, (aligned calls).getLast? = some l →
    st.stopBoth = bothStop stopCode l ∧ st.mismatch = disagree stopCode l

/-- What a call finds, told by the reports before it. -/
def found (stopCode : UInt8) (past : List EdgeCall) (call : EdgeCall) : EdgeOut :=
  match channelOf call.channel with
  | none => ⟨false, false⟩
  | some c =>
    match (reports (partner c) past).lookup call.tick with
    | none => ⟨false, false⟩
    | some w =>
      let l := levels c call.verdict w
      ⟨edgeTo (bothStop stopCode) (aligned past).getLast? l,
        edgeTo (disagree stopCode) (aligned past).getLast? l⟩

theorem found_none (hc : channelOf call.channel = none) : found stopCode past call = ⟨false, false⟩ := by
  rw [found, hc]

theorem found_alone (hc : channelOf call.channel = some c)
    (hw : (reports (partner c) past).lookup call.tick = none) :
    found stopCode past call = ⟨false, false⟩ := by
  simp only [found, hc, hw]

theorem found_pair {w : UInt8} (hc : channelOf call.channel = some c)
    (hw : (reports (partner c) past).lookup call.tick = some w) :
    found stopCode past call =
      ⟨edgeTo (bothStop stopCode) (aligned past).getLast? (levels c call.verdict w),
        edgeTo (disagree stopCode) (aligned past).getLast? (levels c call.verdict w)⟩ := by
  simp only [found, hc, hw]

section
variable {st : HealthEdge}

/-- A channel's last report is the one of a tick that is not older. -/
theorem Tracks.lookup_some (h : Tracks stopCode calls st) (ho : InOrder calls) {t : UInt32} {w : UInt8}
    (hle : ∀ r ∈ reports c calls, r.1 ≤ t) (hw : (reports c calls).lookup t = some w) :
    st.seen c = true ∧ st.tick c = t ∧ st.verdict c = w := by
  obtain ⟨before, hsplit, -⟩ := lookup_last (ho.sorted c) hle hw
  have hlast : (reports c calls).getLast? = some (t, w) := by simp [hsplit]
  have hne : reports c calls ≠ [] := by simp [hsplit]
  exact ⟨(h.seen c).mpr hne, h.last c (t, w) hlast⟩

theorem Tracks.lookup_none (h : Tracks stopCode calls st) {t : UInt32}
    (hw : (reports c calls).lookup t = none) : ¬ (st.seen c = true ∧ st.tick c = t) := by
  rintro ⟨hs, ht⟩
  have hne := (h.seen c).mp hs
  obtain ⟨htick, -⟩ := h.last c _ (List.getLast?_eq_getLast_of_ne_nil hne)
  have hno := List.lookup_eq_none_iff.mp hw _ (List.getLast_mem hne)
  rw [← ht, htick] at hno
  simp at hno

theorem Tracks.hears (h : Tracks stopCode past st) (hc : channelOf call.channel = some c) :
    let st' := heard st c call.tick call.verdict
    (∀ d, st'.seen d = true ↔ reports d (past ++ [call]) ≠ []) ∧
      ∀ d r, (reports d (past ++ [call])).getLast? = some r →
        st'.tick d = r.1 ∧ st'.verdict d = r.2 := by
  have hcases (d : Channel) : d = c ∨ d ≠ c ∧ channelOf call.channel ≠ some d := by
    by_cases hd : d = c
    · exact Or.inl hd
    · refine Or.inr ⟨hd, ?_⟩
      rw [hc]
      exact fun he => hd (Option.some.inj he).symm
  refine ⟨fun d => ?_, fun d r hr => ?_⟩
  · rcases hcases d with rfl | ⟨hd, hother⟩
    · obtain ⟨hseen, -, -⟩ := heard_self st call.tick call.verdict d
      rw [hseen, reports_self hc]
      simp
    · obtain ⟨hseen, -, -⟩ := heard_other st call.tick call.verdict hd
      rw [hseen, reports_other hother]
      exact h.seen d
  · rcases hcases d with rfl | ⟨hd, hother⟩
    · obtain ⟨-, htick, hverdict⟩ := heard_self st call.tick call.verdict d
      rw [reports_self hc, List.getLast?_concat] at hr
      cases hr
      exact ⟨htick, hverdict⟩
    · obtain ⟨-, htick, hverdict⟩ := heard_other st call.tick call.verdict hd
      rw [reports_other hother] at hr
      rw [htick, hverdict]
      exact h.last d r hr

/-- One call: what is remembered and what is returned. -/
theorem Tracks.step (h : Tracks stopCode past st) (ho : InOrder (past ++ [call])) :
    Tracks stopCode (past ++ [call]) (edgeStep stopCode st call).1 ∧
      (edgeStep stopCode st call).2 = found stopCode past call := by
  obtain ⟨hpast, hcall⟩ := each_concat.mp ho
  rw [edgeStep, found]
  cases hc : channelOf call.channel with
  | none =>
    have hsame (c : Channel) : reports c (past ++ [call]) = reports c past :=
      reports_other (by simp [hc])
    have haligned : aligned (past ++ [call]) = aligned past := aligned_concat_none hc
    refine ⟨⟨?_, ?_, ?_, ?_⟩, rfl⟩
    · simpa only [hsame] using h.seen
    · simpa only [hsame] using h.last
    · simpa only [haligned] using h.primed
    · simpa only [haligned] using h.level
  | some c =>
    obtain ⟨hseen, hlast⟩ := h.hears hc
    have haligned := aligned_concat ho hc
    dsimp only
    cases hw : (reports (partner c) past).lookup call.tick with
    | none =>
      rw [hw, Option.toList_none, List.map_nil, List.append_nil] at haligned
      rw [healthEdgeStep_alone (h.lookup_none hw)]
      refine ⟨⟨hseen, hlast, ?_, ?_⟩, rfl⟩
      · rw [haligned]
        exact h.primed
      · rw [haligned]
        exact h.level
    | some w =>
      rw [hw, Option.toList_some, List.map_singleton] at haligned
      obtain ⟨hs, ht, hv⟩ := h.lookup_some hpast (hcall c hc).2 hw
      rw [healthEdgeStep_aligned hs ht, hv]
      refine ⟨⟨hseen, hlast, ?_, ?_⟩, ?_⟩
      · rw [haligned, List.getLast?_concat]
        rfl
      · intro l hl
        rw [haligned, List.getLast?_concat] at hl
        cases hl
        exact ⟨rfl, rfl⟩
      · have hprimed := h.primed
        cases hl : (aligned past).getLast? with
        | none =>
          rw [hl] at hprimed
          simp [hprimed, edgeTo]
        | some l =>
          obtain ⟨hboth, hmismatch⟩ := h.level l hl
          rw [hl] at hprimed
          simp [hprimed, hboth, hmismatch, edgeTo]

end

theorem edgeRun_concat (past : List EdgeCall) (call : EdgeCall) :
    edgeRun stopCode (past ++ [call]) =
      ((edgeStep stopCode (edgeRun stopCode past).1 call).1,
        outputs stopCode past ++ [(edgeStep stopCode (edgeRun stopCode past).1 call).2]) := by
  rw [edgeRun, List.foldl_append]
  rfl

theorem tracks_run (stopCode : UInt8) (h : InOrder calls) :
    Tracks stopCode calls (edgeRun stopCode calls).1 := by
  induction calls using List.reverseRecOn with
  | nil =>
    refine ⟨fun c => ?_, fun c r hr => ?_, rfl, fun l hl => ?_⟩
    · simp [edgeRun, HealthEdge.zero, reports]
    · cases hr
    · cases hl
  | append_singleton past call ih =>
    rw [edgeRun_concat]
    exact ((ih (each_concat.mp h).1).step h).1

theorem outputs_concat (h : InOrder (past ++ [call])) :
    outputs stopCode (past ++ [call]) = outputs stopCode past ++ [found stopCode past call] := by
  have htracks := tracks_run stopCode (each_concat.mp h).1
  rw [outputs, edgeRun_concat, (htracks.step h).2]

/-- What a call finds of a kind of events, in terms of the aligned ticks. -/
theorem found_aligned (stopCode : UInt8) (h : InOrder (past ++ [call])) :
    rises (bothStop stopCode) (aligned (past ++ [call])) =
        rises (bothStop stopCode) (aligned past) + (found stopCode past call).press.toNat ∧
      rises (disagree stopCode) (aligned (past ++ [call])) =
        rises (disagree stopCode) (aligned past) + (found stopCode past call).mismatch.toNat := by
  cases hc : channelOf call.channel with
  | none =>
    rw [aligned_concat_none hc, found_none hc]
    exact ⟨rfl, rfl⟩
  | some c =>
    rw [aligned_concat h hc]
    cases hw : (reports (partner c) past).lookup call.tick with
    | none =>
      rw [found_alone hc hw, Option.toList_none, List.map_nil, List.append_nil]
      exact ⟨rfl, rfl⟩
    | some w =>
      rw [found_pair hc hw, Option.toList_some, List.map_singleton]
      exact ⟨rises_concat _ _ _, rises_concat _ _ _⟩

/-- An event is found by the second channel's call of a tick, and never at the first aligned
one. -/
theorem found_event (h : (found stopCode past call).press = true ∨
      (found stopCode past call).mismatch = true) :
    aligned past ≠ [] ∧ ∃ c, channelOf call.channel = some c ∧
      ∃ w, (call.tick, w) ∈ reports (partner c) past := by
  cases hc : channelOf call.channel with
  | none =>
    rw [found_none hc] at h
    simp at h
  | some c =>
    cases hw : (reports (partner c) past).lookup call.tick with
    | none =>
      rw [found_alone hc hw] at h
      simp at h
    | some w =>
      obtain ⟨l₁, l₂, hsplit, -⟩ := List.lookup_eq_some_iff.mp hw
      refine ⟨fun hempty => ?_, c, rfl, w, by simp [hsplit]⟩
      rw [found_pair hc hw, hempty] at h
      simp [edgeTo] at h

theorem length_outputs (stopCode : UInt8) (calls : List EdgeCall) :
    (outputs stopCode calls).length = calls.length := by
  induction calls using List.reverseRecOn with
  | nil => rfl
  | append_singleton past call ih =>
    rw [outputs, edgeRun_concat, List.length_append, List.length_append, ih]
    rfl

/-- Where an event was found for a tick, both channels have reported it. -/
theorem eventsAt_reported {event : EdgeOut → Bool}
    (hevent : ∀ out, event out = true → out.press = true ∨ out.mismatch = true) {t : UInt32}
    (h : InOrder calls) (hpos : 0 < eventsAt stopCode event t calls) (c : Channel) :
    ∃ v, (t, v) ∈ reports c calls := by
  induction calls using List.reverseRecOn with
  | nil => exact absurd hpos (Nat.lt_irrefl 0)
  | append_singleton past call ih =>
    obtain ⟨hpast, -⟩ := each_concat.mp h
    have hmono {d : Channel} (hd : ∃ v, (t, v) ∈ reports d past) :
        ∃ v, (t, v) ∈ reports d (past ++ [call]) := by
      obtain ⟨v, hv⟩ := hd
      exact ⟨v, by simp [reports, List.filterMap_append] at hv ⊢; exact Or.inl hv⟩
    rw [eventsAt, outputs_concat h, List.zip_append (length_outputs stopCode past).symm,
      List.countP_append, ← eventsAt] at hpos
    by_cases hlast : call.tick = t ∧ event (found stopCode past call) = true
    · obtain ⟨-, d, hd, w, hw⟩ := found_event (hevent _ hlast.2)
      by_cases hc : c = d
      · subst hc
        exact ⟨call.verdict, by rw [reports_self hd]; simp [hlast.1]⟩
      · have hpartner : c = partner d := by
          revert hc
          clear * -
          revert c d
          decide
        rw [hpartner]
        exact hmono ⟨w, hlast.1 ▸ hw⟩
    · refine hmono (ih hpast ?_)
      have hzero : ([call].zip [found stopCode past call]).countP
          (fun e => decide (e.1.tick = t) && event e.2) = 0 := by
        simpa using hlast
      omega

/-- A tick has at most one event of a kind. -/
theorem eventsAt_le {event : EdgeOut → Bool}
    (hevent : ∀ out, event out = true → out.press = true ∨ out.mismatch = true) (t : UInt32)
    (h : InOrder calls) : eventsAt stopCode event t calls ≤ 1 := by
  induction calls using List.reverseRecOn with
  | nil => exact Nat.zero_le 1
  | append_singleton past call ih =>
    obtain ⟨hpast, hcall⟩ := each_concat.mp h
    rw [eventsAt, outputs_concat h, List.zip_append (length_outputs stopCode past).symm,
      List.countP_append, ← eventsAt]
    by_cases hlast : call.tick = t ∧ event (found stopCode past call) = true
    · obtain ⟨-, c, hc, -⟩ := found_event (hevent _ hlast.2)
      have hnone : eventsAt stopCode event t past = 0 := by
        refine Nat.eq_zero_of_not_pos fun hpos => ?_
        obtain ⟨v, hv⟩ := eventsAt_reported hevent hpast hpos c
        have hlt := (hcall c hc).1 _ hv
        rw [hlast.1] at hlt
        exact UInt32.lt_irrefl t hlt
      rw [hnone, Nat.zero_add]
      exact List.countP_le_length
    · have hzero : ([call].zip [found stopCode past call]).countP
          (fun e => decide (e.1.tick = t) && event e.2) = 0 := by
        simpa using hlast
      rw [hzero]
      exact ih hpast

/-- Presses and mismatches are the rising edges of the aligned ticks: as many as these have,
at most one of a kind for a tick, found by the call that aligns it, and none at the first. -/
theorem edges_counted (stopCode : UInt8) {calls : List EdgeCall} (h : InOrder calls) :
    (outputs stopCode calls).countP (fun out => out.press) =
        rises (bothStop stopCode) (aligned calls) ∧
      (outputs stopCode calls).countP (fun out => out.mismatch) =
        rises (disagree stopCode) (aligned calls) ∧
      (∀ t, eventsAt stopCode (fun out => out.press) t calls ≤ 1 ∧
        eventsAt stopCode (fun out => out.mismatch) t calls ≤ 1) ∧
      Each (fun past call =>
        let out := (edgeStep stopCode (edgeRun stopCode past).1 call).2
        out.press = true ∨ out.mismatch = true → aligned past ≠ [] ∧
          ∃ c, channelOf call.channel = some c ∧
            ∃ w, (call.tick, w) ∈ reports (partner c) past) calls := by
  have hcounts : (outputs stopCode calls).countP (fun out => out.press) =
        rises (bothStop stopCode) (aligned calls) ∧
      (outputs stopCode calls).countP (fun out => out.mismatch) =
        rises (disagree stopCode) (aligned calls) := by
    induction calls using List.reverseRecOn with
    | nil => exact ⟨rfl, rfl⟩
    | append_singleton past call ih =>
      obtain ⟨hpress, hmismatch⟩ := ih (each_concat.mp h).1
      obtain ⟨hboth, hdisagree⟩ := found_aligned stopCode h
      rw [outputs_concat h, List.countP_append, List.countP_append, countP_one, countP_one, hpress,
        hmismatch, hboth, hdisagree]
      exact ⟨rfl, rfl⟩
  refine ⟨hcounts.1, hcounts.2, fun t => ⟨?_, ?_⟩, ?_⟩
  · exact eventsAt_le (fun _ => Or.inl) t h
  · exact eventsAt_le (fun _ => Or.inr) t h
  · clear hcounts
    induction calls using List.reverseRecOn with
    | nil => exact each_nil _
    | append_singleton past call ih =>
      have hpast := (each_concat.mp h).1
      refine each_concat.mpr ⟨ih hpast, fun hout => ?_⟩
      rw [((tracks_run stopCode hpast).step h).2] at hout
      exact found_event hout

/-- A press with skewed ticks: channel 1 misses tick 3 and reports first at tick 5, and there
is no third channel. -/
def skewedCalls : List EdgeCall :=
  [⟨0, 1, 7⟩, ⟨1, 1, 7⟩, ⟨0, 3, 9⟩, ⟨2, 4, 9⟩, ⟨1, 5, 9⟩, ⟨0, 5, 9⟩]

theorem edges_counted_skewed :
    (outputs 9 skewedCalls).countP (fun out => out.press) = 1 ∧
      rises (bothStop 9) (aligned skewedCalls) = 1 := by
  have h : InOrder skewedCalls := by decide
  have hone : rises (bothStop 9) (aligned skewedCalls) = 1 := by decide
  exact ⟨(edges_counted 9 h).1.trans hone, hone⟩

end ZephyrApps.HealthEdges
