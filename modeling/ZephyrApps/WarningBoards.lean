import ZephyrApps.HealthCounters
import ZephyrApps.KeyedLists
import ZephyrApps.SystemRuns

/-!
# The warning board

The board as `health_logic.c` lays it out, an array whose first `n` entries are in use,
shows the list of warnings of `Board`. Along any calls it keeps one entry for every
source, as the history of the calls describes it, if and only if no call names a source
that is too long to be stored while an entry carries its stored part, and no entry is
published more often than its counter can count.
-/
namespace ZephyrApps.WarningBoards
open CStrings HealthCounters KeyedLists EventHistories SystemRuns

/-- A warning that `memset` cleared. -/
def cleared : Warning := ⟨[], [], 0, 0, 0, 0⟩

/-- `struct health_board` -/
structure BoardArray where
  n : ℕ
  dropped : UInt32
  w : ℕ → Warning

def BoardArray.zero : BoardArray := ⟨0, 0, fun _ => cleared⟩

def BoardArray.entries (b : BoardArray) : List Warning := (List.range b.n).map b.w

/-- `find` -/
def BoardArray.find (b : BoardArray) (src : Text) : Option ℕ :=
  (List.range b.n).find? fun i => decide ((b.w i).src.take healthSrcLen = src.take healthSrcLen)

/-- The loop of `health_board_clear` over the places `js`. -/
def shiftDown (w : ℕ → Warning) (js : List ℕ) : ℕ → Warning :=
  js.foldl (fun w j => Function.update w j (w (j + 1))) w

/-- `health_board_clear` -/
def BoardArray.clear (b : BoardArray) (src : Text) : BoardArray :=
  match b.find src with
  | none => b
  | some i => { b with w := shiftDown b.w (List.range' i (b.n - 1 - i)), n := b.n - 1 }

/-- `health_board_publish` -/
def BoardArray.publish (b : BoardArray) (src : Text) (level : Int) (msg : Text) (now : UInt64) :
    BoardArray × Int :=
  if level = healthOk then (b.clear src, 0)
  else
    match b.find src with
    | some i => ({ b with w := Function.update b.w i ((b.w i).published level msg now) }, 0)
    | none =>
      if healthMaxWarnings ≤ b.n then ({ b with dropped := b.dropped + 1 }, enomem)
      else
        let i := b.n
        let w := Function.update b.w i { cleared with src := copyStr src healthSrcLen, firstMs := now }
        ({ b with n := b.n + 1, w := Function.update w i ((w i).published level msg now) }, 0)

def BoardArray.board (b : BoardArray) (h : b.n ≤ healthMaxWarnings) : Board where
  warnings := b.entries
  dropped := b.dropped
  bounded := by simpa [BoardArray.entries] using h

@[simp] theorem length_entries (b : BoardArray) : b.entries.length = b.n := by
  simp [BoardArray.entries]

/-- What a place holds after the loop moved `m` entries down, from place `i + 1` on. -/
theorem shiftDown_range' (w : ℕ → Warning) (i m j : ℕ) :
    shiftDown w (List.range' i m) j = if i ≤ j ∧ j < i + m then w (j + 1) else w j := by
  induction m generalizing j with
  | zero =>
    rw [if_neg (by omega)]
    rfl
  | succ m ih =>
    have hstep : shiftDown w (List.range' i (m + 1)) = Function.update
        (shiftDown w (List.range' i m)) (i + m) (shiftDown w (List.range' i m) (i + m + 1)) := by
      rw [shiftDown, List.range'_concat, List.foldl_append, Nat.one_mul]
      rfl
    rw [hstep, Function.update_apply, ih, ih]
    by_cases hj : j = i + m
    · rw [if_pos hj, if_neg (by omega), if_pos (by omega), hj]
    · rw [if_neg hj]
      exact if_congr (by omega) rfl rfl

theorem find_entries (b : BoardArray) (src : Text) :
    b.find src = b.entries.findIdx?
      fun w => decide (w.src.take healthSrcLen = src.take healthSrcLen) := by
  rw [BoardArray.find, BoardArray.entries, List.findIdx?_map]
  ext i
  rw [List.find?_range_eq_some, List.findIdx?_eq_some_iff_getElem]
  simp only [List.mem_range, List.length_range, List.getElem_range, Function.comp_apply]
  constructor
  · rintro ⟨hp, hi, hlt⟩
    exact ⟨hi, hp, fun j hj => by simpa using hlt j hj⟩
  · rintro ⟨hi, hp, hlt⟩
    exact ⟨hp, hi, fun j hj => by simpa using hlt j hj⟩

theorem find_lt {b : BoardArray} {src : Text} {i : ℕ} (h : b.find src = some i) : i < b.n := by
  rw [BoardArray.find, List.find?_range_eq_some] at h
  exact List.mem_range.mp h.2.1

/-- Moving the later entries down removes one. -/
theorem entries_clear (b : BoardArray) {src : Text} {i : ℕ} (h : b.find src = some i) :
    (b.clear src).entries = b.entries.eraseIdx i := by
  have hi := find_lt h
  rw [BoardArray.clear, h]
  refine List.ext_getElem? fun j => ?_
  rw [List.getElem?_eraseIdx]
  simp only [BoardArray.entries, List.getElem?_map]
  by_cases hj : j < b.n - 1
  · rw [List.getElem?_range hj, Option.map_some, shiftDown_range']
    by_cases hji : j < i
    · rw [if_pos hji, List.getElem?_range (by omega), if_neg (by omega), Option.map_some]
    · rw [if_neg hji, List.getElem?_range (by omega), if_pos (by omega), Option.map_some]
  · have hnone : (List.range (b.n - 1))[j]? = none := List.getElem?_eq_none (by simpa using hj)
    have hnone' : (List.range b.n)[j + 1]? = none :=
      List.getElem?_eq_none (by rw [List.length_range]; omega)
    rw [hnone, if_neg (by omega), hnone', Option.map_none, Option.map_none]

theorem clear_dropped (b : BoardArray) (src : Text) : (b.clear src).dropped = b.dropped := by
  rw [BoardArray.clear]
  cases b.find src <;> rfl

theorem entries_write (b : BoardArray) (i : ℕ) (f : Warning → Warning) :
    ({ b with w := Function.update b.w i (f (b.w i)) } : BoardArray).entries =
      b.entries.modify i f := by
  refine List.ext_getElem? fun j => ?_
  rw [List.getElem?_modify]
  simp only [BoardArray.entries, List.getElem?_map]
  by_cases hj : j < b.n
  · rw [List.getElem?_range hj, Option.map_some, Option.map_some, Option.map_eq_map,
      Option.map_some]
    by_cases hij : i = j
    · subst hij
      rw [Function.update_self, if_pos rfl]
    · rw [Function.update_of_ne (Ne.symm hij), if_neg hij]
  · have hnone : (List.range b.n)[j]? = none := List.getElem?_eq_none (by simpa using hj)
    rw [hnone]
    rfl

theorem entries_push (b : BoardArray) (w : Warning) :
    ({ b with n := b.n + 1, w := Function.update b.w b.n w } : BoardArray).entries =
      b.entries ++ [w] := by
  have hold : ∀ i ∈ List.range b.n, Function.update b.w b.n w i = b.w i := fun i hi =>
    Function.update_of_ne (List.mem_range.mp hi).ne w b.w
  simp only [BoardArray.entries]
  rw [List.range_succ, List.map_append, List.map_congr_left hold, List.map_singleton,
    Function.update_self]

/-- A board that shows a list: the entries in use and the refusals. -/
def Shows (b : BoardArray) (B : Board) : Prop :=
  b.entries = B.warnings ∧ b.dropped = B.dropped

theorem board_find (b : BoardArray) (h : b.n ≤ healthMaxWarnings) (src : Text) :
    (b.board h).find src = b.find src := (find_entries b src).symm

theorem clear_shows (b : BoardArray) (h : b.n ≤ healthMaxWarnings) (src : Text) :
    Shows (b.clear src) ((b.board h).clear src) := by
  rw [Board.clear, board_find]
  cases hf : b.find src with
  | none =>
    rw [BoardArray.clear, hf]
    exact ⟨rfl, rfl⟩
  | some i => exact ⟨entries_clear b hf, clear_dropped b src⟩

/-- The array does what the list does. -/
theorem publish_shows (b : BoardArray) (h : b.n ≤ healthMaxWarnings) (src : Text) (level : Int)
    (msg : Text) (now : UInt64) :
    Shows (b.publish src level msg now).1 ((b.board h).publish src level msg now).1 ∧
      (b.publish src level msg now).2 = ((b.board h).publish src level msg now).2 := by
  have hlen : (b.board h).warnings.length = b.n := length_entries b
  rw [BoardArray.publish, Board.publish]
  by_cases hl : level = healthOk
  · rw [if_pos hl, if_pos hl]
    exact ⟨clear_shows b h src, rfl⟩
  · rw [if_neg hl, if_neg hl, board_find]
    cases hf : b.find src with
    | some i =>
      have hw := entries_write b i fun w => w.published level msg now
      exact ⟨⟨hw, rfl⟩, rfl⟩
    | none =>
      dsimp only
      by_cases hn : healthMaxWarnings ≤ b.n
      · rw [if_pos hn, dif_pos (by rwa [hlen])]
        exact ⟨⟨rfl, rfl⟩, rfl⟩
      · rw [if_neg hn, dif_neg (by rwa [hlen])]
        refine ⟨⟨?_, rfl⟩, rfl⟩
        dsimp only
        rw [Function.update_self, Function.update_idem]
        exact entries_push b _

inductive Call where
  | publish (src : Text) (level : Int) (msg : Text) (now : UInt64)
  | clear (src : Text)

def Call.src : Call → Text
  | .publish src _ _ _ => src
  | .clear src => src

/-- A clear counts as a publish at `HEALTH_OK`. -/
def Call.level : Call → Int
  | .publish _ level _ _ => level
  | .clear _ => healthOk

def Call.msg : Call → Text
  | .publish _ _ msg _ => msg
  | .clear _ => []

def Call.now : Call → UInt64
  | .publish _ _ _ now => now
  | .clear _ => 0

def Call.apply (b : BoardArray) : Call → BoardArray × Int
  | .publish src level msg now => b.publish src level msg now
  | .clear src => (b.clear src, 0)

structure Event where
  call : Call
  ret : Int

structure Traced where
  board : BoardArray
  log : List Event

def Traced.zero : Traced := ⟨.zero, []⟩

def step (s : Traced) (call : Call) : Traced :=
  let r := call.apply s.board
  ⟨r.1, s.log ++ [⟨call, r.2⟩]⟩

def stored (src : Text) : Text := copyStr src healthSrcLen

/-- The event clears the source that is stored as `k`, or publishes it at `HEALTH_OK`. -/
def Event.removes (k : Text) (e : Event) : Bool :=
  decide (stored e.call.src = k) && decide (e.call.level = healthOk)

/-- The event publishes the source that is stored as `k`, and is not refused. -/
def Event.raises (k : Text) (e : Event) : Bool :=
  decide (stored e.call.src = k) && decide (e.call.level ≠ healthOk) && decide (e.ret = 0)

/-- The publishes of a source since it was raised. -/
def live (k : Text) (log : List Event) : List Event :=
  (since (Event.removes k) log).filter (Event.raises k)

/-- The entry of a source that was published as in `es` since it was raised. -/
structure Describes (w : Warning) (es : List Event) : Prop where
  count : w.count.toNat = es.length
  first : ∃ e, es.head? = some e ∧ w.firstMs = e.call.now
  last : ∃ e, es.getLast? = some e ∧ w.level = e.call.level ∧
    w.msg = copyStr e.call.msg healthMsgLen ∧ w.lastMs = e.call.now

/-- Source `k` was raised, and not removed since, before `k'` was. -/
def RaisedBefore (log : List Event) (k k' : Text) : Prop :=
  ∃ past later, log = past ++ later ∧ live k past ≠ [] ∧ live k' past = [] ∧
    ∀ e ∈ later, e.removes k = false

/-- The board keeps one entry for every source that was raised, as the calls so far
describe it, in the order in which they were raised. -/
structure Kept (s : Traced) : Prop where
  room : s.board.n ≤ healthMaxWarnings
  distinct : (s.board.entries.map Warning.src).Nodup
  entry : ∀ w ∈ s.board.entries, Describes w (live w.src s.log)
  raised : ∀ k, live k s.log ≠ [] → ∃ w ∈ s.board.entries, w.src = k
  order : s.board.entries.Pairwise fun w w' => RaisedBefore s.log w.src w'.src

def Call.fresh (call : Call) : Warning :=
  ({ cleared with src := stored call.src, firstMs := call.now } : Warning).published call.level
    call.msg call.now

/-- A call that publishes a source changes its entry, adds one at the end, or is refused
because the board is full; any other call removes the source's entry and no other. -/
def Right (b : BoardArray) (call : Call) (r : BoardArray × Int) : Prop :=
  if call.level = healthOk then
    r.1.entries = b.entries.filter (fun w => decide (w.src ≠ stored call.src)) ∧
      r.1.dropped = b.dropped ∧ r.2 = 0
  else if ∃ w ∈ b.entries, w.src = stored call.src then
    r.1.entries = b.entries.map (fun w =>
        if w.src = stored call.src then w.published call.level call.msg call.now else w) ∧
      r.1.dropped = b.dropped ∧ r.2 = 0
  else if b.n = healthMaxWarnings then
    r.1 = { b with dropped := b.dropped + 1 } ∧ r.2 = enomem
  else
    r.1.entries = b.entries ++ [call.fresh] ∧ r.1.dropped = b.dropped ∧ r.2 = 0

/-- The source can be stored, or no entry carries what would be stored of it; and the
count of the entry that is published does not wrap. -/
def Fits (b : BoardArray) (call : Call) : Prop :=
  (call.src.length < healthSrcLen ∨ ∀ w ∈ b.entries, w.src ≠ stored call.src) ∧
    (call.level ≠ healthOk → ∀ w ∈ b.entries, w.src = stored call.src → w.count.toNat + 1 < 2 ^ 32)

theorem live_removed {k : Text} {e : Event} (h : e.removes k = true) (log : List Event) :
    live k (log ++ [e]) = [] := by
  rw [live, since_concat_mark h, List.filter_nil]

theorem live_raised {k : Text} {e : Event} (hrm : e.removes k = false) (h : e.raises k = true)
    (log : List Event) : live k (log ++ [e]) = live k log ++ [e] := by
  rw [live, since_concat_unmarked hrm, List.filter_append, List.filter_singleton, h]
  rfl

theorem live_other {k : Text} {e : Event} (hrm : e.removes k = false) (h : e.raises k = false)
    (log : List Event) : live k (log ++ [e]) = live k log := by
  rw [live, since_concat_unmarked hrm, List.filter_append, List.filter_singleton, h]
  exact List.append_nil _

theorem RaisedBefore.concat {log : List Event} {k k' : Text} (h : RaisedBefore log k k') {e : Event}
    (he : e.removes k = false) : RaisedBefore (log ++ [e]) k k' := by
  obtain ⟨past, later, rfl, hk, hk', hlater⟩ := h
  refine ⟨past, later ++ [e], List.append_assoc _ _ _, hk, hk', fun x hx => ?_⟩
  rcases List.mem_append.mp hx with hx | hx
  · exact hlater x hx
  · rw [List.mem_singleton.mp hx]
    exact he

theorem Describes.ne_nil {w : Warning} {es : List Event} (h : Describes w es) : es ≠ [] := by
  rintro rfl
  obtain ⟨e, he, -⟩ := h.first
  cases he

theorem Describes.publish {w : Warning} {es : List Event} (h : Describes w es)
    (hc : w.count.toNat + 1 < 2 ^ 32) (e : Event) :
    Describes (w.published e.call.level e.call.msg e.call.now) (es ++ [e]) where
  count := by
    rw [Warning.published, UInt32.toNat_add, UInt32.toNat_one, Nat.mod_eq_of_lt hc, h.count,
      List.length_append, List.length_singleton]
  first := by
    obtain ⟨e', he', hw⟩ := h.first
    exact ⟨e', by rw [List.head?_append, he', Option.some_or], hw⟩
  last := ⟨e, List.getLast?_concat, rfl, rfl, rfl⟩

theorem describes_fresh (e : Event) : Describes e.call.fresh [e] :=
  ⟨rfl, ⟨e, rfl, rfl⟩, ⟨e, rfl, rfl, rfl, rfl⟩⟩

/-- What is stored of a source is shorter than its buffer. -/
theorem Kept.short {s : Traced} (h : Kept s) {w : Warning} (hw : w ∈ s.board.entries) :
    w.src.length < healthSrcLen := by
  obtain ⟨e, he⟩ := List.exists_mem_of_ne_nil _ (h.entry w hw).ne_nil
  have hr := (List.mem_filter.mp he).2
  rw [Event.raises, Bool.and_eq_true, Bool.and_eq_true, decide_eq_true_eq] at hr
  rw [← hr.1.1, stored, copyStr, List.length_take]
  exact lt_of_le_of_lt (Nat.min_le_left _ _) (by decide)

/-- `strncmp` finds the stored name of a source that is short enough to be stored. -/
theorem same_name_iff {name src : Text} (h : name.length < healthSrcLen) :
    name.take healthSrcLen = src.take healthSrcLen ↔
      name = stored src ∧ src.length < healthSrcLen := by
  rw [List.take_of_length_le h.le]
  constructor
  · rintro rfl
    have hlt : src.length < healthSrcLen := by
      rw [List.length_take] at h
      omega
    refine ⟨?_, hlt⟩
    rw [List.take_of_length_le hlt.le, stored, copyStr,
      List.take_of_length_le (Nat.le_sub_one_of_lt hlt)]
  · rintro ⟨rfl, hlt⟩
    rw [List.take_of_length_le hlt.le, stored, copyStr,
      List.take_of_length_le (Nat.le_sub_one_of_lt hlt)]

theorem Kept.find {s : Traced} (h : Kept s) {src : Text} (hsrc : src.length < healthSrcLen ∨
    ∀ w ∈ s.board.entries, w.src ≠ stored src) :
    s.board.find src = position Warning.src (stored src) s.board.entries := by
  rw [find_entries, position]
  refine findIdx?_congr fun w hw => ?_
  rw [decide_eq_decide, same_name_iff (h.short hw)]
  exact ⟨fun he => he.1, fun he => ⟨he, hsrc.resolve_right fun hn => hn w hw he⟩⟩

theorem apply_removing {call : Call} (h : call.level = healthOk) (b : BoardArray) :
    call.apply b = (b.clear call.src, 0) := by
  cases call with
  | publish src level msg now => exact if_pos h
  | clear src => rfl

theorem apply_publishing {call : Call} (h : call.level ≠ healthOk) (b : BoardArray) :
    call.apply b = b.publish call.src call.level call.msg call.now := by
  cases call with
  | publish src level msg now => rfl
  | clear src => exact absurd rfl h

theorem Kept.right {s : Traced} (h : Kept s) {call : Call} (hsrc : call.src.length < healthSrcLen ∨
    ∀ w ∈ s.board.entries, w.src ≠ stored call.src) :
    Right s.board call (call.apply s.board) := by
  have hfind := h.find hsrc
  unfold Right
  by_cases hl : call.level = healthOk
  · rw [if_pos hl, apply_removing hl]
    cases hp : position Warning.src (stored call.src) s.board.entries with
    | none =>
      have hall := position_none.mp hp
      have hclear : s.board.clear call.src = s.board := by rw [BoardArray.clear, hfind, hp]
      rw [hclear]
      exact ⟨(List.filter_eq_self.mpr fun w hw => decide_eq_true (hall w hw)).symm, rfl, rfl⟩
    | some i =>
      rw [hp] at hfind
      exact ⟨(entries_clear _ hfind).trans (eraseIdx_position h.distinct hp),
        clear_dropped _ _, rfl⟩
  · rw [if_neg hl, apply_publishing hl]
    cases hp : position Warning.src (stored call.src) s.board.entries with
    | some i =>
      rw [hp] at hfind
      rw [if_pos (position_some hp), BoardArray.publish, if_neg hl, hfind]
      have hw := entries_write s.board i fun w => w.published call.level call.msg call.now
      exact ⟨hw.trans (modify_position h.distinct hp _), rfl, rfl⟩
    | none =>
      rw [hp] at hfind
      have hnew : ¬ ∃ w ∈ s.board.entries, w.src = stored call.src := fun ⟨w, hw, he⟩ =>
        position_none.mp hp w hw he
      rw [if_neg hnew, BoardArray.publish, if_neg hl, hfind]
      dsimp only
      by_cases hn : s.board.n = healthMaxWarnings
      · rw [if_pos hn, if_pos hn.ge]
        exact ⟨rfl, rfl⟩
      · rw [if_neg hn, if_neg fun hle => hn (h.room.antisymm hle), Function.update_self,
          Function.update_idem]
        exact ⟨entries_push s.board call.fresh, rfl, rfl⟩

variable {s : Traced} {call : Call} {r : BoardArray × Int}

theorem removes_iff {k : Text} {e : Event} (h : e.call.level = healthOk) :
    e.removes k = decide (stored e.call.src = k) := by
  simp [Event.removes, h]

theorem removes_publish {e : Event} (h : e.call.level ≠ healthOk) (k : Text) :
    e.removes k = false := by
  simp [Event.removes, h]

theorem raises_publish {e : Event} (h : e.call.level ≠ healthOk) (hret : e.ret = 0) (k : Text) :
    e.raises k = decide (stored e.call.src = k) := by
  simp [Event.raises, h, hret]

theorem raises_refused {e : Event} (hret : e.ret ≠ 0) (k : Text) : e.raises k = false := by
  simp [Event.raises, hret]

theorem Kept.removing (h : Kept s) (hl : call.level = healthOk)
    (hr : r.1.entries = s.board.entries.filter fun w => decide (w.src ≠ stored call.src)) :
    Kept ⟨r.1, s.log ++ [⟨call, r.2⟩]⟩ := by
  have hmem {w : Warning} (hw : w ∈ r.1.entries) :
      w ∈ s.board.entries ∧ w.src ≠ stored call.src := by
    rw [hr] at hw
    exact ⟨(List.mem_filter.mp hw).1, of_decide_eq_true (List.mem_filter.mp hw).2⟩
  have hkeep {k : Text} (hk : k ≠ stored call.src) : Event.removes k ⟨call, r.2⟩ = false := by
    rw [removes_iff hl]
    exact decide_eq_false (Ne.symm hk)
  have hlive {k : Text} (hk : k ≠ stored call.src) :
      live k (s.log ++ [⟨call, r.2⟩]) = live k s.log :=
    live_other (hkeep hk) (by simp [Event.raises, hl]) s.log
  constructor
  · calc r.1.n = r.1.entries.length := (length_entries r.1).symm
      _ ≤ s.board.entries.length := by
        rw [hr]
        exact List.length_filter_le _ _
      _ = s.board.n := length_entries s.board
      _ ≤ healthMaxWarnings := h.room
  · dsimp only
    rw [hr]
    exact h.distinct.sublist (List.filter_sublist.map _)
  · intro w hw
    obtain ⟨hw, hk⟩ := hmem hw
    rw [hlive hk]
    exact h.entry w hw
  · intro k hk
    have hne : k ≠ stored call.src := by
      rintro rfl
      refine hk (live_removed ?_ s.log)
      rw [removes_iff hl]
      exact decide_eq_true rfl
    rw [hlive hne] at hk
    obtain ⟨w, hw, rfl⟩ := h.raised k hk
    refine ⟨w, ?_, rfl⟩
    dsimp only
    rw [hr]
    exact List.mem_filter.mpr ⟨hw, decide_eq_true hne⟩
  · dsimp only
    rw [hr]
    refine (h.order.filter _).imp_of_mem fun {w w'} hw hw' hb => hb.concat ?_
    exact hkeep (of_decide_eq_true (List.mem_filter.mp hw).2)

/-- What a publish that is not refused adds to the history. -/
theorem live_published {e : Event} (hl : e.call.level ≠ healthOk) (hret : e.ret = 0) (k : Text)
    (log : List Event) :
    live k (log ++ [e]) = if k = stored e.call.src then live k log ++ [e] else live k log := by
  by_cases hk : k = stored e.call.src
  · rw [if_pos hk, live_raised (removes_publish hl k)]
    rw [raises_publish hl hret]
    exact decide_eq_true hk.symm
  · rw [if_neg hk, live_other (removes_publish hl k)]
    rw [raises_publish hl hret]
    exact decide_eq_false (Ne.symm hk)

theorem Kept.updating (h : Kept s) (hl : call.level ≠ healthOk) (hret : r.2 = 0)
    (hcount : ∀ w ∈ s.board.entries, w.src = stored call.src → w.count.toNat + 1 < 2 ^ 32)
    (hold : ∃ w ∈ s.board.entries, w.src = stored call.src)
    (hr : r.1.entries = s.board.entries.map fun w =>
      if w.src = stored call.src then w.published call.level call.msg call.now else w) :
    Kept ⟨r.1, s.log ++ [⟨call, r.2⟩]⟩ := by
  have hlive (k : Text) : live k (s.log ++ [⟨call, r.2⟩]) =
      if k = stored call.src then live k s.log ++ [⟨call, r.2⟩] else live k s.log :=
    live_published (e := ⟨call, r.2⟩) hl hret k s.log
  have hsrc (w : Warning) : (if w.src = stored call.src then
      w.published call.level call.msg call.now else w).src = w.src := by
    split <;> rfl
  constructor
  · calc r.1.n = r.1.entries.length := (length_entries r.1).symm
      _ = s.board.entries.length := by rw [hr, List.length_map]
      _ = s.board.n := length_entries s.board
      _ ≤ healthMaxWarnings := h.room
  · dsimp only
    rw [hr, List.map_map]
    have hsame : (Warning.src ∘ fun w => if w.src = stored call.src then
        w.published call.level call.msg call.now else w) = Warning.src := funext hsrc
    rw [hsame]
    exact h.distinct
  · intro w hw
    dsimp only at hw
    rw [hr] at hw
    obtain ⟨v, hv, rfl⟩ := List.mem_map.mp hw
    rw [hsrc, hlive]
    by_cases hk : v.src = stored call.src
    · rw [if_pos hk, if_pos hk]
      exact (h.entry v hv).publish (hcount v hv hk) ⟨call, r.2⟩
    · rw [if_neg hk, if_neg hk]
      exact h.entry v hv
  · intro k hk
    have hfound : ∃ w ∈ s.board.entries, w.src = k := by
      rw [hlive] at hk
      by_cases he : k = stored call.src
      · rw [he]
        exact hold
      · rw [if_neg he] at hk
        exact h.raised k hk
    obtain ⟨w, hw, rfl⟩ := hfound
    refine ⟨_, ?_, hsrc w⟩
    dsimp only
    rw [hr]
    exact List.mem_map_of_mem hw
  · dsimp only
    rw [hr]
    refine List.pairwise_map.mpr (h.order.imp fun {w w'} hb => ?_)
    rw [hsrc, hsrc]
    exact hb.concat (removes_publish hl _)

theorem Kept.refusing (h : Kept s) (hl : call.level ≠ healthOk) (hret : r.2 ≠ 0)
    (hr : r.1 = { s.board with dropped := s.board.dropped + 1 }) :
    Kept ⟨r.1, s.log ++ [⟨call, r.2⟩]⟩ := by
  have hlive (k : Text) : live k (s.log ++ [⟨call, r.2⟩]) = live k s.log :=
    live_other (removes_publish hl k) (raises_refused hret k) s.log
  have hsame : r.1.entries = s.board.entries := by
    rw [hr]
    rfl
  constructor
  · dsimp only
    rw [hr]
    exact h.room
  · dsimp only
    rw [hsame]
    exact h.distinct
  · intro w hw
    dsimp only at hw
    rw [hsame] at hw
    rw [hlive]
    exact h.entry w hw
  · intro k hk
    rw [hlive] at hk
    dsimp only
    rw [hsame]
    exact h.raised k hk
  · dsimp only
    rw [hsame]
    exact h.order.imp fun {w w'} hb => hb.concat (removes_publish hl _)

theorem Kept.raising (h : Kept s) (hl : call.level ≠ healthOk) (hret : r.2 = 0)
    (hnew : ∀ w ∈ s.board.entries, w.src ≠ stored call.src)
    (hn : s.board.n ≠ healthMaxWarnings) (hr : r.1.entries = s.board.entries ++ [call.fresh]) :
    Kept ⟨r.1, s.log ++ [⟨call, r.2⟩]⟩ := by
  have hlive (k : Text) : live k (s.log ++ [⟨call, r.2⟩]) =
      if k = stored call.src then live k s.log ++ [⟨call, r.2⟩] else live k s.log :=
    live_published (e := ⟨call, r.2⟩) hl hret k s.log
  have hnone : live (stored call.src) s.log = [] := by
    by_contra hne
    obtain ⟨w, hw, hk⟩ := h.raised _ hne
    exact hnew w hw hk
  have hsrc : call.fresh.src = stored call.src := rfl
  constructor
  · calc r.1.n = r.1.entries.length := (length_entries r.1).symm
      _ = s.board.n + 1 := by rw [hr, List.length_append, length_entries, List.length_singleton]
      _ ≤ healthMaxWarnings := lt_of_le_of_ne h.room hn
  · dsimp only
    rw [hr, List.map_append, List.map_singleton, hsrc, List.nodup_append]
    refine ⟨h.distinct, List.nodup_singleton _, fun k hk k' hk' he => ?_⟩
    obtain ⟨w, hw, rfl⟩ := List.mem_map.mp hk
    exact hnew w hw (he.trans (List.mem_singleton.mp hk'))
  · intro w hw
    dsimp only at hw
    rw [hr] at hw
    rcases List.mem_append.mp hw with hw | hw
    · rw [hlive, if_neg (hnew w hw)]
      exact h.entry w hw
    · rw [List.mem_singleton.mp hw, hsrc, hlive, if_pos rfl, hnone, List.nil_append]
      exact describes_fresh ⟨call, r.2⟩
  · intro k hk
    dsimp only
    rw [hr]
    rw [hlive] at hk
    by_cases he : k = stored call.src
    · exact ⟨call.fresh, by simp, hsrc.trans he.symm⟩
    · rw [if_neg he] at hk
      obtain ⟨w, hw, hwk⟩ := h.raised k hk
      exact ⟨w, List.mem_append_left _ hw, hwk⟩
  · dsimp only
    rw [hr, List.pairwise_append]
    refine ⟨h.order.imp fun {w w'} hb => hb.concat (removes_publish hl _),
      List.pairwise_singleton _ _, fun w hw w' hw' => ?_⟩
    rw [List.mem_singleton.mp hw', hsrc]
    refine ⟨s.log, [⟨call, r.2⟩], rfl, (h.entry w hw).ne_nil, hnone, fun e he => ?_⟩
    rw [List.mem_singleton.mp he]
    exact removes_publish hl _

theorem Kept.next (h : Kept s) (hright : Right s.board call r)
    (hcount : call.level ≠ healthOk → ∀ w ∈ s.board.entries, w.src = stored call.src →
      w.count.toNat + 1 < 2 ^ 32) : Kept ⟨r.1, s.log ++ [⟨call, r.2⟩]⟩ := by
  unfold Right at hright
  by_cases hl : call.level = healthOk
  · rw [if_pos hl] at hright
    exact h.removing hl hright.1
  · rw [if_neg hl] at hright
    by_cases hold : ∃ w ∈ s.board.entries, w.src = stored call.src
    · rw [if_pos hold] at hright
      exact h.updating hl hright.2.2 (hcount hl) hold hright.1
    · rw [if_neg hold] at hright
      by_cases hn : s.board.n = healthMaxWarnings
      · rw [if_pos hn] at hright
        refine h.refusing hl ?_ hright.1
        rw [hright.2]
        decide
      · rw [if_neg hn] at hright
        exact h.raising hl hright.2.2 (fun w hw he => hold ⟨w, hw, he⟩) hn hright.1

/-- A source that is too long to be stored is not found. -/
theorem Kept.find_long (h : Kept s) {src : Text} (hsrc : ¬ src.length < healthSrcLen) :
    s.board.find src = none := by
  rw [find_entries, List.findIdx?_eq_none_iff]
  intro w hw
  rw [decide_eq_false_iff_not, same_name_iff (h.short hw)]
  exact fun he => hsrc he.2

theorem Kept.fits (h : Kept s) (hright : Right s.board call (call.apply s.board))
    (hnext : Kept (step s call)) : Fits s.board call := by
  constructor
  · by_contra hn
    obtain ⟨hlong, hex⟩ := not_or.mp hn
    have hold : ∃ w ∈ s.board.entries, w.src = stored call.src := by
      by_contra hno
      exact hex fun w hw he => hno ⟨w, hw, he⟩
    have hfind := h.find_long hlong
    unfold Right at hright
    by_cases hl : call.level = healthOk
    · have hclear : s.board.clear call.src = s.board := by rw [BoardArray.clear, hfind]
      rw [if_pos hl, apply_removing hl, hclear] at hright
      obtain ⟨w, hw, hk⟩ := hold
      rw [hright.1] at hw
      exact of_decide_eq_true (List.mem_filter.mp hw).2 hk
    · rw [if_neg hl, if_pos hold, apply_publishing hl, BoardArray.publish, if_neg hl,
        hfind] at hright
      obtain ⟨hentries, -, hret⟩ := hright
      dsimp only at hentries hret
      by_cases hfull : healthMaxWarnings ≤ s.board.n
      · rw [if_pos hfull] at hret
        have hzero : enomem = 0 := hret
        exact absurd hzero (by decide)
      · rw [if_neg hfull] at hentries
        have hlen := congrArg List.length hentries
        rw [length_entries, List.length_map, length_entries] at hlen
        exact absurd hlen (Nat.succ_ne_self _)
  · intro hl w hw hk
    by_contra hwrap
    have hold : ∃ w ∈ s.board.entries, w.src = stored call.src := ⟨w, hw, hk⟩
    unfold Right at hright
    rw [if_neg hl, if_pos hold] at hright
    have hmem : w.published call.level call.msg call.now ∈ (step s call).board.entries := by
      have hm : (step s call).board.entries = _ := hright.1
      rw [hm]
      refine List.mem_map.mpr ⟨w, hw, if_pos hk⟩
    have hd := hnext.entry _ hmem
    have hcount : (w.published call.level call.msg call.now).count.toNat = 0 := by
      have hlt := w.count.toNat_lt
      have hmod : (w.count.toNat + 1) % 2 ^ 32 = 0 := by omega
      rw [Warning.published, UInt32.toNat_add, UInt32.toNat_one, hmod]
    rw [hd.count] at hcount
    exact hd.ne_nil (List.length_eq_zero_iff.mp hcount)

theorem kept_zero : Kept Traced.zero where
  room := Nat.zero_le _
  distinct := List.nodup_nil
  entry _ hw := absurd hw List.not_mem_nil
  raised _ hk := absurd rfl hk
  order := List.Pairwise.nil

/-- Along any calls from a zeroed board, every call does what it should and leaves one
entry for every source that was raised, if and only if every call fits. -/
theorem one_entry_per_source_iff (calls : List Call) :
    Meets step (fun s call => Right s.board call (call.apply s.board) ∧ Kept (step s call))
        Traced.zero calls ↔
      Meets step (fun s call => Fits s.board call) Traced.zero calls := by
  refine meets_iff kept_zero (fun s call h => ⟨fun hr => h.fits hr.1 hr.2, fun hf => ?_⟩)
    (fun s call _ hr => hr.2) calls
  have hr := h.right hf.1
  exact ⟨hr, h.next hr hf.2⟩

/-- A source of sixteen characters that is published twice has two entries, and clearing
it removes neither. -/
theorem long_source_twice :
    let src := text "camera_front_top"
    let calls : List Call :=
      [.publish src healthWarn [] 1, .publish src healthWarn [] 2, .clear src]
    (run step Traced.zero calls).board.entries.map Warning.src =
        [text "camera_front_to", text "camera_front_to"] ∧
      ¬ Meets step (fun s call => Right s.board call (call.apply s.board) ∧ Kept (step s call))
        Traced.zero calls := by
  intro src calls
  have hboard : (run step Traced.zero calls).board.entries.map Warning.src =
      [text "camera_front_to", text "camera_front_to"] := by decide
  refine ⟨hboard, fun h => ?_⟩
  have hk := (each_concat (h := calls.take 2) (e := .clear src)).mp h
  have hd : ((run step Traced.zero calls).board.entries.map Warning.src).Nodup :=
    hk.2.2.distinct
  rw [hboard] at hd
  exact absurd hd (by decide)

end ZephyrApps.WarningBoards
