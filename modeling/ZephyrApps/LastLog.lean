import ZephyrApps.CrashLogWindow
import ZephyrApps.DelayableWork

/-!
# The log of the last life

`last_log.c` keeps the log in memory that a reset leaves alone. A life of the board ends at any
store, and the board may be reset again and again before its next log begins.
-/
namespace ZephyrApps.LastLog
open CrashLog DelayableWork RingWindows SystemRuns

/-- The ring, and the snapshot that `last_log_get` hands out. -/
structure Backend where
  ring : LogRing
  snapshot : List UInt8

/-- `init` -/
def init (r : LogRing) : Backend := ⟨logRingReset r, logRingCopy r logRingSize⟩

/-- The ring once `k` of the four stores of `log_ring_reset` are done. -/
def resetAfter (r : LogRing) : ℕ → LogRing
  | 0 => r
  | k + 1 =>
    let r := { r with magic := logRingMagic }
    let check := checkOf { r with head := 0, wrapped := 0 }
    r.after (([.head 0, .wrapped 0, .check check] : List Store).take k)

theorem resetAfter_all (r : LogRing) (k : ℕ) : resetAfter r (k + 4) = logRingReset r := by
  rw [resetAfter]
  dsimp only
  rw [List.take_of_length_le (Nat.le_add_left 3 k)]
  rfl

/-- A life: it logs, and ends within `ring_out` after some of its stores; it ends before `init`, or
within it after some of the stores of `log_ring_reset`; or the power goes. -/
inductive Life where
  | ran (lines : List (List UInt8)) (line : List UInt8) (k : ℕ)
  | early
  | within (k : ℕ)
  | powerOff (garbage : LogRing)

/-- The ring after a life. There is none if `ring_out` writes outside the buffer. -/
def live (r : LogRing) : Life → Option LogRing
  | .ran lines line k =>
    (lines.foldlM logRingWrite (init r).ring).bind fun r =>
      (writeStores r line).map fun stores => r.after (stores.take k)
  | .early => some r
  | .within k => some (resetAfter r k)
  | .powerOff garbage => some garbage

/-- The size of `line_buf`, which is what `ring_out` gets at most. -/
def lineBufSize : ℕ := 128

/-- The newest bytes that fit. -/
def tail (log : List UInt8) : List UInt8 := log.rtake logRingSize

variable {r r' : LogRing}

theorem contents_invalid (h : logRingValid r = false) : r.contents = [] := by
  rw [LogRing.contents, logRingCopy, h]
  rfl

theorem contents_length (r : LogRing) : r.contents.length ≤ logRingSize := by
  cases hv : logRingValid r with
  | true =>
    rw [contents_eq hv, window_length]
    exact held_le _
  | false =>
    rw [contents_invalid hv]
    exact Nat.zero_le _

theorem contents_zero (hh : r.head = 0) (hw : r.wrapped = 0) : r.contents = [] := by
  cases hv : logRingValid r with
  | true =>
    apply List.length_eq_zero_iff.mp
    rw [contents_eq hv, window_length, Ring.held, LogRing.ring]
    simp [hh, hw]
  | false => exact contents_invalid hv

/-- The ring `r` once `log_ring_reset` has been cut short, perhaps again and again: the words of the
header are the old ones or zero, and no byte has changed. -/
structure Erased (r r' : LogRing) : Prop where
  magic : r'.magic = r.magic
  buf : r'.buf = r.buf
  header : (r'.head = r.head ∨ r'.head = 0) ∧ r'.wrapped = r.wrapped ∧ r'.check = r.check ∨
    r'.head = 0 ∧ r'.wrapped = 0

theorem Erased.refl (r : LogRing) : Erased r r := ⟨rfl, rfl, .inl ⟨.inl rfl, rfl, rfl⟩⟩

theorem Erased.step (h : Erased r r') (hm : r.magic = logRingMagic) (k : ℕ) :
    Erased r (resetAfter r' k) := by
  rcases k with _ | _ | _ | _ | k
  · exact h
  · exact ⟨hm.symm, h.buf, h.header⟩
  · refine ⟨hm.symm, h.buf, ?_⟩
    rcases h.header with ⟨-, hw, hc⟩ | ⟨-, hw⟩
    · exact .inl ⟨.inr rfl, hw, hc⟩
    · exact .inr ⟨rfl, hw⟩
  · exact ⟨hm.symm, h.buf, .inr ⟨rfl, rfl⟩⟩
  · rw [resetAfter_all]
    exact ⟨hm.symm, h.buf, .inr ⟨rfl, rfl⟩⟩

/-- A ring that is accepted then reads as before, or as empty. -/
theorem Erased.contents (h : Erased r r') (hv : logRingValid r = true) :
    r'.contents = [] ∨ r'.contents = r.contents := by
  cases hv' : logRingValid r' with
  | false => exact .inl (contents_invalid hv')
  | true =>
    rcases h.header with ⟨hh, hw, hc⟩ | ⟨hh, hw⟩
    · have hr' : r' = { r with head := r'.head, buf := r.buf } := by
        obtain ⟨magic, head, wrapped, check, buf⟩ := r'
        obtain rfl : magic = r.magic := h.magic
        obtain rfl : buf = r.buf := h.buf
        obtain rfl : wrapped = r.wrapped := hw
        obtain rfl : check = r.check := hc
        rfl
      have hhead : r'.head = r.head := head_of_check hv (hr' ▸ hv')
      rw [hhead] at hr'
      exact .inr (congrArg LogRing.contents hr')
    · exact .inl (contents_zero hh hw)

theorem KeepsOld.contents {line : List UInt8} (h : KeepsOld r line r') :
    Damaged r.contents line.length r'.contents := by
  obtain ⟨-, -, log, hd, hcopy⟩ := h
  have hlog : r'.contents = log := by
    rw [LogRing.contents, hcopy]
    apply rtake_of_length_le
    rw [hd.1]
    exact contents_length r
  exact hlog ▸ hd

theorem HoldsNew.contents {line : List UInt8} {full : LogRing} (h : HoldsNew r line full r') :
    r'.contents = tail (r.contents ++ line) := by
  rw [LogRing.contents, h.2.2, rtake_rtake, min_self, tail]

/-- The stores of a write: some of the bytes, or all of them and some of the header. -/
theorem take_stores (pos k : ℕ) (bytes : List UInt8) (hdr : List Store) :
    (byteStores pos bytes ++ hdr).take k = byteStores pos (bytes.take k) ∨
      ∃ j, (byteStores pos bytes ++ hdr).take k = byteStores pos bytes ++ hdr.take (j + 1) := by
  rw [List.take_append, byteStores_length, byteStores_take]
  rcases Nat.lt_or_ge bytes.length k with hk | hk
  · right
    refine ⟨k - bytes.length - 1, ?_⟩
    have hj : k - bytes.length - 1 + 1 = k - bytes.length := by omega
    rw [List.take_of_length_le (Nat.le_of_lt hk), hj]
  · left
    rw [Nat.sub_eq_zero_of_le hk, List.take_zero, List.append_nil]

/-- A ring that is accepted holds the new log, or the old one, of which no more bytes have changed
than were to be written, the oldest. -/
theorem torn_contents (hv : logRingValid r = true) (line : List UInt8) {stores : List Store}
    (hs : writeStores r line = some stores) (k : ℕ) :
    let r' := r.after (stores.take k)
    r'.contents = [] ∨ Damaged r.contents line.length r'.contents ∨
      r'.contents = tail (r.contents ++ line) := by
  intro r'
  rw [writeStores_eq (head_lt hv)] at hs
  obtain rfl := Option.some.inj hs
  have hlen : (fitting line).length ≤ line.length := by simp [fitting, List.rtake]
  cases hv' : logRingValid r' with
  | false => exact .inl (contents_invalid hv')
  | true =>
    right
    have hcut := take_stores r.head.toNat k (fitting line) [.head (headAfter r (fitting line)),
      .wrapped (wrappedAfter r (fitting line)), .check (checkAfter r (fitting line))]
    rcases hcut with hk | ⟨j, hk⟩
    · have hr' : r' = { r with buf := (written hv ((fitting line).take k)).cells } := by
        rw [← after_bytes hv, ← hk]
      have htake : ((fitting line).take k).length ≤ line.length := by
        rw [List.length_take]
        omega
      exact .inl (KeepsOld.contents (keepsOld_of_bytes hv line hv' htake (by rw [hr'])
        (by rw [hr']) (by rw [hr'])))
    · have hr' : r' = ({ r with buf := (written hv (fitting line)).cells } : LogRing).after
          (List.take (j + 1) [.head (headAfter r (fitting line)),
            .wrapped (wrappedAfter r (fitting line)), .check (checkAfter r (fitting line))]) := by
        rw [← after_stores hv, ← hk]
      obtain ⟨hb, hh, hw⟩ := after_header (r := r) (written hv (fitting line)).cells
        (headAfter r (fitting line)) (wrappedAfter r (fitting line)) (checkAfter r (fitting line)) j
      rw [← hr'] at hb hh hw
      have hdr : (r'.head = r.head ∧ r'.wrapped = r.wrapped) ∨
          (r'.head = headAfter r (fitting line) ∧ r'.wrapped = wrappedAfter r (fitting line)) := by
        rcases hw with ⟨he, hw⟩ | hw
        · -- the check word is the old one, so a head that is accepted is the old one
          have hold : headAfter r (fitting line) = r.head := head_of_check hv (he ▸ hv')
          exact .inl ⟨hh.trans hold, hw⟩
        · exact .inr ⟨hh, hw⟩
      rcases cut_header hv line hv' hb hdr with hkeep | ⟨-, hnew⟩
      · exact .inl (KeepsOld.contents hkeep)
      · exact .inr (HoldsNew.contents hnew)

theorem fitting_length (line : List UInt8) : (fitting line).length = min line.length logRingSize := by
  rw [fitting, List.rtake, List.length_drop]
  omega

/-- As long as only bytes are stored, the old log is there but for as many of its oldest bytes. -/
theorem torn_bytes (hv : logRingValid r = true) (line : List UInt8) {stores : List Store}
    (hs : writeStores r line = some stores) {k : ℕ} (hk : k ≤ min line.length logRingSize) :
    Damaged r.contents k (r.after (stores.take k)).contents := by
  rw [← fitting_length] at hk
  rw [writeStores_eq (head_lt hv)] at hs
  obtain rfl := Option.some.inj hs
  have htake : ((fitting line).take k).length = k := by
    rw [List.length_take]
    omega
  rw [List.take_append_of_le_length (by simpa using hk), byteStores_take, after_bytes hv]
  have hkeeps : KeepsOld r ((fitting line).take k)
      { r with buf := (written hv ((fitting line).take k)).cells } :=
    keepsOld_of_bytes hv _ (valid_iff.mpr (valid_iff.mp hv)) le_rfl rfl rfl rfl
  have hdamaged := KeepsOld.contents hkeeps
  rwa [htake] at hdamaged

theorem torn_done (hv : logRingValid r = true) (line : List UInt8) {stores : List Store}
    (hs : writeStores r line = some stores) {k : ℕ} (hk : min line.length logRingSize + 3 ≤ k) :
    (r.after (stores.take k)).contents = tail (r.contents ++ line) := by
  rw [← fitting_length] at hk
  rw [writeStores_eq (head_lt hv)] at hs
  obtain rfl := Option.some.inj hs
  rw [List.take_of_length_le (by simpa using hk), after_all hv, contents_done, tail]

theorem stored_header (r : LogRing) (head wrapped check : UInt32) (j : ℕ) :
    let r' := r.after (([.head head, .wrapped wrapped, .check check] : List Store).take (j + 1))
    r' = { r with head } ∨ r' = { r with head, wrapped } ∨ r' = { r with head, wrapped, check } := by
  rcases j with _ | _ | j
  · exact .inl rfl
  · exact .inr (.inl rfl)
  · rw [List.take_of_length_le (by simp)]
    exact .inr (.inr rfl)

/-- Over the old check word a cleared head is accepted only where the old one was zero, since a line
is too short to go around the ring. -/
theorem cleared_head (hv : logRingValid r = true) {line : List UInt8}
    (hline : line.length ≤ lineBufSize) {buf : Fin logRingSize → UInt8}
    (hv' : logRingValid { r with
      head := 0, wrapped := wrappedAfter r (fitting line), buf } = true) :
    r.head = 0 ∧ wrappedAfter r (fitting line) = r.wrapped := by
  by_cases hw : wrappedAfter r (fitting line) = r.wrapped
  · rw [hw] at hv'
    exact ⟨(head_of_check hv hv').symm, hw⟩
  exfalso
  have hlen : (fitting line).length ≤ lineBufSize := by
    rw [fitting_length]
    omega
  have haround : logRingSize ≤ r.head.toNat + (fitting line).length := by
    by_contra hlt
    exact hw (if_neg hlt)
  have hone : wrappedAfter r (fitting line) = 1 := if_pos haround
  obtain ⟨-, -, hle, hcheck⟩ := valid_iff.mp hv
  have hcheck' := (valid_iff.mp hv').2.2.2
  have hzero : r.wrapped = 0 := by
    rw [hone] at hw
    rw [UInt32.le_iff_toNat_le] at hle
    have hne : r.wrapped.toNat ≠ 1 := fun h => hw (UInt32.toNat_inj.mp h).symm
    have h1 : (1 : UInt32).toNat = 1 := rfl
    exact UInt32.toNat_inj.mp (by rw [UInt32.toNat_zero]; omega)
  -- the old head would have to be 1
  have hhead : r.head = 1 := by
    have hsame : r.magic ^^^ r.head ^^^ r.wrapped = r.magic ^^^ 0 ^^^ 1 := by
      rw [hone] at hcheck'
      exact UInt32.not_inj.mp (hcheck.symm.trans hcheck')
    rw [hzero, UInt32.xor_zero, UInt32.xor_zero, UInt32.xor_right_inj] at hsame
    exact hsame
  rw [hhead] at haround
  have h1 : (1 : UInt32).toNat = 1 := rfl
  simp only [h1, logRingSize, lineBufSize] at haround hlen
  omega

/-- Clearing the head makes a cut header acceptable only where the words are the old ones. -/
theorem cleared_cut {cells : Fin logRingSize → UInt8} {head wrapped check : UInt32} {j : ℕ}
    (hv : logRingValid r = true)
    (hclear : ∀ buf, logRingValid { r with head := 0, wrapped, buf } = true →
      r.head = 0 ∧ wrapped = r.wrapped)
    (hdone : logRingValid { r with head, wrapped, check, buf := cells } = true)
    (hr' : r' = ({ r with buf := cells } : LogRing).after
      (([.head head, .wrapped wrapped, .check check] : List Store).take (j + 1)))
    (hcut : logRingValid r' = false) (hv' : logRingValid { r' with head := 0 } = true) :
    r'.buf = cells ∧ r.head = 0 ∧ r'.wrapped = r.wrapped := by
  rcases stored_header { r with buf := cells } head wrapped check j with hr | hr | hr
  · obtain rfl := hr'.trans hr
    have hold : (0 : UInt32) = r.head := head_of_check hv hv'
    exact ⟨rfl, hold.symm, rfl⟩
  · obtain rfl := hr'.trans hr
    exact ⟨rfl, hclear cells hv'⟩
  · obtain rfl := hr'.trans hr
    exact absurd (hcut.symm.trans hdone) Bool.false_ne_true

/-- A write that was cut short, and the head cleared. -/
theorem torn_cleared (hv : logRingValid r = true) {line : List UInt8}
    (hline : line.length ≤ lineBufSize) {stores : List Store}
    (hs : writeStores r line = some stores) {k : ℕ} (hr' : r' = r.after (stores.take k))
    (hcut : logRingValid r' = false) (hv' : logRingValid { r' with head := 0 } = true) :
    Damaged r.contents line.length { r' with head := 0 }.contents := by
  rw [writeStores_eq (head_lt hv)] at hs
  obtain rfl := Option.some.inj hs
  have hlen : (fitting line).length ≤ line.length := by
    rw [fitting_length]
    omega
  rcases take_stores r.head.toNat k (fitting line) [.head (headAfter r (fitting line)),
    .wrapped (wrappedAfter r (fitting line)), .check (checkAfter r (fitting line))] with hk | ⟨j, hk⟩
  · -- bytes alone leave a ring that is accepted
    rw [hk, after_bytes hv] at hr'
    rw [hr'] at hcut
    exact absurd (hcut.symm.trans (valid_iff.mpr (valid_iff.mp hv))) Bool.false_ne_true
  · rw [hk, after_stores hv] at hr'
    obtain ⟨hb, h0, hw⟩ := cleared_cut hv (fun buf => cleared_head hv hline)
      (done_valid hv (fitting line)) hr' hcut hv'
    exact KeepsOld.contents (keepsOld_of_bytes hv line hv' hlen hb h0.symm hw)

/-- Resets within `init` after a write that was cut short leave what the cut left, or nothing. -/
theorem torn_erased (hv : logRingValid r = true) {line : List UInt8}
    (hline : line.length ≤ lineBufSize) {stores : List Store}
    (hs : writeStores r line = some stores) (k : ℕ) (he : Erased (r.after (stores.take k)) r') :
    r'.contents = [] ∨ Damaged r.contents line.length r'.contents ∨
      r'.contents = tail (r.contents ++ line) := by
  cases hv' : logRingValid r' with
  | false => exact .inl (contents_invalid hv')
  | true =>
    cases hcut : logRingValid (r.after (stores.take k)) with
    | true =>
      rcases he.contents hcut with hnone | hsame
      · exact .inl hnone
      · rw [hsame]
        exact torn_contents hv line hs k
    | false =>
      rcases he.header with ⟨hh, hw, hc⟩ | ⟨hh, hw⟩
      · have hr' : r' = { r.after (stores.take k) with head := r'.head } := by
          obtain ⟨magic, head, wrapped, check, buf⟩ := r'
          obtain rfl : magic = _ := he.magic
          obtain rfl : buf = _ := he.buf
          obtain rfl : wrapped = _ := hw
          obtain rfl : check = _ := hc
          rfl
        rcases hh with hh | hh
        · rw [hr', hh] at hv'
          exact absurd (hcut.symm.trans hv') Bool.false_ne_true
        · rw [hh] at hr'
          rw [hr'] at hv' ⊢
          exact .inr (.inl (torn_cleared hv hline hs rfl hcut hv'))
      · exact .inl (contents_zero hh hw)

/-- A life that ends before the log has begun. -/
def Life.Short : Life → Prop
  | .early => True
  | .within _ => True
  | _ => False

/-- What a life has logged, up to the line that it ends in. -/
theorem ran_eq (r : LogRing) (lines : List (List UInt8)) (line : List UInt8) (k : ℕ) :
    ∃ r' stores, logRingValid r' = true ∧ r'.contents = tail lines.flatten ∧
      writeStores r' line = some stores ∧
        live r (.ran lines line k) = some (r'.after (stores.take k)) := by
  obtain ⟨r', hr, hv, hc⟩ := contents_writes (reset_valid r) lines
  rw [reset_contents, List.nil_append] at hc
  have hstores := writeStores_eq (head_lt hv) line
  refine ⟨r', _, hv, hc, hstores, ?_⟩
  rw [live, init, hr, Option.bind_some, hstores, Option.map_some]

theorem live_some (r : LogRing) (l : Life) : ∃ r', live r l = some r' := by
  cases l with
  | ran lines line k =>
    obtain ⟨r', stores, -, -, -, hr⟩ := ran_eq r lines line k
    exact ⟨_, hr⟩
  | early => exact ⟨r, rfl⟩
  | within k => exact ⟨_, rfl⟩
  | powerOff garbage => exact ⟨_, rfl⟩

theorem lives_some (r : LogRing) (lives : List Life) : ∃ r', runFrom live r lives = some r' := by
  induction lives generalizing r with
  | nil => exact ⟨r, rfl⟩
  | cons l lives ih =>
    obtain ⟨r', hr⟩ := live_some r l
    obtain ⟨r'', hrest⟩ := ih r'
    refine ⟨r'', ?_⟩
    rw [runFrom, hr, Option.bind_some, hrest]

/-- Short lives leave the ring as it was, or erase it. -/
theorem short_lives (hm : r.magic = logRingMagic) {lives : List Life} (h : ∀ l ∈ lives, l.Short)
    (he : Erased r r') : ∃ r'', runFrom live r' lives = some r'' ∧ Erased r r'' := by
  induction lives generalizing r' with
  | nil => exact ⟨r', rfl, he⟩
  | cons l lives ih =>
    have hrest : ∀ l ∈ lives, l.Short := fun l hl => h l (List.mem_cons_of_mem _ hl)
    cases l with
    | ran lines line k => exact (h _ List.mem_cons_self).elim
    | powerOff garbage => exact (h _ List.mem_cons_self).elim
    | early =>
      obtain ⟨r'', hr, he'⟩ := ih hrest he
      exact ⟨r'', hr, he'⟩
    | within k =>
      obtain ⟨r'', hr, he'⟩ := ih hrest (he.step hm k)
      exact ⟨r'', hr, he'⟩

/-- No store of a write is to the magic word. -/
theorem after_magic (r : LogRing) (stores : List Store) : (r.after stores).magic = r.magic := by
  induction stores generalizing r with
  | nil => rfl
  | cons s stores ih =>
    refine (ih (s.apply r)).trans ?_
    cases s <;> rfl

theorem early_lives (r : LogRing) {lives : List Life} (h : ∀ l ∈ lives, l = .early) :
    runFrom live r lives = some r := by
  induction lives with
  | nil => rfl
  | cons l lives ih =>
    rw [h l List.mem_cons_self, runFrom, live, Option.bind_some]
    exact ih fun l hl => h l (List.mem_cons_of_mem _ hl)

/-- A life and those after it, whatever came before. -/
theorem lives_from (g : LogRing) (before : List Life) (l : Life) (loops : List Life) :
    ∃ r, runFrom live g (before ++ l :: loops) = (live r l).bind fun r => runFrom live r loops := by
  obtain ⟨r, hr⟩ := lives_some g before
  refine ⟨r, ?_⟩
  rw [runFrom_append, hr, Option.bind_some, runFrom]

/-- The snapshot is the last log, whatever lives came before. After a life that was not cut within
`ring_out` and any number of short lives it is the newest bytes of that life's log, as many as fit;
or nothing, if a reset fell within `init`. After a life that was cut within `ring_out` it is nothing,
or that log with at most as many of its oldest bytes damaged as were to be written, or the log with
all that was to be written. If no reset fell within `init`, a cut among the bytes damages no more
than were stored, and only a cut among the stores of the header can leave nothing. After the power
has gone the snapshot is nothing, unless the memory passes for a ring. -/
theorem last_log_told (g : LogRing) (before : List Life) (lines : List (List UInt8))
    (line : List UInt8) (k : ℕ) (loops : List Life) (hloops : ∀ l ∈ loops, l.Short) :
    (∃ r, runFrom live g (before ++ .ran lines line k :: loops) = some r ∧
      let log := (init r).snapshot
      (k = 0 → log = [] ∨ log = tail lines.flatten) ∧
      (line.length ≤ lineBufSize → log = [] ∨ Damaged (tail lines.flatten) line.length log ∨
        log = tail (lines.flatten ++ line)) ∧
      ((∀ l ∈ loops, l = .early) →
        (log = [] ∨ Damaged (tail lines.flatten) line.length log ∨
          log = tail (lines.flatten ++ line)) ∧
        (k ≤ min line.length logRingSize → Damaged (tail lines.flatten) k log) ∧
        (min line.length logRingSize + 3 ≤ k → log = tail (lines.flatten ++ line)))) ∧
      ∀ garbage, logRingValid garbage = false → (∀ l ∈ loops, l = .early) →
        ∃ r, runFrom live g (before ++ .powerOff garbage :: loops) = some r ∧
          (init r).snapshot = [] := by
  constructor
  · obtain ⟨r, hr⟩ := lives_some g (before ++ .ran lines line k :: loops)
    refine ⟨r, hr, ?_⟩
    obtain ⟨r0, hrun⟩ := lives_from g before (.ran lines line k) loops
    obtain ⟨r', stores, hv, hc, hs, hlive⟩ := ran_eq r0 lines line k
    rw [hr, hlive, Option.bind_some] at hrun
    have hnew : tail (r'.contents ++ line) = tail (lines.flatten ++ line) := by
      rw [hc, tail, tail, tail, rtake_rtake_append]
    have hmagic : (r'.after (stores.take k)).magic = logRingMagic :=
      (after_magic r' _).trans (valid_iff.mp hv).1
    rw [← hc, ← hnew]
    refine ⟨fun hk => ?_, fun hline => ?_, fun hearly => ?_⟩
    · rw [hk, List.take_zero] at hrun
      obtain ⟨r'', hr'', he⟩ := short_lives (valid_iff.mp hv).1 hloops (.refl r')
      cases hrun.trans hr''
      exact he.contents hv
    · obtain ⟨r'', hr'', he⟩ := short_lives hmagic hloops (.refl _)
      cases hrun.trans hr''
      exact torn_erased hv hline hs k he
    · cases hrun.trans (early_lives _ hearly)
      exact ⟨torn_contents hv line hs k, torn_bytes hv line hs, torn_done hv line hs⟩
  · intro garbage hgarbage hearly
    obtain ⟨r0, hrun⟩ := lives_from g before (.powerOff garbage) loops
    rw [live, Option.bind_some, early_lives garbage hearly] at hrun
    exact ⟨garbage, hrun, contents_invalid hgarbage⟩

/-- A board logs a line and is reset as it stores the first byte of a second one, then again before
and within `init`. Without the resets within `init` the first line is there, but for its first byte. -/
theorem last_log_told_reset :
    (∃ r, runFrom live ⟨0, 0, 0, 0, fun _ => 0⟩
      [.ran [[72, 105, 10]] [33, 10] 1, .early, .within 2] = some r ∧
      ((init r).snapshot = [] ∨ Damaged (tail [72, 105, 10]) 2 (init r).snapshot ∨
        (init r).snapshot = tail [72, 105, 10, 33, 10])) ∧
    ∃ r, runFrom live ⟨0, 0, 0, 0, fun _ => 0⟩ [.ran [[72, 105, 10]] [33, 10] 1, .early] = some r ∧
      Damaged (tail [72, 105, 10]) 1 (init r).snapshot := by
  constructor
  · obtain ⟨r, hr, -, hlog, -⟩ := (last_log_told ⟨0, 0, 0, 0, fun _ => 0⟩ [] [[72, 105, 10]] [33, 10] 1
      [.early, .within 2] (by simp [Life.Short])).1
    exact ⟨r, hr, hlog (by decide)⟩
  · obtain ⟨r, hr, -, -, hearly⟩ := (last_log_told ⟨0, 0, 0, 0, fun _ => 0⟩ [] [[72, 105, 10]]
      [33, 10] 1 [.early] (by simp [Life.Short])).1
    exact ⟨r, hr, (hearly (by simp)).2.1 (by decide)⟩

end ZephyrApps.LastLog
