import ZephyrApps.RingWindows

/-!
# The crash log ring

The ring of `log_ring.c` in the memory that survives a reset: a header of four
words and the bytes. A write is the list of its single stores, in program order,
so that a reset may fall between any two of them.
-/
namespace ZephyrApps.CrashLog
open RingWindows

/-- `LOG_RING_MAGIC` -/
def logRingMagic : UInt32 := 0x4A07BCDE
/-- `LOG_RING_SIZE` -/
def logRingSize : ℕ := 4096

instance neZero_logRingSize : NeZero logRingSize := ⟨by decide⟩

/-- `struct log_ring` -/
structure LogRing where
  magic : UInt32
  head : UInt32
  wrapped : UInt32
  check : UInt32
  buf : Fin logRingSize → UInt8

def checkOf (r : LogRing) : UInt32 := ~~~(r.magic ^^^ r.head ^^^ r.wrapped)

def logRingReset (r : LogRing) : LogRing :=
  let r := { r with magic := logRingMagic, head := 0, wrapped := 0 }
  { r with check := checkOf r }

def logRingValid (r : LogRing) : Bool :=
  decide (r.magic = logRingMagic) && decide (r.head.toNat < logRingSize) &&
    decide (r.wrapped ≤ 1) && decide (r.check = checkOf r)

inductive Store where
  | byte (pos : Fin logRingSize) (value : UInt8)
  | head (value : UInt32)
  | wrapped (value : UInt32)
  | check (value : UInt32)

def Store.apply (r : LogRing) : Store → LogRing
  | .byte i b => { r with buf := Function.update r.buf i b }
  | .head v => { r with head := v }
  | .wrapped v => { r with wrapped := v }
  | .check v => { r with check := v }

def LogRing.after (r : LogRing) (stores : List Store) : LogRing := stores.foldl Store.apply r

/-- `memcpy(&r->buf[head], bytes, …)` -/
def memcpyBuf (head : ℕ) (bytes : List UInt8) (h : head + bytes.length ≤ logRingSize) :
    List Store :=
  List.ofFn fun i : Fin bytes.length => .byte ⟨head + i, by omega⟩ bytes[i]

/-- The `while (len > 0U)` loop of `log_ring_write`: its stores, and the final values
of the locals `head` and `wrapped`. -/
def writeLoop (head : Fin logRingSize) (wrapped : UInt32) (data : List UInt8) :
    List Store × Fin logRingSize × UInt32 :=
  if hd : data = [] then ([], head, wrapped)
  else
    let n := min (logRingSize - head) data.length
    have hn : head + n ≤ logRingSize := by omega
    have hl : (data.drop n).length < data.length := by
      have := List.length_pos_iff.mpr hd
      simp only [List.length_drop]
      omega
    let stores := memcpyBuf head (data.take n) (by simp only [List.length_take]; omega)
    let next : Fin logRingSize × UInt32 :=
      if he : head + n = logRingSize then (0, 1) else (⟨head + n, by omega⟩, wrapped)
    let rest := writeLoop next.1 next.2 (data.drop n)
    (stores ++ rest.1, rest.2)
  termination_by data.length

/-- The stores of `log_ring_write`, in program order. There are none to list when the
header's head is out of range: the code would then write outside the buffer. -/
def writeStores (r : LogRing) (data : List UInt8) : Option (List Store) :=
  if h : r.head.toNat < logRingSize then
    -- only the tail fits anyway
    let data :=
      if logRingSize < data.length then data.drop (data.length - logRingSize) else data
    let (bytes, head, wrapped) := writeLoop ⟨r.head.toNat, h⟩ r.wrapped data
    let head := head.val.toUInt32
    some (bytes ++ [.head head, .wrapped wrapped, .check (checkOf { r with head, wrapped })])
  else none

def logRingWrite (r : LogRing) (data : List UInt8) : Option LogRing :=
  (writeStores r data).map r.after

/-- `memcpy` of `n` bytes from `&r->buf[start]` -/
def LogRing.bytes (r : LogRing) (start n : ℕ) : List UInt8 :=
  ((List.ofFn r.buf).drop start).take n

/-- The bytes that `log_ring_copy` leaves in `out`; their number is what it returns. -/
def logRingCopy (r : LogRing) (cap : ℕ) : List UInt8 :=
  if !logRingValid r || decide (cap = 0) then []
  else
    let total := if r.wrapped ≠ 0 then logRingSize else r.head.toNat
    let start := if r.wrapped ≠ 0 then r.head.toNat else 0
    -- keep the newest `cap` bytes
    let start' := if cap < total then (start + (total - cap)) % logRingSize else start
    let total := if cap < total then cap else total
    let first := min (logRingSize - start') total
    r.bytes start' first ++ r.bytes 0 (total - first)

variable {r : LogRing}

theorem valid_iff : logRingValid r = true ↔ r.magic = logRingMagic ∧ r.head.toNat < logRingSize ∧
    r.wrapped ≤ 1 ∧ r.check = checkOf r := by
  simp [logRingValid, and_assoc]

theorem head_lt (hv : logRingValid r = true) : r.head.toNat < logRingSize :=
  (valid_iff.mp hv).2.1

def LogRing.ring (r : LogRing) (h : r.head.toNat < logRingSize) : Ring UInt8 logRingSize :=
  ⟨r.buf, ⟨r.head.toNat, h⟩, decide (r.wrapped ≠ 0)⟩

theorem bytes_slices {start total : ℕ} (hs : start < logRingSize) (ht : total ≤ logRingSize) :
    r.bytes start (min (logRingSize - start) total) ++
        r.bytes 0 (total - min (logRingSize - start) total) =
      segment r.buf start total := by
  rw [LogRing.bytes, LogRing.bytes, List.drop_zero, segment_slices r.buf hs ht]

/-- A copy is the end of the window. -/
theorem logRingCopy_eq (hv : logRingValid r = true) (cap : ℕ) :
    logRingCopy r cap = (r.ring (head_lt hv)).window.rtake cap := by
  have hh := head_lt hv
  have h0 : 0 < logRingSize := by decide
  by_cases hc : cap = 0
  · simp [logRingCopy, hc]
  -- what the code calls `start` and `total`
  let total := if r.wrapped ≠ 0 then logRingSize else r.head.toNat
  let start := if r.wrapped ≠ 0 then r.head.toNat else 0
  have htotal : total ≤ logRingSize := by
    unfold total
    split
    · exact le_refl _
    · exact hh.le
  have hwindow : (r.ring hh).window = segment r.buf start total := by
    have hheld : (r.ring hh).held = total := by
      simp only [Ring.held, LogRing.ring, decide_eq_true_eq]
      rfl
    rw [Ring.window, hheld, ← segment_mod r.buf start]
    change segment r.buf (r.head.toNat + logRingSize - total) total = _
    rw [← segment_mod]
    congr 1
    unfold total start
    split
    · simp
    · simp
  have hstart : (if cap < total then (start + (total - cap)) % logRingSize else start) <
      logRingSize := by
    split
    · exact Nat.mod_lt _ h0
    · unfold start
      split
      · exact hh
      · exact h0
  have hcopy : logRingCopy r cap =
      segment r.buf (if cap < total then (start + (total - cap)) % logRingSize else start)
        (if cap < total then cap else total) := by
    rw [← bytes_slices hstart (by split <;> omega)]
    simp only [logRingCopy, hv, hc, Bool.not_true, decide_false, Bool.or_self, Bool.false_eq_true,
      if_false]
    rfl
  rw [hcopy, hwindow, segment_rtake]
  by_cases hl : cap < total
  · rw [if_pos hl, if_pos hl, segment_mod]
    congr 1
    omega
  · rw [if_neg hl, if_neg hl]
    congr 1 <;> omega

/-- Single bytes stored around the ring, from `pos` on. -/
def byteStores (pos : ℕ) : List UInt8 → List Store
  | [] => []
  | b :: bs => .byte (Fin.ofNat logRingSize pos) b :: byteStores (pos + 1) bs

@[simp] theorem byteStores_length (pos : ℕ) (bs : List UInt8) :
    (byteStores pos bs).length = bs.length := by
  induction bs generalizing pos with
  | nil => rfl
  | cons b bs ih => simp [byteStores, ih]

theorem byteStores_append (pos : ℕ) (bs bs' : List UInt8) :
    byteStores pos (bs ++ bs') = byteStores pos bs ++ byteStores (pos + bs.length) bs' := by
  induction bs generalizing pos with
  | nil => rfl
  | cons b bs ih =>
    have hp : pos + (bs.length + 1) = pos + 1 + bs.length := by omega
    simp [byteStores, ih, hp]

theorem byteStores_take (pos k : ℕ) (bs : List UInt8) :
    (byteStores pos bs).take k = byteStores pos (bs.take k) := by
  induction bs generalizing pos k with
  | nil => simp [byteStores]
  | cons b bs ih =>
    cases k with
    | zero => rfl
    | succ k => simp [byteStores, ih]

theorem byteStores_mod (pos : ℕ) (bs : List UInt8) :
    byteStores (pos % logRingSize) bs = byteStores pos bs := by
  induction bs generalizing pos with
  | nil => rfl
  | cons b bs ih =>
    have hp : Fin.ofNat logRingSize (pos % logRingSize) = Fin.ofNat logRingSize pos :=
      ofNat_mod pos 0
    rw [byteStores, byteStores, hp, ← ih (pos % logRingSize + 1), Nat.mod_add_mod, ih]

theorem memcpyBuf_eq (head : ℕ) (bytes : List UInt8) (h : head + bytes.length ≤ logRingSize) :
    memcpyBuf head bytes h = byteStores head bytes := by
  induction bytes generalizing head with
  | nil => rfl
  | cons b bytes ih =>
    rw [List.length_cons] at h
    have hs : (⟨head, by omega⟩ : Fin logRingSize) = Fin.ofNat logRingSize head :=
      Fin.ext (Nat.mod_eq_of_lt (by omega)).symm
    rw [byteStores, ← ih (head + 1) (by omega), ← hs]
    simp [memcpyBuf, List.ofFn_succ, Nat.add_assoc, Nat.add_comm 1]

end ZephyrApps.CrashLog
