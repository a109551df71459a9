import ZephyrApps.CrashLog

/-!
# What survives in the crash log

A completed write leaves the end of everything written since the reset; a write
that a reset cuts short leaves either the old header over bytes of which the
oldest may be new, or the new header over the new log.
-/
namespace ZephyrApps.CrashLog
open RingWindows

variable {r : LogRing}

/-- The loop stores the bytes one by one around the ring, whatever its rounds. -/
theorem writeLoop_eq (head : Fin logRingSize) (wrapped : UInt32) (data : List UInt8) :
    writeLoop head wrapped data =
      (byteStores head data, Fin.ofNat logRingSize (head + data.length),
        if logRingSize ≤ head + data.length then 1 else wrapped) := by
  induction hlen : data.length using Nat.strong_induction_on generalizing head wrapped data with
  | _ len ih =>
    have hh := head.isLt
    rw [writeLoop]
    by_cases hd : data = []
    case pos =>
      have hs : Fin.ofNat logRingSize head = head := Fin.ext (Nat.mod_eq_of_lt hh)
      subst hd
      simp only [← hlen, List.length_nil, Nat.add_zero, byteStores, hs, dif_pos,
        if_neg (Nat.not_le_of_lt hh)]
    case neg =>
      rw [dif_neg hd]
      dsimp only
      rw [memcpyBuf_eq]
      obtain ⟨n, hn⟩ : ∃ n, n = min (logRingSize - (head : ℕ)) data.length := ⟨_, rfl⟩
      simp only [← hn]
      have hpos : 0 < data.length := List.length_pos_iff.mpr hd
      have htake : (data.take n).length = n := by
        rw [List.length_take]
        omega
      have hdrop : (data.drop n).length = len - n := by rw [List.length_drop, hlen]
      -- one round, then what the rest of the loop stores
      have hround : byteStores head data =
          byteStores head (data.take n) ++ byteStores (head + n) (data.drop n) := by
        conv_lhs => rw [← List.take_append_drop n data, byteStores_append, htake]
      rw [hround]
      by_cases he : (head : ℕ) + n = logRingSize
      · have hrest := ih (len - n) (by omega) 0 1 (data.drop n) hdrop
        have hzero : byteStores (head + n) (data.drop n) = byteStores 0 (data.drop n) := by
          rw [he, ← byteStores_mod, Nat.mod_self]
        have hsum : (head : ℕ) + len = (len - n) + logRingSize := by omega
        have hfin : Fin.ofNat logRingSize (head + len) = Fin.ofNat logRingSize (len - n) := by
          rw [hsum, ofNat_add_self]
        have hle : logRingSize ≤ head + len := by omega
        simp only [dif_pos he]
        rw [hrest, hzero, hfin, if_pos hle]
        simp
      · have hrest := ih (len - n) (by omega) ⟨head + n, by omega⟩ wrapped (data.drop n) hdrop
        have hsum : (head : ℕ) + n + (len - n) = head + len := by omega
        simp only [dif_neg he]
        rw [hrest, hsum]

/-- Storing bytes from the head on is pushing them, as far as the cells go. -/
theorem after_byteStores (R : Ring UInt8 logRingSize) (hr : r.buf = R.cells)
    (data : List UInt8) :
    r.after (byteStores R.head data) = { r with buf := (R.pushAll data).cells } := by
  induction data generalizing r R with
  | nil => rw [← show r.buf = (R.pushAll []).cells from hr]; rfl
  | cons b data ih =>
    have hs : Fin.ofNat logRingSize R.head = R.head := Fin.ext (Nat.mod_eq_of_lt R.head.isLt)
    have hp : byteStores (R.head + 1) data = byteStores (R.push b).head data :=
      (byteStores_mod (R.head + 1) data).symm
    rw [byteStores, hs, hp]
    exact ih (r := { r with buf := Function.update r.buf R.head b }) (R.push b) (by
      simp only [hr]
      rfl)

def fitting (data : List UInt8) : List UInt8 := data.rtake logRingSize

theorem fitting_eq (data : List UInt8) :
    (if logRingSize < data.length then data.drop (data.length - logRingSize) else data) =
      fitting data := by
  unfold fitting List.rtake
  split
  · rfl
  · rw [Nat.sub_eq_zero_of_le (by omega), List.drop_zero]

/-- The header words that a write of `bytes` leaves. -/
def headAfter (r : LogRing) (bytes : List UInt8) : UInt32 :=
  ((r.head.toNat + bytes.length) % logRingSize).toUInt32

def wrappedAfter (r : LogRing) (bytes : List UInt8) : UInt32 :=
  if logRingSize ≤ r.head.toNat + bytes.length then 1 else r.wrapped

def checkAfter (r : LogRing) (bytes : List UInt8) : UInt32 :=
  checkOf { r with head := headAfter r bytes, wrapped := wrappedAfter r bytes }

theorem writeStores_eq (h : r.head.toNat < logRingSize) (data : List UInt8) :
    writeStores r data =
      some (byteStores r.head.toNat (fitting data) ++
        [.head (headAfter r (fitting data)), .wrapped (wrappedAfter r (fitting data)),
          .check (checkAfter r (fitting data))]) := by
  unfold writeStores
  rw [dif_pos h]
  dsimp only
  rw [fitting_eq, writeLoop_eq]
  simp only [headAfter, wrappedAfter, checkAfter, Fin.val_ofNat]

def LogRing.contents (r : LogRing) : List UInt8 := logRingCopy r logRingSize

theorem rtake_rtake {α : Type*} (l : List α) (m k : ℕ) : (l.rtake m).rtake k = l.rtake (min k m) := by
  simp [List.rtake_eq_reverse_take_reverse, List.take_take]

theorem rtake_of_length_le {α : Type*} {l : List α} {k : ℕ} (h : l.length ≤ k) : l.rtake k = l := by
  rw [List.rtake, Nat.sub_eq_zero_of_le h, List.drop_zero]

/-- A valid header in front of a ring's cells reads as that ring. -/
theorem copy_of_ring (hv : logRingValid r = true) (R : Ring UInt8 logRingSize)
    (hb : r.buf = R.cells) (hh : r.head.toNat = R.head) (hw : decide (r.wrapped ≠ 0) = R.wrapped)
    (cap : ℕ) : logRingCopy r cap = R.window.rtake cap := by
  have hr : r.ring (head_lt hv) = R := by
    obtain ⟨cells, head, wrapped⟩ := R
    subst hb hw
    simp only [LogRing.ring, hh]
  rw [logRingCopy_eq hv, hr]

theorem contents_eq (hv : logRingValid r = true) :
    r.contents = (r.ring (head_lt hv)).window := by
  rw [LogRing.contents, logRingCopy_eq hv, rtake_of_length_le]
  rw [window_length]
  exact held_le _

theorem logRingCopy_contents (hv : logRingValid r = true) (cap : ℕ) :
    logRingCopy r cap = r.contents.rtake cap := by rw [contents_eq hv, logRingCopy_eq hv]

/-- The ring after a completed write of `bytes`. -/
def written (hv : logRingValid r = true) (bytes : List UInt8) : Ring UInt8 logRingSize :=
  (r.ring (head_lt hv)).pushAll bytes

theorem window_written (hv : logRingValid r = true) (data : List UInt8) :
    (written hv (fitting data)).window = (r.contents ++ data).rtake logRingSize := by
  rw [written, window_pushAll, fitting, rtake_append_rtake, contents_eq hv]

theorem headAfter_toNat (hv : logRingValid r = true) (bytes : List UInt8) :
    (headAfter r bytes).toNat = (written hv bytes).head := by
  have hlt : (r.head.toNat + bytes.length) % logRingSize < logRingSize :=
    Nat.mod_lt _ (by decide)
  have hsize : logRingSize < 2 ^ 32 := by decide
  have hhead : ((r.ring (head_lt hv)).head : ℕ) = r.head.toNat := rfl
  rw [written, head_pushAll, hhead, headAfter]
  exact UInt32.toNat_ofNat_of_lt' (hlt.trans hsize)

theorem wrappedAfter_ne (hv : logRingValid r = true) (bytes : List UInt8) :
    decide (wrappedAfter r bytes ≠ 0) = (written hv bytes).wrapped := by
  rw [written, wrapped_pushAll, wrappedAfter]
  change _ = (decide (r.wrapped ≠ 0) || decide (logRingSize ≤ r.head.toNat + bytes.length))
  by_cases h : logRingSize ≤ r.head.toNat + bytes.length
  · simp [h]
  · simp [h]

/-- The memory once all stores of a write of `bytes` are done. -/
def done (hv : logRingValid r = true) (bytes : List UInt8) : LogRing :=
  { r with
    buf := (written hv bytes).cells
    head := headAfter r bytes
    wrapped := wrappedAfter r bytes
    check := checkAfter r bytes }

@[simp] theorem done_buf (hv : logRingValid r = true) (bytes : List UInt8) :
    (done hv bytes).buf = (written hv bytes).cells := rfl
@[simp] theorem done_head (hv : logRingValid r = true) (bytes : List UInt8) :
    (done hv bytes).head = headAfter r bytes := rfl
@[simp] theorem done_wrapped (hv : logRingValid r = true) (bytes : List UInt8) :
    (done hv bytes).wrapped = wrappedAfter r bytes := rfl

theorem after_append (r : LogRing) (ss ss' : List Store) :
    r.after (ss ++ ss') = (r.after ss).after ss' := List.foldl_append

/-- The bytes of a write are stored before its header. -/
theorem after_bytes (hv : logRingValid r = true) (bytes : List UInt8) :
    r.after (byteStores r.head.toNat bytes) = { r with buf := (written hv bytes).cells } :=
  after_byteStores (r.ring (head_lt hv)) rfl bytes

theorem after_stores (hv : logRingValid r = true) (bytes : List UInt8) (hdr : List Store) :
    r.after (byteStores r.head.toNat bytes ++ hdr) =
      ({ r with buf := (written hv bytes).cells } : LogRing).after hdr := by
  rw [after_append, after_bytes hv]

theorem after_all (hv : logRingValid r = true) (bytes : List UInt8) :
    r.after (byteStores r.head.toNat bytes ++ [.head (headAfter r bytes),
      .wrapped (wrappedAfter r bytes), .check (checkAfter r bytes)]) = done hv bytes := by
  rw [after_stores hv]
  rfl

theorem done_valid (hv : logRingValid r = true) (bytes : List UInt8) :
    logRingValid (done hv bytes) = true := by
  obtain ⟨hm, -, hw, -⟩ := valid_iff.mp hv
  refine valid_iff.mpr ⟨hm, ?_, ?_, rfl⟩
  · rw [done_head, headAfter_toNat hv]
    exact (written hv bytes).head.isLt
  · rw [done_wrapped, wrappedAfter]
    split
    · exact UInt32.le_refl 1
    · exact hw

theorem copy_done (hv : logRingValid r = true) (data : List UInt8) (cap : ℕ) :
    logRingCopy (done hv (fitting data)) cap =
      ((r.contents ++ data).rtake logRingSize).rtake cap := by
  rw [copy_of_ring (done_valid hv _) (written hv (fitting data)) (done_buf hv _)
    (by rw [done_head, headAfter_toNat hv]) (by rw [done_wrapped, wrappedAfter_ne hv]),
    window_written]

theorem contents_done (hv : logRingValid r = true) (data : List UInt8) :
    (done hv (fitting data)).contents = (r.contents ++ data).rtake logRingSize := by
  rw [LogRing.contents, copy_done, rtake_rtake, min_self]

theorem logRingWrite_eq (hv : logRingValid r = true) (data : List UInt8) :
    logRingWrite r data = some (done hv (fitting data)) := by
  rw [logRingWrite, writeStores_eq (head_lt hv), Option.map_some, after_all hv]

theorem reset_valid (r : LogRing) : logRingValid (logRingReset r) = true :=
  valid_iff.mpr ⟨rfl, show 0 < logRingSize by decide, show (0 : UInt32) ≤ 1 by decide, rfl⟩

theorem reset_contents (r : LogRing) : (logRingReset r).contents = [] := by
  have hl : (logRingReset r).contents.length = 0 := by
    rw [contents_eq (reset_valid r), window_length]
    rfl
  exact List.length_eq_zero_iff.mp hl

/-- A run of writes keeps the ring valid and appends to the log. -/
theorem contents_writes (hv : logRingValid r = true) (writes : List (List UInt8)) :
    ∃ r', writes.foldlM logRingWrite r = some r' ∧ logRingValid r' = true ∧
      r'.contents = (r.contents ++ writes.flatten).rtake logRingSize := by
  induction writes generalizing r with
  | nil =>
    have hl : r.contents.length ≤ logRingSize := by
      rw [contents_eq hv, window_length]
      exact held_le _
    exact ⟨r, rfl, hv, by simp [rtake_of_length_le hl]⟩
  | cons data writes ih =>
    obtain ⟨r', hr, hv', hc⟩ := ih (done_valid hv (fitting data))
    refine ⟨r', ?_, hv', ?_⟩
    · rw [List.foldlM_cons, logRingWrite_eq hv]
      exact hr
    · rw [hc, contents_done, rtake_rtake_append, List.append_assoc, List.flatten_cons]

/-- After a reset and any writes the ring is valid, and a copy of at most `cap` bytes
is the last of all bytes written. -/
theorem copy_last_written (r : LogRing) (writes : List (List UInt8)) :
    ∃ r', writes.foldlM logRingWrite (logRingReset r) = some r' ∧ logRingValid r' = true ∧
      ∀ cap, logRingCopy r' cap =
        writes.flatten.rtake (min cap (min logRingSize writes.flatten.length)) := by
  obtain ⟨r', hr, hv, hc⟩ := contents_writes (reset_valid r) writes
  refine ⟨r', hr, hv, fun cap => ?_⟩
  have hall : writes.flatten.rtake writes.flatten.length = writes.flatten :=
    rtake_of_length_le le_rfl
  rw [logRingCopy_contents hv, hc, reset_contents, List.nil_append, ← rtake_rtake, ← rtake_rtake,
    hall]

/-- Of the log `old`, at most the oldest `len` bytes have changed. -/
def Damaged (old : List UInt8) (len : ℕ) (log : List UInt8) : Prop :=
  log.length = old.length ∧ log.drop len = old.drop len

/-- The header is as before the write, over the old log damaged at its oldest end. -/
def KeepsOld (r : LogRing) (data : List UInt8) (r' : LogRing) : Prop :=
  r'.head = r.head ∧ r'.wrapped = r.wrapped ∧
    ∃ log, Damaged r.contents data.length log ∧ ∀ cap, logRingCopy r' cap = log.rtake cap

/-- The header is that of the completed write `full`, over the complete new log. -/
def HoldsNew (r : LogRing) (data : List UInt8) (full r' : LogRing) : Prop :=
  r'.head = full.head ∧ r'.wrapped = full.wrapped ∧
    ∀ cap, logRingCopy r' cap = ((r.contents ++ data).rtake logRingSize).rtake cap

variable {r' : LogRing} (hv : logRingValid r = true) (data : List UInt8)
include hv

/-- The old header over bytes of which some are stored. -/
theorem keepsOld_of_bytes (hv' : logRingValid r' = true) {bytes : List UInt8}
    (hlen : bytes.length ≤ data.length) (hb : r'.buf = (written hv bytes).cells)
    (hh : r'.head = r.head) (hw : r'.wrapped = r.wrapped) : KeepsOld r data r' := by
  let R : Ring UInt8 logRingSize := { r.ring (head_lt hv) with cells := (written hv bytes).cells }
  have hd : R.window.drop bytes.length = (r.ring (head_lt hv)).window.drop bytes.length :=
    window_overwritten (r.ring (head_lt hv)) bytes
  refine ⟨hh, hw, R.window, ⟨?_, ?_⟩, fun cap => ?_⟩
  · rw [contents_eq hv, window_length, window_length]
    rfl
  · -- what is spared beyond the bytes stored is spared beyond all of them
    have hsplit : data.length = bytes.length + (data.length - bytes.length) := by omega
    rw [contents_eq hv, hsplit, ← List.drop_drop, ← List.drop_drop, hd]
  · exact copy_of_ring hv' R hb (by rw [hh]; rfl) (by rw [hw]; rfl) cap

/-- All bytes are stored, so a header that reads as the new one heads the new log. -/
theorem cut_header (hv' : logRingValid r' = true)
    (hb : r'.buf = (written hv (fitting data)).cells)
    (hdr : (r'.head = r.head ∧ r'.wrapped = r.wrapped) ∨
      (r'.head = headAfter r (fitting data) ∧ r'.wrapped = wrappedAfter r (fitting data))) :
    KeepsOld r data r' ∨ (¬ (r'.head = r.head ∧ r'.wrapped = r.wrapped) ∧
      HoldsNew r data (done hv (fitting data)) r') := by
  by_cases hs : r'.head = r.head ∧ r'.wrapped = r.wrapped
  · have hlen : (fitting data).length ≤ data.length := by simp [fitting, List.rtake]
    exact Or.inl (keepsOld_of_bytes hv data hv' hlen hb hs.1 hs.2)
  · obtain ⟨hh, hw⟩ := hdr.resolve_left hs
    refine Or.inr ⟨hs, by rw [hh, done_head], by rw [hw, done_wrapped], fun cap => ?_⟩
    rw [copy_of_ring hv' (written hv (fitting data)) hb (by rw [hh, headAfter_toNat hv])
      (by rw [hw, wrappedAfter_ne hv]), window_written]

omit hv data in
theorem after_header (buf : Fin logRingSize → UInt8) (head wrapped check : UInt32) (j : ℕ) :
    let r' := ({ r with buf } : LogRing).after
      (([.head head, .wrapped wrapped, .check check] : List Store).take (j + 1))
    r'.buf = buf ∧ r'.head = head ∧
      (r' = { r with head, buf } ∧ r'.wrapped = r.wrapped ∨ r'.wrapped = wrapped) := by
  rcases j with _ | _ | j
  · exact ⟨rfl, rfl, Or.inl ⟨rfl, rfl⟩⟩
  · exact ⟨rfl, rfl, Or.inr rfl⟩
  · rw [List.take_of_length_le (by simp)]
    exact ⟨rfl, rfl, Or.inr rfl⟩

/-- With the old check word and the old `wrapped`, only the old head is accepted. -/
theorem head_of_check {head : UInt32} {buf : Fin logRingSize → UInt8}
    (hv' : logRingValid { r with head, buf } = true) : head = r.head := by
  have hc : r.check = ~~~(r.magic ^^^ r.head ^^^ r.wrapped) := (valid_iff.mp hv).2.2.2
  have hc' : r.check = ~~~(r.magic ^^^ head ^^^ r.wrapped) := (valid_iff.mp hv').2.2.2
  rw [hc, UInt32.not_inj, UInt32.xor_left_inj, UInt32.xor_right_inj] at hc'
  exact hc'.symm

/-- Whatever prefix of the stores reached the memory: a ring that is accepted keeps the
old header over the old log, of which at most the oldest `data.length` bytes are
overwritten, or it has the new header and holds the whole new log. -/
theorem torn_write :
    ∃ stores full, writeStores r data = some stores ∧ logRingWrite r data = some full ∧
      logRingValid full = true ∧ HoldsNew r data full full ∧
      ∀ k, let r' := r.after (stores.take k)
        logRingValid r' = true →
          KeepsOld r data r' ∨
            (¬ (r'.head = r.head ∧ r'.wrapped = r.wrapped) ∧ HoldsNew r data full r') := by
  refine ⟨_, _, writeStores_eq (head_lt hv) data, logRingWrite_eq hv data, done_valid hv _,
    ⟨rfl, rfl, copy_done hv data⟩, fun k => ?_⟩
  have hlen : (fitting data).length ≤ data.length := by simp [fitting, List.rtake]
  generalize hbytes : fitting data = bytes at hlen
  dsimp only
  intro hv'
  by_cases hk : k ≤ bytes.length
  · -- only bytes are stored
    have htake : (bytes.take k).length ≤ data.length := by
      rw [List.length_take]
      omega
    rw [List.take_append_of_le_length (by simpa using hk), byteStores_take, after_bytes hv] at hv' ⊢
    exact Or.inl (keepsOld_of_bytes hv data hv' htake rfl rfl rfl)
  · -- all bytes are stored, and some of the header
    rw [List.take_append, List.take_of_length_le (by simpa using by omega), byteStores_length,
      after_stores hv] at hv' ⊢
    obtain ⟨j, hj⟩ : ∃ j, k - bytes.length = j + 1 := ⟨k - bytes.length - 1, by omega⟩
    rw [hj] at hv' ⊢
    subst hbytes
    obtain ⟨hb, hh, ⟨he, hw⟩ | hw⟩ := after_header (r := r) (written hv (fitting data)).cells
      (headAfter r (fitting data)) (wrappedAfter r (fitting data)) (checkAfter r (fitting data)) j
    · have hold : headAfter r (fitting data) = r.head := by
        rw [he] at hv'
        exact head_of_check hv hv'
      exact cut_header hv data hv' hb (Or.inl ⟨hh.trans hold, hw⟩)
    · exact cut_header hv data hv' hb (Or.inr ⟨hh, hw⟩)

omit hv data in
/-- A write of two bytes to a ring that holds two others, cut short after the first byte. -/
theorem torn_write_hello :
    ∃ r stores, r = LogRing.mk logRingMagic 2 0 (~~~(logRingMagic ^^^ 2 ^^^ 0))
        (fun i => if i = 0 then 72 else 105) ∧
      r.contents = [72, 105] ∧ writeStores r [33, 10] = some stores ∧
      logRingValid (r.after (stores.take 1)) = true ∧
      KeepsOld r [33, 10] (r.after (stores.take 1)) := by
  refine ⟨_, _, rfl, ?_, writeStores_eq (by decide) _, rfl, ?_⟩
  · rw [contents_eq rfl]
    rfl
  · obtain ⟨stores, full, hs, -, -, -, hcut⟩ := torn_write (r := LogRing.mk logRingMagic 2 0
      (~~~(logRingMagic ^^^ 2 ^^^ 0)) (fun i => if i = 0 then 72 else 105)) rfl [33, 10]
    obtain rfl := Option.some.inj (hs.symm.trans (writeStores_eq (by decide) _))
    -- one byte is stored, so the head is still the old one
    exact (hcut 1 rfl).resolve_right fun h => h.1 ⟨rfl, rfl⟩

end ZephyrApps.CrashLog
