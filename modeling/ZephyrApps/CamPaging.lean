import Mathlib.Algebra.Group.Nat.Defs
import Mathlib.Data.List.Induction
import ZephyrApps.CamMgmt

/-!
# Paging a frame

A client that repeats READ with the offset increased by what it got, between captures that
succeed or fail. It ends with the whole frame of its number or with `MGMT_ERR_ENOENT`, and
what it has at any time is the beginning of that frame.
-/
namespace ZephyrApps.CamPaging
open VideoBuffers CamMgmt

theorem minOf_toNat (a b : UInt32) : (minOf a b).toNat = min a.toNat b.toNat := by
  unfold minOf
  split
  case isTrue h => exact (Nat.min_eq_left (UInt32.le_of_lt h)).symm
  case isFalse h => exact (Nat.min_eq_right (UInt32.not_lt.mp h)).symm

/-- The arithmetic of a page is that of the numbers; nothing wraps. -/
theorem page_spec (size off want : UInt32) :
    (page size off want).1.toNat = min off.toNat size.toNat ∧
      (page size off want).2.1.toNat =
        min want.toNat (size.toNat - (page size off want).1.toNat) ∧
      ((page size off want).1 + (page size off want).2.1).toNat =
        (page size off want).1.toNat + (page size off want).2.1.toNat ∧
      ((page size off want).2.2 = true ↔
        size.toNat ≤ (page size off want).1.toNat + (page size off want).2.1.toNat) := by
  have hoff := minOf_toNat off size
  have hsub : (size - minOf off size).toNat = size.toNat - (minOf off size).toNat :=
    UInt32.toNat_sub_of_le _ _ (by rw [UInt32.le_iff_toNat_le, hoff]; exact Nat.min_le_right _ _)
  have hwant : (minOf want (size - minOf off size)).toNat =
      min want.toNat (size.toNat - (minOf off size).toNat) := by rw [minOf_toNat, hsub]
  have hlt := size.toNat_lt
  have hadd : (minOf off size + minOf want (size - minOf off size)).toNat =
      (minOf off size).toNat + (minOf want (size - minOf off size)).toNat := by
    rw [UInt32.toNat_add]
    exact Nat.mod_eq_of_lt (by omega)
  refine ⟨hoff, hwant, hadd, decide_eq_true_iff.trans ?_⟩
  rw [UInt32.le_iff_toNat_le, hadd]
  rfl

variable {room : ReadReply → Bool} {cam : Cam} {b : VideoBuffer} {seq off len : UInt32}

/-- A reply with no more data than READ gives can be encoded. -/
def Roomy (room : ReadReply → Bool) : Prop :=
  ∀ reply : ReadReply, reply.data.length ≤ camMgmtReadMax.toNat → room reply = true

theorem length_frame (c : Contents) : c.frame.length = c.bytesused.toNat := by
  rw [Contents.frame, List.length_take]
  exact Nat.min_eq_left c.within

def clampLen (want : UInt32) : UInt32 :=
  if want = 0 ∨ camMgmtReadMax < want then camMgmtReadMax else want

theorem clampLen_bounds (want : UInt32) :
    0 < (clampLen want).toNat ∧ (clampLen want).toNat ≤ camMgmtReadMax.toNat := by
  unfold clampLen
  split
  case isTrue => decide
  case isFalse h =>
    obtain ⟨hne, hle⟩ := not_or.mp h
    have hpos : want.toNat ≠ 0 := fun h0 => hne (UInt32.toNat_inj.mp h0)
    exact ⟨Nat.pos_of_ne_zero hpos, UInt32.not_lt.mp hle⟩

/-- A page of the frame: what follows the offset, to the end exactly if it is the last. -/
theorem camHRead_page (len : UInt32) (hroom : Roomy room) (hb : cam.frameVbuf = some b)
    (hoff : off.toNat ≤ (cam.memory b).frame.length) :
    ∃ reply, camHRead room cam (some ⟨some cam.frameSeq, some off, some len⟩) = .ok reply ∧
      reply.data <+: (cam.memory b).frame.drop off.toNat ∧
      (reply.eof = true ↔ (cam.memory b).frame.length ≤ off.toNat + reply.data.length) ∧
      (reply.eof = false → 0 < reply.data.length) := by
  let c := cam.memory b
  let p := page c.bytesused off (clampLen len)
  obtain ⟨hpos, hmax⟩ := clampLen_bounds len
  obtain ⟨hmin, hcut, -, heof⟩ := page_spec c.bytesused off (clampLen len)
  have hsize : c.frame.length = c.bytesused.toNat := length_frame c
  have hle : off.toNat ≤ c.bytesused.toNat := le_of_le_of_eq hoff hsize
  have hstart : p.1.toNat = off.toNat := hmin.trans (Nat.min_eq_left hle)
  have hwant : p.2.1.toNat = min (clampLen len).toNat (c.bytesused.toNat - p.1.toNat) := hcut
  rw [hstart] at hwant
  have hdata : (c.buffer.drop p.1.toNat).take p.2.1.toNat =
      (c.frame.drop off.toNat).take p.2.1.toNat := by
    have hwithin : min p.2.1.toNat (c.bytesused.toNat - off.toNat) = p.2.1.toNat := by omega
    rw [Contents.frame, List.drop_take, List.take_take, hwithin, hstart]
  have hlength : ((c.frame.drop off.toNat).take p.2.1.toNat).length = p.2.1.toNat := by
    rw [List.length_take, List.length_drop, hsize]
    omega
  let reply : ReadReply := ⟨cam.frameSeq, p.1, (c.frame.drop off.toNat).take p.2.1.toNat, p.2.2⟩
  have hfits : room reply = true := hroom reply (by
    change ((c.frame.drop off.toNat).take p.2.1.toNat).length ≤ _
    omega)
  have hlast : p.2.2 = true ↔ c.frame.length ≤ off.toNat + p.2.1.toNat := by
    rw [hsize, ← hstart]
    exact heof
  refine ⟨reply, ?_, List.take_prefix _ _, ?_, ?_⟩
  · have hread : camHRead room cam (some ⟨some cam.frameSeq, some off, some len⟩) =
        if room ⟨cam.frameSeq, p.1, (c.buffer.drop p.1.toNat).take p.2.1.toNat, p.2.2⟩ then
          .ok ⟨cam.frameSeq, p.1, (c.buffer.drop p.1.toNat).take p.2.1.toNat, p.2.2⟩
        else .error .emsgsize := by
      simp only [camHRead, hb, Option.getD_some, ne_eq, not_true, if_false]
      rfl
    rw [hread, hdata, if_pos hfits]
  · rw [hlength]
    exact hlast
  · intro hmore
    rw [hlength]
    have hnot : ¬ p.2.2 = true := by simp [show p.2.2 = false from hmore]
    rw [hlast] at hnot
    omega

theorem camHRead_gone (h : cam.frameVbuf = none ∨ seq ≠ cam.frameSeq) :
    camHRead room cam (some ⟨some seq, some off, some len⟩) = .error .enoent := by
  unfold camHRead
  cases hb : cam.frameVbuf with
  | none => rfl
  | some b =>
    have hseq : seq ≠ cam.frameSeq := h.resolve_left (by simp [hb])
    exact if_pos hseq

inductive Outcome where
  | eof
  | failed (err : MgmtErr)
  deriving DecidableEq

structure Client where
  off : UInt32
  data : List UInt8
  reads : ℕ
  outcome : Option Outcome

def Client.init : Client := ⟨0, [], 0, none⟩

def Client.receive (c : Client) : Except MgmtErr ReadReply → Client
  | .error err => { c with reads := c.reads + 1, outcome := some (.failed err) }
  | .ok reply =>
    { off := c.off + UInt32.ofNat reply.data.length
      data := c.data ++ reply.data
      reads := c.reads + 1
      outcome := if reply.eof then some .eof else none }

structure World where
  cam : Cam
  captured : List (List UInt8)
  client : Client

inductive Event where
  | capture (calls : CaptureCalls)
  | read (len : UInt32)

/-- The next READ of the client for frame `seq`, if it has not ended. -/
def World.read (room : ReadReply → Bool) (seq : UInt32) (w : World) (len : UInt32) : World :=
  { w with
    client :=
      if w.client.outcome = none then
        w.client.receive (camHRead room w.cam (some ⟨some seq, some w.client.off, some len⟩))
      else w.client }

def World.capture (w : World) (calls : CaptureCalls) : World :=
  let cam := (camMgmtCapture w.cam calls).1
  { w with
    cam
    captured := w.captured ++ (cam.frameVbuf.map fun b => (cam.memory b).frame).toList }

def World.step (room : ReadReply → Bool) (seq : UInt32) (w : World) : Event → World
  | .capture calls => w.capture calls
  | .read len => w.read room seq len

def World.boot (memory : VideoBuffer → Contents) : World where
  cam := ⟨none, 0, ⟨0, 0, 0⟩, ⟨[], [], [], []⟩, memory⟩
  captured := []
  client := .init

def after (room : ReadReply → Bool) (seq : UInt32) (memory : VideoBuffer → Contents)
    (es : List Event) : World := es.foldl (World.step room seq) (World.boot memory)

def Event.isCapture : Event → Bool
  | .capture _ => true
  | .read _ => false

/-- The frame is the one captured as `seq`. -/
def CapturedAs (captured : List (List UInt8)) (seq : UInt32) (frame : List UInt8) : Prop :=
  0 < seq.toNat ∧ captured[seq.toNat - 1]? = some frame

/-- The number counts the frames, and the retained one is the last of them. -/
structure Retained (w : World) : Prop where
  count : w.cam.frameSeq.toNat = w.captured.length
  last : ∀ b, w.cam.frameVbuf = some b →
    CapturedAs w.captured w.cam.frameSeq (w.cam.memory b).frame

variable {w : World} {calls : CaptureCalls}

theorem CapturedAs.append {captured : List (List UInt8)} {frame : List UInt8}
    (h : CapturedAs captured seq frame) (more : List (List UInt8)) :
    CapturedAs (captured ++ more) seq frame := by
  obtain ⟨hpos, hget⟩ := h
  obtain ⟨hlt, -⟩ := List.getElem?_eq_some_iff.mp hget
  exact ⟨hpos, (List.getElem?_append_left hlt).trans hget⟩

theorem CapturedAs.unique {captured : List (List UInt8)} {frame frame' : List UInt8}
    (h : CapturedAs captured seq frame) (h' : CapturedAs captured seq frame') : frame = frame' :=
  Option.some.inj (h.2.symm.trans h'.2)

/-- The new number is one more, while there are fewer than all of them. -/
theorem Retained.capture (h : Retained w) (calls : CaptureCalls)
    (hlt : w.captured.length + 1 < 2 ^ 32) :
    Retained (w.capture calls) ∧ (w.capture calls).captured.length ≤ w.captured.length + 1 := by
  rcases camMgmtCapture_spec w.cam calls with ⟨-, hnone, hseq⟩ | ⟨-, hsome, hseq⟩
  · have hcaptured : (w.capture calls).captured = w.captured := by
      simp [World.capture, hnone]
    have hcount : (w.capture calls).cam.frameSeq.toNat = (w.capture calls).captured.length := by
      rw [hcaptured]
      exact (congrArg UInt32.toNat hseq).trans h.count
    refine ⟨⟨hcount, fun b hb => ?_⟩, ?_⟩
    · exact absurd (hnone.symm.trans hb) (by simp)
    · rw [hcaptured]
      exact Nat.le_succ _
  · obtain ⟨b, hb⟩ := Option.isSome_iff_exists.mp hsome
    have hcaptured : (w.capture calls).captured =
        w.captured ++ [((w.capture calls).cam.memory b).frame] := by
      simp [World.capture, hb]
    have hnext : (w.capture calls).cam.frameSeq.toNat = w.captured.length + 1 := by
      rw [← h.count] at hlt ⊢
      refine (congrArg UInt32.toNat hseq).trans ?_
      rw [UInt32.toNat_add]
      exact Nat.mod_eq_of_lt hlt
    refine ⟨⟨?_, fun b' hb' => ?_⟩, ?_⟩
    · rw [hnext, hcaptured, List.length_append, List.length_singleton]
    · obtain rfl : b = b' := Option.some.inj (hb.symm.trans hb')
      rw [hcaptured]
      refine ⟨by omega, ?_⟩
      rw [hnext, Nat.add_sub_cancel]
      exact List.getElem?_concat_length
    · exact Nat.le_of_eq ((congrArg List.length hcaptured).trans List.length_append)

/-- The number and the size that CAPTURE answers are those of one captured frame. -/
theorem camHCapture_ok {room : CaptureReply → Bool} {ret : Int} {reply : CaptureReply}
    (h : Retained w) (hreply : camHCapture room w.cam ret = .ok reply) :
    ∃ frame, CapturedAs w.captured reply.seq frame ∧ reply.size.toNat = frame.length := by
  unfold camHCapture at hreply
  split at hreply
  · cases hreply
  · split at hreply
    · cases hreply
    next b hb =>
      dsimp only at hreply
      split at hreply
      · cases hreply
        exact ⟨_, h.last b hb, (length_frame _).symm⟩
      · cases hreply

/-- A client has nothing and has not ended well; or it has the beginning of the frame that
was captured as `seq`, and as many bytes as it made READs, and all of the frame at the end. -/
inductive Has (captured : List (List UInt8)) (seq : UInt32) (c : Client) : Prop where
  | nothing (empty : c.data = []) (unread : c.outcome = none → c.reads = 0)
      (unfinished : c.outcome ≠ some .eof)
  | pages {frame : List UInt8} (known : CapturedAs captured seq frame) (start : c.data <+: frame)
      (more : c.outcome = none → c.reads ≤ c.data.length ∧ c.data.length < frame.length)
      (whole : c.outcome = some .eof → c.data = frame)

/-- The offset is that of the data, and no error but one was answered. -/
structure Sound (captured : List (List UInt8)) (seq : UInt32) (c : Client) : Prop where
  off : c.off.toNat = c.data.length
  errors : ∀ err, c.outcome = some (.failed err) → err = .enoent
  has : Has captured seq c

theorem Sound.append {captured : List (List UInt8)} {c : Client} (h : Sound captured seq c)
    (more : List (List UInt8)) : Sound (captured ++ more) seq c := by
  refine ⟨h.off, h.errors, ?_⟩
  cases h.has with
  | nothing empty unread unfinished => exact .nothing empty unread unfinished
  | pages known start more' whole => exact .pages (known.append more) start more' whole

theorem Sound.inside {captured : List (List UInt8)} {c : Client} {frame : List UInt8}
    (h : Sound captured seq c) (hk : CapturedAs captured seq frame) (ho : c.outcome = none) :
    c.data <+: frame ∧ c.reads ≤ c.data.length := by
  cases h.has with
  | nothing empty unread _ =>
    rw [empty, unread ho]
    exact ⟨List.nil_prefix, Nat.le_refl 0⟩
  | pages known start more _ =>
    rw [hk.unique known]
    exact ⟨start, (more ho).1⟩

/-- A client whose READ is refused keeps what it has. -/
theorem Sound.refused {captured : List (List UInt8)} {c : Client} (h : Sound captured seq c) :
    Sound captured seq (c.receive (.error .enoent)) := by
  have hdone : (c.receive (.error .enoent)).outcome = some (.failed .enoent) := rfl
  refine ⟨h.off, fun err he => ?_, ?_⟩
  · cases he
    rfl
  · cases h.has with
    | nothing empty unread _ =>
      exact .nothing empty (fun h => absurd (hdone.symm.trans h) (by simp)) (by simp [hdone])
    | pages known start _ whole =>
      refine .pages known start (fun h => absurd (hdone.symm.trans h) (by simp)) fun h => ?_
      exact absurd (hdone.symm.trans h) (by simp)

/-- A page goes on where the data ends. -/
theorem Sound.paged {captured : List (List UInt8)} {c : Client} {frame : List UInt8}
    {reply : ReadReply} (h : Sound captured seq c) (ho : c.outcome = none)
    (hk : CapturedAs captured seq frame) (hsize : frame.length < 2 ^ 32)
    (hdata : reply.data <+: frame.drop c.off.toNat)
    (heof : reply.eof = true ↔ frame.length ≤ c.off.toNat + reply.data.length)
    (hmore : reply.eof = false → 0 < reply.data.length) :
    Sound captured seq (c.receive (.ok reply)) := by
  obtain ⟨⟨rest, hrest⟩, hreads⟩ := h.inside hk ho
  rw [h.off, ← hrest, List.drop_left] at hdata
  rw [h.off] at heof
  have hstart : c.data ++ reply.data <+: frame := by
    rw [← hrest]
    exact (List.prefix_append_right_inj c.data).mpr hdata
  have hlength : (c.data ++ reply.data).length = c.data.length + reply.data.length :=
    List.length_append
  have hle := hstart.length_le
  refine ⟨?_, fun err he => ?_, .pages hk hstart (fun hnone => ?_) fun hdone => ?_⟩
  · have hoff : (c.off + UInt32.ofNat reply.data.length).toNat =
        c.data.length + reply.data.length := by
      rw [UInt32.toNat_add, UInt32.toNat_ofNat', h.off, Nat.add_mod_mod]
      exact Nat.mod_eq_of_lt (by omega)
    exact hoff.trans hlength.symm
  · cases hend : reply.eof <;> simp [Client.receive, hend] at he
  · have hend : reply.eof = false := by
      cases hend : reply.eof with
      | false => rfl
      | true => simp [Client.receive, hend] at hnone
    have hnot : ¬ frame.length ≤ c.data.length + reply.data.length := by
      rw [← heof, hend]
      exact Bool.false_ne_true
    have hpos := hmore hend
    change c.reads + 1 ≤ (c.data ++ reply.data).length ∧ (c.data ++ reply.data).length < frame.length
    omega
  · have hend : reply.eof = true := by
      cases hend : reply.eof with
      | true => rfl
      | false => simp [Client.receive, hend] at hdone
    have hwhole := heof.mp hend
    exact hstart.eq_of_length_le (by omega)

theorem Sound.read (hroom : Roomy room) (hr : Retained w) (h : Sound w.captured seq w.client) :
    Sound w.captured seq (w.read room seq len).client := by
  by_cases ho : w.client.outcome = none
  · rw [World.read, if_pos ho]
    by_cases hgone : w.cam.frameVbuf = none ∨ seq ≠ w.cam.frameSeq
    · rw [camHRead_gone hgone]
      exact h.refused
    · obtain ⟨hsome, hseq⟩ := not_or.mp hgone
      obtain ⟨b, hb⟩ := Option.ne_none_iff_exists'.mp hsome
      obtain rfl := not_not.mp hseq
      have hknown := hr.last b hb
      have hsize := length_frame (w.cam.memory b)
      have hlt := (w.cam.memory b).bytesused.toNat_lt
      have hoff : w.client.off.toNat ≤ (w.cam.memory b).frame.length := by
        rw [h.off]
        exact (h.inside hknown ho).1.length_le
      obtain ⟨reply, hreply, hdata, heof, hmore⟩ := camHRead_page len hroom hb hoff
      rw [hreply]
      exact h.paged ho hknown (by omega) hdata heof hmore
  · rw [World.read, if_neg ho]
    exact h

structure Fine (seq : UInt32) (w : World) (captures : ℕ) : Prop where
  retained : Retained w
  sound : Sound w.captured seq w.client
  few : w.captured.length ≤ captures

theorem fine_after (hroom : Roomy room) (seq : UInt32) (memory : VideoBuffer → Contents)
    (es : List Event) (hes : es.countP Event.isCapture < 2 ^ 32) :
    Fine seq (after room seq memory es) (es.countP Event.isCapture) := by
  induction es using List.reverseRecOn with
  | nil =>
    refine ⟨⟨rfl, fun b hb => ?_⟩, ⟨rfl, fun err he => ?_, .nothing rfl (fun _ => rfl) ?_⟩,
      Nat.le_refl 0⟩
    · cases hb
    · cases he
    · intro h
      cases h
  | append_singleton es e ih =>
    have hafter : after room seq memory (es ++ [e]) = (after room seq memory es).step room seq e := by
      rw [after, List.foldl_append]
      rfl
    rw [List.countP_append, List.countP_singleton] at hes ⊢
    rw [hafter]
    cases e with
    | capture calls =>
      have hone : (if Event.isCapture (.capture calls) then 1 else 0) = 1 := rfl
      rw [hone] at hes ⊢
      obtain ⟨hretained, hsound, hfew⟩ := ih (by omega)
      obtain ⟨hr, hlen⟩ := hretained.capture calls (by omega)
      exact ⟨hr, hsound.append _, Nat.le_trans hlen (Nat.succ_le_succ hfew)⟩
    | read len =>
      have hzero : (if Event.isCapture (.read len) then 1 else 0) = 0 := rfl
      rw [hzero] at hes ⊢
      obtain ⟨hretained, hsound, hfew⟩ := ih hes
      exact ⟨⟨hretained.count, hretained.last⟩, hsound.read hroom hretained, hfew⟩

/-- In every interleaving with fewer than `2 ^ 32` captures, a client that has ended has the
whole frame captured as `seq` or was answered ENOENT; what it has is the beginning of that
frame; it ends before it has made more READs than the frame has bytes, or at its first. And
no page's arithmetic wraps. -/
theorem paging_whole (room : ReadReply → Bool) (hroom : Roomy room) (seq : UInt32)
    (memory : VideoBuffer → Contents) (es : List Event)
    (hes : es.countP Event.isCapture < 2 ^ 32) :
    let w := after room seq memory es
    (w.client.outcome = none ∨ w.client.outcome = some (.failed .enoent) ∨
      w.client.outcome = some .eof ∧ CapturedAs w.captured seq w.client.data) ∧
    (w.client.data = [] ∨
      ∃ frame, CapturedAs w.captured seq frame ∧ w.client.data <+: frame) ∧
    (w.client.outcome = none → w.client.reads = 0 ∨
      ∃ frame, CapturedAs w.captured seq frame ∧ w.client.reads < frame.length) ∧
    ∀ size off want : UInt32,
      ((page size off want).1 + (page size off want).2.1).toNat =
        (page size off want).1.toNat + (page size off want).2.1.toNat ∧
      (page size off want).1.toNat + (page size off want).2.1.toNat ≤ size.toNat := by
  intro w
  obtain ⟨-, hsound, -⟩ := fine_after hroom seq memory es hes
  refine ⟨?_, ?_, fun ho => ?_, fun size off want => ?_⟩
  · cases hout : w.client.outcome with
    | none => exact Or.inl rfl
    | some outcome =>
      cases outcome with
      | eof =>
        refine Or.inr (Or.inr ⟨rfl, ?_⟩)
        cases hsound.has with
        | nothing _ _ unfinished => exact absurd hout unfinished
        | pages known _ _ whole => rwa [whole hout]
      | failed err =>
        rw [hsound.errors err hout]
        exact Or.inr (Or.inl rfl)
  · cases hsound.has with
    | nothing empty _ _ => exact Or.inl empty
    | pages known start _ _ => exact Or.inr ⟨_, known, start⟩
  · cases hsound.has with
    | nothing _ unread _ => exact Or.inl (unread ho)
    | pages known _ more _ => exact Or.inr ⟨_, known, Nat.lt_of_le_of_lt (more ho).1 (more ho).2⟩
  · obtain ⟨hoff, hwant, hadd, -⟩ := page_spec size off want
    exact ⟨hadd, by omega⟩

def smallCapture : CaptureCalls where
  caps := (0, [⟨1, 2, 1, 10⟩])
  setFormat _ := 0
  getFormat := (0, ⟨1, 2, 1⟩)
  alloc i := some i
  enqueue _ := 0
  streamStart := 0
  filled := 1
  dequeue := 0
  memory _ := ⟨[7, 8, 9, 0], 3, by decide⟩

/-- Two pages of the frame, and no capture between them. -/
theorem paging_whole_small :
    CapturedAs [[7, 8, 9]] 1 (after (fun _ => true) 1 (fun _ => ⟨[], 0, by decide⟩)
      [.capture smallCapture, .read 2, .read 0]).client.data := by
  obtain ⟨hout, -⟩ := paging_whole (fun _ => true) (fun _ _ => rfl) 1
    (fun _ => ⟨[], 0, by decide⟩) [.capture smallCapture, .read 2, .read 0] (by decide)
  rcases hout with h | h | ⟨-, h⟩
  · exact absurd h (by decide)
  · exact absurd h (by decide)
  · exact h

end ZephyrApps.CamPaging
