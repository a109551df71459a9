import ZephyrApps.VideoBuffers

/-!
# The camera group of MCUmgr

`cam_mgmt.c`. A captured frame stays in its buffer until the next capture, which gives the
buffer back first. What the camera's driver and the allocator return is an argument of a
capture, and so is what the driver has written to the buffers by its end; the driver
writes to no buffer that it has handed over.
-/
namespace ZephyrApps.CamMgmt
open VideoBuffers

/-- What a buffer holds: at least the bytes that are used. -/
structure Contents where
  buffer : List UInt8
  bytesused : UInt32
  within : bytesused.toNat ≤ buffer.length

def Contents.frame (c : Contents) : List UInt8 := c.buffer.take c.bytesused.toNat

/-- One of the formats of `video_caps`, with its `video_bits_per_pixel`. -/
structure FormatCap where
  pixelformat : UInt32
  widthMax : UInt32
  heightMax : UInt32
  bpp : ℕ

/-- The parts of `struct video_format` that are reported. -/
structure VideoFormat where
  pixelformat : UInt32
  width : UInt32
  height : UInt32

/-- `MIN` -/
def minOf (a b : UInt32) : UInt32 := if a < b then a else b

/-- `CAPTURE_MAX_WIDTH` -/
def captureMaxWidth : UInt32 := 1640
/-- `CAPTURE_MAX_HEIGHT` -/
def captureMaxHeight : UInt32 := 1232

/-- `-ENOTSUP`, `-ENOMEM` and `-EAGAIN` -/
def enotsup : Int := -134
def enomem : Int := -12
def eagain : Int := -11

/-- The loop of `cam_pick_format` over the formats before the one that ends the list. -/
def pickLoop (best : Option (ℕ × VideoFormat)) : List FormatCap → Option (ℕ × VideoFormat)
  | [] => best
  | cap :: caps =>
    if cap.bpp ≤ best.elim 0 Prod.fst then pickLoop best caps
    else
      pickLoop (some (cap.bpp, ⟨cap.pixelformat, minOf cap.widthMax captureMaxWidth,
        minOf cap.heightMax captureMaxHeight⟩)) caps

/-- `cam_pick_format` of what `video_get_caps` returned. -/
def camPickFormat (caps : Int × List FormatCap) : Except Int VideoFormat :=
  if caps.1 < 0 then .error caps.1
  else
    match pickLoop none caps.2 with
    | none => .error enotsup
    | some (_, fmt) => .ok fmt

/-- What the calls of a capture return; `enqueue` and `alloc` are for its two buffers. -/
structure CaptureCalls where
  caps : Int × List FormatCap
  setFormat : VideoFormat → Int
  getFormat : Int × VideoFormat
  alloc : Fin 2 → Option VideoBuffer
  enqueue : Fin 2 → Int
  streamStart : Int
  /-- how many buffers are filled in time -/
  filled : ℕ
  dequeue : Int
  memory : VideoBuffer → Contents

/-- The statics of `cam_mgmt.c`, and the video subsystem. -/
structure Cam where
  frameVbuf : Option VideoBuffer
  frameSeq : UInt32
  frameFmt : VideoFormat
  video : Video
  memory : VideoBuffer → Contents

/-- The loop that gives the driver its buffers; what it returns is negative if it goes to
`drain`. -/
def queueBuffers (calls : CaptureCalls) : List (Fin 2) → Video → Video × Int
  | [], v => (v, 0)
  | i :: rest, v =>
    match calls.alloc i with
    | none => (v, enomem)
    | some b =>
      if calls.enqueue i < 0 then ((v.alloc b).release b, calls.enqueue i)
      else queueBuffers calls rest ((v.alloc b).enqueue b)

/-- What stands at `drain`: all but the retained frame go back. -/
def Cam.drain (cam : Cam) : Cam :=
  { cam with
    video := cam.video.stop.done.foldl (fun v b =>
      if some b ≠ cam.frameVbuf then (v.dequeue b).release b else v.dequeue b) cam.video.stop }

def Cam.released (cam : Cam) : Cam :=
  { cam with
    frameVbuf := none
    video := cam.frameVbuf.elim cam.video cam.video.release }

/-- `cam_mgmt_capture` from its first buffer on. -/
def captureFrame (cam : Cam) (calls : CaptureCalls) : Cam × Int :=
  let (video, ret) := queueBuffers calls (List.finRange 2) cam.video
  if ret < 0 then (Cam.drain { cam with video }, ret)
  else if calls.streamStart < 0 then (Cam.drain { cam with video }, calls.streamStart)
  else
    let video := video.fill calls.filled
    if calls.dequeue < 0 then (Cam.drain { cam with video }, calls.dequeue)
    else
      match video.done with
      | [] => (Cam.drain { cam with video }, eagain)
      | b :: _ =>
        (Cam.drain { cam with
          video := video.dequeue b, frameVbuf := some b, frameSeq := cam.frameSeq + 1 },
          calls.dequeue)

/-- `cam_mgmt_capture` -/
def camMgmtCapture (cam : Cam) (calls : CaptureCalls) : Cam × Int :=
  let cam := cam.released
  match camPickFormat calls.caps with
  | .error ret => (cam, ret)
  | .ok fmt =>
    if calls.setFormat fmt < 0 then (cam, calls.setFormat fmt)
    else if calls.getFormat.1 < 0 then (cam, calls.getFormat.1)
    else captureFrame { cam with frameFmt := calls.getFormat.2, memory := calls.memory } calls

inductive MgmtErr where
  | eunknown
  | einval
  | enoent
  | emsgsize
  deriving DecidableEq

structure CaptureReply where
  seq : UInt32
  size : UInt32
  fmt : VideoFormat

/-- `cam_h_capture` once `cam_mgmt_capture` has returned `ret`, by which time another
capture may have come; `room` tells whether a reply can be encoded. -/
def camHCapture (room : CaptureReply → Bool) (cam : Cam) (ret : Int) :
    Except MgmtErr CaptureReply :=
  if ret < 0 then .error .eunknown
  else
    match cam.frameVbuf with
    | none => .error .enoent
    | some b =>
      let reply := ⟨cam.frameSeq, (cam.memory b).bytesused, cam.frameFmt⟩
      if room reply then .ok reply else .error .emsgsize

/-- `CAM_MGMT_READ_MAX` -/
def camMgmtReadMax : UInt32 := 1024

structure ReadRequest where
  seq : Option UInt32
  off : Option UInt32
  len : Option UInt32

structure ReadReply where
  seq : UInt32
  off : UInt32
  data : List UInt8
  eof : Bool

def page (size off want : UInt32) : UInt32 × UInt32 × Bool :=
  let off := minOf off size
  let want := minOf want (size - off)
  (off, want, decide (size ≤ off + want))

/-- `cam_h_read` of a request that `zcbor_map_decode_bulk` took, or did not take. -/
def camHRead (room : ReadReply → Bool) (cam : Cam) (request : Option ReadRequest) :
    Except MgmtErr ReadReply :=
  match request with
  | none => .error .einval
  | some request =>
    let seq := request.seq.getD 0
    let want := request.len.getD camMgmtReadMax
    let want := if want = 0 ∨ camMgmtReadMax < want then camMgmtReadMax else want
    match cam.frameVbuf with
    | none => .error .enoent
    | some b =>
      if seq ≠ cam.frameSeq then .error .enoent
      else
        let (off, want, eof) := page (cam.memory b).bytesused (request.off.getD 0) want
        let reply := ⟨seq, off, ((cam.memory b).buffer.drop off.toNat).take want.toNat, eof⟩
        if room reply then .ok reply else .error .emsgsize

variable {cam : Cam} {calls : CaptureCalls}

@[simp] theorem drain_frameVbuf (cam : Cam) : cam.drain.frameVbuf = cam.frameVbuf := rfl
@[simp] theorem drain_frameSeq (cam : Cam) : cam.drain.frameSeq = cam.frameSeq := rfl

/-- A failed capture leaves no frame and the number of the last one; a successful one
leaves a frame under the next number. -/
def Captured (cam : Cam) (r : Cam × Int) : Prop :=
  (r.2 < 0 ∧ r.1.frameVbuf = none ∧ r.1.frameSeq = cam.frameSeq) ∨
    (0 ≤ r.2 ∧ r.1.frameVbuf.isSome ∧ r.1.frameSeq = cam.frameSeq + 1)

theorem captureFrame_spec (h : cam.frameVbuf = none) : Captured cam (captureFrame cam calls) := by
  unfold captureFrame
  by_cases hq : (queueBuffers calls (List.finRange 2) cam.video).2 < 0
  · exact Or.inl (by simp [hq, h])
  by_cases hs : calls.streamStart < 0
  · exact Or.inl (by simp [hq, hs, h])
  by_cases hd : calls.dequeue < 0
  · exact Or.inl (by simp [hq, hs, hd, h])
  simp only [if_neg hq, if_neg hs, if_neg hd]
  split
  next =>
    have hret : eagain < 0 := by decide
    exact Or.inl ⟨hret, h, rfl⟩
  next b _ _ => exact Or.inr ⟨Int.not_lt.mp hd, rfl, rfl⟩

theorem camPickFormat_error {caps : Int × List FormatCap} {ret : Int}
    (h : camPickFormat caps = .error ret) : ret < 0 := by
  unfold camPickFormat at h
  split at h
  next hret =>
    cases h
    exact hret
  next =>
    split at h
    · cases h
      decide
    · cases h

theorem camMgmtCapture_spec (cam : Cam) (calls : CaptureCalls) :
    Captured cam (camMgmtCapture cam calls) := by
  unfold camMgmtCapture
  cases hfmt : camPickFormat calls.caps with
  | error ret => exact Or.inl ⟨camPickFormat_error hfmt, rfl, rfl⟩
  | ok fmt =>
    by_cases hset : calls.setFormat fmt < 0
    · exact Or.inl (by simp [hset, Cam.released])
    by_cases hget : calls.getFormat.1 < 0
    · exact Or.inl (by simp [hset, hget, Cam.released])
    simp only [if_neg hset, if_neg hget]
    exact captureFrame_spec rfl

end ZephyrApps.CamMgmt
