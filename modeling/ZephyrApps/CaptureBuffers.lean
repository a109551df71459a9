import ZephyrApps.CamMgmt
import ZephyrApps.VideoCalls

/-!
# The buffers of captures

The calls of the video API that a capture makes, in their order, whichever of them fails.
What is out of the pool after a capture is the frame that it retained, and nothing if it
failed.
-/
namespace ZephyrApps.CaptureBuffers
open SystemRuns VideoBuffers CamMgmt VideoCalls

def queueCalls (calls : CaptureCalls) : List (Fin 2) → List VideoCall
  | [] => []
  | i :: rest =>
    match calls.alloc i with
    | none => []
    | some b =>
      if calls.enqueue i < 0 then [.alloc b, .release b]
      else .alloc b :: .enqueue b :: queueCalls calls rest

/-- The calls from `drain` on. -/
def drainTail (cam : Cam) : List VideoCall :=
  .stop :: drainCalls cam.frameVbuf cam.video.stop.done

def frameCalls (cam : Cam) (calls : CaptureCalls) : List VideoCall :=
  let (video, ret) := queueBuffers calls (List.finRange 2) cam.video
  queueCalls calls (List.finRange 2) ++
    if ret < 0 ∨ calls.streamStart < 0 then drainTail { cam with video }
    else
      let video := video.fill calls.filled
      .fill calls.filled ::
        if calls.dequeue < 0 then drainTail { cam with video }
        else
          match video.done with
          | [] => drainTail { cam with video }
          | b :: _ =>
            .dequeue b :: drainTail { cam with video := video.dequeue b, frameVbuf := some b }

def pastRelease (cam : Cam) (calls : CaptureCalls) : List VideoCall :=
  match camPickFormat calls.caps with
  | .error _ => []
  | .ok fmt =>
    if calls.setFormat fmt < 0 ∨ calls.getFormat.1 < 0 then [] else frameCalls cam.released calls

def captureCalls (cam : Cam) (calls : CaptureCalls) : List VideoCall :=
  cam.video.since (camMgmtCapture cam calls).1.video

variable {cam : Cam} {calls : CaptureCalls}

theorem queueBuffers_video (calls : CaptureCalls) (is : List (Fin 2)) (v : Video) :
    (queueBuffers calls is v).1 = run exec v (queueCalls calls is) := by
  induction is generalizing v with
  | nil => rfl
  | cons i rest ih =>
    rw [queueBuffers, queueCalls]
    cases calls.alloc i with
    | none => rfl
    | some b =>
      dsimp only
      split
      case isTrue => rfl
      case isFalse => exact ih _

theorem drain_video (cam : Cam) : cam.drain.video = run exec cam.video (drainTail cam) := by
  have hrun : run exec cam.video (drainTail cam) =
      run exec cam.video.stop (drainCalls cam.frameVbuf cam.video.stop.done) := rfl
  rw [hrun, run_drainCalls]
  rfl

theorem captureFrame_video (cam : Cam) (calls : CaptureCalls) :
    (captureFrame cam calls).1.video = run exec cam.video (frameCalls cam calls) := by
  have hqueue := queueBuffers_video calls (List.finRange 2) cam.video
  unfold captureFrame frameCalls
  generalize queueBuffers calls (List.finRange 2) cam.video = r at hqueue
  obtain ⟨video, ret⟩ := r
  dsimp only at hqueue ⊢
  rw [run_append, ← hqueue]
  by_cases hret : ret < 0
  · rw [if_pos hret, if_pos (Or.inl hret)]
    exact drain_video _
  · by_cases hstart : calls.streamStart < 0
    · rw [if_neg hret, if_pos hstart, if_pos (Or.inr hstart)]
      exact drain_video _
    · rw [if_neg hret, if_neg hstart, if_neg (not_or.mpr ⟨hret, hstart⟩)]
      by_cases hdequeue : calls.dequeue < 0
      · rw [if_pos hdequeue, if_pos hdequeue]
        exact drain_video { cam with video := video.fill calls.filled }
      · rw [if_neg hdequeue, if_neg hdequeue]
        cases hdone : (video.fill calls.filled).done with
        | nil => exact drain_video { cam with video := video.fill calls.filled }
        | cons b done =>
          exact drain_video
            { cam with video := (video.fill calls.filled).dequeue b, frameVbuf := some b }

theorem pastRelease_video (cam : Cam) (calls : CaptureCalls) :
    (camMgmtCapture cam calls).1.video = run exec cam.released.video (pastRelease cam calls) := by
  unfold camMgmtCapture pastRelease
  cases camPickFormat calls.caps with
  | error ret => rfl
  | ok fmt =>
    dsimp only
    by_cases hset : calls.setFormat fmt < 0
    · rw [if_pos hset, if_pos (Or.inl hset)]
      rfl
    · by_cases hget : calls.getFormat.1 < 0
      · rw [if_neg hset, if_pos hget, if_pos (Or.inr hget)]
        rfl
      · rw [if_neg hset, if_neg hget, if_neg (not_or.mpr ⟨hset, hget⟩)]
        exact captureFrame_video _ calls

theorem released_video (cam : Cam) :
    run exec cam.video (cam.frameVbuf.toList.map .release) = cam.released.video := by
  cases hframe : cam.frameVbuf <;> simp [Cam.released, hframe, run, exec]

/-- The frame that was retained goes back first. -/
theorem captureCalls_eq (cam : Cam) (calls : CaptureCalls) :
    captureCalls cam calls = cam.frameVbuf.toList.map .release ++ pastRelease cam calls := by
  apply since_eq
  rw [run_append, released_video, pastRelease_video]

/-- What the calls do is what the capture does. -/
theorem capture_video (cam : Cam) (calls : CaptureCalls) :
    (camMgmtCapture cam calls).1.video = run exec cam.video (captureCalls cam calls) := by
  rw [captureCalls_eq, run_append, released_video, pastRelease_video]

/-- Between captures: what is out is the retained frame, and the driver has nothing. -/
structure Settled (cam : Cam) : Prop where
  out : cam.video.out = cam.frameVbuf.toList
  queued : cam.video.queued = []
  done : cam.video.done = []

theorem Settled.owned (h : Settled cam) : Owned cam.video cam.frameVbuf.toList := by
  refine ⟨?_, by simp [h.out, h.queued, h.done]⟩
  rw [h.out]
  cases cam.frameVbuf <;> simp

theorem settled_of_owned (h : Owned cam.video cam.frameVbuf.toList) (hq : cam.video.queued = [])
    (hd : cam.video.done = []) : Settled cam := by
  have hout : cam.video.out.Perm cam.frameVbuf.toList := by simpa [hq, hd] using h.places
  refine ⟨?_, hq, hd⟩
  cases hframe : cam.frameVbuf with
  | none =>
    rw [hframe] at hout
    exact List.perm_nil.mp hout
  | some b =>
    rw [hframe] at hout
    exact List.perm_singleton.mp hout

theorem Settled.released (h : Settled cam) : Settled cam.released := by
  cases hframe : cam.frameVbuf with
  | none => exact ⟨by simp [Cam.released, hframe, h.out], by simp [Cam.released, hframe, h.queued],
      by simp [Cam.released, hframe, h.done]⟩
  | some b => exact ⟨by simp [Cam.released, hframe, h.out, Video.release],
      by simp [Cam.released, hframe, h.queued, Video.release],
      by simp [Cam.released, hframe, h.done, Video.release]⟩

variable {v : Video} {mine : List VideoBuffer} {rest : List VideoCall}

theorem moves_queue (calls : CaptureCalls) (is : List (Fin 2)) (h : Owned v mine)
    (hgives : Meets exec Gives v (queueCalls calls is)) :
    Moves v (queueCalls calls is) mine := by
  induction is generalizing v with
  | nil => exact .nil h
  | cons i rest ih =>
    rw [queueCalls] at hgives ⊢
    cases halloc : calls.alloc i with
    | none => exact .nil h
    | some b =>
      rw [halloc] at hgives
      dsimp only at hgives ⊢
      have hfree : b ∉ v.out := by
        intro hmem
        split at hgives
        · exact (meets_cons.mp hgives).1 b hmem rfl
        · exact (meets_cons.mp hgives).1 b hmem rfl
      have htaken := h.alloc hfree
      have hhand := htaken.inHand List.mem_cons_self
      split
      case isTrue hfail => exact .cons trivial (moves_single hhand htaken.release)
      case isFalse hok =>
        rw [if_neg hok] at hgives
        have hgives' := (meets_cons.mp (meets_cons.mp hgives).2).2
        exact .cons trivial (.cons hhand (ih htaken.enqueue hgives'))

theorem moves_drainTail (cam : Cam) (h : Owned cam.video mine) (hkeep : ∀ b ∈ cam.frameVbuf, b ∈ mine) :
    Moves cam.video (drainTail cam) mine := by
  have hstop := h.stop
  refine .cons trivial (moves_drain hstop rfl fun b hb => ?_)
  exact (hstop.inHand (hkeep b hb)).2.2

theorem moves_noFrame (cam : Cam) (h : Owned cam.video []) (hnone : cam.frameVbuf = none) :
    Moves cam.video (drainTail cam) cam.drain.frameVbuf.toList := by
  rw [drain_frameVbuf, hnone]
  exact moves_drainTail cam h fun b hb => by simp [hnone] at hb

/-- From the first buffer on nothing is in hand at the end but the frame. -/
theorem moves_frame (h : Owned cam.video []) (hnone : cam.frameVbuf = none)
    (hgives : Meets exec Gives cam.video (frameCalls cam calls)) :
    Moves cam.video (frameCalls cam calls) (captureFrame cam calls).1.frameVbuf.toList := by
  have hqueue := queueBuffers_video calls (List.finRange 2) cam.video
  unfold captureFrame
  unfold frameCalls at hgives ⊢
  generalize queueBuffers calls (List.finRange 2) cam.video = r at hqueue hgives
  obtain ⟨video, ret⟩ := r
  dsimp only at hqueue hgives ⊢
  have hmoves := moves_queue calls (List.finRange 2) h (meets_append.mp hgives).1
  have howned := hmoves.owned
  rw [← hqueue] at howned
  refine hmoves.append ?_
  rw [← hqueue]
  by_cases hret : ret < 0
  · rw [if_pos hret, if_pos (Or.inl hret)]
    exact moves_noFrame { cam with video } howned hnone
  · by_cases hstart : calls.streamStart < 0
    · rw [if_neg hret, if_pos hstart, if_pos (Or.inr hstart)]
      exact moves_noFrame { cam with video } howned hnone
    · rw [if_neg hret, if_neg hstart, if_neg (not_or.mpr ⟨hret, hstart⟩)]
      have hfilled := howned.fill calls.filled
      refine .cons trivial ?_
      by_cases hdequeue : calls.dequeue < 0
      · rw [if_pos hdequeue, if_pos hdequeue]
        exact moves_noFrame { cam with video := video.fill calls.filled } hfilled hnone
      · rw [if_neg hdequeue, if_neg hdequeue]
        cases hdone : (video.fill calls.filled).done with
        | nil => exact moves_noFrame { cam with video := video.fill calls.filled } hfilled hnone
        | cons b done =>
          exact .cons (permits_dequeue hdone) (moves_drainTail
            { cam with video := (video.fill calls.filled).dequeue b, frameVbuf := some b }
            (hfilled.dequeue hdone) (by simp))

theorem drain_empty (cam : Cam) : cam.drain.video.queued = [] ∧ cam.drain.video.done = [] := by
  refine ⟨foldl_drainOne_queued _ _ _, ?_⟩
  exact (foldl_drainOne_done _ _ _).trans (List.drop_length ..)

theorem captureFrame_empty (cam : Cam) (calls : CaptureCalls) :
    (captureFrame cam calls).1.video.queued = [] ∧ (captureFrame cam calls).1.video.done = [] := by
  unfold captureFrame
  dsimp only
  split
  · exact drain_empty _
  · split
    · exact drain_empty _
    · split
      · exact drain_empty _
      · split <;> exact drain_empty _

structure Conserves (cam : Cam) (calls : CaptureCalls) : Prop where
  /-- its calls do what it does -/
  video : (camMgmtCapture cam calls).1.video = run exec cam.video (captureCalls cam calls)
  /-- it releases and enqueues what it has, so nothing twice -/
  permitted : Meets exec Permits cam.video (captureCalls cam calls)
  /-- what is out afterwards is the retained frame -/
  settled : Settled (camMgmtCapture cam calls).1
  /-- there is one if and only if the capture succeeded -/
  retained : (camMgmtCapture cam calls).1.frameVbuf.isSome ↔ 0 ≤ (camMgmtCapture cam calls).2
  /-- the frame before is released first, and the retained one is not released any more -/
  released : ∃ later, captureCalls cam calls = cam.frameVbuf.toList.map .release ++ later ∧
    ∀ b ∈ (camMgmtCapture cam calls).1.frameVbuf, .release b ∉ later

theorem retained_iff (cam : Cam) (calls : CaptureCalls) :
    (camMgmtCapture cam calls).1.frameVbuf.isSome ↔ 0 ≤ (camMgmtCapture cam calls).2 := by
  rcases camMgmtCapture_spec cam calls with ⟨hret, hnone, -⟩ | ⟨hret, hsome, -⟩
  · rw [hnone]
    exact iff_of_false Bool.false_ne_true (Int.not_le.mpr hret)
  · exact iff_of_true hsome hret

theorem queueCalls_keeps {is : List (Fin 2)} (h : 0 ≤ (queueBuffers calls is v).2)
    (b : VideoBuffer) : .release b ∉ queueCalls calls is := by
  induction is generalizing v with
  | nil => simp [queueCalls]
  | cons i rest ih =>
    rw [queueBuffers] at h
    rw [queueCalls]
    cases halloc : calls.alloc i with
    | none => simp
    | some c =>
      rw [halloc] at h
      dsimp only at h ⊢
      split
      case isTrue hfail =>
        rw [if_pos hfail] at h
        exact absurd hfail (Int.not_lt.mpr h)
      case isFalse hok =>
        rw [if_neg hok] at h
        simp [ih h]

theorem drainCalls_keeps (b : VideoBuffer) (done : List VideoBuffer) :
    .release b ∉ drainCalls (some b) done := by
  induction done with
  | nil => simp [drainCalls]
  | cons c done ih =>
    rw [drainCalls_cons]
    by_cases hc : some c = some b
    · simp [hc, ih]
    · have hne : b ≠ c := fun h => hc (congrArg some h.symm)
      simp [hc, ih, hne]

theorem frameCalls_keeps (hnone : cam.frameVbuf = none) {b : VideoBuffer}
    (hb : (captureFrame cam calls).1.frameVbuf = some b) : .release b ∉ frameCalls cam calls := by
  have hkeeps : 0 ≤ (queueBuffers calls (List.finRange 2) cam.video).2 →
      ∀ b, .release b ∉ queueCalls calls (List.finRange 2) := queueCalls_keeps
  unfold captureFrame at hb
  unfold frameCalls
  generalize queueBuffers calls (List.finRange 2) cam.video = r at hb hkeeps
  obtain ⟨video, ret⟩ := r
  dsimp only at hb hkeeps ⊢
  by_cases hret : ret < 0
  · simp [hret, hnone] at hb
  · by_cases hstart : calls.streamStart < 0
    · simp [hret, hstart, hnone] at hb
    · by_cases hdequeue : calls.dequeue < 0
      · simp [hret, hstart, hdequeue, hnone] at hb
      · rw [if_neg hret, if_neg hstart, if_neg hdequeue] at hb
        rw [if_neg (not_or.mpr ⟨hret, hstart⟩), if_neg hdequeue]
        cases hdone : (video.fill calls.filled).done with
        | nil => simp [hdone, hnone] at hb
        | cons c done =>
          obtain rfl : c = b := by simpa [hdone] using hb
          have hdrain := drainCalls_keeps c
          simp [hkeeps (Int.not_lt.mp hret) c, drainTail, hdrain]

theorem moves_pastRelease (h : Settled cam)
    (hgives : Meets exec Gives cam.released.video (pastRelease cam calls)) :
    Moves cam.released.video (pastRelease cam calls)
      (camMgmtCapture cam calls).1.frameVbuf.toList := by
  have howned : Owned cam.released.video [] := h.released.owned
  unfold pastRelease at hgives ⊢
  unfold camMgmtCapture
  cases hfmt : camPickFormat calls.caps with
  | error ret => exact .nil howned
  | ok fmt =>
    rw [hfmt] at hgives
    dsimp only at hgives ⊢
    by_cases hset : calls.setFormat fmt < 0
    · rw [if_pos hset, if_pos (Or.inl hset)]
      exact .nil howned
    · by_cases hget : calls.getFormat.1 < 0
      · rw [if_neg hset, if_pos hget, if_pos (Or.inr hget)]
        exact .nil howned
      · rw [if_neg (not_or.mpr ⟨hset, hget⟩)] at hgives
        rw [if_neg hset, if_neg hget, if_neg (not_or.mpr ⟨hset, hget⟩)]
        let cam' := { cam.released with frameFmt := calls.getFormat.2, memory := calls.memory }
        have hframe : Moves cam'.video (frameCalls cam' calls)
            (captureFrame cam' calls).1.frameVbuf.toList := moves_frame howned rfl hgives
        exact hframe

theorem capture_empty (h : Settled cam) (calls : CaptureCalls) :
    (camMgmtCapture cam calls).1.video.queued = [] ∧
      (camMgmtCapture cam calls).1.video.done = [] := by
  have hreleased := h.released
  unfold camMgmtCapture
  cases camPickFormat calls.caps with
  | error ret => exact ⟨hreleased.queued, hreleased.done⟩
  | ok fmt =>
    dsimp only
    split
    · exact ⟨hreleased.queued, hreleased.done⟩
    · split
      · exact ⟨hreleased.queued, hreleased.done⟩
      · exact captureFrame_empty _ _

theorem pastRelease_keeps {b : VideoBuffer} (hb : (camMgmtCapture cam calls).1.frameVbuf = some b) :
    .release b ∉ pastRelease cam calls := by
  unfold camMgmtCapture at hb
  unfold pastRelease
  cases hfmt : camPickFormat calls.caps with
  | error ret => simp
  | ok fmt =>
    rw [hfmt] at hb
    dsimp only at hb ⊢
    by_cases hset : calls.setFormat fmt < 0
    · simp [hset]
    · by_cases hget : calls.getFormat.1 < 0
      · simp [hget]
      · rw [if_neg hset, if_neg hget] at hb
        rw [if_neg (not_or.mpr ⟨hset, hget⟩)]
        let cam' := { cam.released with frameFmt := calls.getFormat.2, memory := calls.memory }
        have hkeeps : .release b ∉ frameCalls cam' calls := frameCalls_keeps rfl hb
        exact hkeeps

/-- A capture conserves the buffers, if the pool gives it only what is free. -/
theorem capture_conserves (h : Settled cam)
    (hgives : Meets exec Gives cam.video (captureCalls cam calls)) : Conserves cam calls := by
  have hfirst : Moves cam.video (cam.frameVbuf.toList.map .release) [] := by
    have howned := h.owned
    cases hframe : cam.frameVbuf with
    | none =>
      rw [hframe] at howned
      exact .nil howned
    | some b =>
      rw [hframe] at howned
      exact moves_single (howned.inHand (List.mem_singleton_self b)) howned.release
  rw [captureCalls_eq, meets_append, released_video] at hgives
  have hpast := moves_pastRelease h hgives.2
  rw [← released_video] at hpast
  have hmoves := hfirst.append hpast
  rw [← captureCalls_eq] at hmoves
  have hcapture := capture_video cam calls
  obtain ⟨hqueued, hdone⟩ := capture_empty h calls
  have howned := hmoves.owned
  rw [← hcapture] at howned
  exact ⟨hcapture, hmoves.allowed, settled_of_owned howned hqueued hdone, retained_iff cam calls,
    pastRelease cam calls, captureCalls_eq cam calls, fun b hb => pastRelease_keeps hb⟩

def captureStep (cam : Cam) (calls : CaptureCalls) : Cam := (camMgmtCapture cam calls).1

/-- Every capture of a sequence conserves the buffers, whatever fails. -/
theorem captures_conserve (h : Settled cam) (captures : List CaptureCalls)
    (hgives : Meets captureStep
      (fun cam calls => Meets exec Gives cam.video (captureCalls cam calls)) cam captures) :
    Meets captureStep Conserves cam captures := by
  induction captures generalizing cam with
  | nil => exact meets_nil _ _ _
  | cons calls captures ih =>
    obtain ⟨hcalls, hrest⟩ := meets_cons.mp hgives
    have hconserves := capture_conserves h hcalls
    exact meets_cons.mpr ⟨hconserves, ih hconserves.settled hrest⟩

def rawFormat : VideoFormat := ⟨0x30314752, 640, 480⟩

def booted : Cam where
  frameVbuf := none
  frameSeq := 0
  frameFmt := rawFormat
  video := ⟨[], [], [], []⟩
  memory _ := ⟨[], 0, by decide⟩

/-- A capture in which the driver fills one buffer in time; the pool has the buffers
below `free`. -/
def captureOf (free : ℕ) : CaptureCalls where
  caps := (0, [⟨0x30314752, 3280, 480, 10⟩])
  setFormat _ := 0
  getFormat := (0, rawFormat)
  alloc i := if i.val < free then some i.val else none
  enqueue _ := 0
  streamStart := 0
  filled := 1
  dequeue := 0
  memory _ := ⟨[], 0, by decide⟩

/-- A capture that succeeds, one that has no second buffer, and one that succeeds again. -/
theorem captures_conserve_three :
    Meets captureStep Conserves booted [captureOf 2, captureOf 1, captureOf 2] :=
  captures_conserve ⟨rfl, rfl, rfl⟩ _ (by decide)

end ZephyrApps.CaptureBuffers
