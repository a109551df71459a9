import ZephyrApps.PrusaCam
import ZephyrApps.VideoCalls

/-!
# The two buffers of the Prusa camera

`cam_apply`, the frames that are taken and given back, and the calls of the video API that
they make. A buffer is with the driver, held, or idle after an apply that failed.
-/
namespace ZephyrApps.CameraBuffers
open SystemRuns PrusaCfg PrusaCam VideoBuffers VideoCalls

/-- `-EAGAIN` -/
def eagain : Int := -11

/-- What the calls of a `grab` return. -/
structure GrabCalls where
  ready : Bool
  /-- how many buffers are filled after each one that is handed back -/
  refilled : List ℕ
  /-- how many are filled before the timeout -/
  filled : ℕ
  dequeue : Int

/-- The statics of `cam.c` with the frame that is held, which is to hold the lock, and
whether the last `cam_apply` succeeded. -/
structure Camera where
  cam : Cam
  held : Option VideoBuffer
  applied : Bool

/-- `requeue_all` -/
def requeueAll : List ℕ → Video → Video
  | [], v => v.done.foldl (fun v b => (v.dequeue b).enqueue b) v
  | n :: ns, v =>
    match v.done with
    | [] => v
    | b :: _ => requeueAll ns (((v.dequeue b).enqueue b).fill n)

/-- `grab`; the flash is the only difference between `cam_snapshot` and `cam_frame`. -/
def grab (s : Camera) (calls : GrabCalls) : Camera × Int :=
  if calls.ready then
    let video := (requeueAll calls.refilled s.cam.video).fill calls.filled
    if calls.dequeue < 0 then ({ s with cam := { s.cam with video } }, calls.dequeue)
    else
      match video.done with
      | [] => ({ s with cam := { s.cam with video } }, eagain)
      | b :: _ => ({ s with cam := { s.cam with video := video.dequeue b }, held := some b }, 0)
  else (s, enodev)

/-- `cam_release` of the frame that is held. -/
def camRelease (s : Camera) (b : VideoBuffer) : Camera :=
  { s with cam := { s.cam with video := s.cam.video.enqueue b }, held := none }

inductive Action where
  | apply (c : Cfg) (calls : ApplyCalls)
  | grab (calls : GrabCalls)
  | release
  | fill (n : ℕ)

/-- A thread has the lock as long as it holds a frame. -/
def step (s : Camera) : Action → Option Camera
  | .apply c calls =>
    if s.held.isSome then none
    else
      let (cam, ret) := camApply s.cam c calls
      some { s with cam, applied := decide (0 ≤ ret) }
  | .grab calls => if s.held.isSome then none else some (grab s calls).1
  | .release => s.held.map (camRelease s)
  | .fill n => some { s with cam := { s.cam with video := s.cam.video.fill n } }

def drainedCalls (v : Video) : List VideoCall := .stop :: v.stop.done.map .dequeue

def enqueueCalls (calls : ApplyCalls) (i : Fin 2) (b : VideoBuffer) : List VideoCall :=
  if calls.enqueue i < 0 then [] else [.enqueue b]

def smallCalls (cam : Cam) (size : ℕ) (i : Fin 2) : List VideoCall :=
  match cam.bufs i with
  | none => []
  | some b => if cam.size b < size then [.release b] else []

def giveCalls (cam : Cam) (calls : ApplyCalls) (i : Fin 2) : List VideoCall :=
  smallCalls cam calls.setFormat.2 i ++
    match (cam.releaseSmall calls.setFormat.2 i).bufs i with
    | some b => enqueueCalls calls i b
    | none =>
      match calls.alloc i with
      | none => []
      | some b => .alloc b :: enqueueCalls calls i b

def giveAllCalls (calls : ApplyCalls) : List (Fin 2) → Cam → List VideoCall
  | [], _ => []
  | i :: rest, cam =>
    giveCalls cam calls i ++
      match cam.giveBuffer calls i with
      | (_, false) => []
      | (cam, true) => giveAllCalls calls rest cam

def applyCalls (cam : Cam) (c : Cfg) (calls : ApplyCalls) : List VideoCall :=
  if calls.ready then
    drainedCalls cam.video ++
      if calls.setFormat.1 < 0 then []
      else giveAllCalls calls (List.finRange 2) { cam.drained with format := some (format c) }
  else []

def requeueCalls : List ℕ → Video → List VideoCall
  | [], v => v.done.flatMap fun b => [.dequeue b, .enqueue b]
  | n :: ns, v =>
    match v.done with
    | [] => []
    | b :: _ =>
      .dequeue b :: .enqueue b :: .fill n :: requeueCalls ns (((v.dequeue b).enqueue b).fill n)

def grabCalls (v : Video) (calls : GrabCalls) : List VideoCall :=
  if calls.ready then
    let video := (requeueAll calls.refilled v).fill calls.filled
    requeueCalls calls.refilled v ++ .fill calls.filled ::
      if calls.dequeue < 0 then [] else video.done.head?.toList.map .dequeue
  else []

def actionCalls (s : Camera) (a : Action) : List VideoCall :=
  (step s a).elim [] fun s' => s.cam.video.since s'.cam.video

def listedCalls (s : Camera) : Action → List VideoCall
  | .apply c calls => applyCalls s.cam c calls
  | .grab calls => grabCalls s.cam.video calls
  | .release => s.held.toList.map .enqueue
  | .fill n => [.fill n]

variable {cam cam' : Cam} {calls : ApplyCalls} {v : Video}

theorem run_dequeues (v : Video) (done : List VideoBuffer) :
    run exec v (done.map .dequeue) = done.foldl Video.dequeue v := by
  induction done generalizing v with
  | nil => rfl
  | cons b done ih => exact ih (v.dequeue b)

theorem drained_video (cam : Cam) : cam.drained.video = run exec cam.video (drainedCalls cam.video) :=
  (run_dequeues cam.video.stop _).symm

theorem releaseSmall_video (cam : Cam) (size : ℕ) (i : Fin 2) :
    (cam.releaseSmall size i).video = run exec cam.video (smallCalls cam size i) := by
  unfold Cam.releaseSmall smallCalls
  cases cam.bufs i with
  | none => rfl
  | some b =>
    dsimp only
    split <;> rfl

theorem enqueue_video (cam : Cam) (calls : ApplyCalls) (i : Fin 2) (b : VideoBuffer) :
    (cam.enqueue calls i b).video = run exec cam.video (enqueueCalls calls i b) := by
  unfold Cam.enqueue enqueueCalls
  split <;> rfl

theorem giveBuffer_video (cam : Cam) (calls : ApplyCalls) (i : Fin 2) :
    (cam.giveBuffer calls i).1.video = run exec cam.video (giveCalls cam calls i) := by
  unfold Cam.giveBuffer giveCalls
  rw [run_append, ← releaseSmall_video]
  dsimp only
  cases (cam.releaseSmall calls.setFormat.2 i).bufs i with
  | some b => exact enqueue_video _ calls i b
  | none =>
    cases calls.alloc i with
    | none => rfl
    | some b => exact enqueue_video _ calls i b

theorem giveBuffers_video (calls : ApplyCalls) (is : List (Fin 2)) (cam : Cam) :
    (cam.giveBuffers calls is).1.video = run exec cam.video (giveAllCalls calls is cam) := by
  induction is generalizing cam with
  | nil => rfl
  | cons i rest ih =>
    have hi := giveBuffer_video cam calls i
    rw [Cam.giveBuffers, giveAllCalls, run_append, ← hi]
    generalize cam.giveBuffer calls i = r
    obtain ⟨cam', ok⟩ := r
    cases ok with
    | false => rfl
    | true => exact ih cam'

theorem setCtrls_buffers (calls : ApplyCalls) (f : Ctrl → Int) (ks : List Ctrl) (cam : Cam) :
    (ks.foldl (fun cam k => cam.setCtrl calls k (f k)) cam).video = cam.video ∧
      (ks.foldl (fun cam k => cam.setCtrl calls k (f k)) cam).bufs = cam.bufs ∧
      (ks.foldl (fun cam k => cam.setCtrl calls k (f k)) cam).size = cam.size := by
  induction ks generalizing cam with
  | nil => exact ⟨rfl, rfl, rfl⟩
  | cons k ks ih =>
    obtain ⟨hvideo, hbufs, hsize⟩ := ih (cam.setCtrl calls k (f k))
    rw [List.foldl_cons, hvideo, hbufs, hsize, Cam.setCtrl]
    split <;> exact ⟨rfl, rfl, rfl⟩

theorem camApply_given (hready : calls.ready = true) (hset : ¬ calls.setFormat.1 < 0) (cam : Cam)
    (c : Cfg) :
    let r := { cam.drained with format := some (format c) }.giveBuffers calls (List.finRange 2)
    (camApply cam c calls).1.video = r.1.video ∧ (camApply cam c calls).1.bufs = r.1.bufs ∧
      (camApply cam c calls).1.size = r.1.size ∧
      (camApply cam c calls).2 = if r.2 then calls.streamStart else enomem := by
  unfold camApply
  rw [if_pos hready]
  dsimp only
  rw [if_neg hset]
  generalize { cam.drained with format := some (format c) }.giveBuffers calls (List.finRange 2) = r
  obtain ⟨cam', ok⟩ := r
  cases ok with
  | false => exact ⟨rfl, rfl, rfl, rfl⟩
  | true =>
    obtain ⟨hvideo, hbufs, hsize⟩ := setCtrls_buffers calls (ctrlVal c) ctrls cam'
    exact ⟨hvideo, hbufs, hsize, rfl⟩

theorem camApply_video (cam : Cam) (c : Cfg) (calls : ApplyCalls) :
    (camApply cam c calls).1.video = run exec cam.video (applyCalls cam c calls) := by
  by_cases hready : calls.ready = true
  · rw [applyCalls, if_pos hready, run_append, ← drained_video]
    by_cases hset : calls.setFormat.1 < 0
    · rw [camApply, if_pos hready, if_pos hset]
      dsimp only
      rw [if_pos hset]
      rfl
    · rw [(camApply_given hready hset cam c).1, if_neg hset, giveBuffers_video]
  · rw [applyCalls, camApply, if_neg hready, if_neg hready]
    rfl

theorem requeueAll_video (ns : List ℕ) (v : Video) :
    requeueAll ns v = run exec v (requeueCalls ns v) := by
  induction ns generalizing v with
  | nil =>
    rw [requeueAll, requeueCalls]
    generalize v.done = done
    induction done generalizing v with
    | nil => rfl
    | cons b done ih =>
      rw [List.flatMap_cons, run_append]
      exact ih ((v.dequeue b).enqueue b)
  | cons n ns ih =>
    rw [requeueAll, requeueCalls]
    cases v.done with
    | nil => rfl
    | cons b done => exact ih _

theorem grab_video (s : Camera) (calls : GrabCalls) :
    (grab s calls).1.cam.video = run exec s.cam.video (grabCalls s.cam.video calls) := by
  unfold grab grabCalls
  by_cases hready : calls.ready = true
  · rw [if_pos hready, if_pos hready, run_append, ← requeueAll_video]
    change _ = run exec ((requeueAll calls.refilled s.cam.video).fill calls.filled) _
    dsimp only
    generalize (requeueAll calls.refilled s.cam.video).fill calls.filled = video
    by_cases hdequeue : calls.dequeue < 0
    · rw [if_pos hdequeue, if_pos hdequeue]
      rfl
    · rw [if_neg hdequeue, if_neg hdequeue]
      cases video.done with
      | nil => rfl
      | cons b done => rfl
  · rw [if_neg hready, if_neg hready]
    rfl

theorem listedCalls_video {s s' : Camera} {a : Action} (h : step s a = some s') :
    s'.cam.video = run exec s.cam.video (listedCalls s a) := by
  cases a with
  | apply c calls =>
    rw [step] at h
    split at h
    · cases h
    · cases h
      exact camApply_video s.cam c calls
  | grab calls =>
    rw [step] at h
    split at h
    · cases h
    · cases h
      exact grab_video s calls
  | release =>
    obtain ⟨b, hb, rfl⟩ := Option.map_eq_some_iff.mp h
    rw [listedCalls, hb]
    rfl
  | fill n =>
    cases h
    rfl

theorem actionCalls_eq {s s' : Camera} {a : Action} (h : step s a = some s') :
    actionCalls s a = listedCalls s a := by
  rw [actionCalls, h]
  exact since_eq (listedCalls_video h)

/-- What the calls do is what the action does. -/
theorem step_video {s s' : Camera} {a : Action} (h : step s a = some s') :
    s'.cam.video = run exec s.cam.video (actionCalls s a) := by
  rw [actionCalls_eq h]
  exact listedCalls_video h

/-- What is out of the pool is what `bufs` has, each buffer once and in one place. -/
structure Mirrors (cam : Cam) : Prop where
  owned : ∃ mine, Owned cam.video mine
  out : ∀ b, b ∈ cam.video.out ↔ ∃ i, cam.bufs i = some b
  distinct : ∀ i j b, cam.bufs i = some b → cam.bufs j = some b → i = j

/-- Nothing happens to the buffers but the `i`-th. -/
structure Keeps (i : Fin 2) (cam cam' : Cam) : Prop where
  bufs : ∀ j ≠ i, cam'.bufs j = cam.bufs j
  inHand : ∀ j ≠ i, ∀ b, cam.bufs j = some b → InHand cam.video b → InHand cam'.video b
  queued : ∀ b ∈ cam.video.queued, b ∈ cam'.video.queued
  size : ∀ j ≠ i, ∀ b, cam.bufs j = some b → cam'.size b = cam.size b

theorem Keeps.refl (i : Fin 2) (cam : Cam) : Keeps i cam cam :=
  ⟨fun _ _ => rfl, fun _ _ _ _ h => h, fun _ h => h, fun _ _ _ _ => rfl⟩

theorem Keeps.trans {i : Fin 2} {cam'' : Cam} (h : Keeps i cam cam') (h' : Keeps i cam' cam'') :
    Keeps i cam cam'' where
  bufs j hj := (h'.bufs j hj).trans (h.bufs j hj)
  inHand j hj b hb hhand :=
    h'.inHand j hj b ((h.bufs j hj).trans hb) (h.inHand j hj b hb hhand)
  queued b hb := h'.queued b (h.queued b hb)
  size j hj b hb := (h'.size j hj b ((h.bufs j hj).trans hb)).trans (h.size j hj b hb)

variable {i : Fin 2} {b : VideoBuffer} {size : ℕ}

theorem release_spec (h : Mirrors cam) (hb : cam.bufs i = some b) (hhand : InHand cam.video b)
    (hcam : cam' = { cam with
      bufs := Function.update cam.bufs i none, video := cam.video.release b }) :
    Mirrors cam' ∧ Keeps i cam cam' := by
  subst hcam
  obtain ⟨mine, howned⟩ := h.owned
  have hne {j : Fin 2} {c : VideoBuffer} (hj : j ≠ i) (hc : cam.bufs j = some c) : c ≠ b := by
    rintro rfl
    exact hj (h.distinct j i c hc hb)
  have hout (c : VideoBuffer) : c ∈ cam.video.out.erase b ↔ c ≠ b ∧ c ∈ cam.video.out :=
    howned.nodup.mem_erase_iff
  constructor
  · refine ⟨⟨_, howned.release_inHand hhand⟩, fun c => ?_, fun j k c hj hk => ?_⟩
    · refine (hout c).trans ?_
      rw [h.out c]
      constructor
      · rintro ⟨hc, j, hj⟩
        have hji : j ≠ i := by
          rintro rfl
          exact hc (Option.some.inj (hj.symm.trans hb))
        exact ⟨j, (Function.update_of_ne hji ..).trans hj⟩
      · rintro ⟨j, hj⟩
        rcases update_eq_cases hj with ⟨-, hnone⟩ | ⟨hji, hj⟩
        · cases hnone
        · exact ⟨hne hji hj, j, hj⟩
    · rcases update_eq_cases hj with ⟨-, hnone⟩ | ⟨-, hj⟩
      · cases hnone
      · rcases update_eq_cases hk with ⟨-, hnone⟩ | ⟨-, hk⟩
        · cases hnone
        · exact h.distinct j k c hj hk
  · refine ⟨fun j hj => Function.update_of_ne hj .., fun j hj c hc hhand => ?_, fun c hc => hc,
      fun j hj c hc => rfl⟩
    exact ⟨(hout c).mpr ⟨hne hj hc, hhand.1⟩, hhand.2⟩

theorem take_spec (size : ℕ) (h : Mirrors cam) (hnone : cam.bufs i = none) (hb : b ∉ cam.video.out) :
    Mirrors (cam.take size i b) ∧ Keeps i cam (cam.take size i b) ∧
      InHand (cam.take size i b).video b := by
  obtain ⟨mine, howned⟩ := h.owned
  have htaken := howned.alloc hb
  have hne {j : Fin 2} {c : VideoBuffer} (hc : cam.bufs j = some c) : c ≠ b := by
    rintro rfl
    exact hb ((h.out c).mpr ⟨j, hc⟩)
  refine ⟨⟨⟨_, htaken⟩, fun c => ?_, fun j k c hj hk => ?_⟩, ⟨fun j hj => Function.update_of_ne hj ..,
    fun j hj c hc hhand => ⟨List.mem_cons_of_mem _ hhand.1, hhand.2⟩, fun c hc => hc,
    fun j hj c hc => Function.update_of_ne (hne hc) ..⟩, htaken.inHand List.mem_cons_self⟩
  · refine List.mem_cons.trans ?_
    rw [h.out c]
    constructor
    · rintro (rfl | ⟨j, hj⟩)
      · exact ⟨i, Function.update_self ..⟩
      · have hji : j ≠ i := by
          rintro rfl
          rw [hnone] at hj
          cases hj
        exact ⟨j, (Function.update_of_ne hji ..).trans hj⟩
    · rintro ⟨j, hj⟩
      rcases update_eq_cases hj with ⟨-, hc⟩ | ⟨-, hj⟩
      · exact Or.inl (Option.some.inj hc).symm
      · exact Or.inr ⟨j, hj⟩
  · rcases update_eq_cases hj with ⟨rfl, hc⟩ | ⟨-, hj⟩
    · rcases update_eq_cases hk with ⟨rfl, -⟩ | ⟨-, hk⟩
      · rfl
      · exact absurd (Option.some.inj hc).symm (hne hk)
    · rcases update_eq_cases hk with ⟨-, hc⟩ | ⟨-, hk⟩
      · exact absurd (Option.some.inj hc).symm (hne hj)
      · exact h.distinct j k c hj hk

/-- The `i`-th buffer is with the driver, and large enough. -/
def GivenTo (cam : Cam) (size : ℕ) (i : Fin 2) : Prop :=
  ∃ b, cam.bufs i = some b ∧ b ∈ cam.video.queued ∧ size ≤ cam.size b

theorem enqueue_spec (h : Mirrors cam) (hb : cam.bufs i = some b) (hhand : InHand cam.video b)
    (hok : 0 ≤ calls.enqueue i) (hsize : size ≤ cam.size b) :
    Mirrors (cam.enqueue calls i b) ∧ Keeps i cam (cam.enqueue calls i b) ∧
      GivenTo (cam.enqueue calls i b) size i := by
  have henqueue : cam.enqueue calls i b = { cam with video := cam.video.enqueue b } :=
    if_neg (Int.not_lt.mpr hok)
  obtain ⟨mine, howned⟩ := h.owned
  rw [henqueue]
  refine ⟨⟨⟨_, howned.enqueue_inHand hhand⟩, h.out, h.distinct⟩,
    ⟨fun _ _ => rfl, fun j hj c hc hc' => ⟨hc'.1, fun hmem => ?_, hc'.2.2⟩,
      fun c hc => List.mem_append_left _ hc, fun _ _ _ _ => rfl⟩,
    b, hb, by simp [Video.enqueue], hsize⟩
  rcases List.mem_append.mp hmem with hmem | hmem
  · exact hc'.2.1 hmem
  · obtain rfl := List.mem_singleton.mp hmem
    exact hj (h.distinct j i c hc hb)

/-- A buffer that is too small goes back; what is left is large enough. -/
theorem releaseSmall_spec (h : Mirrors cam) (size : ℕ)
    (hhand : ∀ b, cam.bufs i = some b → InHand cam.video b) :
    Meets exec Permits cam.video (smallCalls cam size i) ∧ Mirrors (cam.releaseSmall size i) ∧
      Keeps i cam (cam.releaseSmall size i) ∧
      ∀ b, (cam.releaseSmall size i).bufs i = some b →
        InHand (cam.releaseSmall size i).video b ∧ size ≤ (cam.releaseSmall size i).size b := by
  unfold Cam.releaseSmall smallCalls
  cases hb : cam.bufs i with
  | none => exact ⟨meets_nil _ _ _, h, .refl i cam, fun b hb' => by simp [hb] at hb'⟩
  | some b =>
    dsimp only
    split
    case isTrue =>
      obtain ⟨hmirrors, hkeeps⟩ := release_spec h hb (hhand b hb) rfl
      refine ⟨meets_cons.mpr ⟨hhand b hb, meets_nil _ _ _⟩, hmirrors, hkeeps, fun c hc => ?_⟩
      have hself : Function.update cam.bufs i none i = some c := hc
      rw [Function.update_self] at hself
      cases hself
    case isFalse hsize =>
      refine ⟨meets_nil _ _ _, h, .refl i cam, fun c hc => ⟨hhand c hc, ?_⟩⟩
      obtain rfl : b = c := Option.some.inj (hb.symm.trans hc)
      exact Nat.le_of_not_lt hsize

theorem giveBuffer_spec (h : Mirrors cam) (hhand : ∀ b, cam.bufs i = some b → InHand cam.video b)
    (hok : 0 ≤ calls.enqueue i) (hgives : Meets exec Gives cam.video (giveCalls cam calls i)) :
    Meets exec Permits cam.video (giveCalls cam calls i) ∧ Mirrors (cam.giveBuffer calls i).1 ∧
      Keeps i cam (cam.giveBuffer calls i).1 ∧
      ((cam.giveBuffer calls i).2 = true → GivenTo (cam.giveBuffer calls i).1 calls.setFormat.2 i) := by
  obtain ⟨hsmall, hmirrors, hkeeps, hlarge⟩ := releaseSmall_spec h calls.setFormat.2 hhand
  have henqueueCalls (b : VideoBuffer) : enqueueCalls calls i b = [.enqueue b] :=
    if_neg (Int.not_lt.mpr hok)
  have hpermits {cs : List VideoCall}
      (hcs : Meets exec Permits (cam.releaseSmall calls.setFormat.2 i).video cs) :
      Meets exec Permits cam.video (smallCalls cam calls.setFormat.2 i ++ cs) := by
    refine meets_append.mpr ⟨hsmall, ?_⟩
    rwa [← releaseSmall_video]
  unfold giveCalls at hgives ⊢
  unfold Cam.giveBuffer
  replace hgives := (meets_append.mp hgives).2
  rw [← releaseSmall_video] at hgives
  dsimp only
  generalize cam.releaseSmall calls.setFormat.2 i = cam₁ at hmirrors hkeeps hlarge hpermits hgives
  cases hb : cam₁.bufs i with
  | some b =>
    obtain ⟨hhand', hsize⟩ := hlarge b hb
    obtain ⟨hmirrors', hkeeps', hgiven⟩ := enqueue_spec hmirrors hb hhand' hok hsize
    dsimp only
    rw [henqueueCalls]
    exact ⟨hpermits (meets_cons.mpr ⟨hhand', meets_nil _ _ _⟩), hmirrors', hkeeps.trans hkeeps',
      fun _ => hgiven⟩
  | none =>
    rw [hb] at hgives
    dsimp only at hgives ⊢
    cases halloc : calls.alloc i with
    | none => exact ⟨hpermits (meets_nil _ _ _), hmirrors, hkeeps, fun hfalse => by cases hfalse⟩
    | some b =>
      rw [halloc] at hgives
      have hfree : b ∉ cam₁.video.out := fun hmem => (meets_cons.mp hgives).1 b hmem rfl
      obtain ⟨htaken, hkeeps', hhand'⟩ := take_spec calls.setFormat.2 hmirrors hb hfree
      have hself : (cam₁.take calls.setFormat.2 i b).bufs i = some b := Function.update_self ..
      have hsize : (cam₁.take calls.setFormat.2 i b).size b = calls.setFormat.2 :=
        Function.update_self ..
      obtain ⟨hmirrors', hkeeps'', hgiven⟩ := enqueue_spec htaken hself hhand' hok hsize.ge
      dsimp only
      rw [henqueueCalls]
      have hcalls : Meets exec Permits cam₁.video [.alloc b, .enqueue b] :=
        meets_cons.mpr ⟨trivial, meets_cons.mpr ⟨hhand', meets_nil _ _ _⟩⟩
      exact ⟨hpermits hcalls, hmirrors', hkeeps.trans (hkeeps'.trans hkeeps''), fun _ => hgiven⟩

/-- The loop: nothing is given twice, and in the end every buffer is given. -/
theorem giveBuffers_spec (h : Mirrors cam) {is : List (Fin 2)} (his : is.Nodup)
    (hhand : ∀ j ∈ is, ∀ b, cam.bufs j = some b → InHand cam.video b)
    (hgiven : ∀ j ∉ is, GivenTo cam calls.setFormat.2 j) (hok : ∀ j, 0 ≤ calls.enqueue j)
    (hgives : Meets exec Gives cam.video (giveAllCalls calls is cam)) :
    Meets exec Permits cam.video (giveAllCalls calls is cam) ∧
      Mirrors (cam.giveBuffers calls is).1 ∧
      ((cam.giveBuffers calls is).2 = true →
        ∀ j, GivenTo (cam.giveBuffers calls is).1 calls.setFormat.2 j) := by
  induction is generalizing cam with
  | nil => exact ⟨meets_nil _ _ _, h, fun _ j => hgiven j List.not_mem_nil⟩
  | cons i rest ih =>
    obtain ⟨hi, hrest⟩ := List.nodup_cons.mp his
    have hvideo := giveBuffer_video cam calls i
    rw [giveAllCalls] at hgives ⊢
    rw [Cam.giveBuffers]
    obtain ⟨hgives, hnext⟩ := meets_append.mp hgives
    obtain ⟨hpermits, hmirrors, hkeeps, hsecond⟩ :=
      giveBuffer_spec h (hhand i List.mem_cons_self) (hok i) hgives
    rw [meets_append, ← hvideo]
    rw [← hvideo] at hnext
    generalize cam.giveBuffer calls i = r at hmirrors hkeeps hsecond hnext
    obtain ⟨cam₁, ok⟩ := r
    cases ok with
    | false => exact ⟨⟨hpermits, meets_nil _ _ _⟩, hmirrors, fun hfalse => by cases hfalse⟩
    | true =>
      have hnever {j : Fin 2} (hj : j ∈ rest) : j ≠ i := fun hji => hi (hji ▸ hj)
      have hhand₁ : ∀ j ∈ rest, ∀ b, cam₁.bufs j = some b → InHand cam₁.video b := by
        intro j hj b hb
        have hb' : cam.bufs j = some b := (hkeeps.bufs j (hnever hj)).symm.trans hb
        exact hkeeps.inHand j (hnever hj) b hb' (hhand j (List.mem_cons_of_mem _ hj) b hb')
      have hgiven₁ : ∀ j ∉ rest, GivenTo cam₁ calls.setFormat.2 j := by
        intro j hj
        by_cases hji : j = i
        · exact hji ▸ hsecond rfl
        · obtain ⟨b, hb, hqueued, hsize⟩ := hgiven j fun hmem =>
            (List.mem_cons.mp hmem).elim hji hj
          exact ⟨b, (hkeeps.bufs j hji).trans hb, hkeeps.queued b hqueued,
            hsize.trans (hkeeps.size j hji b hb).ge⟩
      obtain ⟨hpermits', hmirrors', hall⟩ := ih hmirrors hrest hhand₁ hgiven₁ hnext
      exact ⟨⟨hpermits, hpermits'⟩, hmirrors', hall⟩

theorem moves_dequeues {mine : List VideoBuffer} (h : Owned v mine) :
    ∃ mine', Moves v (v.done.map .dequeue) mine' := by
  generalize hd : v.done = done
  induction done generalizing v mine with
  | nil => exact ⟨mine, .nil h⟩
  | cons b done ih =>
    obtain ⟨mine', hmoves⟩ := ih (h.dequeue hd) (dequeue_done hd)
    exact ⟨mine', .cons (permits_dequeue hd) hmoves⟩

theorem foldl_dequeue (v : Video) (done : List VideoBuffer) :
    (done.foldl Video.dequeue v).out = v.out ∧ (done.foldl Video.dequeue v).queued = v.queued ∧
      (done.foldl Video.dequeue v).done = v.done.drop done.length := by
  induction done generalizing v with
  | nil => exact ⟨rfl, rfl, rfl⟩
  | cons b done ih =>
    obtain ⟨hout, hqueued, hdone⟩ := ih (v.dequeue b)
    rw [List.foldl_cons, hdone, List.length_cons, Nat.add_comm, ← List.drop_drop, List.drop_one]
    exact ⟨hout, hqueued, rfl⟩

theorem drained_empty (cam : Cam) : cam.drained.video.out = cam.video.out ∧
    cam.drained.video.queued = [] ∧ cam.drained.video.done = [] := by
  obtain ⟨hout, hqueued, hdone⟩ := foldl_dequeue cam.video.stop cam.video.stop.done
  exact ⟨hout, hqueued, hdone.trans (List.drop_length ..)⟩

/-- Once the stream is stopped and drained the application has all its buffers. -/
theorem drained_spec (h : Mirrors cam) :
    Meets exec Permits cam.video (drainedCalls cam.video) ∧ Mirrors cam.drained ∧
      ∀ i b, cam.bufs i = some b → InHand cam.drained.video b := by
  obtain ⟨mine, howned⟩ := h.owned
  obtain ⟨mine', hmoves⟩ := moves_dequeues howned.stop
  have hall := hmoves.owned
  rw [run_dequeues] at hall
  obtain ⟨hout, hqueued, hdone⟩ := drained_empty cam
  refine ⟨meets_cons.mpr ⟨trivial, hmoves.allowed⟩, ⟨⟨mine', hall⟩, fun b => ?_, h.distinct⟩,
    fun i b hb => ?_⟩
  · rw [hout]
    exact h.out b
  · rw [InHand, hout, hqueued, hdone]
    exact ⟨(h.out b).mpr ⟨i, hb⟩, List.not_mem_nil, List.not_mem_nil⟩

/-- What an apply owes, and what it leaves. -/
theorem apply_spec (h : Mirrors cam) (c : Cfg) (hok : ∀ i, 0 ≤ calls.enqueue i)
    (hgives : Meets exec Gives cam.video (applyCalls cam c calls)) :
    Meets exec Permits cam.video (applyCalls cam c calls) ∧ Mirrors (camApply cam c calls).1 ∧
      (0 ≤ (camApply cam c calls).2 → ∀ i, GivenTo (camApply cam c calls).1 calls.setFormat.2 i) := by
  obtain ⟨hdrain, hdrained, hhand⟩ := drained_spec h
  by_cases hready : calls.ready = true
  · rw [applyCalls, if_pos hready, meets_append, ← drained_video] at hgives ⊢
    by_cases hset : calls.setFormat.1 < 0
    · rw [if_pos hset, camApply, if_pos hready]
      dsimp only
      rw [if_pos hset]
      exact ⟨⟨hdrain, meets_nil _ _ _⟩, hdrained, fun hret => absurd hset (Int.not_lt.mpr hret)⟩
    · obtain ⟨hvideo, hbufs, hsize, hret⟩ := camApply_given hready hset cam c
      rw [if_neg hset] at hgives ⊢
      let cam₀ := { cam.drained with format := some (format c) }
      have hcam₀ : Mirrors cam₀ := ⟨hdrained.owned, hdrained.out, hdrained.distinct⟩
      obtain ⟨hpermits, hmirrors, hgiven⟩ := giveBuffers_spec hcam₀ (List.nodup_finRange 2)
        (fun j _ b hb => hhand j b hb) (fun j hj => absurd (List.mem_finRange j) hj) hok hgives.2
      refine ⟨⟨hdrain, hpermits⟩, ⟨?_, ?_, ?_⟩, fun hpos i => ?_⟩
      · rw [hvideo]
        exact hmirrors.owned
      · rw [hvideo, hbufs]
        exact hmirrors.out
      · rw [hbufs]
        exact hmirrors.distinct
      · rw [GivenTo, hvideo, hbufs, hsize]
        refine hgiven ?_ i
        by_contra hfailed
        rw [hret, if_neg hfailed] at hpos
        exact absurd hpos (by decide)
  · have hfailed : ¬ 0 ≤ enodev := by decide
    rw [applyCalls, camApply, if_neg hready, if_neg hready]
    exact ⟨meets_nil _ _ _, h, fun hret => absurd hret hfailed⟩

theorem moves_requeue {mine : List VideoBuffer} (h : Owned v mine) (ns : List ℕ) :
    Moves v (requeueCalls ns v) mine := by
  induction ns generalizing v with
  | nil =>
    rw [requeueCalls]
    generalize hd : v.done = done
    induction done generalizing v with
    | nil => exact .nil h
    | cons b done ih =>
      have htaken := h.dequeue hd
      have hrest : (exec (exec v (.dequeue b)) (.enqueue b)).done = done := dequeue_done hd
      exact .cons (permits_dequeue hd)
        (.cons (htaken.inHand List.mem_cons_self) (ih htaken.enqueue hrest))
  | cons n ns ih =>
    rw [requeueCalls]
    cases hd : v.done with
    | nil => exact .nil h
    | cons b done =>
      have htaken := h.dequeue hd
      have hback := htaken.enqueue.fill n
      refine .cons (permits_dequeue hd)
        (.cons (htaken.inHand List.mem_cons_self) (.cons trivial ?_))
      exact ih hback

theorem requeueAll_out (ns : List ℕ) (v : Video) : (requeueAll ns v).out = v.out := by
  induction ns generalizing v with
  | nil =>
    rw [requeueAll]
    generalize v.done = done
    induction done generalizing v with
    | nil => rfl
    | cons b done ih => exact ih ((v.dequeue b).enqueue b)
  | cons n ns ih =>
    rw [requeueAll]
    cases v.done with
    | nil => rfl
    | cons b done => exact ih _

/-- What a grab leaves: the frame that it holds, if it got one. -/
structure Grabbed (s s' : Camera) (mine : List VideoBuffer) : Prop where
  bufs : s'.cam.bufs = s.cam.bufs
  out : s'.cam.video.out = s.cam.video.out
  applied : s'.applied = s.applied
  owned : (s'.held = s.held ∧ Owned s'.cam.video mine) ∨
    ∃ b, s'.held = some b ∧ Owned s'.cam.video (b :: mine)

theorem grab_spec {s : Camera} {mine : List VideoBuffer} (h : Owned s.cam.video mine)
    (calls : GrabCalls) :
    Meets exec Permits s.cam.video (grabCalls s.cam.video calls) ∧
      Grabbed s (grab s calls).1 mine := by
  unfold grab grabCalls
  by_cases hready : calls.ready = true
  · have hrequeue := moves_requeue h calls.refilled
    have hfilled := hrequeue.owned.fill calls.filled
    rw [if_pos hready, if_pos hready, meets_append, meets_cons, ← requeueAll_video]
    rw [← requeueAll_video] at hfilled
    have hout : ((requeueAll calls.refilled s.cam.video).fill calls.filled).out = s.cam.video.out :=
      requeueAll_out _ _
    change (_ ∧ _ ∧ Meets _ _ ((requeueAll calls.refilled s.cam.video).fill calls.filled) _) ∧ _
    dsimp only
    generalize (requeueAll calls.refilled s.cam.video).fill calls.filled = video at hfilled hout
    by_cases hdequeue : calls.dequeue < 0
    · rw [if_pos hdequeue, if_pos hdequeue]
      exact ⟨⟨hrequeue.allowed, trivial, meets_nil _ _ _⟩, rfl, hout, rfl, Or.inl ⟨rfl, hfilled⟩⟩
    · rw [if_neg hdequeue, if_neg hdequeue]
      cases hd : video.done with
      | nil =>
        exact ⟨⟨hrequeue.allowed, trivial, meets_nil _ _ _⟩, rfl, hout, rfl, Or.inl ⟨rfl, hfilled⟩⟩
      | cons b done =>
        have htaken := hfilled.dequeue hd
        exact ⟨⟨hrequeue.allowed, trivial, meets_cons.mpr ⟨permits_dequeue hd, meets_nil _ _ _⟩⟩,
          rfl, hout, rfl, Or.inr ⟨b, rfl, htaken⟩⟩
  · rw [if_neg hready, if_neg hready]
    exact ⟨meets_nil _ _ _, rfl, rfl, rfl, Or.inl ⟨rfl, h⟩⟩

/-- The application has `mine`, the frame that is held among them; after an apply that
succeeded it has nothing else. -/
structure Placed (s : Camera) (mine : List VideoBuffer) : Prop where
  owned : Owned s.cam.video mine
  out : ∀ b, b ∈ s.cam.video.out ↔ ∃ i, s.cam.bufs i = some b
  distinct : ∀ i j b, s.cam.bufs i = some b → s.cam.bufs j = some b → i = j
  held : ∀ b ∈ s.held, b ∈ mine
  busy : s.applied = true → ∀ i, ∃ b, s.cam.bufs i = some b ∧ (b ∈ mine → s.held = some b)

theorem Placed.mirrors {s : Camera} {mine : List VideoBuffer} (h : Placed s mine) :
    Mirrors s.cam := ⟨⟨mine, h.owned⟩, h.out, h.distinct⟩

/-- The driver takes the buffers that an apply gives it. -/
def Takes : Action → Prop
  | .apply _ calls => ∀ i, 0 ≤ calls.enqueue i
  | _ => True

/-- What the environment promises: the pool gives out what is free, and the driver takes
what it is given. -/
structure Promised (s : Camera) (a : Action) : Prop where
  gives : Meets exec Gives s.cam.video (actionCalls s a)
  takes : Takes a

structure Careful (s : Camera) (a : Action) (s' : Camera) : Prop where
  /-- its calls do what it does -/
  video : s'.cam.video = run exec s.cam.video (actionCalls s a)
  /-- it releases, enqueues and takes only what it has or what is done -/
  permitted : Meets exec Permits s.cam.video (actionCalls s a)
  /-- no buffer is enqueued while it is held, but by giving it back -/
  notHeld : ∀ b, .enqueue b ∈ actionCalls s a → s.held = none ∨ a = .release ∧ s.held = some b
  /-- an apply that succeeds gives the driver every buffer, large enough -/
  given : ∀ c calls, a = .apply c calls → s'.applied = true →
    ∀ i, GivenTo s'.cam calls.setFormat.2 i

variable {s s' : Camera} {mine : List VideoBuffer}

theorem apply_step (h : Placed s mine) {c : Cfg} (hp : Promised s (.apply c calls))
    (hs : step s (.apply c calls) = some s') :
    Careful s (.apply c calls) s' ∧ ∃ mine', Placed s' mine' := by
  have hvideo := step_video hs
  have hcalls : actionCalls s (.apply c calls) = applyCalls s.cam c calls := actionCalls_eq hs
  have hgives := hp.gives
  rw [hcalls] at hgives
  obtain ⟨hpermits, hmirrors, hgiven⟩ := apply_spec h.mirrors c hp.takes hgives
  rw [← hcalls] at hpermits
  rw [step] at hs
  split at hs
  · cases hs
  next hheld =>
    have hnone : s.held = none := by simpa using hheld
    cases hs
    refine ⟨⟨hvideo, hpermits, fun _ _ => Or.inl hnone, fun c' calls' ha happlied => ?_⟩, ?_⟩
    · cases ha
      exact hgiven (of_decide_eq_true happlied)
    · obtain ⟨mine', howned⟩ := hmirrors.owned
      refine ⟨mine', howned, hmirrors.out, hmirrors.distinct, fun b hb => ?_, fun happlied i => ?_⟩
      · rw [hnone] at hb
        cases hb
      · obtain ⟨b, hb, hqueued, -⟩ := hgiven (of_decide_eq_true happlied) i
        have hdriver := howned.mem_driver.mp (List.mem_append_left _ hqueued)
        exact ⟨b, hb, fun hm => absurd hm hdriver.2⟩

theorem grab_step (h : Placed s mine) {calls : GrabCalls}
    (hs : step s (.grab calls) = some s') :
    Careful s (.grab calls) s' ∧ ∃ mine', Placed s' mine' := by
  have hvideo := step_video hs
  obtain ⟨hpermits, hgrabbed⟩ := grab_spec h.owned calls
  have hcalls : actionCalls s (.grab calls) = grabCalls s.cam.video calls := actionCalls_eq hs
  rw [← hcalls] at hpermits
  rw [step] at hs
  split at hs
  · cases hs
  next hheld =>
    have hnone : s.held = none := by simpa using hheld
    cases hs
    refine ⟨⟨hvideo, hpermits, fun _ _ => Or.inl hnone, fun c calls ha => (nomatch ha)⟩, ?_⟩
    have hout : ∀ b, b ∈ (grab s calls).1.cam.video.out ↔ ∃ i, (grab s calls).1.cam.bufs i = some b := by
      rw [hgrabbed.out, hgrabbed.bufs]
      exact h.out
    have hdistinct := h.distinct
    rw [← hgrabbed.bufs] at hdistinct
    have hbusy := h.busy
    rw [← hgrabbed.applied, ← hgrabbed.bufs] at hbusy
    rcases hgrabbed.owned with ⟨hsame, howned⟩ | ⟨b, hb, howned⟩
    · refine ⟨mine, howned, hout, hdistinct, ?_, ?_⟩
      · rw [hsame]
        exact h.held
      · rw [hsame]
        exact hbusy
    · refine ⟨b :: mine, howned, hout, hdistinct, fun c hc => ?_, fun happlied i => ?_⟩
      · obtain rfl : b = c := Option.some.inj (hb.symm.trans hc)
        exact List.mem_cons_self
      · obtain ⟨c, hc, hmine⟩ := hbusy happlied i
        refine ⟨c, hc, fun hmem => ?_⟩
        rcases List.mem_cons.mp hmem with rfl | hmem
        · exact hb
        · have hheld' := hmine hmem
          rw [hnone] at hheld'
          cases hheld'

theorem release_step (h : Placed s mine) (hs : step s .release = some s') :
    Careful s .release s' ∧ ∃ mine', Placed s' mine' := by
  have hvideo := step_video hs
  have hlisted := actionCalls_eq hs
  obtain ⟨b, hb, rfl⟩ := Option.map_eq_some_iff.mp hs
  have hhand := h.owned.inHand (h.held b hb)
  have hcalls : actionCalls s .release = [.enqueue b] := by
    rw [hlisted, listedCalls, hb]
    rfl
  refine ⟨⟨hvideo, ?_, fun c hc => Or.inr ⟨rfl, ?_⟩, fun c calls ha => (nomatch ha)⟩, mine.erase b,
    h.owned.enqueue_inHand hhand, h.out, h.distinct, fun c hc => (nomatch hc), fun happlied i => ?_⟩
  · rw [hcalls]
    exact meets_cons.mpr ⟨hhand, meets_nil _ _ _⟩
  · rw [hcalls] at hc
    cases List.mem_singleton.mp hc
    exact hb
  · obtain ⟨c, hc, hmine⟩ := h.busy happlied i
    refine ⟨c, hc, fun hmem => ?_⟩
    obtain ⟨hne, hmem⟩ := (List.nodup_append.mp h.owned.places_nodup).1.mem_erase_iff.mp hmem
    exact absurd (Option.some.inj ((hmine hmem).symm.trans hb)) hne

theorem fill_step (h : Placed s mine) {n : ℕ} (hs : step s (.fill n) = some s') :
    Careful s (.fill n) s' ∧ ∃ mine', Placed s' mine' := by
  have hvideo := step_video hs
  have hcalls : actionCalls s (.fill n) = [.fill n] := actionCalls_eq hs
  cases hs
  refine ⟨⟨hvideo, ?_, fun b hb => ?_, fun c calls ha => (nomatch ha)⟩, mine, h.owned.fill n,
    h.out, h.distinct, h.held, h.busy⟩
  · rw [hcalls]
    exact meets_cons.mpr ⟨trivial, meets_nil _ _ _⟩
  · rw [hcalls] at hb
    cases List.mem_singleton.mp hb

theorem placed_step (h : Placed s mine) {a : Action} (hp : Promised s a)
    (hs : step s a = some s') : Careful s a s' ∧ ∃ mine', Placed s' mine' := by
  cases a with
  | apply c calls => exact apply_step h hp hs
  | grab calls => exact grab_step h hs
  | release => exact release_step h hs
  | fill n => exact fill_step h hs

/-- Where the buffers are between calls. -/
structure OnePlace (s : Camera) : Prop where
  /-- out of the pool is what `bufs` has -/
  out : ∀ b, b ∈ s.cam.video.out ↔ ∃ i, s.cam.bufs i = some b
  /-- the two buffers are two -/
  distinct : ∀ i j b, s.cam.bufs i = some b → s.cam.bufs j = some b → i = j
  /-- nothing is in two places or twice in one -/
  once : (s.held.toList ++ (s.cam.video.queued ++ s.cam.video.done)).Nodup
  /-- what is in a place is one of the two -/
  known : ∀ b ∈ s.held.toList ++ (s.cam.video.queued ++ s.cam.video.done),
    ∃ i, s.cam.bufs i = some b
  /-- a buffer is idle only after an apply that failed -/
  busy : s.applied = true → ∀ i, ∃ b, s.cam.bufs i = some b ∧
    b ∈ s.held.toList ++ (s.cam.video.queued ++ s.cam.video.done)

theorem Placed.onePlace (h : Placed s mine) : OnePlace s := by
  have hsub : ∀ b ∈ s.held.toList, b ∈ mine := fun b hb => h.held b (Option.mem_toList.mp hb)
  refine ⟨h.out, h.distinct, ?_, fun b hb => ?_, fun happlied i => ?_⟩
  · have hnodup := h.owned.places_nodup
    rw [List.nodup_append] at hnodup ⊢
    refine ⟨?_, hnodup.2.1, fun a ha b hb => hnodup.2.2 a (hsub a ha) b hb⟩
    cases s.held <;> simp
  · refine (h.out b).mp (h.owned.places.mem_iff.mpr ?_)
    exact List.mem_append.mpr ((List.mem_append.mp hb).imp_left (hsub b))
  · obtain ⟨b, hb, hmine⟩ := h.busy happlied i
    refine ⟨b, hb, ?_⟩
    by_cases hm : b ∈ mine
    · exact List.mem_append_left _ (Option.mem_toList.mpr (hmine hm))
    · exact List.mem_append_right _ (h.owned.mem_driver.mpr ⟨(h.out b).mpr ⟨i, hb⟩, hm⟩)

structure Fresh (s : Camera) : Prop where
  bufs : ∀ i, s.cam.bufs i = none
  video : s.cam.video = ⟨[], [], [], []⟩
  held : s.held = none
  applied : s.applied = false

theorem Fresh.placed (h : Fresh s) : Placed s [] := by
  refine ⟨?_, fun b => ?_, fun i j b hb => ?_, fun b hb => ?_, fun happlied => ?_⟩
  · rw [h.video]
    exact ⟨List.nodup_nil, .refl _⟩
  · rw [h.video]
    refine iff_of_false List.not_mem_nil ?_
    rintro ⟨i, hb⟩
    rw [h.bufs i] at hb
    cases hb
  · rw [h.bufs i] at hb
    cases hb
  · rw [h.held] at hb
    cases hb
  · rw [h.applied] at happlied
    cases happlied

/-- In every run every buffer is in one place between calls, and every step is careful. -/
theorem buffers_onePlace {s₀ : Camera} (h₀ : Fresh s₀) (h : Reaches step Promised s₀ s) :
    OnePlace s ∧ ∀ a s', Promised s a → step s a = some s' → Careful s a s' := by
  have hinvariant : ∃ mine, Placed s mine := by
    refine h.invariant (I := fun s => ∃ mine, Placed s mine) ⟨[], h₀.placed⟩ fun t u a ht hp hs => ?_
    obtain ⟨mine, ht⟩ := ht
    exact (placed_step ht hp hs).2
  obtain ⟨mine, hplaced⟩ := hinvariant
  exact ⟨hplaced.onePlace, fun a s' hp hs => (placed_step hplaced hp hs).1⟩

def coldCamera : Camera where
  cam := ⟨fun _ => none, false, ⟨[], [], [], []⟩, fun _ => 0, none, fun _ => none⟩
  held := none
  applied := false

/-- Calls of an apply that all succeed while the pool, from the buffer `first` on, has one
below `free`. -/
def applyOf (size first free : ℕ) : ApplyCalls where
  ready := true
  setFormat := (0, size)
  alloc i := if first + i.val < free then some (first + i.val) else none
  enqueue _ := 0
  setCtrl _ := 0
  streamStart := 0

/-- An apply with memory for one buffer only, one with memory for two that are larger, and a
frame that is held. -/
def someActions : List Action :=
  [.apply cfgDefault (applyOf 100 0 1), .apply cfgDefault (applyOf 200 1 3),
    .grab ⟨true, [0], 1, 0⟩]

theorem someActions_allowed : Allows step Promised coldCamera someActions := by
  refine ⟨⟨by decide, fun i => Int.le_refl 0⟩, fun t ht => ?_⟩
  obtain rfl := Option.some.inj ht
  refine ⟨⟨by decide, fun i => Int.le_refl 0⟩, fun t ht => ?_⟩
  obtain rfl := Option.some.inj ht
  exact ⟨⟨by decide, trivial⟩, fun t ht => trivial⟩

def holdingCamera : Camera := (runFrom step coldCamera someActions).get (by decide)

theorem buffers_onePlace_holding : holdingCamera.held = some 1 ∧ OnePlace holdingCamera := by
  have hrun : runFrom step coldCamera someActions = some holdingCamera := (Option.some_get _).symm
  have hreaches := Reaches.runFrom .start someActions_allowed hrun
  exact ⟨by decide, (buffers_onePlace ⟨fun i => rfl, rfl, rfl, rfl⟩ hreaches).1⟩

end ZephyrApps.CameraBuffers
