import ZephyrApps.PrusaCfg
import ZephyrApps.VideoBuffers

/-!
# The camera of the Prusa camera

`cam_apply` of `cam.c`. What the calls of the video driver return is an argument.
-/
namespace ZephyrApps.PrusaCam
open AppSettings PrusaCfg VideoBuffers

/-- `-ENODEV` and `-ENOMEM` -/
def enodev : Int := -19
def enomem : Int := -12

/-- The controls that `cam_apply` sets. -/
inductive Ctrl where
  | jpegCompressionQuality
  | hflip
  | vflip
  | brightness
  | contrast
  | saturation
  | exposure
  | whiteBalanceTemperature
  | gain
  deriving DecidableEq

/-- What the calls of one `cam_apply` return; `setFormat` has the size it fills in, and `alloc`
and `enqueue` are for the buffer of that number. -/
structure ApplyCalls where
  ready : Bool
  setFormat : Int × ℕ
  alloc : Fin 2 → Option VideoBuffer
  enqueue : Fin 2 → Int
  setCtrl : Ctrl → Int
  streamStart : Int

/-- The statics of `cam.c`, and what the driver has. -/
structure Cam where
  bufs : Fin 2 → Option VideoBuffer
  useFlash : Bool
  video : Video
  size : VideoBuffer → ℕ
  format : Option (UInt16 × UInt16)
  ctrl : Ctrl → Option Int

/-- `set_ctrl` -/
def Cam.setCtrl (cam : Cam) (calls : ApplyCalls) (k : Ctrl) (val : Int) : Cam :=
  if calls.setCtrl k < 0 then cam else { cam with ctrl := Function.update cam.ctrl k (some val) }

def Cam.drained (cam : Cam) : Cam :=
  { cam with video := cam.video.stop.done.foldl Video.dequeue cam.video.stop }

def Cam.releaseSmall (cam : Cam) (size : ℕ) (i : Fin 2) : Cam :=
  match cam.bufs i with
  | none => cam
  | some b =>
    if cam.size b < size then
      { cam with bufs := Function.update cam.bufs i none, video := cam.video.release b }
    else cam

def Cam.take (cam : Cam) (size : ℕ) (i : Fin 2) (b : VideoBuffer) : Cam :=
  { cam with
    bufs := Function.update cam.bufs i (some b)
    video := cam.video.alloc b
    size := Function.update cam.size b size }

/-- `video_enqueue`, whose result is not looked at. -/
def Cam.enqueue (cam : Cam) (calls : ApplyCalls) (i : Fin 2) (b : VideoBuffer) : Cam :=
  if calls.enqueue i < 0 then cam else { cam with video := cam.video.enqueue b }

/-- A buffer that is large enough is given to the driver; false if there is no memory for it. -/
def Cam.giveBuffer (cam : Cam) (calls : ApplyCalls) (i : Fin 2) : Cam × Bool :=
  let cam := cam.releaseSmall calls.setFormat.2 i
  match cam.bufs i with
  | some b => (cam.enqueue calls i b, true)
  | none =>
    match calls.alloc i with
    | none => (cam, false)
    | some b => ((cam.take calls.setFormat.2 i b).enqueue calls i b, true)

def Cam.giveBuffers (cam : Cam) (calls : ApplyCalls) : List (Fin 2) → Cam × Bool
  | [] => (cam, true)
  | i :: rest =>
    match cam.giveBuffer calls i with
    | (cam, false) => (cam, false)
    | (cam, true) => cam.giveBuffers calls rest

/-- The size in pixels that a configuration asks for; `cfg_set` lets no other number in. -/
def format (c : Cfg) : UInt16 × UInt16 :=
  (cfgResolutions[c.resolution.toNat]?.map Prod.snd).getD (0, 0)

def ctrlVal (c : Cfg) : Ctrl → Int
  | .jpegCompressionQuality => c.quality.toNat
  | .hflip => c.hflip.toNat
  | .vflip => c.vflip.toNat
  | .brightness => c.brightness.toInt
  | .contrast => c.contrast.toInt
  | .saturation => c.saturation.toInt
  | .exposure => c.autoExposure.toNat
  | .whiteBalanceTemperature => c.autoWb.toNat
  | .gain => c.autoGain.toNat

/-- The order in which `cam_apply` sets the controls. -/
def ctrls : List Ctrl :=
  [.jpegCompressionQuality, .hflip, .vflip, .brightness, .contrast, .saturation, .exposure,
    .whiteBalanceTemperature, .gain]

/-- `cam_apply` -/
def camApply (cam : Cam) (c : Cfg) (calls : ApplyCalls) : Cam × Int :=
  if calls.ready then
    let cam := cam.drained
    if calls.setFormat.1 < 0 then (cam, calls.setFormat.1)
    else
      match { cam with format := some (format c) }.giveBuffers calls (List.finRange 2) with
      | (cam, false) => (cam, enomem)
      | (cam, true) =>
        let cam := ctrls.foldl (fun cam k => cam.setCtrl calls k (ctrlVal c k)) cam
        ({ cam with useFlash := c.flash }, calls.streamStart)
  else (cam, enodev)

structure Settings where
  format : UInt16 × UInt16
  ctrl : Ctrl → Int
  flash : Bool

def settings (c : Cfg) : Settings := ⟨format c, ctrlVal c, c.flash⟩

/-- These settings are the last that were applied. -/
structure Cam.Runs (cam : Cam) (x : Settings) : Prop where
  format : cam.format = some x.format
  ctrl : ∀ k, cam.ctrl k = some (x.ctrl k)
  flash : cam.useFlash = x.flash

theorem runs_unique {cam : Cam} {x y : Settings} (hx : cam.Runs x) (hy : cam.Runs y) : x = y := by
  obtain ⟨xf, xc, xl⟩ := x
  obtain ⟨yf, yc, yl⟩ := y
  have hf : xf = yf := Option.some.inj (hx.format.symm.trans hy.format)
  have hc : xc = yc := funext fun k => Option.some.inj ((hx.ctrl k).symm.trans (hy.ctrl k))
  have hl : xl = yl := hx.flash.symm.trans hy.flash
  rw [hf, hc, hl]

structure ApplyCalls.Succeed (calls : ApplyCalls) : Prop where
  ready : calls.ready = true
  setFormat : 0 ≤ calls.setFormat.1
  alloc : ∀ i, (calls.alloc i).isSome
  enqueue : ∀ i, 0 ≤ calls.enqueue i
  setCtrl : ∀ k, 0 ≤ calls.setCtrl k
  streamStart : calls.streamStart = 0

variable {calls : ApplyCalls}

theorem releaseSmall_format (cam : Cam) (size : ℕ) (i : Fin 2) :
    (cam.releaseSmall size i).format = cam.format := by
  unfold Cam.releaseSmall
  split
  · rfl
  · split <;> rfl

theorem enqueue_format (cam : Cam) (i : Fin 2) (b : VideoBuffer) :
    (cam.enqueue calls i b).format = cam.format := by
  unfold Cam.enqueue
  split <;> rfl

theorem giveBuffer_format (calls : ApplyCalls) (cam : Cam) (i : Fin 2) :
    (cam.giveBuffer calls i).1.format = cam.format := by
  unfold Cam.giveBuffer
  dsimp only
  split
  · exact (enqueue_format _ i _).trans (releaseSmall_format cam _ i)
  · split
    · exact releaseSmall_format cam _ i
    · exact (enqueue_format _ i _).trans (releaseSmall_format cam _ i)

/-- The buffers have nothing to do with the format. -/
theorem giveBuffers_format (calls : ApplyCalls) (cam : Cam) (is : List (Fin 2)) :
    (cam.giveBuffers calls is).1.format = cam.format := by
  induction is generalizing cam with
  | nil => rfl
  | cons i rest ih =>
    have hi := giveBuffer_format calls cam i
    unfold Cam.giveBuffers
    split
    case h_1 cam' he =>
      rw [he] at hi
      exact hi
    case h_2 cam' he =>
      rw [he] at hi
      exact (ih cam').trans hi

theorem giveBuffer_true (h : ∀ i, (calls.alloc i).isSome) (cam : Cam) (i : Fin 2) :
    (cam.giveBuffer calls i).2 = true := by
  unfold Cam.giveBuffer
  dsimp only
  split
  · rfl
  · split
    case h_1 hnone => exact absurd (h i) (by simp [hnone])
    case h_2 => rfl

theorem giveBuffers_true (h : ∀ i, (calls.alloc i).isSome) (cam : Cam) (is : List (Fin 2)) :
    (cam.giveBuffers calls is).2 = true := by
  induction is generalizing cam with
  | nil => rfl
  | cons i rest ih =>
    have hi := giveBuffer_true h cam i
    unfold Cam.giveBuffers
    split
    case h_1 cam' he =>
      rw [he] at hi
      cases hi
    case h_2 cam' he => exact ih cam'

theorem setCtrl_of_ok {k : Ctrl} (h : 0 ≤ calls.setCtrl k) (cam : Cam) (val : Int) :
    cam.setCtrl calls k val = { cam with ctrl := Function.update cam.ctrl k (some val) } :=
  if_neg (Int.not_lt.mpr h)

/-- The controls that are set one after the other, and nothing else of the camera. -/
theorem setCtrls_spec (h : ∀ k, 0 ≤ calls.setCtrl k) (cam : Cam) (f : Ctrl → Int) (ks : List Ctrl) :
    ks.foldl (fun cam k => cam.setCtrl calls k (f k)) cam
      = { cam with ctrl := fun k => if k ∈ ks then some (f k) else cam.ctrl k } := by
  induction ks generalizing cam with
  | nil => simp
  | cons k ks ih =>
    rw [List.foldl_cons, setCtrl_of_ok (h k), ih]
    congr 1
    funext j
    by_cases hj : j = k
    · subst hj
      simp
    · simp [hj]

theorem mem_ctrls (k : Ctrl) : k ∈ ctrls := by cases k <;> decide

/-- With camera calls that succeed the camera runs the configuration that is applied. -/
theorem camApply_runs (h : calls.Succeed) (cam : Cam) (c : Cfg) :
    (camApply cam c calls).1.Runs (settings c) ∧ (camApply cam c calls).2 = 0 := by
  have hformat := giveBuffers_format calls { cam.drained with format := some (format c) }
    (List.finRange 2)
  have htrue := giveBuffers_true h.alloc { cam.drained with format := some (format c) } (List.finRange 2)
  unfold camApply
  rw [if_pos h.ready]
  dsimp only
  rw [if_neg (Int.not_lt.mpr h.setFormat)]
  split
  case h_1 cam' he =>
    rw [he] at htrue
    cases htrue
  case h_2 cam' he =>
    rw [he] at hformat
    rw [setCtrls_spec h.setCtrl]
    exact ⟨⟨hformat, fun k => if_pos (mem_ctrls k), rfl⟩, h.streamStart⟩

end ZephyrApps.PrusaCam
