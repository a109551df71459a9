import ZephyrApps.AppSettings

/-!
# What the HTTP thread writes

The HTTP handlers reach the comparator through the settings and through two
words of request bits, one bit a slot. `HttpStep` lists the single writes; a
handler is a sequence of them, and ticks may fall between any two.
-/
namespace ZephyrApps.ControlPlane
open AppSettings

structure Shared where
  settings : Settings
  rebondRequests : Slot → Bool
  reconfigureRequests : Slot → Bool

/-- `atomic_or` of one slot's bit. -/
def raise (requests : Slot → Bool) (slot : Slot) : Slot → Bool :=
  Function.update requests slot true

/-- `pstop_lockstep_request_reconfigure` -/
def Shared.requestReconfigure (σ : Shared) (slot : Int) : Shared × Int :=
  match slotOf slot with
  | none => (σ, einval)
  | some i => ({ σ with reconfigureRequests := raise σ.reconfigureRequests i }, 0)

/-- `pstop_lockstep_request_rebond` -/
def Shared.requestRebond (σ : Shared) (slot : Int) : Shared × Int :=
  match slotOf slot with
  | none => (σ, einval)
  | some i => ({ σ with rebondRequests := raise σ.rebondRequests i }, 0)

/-- One write of the HTTP thread; `saved` is what `settings_save_one` returned. -/
inductive HttpStep where
  | setPeer (slot : Int) (ip : UInt32) (port : UInt16) (id : UInt32) (saved : Int)
  | clearPeer (slot : Int) (saved : Int)
  | setDeviceId (id : UInt32) (saved : Int)
  | setOperator (op : Bool) (saved : Int)
  | requestReconfigure (slot : Int)
  | requestRebond (slot : Int)
  deriving DecidableEq

def HttpStep.apply (σ : Shared) : HttpStep → Shared
  | .setPeer slot ip port id saved =>
      { σ with settings := (σ.settings.setPeer slot ip port id saved).1 }
  | .clearPeer slot saved => { σ with settings := (σ.settings.clearPeer slot saved).1 }
  | .setDeviceId id saved => { σ with settings := (σ.settings.setDeviceId id saved).1 }
  | .setOperator op saved => { σ with settings := (σ.settings.setOperator op saved).1 }
  | .requestReconfigure slot => (σ.requestReconfigure slot).1
  | .requestRebond slot => (σ.requestRebond slot).1

def Shared.after (σ : Shared) (steps : List HttpStep) : Shared := steps.foldl HttpStep.apply σ

@[simp] theorem Shared.after_nil (σ : Shared) : σ.after [] = σ := rfl

@[simp] theorem Shared.after_cons (σ : Shared) (step : HttpStep) (steps : List HttpStep) :
    σ.after (step :: steps) = (step.apply σ).after steps := rfl

def HttpStep.setsId : HttpStep → Bool
  | .setDeviceId _ _ => true
  | _ => false

/-- Only a device id write changes the effective device id. -/
theorem apply_effectiveDeviceId {step : HttpStep} (h : step.setsId = false) (σ : Shared) :
    (step.apply σ).settings.effectiveDeviceId = σ.settings.effectiveDeviceId := by
  cases step with
  | setPeer slot ip port id saved =>
    simp only [HttpStep.apply, Settings.setPeer, Settings.storePeer]
    cases slotOf slot with
    | none => rfl
    | some i => by_cases hs : saved = 0 <;> simp [hs, Settings.effectiveDeviceId]
  | clearPeer slot saved =>
    simp only [HttpStep.apply, Settings.clearPeer, Settings.storePeer]
    cases slotOf slot with
    | none => rfl
    | some i => by_cases hs : saved = 0 <;> simp [hs, Settings.effectiveDeviceId]
  | setDeviceId id saved => simp [HttpStep.setsId] at h
  | setOperator op saved =>
    by_cases hs : saved = 0 <;>
      simp [HttpStep.apply, Settings.setOperator, hs, Settings.effectiveDeviceId]
  | requestReconfigure slot =>
    simp only [HttpStep.apply, Shared.requestReconfigure]
    cases slotOf slot <;> rfl
  | requestRebond slot =>
    simp only [HttpStep.apply, Shared.requestRebond]
    cases slotOf slot <;> rfl

theorem after_effectiveDeviceId {steps : List HttpStep} (h : ∀ step ∈ steps, step.setsId = false)
    (σ : Shared) : (σ.after steps).settings.effectiveDeviceId = σ.settings.effectiveDeviceId := by
  induction steps generalizing σ with
  | nil => rfl
  | cons step steps ih =>
    rw [Shared.after_cons, ih fun x hx => h x (by simp [hx]),
      apply_effectiveDeviceId (h step (by simp))]

/-- The writes of a settings POST that pins device id `id`: the id first, then a
reconfigure request for every slot. -/
def postDeviceId (id : UInt32) : List HttpStep :=
  [.setDeviceId id 0, .requestReconfigure 0, .requestReconfigure 1, .requestReconfigure 2,
    .requestReconfigure 3]

end ZephyrApps.ControlPlane
