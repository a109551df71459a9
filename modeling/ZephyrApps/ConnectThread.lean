import ZephyrApps.PrusaCfg
import ZephyrApps.SystemRuns

/-!
# The upload thread of the Prusa camera

`connect.c`: the thread that sends camera-info and snapshots, and those that wake it up. The
flags and the semaphore `kick` are what they share. What the service answers and what the
WiFi interface says are arguments; a timeout may come at any time from its due on.
-/
namespace ZephyrApps.ConnectThread
open AppSettings CStrings PrusaCfg SystemRuns

variable {ι N : Type*}

/-- `enum prusa_camera_next` -/
inductive Next where
  | ok
  | wait
  | retry
  | stop
  deriving DecidableEq

/-- `-EMSGSIZE` -/
def emsgsize : Int := -122

/-- `prusa_camera_next` -/
def prusaCameraNext (result : Int) : Next :=
  if 200 ≤ result ∧ result < 300 then .ok
  else if result = 429 ∨ result = 503 then .wait
  else if result = einval ∨ result = emsgsize then .stop
  else if result < 0 ∨ 500 ≤ result then .retry
  else .stop

/-- The fields of `struct prusa_camera_info` that are not the same in every camera-info. -/
structure CameraInfo (N : Type*) where
  name : Text
  trigger : Option ℕ
  rotation : ℕ
  width : UInt16
  height : UInt16
  network : N

structure Built (N : Type*) where
  cfg : Cfg
  net : N
  deriving DecidableEq

/-- The camera-info of `send_info`. -/
def Built.info (b : Built N) : CameraInfo N :=
  let size := (cfgResolutions[b.cfg.resolution.toNat]?.map Prod.snd).getD (0, 0)
  { name := b.cfg.name
    trigger := prusaCameraTriggerFromSeconds b.cfg.intervalS.toNat
    rotation := b.cfg.rotation.toNat * 90
    width := size.1
    height := size.2
    network := b.net }

/-- The requests of `step`. -/
inductive Kind where
  | test
  | info
  | snapshot
  deriving DecidableEq

inductive Job where
  | change (c : Cfg)
  | event
  | test
  deriving DecidableEq

inductive Phase where
  | idle
  | stored
  | flagged
  | returned (err : Int)
  deriving DecidableEq

inductive Pc (N : Type*) where
  /-- at the top of its loop -/
  | top
  /-- in `k_sem_take` for so many seconds -/
  | pended (wait : ℕ)
  /-- `k_sem_take` returned 0 -/
  | woken
  /-- at the second `cfg_get` -/
  | passing
  /-- at the beginning of `step` -/
  | copied (c : Cfg)
  /-- before it looks at `INFO_STALE` -/
  | choosing (c : Cfg)
  | testing
  | informing (b : Built N)
  | snapping
  /-- camera-info was accepted, and `INFO_STALE` is to be cleared -/
  | clearing (c : Cfg)
  deriving DecidableEq

/-- What happened, as far as it concerns refusals. -/
inductive Event where
  | sent (k : Kind)
  | answered (k : Kind) (next : Next)
  /-- a change, an address event or a kick gave the semaphore -/
  | kicked
  deriving DecidableEq

structure System (ι N : Type*) where
  store : CfgStore
  infoStale : Bool
  testRequested : Bool
  kick : Bool
  stopped : Bool
  fails : UInt32
  pc : Pc N
  phase : ι → Phase
  /-- what the service accepted last as camera-info -/
  accepted : Option (Built N)
  log : List Event

def start (s : CfgStore) : System ι N where
  store := s
  infoStale := true
  testRequested := false
  kick := false
  stopped := false
  fails := 0
  pc := .top
  phase := fun _ => .idle
  accepted := none
  log := []

variable [DecidableEq ι]

def System.move (s : System ι N) (i : ι) (p : Phase) : System ι N :=
  { s with phase := Function.update s.phase i p }

/-- `k_sem_give(&kick)`, which wakes the thread up if it waits. -/
def System.give (s : System ι N) : System ι N :=
  match s.pc with
  | .pended _ => { s with pc := .woken }
  | _ => { s with kick := true }

def System.record (s : System ι N) (e : Event) : System ι N := { s with log := s.log ++ [e] }

/-- `cfg_set`, whose `cfg_changed` is still to come. -/
def System.storeCfg (s : System ι N) (i : ι) (c : Cfg) (saved : Int) : System ι N :=
  let (store, ret) := cfgSet s.store c saved
  { s with store }.move i (if ret = 0 then .stored else .returned ret)

/-- `atomic_set_bit` of `connect_kick`, `addr_event` and `connect_test`; a change comes to it
after its store. -/
def System.flag (s : System ι N) (i : ι) : Job → Option (System ι N)
  | .change _ => if s.phase i = .stored then some ({ s with infoStale := true }.move i .flagged) else none
  | .event => if s.phase i = .idle then some ({ s with infoStale := true }.move i .flagged) else none
  | .test => if s.phase i = .idle then some ({ s with testRequested := true }.move i .flagged) else none

/-- `k_sem_give` of the same. -/
def System.giveOf (s : System ι N) (i : ι) : Job → System ι N
  | .test => s.give.move i (.returned 0)
  | .change _ | .event => (s.give.move i (.returned 0)).record .kicked

/-- How long `k_sem_take` waits. -/
def waitTime (c : Cfg) (fails : UInt32) : ℕ :=
  max (min (c.intervalS.toNat <<< min fails.toNat 6) 600) c.intervalS.toNat

/-- `k_sem_take` -/
def System.take (s : System ι N) : System ι N :=
  if s.kick then { s with kick := false, pc := .woken }
  else { s with pc := .pended (waitTime s.store.ram s.fails) }

def System.wake (s : System ι N) : System ι N :=
  { s with stopped := if s.testRequested then s.stopped else false, pc := .passing }

/-- The second `cfg_get`, and the test for a token. -/
def System.copy (s : System ι N) : System ι N :=
  if s.store.ram.token = [] then { s with pc := .top } else { s with pc := .copied s.store.ram }

/-- The beginning of `step`. -/
def System.begin (s : System ι N) (c : Cfg) : System ι N :=
  if s.testRequested then { s with testRequested := false, pc := .testing }.record (.sent .test)
  else if s.stopped then { s with pc := .top }
  else { s with pc := .choosing c }

def System.choose (s : System ι N) (c : Cfg) (net : N) : System ι N :=
  if s.infoStale then { s with pc := .informing ⟨c, net⟩ }.record (.sent .info)
  else { s with pc := .snapping }.record (.sent .snapshot)

/-- What `step` and the loop make of an answer. -/
def System.finish (s : System ι N) (next : Next) : System ι N :=
  { s with
    stopped := decide (next = .stop)
    fails := match next with
      | .retry => s.fails + 1
      | .ok => 0
      | .wait | .stop => s.fails
    pc := .top }

/-- The service, or what stands between it and the camera, answers. -/
def System.answer (s : System ι N) (ret : Int) : Option (System ι N) :=
  let next := prusaCameraNext ret
  match s.pc with
  | .testing => some ((s.finish next).record (.answered .test next))
  | .snapping => some ((s.finish next).record (.answered .snapshot next))
  | .informing b =>
    if next = .ok then
      some ({ s with accepted := some b, pc := .clearing b.cfg }.record (.answered .info next))
    else some ((s.finish next).record (.answered .info next))
  | _ => none

/-- `INFO_STALE` is cleared. -/
def System.clear (s : System ι N) : System ι N := { s with infoStale := false }.finish .ok

inductive Act (ι N : Type*) where
  | store (i : ι) (saved : Int)
  | flag (i : ι)
  | give (i : ι)
  | take
  | timeout (elapsed : ℕ)
  | wake
  | copy
  | begin
  | choose (net : N)
  | answer (ret : Int)
  | clear

def step (jobs : ι → Job) (s : System ι N) : Act ι N → Option (System ι N)
  | .store i saved =>
    match jobs i, s.phase i with
    | .change c, .idle => some (s.storeCfg i c saved)
    | _, _ => none
  | .flag i => s.flag i (jobs i)
  | .give i => if s.phase i = .flagged then some (s.giveOf i (jobs i)) else none
  | .take =>
    match s.pc with
    | .top => some s.take
    | _ => none
  | .timeout elapsed =>
    match s.pc with
    | .pended wait => if wait ≤ elapsed then some { s with pc := .passing } else none
    | _ => none
  | .wake =>
    match s.pc with
    | .woken => some s.wake
    | _ => none
  | .copy =>
    match s.pc with
    | .passing => some s.copy
    | _ => none
  | .begin =>
    match s.pc with
    | .copied c => some (s.begin c)
    | _ => none
  | .choose net =>
    match s.pc with
    | .choosing c => some (s.choose c net)
    | _ => none
  | .answer ret => s.answer ret
  | .clear =>
    match s.pc with
    | .clearing _ => some s.clear
    | _ => none

/-- The steps that are enabled, with where they lead. -/
inductive Moves (jobs : ι → Job) (s : System ι N) : Act ι N → System ι N → Prop where
  | store {i c saved} (job : jobs i = .change c) (idle : s.phase i = .idle) :
    Moves jobs s (.store i saved) (s.storeCfg i c saved)
  | flagChange {i c} (job : jobs i = .change c) (stored : s.phase i = .stored) :
    Moves jobs s (.flag i) ({ s with infoStale := true }.move i .flagged)
  | flagEvent {i} (job : jobs i = .event) (idle : s.phase i = .idle) :
    Moves jobs s (.flag i) ({ s with infoStale := true }.move i .flagged)
  | flagTest {i} (job : jobs i = .test) (idle : s.phase i = .idle) :
    Moves jobs s (.flag i) ({ s with testRequested := true }.move i .flagged)
  | give {i} (flagged : s.phase i = .flagged) : Moves jobs s (.give i) (s.giveOf i (jobs i))
  | take (top : s.pc = .top) : Moves jobs s .take s.take
  | timeout {wait elapsed} (pended : s.pc = .pended wait) (due : wait ≤ elapsed) :
    Moves jobs s (.timeout elapsed) { s with pc := .passing }
  | wake (woken : s.pc = .woken) : Moves jobs s .wake s.wake
  | copy (passing : s.pc = .passing) : Moves jobs s .copy s.copy
  | begin {c} (copied : s.pc = .copied c) : Moves jobs s .begin (s.begin c)
  | choose {c net} (choosing : s.pc = .choosing c) : Moves jobs s (.choose net) (s.choose c net)
  | tested {ret} (testing : s.pc = .testing) : Moves jobs s (.answer ret)
      ((s.finish (prusaCameraNext ret)).record (.answered .test (prusaCameraNext ret)))
  | snapped {ret} (snapping : s.pc = .snapping) : Moves jobs s (.answer ret)
      ((s.finish (prusaCameraNext ret)).record (.answered .snapshot (prusaCameraNext ret)))
  | accepted {b ret} (informing : s.pc = .informing b) (ok : prusaCameraNext ret = .ok) :
    Moves jobs s (.answer ret)
      ({ s with accepted := some b, pc := .clearing b.cfg }.record (.answered .info .ok))
  | rejected {b ret} (informing : s.pc = .informing b) (failed : prusaCameraNext ret ≠ .ok) :
    Moves jobs s (.answer ret)
      ((s.finish (prusaCameraNext ret)).record (.answered .info (prusaCameraNext ret)))
  | clear {c} (clearing : s.pc = .clearing c) : Moves jobs s .clear s.clear

theorem flag_moves {jobs : ι → Job} {s u : System ι N} {i : ι} (h : s.flag i (jobs i) = some u) :
    Moves jobs s (.flag i) u := by
  cases hj : jobs i with
  | change c =>
    simp only [System.flag, hj] at h
    split at h
    case isTrue hi =>
      cases h
      exact .flagChange hj hi
    case isFalse => cases h
  | event =>
    simp only [System.flag, hj] at h
    split at h
    case isTrue hi =>
      cases h
      exact .flagEvent hj hi
    case isFalse => cases h
  | test =>
    simp only [System.flag, hj] at h
    split at h
    case isTrue hi =>
      cases h
      exact .flagTest hj hi
    case isFalse => cases h

theorem answer_moves {jobs : ι → Job} {s u : System ι N} {ret : Int} (h : s.answer ret = some u) :
    Moves jobs s (.answer ret) u := by
  unfold System.answer at h
  dsimp only at h
  split at h
  case h_1 hpc =>
    cases h
    exact .tested hpc
  case h_2 hpc =>
    cases h
    exact .snapped hpc
  case h_3 b hpc =>
    split at h
    case isTrue hok =>
      rw [hok] at h
      cases h
      exact .accepted hpc hok
    case isFalse hno =>
      cases h
      exact .rejected hpc hno
  case h_4 => cases h

theorem step_moves {jobs : ι → Job} {s u : System ι N} {a : Act ι N} (h : step jobs s a = some u) :
    Moves jobs s a u := by
  cases a with
  | flag i => exact flag_moves h
  | answer ret => exact answer_moves h
  | store i saved =>
    simp only [step] at h
    split at h
    case h_1 hj hi =>
      cases h
      exact .store hj hi
    case h_2 => cases h
  | give i =>
    simp only [step] at h
    split at h
    case isTrue hi =>
      cases h
      exact .give hi
    case isFalse => cases h
  | take =>
    simp only [step] at h
    split at h
    case h_1 hpc =>
      cases h
      exact .take hpc
    case h_2 => cases h
  | timeout elapsed =>
    simp only [step] at h
    split at h
    case h_1 hpc =>
      split at h
      case isTrue hdue =>
        cases h
        exact .timeout hpc hdue
      case isFalse => cases h
    case h_2 => cases h
  | wake =>
    simp only [step] at h
    split at h
    case h_1 hpc =>
      cases h
      exact .wake hpc
    case h_2 => cases h
  | copy =>
    simp only [step] at h
    split at h
    case h_1 hpc =>
      cases h
      exact .copy hpc
    case h_2 => cases h
  | begin =>
    simp only [step] at h
    split at h
    case h_1 hpc =>
      cases h
      exact .begin hpc
    case h_2 => cases h
  | choose net =>
    simp only [step] at h
    split at h
    case h_1 hpc =>
      cases h
      exact .choose hpc
    case h_2 => cases h
  | clear =>
    simp only [step] at h
    split at h
    case h_1 hpc =>
      cases h
      exact .clear hpc
    case h_2 => cases h

end ZephyrApps.ConnectThread
