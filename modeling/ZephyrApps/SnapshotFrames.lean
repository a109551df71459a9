import ZephyrApps.SnapshotImages
import ZephyrApps.WebRoutes

/-!
# The frame of a snapshot

`snapshot_cb` of `web.c`: the frame that it takes from the camera is sent from the camera's buffer,
in one chunk or behind an Exif header in two, and is given back when the transaction ends.
-/
namespace ZephyrApps.SnapshotFrames
open CStrings HttpUtil EventHistories SystemRuns PrusaCfg ConfigPages SnapshotImages WebRoutes
open HttpServer (TransactionStatus)

/-- A callback with what its calls return: `cfg_get` in `authorised`, `cam_snapshot`, and the
rotation of `cfg_get` after it. -/
structure Callback where
  status : TransactionStatus
  req : HttpRequest
  cfg : Cfg
  frame : Option (List UInt8)
  rotation : UInt8

def Callback.ends (c : Callback) : Bool := decide (c.status = .aborted ∨ c.status = .complete)

/-- What a callback does: `cam_snapshot` that returns a frame, sent for a rotation; `cam_release`;
a response; the end of its transaction. -/
inductive Out where
  | took (rotation : UInt8) (jpeg : List UInt8)
  | released
  | replied (r : Reply)
  | ended
  deriving DecidableEq

/-- `snapshot_route`, and what was done so far. -/
structure Snapshot where
  route : Route
  log : List Out

def boot : Snapshot := ⟨.zero, []⟩

def sendFrame (rotation : UInt8) (jpeg : List UInt8) (r : Route) : Route × Reply :=
  let r := { r with jpeg, camHeld := true }
  if exifWanted jpeg rotation then
    let exif := exifHeader (exifOrientation rotation)
    ({ r with exif, exifSent := true }, ⟨200, false, exif, false⟩)
  else (r, ⟨200, false, jpeg, true⟩)

variable {Status : Type} (lib : Library Status)

/-- `snapshot_cb` -/
def snapshotCb (s : Snapshot) (c : Callback) : Snapshot :=
  if c.ends then
    ⟨.zero, s.log ++ (if s.route.camHeld then [.released] else []) ++ [.ended]⟩
  else if s.route.exifSent then
    { s with log := s.log ++ [.replied ⟨200, false, s.route.jpeg.drop 2, true⟩] }
  else
    let r := s.route.capture lib.headerBuffer c.req
    if c.status ≠ .dataFinal then { s with route := r }
    else
      match authorised lib r.auth c.cfg with
      | some refusal => ⟨r, s.log ++ [.replied refusal]⟩
      | none =>
        match c.frame with
        | none => ⟨r, s.log ++ [.replied (reply 503 (text "no frame"))]⟩
        | some jpeg =>
          let (r, rsp) := sendFrame c.rotation jpeg r
          ⟨r, s.log ++ [.took c.rotation jpeg, .replied rsp]⟩

def Out.isEnd : Out → Bool
  | .ended => true
  | _ => false

def Out.body : Out → List UInt8
  | .replied r => r.body
  | _ => []

def Out.isFinal : Out → Bool
  | .replied r => r.finalChunk
  | _ => false

def sent (log : List Out) : List UInt8 := log.flatMap Out.body

def answered (log : List Out) : Bool := log.any Out.isFinal

def current (s : Snapshot) : List Out := since Out.isEnd s.log

def own (cs : List Callback) : List Callback := since Callback.ends cs

/-- The server asks for no more of a response that is complete. -/
def Served (s : Snapshot) (c : Callback) : Prop := answered (current s) = true → c.ends = true

instance (s : Snapshot) (c : Callback) : Decidable (Served s c) :=
  inferInstanceAs (Decidable (_ → _))

/-- A callback among `cs` has asked for the frame, when those up to it had brought the password. -/
def AskedBy (cs : List Callback) (rotation : UInt8) (jpeg : List UInt8) : Prop :=
  ∃ past c future, cs = past ++ c :: future ∧
    authorised lib (headerOf lib.headerBuffer ((past ++ [c]).map Callback.req)) c.cfg = none ∧
    c.frame = some jpeg ∧ c.rotation = rotation

/-- How far a transaction can be with its callbacks: what it has done, and whether the frame is
held. -/
inductive Transaction (cs : List Callback) : List Out → Bool → Prop where
  | gathering : Transaction cs [] false
  | refused (r : Reply) (status : r.status ∈ [401, 403, 503]) (complete : r.finalChunk = true) :
      Transaction cs [.replied r] false
  | frame (rotation : UInt8) (jpeg : List UInt8) (replies : List Reply)
      (asked : AskedBy lib cs rotation jpeg)
      (part : sent (replies.map .replied) <+: sentImage rotation jpeg)
      (whole : answered (replies.map .replied) = true →
        sent (replies.map .replied) = sentImage rotation jpeg) :
      Transaction cs (.took rotation jpeg :: replies.map .replied) true

def takes (log : List Out) : ℕ := log.countP fun o => match o with
  | .took _ _ => true
  | _ => false

def releases (log : List Out) : ℕ := log.count .released

inductive Stage (cs : List Callback) (s : Snapshot) : Prop where
  | gathering (log : current s = []) (held : s.route.camHeld = false)
      (unsent : s.route.exifSent = false)
      (gathered : Gathered lib.headerBuffer (cs.map Callback.req) s.route)
  | refused (r : Reply) (log : current s = [.replied r]) (held : s.route.camHeld = false)
      (status : r.status ∈ [401, 403, 503]) (complete : r.finalChunk = true)
  | sending (rotation : UInt8) (log : current s = [.took rotation s.route.jpeg,
        .replied ⟨200, false, exifHeader (exifOrientation rotation), false⟩])
      (held : s.route.camHeld = true) (sentExif : s.route.exifSent = true)
      (wanted : exifWanted s.route.jpeg rotation = true)
      (asked : AskedBy lib cs rotation s.route.jpeg)
  | done (rotation : UInt8) (jpeg : List UInt8) (replies : List Reply)
      (log : current s = .took rotation jpeg :: replies.map .replied)
      (held : s.route.camHeld = true) (asked : AskedBy lib cs rotation jpeg)
      (complete : answered (current s) = true)
      (all : sent (replies.map .replied) = sentImage rotation jpeg)

/-- As many frames were taken as given back, but for the one that is held. -/
def Balanced (s : Snapshot) : Prop :=
  takes s.log = releases s.log + if s.route.camHeld then 1 else 0

variable {lib} {cs : List Callback} {c : Callback} {s : Snapshot}

theorem current_append {s : Snapshot} {os : List Out} (hos : ∀ o ∈ os, o.isEnd = false)
    (r : Route) : current ⟨r, s.log ++ os⟩ = current s ++ os :=
  since_append_unmarked hos s.log

theorem capture_held (size : ℕ) (r : Route) (req : HttpRequest) :
    (r.capture size req).camHeld = r.camHeld ∧ (r.capture size req).exifSent = r.exifSent := by
  rw [Route.capture, captureAuth_eq, Route.gather]
  split
  · exact ⟨rfl, rfl⟩
  · split <;> exact ⟨rfl, rfl⟩

theorem AskedBy.later {rotation : UInt8} {jpeg : List UInt8} (h : AskedBy lib cs rotation jpeg)
    (c : Callback) : AskedBy lib (cs ++ [c]) rotation jpeg := by
  obtain ⟨past, x, future, rfl, hx⟩ := h
  exact ⟨past, x, future ++ [c], by simp, hx⟩

theorem authorised_refusal {auth : Text} {cfg : Cfg} {refusal : Reply}
    (h : authorised lib auth cfg = some refusal) :
    refusal.status ∈ [401, 403, 503] ∧ refusal.finalChunk = true := by
  unfold authorised at h
  split at h
  · cases h
    exact ⟨by decide, rfl⟩
  · split at h
    · cases h
    · cases h
      exact ⟨by decide, rfl⟩

theorem takes_append (log log' : List Out) : takes (log ++ log') = takes log + takes log' :=
  List.countP_append

theorem releases_append (log log' : List Out) :
    releases (log ++ log') = releases log + releases log' :=
  List.count_append

/-- An answer takes nothing and gives nothing back. -/
theorem Balanced.answer (h : Balanced s) {r : Route} (hr : r.camHeld = s.route.camHeld) (a : Reply) :
    Balanced ⟨r, s.log ++ [.replied a]⟩ := by
  unfold Balanced at h ⊢
  rw [takes_append, releases_append, h, hr]
  rfl

theorem Balanced.take (h : Balanced s) (hs : s.route.camHeld = false) {r : Route}
    (hr : r.camHeld = true) (rotation : UInt8) (jpeg : List UInt8) (a : Reply) :
    Balanced ⟨r, s.log ++ [.took rotation jpeg, .replied a]⟩ := by
  unfold Balanced at h ⊢
  rw [takes_append, releases_append, h, hs, hr]
  rfl

/-- The end of a transaction gives back what is held, and forgets the rest. -/
theorem end_stage (h : Balanced s) (hends : c.ends = true) :
    Stage lib [] (snapshotCb lib s c) ∧ Balanced (snapshotCb lib s c) := by
  unfold snapshotCb
  rw [if_pos hends]
  refine ⟨.gathering (since_concat_mark rfl _) rfl rfl (gathered_zero _), ?_⟩
  unfold Balanced at h ⊢
  rw [takes_append, releases_append, takes_append, releases_append, h]
  split <;> rfl

theorem current_first {os : List Out} (log : current s = []) (hos : ∀ o ∈ os, o.isEnd = false)
    (r : Route) : current ⟨r, s.log ++ os⟩ = os := by
  rw [current_append hos, log, List.nil_append]

theorem sendFrame_held (rotation : UInt8) (jpeg : List UInt8) (r : Route) :
    (sendFrame rotation jpeg r).1.camHeld = true := by
  unfold sendFrame
  dsimp only
  split <;> rfl

/-- The image goes out in two pieces if it has to be turned, and in one otherwise. -/
theorem sendFrame_stage {rotation : UInt8} {jpeg : List UInt8} (log : current s = [])
    (asked : AskedBy lib cs rotation jpeg) (r : Route) :
    Stage lib cs ⟨(sendFrame rotation jpeg r).1,
      s.log ++ [.took rotation jpeg, .replied (sendFrame rotation jpeg r).2]⟩ := by
  unfold sendFrame
  dsimp only
  split
  case isTrue wanted =>
    exact .sending rotation (current_first log (by simp [Out.isEnd]) _) rfl rfl wanted asked
  case isFalse plain =>
    have hcurrent : current ⟨{ r with jpeg, camHeld := true },
        s.log ++ [.took rotation jpeg, .replied ⟨200, false, jpeg, true⟩]⟩ =
        [.took rotation jpeg, .replied ⟨200, false, jpeg, true⟩] :=
      current_first log (by simp [Out.isEnd]) _
    refine .done rotation jpeg [⟨200, false, jpeg, true⟩] hcurrent rfl asked ?_ ?_
    · rw [hcurrent]
      rfl
    · rw [sentImage, if_neg plain]
      simp [sent, Out.body]

/-- The second piece of an image that is turned. -/
theorem rest_stage {rotation : UInt8}
    (log : current s = [.took rotation s.route.jpeg,
      .replied ⟨200, false, exifHeader (exifOrientation rotation), false⟩])
    (held : s.route.camHeld = true) (wanted : exifWanted s.route.jpeg rotation = true)
    (asked : AskedBy lib cs rotation s.route.jpeg) :
    Stage lib cs { s with log := s.log ++ [.replied ⟨200, false, s.route.jpeg.drop 2, true⟩] } := by
  refine .done rotation s.route.jpeg
    [⟨200, false, exifHeader (exifOrientation rotation), false⟩,
      ⟨200, false, s.route.jpeg.drop 2, true⟩] ?_ held asked ?_ ?_
  · rw [current_append (by simp [Out.isEnd]), log]
    rfl
  · rw [current_append (by simp [Out.isEnd]), log]
    rfl
  · rw [sentImage, if_pos wanted]
    simp [sent, Out.body]

theorem next_stage (h : Stage lib cs s) (hb : Balanced s) (hs : Served s c)
    (hends : c.ends = false) :
    Stage lib (cs ++ [c]) (snapshotCb lib s c) ∧ Balanced (snapshotCb lib s c) := by
  have hopen : ¬ answered (current s) = true := fun ha =>
    Bool.noConfusion (hends.symm.trans (hs ha))
  unfold snapshotCb
  rw [if_neg (Bool.eq_false_iff.mp hends)]
  cases h with
  | refused r log held status complete =>
    rw [log] at hopen
    exact absurd (by simpa [answered, Out.isFinal] using complete) hopen
  | done rotation jpeg replies log held asked complete all => exact absurd complete hopen
  | sending rotation log held sentExif wanted asked =>
    rw [if_pos sentExif]
    exact ⟨rest_stage log held wanted (asked.later c), hb.answer rfl _⟩
  | gathering log held unsent gathered =>
    rw [if_neg (Bool.eq_false_iff.mp unsent)]
    have hg := gathered.capture c.req
    obtain ⟨hsame, hunsent⟩ := capture_held lib.headerBuffer s.route c.req
    have hheld := hsame.trans held
    rw [unsent] at hunsent
    generalize s.route.capture lib.headerBuffer c.req = r at hg hsame hheld hunsent
    have hreqs : (cs ++ [c]).map Callback.req = cs.map Callback.req ++ [c.req] := List.map_append
    dsimp only
    split
    · refine ⟨.gathering log hheld hunsent (hreqs ▸ hg), ?_⟩
      unfold Balanced at hb ⊢
      rw [hb, hsame]
    · split
      · rename_i refusal hauth
        obtain ⟨hstatus, hfinal⟩ := authorised_refusal hauth
        exact ⟨.refused refusal (current_first log (by simp [Out.isEnd]) r) hheld hstatus hfinal,
          hb.answer hsame _⟩
      · rename_i hauth
        split
        · exact ⟨.refused _ (current_first log (by simp [Out.isEnd]) r) hheld (by decide) rfl,
            hb.answer hsame _⟩
        · rename_i jpeg hframe
          have hasked : AskedBy lib (cs ++ [c]) c.rotation jpeg :=
            ⟨cs, c, [], rfl, by rw [hreqs, ← hg.auth, hauth], hframe, rfl⟩
          exact ⟨sendFrame_stage log hasked r,
            hb.take held (sendFrame_held c.rotation jpeg r) c.rotation jpeg _⟩

theorem run_stage (cs : List Callback) (h : Meets (snapshotCb lib) Served boot cs) :
    Stage lib (own cs) (run (snapshotCb lib) boot cs) ∧
      Balanced (run (snapshotCb lib) boot cs) := by
  apply run_invariant (I := fun cs s => Stage lib (own cs) s ∧ Balanced s) _ _ cs h
  · exact ⟨.gathering rfl rfl rfl (gathered_zero _), rfl⟩
  · intro past c ih hs
    cases hends : c.ends with
    | true =>
      rw [own, since_concat_mark hends]
      exact end_stage ih.2 hends
    | false =>
      rw [own, since_concat_unmarked hends]
      exact next_stage ih.1 ih.2 hs hends

theorem Stage.transaction (h : Stage lib cs s) :
    Transaction lib cs (current s) s.route.camHeld := by
  cases h with
  | gathering log held unsent gathered =>
    rw [log, held]
    exact .gathering
  | refused r log held status complete =>
    rw [log, held]
    exact .refused r status complete
  | sending rotation log held sentExif wanted asked =>
    rw [log, held]
    refine .frame rotation s.route.jpeg [_] asked ?_ fun hfinal => ?_
    · rw [sentImage, if_pos wanted]
      simp [sent, Out.body]
    · cases hfinal
  | done rotation jpeg replies log held asked complete all =>
    rw [log, held]
    exact .frame rotation jpeg replies asked (all ▸ List.prefix_refl _) fun _ => all

/-- A frame goes out as a whole, once, and comes back. In every run, whatever is aborted: a
transaction has answered nothing, or one refusal and taken no frame, or it holds the one frame that
a callback with the password has asked for, and has sent a beginning of that frame's image, and all
of it if it is answered. And as many frames were taken as given back, but for the one that is
held. -/
theorem frame_once (lib : Library Status) (cs : List Callback)
    (h : Meets (snapshotCb lib) Served boot cs) :
    let s := run (snapshotCb lib) boot cs
    Transaction lib (own cs) (current s) s.route.camHeld ∧
      takes s.log = releases s.log + if s.route.camHeld then 1 else 0 := by
  intro s
  obtain ⟨hstage, hbalanced⟩ := run_stage cs h
  exact ⟨hstage.transaction, hbalanced⟩

def oneHeader : Library Unit where
  headerBuffer := 64
  base64Decode := fun _ s => if s = text "YWRtaW46cHc=" then some (text "admin:pw") else none
  fingerprint := []
  parse := fun _ => none
  encodeConfig := fun _ => none
  encodeStatus := fun _ => none

def askSnapshot (status : TransactionStatus) : Callback where
  status := status
  req := ⟨some [(text "Authorization", text "Basic YWRtaW46cHc=")], []⟩
  cfg := { sideways with password := text "pw" }
  frame := some [0xFF, 0xD8, 0xFF, 0xDA]
  rotation := 1

def twoChunks : List Callback := [askSnapshot .dataFinal, askSnapshot .dataFinal]

theorem frame_once_sideways :
    let s := run (snapshotCb oneHeader) boot twoChunks
    Transaction oneHeader (own twoChunks) (current s) s.route.camHeld ∧
      takes s.log = releases s.log + if s.route.camHeld then 1 else 0 :=
  frame_once oneHeader twoChunks (by decide)

end ZephyrApps.SnapshotFrames
