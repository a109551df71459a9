import ZephyrApps.ConfigPages
import ZephyrApps.HttpServer
import ZephyrApps.SystemRuns

/-!
# The pages of the camera against whole requests

`web.c` of the Prusa camera: the state of a route, gathered callback by callback, and the callbacks
of `/api/config`, `/api/status` and `/api/test`. They are compared with a server that is handed each
request as a whole, with the header and the body that its own callbacks brought.
-/
namespace ZephyrApps.WebRoutes
open CStrings HttpUtil EventHistories SystemRuns AppSettings PrusaCfg CfgPosts ConfigPages
open HttpServer (TransactionStatus isAuthorization)

/-- `BODY_MAX` -/
def bodyMax : ℕ := 512

/-- `struct route`; the body is what the first `len` bytes of its buffer hold, and `jpeg` the frame
at its address. -/
structure Route where
  auth : Text
  body : List UInt8
  overflow : Bool
  camHeld : Bool
  exifSent : Bool
  exif : List UInt8
  jpeg : List UInt8
  fits : body.length ≤ bodyMax

/-- A route that `memset` cleared. -/
def Route.zero : Route := ⟨[], [], false, false, false, [], [], Nat.zero_le _⟩

/-- `struct http_request_ctx`; there are no headers at `NULL`. -/
structure HttpRequest where
  headers : Option (List (Text × Text))
  data : List UInt8

/-- The loop of `capture` over the headers, into a buffer of `size` bytes. -/
def Route.captureAuth (size : ℕ) (r : Route) (headers : List (Text × Text)) : Route :=
  headers.foldl
    (fun r h => if isAuthorization h.1 then { r with auth := h.2.take (size - 1) } else r) r

/-- What `capture` does with the data. -/
def Route.gather (r : Route) (data : List UInt8) : Route :=
  if data = [] then r
  else if h : bodyMax < r.body.length + data.length then { r with overflow := true }
  else
    { r with
      body := r.body ++ data
      fits := by rw [List.length_append]; exact Nat.not_lt.mp h }

/-- `capture` -/
def Route.capture (size : ℕ) (r : Route) (req : HttpRequest) : Route :=
  (r.captureAuth size (req.headers.getD [])).gather req.data

structure Reply where
  status : ℕ
  authHdr : Bool
  body : List UInt8
  finalChunk : Bool
  deriving DecidableEq

/-- `reply` -/
def reply (status : ℕ) (body : Text) : Reply := ⟨status, false, body, true⟩

/-- The body of `test_cb`. -/
def queued : Text := text "\x7b\"queued\":true\x7d"

def errorText (err : String) : Text :=
  text "\x7b\"error\":\"" ++ text err ++ text "\"\x7d"

/-- What `web.c` calls outside the repository, and its header buffer; `none` is an error of the
encoder. -/
structure Library (Status : Type) where
  /-- `CONFIG_HTTP_SERVER_CAPTURE_HEADER_BUFFER_SIZE` -/
  headerBuffer : ℕ
  base64Decode : ℕ → Text → Option (List UInt8)
  fingerprint : Text
  parse : List UInt8 → Option CfgPost
  encodeConfig : ConfigOut → Option Text
  encodeStatus : Status → Option Text

variable {Status : Type} (lib : Library Status)

/-- `authorised`: the response to a header that is not accepted. -/
def authorised (auth : Text) (c : Cfg) : Option Reply :=
  if c.password = [] then some (reply 403 (errorText "set a password: prusa set password"))
  else if httpBasicAuthOk lib.base64Decode (some auth) (text "admin") c.password then none
  else some { reply 401 (errorText "unauthorised") with authHdr := true }

/-- `reply_json`, of what the encoder made of the value. -/
def replyJson : Option Text → Reply
  | none => reply 500 (errorText "encode")
  | some body => reply 200 body

/-- `reply_config` -/
def replyConfig (c : Cfg) : Reply := replyJson (lib.encodeConfig (configOut lib.fingerprint c))

inductive Page where
  | config
  | status
  | test
  deriving DecidableEq

/-- A callback with what its calls return: `settings_save_one`, and `connect_get_status` as
`status_out`. -/
structure Callback (Status : Type) where
  page : Page
  status : TransactionStatus
  post : Bool
  req : HttpRequest
  saved : Int
  shown : Status

/-- What the pages are about: the configuration, how often a test was asked for, and every response
so far. -/
structure Front where
  store : CfgStore
  tests : ℕ
  replies : List (Page × Reply)

structure Web where
  routes : Page → Route
  front : Front

inductive Event (Status : Type) where
  | callback (c : Callback Status)
  | stored (s : CfgStore)

def Front.replied (f : Front) (page : Page) (r : Reply) : Front :=
  { f with replies := f.replies ++ [(page, r)] }

/-- What `config_cb` does once the request is authorised. -/
def answerConfig (r : Route) (c : Callback Status) (f : Front) : Front :=
  if c.post then
    if r.overflow then f.replied .config (reply 400 (errorText "invalid config"))
    else
      let (store, ret) := applyPost f.store (lib.parse r.body) c.saved
      if ret < 0 then ({ f with store }).replied .config (reply 400 (errorText "invalid config"))
      else ({ f with store }).replied .config (replyConfig lib store.ram)
  else f.replied .config (replyConfig lib f.store.ram)

/-- What the three callbacks do once the request is authorised. -/
def answer (r : Route) (c : Callback Status) (f : Front) : Front :=
  match c.page with
  | .config => answerConfig lib r c f
  | .status => f.replied .status (replyJson (lib.encodeStatus c.shown))
  | .test => ({ f with tests := f.tests + 1 }).replied .test (reply 202 queued)

def Callback.ends (c : Callback Status) : Bool :=
  decide (c.status = .aborted ∨ c.status = .complete)

/-- `config_cb`, `status_cb` and `test_cb` -/
def callback (w : Web) (c : Callback Status) : Web :=
  if c.ends then { w with routes := Function.update w.routes c.page .zero }
  else
    let r := (w.routes c.page).capture lib.headerBuffer c.req
    let routes := Function.update w.routes c.page r
    if c.status ≠ .dataFinal then { w with routes }
    else
      match authorised lib r.auth w.front.store.ram with
      | some refusal => ⟨routes, w.front.replied c.page refusal⟩
      | none => ⟨routes, answer lib r c w.front⟩

def step (w : Web) : Event Status → Web
  | .callback c => callback lib w c
  | .stored s => { w with front := { w.front with store := s } }

def boot (s : CfgStore) : Web := ⟨fun _ => .zero, ⟨s, 0, []⟩⟩

structure Request (Status : Type) where
  page : Page
  post : Bool
  header : Text
  body : List UInt8
  saved : Int
  shown : Status

/-- What the camera is there to do with a POST: nothing if it is too large or refused. -/
def serveConfig (q : Request Status) (f : Front) : Front :=
  if q.post = false then f.replied .config (replyConfig lib f.store.ram)
  else
    let (store, ret) :=
      if bodyMax < q.body.length then (f.store, einval)
      else applyPost f.store (lib.parse q.body) q.saved
    ({ f with store }).replied .config
      (if ret < 0 then reply 400 (errorText "invalid config") else replyConfig lib store.ram)

def grant (q : Request Status) (f : Front) : Front :=
  match q.page with
  | .config => serveConfig lib q f
  | .status => f.replied .status (replyJson (lib.encodeStatus q.shown))
  | .test => ({ f with tests := f.tests + 1 }).replied .test (reply 202 queued)

/-- A request is answered at once: with a refusal, without the password in its header. -/
def serve (f : Front) (q : Request Status) : Front :=
  match authorised lib q.header f.store.ram with
  | some refusal => f.replied q.page refusal
  | none => grant lib q f

inductive Whole (Status : Type) where
  | request (q : Request Status)
  | stored (s : CfgStore)

def serveWhole (f : Front) : Whole Status → Front
  | .request q => serve lib f q
  | .stored s => { f with store := s }

/-- The last callback of a transaction on `page`. -/
def endsOn (page : Page) : Event Status → Bool
  | .callback c => decide (c.page = page) && c.ends
  | .stored _ => false

def onPage (page : Page) : Event Status → Option HttpRequest
  | .callback c => if c.page = page then some c.req else none
  | .stored _ => none

/-- What the callbacks of the current transaction on `page` brought. -/
def own (page : Page) (past : List (Event Status)) : List HttpRequest :=
  (since (endsOn page) past).filterMap (onPage page)

/-- The last `Authorization` header among them, cut to the buffer. -/
def headerOf (size : ℕ) (reqs : List HttpRequest) : Text :=
  (((reqs.flatMap fun req => req.headers.getD []).filter fun h => isAuthorization h.1).getLast?.map
    fun h => h.2.take (size - 1)).getD []

def bodyOf (reqs : List HttpRequest) : List UInt8 := reqs.flatMap HttpRequest.data

/-- The request that a final callback completes. -/
def whole (past : List (Event Status)) (c : Callback Status) : Request Status :=
  let reqs := own c.page past ++ [c.req]
  ⟨c.page, c.post, headerOf lib.headerBuffer reqs, bodyOf reqs, c.saved, c.shown⟩

def completed (past : List (Event Status)) : Event Status → List (Whole Status)
  | .callback c => if c.status = .dataFinal then [.request (whole lib past c)] else []
  | .stored s => [.stored s]

/-- The requests of a history, in the order in which they were completed, after `past`. -/
def wholes (past : List (Event Status)) : List (Event Status) → List (Whole Status)
  | [] => []
  | e :: es => completed lib past e ++ wholes (past ++ [e]) es

variable {lib} {past es : List (Event Status)} {c : Callback Status} {reqs : List HttpRequest}
  {r : Route} {page : Page}

theorem wholes_concat (e : Event Status) :
    wholes lib past (es ++ [e]) = wholes lib past es ++ completed lib (past ++ es) e := by
  induction es generalizing past with
  | nil => simp [wholes]
  | cons x es ih => simp [wholes, ih, List.append_assoc]

theorem own_stored (s : CfgStore) : own page (past ++ [.stored s]) = own page past := by
  rw [own, since_concat_unmarked rfl, List.filterMap_append]
  exact List.append_nil _

theorem own_other (h : c.page ≠ page) : own page (past ++ [.callback c]) = own page past := by
  have hmark : endsOn page (.callback c) = false := by simp [endsOn, h]
  rw [own, since_concat_unmarked hmark, List.filterMap_append]
  simp [onPage, h, own]

theorem own_ends (h : c.ends = true) : own c.page (past ++ [.callback c]) = [] := by
  have hmark : endsOn c.page (.callback c) = true := by simp [endsOn, h]
  rw [own, since_concat_mark hmark]
  rfl

theorem own_next (h : c.ends = false) :
    own c.page (past ++ [.callback c]) = own c.page past ++ [c.req] := by
  have hmark : endsOn c.page (.callback c) = false := by simp [endsOn, h]
  rw [own, since_concat_unmarked hmark, List.filterMap_append]
  simp [onPage, own]

/-- The route holds `data`, or knows that it is too large. -/
structure Holds (data : List UInt8) (r : Route) : Prop where
  overflow : r.overflow = true ↔ bodyMax < data.length
  body : r.overflow = false → r.body = data
  short : r.body.length ≤ data.length

/-- The route holds what the callbacks brought. -/
structure Gathered (size : ℕ) (reqs : List HttpRequest) (r : Route) : Prop where
  auth : r.auth = headerOf size reqs
  data : Holds (bodyOf reqs) r

theorem gathered_zero (size : ℕ) : Gathered size [] .zero where
  auth := rfl
  data := ⟨iff_of_false Bool.false_ne_true (by simp [bodyOf]), fun _ => rfl, Nat.le_refl 0⟩

theorem captureAuth_eq (size : ℕ) (r : Route) (headers : List (Text × Text)) :
    r.captureAuth size headers =
      { r with auth := ((headers.filter fun h => isAuthorization h.1).getLast?.map
        fun h => h.2.take (size - 1)).getD r.auth } := by
  induction headers using List.reverseRecOn with
  | nil => rfl
  | append_singleton headers h ih =>
    rw [Route.captureAuth] at ih ⊢
    rw [List.foldl_concat, ih, List.filter_append]
    cases hname : isAuthorization h.1 with
    | false => simp [hname]
    | true => simp [hname]

theorem gather_auth (r : Route) (data : List UInt8) : (r.gather data).auth = r.auth := by
  unfold Route.gather
  split
  · rfl
  · split <;> rfl

theorem headerOf_concat (size : ℕ) (reqs : List HttpRequest) (req : HttpRequest) :
    headerOf size (reqs ++ [req]) =
      (((req.headers.getD []).filter fun h => isAuthorization h.1).getLast?.map
        fun h => h.2.take (size - 1)).getD (headerOf size reqs) := by
  rw [headerOf, List.flatMap_append, List.filter_append, List.getLast?_append]
  simp only [List.flatMap_cons, List.flatMap_nil, List.append_nil]
  cases ((req.headers.getD []).filter fun h => isAuthorization h.1).getLast? with
  | none => rfl
  | some h => rfl

theorem bodyOf_concat (reqs : List HttpRequest) (req : HttpRequest) :
    bodyOf (reqs ++ [req]) = bodyOf reqs ++ req.data := by
  simp [bodyOf]

/-- What does not fit is left out, but it is not forgotten. -/
theorem Holds.gather {held : List UInt8} (h : Holds held r) (data : List UInt8) :
    Holds (held ++ data) (r.gather data) := by
  have hshort := h.short
  have hfits := r.fits
  have hlen : (held ++ data).length = held.length + data.length := List.length_append
  unfold Route.gather
  split
  · rename_i hdata
    rwa [hdata, List.append_nil]
  · split
    · exact ⟨iff_of_true rfl (by omega), fun he => Bool.noConfusion he,
        hshort.trans (by omega)⟩
    · rename_i hroom
      refine ⟨?_, fun he => congrArg (· ++ data) (h.body he), ?_⟩
      · cases hover : r.overflow with
        | true =>
          have := h.overflow.mp hover
          exact iff_of_true rfl (by omega)
        | false =>
          have hbody := congrArg List.length (h.body hover)
          exact iff_of_false Bool.false_ne_true (by omega)
      · rw [List.length_append]
        omega

theorem Gathered.capture {size : ℕ} (h : Gathered size reqs r) (req : HttpRequest) :
    Gathered size (reqs ++ [req]) (r.capture size req) := by
  have hroute := captureAuth_eq size r (req.headers.getD [])
  have hdata : Holds (bodyOf reqs) (r.captureAuth size (req.headers.getD [])) := by
    rw [hroute]
    exact ⟨h.data.overflow, h.data.body, h.data.short⟩
  refine ⟨?_, ?_⟩
  · rw [headerOf_concat, ← h.auth, Route.capture, gather_auth, hroute]
  · rw [bodyOf_concat]
    exact hdata.gather req.data

theorem step_routes (w : Web) (c : Callback Status) : (callback lib w c).routes =
    Function.update w.routes c.page
      (if c.ends then .zero else (w.routes c.page).capture lib.headerBuffer c.req) := by
  unfold callback
  split
  · rfl
  · simp only
    split
    · rfl
    · split <;> rfl

/-- Each route has gathered what the callbacks of its current transaction brought, and nothing
else. -/
theorem run_gathered (s : CfgStore) (es : List (Event Status)) (page : Page) :
    Gathered lib.headerBuffer (own page es) ((run (step lib) (boot s) es).routes page) := by
  apply run_induction (I := fun es (w : Web) =>
    ∀ page, Gathered lib.headerBuffer (own page es) (w.routes page))
  · exact fun page => gathered_zero _
  · intro past e ih page
    cases e with
    | stored s =>
      rw [own_stored]
      exact ih page
    | callback c =>
      show Gathered _ _ ((callback lib _ c).routes page)
      rw [step_routes]
      by_cases hpage : c.page = page
      · subst hpage
        rw [Function.update_self]
        split
        · rename_i hends
          rw [own_ends hends]
          exact gathered_zero _
        · rename_i hends
          rw [own_next (Bool.eq_false_iff.mpr hends)]
          exact (ih c.page).capture c.req
      · rw [own_other hpage, Function.update_of_ne (Ne.symm hpage)]
        exact ih page

/-- What is done with what the route holds is what is done for the request. -/
theorem answer_grant {header body : List UInt8} (h : Holds body r) (c : Callback Status)
    (f : Front) :
    answer lib r c f = grant lib ⟨c.page, c.post, header, body, c.saved, c.shown⟩ f := by
  unfold answer grant
  cases c.page with
  | config =>
    unfold answerConfig serveConfig
    cases c.post with
    | false => rfl
    | true =>
      cases hover : r.overflow with
      | true =>
        have hlong : bodyMax < body.length := h.overflow.mp hover
        simp only [if_true, if_pos hlong, Bool.true_eq_false, if_false]
        rfl
      | false =>
        have hshort : ¬ bodyMax < body.length := fun hlong =>
          Bool.noConfusion (hover.symm.trans (h.overflow.mpr hlong))
        simp only [if_true, if_neg hshort, Bool.true_eq_false, Bool.false_eq_true, if_false,
          h.body hover]
        split <;> rfl
  | status => rfl
  | test => rfl

/-- A callback answers the request that it completes, and no other callback does anything. -/
theorem callback_front {w : Web}
    (h : Gathered lib.headerBuffer (own c.page past) (w.routes c.page)) :
    (callback lib w c).front = run (serveWhole lib) w.front (completed lib past (.callback c)) := by
  have hnone (hne : c.status ≠ .dataFinal) : completed lib past (.callback c) = [] := if_neg hne
  unfold callback
  split
  · rename_i hends
    have hne : c.status ≠ .dataFinal := by
      rcases of_decide_eq_true hends with he | he <;> rw [he] <;> decide
    rw [hnone hne]
    rfl
  · simp only
    split
    · rename_i hne
      rw [hnone hne]
      rfl
    · rename_i hfinal
      have hg := h.capture c.req
      have hone : completed lib past (.callback c) = [.request (whole lib past c)] :=
        if_pos (not_not.mp hfinal)
      rw [hone]
      show _ = serve lib w.front (whole lib past c)
      rw [hg.auth]
      unfold serve whole
      split
      · rename_i hauth
        rw [hauth]
      · rename_i hauth
        rw [hauth]
        exact answer_grant hg.data c w.front

/-- The pages serve whole requests. However the callbacks of the three come between one another,
with any data and headers, transactions broken off and configurations stored in between: the
configuration, the tests and all responses are what they would be if each request had been handed
over as a whole, when its last data came, with the header and the body that its own callbacks
brought. -/
theorem requests_whole (s : CfgStore) (es : List (Event Status)) :
    (run (step lib) (boot s) es).front =
      run (serveWhole lib) ⟨s, 0, []⟩ (wholes lib [] es) := by
  induction es using List.reverseRecOn with
  | nil => rfl
  | append_singleton es e ih =>
    rw [run_concat, wholes_concat, run_append, ← ih, List.nil_append]
    cases e with
    | stored s => rfl
    | callback c => exact callback_front (run_gathered s es c.page)

end ZephyrApps.WebRoutes
