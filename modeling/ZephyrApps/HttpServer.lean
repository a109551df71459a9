import ZephyrApps.ApiReplies
import ZephyrApps.SlotTables

/-!
# The callbacks of the HTTP server

`http_server.c`: the request state of each client and `route_handler`. The server
calls back on one thread; the handlers of `api.c` are parameters, over a device state
of their own.
-/
namespace ZephyrApps.HttpServer
open CStrings ApiReplies SlotTables

/-- `enum http_transaction_status` -/
inductive TransactionStatus where
  | aborted
  | dataMore
  | dataFinal
  | complete
  deriving DecidableEq

/-- `enum route` -/
inductive Route where
  | state
  | pstopPeer
  | pstopPeers
  | role
  | ringOffset
  | ringLed1
  | health
  | healthReset
  | lastLog
  | coredump
  | adminPage
  | adminStatus
  | adminRestart
  | adminSettings
  | adminWifi
  | adminVerbose
  | adminVerboseToggle
  deriving DecidableEq

/-- What `route_handler` is called with; `headers` are the captured names and values,
or `NULL`. -/
structure Callback (ι : Type*) where
  client : ι
  status : TransactionStatus
  route : Route
  post : Bool
  url : Text
  headers : Option (List (Text × Text))
  data : List UInt8
  deriving DecidableEq

inductive Outcome where
  | nothing
  | noMemory
  | chunk (bytes : List UInt8) (final : Bool)
  | page
  | respond (rsp : Response)
  deriving DecidableEq

/-- The functions that `route_handler` calls; the coredump's writes a size, and
`crashRead` is empty where `crash_read` returns no bytes. -/
structure Api (δ : Type*) where
  /-- `CONFIG_HTTP_SERVER_CAPTURE_HEADER_BUFFER_SIZE` -/
  headerBuffer : ℕ
  state : δ → δ × Response
  pstopPeer : Text → δ → δ × Response
  pstopPeers : Text → δ → δ × Response
  role : Bool → Text → Text → δ → δ × Response
  ringOffset : Text → δ → δ × Response
  ringLed1 : Text → δ → δ × Response
  health : δ → δ × Response
  healthReset : Text → Text → δ → δ × Response
  lastLog : δ → δ × Text
  coredump : Text → δ → δ × Response × ℕ
  adminPage : Text → δ → δ × Response
  adminStatus : Text → δ → δ × Response
  adminRestart : Text → δ → δ × Response
  adminSettings : Bool → List UInt8 → Text → δ → δ × Response
  adminWifi : Bool → List UInt8 → Text → δ → δ × Response
  adminVerbose : Bool → Text → δ → δ × Response
  crashRead : ℕ → ℕ → δ → List UInt8

variable {ι δ : Type*} (api : Api δ)

/-- The `switch` of `route_handler`: each handler with the arguments of its own. -/
def Api.call (e : Callback ι) (auth : Text) (body : List UInt8) (d : δ) : δ × Response × ℕ :=
  match e.route with
  | .state => (api.state d).map id (·, 0)
  | .pstopPeer => (api.pstopPeer e.url d).map id (·, 0)
  | .pstopPeers => (api.pstopPeers e.url d).map id (·, 0)
  | .role => (api.role e.post e.url auth d).map id (·, 0)
  | .ringOffset => (api.ringOffset e.url d).map id (·, 0)
  | .ringLed1 => (api.ringLed1 e.url d).map id (·, 0)
  | .health => (api.health d).map id (·, 0)
  | .healthReset => (api.healthReset e.url auth d).map id (·, 0)
  | .lastLog => (api.lastLog d).map id fun s => ({ Response.init with status := 200, body := s }, 0)
  | .coredump => api.coredump auth d
  | .adminPage => (api.adminPage auth d).map id (·, 0)
  | .adminStatus => (api.adminStatus auth d).map id (·, 0)
  | .adminRestart => (api.adminRestart auth d).map id (·, 0)
  | .adminSettings => (api.adminSettings e.post body auth d).map id (·, 0)
  | .adminWifi => (api.adminWifi e.post body auth d).map id (·, 0)
  | .adminVerbose => (api.adminVerbose false auth d).map id (·, 0)
  | .adminVerboseToggle => (api.adminVerbose true auth d).map id (·, 0)

/-- `REQ_BODY_MAX` -/
def reqBodyMax : ℕ := 1024

/-- `struct req_state`; the body is what the first `len` bytes of its buffer hold. -/
structure ReqState (ι : Type*) where
  client : Option ι
  auth : Text
  body : List UInt8
  overflow : Bool
  streaming : Bool
  streamOff : ℕ
  streamSize : ℕ
  fits : body.length ≤ reqBodyMax

/-- A slot that `memset` cleared. -/
def ReqState.free : ReqState ι := ⟨none, [], [], false, false, 0, 0, Nat.zero_le _⟩

def ReqState.claimed (client : ι) : ReqState ι :=
  { (ReqState.free : ReqState ι) with client := some client }

structure Server (ι : Type*) (n : ℕ) (δ : Type*) where
  reqs : Fin n → ReqState ι
  device : δ

/-- `tolower` of an ASCII character. -/
def lower (c : UInt8) : UInt8 := if ascii 'A' ≤ c ∧ c ≤ ascii 'Z' then c + 32 else c

/-- The name of a header is `Authorization`, by `strcasecmp`. -/
def isAuthorization (name : Text) : Bool :=
  decide (name.map lower = (text "Authorization").map lower)

/-- `capture_auth` -/
def ReqState.captureAuth (size : ℕ) (r : ReqState ι) (headers : Option (List (Text × Text))) :
    ReqState ι :=
  match headers with
  | none => r
  | some headers =>
    match headers.find? fun h => isAuthorization h.1 with
    | none => { r with auth := [] }
    | some h => { r with auth := h.2.take (size - 1) }

/-- `gather_body` -/
def ReqState.gatherBody (r : ReqState ι) (data : List UInt8) : ReqState ι :=
  if data = [] then r
  else if h : reqBodyMax < r.body.length + data.length then { r with overflow := true }
  else
    { r with
      body := r.body ++ data
      fits := by rw [List.length_append]; exact Nat.not_lt.mp h }

/-- `stream_coredump` -/
def streamCoredump (r : ReqState ι) (d : δ) : ReqState ι × Outcome :=
  let bytes := api.crashRead r.streamOff (min pstopApiBodyMax (r.streamSize - r.streamOff)) d
  if bytes = [] then (r, .chunk [] true)
  else
    let off := r.streamOff + bytes.length
    ({ r with streamOff := off }, .chunk bytes (decide (r.streamSize ≤ off)))

def tooLarge : Response := { Response.init with status := 413, body := errorBody "body too large" }

/-- What `route_handler` does once the request is fully read. -/
def answerRequest (e : Callback ι) (r : ReqState ι) (d : δ) : ReqState ι × δ × Outcome :=
  if r.overflow then ({ r with auth := [] }, d, .respond tooLarge)
  else
    let (d, rsp, size) := api.call e r.auth r.body d
    let r := if e.route = .coredump then { r with streamSize := size } else r
    if e.route = .coredump ∧ rsp.status = 200 then
      let (r, out) := streamCoredump api { r with streaming := true, streamOff := 0 } d
      (r, d, out)
    else if e.route = .adminPage ∧ rsp.status = 200 then (r, d, .page)
    else ({ r with auth := [] }, d, .respond rsp)

variable [DecidableEq ι] {n : ℕ}

/-- `req_for`: the slot of the client, else the first free one, newly claimed. -/
def reqFor (reqs : Fin n → ReqState ι) (client : ι) : Option (Fin n × ReqState ι) :=
  match firstSlot (fun r => decide (r.client = some client)) reqs with
  | some i => some (i, reqs i)
  | none =>
    match firstSlot (fun r => decide (r.client = none)) reqs with
    | some i => some (i, .claimed client)
    | none => none

/-- `req_release` -/
def reqRelease (reqs : Fin n → ReqState ι) (client : ι) : Fin n → ReqState ι :=
  fun i => if (reqs i).client = some client then .free else reqs i

/-- `route_handler` -/
def routeHandler (s : Server ι n δ) (e : Callback ι) : Server ι n δ × Outcome :=
  if e.status = .aborted ∨ e.status = .complete then
    ({ s with reqs := reqRelease s.reqs e.client }, .nothing)
  else
    match reqFor s.reqs e.client with
    | none => (s, .noMemory)
    | some (i, r) =>
      if r.streaming then
        let (r, out) := streamCoredump api r s.device
        ({ s with reqs := Function.update s.reqs i r }, out)
      else
        let r := (r.captureAuth api.headerBuffer e.headers).gatherBody e.data
        if e.status ≠ .dataFinal then ({ s with reqs := Function.update s.reqs i r }, .nothing)
        else
          let (r, d, out) := answerRequest api e r s.device
          ({ reqs := Function.update s.reqs i r, device := d }, out)

end ZephyrApps.HttpServer
