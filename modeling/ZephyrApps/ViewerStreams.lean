import ZephyrApps.EventHistories
import ZephyrApps.FramedStreams
import ZephyrApps.MjpegStream
import ZephyrApps.SystemRuns

/-!
# The MJPEG stream

`stream_thread` of `stream.c`: one viewer after another is read, answered, and sent frames until a
send fails. Every call of `zsock_send` takes as much as it likes.
-/
namespace ZephyrApps.ViewerStreams
open CStrings PrusaCfg CBuffers MjpegStream EventHistories SystemRuns FramedStreams

/-- `*jpeg` and `*len` of `cam_frame` -/
structure Jpeg where
  bytes : List UInt8
  fits : bytes.length < 2 ^ 32

def refusalText : Refusal → Text
  | .notFound => text "HTTP/1.1 404 Not Found\r\nConnection: close\r\n\r\n"
  | .forbidden => text "HTTP/1.1 403 Forbidden\r\nConnection: close\r\n\r\n" ++
      text "set a password: prusa set password\n"
  | .unauthorized => text "HTTP/1.1 401 Unauthorized\r\n" ++
      text "WWW-Authenticate: Basic realm=\"prusa_cam\"\r\n" ++ text "Connection: close\r\n\r\n"

def responseText : Text :=
  text "HTTP/1.1 200 OK\r\n" ++ text "Content-Type: multipart/x-mixed-replace; boundary=frame\r\n" ++
    text "Cache-Control: no-store\r\nConnection: close\r\n\r\n"

/-- `sizeof(part)` -/
def partSize : ℕ := 96

def partStart : Text := text "--frame\r\nContent-Type: image/jpeg\r\nContent-Length: "

/-- What `snprintf` leaves in `part`. -/
def part (len : ℕ) : Text := (partStart ++ dec len ++ headEnd).take (partSize - 1)

inductive Sending where
  | refusal
  | response
  | part (jpeg : Jpeg)
  | jpeg
  | crlf

/-- The call that the thread is in: `zsock_accept`, `cam_frame`, or `zsock_send` with the bytes
that are left. -/
inductive Stage where
  | accepting
  | grabbing
  | sending (what : Sending) (left : List UInt8)

inductive Out where
  | accepted
  | sent (bytes : List UInt8)
  | took (jpeg : Jpeg)
  | released
  | closed

/-- `req`, where the thread is, and what it has done. -/
structure Server where
  req : List UInt8
  stage : Stage
  log : List Out

def boot : Server := ⟨List.replicate reqSize 0, .accepting, []⟩

/-- What a viewer sends, and how `zsock_recv` returns it. -/
structure Arrival where
  stream : List UInt8
  chunks : List (List UInt8)
  split : Split (reqSize - 1) stream chunks

/-- What the calls return: a viewer, or none; a frame, or none; how many bytes were taken. The
password is that of `cfg_get`. -/
inductive Event where
  | viewer (a : Arrival) (password : Text)
  | noViewer
  | frame (jpeg : Option Jpeg)
  | send (n : Option ℕ)

namespace Server

def did (s : Server) (o : Out) : Server := { s with log := s.log ++ [o] }

/-- `cam_release` -/
def release (s : Server) : Server := s.did .released

/-- The end of `serve`, and `zsock_close` -/
def close (s : Server) : Server := { s.did .closed with stage := .accepting }

/-- `send_all` before its first call, with something to send -/
def send (s : Server) (what : Sending) (bytes : List UInt8) : Server :=
  { s with stage := .sending what bytes }

/-- `send_all(sock, jpeg, len)`, which returns at once without bytes -/
def sendJpeg (s : Server) (jpeg : Jpeg) : Server :=
  if jpeg.bytes = [] then s.release.send .crlf crlf else s.send .jpeg jpeg.bytes

/-- `serve` when `send_all` has returned 0 -/
def sentAll (s : Server) : Sending → Server
  | .refusal => s.close
  | .response => { s with stage := .grabbing }
  | .part jpeg => s.sendJpeg jpeg
  | .jpeg => s.release.send .crlf crlf
  | .crlf => { s with stage := .grabbing }

/-- `serve` when it has returned an error -/
def failed (s : Server) : Sending → Server
  | .part _ | .jpeg => s.release.close
  | .refusal | .response | .crlf => s.close

/-- `serve` to its first call of `zsock_send`; `none` if something outside `req` is touched -/
def serve (base64Decode : ℕ → Text → Option (List UInt8)) (s : Server) (a : Arrival)
    (password : Text) : Option Server := do
  let (req, ret) ← readHead s.req a.chunks
  if ret < 0 then some { s with req }.close
  else
    let (req, refusal) ← requestOk base64Decode password req
    match refusal with
    | some r => some ({ s with req }.send .refusal (refusalText r))
    | none => some ({ s with req := List.replicate reqSize 0 }.send .response responseText)

end Server

def step (base64Decode : ℕ → Text → Option (List UInt8)) (s : Server) (e : Event) : Option Server :=
  match s.stage, e with
  | .accepting, .viewer a password =>
    (s.did .accepted).serve base64Decode a password
  | .accepting, .noViewer => some s
  | .grabbing, .frame none => some s
  | .grabbing, .frame (some jpeg) =>
    some ((s.did (.took jpeg)).send (.part jpeg) (part jpeg.bytes.length))
  | .sending what _, .send none => some (s.failed what)
  | .sending what left, .send (some n) =>
    if left.length < n then none
    else
      let s := s.did (.sent (left.take n))
      some (if left.drop n = [] then s.sentAll what else s.send what (left.drop n))
  | _, _ => none

def isDigit (c : UInt8) : Bool := (digitOf c).any (· < 10)

def valueOfDigits (s : Text) : ℕ := Nat.ofDigits 10 (s.filterMap digitOf).reverse

def stripped (w s : Text) : Option Text := if w <+: s then some (s.drop w.length) else none

def readPart (s : List UInt8) : Option (List UInt8 × List UInt8) := do
  let s ← stripped partStart s
  let digits := s.takeWhile isDigit
  let s ← stripped headEnd (s.drop digits.length)
  let n := valueOfDigits digits
  if n ≤ s.length then some (s.take n, ← stripped crlf (s.drop n)) else none

def wholePart (jpeg : List UInt8) : Text :=
  partStart ++ (dec jpeg.length ++ (headEnd ++ (jpeg ++ crlf)))

theorem stripped_append_self (w s : Text) : stripped w (w ++ s) = some s := by
  rw [stripped, if_pos (List.prefix_append w s), List.drop_left]

theorem stripped_eq_some {w s rest : Text} (h : stripped w s = some rest) : s = w ++ rest := by
  unfold stripped at h
  split at h
  case isTrue hp =>
    obtain ⟨t, rfl⟩ := hp
    rw [List.drop_left] at h
    rw [Option.some.inj h]
  case isFalse => cases h

theorem stripped_append {w s rest : Text} (h : stripped w s = some rest) (t : Text) :
    stripped w (s ++ t) = some (rest ++ t) := by
  rw [stripped_eq_some h, List.append_assoc, stripped_append_self]

theorem isDigit_dec {n : ℕ} {c : UInt8} (hc : c ∈ dec n) : isDigit c = true := by
  obtain ⟨d, hd, he⟩ := (numeral_dec n).digit hc
  simp [isDigit, he, hd]

theorem takeWhile_dec (n : ℕ) (s : Text) : (dec n ++ (headEnd ++ s)).takeWhile isDigit = dec n := by
  have hstop : (headEnd ++ s).takeWhile isDigit = [] := rfl
  rw [List.takeWhile_append_of_pos fun _ hc => isDigit_dec hc, hstop, List.append_nil]

theorem filterMap_of_map {s : Text} {ds : List ℕ} (h : s.map digitOf = ds.map some) :
    s.filterMap digitOf = ds := by
  calc s.filterMap digitOf = (s.map digitOf).filterMap id := by rw [List.filterMap_map]; rfl
    _ = (ds.map some).filterMap id := by rw [h]
    _ = ds := by simp [List.filterMap_map]

theorem valueOfDigits_dec (n : ℕ) : valueOfDigits (dec n) = n := by
  obtain ⟨ds, hds, -, hn⟩ := numeral_dec n
  rw [valueOfDigits, filterMap_of_map hds]
  exact hn.symm

theorem readPart_wholePart (jpeg s : List UInt8) : readPart (wholePart jpeg ++ s) = some (jpeg, s) := by
  have hhead : wholePart jpeg ++ s =
      partStart ++ (dec jpeg.length ++ (headEnd ++ (jpeg ++ (crlf ++ s)))) := by
    simp only [wholePart, List.append_assoc]
  simp only [readPart, hhead, stripped_append_self, takeWhile_dec, List.drop_left,
    valueOfDigits_dec, List.take_left, Option.bind_eq_bind, Option.bind_some]
  rw [if_pos (by rw [List.length_append]; omega)]

theorem readPart_append {p jpeg rest : List UInt8} (t : List UInt8)
    (h : readPart p = some (jpeg, rest)) : readPart (p ++ t) = some (jpeg, rest ++ t) := by
  simp only [readPart, Option.bind_eq_bind, Option.bind_eq_some_iff] at h
  obtain ⟨s, hs, b, hb, h⟩ := h
  split at h
  case isTrue hn =>
    obtain ⟨r, hr, h⟩ := Option.bind_eq_some_iff.mp h
    obtain ⟨rfl, rfl⟩ := Prod.mk.inj (Option.some.inj h)
    -- the digits have ended, for something follows them
    have hmore : (s.takeWhile isDigit).length ≠ s.length := by
      intro he
      rw [he, List.drop_length] at hb
      cases hb
    have hdigits : (s ++ t).takeWhile isDigit = s.takeWhile isDigit := by
      rw [List.takeWhile_append, if_neg hmore]
    have hle : (s.takeWhile isDigit).length ≤ s.length := (List.takeWhile_prefix _).length_le
    simp only [readPart, stripped_append hs t, hdigits, List.drop_append_of_le_length hle,
      stripped_append hb t, List.drop_append_of_le_length hn, stripped_append hr t,
      List.take_append_of_le_length hn, Option.bind_eq_bind, Option.bind_some]
    rw [if_pos (by rw [List.length_append]; omega)]
  case isFalse => cases h

def parts : Framing (List UInt8) UInt8 where
  frame := wholePart
  read := readPart
  read_frame := readPart_wholePart
  read_append := readPart_append
  read_nil := rfl

theorem part_eq {len : ℕ} (h : len < 2 ^ 32) : part len = partStart ++ dec len ++ headEnd := by
  have hdec := length_dec (k := 10) (by decide) (h.trans (by decide))
  have hstart : partStart.length = 51 := by decide
  refine List.take_of_length_le ?_
  simp only [List.length_append, hstart, show headEnd.length = 4 by decide, show partSize = 96 by rfl]
  omega

theorem part_append (jpeg : Jpeg) :
    part jpeg.bytes.length ++ (jpeg.bytes ++ crlf) = wholePart jpeg.bytes := by
  rw [part_eq jpeg.fits, wholePart]
  simp only [List.append_assoc]

def viewed (received : List UInt8) : List (List UInt8) :=
  match stripped responseText received with
  | none => []
  | some rest => parts.readAll rest

theorem viewed_mono {received sent : List UInt8} (h : received <+: sent) :
    viewed received <+: viewed sent := by
  obtain ⟨t, rfl⟩ := h
  unfold viewed
  cases hr : stripped responseText received with
  | none => exact List.nil_prefix
  | some rest =>
    rw [stripped_append hr]
    exact parts.readAll_mono (List.prefix_append rest t)

theorem viewed_flatMap {p : List UInt8} (hp : readPart p = none) (frames : List (List UInt8)) :
    viewed (responseText ++ (frames.flatMap wholePart ++ p)) = frames := by
  rw [viewed, stripped_append_self]
  exact parts.readAll_flatMap hp frames

/-- Without the whole head of the response there are no frames yet. -/
theorem viewed_response {sent left : List UInt8} (h : sent ++ left = responseText) (hleft : left ≠ []) :
    viewed sent = [] := by
  have hno : stripped responseText sent = none := by
    refine if_neg fun hp => ?_
    have hle := hp.length_le
    have hpos := List.length_pos_iff.mpr hleft
    have hlen := congrArg List.length h
    rw [List.length_append] at hlen
    omega
  rw [viewed, hno]

def Out.isAccepted : Out → Bool
  | .accepted => true
  | _ => false

def Out.bytes : Out → List UInt8
  | .sent bytes => bytes
  | _ => []

def Out.frame : Out → Option (List UInt8)
  | .took jpeg => some jpeg.bytes
  | _ => none

def Out.isReleased : Out → Bool
  | .released => true
  | _ => false

def sentTo (log : List Out) : List UInt8 := (since Out.isAccepted log).flatMap Out.bytes

def takenFor (log : List Out) : List (List UInt8) := (since Out.isAccepted log).filterMap Out.frame

def takes (log : List Out) : ℕ := (log.filterMap Out.frame).length

def releases (log : List Out) : ℕ := log.countP Out.isReleased

/-- The last viewer, with the password at that time. -/
def lastViewer (es : List Event) : Option (Arrival × Text) :=
  (es.filterMap fun e => match e with
    | .viewer a password => some (a, password)
    | _ => none).getLast?

def Sending.holds : Sending → Bool
  | .part _ | .jpeg => true
  | .refusal | .response | .crlf => false

def Stage.holds : Stage → Bool
  | .sending what _ => what.holds
  | .accepting | .grabbing => false

def Stage.streams : Stage → Bool
  | .accepting | .sending .refusal _ => false
  | .grabbing | .sending _ _ => true

/-- What is to be sent of a part when this is. -/
def Sending.after : Sending → List UInt8
  | .part j => j.bytes ++ MjpegStream.crlf
  | .jpeg => MjpegStream.crlf
  | .refusal | .response | .crlf => []

/-- What a viewer is sent for its head: nothing, a beginning of an error, or a beginning of a stream of
all frames that were taken for it, of which it sees all but one at most. -/
inductive Answered (base64Decode : ℕ → Text → Option (List UInt8)) (a : Arrival) (password : Text)
    (sent : List UInt8) (frames : List (List UInt8)) : Prop where
  | unread (no : ∀ head, ¬ Head a.stream head) (nothing : sent = []) (none : frames = [])
  | refused (head : Text) (refusal : Refusal) (asked : Head a.stream head)
      (decided : decision base64Decode password head = some refusal)
      (part : sent <+: refusalText refusal) (none : frames = [])
  | streamed (head : Text) (asked : Head a.stream head)
      (decided : decision base64Decode password head = none)
      (part : sent <+: responseText ++ frames.flatMap wholePart)
      (missed : List (List UInt8)) (seen : viewed sent ++ missed = frames) (few : missed.length ≤ 1)

inductive Position (base64Decode : ℕ → Text → Option (List UInt8)) (a : Arrival) (password : Text)
    (sent : List UInt8) (frames : List (List UInt8)) : Stage → Prop where
  | refusing (head : Text) (refusal : Refusal) (left : List UInt8) (asked : Head a.stream head)
      (decided : decision base64Decode password head = some refusal)
      (whole : sent ++ left = refusalText refusal) (none : frames = []) :
      Position base64Decode a password sent frames (.sending .refusal left)
  | responding (head : Text) (left : List UInt8) (asked : Head a.stream head)
      (decided : decision base64Decode password head = none)
      (whole : sent ++ left = responseText) (some : left ≠ []) (none : frames = []) :
      Position base64Decode a password sent frames (.sending .response left)
  | between (head : Text) (asked : Head a.stream head)
      (decided : decision base64Decode password head = none)
      (whole : sent = responseText ++ frames.flatMap wholePart) :
      Position base64Decode a password sent frames .grabbing
  | within (head : Text) (what : Sending) (left : List UInt8) (asked : Head a.stream head)
      (decided : decision base64Decode password head = none)
      (inPart : what ≠ .refusal ∧ what ≠ .response) (some : left ≠ [])
      (before : List (List UInt8)) (last p : List UInt8) (split : frames = before ++ [last])
      (part : sent = responseText ++ (before.flatMap wholePart ++ p))
      (whole : p ++ (left ++ what.after) = wholePart last) :
      Position base64Decode a password sent frames (.sending what left)
  | finished (answered : Answered base64Decode a password sent frames) :
      Position base64Decode a password sent frames .accepting

variable {base64Decode : ℕ → Text → Option (List UInt8)} {a : Arrival} {password : Text}
  {sent : List UInt8} {frames : List (List UInt8)} {stage : Stage}

theorem Position.answered (h : Position base64Decode a password sent frames stage) :
    Answered base64Decode a password sent frames := by
  cases h with
  | refusing head refusal left asked decided whole none =>
    exact .refused head refusal asked decided ⟨left, whole⟩ none
  | responding head left asked decided whole some none =>
    refine .streamed head asked decided ?_ [] ?_ (by simp)
    · exact (List.prefix_append sent left).trans (whole ▸ List.prefix_append _ _)
    · rw [viewed_response whole some, none]
      rfl
  | between head asked decided whole =>
    refine .streamed head asked decided (whole ▸ List.prefix_refl _) [] ?_ (by simp)
    have hv := viewed_flatMap (p := []) rfl frames
    rw [List.append_nil] at hv
    rw [whole, hv, List.append_nil]
  | within head what left asked decided inPart some before last p split part whole =>
    have hne : left ++ what.after ≠ [] := by simp [some]
    have hread : readPart p = none := parts.read_part whole.symm hne
    refine .streamed head asked decided ?_ [last] ?_ (by simp)
    · rw [part, split, List.flatMap_append, List.flatMap_singleton, ← whole, ← List.append_assoc p]
      exact ⟨left ++ what.after, by simp⟩
    · rw [part, viewed_flatMap hread, split]
  | finished answered => exact answered

theorem Position.advance {what : Sending} {left : List UInt8}
    (h : Position base64Decode a password sent frames (.sending what left)) (n : ℕ)
    (hmore : left.drop n ≠ []) :
    Position base64Decode a password (sent ++ left.take n) frames (.sending what (left.drop n)) := by
  cases h with
  | refusing head refusal left asked decided whole none =>
    refine .refusing head refusal _ asked decided ?_ none
    rw [List.append_assoc, List.take_append_drop, whole]
  | responding head left asked decided whole some none =>
    refine .responding head _ asked decided ?_ hmore none
    rw [List.append_assoc, List.take_append_drop, whole]
  | within head what left asked decided inPart some before last p split part whole =>
    refine .within head what _ asked decided inPart hmore before last (p ++ left.take n) split ?_ ?_
    · rw [part]
      simp only [List.append_assoc]
    · rw [← whole, ← List.append_assoc (p ++ _), List.append_assoc p, List.take_append_drop,
        List.append_assoc]

/-- Where `serve` goes on when something has been sent. -/
def Sending.next : Sending → Stage
  | .refusal => .accepting
  | .response | .crlf => .grabbing
  | .part j => if j.bytes = [] then .sending .crlf MjpegStream.crlf else .sending .jpeg j.bytes
  | .jpeg => .sending .crlf MjpegStream.crlf

theorem Position.complete {what : Sending} {left : List UInt8}
    (h : Position base64Decode a password sent frames (.sending what left)) :
    Position base64Decode a password (sent ++ left) frames what.next := by
  cases h with
  | refusing head refusal left asked decided whole none =>
    exact .finished (.refused head refusal asked decided (whole ▸ List.prefix_refl _) none)
  | responding head left asked decided whole some none =>
    refine .between head asked decided ?_
    rw [whole, none]
    exact (List.append_nil _).symm
  | within head what left asked decided inPart some before last p split part whole =>
    have hsent : sent ++ left = responseText ++ (before.flatMap wholePart ++ (p ++ left)) := by
      rw [part]
      simp only [List.append_assoc]
    rw [← List.append_assoc] at whole
    cases what with
    | refusal => exact absurd rfl inPart.1
    | response => exact absurd rfl inPart.2
    | part j =>
      rw [Sending.next]
      split
      case isTrue hj =>
        refine .within head .crlf _ asked decided ⟨nofun, nofun⟩ crlf_ne_nil before last _ split hsent ?_
        simpa [Sending.after, hj] using whole
      case isFalse hj =>
        exact .within head .jpeg _ asked decided ⟨nofun, nofun⟩ hj before last _ split hsent whole
    | jpeg =>
      refine .within head .crlf _ asked decided ⟨nofun, nofun⟩ crlf_ne_nil before last _ split hsent ?_
      simpa [Sending.after] using whole
    | crlf =>
      refine .between head asked decided ?_
      have hlast : p ++ left = wholePart last := by simpa [Sending.after] using whole
      rw [hsent, hlast, split, List.flatMap_append, List.flatMap_singleton]

/-- A viewer sees frames that were taken for it, in their order. -/
theorem Answered.seen (h : Answered base64Decode a password sent frames) : viewed sent <+: frames := by
  cases h with
  | unread no nothing none => exact nothing ▸ List.nil_prefix
  | refused head refusal asked decided part none =>
    have hother : ¬ responseText <+: refusalText refusal := by cases refusal <;> decide
    have hno : stripped responseText sent = Option.none := if_neg fun hp => hother (hp.trans part)
    rw [viewed, hno]
    exact List.nil_prefix
  | streamed head asked decided part missed seen few => exact ⟨missed, seen⟩

section Log

variable {o : Out}

theorem sentTo_did (log : List Out) (ho : o.isAccepted = false) :
    sentTo (log ++ [o]) = sentTo log ++ o.bytes := by
  rw [sentTo, since_concat_unmarked ho, List.flatMap_append, List.flatMap_singleton, sentTo]

theorem takenFor_did (log : List Out) (ho : o.isAccepted = false) :
    takenFor (log ++ [o]) = takenFor log ++ o.frame.toList := by
  rw [takenFor, since_concat_unmarked ho, List.filterMap_append, takenFor]
  cases hf : o.frame <;> simp [hf]

theorem takes_did (log : List Out) (o : Out) :
    takes (log ++ [o]) = takes log + o.frame.toList.length := by
  rw [takes, List.filterMap_append, List.length_append, takes]
  cases hf : o.frame <;> simp [hf]

theorem releases_did (log : List Out) (o : Out) :
    releases (log ++ [o]) = releases log + o.isReleased.toNat := by
  rw [releases, List.countP_append, releases]
  cases hr : o.isReleased <;> simp [hr]

end Log

structure Standing (base64Decode : ℕ → Text → Option (List UInt8)) (es : List Event) (s : Server) :
    Prop where
  req : s.req.length = reqSize
  dropped : s.stage.streams = true → s.req = List.replicate reqSize 0
  held : takes s.log = releases s.log + s.stage.holds.toNat
  fresh : lastViewer es = none → s.stage = .accepting ∧ s.log = []
  position : ∀ v ∈ lastViewer es,
    Position base64Decode v.1 v.2 (sentTo s.log) (takenFor s.log) s.stage

/-- `s'` has sent and taken no more than `s`, and has given back `n` frames more. -/
structure Returns (s s' : Server) (n : ℕ) : Prop where
  sent : sentTo s'.log = sentTo s.log
  taken : takenFor s'.log = takenFor s.log
  takes : takes s'.log = takes s.log
  releases : releases s'.log = releases s.log + n

theorem Returns.refl (s : Server) : Returns s s 0 := ⟨rfl, rfl, rfl, rfl⟩

theorem release_returns (s : Server) : Returns s s.release 1 :=
  ⟨(sentTo_did _ rfl).trans (List.append_nil _), (takenFor_did _ rfl).trans (List.append_nil _),
    takes_did _ _, releases_did _ _⟩

theorem close_returns (s : Server) : Returns s s.close 0 :=
  ⟨(sentTo_did _ rfl).trans (List.append_nil _), (takenFor_did _ rfl).trans (List.append_nil _),
    takes_did _ _, releases_did _ _⟩

theorem Returns.trans {s t u : Server} {n m : ℕ} (h : Returns s t n) (h' : Returns t u m) :
    Returns s u (n + m) :=
  ⟨h'.sent.trans h.sent, h'.taken.trans h.taken, h'.takes.trans h.takes, by
    rw [h'.releases, h.releases, Nat.add_assoc]⟩

/-- Where the thread is has no part in it. -/
theorem Returns.at {s t : Server} {n : ℕ} (h : Returns s t n) (stage : Stage) :
    Returns s { t with stage } n := ⟨h.sent, h.taken, h.takes, h.releases⟩

/-- `serve` behind a `send_all` that has returned 0: a frame is given back when it has been sent. -/
theorem sentAll_returns (s : Server) (what : Sending) :
    (s.sentAll what).stage = what.next ∧
      ∃ n, Returns s (s.sentAll what) n ∧ n + what.next.holds.toNat = what.holds.toNat := by
  cases what with
  | refusal => exact ⟨rfl, 0, close_returns s, rfl⟩
  | response => exact ⟨rfl, 0, (Returns.refl s).at _, rfl⟩
  | part j =>
    rw [Server.sentAll, Server.sendJpeg, Sending.next]
    split
    case isTrue => exact ⟨rfl, 1, (release_returns s).at _, rfl⟩
    case isFalse => exact ⟨rfl, 0, (Returns.refl s).at _, rfl⟩
  | jpeg => exact ⟨rfl, 1, (release_returns s).at _, rfl⟩
  | crlf => exact ⟨rfl, 0, (Returns.refl s).at _, rfl⟩

/-- Behind one that has failed: a frame that is held is given back. -/
theorem failed_returns (s : Server) (what : Sending) :
    (s.failed what).stage = .accepting ∧ Returns s (s.failed what) what.holds.toNat := by
  cases what with
  | part j => exact ⟨rfl, (release_returns s).trans (close_returns _)⟩
  | jpeg => exact ⟨rfl, (release_returns s).trans (close_returns _)⟩
  | refusal => exact ⟨rfl, close_returns s⟩
  | response => exact ⟨rfl, close_returns s⟩
  | crlf => exact ⟨rfl, close_returns s⟩

theorem lastViewer_concat (es : List Event) (e : Event) :
    lastViewer (es ++ [e]) = match e with
      | .viewer a password => some (a, password)
      | _ => lastViewer es := by
  cases e <;> simp [lastViewer]

theorem readHeadFrom_ret {req : List UInt8} {len : ℕ} {chunks : List (List UInt8)}
    {r : List UInt8 × Int} (h : readHeadFrom req len chunks = some r) : r.2 = 0 ∨ r.2 < 0 := by
  induction chunks generalizing req len with
  | nil =>
    cases h
    right
    dsimp only
    split <;> decide
  | cons chunk chunks ih =>
    rw [readHeadFrom] at h
    split at h
    case isTrue =>
      simp only [Option.bind_eq_bind, Option.bind_eq_some_iff] at h
      obtain ⟨req, -, req', -, found, -, h⟩ := h
      cases found with
      | none => exact ih h
      | some e =>
        obtain ⟨req'', -, h⟩ := Option.bind_eq_some_iff.mp h
        cases h
        exact .inl rfl
    case isFalse =>
      cases h
      exact .inr (show e2big < 0 by decide)

theorem length_authLoop {req req' : List UInt8} {fuel : ℕ} {line v : Option ℕ}
    (h : authLoop req fuel line = some (req', v)) : req'.length = req.length := by
  induction fuel generalizing line with
  | zero =>
    cases line with
    | none =>
      cases h
      rfl
    | some line => cases h
  | succ fuel ih =>
    cases line with
    | none =>
      cases h
      rfl
    | some line =>
      simp only [authLoop, Option.bind_eq_bind, Option.bind_eq_some_iff] at h
      obtain ⟨s, -, h⟩ := h
      split at h
      case isTrue =>
        simp only [Option.bind_eq_some_iff] at h
        obtain ⟨_, -, _, -, e, -, written, hw, h⟩ := h
        cases h
        exact length_writeAt hw
      case isFalse =>
        obtain ⟨next, -, h⟩ := Option.bind_eq_some_iff.mp h
        exact ih h

theorem length_requestOk {req req' : List UInt8} {refusal : Option Refusal}
    (h : requestOk base64Decode password req = some (req', refusal)) : req'.length = req.length := by
  simp only [requestOk, Option.bind_eq_bind, Option.bind_eq_some_iff] at h
  obtain ⟨head, -, h⟩ := h
  split at h
  · cases h
    rfl
  · split at h
    · cases h
      rfl
    · obtain ⟨⟨r, auth⟩, hauth, h⟩ := Option.bind_eq_some_iff.mp h
      simp only [authHeader, Option.bind_eq_bind, Option.bind_eq_some_iff] at hauth
      obtain ⟨line, -, ⟨r', v⟩, hloop, h'⟩ := hauth
      obtain ⟨v', -, h'⟩ := h'
      cases h'
      split at h <;> cases h <;> exact length_authLoop hloop

theorem sentAll_req (s : Server) (what : Sending) : (s.sentAll what).req = s.req := by
  cases what with
  | part j =>
    rw [Server.sentAll, Server.sendJpeg]
    split <;> rfl
  | refusal | response | jpeg | crlf => rfl

theorem failed_req (s : Server) (what : Sending) : (s.failed what).req = s.req := by
  cases what <;> rfl

/-- A request is read without touching anything outside `req`, and answered by its head. -/
theorem serve_spec (base64Decode : ℕ → Text → Option (List UInt8)) {s : Server}
    (hreq : s.req.length = reqSize) (a : Arrival) (password : Text) :
    ∃ t, s.serve base64Decode a password = some t ∧ t.req.length = reqSize ∧
      (t.stage.streams = true → t.req = List.replicate reqSize 0) ∧ t.stage.holds = false ∧
      Returns s t 0 ∧ Position base64Decode a password [] [] t.stage := by
  obtain ⟨⟨req, ret⟩, hread, hlen, hr⟩ := readHead_reads hreq a.split
  rcases hr with ⟨hret, head, after, h, hafter⟩ | ⟨hret, hno⟩
  · obtain ⟨req', hok⟩ := requestOk_decision h after base64Decode password
    obtain rfl : ret = 0 := hret
    obtain rfl : req = head ++ crlf ++ 0 :: after := hafter
    have hlen' : req'.length = reqSize := (length_requestOk hok).trans hlen
    have hserve : s.serve base64Decode a password = match decision base64Decode password head with
        | some r => some ({ s with req := req' }.send .refusal (refusalText r))
        | none => some ({ s with req := List.replicate reqSize 0 }.send .response responseText) := by
      simp only [Server.serve, hread, hok, Option.bind_eq_bind, Option.bind_some]
      rfl
    rw [hserve]
    cases hd : decision base64Decode password head with
    | some r =>
      exact ⟨_, rfl, hlen', (fun hs => by cases hs), rfl, ⟨rfl, rfl, rfl, rfl⟩,
        .refusing head r _ h hd rfl rfl⟩
    | none =>
      exact ⟨_, rfl, List.length_replicate, fun _ => rfl, rfl, ⟨rfl, rfl, rfl, rfl⟩,
        .responding head _ h hd rfl (by decide) rfl⟩
  · have hneg : ret < 0 := (readHeadFrom_ret hread).resolve_left hret
    refine ⟨{ s with req }.close, ?_, hlen, (fun hs => by cases hs), rfl, ?_, .finished (.unread hno rfl rfl)⟩
    · simp only [Server.serve, hread, Option.bind_eq_bind, Option.bind_some]
      exact if_pos hneg
    · have h := close_returns { s with req }
      exact ⟨h.sent, h.taken, h.takes, h.releases⟩

theorem standing_boot (base64Decode : ℕ → Text → Option (List UInt8)) :
    Standing base64Decode [] boot :=
  ⟨List.length_replicate, nofun, rfl, fun _ => ⟨rfl, rfl⟩, by simp [lastViewer]⟩

theorem Standing.go {es : List Event} {s t : Server} {e : Event} (h : Standing base64Decode es s)
    (hsame : lastViewer (es ++ [e]) = lastViewer es) (hreq : t.req = s.req)
    (hdrop : t.stage.streams = true → s.stage.streams = true)
    (hheld : takes t.log = releases t.log + t.stage.holds.toNat)
    (hfresh : s.stage = .accepting → t.stage = .accepting ∧ t.log = s.log)
    (hpos : ∀ a password, Position base64Decode a password (sentTo s.log) (takenFor s.log) s.stage →
      Position base64Decode a password (sentTo t.log) (takenFor t.log) t.stage) :
    Standing base64Decode (es ++ [e]) t where
  req := hreq ▸ h.req
  dropped ht := hreq.trans (h.dropped (hdrop ht))
  held := hheld
  fresh hnone := by
    obtain ⟨hs, hlog⟩ := h.fresh (hsame ▸ hnone)
    exact ⟨(hfresh hs).1, (hfresh hs).2.trans hlog⟩
  position v hv := hpos _ _ (h.position v (hsame ▸ hv))

theorem Standing.viewer {es : List Event} {s t : Server} {a : Arrival} (h : Standing base64Decode es s)
    (hs : s.stage = .accepting) (ht : (s.did .accepted).serve base64Decode a password = some t) :
    Standing base64Decode (es ++ [.viewer a password]) t := by
  obtain ⟨t', ht', hlen, hdrop, hholds, hret, hpos⟩ :=
    serve_spec base64Decode (s := s.did .accepted) h.req a password
  cases ht'.symm.trans ht
  have hnew : sentTo (s.log ++ [.accepted]) = [] ∧ takenFor (s.log ++ [.accepted]) = [] := by
    simp [sentTo, takenFor, since_concat, Out.isAccepted]
  have hheld := h.held
  rw [hs] at hheld
  refine ⟨hlen, hdrop, ?_, fun hnone => ?_, fun v hv => ?_⟩
  · have htakes : takes t.log = takes s.log := hret.takes.trans (takes_did _ _)
    have hreleases : releases t.log = releases s.log := hret.releases.trans (releases_did _ _)
    rw [htakes, hreleases, hholds]
    exact hheld
  · rw [lastViewer_concat] at hnone
    cases hnone
  · rw [lastViewer_concat] at hv
    cases hv
    rw [hret.sent, hret.taken]
    change Position base64Decode a password (sentTo (s.log ++ [.accepted]))
      (takenFor (s.log ++ [.accepted])) t.stage
    rw [hnew.1, hnew.2]
    exact hpos

theorem Standing.took {es : List Event} {s : Server} (jpeg : Jpeg) (h : Standing base64Decode es s)
    (hs : s.stage = .grabbing) :
    Standing base64Decode (es ++ [.frame (some jpeg)])
      ((s.did (.took jpeg)).send (.part jpeg) (part jpeg.bytes.length)) := by
  have hheld := h.held
  rw [hs] at hheld
  refine h.go (lastViewer_concat _ _) rfl (fun _ => hs ▸ rfl) ?_ (fun ha => ?_) fun a password hpos => ?_
  · have htakes : takes (s.log ++ [.took jpeg]) = takes s.log + 1 := takes_did _ _
    have hreleases : releases (s.log ++ [.took jpeg]) = releases s.log := releases_did _ _
    exact htakes.trans (by rw [hheld]; exact congrArg (· + 1) hreleases.symm)
  · rw [hs] at ha
    cases ha
  · have hsent : sentTo (s.log ++ [.took jpeg]) = sentTo s.log :=
      (sentTo_did _ rfl).trans (List.append_nil _)
    have htaken : takenFor (s.log ++ [.took jpeg]) = takenFor s.log ++ [jpeg.bytes] := takenFor_did _ rfl
    rw [hs] at hpos
    cases hpos with
    | between head asked decided whole =>
      have hne : part jpeg.bytes.length ≠ [] := by
        rw [part_eq jpeg.fits]
        simp [headEnd, crlf]
      have hpart : Sending.part jpeg ≠ .refusal ∧ Sending.part jpeg ≠ .response := by simp
      refine .within head (.part jpeg) _ asked decided hpart hne (takenFor s.log) jpeg.bytes []
        htaken ?_ (part_append jpeg)
      rw [List.append_nil]
      exact hsent.trans whole

/-- A viewer that is refused is sent nothing else. -/
theorem streams_sending {what : Sending} {left : List UInt8}
    (h : what.next.streams = true ∨ ∃ l, (Stage.sending what l).streams = true) :
    (Stage.sending what left).streams = true := by
  cases what with
  | refusal =>
    rcases h with h | ⟨l, h⟩
    · cases h
    · cases h
  | response | part | jpeg | crlf => rfl

theorem sent_log (log : List Out) (bytes : List UInt8) :
    sentTo (log ++ [.sent bytes]) = sentTo log ++ bytes ∧
      takenFor (log ++ [.sent bytes]) = takenFor log ∧
      takes (log ++ [.sent bytes]) = takes log ∧ releases (log ++ [.sent bytes]) = releases log :=
  ⟨sentTo_did _ rfl, (takenFor_did _ rfl).trans (List.append_nil _), takes_did _ _, releases_did _ _⟩

theorem Standing.sentLast {es : List Event} {s : Server} {what : Sending} {left : List UInt8} {n : ℕ}
    (h : Standing base64Decode es s) (hs : s.stage = .sending what left) :
    Standing base64Decode (es ++ [.send (some n)]) ((s.did (.sent left)).sentAll what) := by
  have hheld := h.held
  rw [hs] at hheld
  obtain ⟨hsent, htaken, htakes, hreleases⟩ := sent_log s.log left
  obtain ⟨hstage, m, hret, hm⟩ := sentAll_returns (s.did (.sent left)) what
  refine h.go (lastViewer_concat _ _) (sentAll_req _ what) (fun hstreams => ?_) ?_ (fun ha => ?_)
    fun a password hpos => ?_
  · rw [hstage] at hstreams
    rw [hs]
    exact streams_sending (.inl hstreams)
  · have hholds : takes s.log = releases s.log + what.holds.toNat := hheld
    rw [hstage, hret.takes, hret.releases]
    change takes (s.log ++ [.sent left]) = releases (s.log ++ [.sent left]) + m + what.next.holds.toNat
    rw [htakes, hreleases, hholds]
    omega
  · rw [hs] at ha
    cases ha
  · rw [hs] at hpos
    rw [hret.sent, hret.taken, hstage]
    change Position base64Decode a password (sentTo (s.log ++ [.sent left]))
      (takenFor (s.log ++ [.sent left])) what.next
    rw [hsent, htaken]
    exact hpos.complete

theorem Standing.sentSome {es : List Event} {s : Server} {what : Sending} {left : List UInt8} {n : ℕ}
    (h : Standing base64Decode es s) (hs : s.stage = .sending what left) (hmore : left.drop n ≠ []) :
    Standing base64Decode (es ++ [.send (some n)])
      ((s.did (.sent (left.take n))).send what (left.drop n)) := by
  have hheld := h.held
  rw [hs] at hheld
  obtain ⟨hsent, htaken, htakes, hreleases⟩ := sent_log s.log (left.take n)
  refine h.go (lastViewer_concat _ _) rfl (fun hstreams => ?_) ?_ (fun ha => ?_) fun a password hpos => ?_
  · rw [hs]
    exact streams_sending (.inr ⟨_, hstreams⟩)
  · exact htakes.trans (by rw [hheld]; exact congrArg (· + what.holds.toNat) hreleases.symm)
  · rw [hs] at ha
    cases ha
  · rw [hs] at hpos
    change Position base64Decode a password (sentTo (s.log ++ [.sent (left.take n)]))
      (takenFor (s.log ++ [.sent (left.take n)])) (.sending what (left.drop n))
    rw [hsent, htaken]
    exact hpos.advance n hmore

theorem Standing.sending {es : List Event} {s : Server} {what : Sending} {left : List UInt8} {n : ℕ}
    (h : Standing base64Decode es s) (hs : s.stage = .sending what left) :
    Standing base64Decode (es ++ [.send (some n)])
      (if left.drop n = [] then (s.did (.sent (left.take n))).sentAll what
        else (s.did (.sent (left.take n))).send what (left.drop n)) := by
  split
  case isTrue hall =>
    have hleft : left.take n = left := by
      have hsplit := List.take_append_drop n left
      rwa [hall, List.append_nil] at hsplit
    rw [hleft]
    exact h.sentLast hs
  case isFalse hmore => exact h.sentSome hs hmore

theorem Standing.failed {es : List Event} {s : Server} {what : Sending} {left : List UInt8}
    (h : Standing base64Decode es s) (hs : s.stage = .sending what left) :
    Standing base64Decode (es ++ [.send none]) (s.failed what) := by
  have hheld := h.held
  rw [hs] at hheld
  obtain ⟨hstage, hret⟩ := failed_returns s what
  refine h.go (lastViewer_concat _ _) (failed_req s what) (fun hstreams => ?_) ?_ (fun ha => ?_)
    fun a password hpos => ?_
  · rw [hstage] at hstreams
    cases hstreams
  · rw [hstage, hret.takes, hret.releases]
    exact hheld
  · rw [hs] at ha
    cases ha
  · rw [hret.sent, hret.taken, hstage]
    exact .finished hpos.answered

theorem standing_step {es : List Event} {s t : Server} {e : Event}
    (h : Standing base64Decode es s) (ht : step base64Decode s e = some t) :
    Standing base64Decode (es ++ [e]) t := by
  cases hs : s.stage with
  | accepting =>
    cases e with
    | viewer a password =>
      simp only [step, hs] at ht
      exact h.viewer hs ht
    | noViewer =>
      simp only [step, hs] at ht
      cases ht
      exact h.go (lastViewer_concat _ _) rfl id h.held (⟨·, rfl⟩) fun _ _ hpos => hpos
    | frame jpeg => simp [step, hs] at ht
    | send n => simp [step, hs] at ht
  | grabbing =>
    cases e with
    | viewer a password => simp [step, hs] at ht
    | noViewer => simp [step, hs] at ht
    | frame jpeg =>
      cases jpeg with
      | none =>
        simp only [step, hs] at ht
        cases ht
        exact h.go (lastViewer_concat _ _) rfl id h.held (⟨·, rfl⟩) fun _ _ hpos => hpos
      | some jpeg =>
        simp only [step, hs] at ht
        cases ht
        exact h.took jpeg hs
    | send n => simp [step, hs] at ht
  | sending what left =>
    cases e with
    | viewer a password => simp [step, hs] at ht
    | noViewer => simp [step, hs] at ht
    | frame jpeg => simp [step, hs] at ht
    | send n =>
      cases n with
      | none =>
        simp only [step, hs] at ht
        cases ht
        exact h.failed hs
      | some n =>
        simp only [step, hs] at ht
        split at ht
        case isTrue => cases ht
        case isFalse =>
          cases ht
          exact h.sending hs

theorem standing_run {es : List Event} {s : Server} (h : runFrom (step base64Decode) boot es = some s) :
    Standing base64Decode es s :=
  runFrom_induction (standing_boot base64Decode) (fun _ _ _ _ hs ht => standing_step hs ht) h

/-- A viewer sees the frames. In every run, whatever the calls of the sockets return: a viewer is
answered by its head alone, with nothing, an error, or, if it brings the password, the frames that
are taken for it, of which it sees all, in their order and byte for byte, but the one that is under
way; what it has received of them so far, it sees. A frame is held from when it is taken until
it is sent or the viewer is gone, and then given back once; the credentials are gone before the
stream begins; and a viewer that comes is always read within `req`. -/
theorem viewer_sees_frames {es : List Event} {s : Server}
    (h : runFrom (step base64Decode) boot es = some s) :
    (∀ v ∈ lastViewer es, Answered base64Decode v.1 v.2 (sentTo s.log) (takenFor s.log)) ∧
      (s.stage = .grabbing → viewed (sentTo s.log) = takenFor s.log) ∧
      (∀ received, received <+: sentTo s.log → viewed received <+: takenFor s.log) ∧
      takes s.log = releases s.log + s.stage.holds.toNat ∧
      (s.stage.streams = true → s.req = List.replicate reqSize 0) ∧
      (s.stage = .accepting → ∀ a password, (step base64Decode s (.viewer a password)).isSome) := by
  have hs := standing_run h
  have hanswered : ∀ v ∈ lastViewer es,
      Answered base64Decode v.1 v.2 (sentTo s.log) (takenFor s.log) := fun v hv => (hs.position v hv).answered
  refine ⟨hanswered, fun hg => ?_, fun received hr => (viewed_mono hr).trans ?_, hs.held, hs.dropped,
    fun ha a password => ?_⟩
  · cases hv : lastViewer es with
    | none =>
      have ha := (hs.fresh hv).1
      rw [hg] at ha
      cases ha
    | some v =>
      have hpos := hs.position v hv
      rw [hg] at hpos
      cases hpos with
      | between head asked decided whole =>
        have hseen := viewed_flatMap (p := []) rfl (takenFor s.log)
        rwa [List.append_nil, ← whole] at hseen
  · cases hv : lastViewer es with
    | none =>
      rw [(hs.fresh hv).2]
      exact List.nil_prefix
    | some v => exact (hanswered v hv).seen
  · obtain ⟨t, ht, -⟩ := serve_spec base64Decode (s := s.did .accepted) hs.req a password
    simp [step, ha, ht]

def oneHeader (_ : ℕ) (s : Text) : Option (List UInt8) :=
  if s = text "YWRtaW46cHc=" then some (text "admin:pw") else none

def withPassword : Arrival where
  stream := text "GET / HTTP/1.1\r\nAuthorization: Basic YWRtaW46cHc=\r\n\r\n" ++ []
  chunks := [text "GET / HTTP/1.1\r\nAuthorization: Basic YWRtaW46cHc=\r\n\r\n"]
  split := .piece (by decide) (by decide) (.closed _)

/-- Two frames, the first of which looks like the start of a part, to a viewer that goes away in
the middle of the second. -/
def visit : List Event :=
  [.noViewer, .viewer withPassword (text "pw"), .send (some 100), .send (some 20), .frame none,
    .frame (some ⟨text "--frame", by decide⟩), .send (some 56), .send (some 3), .send (some 4),
    .send (some 2), .frame (some ⟨[255, 216], by decide⟩), .send (some 56), .send (some 1), .send none]

def visited : Server := (runFrom (step oneHeader) boot visit).get (by decide +kernel)

theorem viewer_sees_frames_visit :
    viewed (sentTo visited.log) = [text "--frame"] ∧
      takenFor visited.log = [text "--frame", [255, 216]] ∧
      takes visited.log = releases visited.log + visited.stage.holds.toNat := by
  have h : runFrom (step oneHeader) boot visit = some visited := (Option.some_get _).symm
  exact ⟨by decide +kernel, by decide +kernel, (viewer_sees_frames h).2.2.2.1⟩

end ZephyrApps.ViewerStreams
