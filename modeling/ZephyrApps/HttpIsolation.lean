import ZephyrApps.EventHistories
import ZephyrApps.RemoteApi

/-!
# Requests are isolated

However the callbacks of different clients fall between each other, a request is
answered from its own callbacks alone: the header of its first one and the bodies of
all of them. A slot knows of its client what the callbacks since the client's last
release say, and nothing else.
-/
namespace ZephyrApps.HttpIsolation
open CStrings ApiReplies SlotTables HttpServer EventHistories

variable {ι δ : Type*} {n : ℕ}

abbrev Entry (ι δ : Type*) := Callback ι × δ × Outcome

def IsRelease (e : Callback ι) : Prop := e.status = .aborted ∨ e.status = .complete

instance (e : Callback ι) : Decidable (IsRelease e) :=
  inferInstanceAs (Decidable (e.status = .aborted ∨ e.status = .complete))

/-- The callbacks of the client since its last release: those of its open request. -/
def request [DecidableEq ι] (c : ι) (log : List (Entry ι δ)) : List (Entry ι δ) :=
  since (fun x => decide (IsRelease x.1)) (log.filter fun x => decide (x.1.client = c))

def Reading (h : List (Entry ι δ)) : Prop := ∀ x ∈ h, x.1.status = .dataMore

/-- The server was told that more of the response follows. -/
def Continuing (h : List (Entry ι δ)) : Prop :=
  ∃ e d bytes, h.getLast? = some (e, d, .chunk bytes false)

/-- What the server promises of its callbacks: a request is data callbacks and then a
final one, with headers on the first at most; it goes on only for a response that is
not complete; and no more clients than slots have one open. -/
structure Allowed [DecidableEq ι] (n : ℕ) (log : List (Entry ι δ)) (e : Callback ι) : Prop where
  order : IsRelease e ∨ Continuing (request e.client log) ∨
    (Reading (request e.client log) ∧ (request e.client log ≠ [] → e.headers = none))
  clients : ¬ IsRelease e → ∀ cs : Finset ι,
    (∀ c ∈ cs, c = e.client ∨ request c log ≠ []) → cs.card ≤ n

/-- The runs of the server: callbacks one at a time, and the device in any state for
each of them. -/
inductive Served [DecidableEq ι] (api : Api δ) : List (Entry ι δ) → Server ι n δ → Prop where
  | boot (d : δ) : Served api [] ⟨fun _ => .free, d⟩
  | device {log : List (Entry ι δ)} {s : Server ι n δ} (before : Served api log s) (d : δ) :
      Served api log { s with device := d }
  | callback {log : List (Entry ι δ)} {s : Server ι n δ} (before : Served api log s)
      {e : Callback ι} (allowed : Allowed n log e) :
      Served api (log ++ [(e, s.device, (routeHandler api s e).2)]) (routeHandler api s e).1

/-- The value of the first `Authorization` header, cut to the buffer; empty if there
is none. -/
def authOf (size : ℕ) (headers : Option (List (Text × Text))) : Text :=
  match headers.bind (List.find? fun h => isAuthorization h.1) with
  | none => []
  | some h => h.2.take (size - 1)

/-- The credentials of a request: those of its first callback. -/
def requestAuth (size : ℕ) : List (Callback ι) → Text
  | [] => []
  | e :: _ => authOf size e.headers

def requestBody (h : List (Callback ι)) : List UInt8 := h.flatMap Callback.data

def Outcome.sent : Outcome → ℕ
  | .chunk bytes _ => bytes.length
  | _ => 0

def sent (h : List (Entry ι δ)) : ℕ := (h.map fun x => Outcome.sent x.2.2).sum

def unread (h : List (Entry ι δ)) : List (Entry ι δ) :=
  h.takeWhile fun x => decide (x.1.status = .dataMore)

/-- The size that the handler returned when the request was fully read. -/
def returnedSize (api : Api δ) (h : List (Entry ι δ)) : ℕ :=
  match h.dropWhile fun x => decide (x.1.status = .dataMore) with
  | [] => 0
  | (e, d, _) :: _ =>
    let read := (unread h).map Prod.fst ++ [e]
    (api.call e (requestAuth api.headerBuffer read) (requestBody read) d).2.2

def chunkAt (api : Api δ) (off size : ℕ) (d : δ) : Outcome :=
  let bytes := api.crashRead off (min pstopApiBodyMax (size - off)) d
  if bytes = [] then .chunk [] true else .chunk bytes (decide (size ≤ off + bytes.length))

/-- The answer to a request that is fully read: its handler is called once, or not at
all if the body is too large. -/
def answer (api : Api δ) (e : Callback ι) (auth : Text) (body : List UInt8) (d : δ) :
    δ × Outcome :=
  if reqBodyMax < body.length then (d, .respond tooLarge)
  else
    let (d, rsp, size) := api.call e auth body d
    if e.route = .coredump ∧ rsp.status = 200 then (d, chunkAt api 0 size d)
    else if e.route = .adminPage ∧ rsp.status = 200 then (d, .page)
    else (d, .respond rsp)

def slotStep (api : Api δ) (e : Callback ι) (r : ReqState ι) (d : δ) : ReqState ι × δ × Outcome :=
  if r.streaming then ((streamCoredump api r d).1, d, (streamCoredump api r d).2)
  else if e.status ≠ .dataFinal then
    ((r.captureAuth api.headerBuffer e.headers).gatherBody e.data, d, .nothing)
  else answerRequest api e ((r.captureAuth api.headerBuffer e.headers).gatherBody e.data) d

/-- The body so far, or that it was too large. -/
def Gathered (body : List UInt8) (r : ReqState ι) : Prop :=
  if reqBodyMax < body.length then r.overflow = true else r.overflow = false ∧ r.body = body

theorem Gathered.body {body : List UInt8} {r : ReqState ι} (h : Gathered body r)
    (hover : ¬ r.overflow = true) : r.body = body := by
  rw [Gathered] at h
  split at h
  · exact absurd h hover
  · exact h.2

structure Tracks (api : Api δ) (h : List (Entry ι δ)) (r : ReqState ι) : Prop where
  notStreaming : Reading h → r.streaming = false
  auth : Reading h → r.auth = requestAuth api.headerBuffer (h.map Prod.fst)
  body : Reading h → Gathered (requestBody (h.map Prod.fst)) r
  unsent : Reading h → sent h = 0
  streaming : Continuing h →
    r.streaming = true ∧ r.streamOff = sent h ∧ r.streamSize = returnedSize api h

/-- Capturing changes the credentials only. -/
theorem captureAuth_frame (size : ℕ) (r : ReqState ι) (headers : Option (List (Text × Text))) :
    (r.captureAuth size headers).client = r.client ∧
      (r.captureAuth size headers).streaming = r.streaming ∧
      (r.captureAuth size headers).overflow = r.overflow ∧
      (r.captureAuth size headers).body = r.body := by
  cases headers with
  | none => exact ⟨rfl, rfl, rfl, rfl⟩
  | some headers =>
    rw [ReqState.captureAuth]
    cases headers.find? fun h => isAuthorization h.1 with
    | none => exact ⟨rfl, rfl, rfl, rfl⟩
    | some h => exact ⟨rfl, rfl, rfl, rfl⟩

theorem captureAuth_gathered {body : List UInt8} {r : ReqState ι} (size : ℕ)
    (headers : Option (List (Text × Text))) (h : Gathered body r) :
    Gathered body (r.captureAuth size headers) := by
  obtain ⟨-, -, hoverflow, hbody⟩ := captureAuth_frame size r headers
  rwa [Gathered, hoverflow, hbody]

/-- The header of the first callback is captured; later ones carry none. -/
theorem captureAuth_auth {size : ℕ} {h : List (Callback ι)} {r : ReqState ι} {e : Callback ι}
    (hr : r.auth = requestAuth size h) (he : h ≠ [] → e.headers = none) :
    (r.captureAuth size e.headers).auth = requestAuth size (h ++ [e]) := by
  cases h with
  | nil =>
    cases hh : e.headers with
    | none => simpa [ReqState.captureAuth, requestAuth, authOf, hh] using hr
    | some headers =>
      simp only [ReqState.captureAuth, List.nil_append, requestAuth, authOf, hh, Option.bind_some]
      cases headers.find? fun h => isAuthorization h.1 <;> rfl
  | cons first rest =>
    rw [he (by simp)]
    exact hr

/-- Gathering changes the body only. -/
theorem gatherBody_frame (r : ReqState ι) (data : List UInt8) :
    (r.gatherBody data).client = r.client ∧ (r.gatherBody data).streaming = r.streaming ∧
      (r.gatherBody data).auth = r.auth := by
  rw [ReqState.gatherBody]
  by_cases hd : data = []
  · rw [if_pos hd]
    exact ⟨rfl, rfl, rfl⟩
  rw [if_neg hd]
  by_cases hfits : reqBodyMax < r.body.length + data.length
  · rw [dif_pos hfits]
    exact ⟨rfl, rfl, rfl⟩
  · rw [dif_neg hfits]
    exact ⟨rfl, rfl, rfl⟩

/-- A chunk is appended, or the body is too large from then on. -/
theorem gatherBody_gathered {body : List UInt8} {r : ReqState ι} (h : Gathered body r)
    (data : List UInt8) : Gathered (body ++ data) (r.gatherBody data) := by
  rw [ReqState.gatherBody]
  by_cases hd : data = []
  · rw [if_pos hd, hd, List.append_nil]
    exact h
  rw [if_neg hd]
  by_cases hlarge : reqBodyMax < body.length
  · -- overflow is sticky, whatever is still appended
    rw [Gathered, if_pos hlarge] at h
    rw [Gathered, if_pos (by rw [List.length_append]; omega)]
    by_cases hfits : reqBodyMax < r.body.length + data.length
    · rw [dif_pos hfits]
    · rw [dif_neg hfits]
      exact h
  · rw [Gathered, if_neg hlarge] at h
    obtain ⟨hover, rfl⟩ := h
    by_cases hfits : reqBodyMax < r.body.length + data.length
    · rw [dif_pos hfits, Gathered, if_pos (by rwa [List.length_append])]
    · rw [dif_neg hfits, Gathered, if_neg (by rwa [List.length_append])]
      exact ⟨hover, rfl⟩

theorem streamCoredump_outcome (api : Api δ) (r : ReqState ι) (d : δ) :
    (streamCoredump api r d).2 = chunkAt api r.streamOff r.streamSize d := by
  unfold streamCoredump chunkAt
  dsimp only
  split <;> rfl

/-- Streaming goes on from what was sent. -/
theorem streamCoredump_slot (api : Api δ) (r : ReqState ι) (d : δ) :
    (streamCoredump api r d).1.client = r.client ∧
      (streamCoredump api r d).1.streaming = r.streaming ∧
      (streamCoredump api r d).1.streamSize = r.streamSize ∧
      (streamCoredump api r d).1.streamOff =
        r.streamOff + Outcome.sent (streamCoredump api r d).2 := by
  unfold streamCoredump
  dsimp only
  split
  · exact ⟨rfl, rfl, rfl, rfl⟩
  · exact ⟨rfl, rfl, rfl, rfl⟩

/-- A request that is fully read is answered from what its slot gathered. -/
theorem answerRequest_answer (api : Api δ) (e : Callback ι) {r : ReqState ι} {body : List UInt8}
    (hbody : Gathered body r) (d : δ) :
    (answerRequest api e r d).2 = answer api e r.auth body d := by
  rw [answerRequest, answer]
  by_cases hlarge : reqBodyMax < body.length
  · rw [Gathered, if_pos hlarge] at hbody
    rw [if_pos hlarge, if_pos hbody]
  · rw [Gathered, if_neg hlarge] at hbody
    obtain ⟨hover, rfl⟩ := hbody
    have hno : ¬ r.overflow = true := by simp [hover]
    rw [if_neg hlarge, if_neg hno]
    dsimp only
    by_cases hc : e.route = .coredump ∧ (api.call e r.auth r.body d).2.1.status = 200
    · rw [if_pos hc, if_pos hc, if_pos hc.1, streamCoredump_outcome]
    · rw [if_neg hc, if_neg hc]
      split <;> rfl

theorem answerRequest_slot (api : Api δ) (e : Callback ι) (r : ReqState ι) (d : δ) :
    (answerRequest api e r d).1.client = r.client ∧
      ∀ bytes, (answerRequest api e r d).2.2 = .chunk bytes false →
        ¬ r.overflow = true ∧ (answerRequest api e r d).1.streaming = true ∧
          (answerRequest api e r d).1.streamOff = bytes.length ∧
            (answerRequest api e r d).1.streamSize = (api.call e r.auth r.body d).2.2 := by
  rw [answerRequest]
  by_cases hover : r.overflow = true
  · rw [if_pos hover]
    exact ⟨rfl, fun _ h => nomatch h⟩
  rw [if_neg hover]
  dsimp only
  by_cases hc : e.route = .coredump ∧ (api.call e r.auth r.body d).2.1.status = 200
  · rw [if_pos hc, if_pos hc.1]
    obtain ⟨hclient, hstreaming, hsize, hoff⟩ := streamCoredump_slot api
      { r with
        streamSize := (api.call e r.auth r.body d).2.2
        streaming := true
        streamOff := 0 } (api.call e r.auth r.body d).1
    refine ⟨hclient, fun bytes hout => ⟨hover, hstreaming, ?_, hsize⟩⟩
    rw [hoff, hout]
    exact Nat.zero_add _
  · rw [if_neg hc]
    by_cases hp : e.route = .adminPage ∧ (api.call e r.auth r.body d).2.1.status = 200
    · rw [if_pos hp]
      refine ⟨?_, fun _ h => nomatch h⟩
      split <;> rfl
    · rw [if_neg hp]
      refine ⟨?_, fun _ h => nomatch h⟩
      split <;> rfl

/-- What a callback of an open or a new request must do; `before` are the callbacks of
the request so far. -/
structure Isolated (api : Api δ) (before : List (Entry ι δ)) (e : Callback ι) (d : δ)
    (result : δ × Outcome) : Prop where
  memory : result.2 ≠ .noMemory
  released : IsRelease e → result = (d, .nothing)
  more : Reading before → e.status = .dataMore → result = (d, .nothing)
  answered : Reading before → e.status = .dataFinal →
    result = answer api e (requestAuth api.headerBuffer (before.map Prod.fst ++ [e]))
      (requestBody (before.map Prod.fst ++ [e])) d
  continued : ¬ Reading before → ¬ IsRelease e →
    result = (d, chunkAt api (sent before) (returnedSize api before) d)

theorem chunkAt_memory (api : Api δ) (off size : ℕ) (d : δ) :
    chunkAt api off size d ≠ .noMemory := by
  unfold chunkAt
  dsimp only
  split <;> exact fun h => nomatch h

theorem answer_memory (api : Api δ) (e : Callback ι) (auth : Text) (body : List UInt8) (d : δ) :
    (answer api e auth body d).2 ≠ .noMemory := by
  rw [answer]
  split
  · exact fun h => nomatch h
  dsimp only
  split
  · exact chunkAt_memory _ _ _ _
  · split <;> exact fun h => nomatch h

theorem requestBody_concat (h : List (Callback ι)) (e : Callback ι) :
    requestBody (h ++ [e]) = requestBody h ++ e.data := by
  simp [requestBody]

theorem sent_concat (h : List (Entry ι δ)) (x : Entry ι δ) :
    sent (h ++ [x]) = sent h + Outcome.sent x.2.2 := by
  simp [sent]

theorem not_reading_concat {h : List (Entry ι δ)} {x : Entry ι δ} (hx : x.1.status ≠ .dataMore) :
    ¬ Reading (h ++ [x]) := fun hr => hx (hr x (by simp))

theorem not_continuing_concat {h : List (Entry ι δ)} {x : Entry ι δ}
    (hx : ∀ bytes, x.2.2 ≠ .chunk bytes false) : ¬ Continuing (h ++ [x]) := by
  rintro ⟨e, d, bytes, hlast⟩
  rw [List.getLast?_concat] at hlast
  obtain rfl := Option.some.inj hlast
  exact hx bytes rfl

theorem unread_concat {h : List (Entry ι δ)} (hr : Reading h) {x : Entry ι δ}
    (hx : x.1.status = .dataFinal) :
    unread (h ++ [x]) = h ∧
      (h ++ [x]).dropWhile (fun x => decide (x.1.status = .dataMore)) = [x] := by
  have hmore : ∀ y ∈ h, decide (y.1.status = .dataMore) = true := fun y hy =>
    decide_eq_true (hr y hy)
  have hfinal : decide (x.1.status = .dataMore) = false := by
    rw [hx]
    rfl
  constructor
  · rw [unread, List.takeWhile_append_of_pos hmore, List.takeWhile_cons_of_neg (by simp [hfinal]),
      List.append_nil]
  · rw [List.dropWhile_append_of_pos hmore, List.dropWhile_cons_of_neg (by simp [hfinal])]

theorem returnedSize_final (api : Api δ) {h : List (Entry ι δ)} (hr : Reading h) {e : Callback ι}
    (he : e.status = .dataFinal) (d : δ) (out : Outcome) :
    returnedSize api (h ++ [(e, d, out)]) =
      (api.call e (requestAuth api.headerBuffer (h.map Prod.fst ++ [e]))
        (requestBody (h.map Prod.fst ++ [e])) d).2.2 := by
  obtain ⟨htake, hdrop⟩ := unread_concat hr (x := (e, d, out)) he
  rw [returnedSize, hdrop, htake]

/-- What comes after the request was read does not change what its handler returned. -/
theorem returnedSize_concat (api : Api δ) {h : List (Entry ι δ)} (hr : ¬ Reading h) (x : Entry ι δ) :
    returnedSize api (h ++ [x]) = returnedSize api h := by
  cases hd : h.dropWhile fun x => decide (x.1.status = .dataMore) with
  | nil =>
    exact absurd (fun y hy => of_decide_eq_true (List.dropWhile_eq_nil_iff.mp hd y hy)) hr
  | cons y rest =>
    have hlt : (h.takeWhile fun x => decide (x.1.status = .dataMore)).length ≠ h.length := by
      intro hlen
      have hsplit := congrArg List.length
        (List.takeWhile_append_dropWhile (p := fun x => decide (x.1.status = .dataMore)) (l := h))
      rw [List.length_append, hlen, hd, List.length_cons] at hsplit
      omega
    have hunread : unread (h ++ [x]) = unread h := by
      rw [unread, unread, List.takeWhile_append, if_neg hlt]
    rw [returnedSize, returnedSize, hunread, List.dropWhile_append, hd]
    rfl

variable {api : Api δ} {h : List (Entry ι δ)} {e : Callback ι} {r : ReqState ι}

theorem slotStep_continuing (ht : Tracks api h r) (hrel : ¬ IsRelease e)
    (hc : Continuing h) (d : δ) :
    (slotStep api e r d).1.client = r.client ∧
      Tracks api (h ++ [(e, d, (slotStep api e r d).2.2)]) (slotStep api e r d).1 ∧
      Isolated api h e d (slotStep api e r d).2 := by
  obtain ⟨hstreaming, hoff, hsize⟩ := ht.streaming hc
  have hnr : ¬ Reading h := fun hr => by simp [ht.notStreaming hr] at hstreaming
  have hnr' (x : Entry ι δ) : ¬ Reading (h ++ [x]) := fun hr => hnr fun y hy => hr y (by simp [hy])
  obtain ⟨hclient, hs, hz, ho⟩ := streamCoredump_slot api r d
  rw [slotStep, if_pos hstreaming]
  refine ⟨hclient, ⟨fun hr => absurd hr (hnr' _), fun hr => absurd hr (hnr' _),
    fun hr => absurd hr (hnr' _), fun hr => absurd hr (hnr' _), fun _ => ?_⟩, ?_⟩
  · exact ⟨hs.trans hstreaming, by rw [ho, hoff, sent_concat],
      by rw [hz, hsize, returnedSize_concat api hnr]⟩
  · rw [streamCoredump_outcome, hoff, hsize]
    exact
      { memory := chunkAt_memory _ _ _ _
        released := fun hr => absurd hr hrel
        more := fun hr => absurd hr hnr
        answered := fun hr => absurd hr hnr
        continued := fun _ _ => rfl }

theorem slotStep_reading (ht : Tracks api h r) (hrel : ¬ IsRelease e)
    (hr : Reading h) (hheaders : h ≠ [] → e.headers = none) (d : δ) :
    (slotStep api e r d).1.client = r.client ∧
      Tracks api (h ++ [(e, d, (slotStep api e r d).2.2)]) (slotStep api e r d).1 ∧
      Isolated api h e d (slotStep api e r d).2 := by
  have hns : ¬ r.streaming = true := by simp [ht.notStreaming hr]
  obtain ⟨hclient, hstreaming, -, -⟩ := captureAuth_frame api.headerBuffer r e.headers
  obtain ⟨hclient', hstreaming', hauth'⟩ :=
    gatherBody_frame (r.captureAuth api.headerBuffer e.headers) e.data
  have hauth : ((r.captureAuth api.headerBuffer e.headers).gatherBody e.data).auth =
      requestAuth api.headerBuffer (h.map Prod.fst ++ [e]) := by
    rw [hauth']
    exact captureAuth_auth (ht.auth hr) fun hne => hheaders (by simpa using hne)
  have hbody : Gathered (requestBody (h.map Prod.fst ++ [e]))
      ((r.captureAuth api.headerBuffer e.headers).gatherBody e.data) := by
    rw [requestBody_concat]
    exact gatherBody_gathered (captureAuth_gathered _ _ (ht.body hr)) _
  have hmap (out : Outcome) : (h ++ [(e, d, out)]).map Prod.fst = h.map Prod.fst ++ [e] := by simp
  rw [slotStep, if_neg hns]
  by_cases hf : e.status ≠ .dataFinal
  · have hmore : e.status = .dataMore := by
      cases hst : e.status with
      | aborted => exact absurd (Or.inl hst) hrel
      | dataMore => rfl
      | dataFinal => exact absurd hst hf
      | complete => exact absurd (Or.inr hst) hrel
    rw [if_pos hf]
    refine ⟨hclient'.trans hclient, ⟨fun _ => ?_, fun _ => ?_, fun _ => ?_, fun _ => ?_,
      fun hc => ?_⟩, ?_⟩
    · exact (hstreaming'.trans hstreaming).trans (ht.notStreaming hr)
    · rw [hmap]
      exact hauth
    · rw [hmap]
      exact hbody
    · rw [sent_concat, ht.unsent hr]
      rfl
    · exact absurd hc (not_continuing_concat fun _ he => nomatch he)
    · exact
        { memory := fun he => nomatch he
          released := fun hrel' => absurd hrel' hrel
          more := fun _ _ => rfl
          answered := fun _ hfinal => absurd hfinal hf
          continued := fun hnr => absurd hr hnr }
  · have hfinal : e.status = .dataFinal := not_not.mp hf
    have hnm : e.status ≠ .dataMore := by simp [hfinal]
    have hnr' (out : Outcome) : ¬ Reading (h ++ [(e, d, out)]) := not_reading_concat hnm
    have hanswer := answerRequest_answer api e hbody d
    rw [hauth] at hanswer
    obtain ⟨hslot, hchunk⟩ := answerRequest_slot api e
      ((r.captureAuth api.headerBuffer e.headers).gatherBody e.data) d
    rw [if_neg hf]
    refine ⟨hslot.trans (hclient'.trans hclient), ⟨fun hr' => absurd hr' (hnr' _),
      fun hr' => absurd hr' (hnr' _), fun hr' => absurd hr' (hnr' _),
      fun hr' => absurd hr' (hnr' _), fun hc => ?_⟩, ?_⟩
    · obtain ⟨e', d', bytes, hlast⟩ := hc
      rw [List.getLast?_concat] at hlast
      have hout := congrArg (fun x => x.2.2) (Option.some.inj hlast)
      obtain ⟨hover, hstreaming, hoff, hsize⟩ := hchunk bytes hout
      refine ⟨hstreaming, ?_, ?_⟩
      · rw [hoff, sent_concat, ht.unsent hr, hout]
        exact (Nat.zero_add _).symm
      · rw [hsize, returnedSize_final api hr hfinal, hauth, hbody.body hover]
    · rw [hanswer]
      exact
        { memory := answer_memory _ _ _ _ _
          released := fun hrel' => absurd hrel' hrel
          more := fun _ hmore => absurd hmore hnm
          answered := fun _ _ => rfl
          continued := fun hnr => absurd hr hnr }

theorem tracks_claimed (api : Api δ) (c : ι) : Tracks api [] (ReqState.claimed c) where
  notStreaming _ := rfl
  auth _ := rfl
  body _ := ⟨rfl, rfl⟩
  unsent _ := rfl
  streaming := by
    rintro ⟨_, _, _, h⟩
    exact nomatch h

variable [DecidableEq ι] {log : List (Entry ι δ)} {reqs : Fin n → ReqState ι}

/-- A callback belongs to its client's request only. -/
theorem request_concat (c : ι) (log : List (Entry ι δ)) (x : Entry ι δ) :
    request c (log ++ [x]) =
      if x.1.client = c then if IsRelease x.1 then [] else request c log ++ [x]
      else request c log := by
  rw [request, List.filter_append]
  by_cases hc : x.1.client = c
  · rw [if_pos hc]
    have hx : [x].filter (fun x => decide (x.1.client = c)) = [x] := by simp [hc]
    rw [hx, since_concat]
    by_cases hr : IsRelease x.1
    · rw [if_pos hr, if_pos (by simpa using hr)]
    · rw [if_neg hr, if_neg (by simpa using hr)]
      rfl
  · rw [if_neg hc]
    have hx : [x].filter (fun x => decide (x.1.client = c)) = [] := by simp [hc]
    rw [hx, List.append_nil]
    rfl

/-- Every open request has a slot of its own, which knows it. -/
structure Sound (api : Api δ) (log : List (Entry ι δ)) (reqs : Fin n → ReqState ι) : Prop where
  distinct : Distinct ReqState.client reqs
  held : ∀ c, request c log ≠ [] ↔ ∃ i, (reqs i).client = some c
  tracks : ∀ i c, (reqs i).client = some c → Tracks api (request c log) (reqs i)

theorem sound_boot (api : Api δ) : Sound api [] fun _ : Fin n => (ReqState.free : ReqState ι) where
  distinct := fun _ _ _ h => nomatch h
  held c := by
    refine iff_of_false (fun h => h rfl) ?_
    rintro ⟨_, h⟩
    exact nomatch h
  tracks := fun _ _ h => nomatch h

/-- A client finds its own slot, or a free one is claimed for it. -/
theorem Sound.reqFor (h : Sound api log reqs) {c : ι}
    (hclients : ∀ cs : Finset ι, (∀ c' ∈ cs, c' = c ∨ request c' log ≠ []) → cs.card ≤ n) :
    ∃ i r, reqFor reqs c = some (i, r) ∧ r.client = some c ∧ Tracks api (request c log) r ∧
      ((reqs i).client = none ∨ (reqs i).client = some c) ∧
      ∀ j, j ≠ i → (reqs j).client ≠ some c := by
  rw [HttpServer.reqFor]
  cases hown : firstSlot (fun r => decide (r.client = some c)) reqs with
  | some i =>
    have hown := firstSlot_some hown
    have hi : (reqs i).client = some c := of_decide_eq_true hown
    exact ⟨i, reqs i, rfl, hi, h.tracks i c hi, Or.inr hi,
      fun j hj hjc => hj (h.distinct j i c hjc hi)⟩
  | none =>
    have hnone (i : Fin n) : (reqs i).client ≠ some c := by
      have hi := firstSlot_none hown i
      exact of_decide_eq_false hi
    have hnew : request c log = [] := by
      by_contra hne
      obtain ⟨i, hi⟩ := (h.held c).mp hne
      exact hnone i hi
    cases hfree : firstSlot (fun r => decide (r.client = none)) reqs with
    | some i =>
      have hfree := firstSlot_some hfree
      refine ⟨i, .claimed c, rfl, rfl, ?_, Or.inl (of_decide_eq_true hfree), fun j _ => hnone j⟩
      rw [hnew]
      exact tracks_claimed api c
    | none =>
      obtain ⟨i, hi⟩ := h.distinct.exists_free hnone fun cs hcs => hclients cs fun c' hc' =>
        (hcs c' hc').imp_right (h.held c').mpr
      have hheld := firstSlot_none hfree i
      exact absurd hi (of_decide_eq_false hheld)

theorem request_released {c : ι} {e : Callback ι} {d : δ} {out : Outcome} (hrel : IsRelease e) :
    request c (log ++ [(e, d, out)]) = if e.client = c then [] else request c log := by
  rw [request_concat, if_pos hrel]

theorem request_opened {c : ι} {e : Callback ι} {d : δ} {out : Outcome} (hrel : ¬ IsRelease e) :
    request c (log ++ [(e, d, out)]) =
      if e.client = c then request c log ++ [(e, d, out)] else request c log := by
  rw [request_concat, if_neg hrel]

/-- A release frees the client's slot and no other. -/
theorem Sound.release (h : Sound api log reqs) (hrel : IsRelease e) (d : δ) (out : Outcome) :
    Sound api (log ++ [(e, d, out)]) (reqRelease reqs e.client) := by
  have hkey (i : Fin n) (c : ι) : (reqRelease reqs e.client i).client = some c ↔
      e.client ≠ c ∧ (reqs i).client = some c := by
    rw [reqRelease]
    by_cases hi : (reqs i).client = some e.client
    · rw [if_pos hi, hi]
      refine iff_of_false (fun hn => nomatch hn) ?_
      rintro ⟨hne, heq⟩
      exact hne (Option.some.inj heq)
    · rw [if_neg hi]
      refine ⟨fun hc => ⟨?_, hc⟩, fun hc => hc.2⟩
      rintro rfl
      exact hi hc
  refine ⟨h.distinct.release fun i => ?_, fun c => ?_, fun i c hc => ?_⟩
  · rw [reqRelease]
    by_cases hi : (reqs i).client = some e.client
    · rw [if_pos hi]
      exact Or.inl rfl
    · rw [if_neg hi]
      exact Or.inr rfl
  · rw [request_released hrel]
    by_cases hc : e.client = c
    · rw [if_pos hc]
      refine iff_of_false (fun hn => hn rfl) ?_
      rintro ⟨i, hi⟩
      exact ((hkey i c).mp hi).1 hc
    · rw [if_neg hc, h.held]
      exact exists_congr fun i => ⟨fun hi => (hkey i c).mpr ⟨hc, hi⟩, fun hi => ((hkey i c).mp hi).2⟩
  · obtain ⟨hne, hi⟩ := (hkey i c).mp hc
    have hslot : reqRelease reqs e.client i = reqs i := by
      rw [reqRelease, if_neg]
      intro he
      exact hne (Option.some.inj (he.symm.trans hi))
    rw [request_released hrel, if_neg hne, hslot]
    exact h.tracks i c hi

/-- A callback changes the slot of its client and no other. -/
theorem Sound.update (h : Sound api log reqs) (hrel : ¬ IsRelease e) {i : Fin n}
    {r : ReqState ι} {d : δ} {out : Outcome} (hr : r.client = some e.client)
    (ht : Tracks api (request e.client log ++ [(e, d, out)]) r)
    (hi : (reqs i).client = none ∨ (reqs i).client = some e.client)
    (hother : ∀ j, j ≠ i → (reqs j).client ≠ some e.client) :
    Sound api (log ++ [(e, d, out)]) (Function.update reqs i r) := by
  refine ⟨h.distinct.update hr hother, fun c => ?_, fun j c hc => ?_⟩
  · rw [request_opened hrel]
    by_cases hc : e.client = c
    · subst hc
      rw [if_pos rfl]
      exact iff_of_true (by simp) ⟨i, by rw [Function.update_self, hr]⟩
    · have hic : (reqs i).client ≠ some c := by
        rcases hi with hi | hi
        · exact fun he => nomatch hi.symm.trans he
        · exact fun he => hc (Option.some.inj (hi.symm.trans he))
      have hrc : r.client ≠ some c := fun he => hc (Option.some.inj (hr.symm.trans he))
      rw [if_neg hc, h.held]
      refine exists_congr fun j => ?_
      by_cases hj : j = i
      · subst hj
        rw [Function.update_self]
        exact iff_of_false hic hrc
      · rw [Function.update_of_ne hj]
  · rw [request_opened hrel]
    by_cases hj : j = i
    · subst hj
      rw [Function.update_self] at hc ⊢
      obtain rfl : e.client = c := Option.some.inj (hr.symm.trans hc)
      rw [if_pos rfl]
      exact ht
    · rw [Function.update_of_ne hj] at hc ⊢
      have hne : e.client ≠ c := fun he => hother j hj (he ▸ hc)
      rw [if_neg hne]
      exact h.tracks j c hc

/-- `route_handler` runs one slot. -/
theorem routeHandler_slot {s : Server ι n δ} (hrel : ¬ IsRelease e) {i : Fin n}
    (hreq : reqFor s.reqs e.client = some (i, r)) :
    routeHandler api s e =
      (⟨Function.update s.reqs i (slotStep api e r s.device).1, (slotStep api e r s.device).2.1⟩,
        (slotStep api e r s.device).2.2) := by
  have hr : ¬ (e.status = .aborted ∨ e.status = .complete) := hrel
  rw [routeHandler, if_neg hr, hreq, slotStep]
  dsimp only
  by_cases hs : r.streaming = true
  · rw [if_pos hs, if_pos hs]
  · rw [if_neg hs, if_neg hs]
    by_cases hf : e.status ≠ .dataFinal
    · rw [if_pos hf, if_pos hf]
    · rw [if_neg hf, if_neg hf]

/-- One callback keeps the slots sound, and does what its request demands. -/
theorem Sound.callback {s : Server ι n δ} (h : Sound api log s.reqs)
    (he : Allowed n log e) :
    Sound api (log ++ [(e, s.device, (routeHandler api s e).2)]) (routeHandler api s e).1.reqs ∧
      Isolated api (request e.client log) e s.device
        ((routeHandler api s e).1.device, (routeHandler api s e).2) := by
  by_cases hrel : IsRelease e
  · have hr : e.status = .aborted ∨ e.status = .complete := hrel
    rw [routeHandler, if_pos hr]
    refine ⟨h.release hrel _ _, ?_⟩
    exact
      { memory := fun hm => nomatch hm
        released := fun _ => rfl
        more := fun _ _ => rfl
        answered := fun _ hfinal => by
          rcases hr with hr | hr <;> exact nomatch hr.symm.trans hfinal
        continued := fun _ hnot => absurd hrel hnot }
  · obtain ⟨i, r, hreq, hclient, ht, hi, hother⟩ := h.reqFor (he.clients hrel)
    have hstep : (slotStep api e r s.device).1.client = r.client ∧
        Tracks api (request e.client log ++ [(e, s.device, (slotStep api e r s.device).2.2)])
          (slotStep api e r s.device).1 ∧
        Isolated api (request e.client log) e s.device (slotStep api e r s.device).2 := by
      rcases he.order with hr | hc | ⟨hr, hheaders⟩
      · exact absurd hr hrel
      · exact slotStep_continuing ht hrel hc s.device
      · exact slotStep_reading ht hrel hr hheaders s.device
    obtain ⟨hclient', ht', hisolated⟩ := hstep
    rw [routeHandler_slot hrel hreq]
    exact ⟨h.update hrel (hclient'.trans hclient) ht' hi hother, hisolated⟩

theorem Served.sound {s : Server ι n δ} (h : Served api log s) :
    Sound api log s.reqs := by
  induction h with
  | boot d => exact sound_boot _
  | device before d ih => exact ih
  | callback before allowed ih => exact (ih.callback allowed).1

omit [DecidableEq ι] in
/-- What a callback does is a function of its own request and of the device. -/
theorem Isolated.unique {before before' : List (Entry ι δ)} {d : δ} {result result' : δ × Outcome}
    (h : Isolated api before e d result) (h' : Isolated api before' e d result')
    (hsame : before'.map Prod.fst = before.map Prod.fst) (hr : Reading before) :
    result' = result := by
  have hr' : Reading before' := by
    intro x hx
    obtain ⟨y, hy, he⟩ := List.mem_map.mp (hsame ▸ List.mem_map_of_mem hx)
    rw [← he]
    exact hr y hy
  cases hst : e.status with
  | aborted => rw [h.released (Or.inl hst), h'.released (Or.inl hst)]
  | dataMore => rw [h.more hr hst, h'.more hr' hst]
  | dataFinal => rw [h.answered hr hst, h'.answered hr' hst, hsame]
  | complete => rw [h.released (Or.inr hst), h'.released (Or.inr hst)]

end ZephyrApps.HttpIsolation
