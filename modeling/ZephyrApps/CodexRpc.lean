import ZephyrApps.CodexHid
import ZephyrApps.CodexJson

/-!
# Requests and their answers

`codex_rpc.c`: the one request that is kept for the work queue, and what is sent for it.
`%s` copies what a text holds; a buffer of `snprintf` keeps one character less than its
size.
-/
namespace ZephyrApps.CodexRpc
open CStrings JsonTexts CodexJson CodexHid

/-- `ID_MAX` -/
def idMax : ℕ := 24
/-- `FIRMWARE_VERSION` -/
def firmwareVersion : Text := text "0.1.0-qtpy"
/-- `BATTERY_PERCENT` -/
def batteryPercent : ℕ := 100

/-- What `snprintf` leaves in a buffer, and what it returns. -/
def snprintf (size : ℕ) (s : Text) : Text × ℕ := (s.take (size - 1), s.length)

/-- `send_result`; the list is of what `codex_hid_send` is given. -/
def sendResult (id result : Text) : List Text :=
  let (response, ret) :=
    snprintf 256 (text "\x7b\"id\":" ++ id ++ text ",\"result\":" ++ result ++ text "\x7d")
  if 256 ≤ ret then [] else [response]

/-- The result of `sys.version`. -/
def versionResult : Text := text "\x7b\"version\":\"" ++ firmwareVersion ++ text "\"\x7d"

/-- The result of `device.status`, before its buffer. -/
def statusResult : Text :=
  text "\x7b\"version\":\"" ++ firmwareVersion ++ text "\",\"profile_index\":0," ++
    text "\"layer_index\":1,\"battery\":" ++ dec batteryPercent ++ text ",\"is_charging\":false\x7d"

def okResult : Text := text "\x7b\"ok\":true\x7d"

def notFound : Text := text "\x7b\"code\":-32601,\"message\":\"Method not found\"\x7d"

/-- `id` as it is echoed. -/
def requestId (json : Text) : Text :=
  match codexJsonMember json (text "id") with
  | none => text "null"
  | some (rawId, idLen) => if idLen < idMax then rawId.take idLen else text "null"

/-- `handle_request` -/
def handleRequest (json : Text) : List Text :=
  match codexJsonMember json (text "method") with
  | none => []
  | some (method, len) =>
    let id := requestId json
    if codexJsonStrEq method len (text "sys.version") then sendResult id versionResult
    else if codexJsonStrEq method len (text "device.status") then
      sendResult id (snprintf 128 statusResult).1
    else if codexJsonStrEq method len (text "v.oai.thstatus") ||
        codexJsonStrEq method len (text "v.oai.rgbcfg") ||
        codexJsonStrEq method len (text "lights.preview") ||
        codexJsonStrEq method len (text "host.focused_app") then
      sendResult id okResult
    else
      [(snprintf 128 (text "\x7b\"id\":" ++ id ++ text ",\"error\":" ++ notFound ++ text "\x7d")).1]

def answerObject (id name value : Text) : JsonObject where
  lead := []
  blank := []
  members := [⟨[], text "id", [], [], id, []⟩, ⟨[], name, [], [], value, []⟩]
  trail := []

def knownMethods : List (Text × Text) :=
  [(text "sys.version", versionResult), (text "device.status", statusResult),
    (text "v.oai.thstatus", okResult), (text "v.oai.rgbcfg", okResult),
    (text "lights.preview", okResult), (text "host.focused_app", okResult)]

def echoedId (o : JsonObject) : Text :=
  match firstMember o (text "id") with
  | none => text "null"
  | some m => if m.value.length ≤ 23 then m.value else text "null"

def answerTo (o : JsonObject) (method : Text) : JsonObject :=
  match knownMethods.find? fun known => method = quoted known.1 with
  | some known => answerObject (echoedId o) (text "result") known.2
  | none => answerObject (echoedId o) (text "error") notFound

variable {o : JsonObject}

theorem value_null : Value (text "null") := .scalar (Or.inr (Or.inr (Or.inl rfl)))

theorem echoedId_value (h : o.Legal) : Value (echoedId o) ∧ (echoedId o).length ≤ 23 := by
  unfold echoedId
  cases hm : firstMember o (text "id") with
  | none => exact ⟨value_null, by decide⟩
  | some m =>
    dsimp only
    split
    case isTrue hlen => exact ⟨(codexJsonMember_some h hm).1, hlen⟩
    case isFalse => exact ⟨value_null, by decide⟩

theorem requestId_eq (h : o.Legal) : requestId o.text = echoedId o := by
  unfold requestId echoedId
  cases hm : firstMember o (text "id") with
  | none => rw [codexJsonMember_none h hm]
  | some m =>
    obtain ⟨-, rest, hfound⟩ := codexJsonMember_some h hm
    rw [hfound]
    dsimp only
    rw [List.take_left]
    exact if_congr Nat.lt_succ_iff rfl rfl

theorem answerObject_text (id name value : Text) :
    (answerObject id name value).text =
      text "\x7b\"id\":" ++ id ++ (text ",\"" ++ name ++ text "\":") ++ value ++ text "\x7d" := by
  have h1 : text "\x7b\"id\":" = beginObject :: (quoted (text "id") ++ [nameSeparator]) := rfl
  have h2 : text ",\"" = [valueSeparator, quote] := rfl
  have h3 : text "\":" = [quote, nameSeparator] := rfl
  have h4 : text "\x7d" = [endObject] := rfl
  simp [h1, h2, h3, h4, answerObject, JsonObject.text, objectText, separated, Member.text, quoted]

def tight (name value : Text) : Member := ⟨[], name, [], [], value, []⟩

theorem tight_spaced {name : Text} (h : Chars name) (value : Text) : (tight name value).Spaced := by
  have hnil : Whitespace [] := by decide
  exact ⟨hnil, h, hnil, hnil, hnil⟩

theorem value_tight {ms : List (Text × Text)} (h : ∀ m ∈ ms, Chars m.1 ∧ Value m.2) :
    Value (objectText [] (ms.map fun m => tight m.1 m.2)) := by
  refine .object (by decide) (fun m hm => ?_) fun m hm => ?_
  · obtain ⟨x, hx, rfl⟩ := List.mem_map.mp hm
    exact tight_spaced (h x hx).1 x.2
  · obtain ⟨x, hx, rfl⟩ := List.mem_map.mp hm
    exact (h x hx).2

theorem value_version : Value versionResult := by
  have hname : Chars (text "version") := chars_of_unescaped (by decide)
  have hversion : Chars firmwareVersion := chars_of_unescaped (by decide)
  have htext : versionResult = objectText []
      ([(text "version", quoted firmwareVersion)].map fun m => tight m.1 m.2) := rfl
  rw [htext]
  apply value_tight
  intro m hm
  rw [List.mem_singleton.mp hm]
  exact ⟨hname, .string hversion⟩

theorem value_status : Value statusResult := by
  have htext : statusResult = objectText []
      ([(text "version", quoted firmwareVersion), (text "profile_index", text "0"),
        (text "layer_index", text "1"), (text "battery", text "100"),
        (text "is_charging", text "false")].map fun m => tight m.1 m.2) := by decide
  have hdigits : IntPart (text "100") := Or.inr ⟨⟨by decide, by decide⟩, by decide⟩
  have hone : IntPart (text "1") := Or.inr ⟨⟨by decide, by decide⟩, by decide⟩
  rw [htext]
  apply value_tight
  simp only [List.forall_mem_cons]
  refine ⟨⟨?_, .string ?_⟩, ⟨?_, value_int (Or.inl rfl)⟩, ⟨?_, value_int hone⟩,
    ⟨?_, value_int hdigits⟩, ⟨?_, .scalar (Or.inr (Or.inl rfl))⟩, by simp⟩ <;>
    exact chars_of_unescaped (by decide)

theorem value_ok : Value okResult := by
  have htext : okResult = objectText [] ([(text "ok", text "true")].map fun m => tight m.1 m.2) :=
    rfl
  rw [htext]
  apply value_tight
  intro m hm
  rw [List.mem_singleton.mp hm]
  exact ⟨chars_of_unescaped (by decide), .scalar (Or.inl rfl)⟩

theorem value_notFound : Value notFound := by
  have htext : notFound = objectText [] ([(text "code", text "-32601"),
      (text "message", quoted (text "Method not found"))].map fun m => tight m.1 m.2) := rfl
  have hcode : Number (text "-32601") := ⟨text "-", text "32601", [], [], Or.inr rfl,
    Or.inr ⟨⟨by decide, by decide⟩, by decide⟩, Or.inl rfl, Or.inl rfl, rfl⟩
  rw [htext]
  apply value_tight
  simp only [List.forall_mem_cons]
  refine ⟨⟨?_, .scalar (Or.inr (Or.inr (Or.inr hcode)))⟩, ⟨?_, .string ?_⟩, by simp⟩ <;>
    exact chars_of_unescaped (by decide)

theorem answerObject_legal {id name value : Text} (hid : Value id) (hname : Chars name)
    (hvalue : Value value) : (answerObject id name value).Legal := by
  have hnil : Whitespace [] := by decide
  have hidName : Chars (text "id") := chars_of_unescaped (by decide)
  refine ⟨hnil, hnil, fun m hm => ?_, fun m hm => ?_, hnil⟩
  · rcases List.mem_pair.mp hm with rfl | rfl
    · exact tight_spaced hidName id
    · exact tight_spaced hname value
  · rcases List.mem_pair.mp hm with rfl | rfl
    · exact hid
    · exact hvalue

/-- What the known methods answer is well formed and short. -/
theorem knownMethods_value {known : Text × Text} (h : known ∈ knownMethods) :
    Value known.2 ∧ known.2.length ≤ 92 := by
  have hlen : ∀ known ∈ knownMethods, known.2.length ≤ 92 := by decide
  refine ⟨?_, hlen known h⟩
  simp only [knownMethods, List.mem_cons, List.not_mem_nil, or_false] at h
  rcases h with rfl | rfl | rfl | rfl | rfl | rfl
  · exact value_version
  · exact value_status
  all_goals exact value_ok

theorem answerTo_legal (h : o.Legal) (method : Text) : (answerTo o method).Legal := by
  obtain ⟨hid, -⟩ := echoedId_value h
  unfold answerTo
  split
  next known hknown =>
    have hvalue := (knownMethods_value (List.mem_of_find?_eq_some hknown)).1
    exact answerObject_legal hid (chars_of_unescaped (by decide)) hvalue
  next => exact answerObject_legal hid (chars_of_unescaped (by decide)) value_notFound

theorem sendResult_whole {id result : Text} (hid : id.length ≤ 23) (hresult : result.length ≤ 92) :
    sendResult id result = [(answerObject id (text "result") result).text] := by
  have htext : text "\x7b\"id\":" ++ id ++ text ",\"result\":" ++ result ++ text "\x7d" =
      (answerObject id (text "result") result).text := by
    rw [answerObject_text]
    rfl
  have h1 : (text "\x7b\"id\":").length = 6 := rfl
  have h2 : (text ",\"result\":").length = 10 := rfl
  have h3 : (text "\x7d").length = 1 := rfl
  have hlen : (answerObject id (text "result") result).text.length ≤ 132 := by
    rw [← htext]
    simp only [List.length_append, h1, h2, h3]
    omega
  rw [sendResult, htext, snprintf]
  dsimp only
  rw [if_neg (by omega), List.take_of_length_le (by omega)]

theorem notFound_whole {id : Text} (hid : id.length ≤ 23) :
    (snprintf 128 (text "\x7b\"id\":" ++ id ++ text ",\"error\":" ++ notFound ++ text "\x7d")).1 =
      (answerObject id (text "error") notFound).text := by
  have h1 : (text "\x7b\"id\":").length = 6 := rfl
  have h2 : (text ",\"error\":").length = 9 := rfl
  have h3 : notFound.length = 44 := rfl
  have h4 : (text "\x7d").length = 1 := rfl
  rw [snprintf]
  dsimp only
  rw [List.take_of_length_le, answerObject_text]
  · rfl
  · simp only [List.length_append, h1, h2, h3, h4]
    omega

/-- The comparisons of the method, one after the other, find it among the known ones. -/
theorem methods_find {v : Text} (hv : Value v) (rest id : Text) (other : List Text) :
    (if codexJsonStrEq (v ++ rest) v.length (text "sys.version") then sendResult id versionResult
      else if codexJsonStrEq (v ++ rest) v.length (text "device.status") then
        sendResult id (snprintf 128 statusResult).1
      else if codexJsonStrEq (v ++ rest) v.length (text "v.oai.thstatus") ||
          codexJsonStrEq (v ++ rest) v.length (text "v.oai.rgbcfg") ||
          codexJsonStrEq (v ++ rest) v.length (text "lights.preview") ||
          codexJsonStrEq (v ++ rest) v.length (text "host.focused_app") then
        sendResult id okResult
      else other) =
      match knownMethods.find? fun known => v = quoted known.1 with
      | some known => sendResult id known.2
      | none => other := by
  have hstatus : (snprintf 128 statusResult).1 = statusResult := by decide
  simp only [codexJsonStrEq_value hv, Bool.or_eq_true, decide_eq_true_eq, hstatus, knownMethods,
    List.find?_cons, List.find?_nil]
  by_cases h1 : v = quoted (text "sys.version")
  · rw [if_pos h1, decide_eq_true h1]
  rw [if_neg h1, decide_eq_false h1]
  by_cases h2 : v = quoted (text "device.status")
  · rw [if_pos h2, decide_eq_true h2]
  rw [if_neg h2, decide_eq_false h2]
  by_cases h3 : v = quoted (text "v.oai.thstatus")
  · rw [if_pos (Or.inl (Or.inl (Or.inl h3))), decide_eq_true h3]
  by_cases h4 : v = quoted (text "v.oai.rgbcfg")
  · rw [if_pos (Or.inl (Or.inl (Or.inr h4))), decide_eq_false h3, decide_eq_true h4]
  by_cases h5 : v = quoted (text "lights.preview")
  · rw [if_pos (Or.inl (Or.inr h5)), decide_eq_false h3, decide_eq_false h4, decide_eq_true h5]
  by_cases h6 : v = quoted (text "host.focused_app")
  · rw [if_pos (Or.inr h6), decide_eq_false h3, decide_eq_false h4, decide_eq_false h5,
      decide_eq_true h6]
  rw [if_neg (by simp only [h3, h4, h5, h6, or_self, not_false_eq_true]), decide_eq_false h3,
    decide_eq_false h4, decide_eq_false h5, decide_eq_false h6]

theorem handleRequest_method (h : o.Legal) {m : Member}
    (hm : firstMember o (text "method") = some m) :
    handleRequest o.text = [(answerTo o m.value).text] := by
  obtain ⟨-, hid⟩ := echoedId_value h
  obtain ⟨hv, rest, hfound⟩ := codexJsonMember_some h hm
  rw [handleRequest, hfound, requestId_eq h]
  dsimp only
  rw [methods_find hv, answerTo]
  cases hk : knownMethods.find? fun known => m.value = quoted known.1 with
  | none => rw [← notFound_whole hid]
  | some known =>
    have hshort := (knownMethods_value (List.mem_of_find?_eq_some hk)).2
    exact sendResult_whole hid hshort

theorem handleRequest_none (h : o.Legal) (hm : firstMember o (text "method") = none) :
    handleRequest o.text = [] := by
  rw [handleRequest, codexJsonMember_none h hm]

/-- `pending`, whether `pending_work` is submitted, and what `codex_hid_send` was given. -/
structure Rpc where
  pending : Text
  queued : Bool
  sent : List Text

def Rpc.init : Rpc := ⟨[], false, []⟩

/-- `codex_rpc_handle`, with `strncpy` and `k_work_submit`. -/
def codexRpcHandle (r : Rpc) (json : Text) : Rpc :=
  if r.pending ≠ [] then r
  else { r with pending := json.take (codexJsonMax - 1), queued := true }

/-- The work queue calls `pending_work_handler` if the work is submitted. -/
def workQueueRun (r : Rpc) : Rpc :=
  if r.queued then ⟨[], false, r.sent ++ handleRequest r.pending⟩ else r

inductive Event where
  | handle (json : Text)
  | run

def Rpc.step (r : Rpc) : Event → Rpc
  | .handle json => codexRpcHandle r json
  | .run => workQueueRun r

def after (es : List Event) : Rpc := es.foldl Rpc.step Rpc.init

/-- The request was accepted, and the work queue has not run since. -/
def Waiting (es : List Event) (json : Text) : Prop :=
  ∃ past since, es = past ++ .handle json :: since ∧ (after past).pending = [] ∧ .run ∉ since

variable {es : List Event} {json : Text}

theorem after_concat (es : List Event) (e : Event) : after (es ++ [e]) = (after es).step e := by
  rw [after, List.foldl_append]
  rfl

theorem Waiting.concat (h : Waiting es json) (json' : Text) :
    Waiting (es ++ [.handle json']) json := by
  obtain ⟨past, since, rfl, hfree, hrun⟩ := h
  exact ⟨past, since ++ [.handle json'], by simp, hfree, by simp [hrun]⟩

theorem waiting_accepted (h : (after es).pending = []) (json : Text) :
    Waiting (es ++ [.handle json]) json := ⟨es, [], rfl, h, by simp⟩

/-- What is submitted waits, and a request that is pending is submitted. -/
theorem queued_waiting (es : List Event) :
    ((after es).pending ≠ [] → (after es).queued = true) ∧
      ((after es).queued = true → ∃ json, Waiting es json) := by
  induction es using List.reverseRecOn with
  | nil => exact ⟨fun h => absurd rfl h, fun h => by cases h⟩
  | append_singleton es e ih =>
    obtain ⟨hpending, hqueued⟩ := ih
    rw [after_concat]
    cases e with
    | handle json =>
      by_cases hfree : (after es).pending = []
      · have hstep : (after es).step (.handle json) =
            { after es with pending := json.take (codexJsonMax - 1), queued := true } :=
          if_neg (not_not_intro hfree)
        rw [hstep]
        exact ⟨fun _ => rfl, fun _ => ⟨json, waiting_accepted hfree json⟩⟩
      · have hstep : (after es).step (.handle json) = after es := if_pos hfree
        rw [hstep]
        refine ⟨hpending, fun h => ?_⟩
        obtain ⟨earlier, he⟩ := hqueued h
        exact ⟨earlier, he.concat json⟩
    | run =>
      by_cases hq : (after es).queued = true
      · have hstep : (after es).step .run =
            ⟨[], false, (after es).sent ++ handleRequest (after es).pending⟩ := if_pos hq
        rw [hstep]
        exact ⟨fun h => absurd rfl h, fun h => by cases h⟩
      · have hstep : (after es).step .run = after es := if_neg hq
        rw [hstep]
        exact ⟨fun h => absurd (hpending h) hq, fun h => absurd h hq⟩

/-- A request that waits is in the buffer, as far as it fits. -/
theorem Waiting.pending (h : Waiting es json) (hne : json ≠ []) :
    (after es).pending = json.take (codexJsonMax - 1) ∧ (after es).queued = true := by
  obtain ⟨past, since, rfl, hfree, hrun⟩ := h
  have hkept : json.take (codexJsonMax - 1) ≠ [] := by
    rw [Ne, List.take_eq_nil_iff]
    exact not_or.mpr ⟨by decide, hne⟩
  induction since using List.reverseRecOn with
  | nil =>
    rw [after_concat, Rpc.step, codexRpcHandle, if_neg (not_not_intro hfree)]
    exact ⟨rfl, rfl⟩
  | append_singleton since e ih =>
    obtain ⟨hpending, hqueued⟩ := ih fun hmem => hrun (by simp [hmem])
    rw [← List.cons_append, ← List.append_assoc, after_concat]
    cases e with
    | handle json' =>
      rw [Rpc.step, codexRpcHandle, if_pos (hpending.trans_ne hkept)]
      exact ⟨hpending, hqueued⟩
    | run => exact absurd (by simp) hrun

/-- After any calls and runs: a request is accepted, or dropped while an earlier one waits,
and a call sends nothing. The next run sends one whole answer for a request with a method
that waits, none for one without, and nothing if none waits. -/
theorem one_answer (es : List Event) :
    (∀ json, (after (es ++ [.handle json])).sent = (after es).sent ∧
      if (after es).pending = [] then Waiting (es ++ [.handle json]) json
      else after (es ++ [.handle json]) = after es ∧ ∃ earlier, Waiting es earlier) ∧
    (∀ o : JsonObject, o.Legal → o.text.length < codexJsonMax → Waiting es o.text →
      (∀ m, firstMember o (text "method") = some m →
        (after (es ++ [.run])).sent = (after es).sent ++ [(answerTo o m.value).text] ∧
          (answerTo o m.value).Legal) ∧
      (firstMember o (text "method") = none →
        (after (es ++ [.run])).sent = (after es).sent)) ∧
    ((¬ ∃ json, Waiting es json) → (after (es ++ [.run])).sent = (after es).sent) := by
  obtain ⟨hpending, hqueued⟩ := queued_waiting es
  refine ⟨fun json => ?_, fun o ho hlen hw => ?_, fun hnone => ?_⟩
  · by_cases hfree : (after es).pending = []
    · rw [if_pos hfree]
      refine ⟨?_, waiting_accepted hfree json⟩
      rw [after_concat, Rpc.step, codexRpcHandle, if_neg (not_not_intro hfree)]
    · have hstep : after (es ++ [.handle json]) = after es :=
        (after_concat es _).trans (if_pos hfree)
      rw [if_neg hfree]
      exact ⟨congrArg Rpc.sent hstep, hstep, hqueued (hpending hfree)⟩
  · have hne : o.text ≠ [] := by simp [JsonObject.text, objectText]
    obtain ⟨hkept, hq⟩ := hw.pending hne
    have hwhole : o.text.take (codexJsonMax - 1) = o.text :=
      List.take_of_length_le (Nat.le_sub_one_of_lt hlen)
    have hsent : (after (es ++ [.run])).sent = (after es).sent ++ handleRequest o.text := by
      rw [after_concat, Rpc.step, workQueueRun, if_pos hq, hkept, hwhole]
    constructor
    · intro m hm
      rw [hsent, handleRequest_method ho hm]
      exact ⟨rfl, answerTo_legal ho m.value⟩
    · intro hm
      rw [hsent, handleRequest_none ho hm, List.append_nil]
  · have hq : ¬ (after es).queued = true := fun h => hnone (hqueued h)
    rw [after_concat, Rpc.step, workQueueRun, if_neg hq]

def versionRequest : JsonObject where
  lead := []
  blank := []
  members := [tight (text "method") (quoted (text "sys.version")), tight (text "id") (text "7")]
  trail := []

theorem versionRequest_legal : versionRequest.Legal := by
  have hnil : Whitespace [] := by decide
  have hmethod : Chars (text "sys.version") := chars_of_unescaped (by decide)
  have hseven : Value (text "7") := value_int (Or.inr ⟨⟨by decide, by decide⟩, by decide⟩)
  refine ⟨hnil, hnil, fun m hm => ?_, fun m hm => ?_, hnil⟩
  · rcases List.mem_pair.mp hm with rfl | rfl <;>
      exact tight_spaced (chars_of_unescaped (by decide)) _
  · rcases List.mem_pair.mp hm with rfl | rfl
    · exact .string hmethod
    · exact hseven

theorem one_answer_version :
    (after [.handle versionRequest.text, .handle (text "\x7b\x7d"), .run]).sent =
      [text "\x7b\"id\":7,\"result\":\x7b\"version\":\"0.1.0-qtpy\"\x7d\x7d"] := by
  have hw : Waiting [.handle versionRequest.text, .handle (text "\x7b\x7d")] versionRequest.text :=
    ⟨[], [.handle (text "\x7b\x7d")], rfl, rfl, by simp⟩
  have hsent := (((one_answer _).2.1 versionRequest versionRequest_legal (by decide) hw).1 _ rfl).1
  exact hsent.trans (by decide)

/-- The work queue's thread as well: the handler answers first, and clears afterwards. -/
structure Threads extends Rpc where
  answering : Bool

inductive ThreadEvent where
  | handle (json : Text)
  | answer
  | clear

def Threads.step (t : Threads) : ThreadEvent → Threads
  | .handle json => { t with toRpc := codexRpcHandle t.toRpc json }
  | .answer =>
    if t.queued = true ∧ t.answering = false then
      ⟨⟨t.pending, false, t.sent ++ handleRequest t.pending⟩, true⟩
    else t
  | .clear => if t.answering then ⟨{ t.toRpc with pending := [] }, false⟩ else t

/-- What the thread's state is when its answer counts as a whole run. -/
def Threads.settled (t : Threads) : Rpc := if t.answering then ⟨[], false, t.sent⟩ else t.toRpc

def Threads.event (t : Threads) : ThreadEvent → List Event
  | .handle json => if t.answering then [] else [.handle json]
  | .answer => if t.queued = true ∧ t.answering = false then [.run] else []
  | .clear => []

def coarse (t : Threads) : List ThreadEvent → List Event
  | [] => []
  | e :: es => t.event e ++ coarse (t.step e) es

/-- No call has an empty text; what is put together from reports is an object. -/
def ThreadEvent.Request : ThreadEvent → Prop
  | .handle json => json ≠ []
  | _ => True

/-- What is answered is pending and nothing is submitted; what is submitted is pending. -/
structure Threads.Sound (t : Threads) : Prop where
  busy : t.answering = true → t.pending ≠ [] ∧ t.queued = false
  full : t.queued = true → t.pending ≠ []

variable {t : Threads} {e : ThreadEvent}

theorem Threads.Sound.step (h : t.Sound) (he : e.Request) : (t.step e).Sound := by
  cases e with
  | handle json =>
    by_cases hfree : t.pending = []
    · have hidle : ¬ t.answering = true := fun ha => (h.busy ha).1 hfree
      have hkept : json.take (codexJsonMax - 1) ≠ [] := by
        rw [Ne, List.take_eq_nil_iff]
        exact not_or.mpr ⟨by decide, he⟩
      simp only [Threads.step, codexRpcHandle, if_neg (not_not_intro hfree)]
      exact ⟨fun ha => absurd ha hidle, fun _ => hkept⟩
    · simp only [Threads.step, codexRpcHandle, if_pos hfree]
      exact h
  | answer =>
    by_cases hq : t.queued = true ∧ t.answering = false
    · simp only [Threads.step, if_pos hq]
      exact ⟨fun _ => ⟨h.full hq.1, rfl⟩, fun hf => absurd hf Bool.false_ne_true⟩
    · simp only [Threads.step, if_neg hq]
      exact h
  | clear =>
    by_cases ha : t.answering = true
    · simp only [Threads.step, if_pos ha]
      refine ⟨fun hf => absurd hf Bool.false_ne_true, fun hq => ?_⟩
      rw [(h.busy ha).2] at hq
      cases hq
    · simp only [Threads.step, if_neg ha]
      exact h

theorem settled_step (h : t.Sound) (e : ThreadEvent) :
    (t.step e).settled = (t.event e).foldl Rpc.step t.settled := by
  cases e with
  | handle json =>
    cases ha : t.answering with
    | true =>
      obtain ⟨hpending, -⟩ := h.busy ha
      simp [Threads.step, Threads.settled, Threads.event, ha, codexRpcHandle, hpending]
    | false => simp [Threads.step, Threads.settled, Threads.event, ha, Rpc.step]
  | answer =>
    by_cases hq : t.queued = true ∧ t.answering = false
    · simp [Threads.step, Threads.settled, Threads.event, hq, Rpc.step, workQueueRun]
    · simp [Threads.step, Threads.settled, Threads.event, if_neg hq]
  | clear =>
    cases ha : t.answering with
    | true =>
      obtain ⟨-, hqueued⟩ := h.busy ha
      simp [Threads.step, Threads.settled, Threads.event, ha, hqueued]
    | false => simp [Threads.step, Threads.settled, Threads.event, ha]

theorem settled_run (es : List ThreadEvent) (h : t.Sound) (he : ∀ e ∈ es, e.Request) :
    (es.foldl Threads.step t).settled = (coarse t es).foldl Rpc.step t.settled := by
  induction es generalizing t with
  | nil => rfl
  | cons e es ih =>
    have hnext := h.step (he e (by simp))
    rw [List.foldl_cons, coarse, List.foldl_append, ← settled_step h e]
    exact ih hnext fun x hx => he x (by simp [hx])

/-- Calls and the two steps of the handler, in any order, send what calls and whole runs
send. -/
theorem threads_sent (es : List ThreadEvent) (he : ∀ e ∈ es, e.Request) :
    (es.foldl Threads.step ⟨Rpc.init, false⟩).sent =
      (after (coarse ⟨Rpc.init, false⟩ es)).sent := by
  have hstart : (⟨Rpc.init, false⟩ : Threads).Sound :=
    ⟨fun h => absurd h Bool.false_ne_true, fun h => absurd h Bool.false_ne_true⟩
  have hsettled (t : Threads) : t.settled.sent = t.sent := by
    unfold Threads.settled
    split <;> rfl
  rw [← hsettled, settled_run es hstart he]
  rfl

end ZephyrApps.CodexRpc
