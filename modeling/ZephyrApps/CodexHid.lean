import ZephyrApps.JsonTexts

/-!
# Messages over HID reports

`codex_hid.c`: output reports with a fragment each, which are put together until the braces
balance, and the fragments in which a message is sent.
-/
namespace ZephyrApps.CodexHid
open CStrings JsonTexts

/-- `REPORT_ID` -/
def reportId : UInt8 := 0x06
/-- `REPORT_BODY_LEN` -/
def reportBodyLen : ℕ := 63
/-- `PAYLOAD_MAX` -/
def payloadMax : ℕ := reportBodyLen - 2
/-- `MSG_TYPE_JSON` -/
def msgTypeJson : UInt8 := 2
/-- `CODEX_JSON_MAX` -/
def codexJsonMax : ℕ := 512
/-- `-EMSGSIZE` -/
def emsgsize : Int := -122

/-- The loop of `rx_object_complete`: what follows the brace at which it returns true. -/
def scanObject (depth : ℤ) (inString : Bool) : Text → Option Text
  | [] => none
  | c :: p =>
    if inString then
      if c = backslash then
        match p with
        | [] => none
        | _ :: q => scanObject depth true q
      else scanObject depth (c ≠ quote) p
    else if c = quote then scanObject depth true p
    else if c = beginObject then scanObject (depth + 1) false p
    else if c = endObject then
      if depth - 1 = 0 then some p else scanObject (depth - 1) false p
    else scanObject depth false p

/-- `rx_object_complete` -/
def rxObjectComplete (rx : Text) : Bool := (scanObject 0 false rx).isSome

/-- The prefix that makes `rx_append` start afresh. -/
def methodStart : Text := text "\x7b\"method\""

/-- `rx_append` from its check of the length on: the buffer, and what `codex_rpc_handle` is
called with. -/
def rxStore (rx payload : Text) : Text × Option Text :=
  if payload = [] then (rx, none)
  else if codexJsonMax ≤ rx.length + payload.length then ([], none)
  else if rxObjectComplete (rx ++ payload) then ([], some (cstr (rx ++ payload)))
  else (rx ++ payload, none)

/-- `rx_append` -/
def rxAppend (rx payload : Text) : Text × Option Text :=
  let rx := if rx ≠ [] ∧ methodStart <+: payload then [] else rx
  let payload := if rx = [] then payload.dropWhile (· ≠ beginObject) else payload
  rxStore rx payload

/-- `enum bt_hids_report_type` -/
inductive ReportType where
  | input
  | output
  | feature
  deriving DecidableEq

/-- `set_report` -/
def setReport (type : ReportType) (id : UInt8) (data : List UInt8) (rx : Text) :
    Text × Option Text :=
  if type ≠ .output ∨ id ≠ reportId then (rx, none)
  else
    let body := if 3 ≤ data.length ∧ data.head? = some reportId then 1 else 0
    if data.length < body + 2 ∨ data[body]? ≠ some msgTypeJson then (rx, none)
    else
      let payloadLen := min (data.getD (body + 1) 0).toNat payloadMax
      if data.length < body + 2 + payloadLen then (rx, none)
      else rxAppend rx ((data.drop (body + 2)).take payloadLen)

/-- The buffer after output reports with the report's id, and the calls of
`codex_rpc_handle`. -/
def receive (rx : Text) : List (List UInt8) → Text × List Text
  | [] => (rx, [])
  | data :: frames =>
    let r := setReport .output reportId data rx
    let s := receive r.1 frames
    (s.1, r.2.toList ++ s.2)

def reportOf (chunk : Text) : List UInt8 :=
  msgTypeJson :: chunk.length.toUInt8 :: (chunk ++ List.replicate (payloadMax - chunk.length) 0)

/-- The loop of `codex_hid_send` over what is left of `framed`: the reports it hands over,
and `ret`. `answers` is what `bt_hids_send_report` returns, report by report. -/
def sendLoop (answers : ℕ → Int) (sent : ℕ) (rest : Text) : List (List UInt8) × Int :=
  if rest = [] then ([], 0)
  else if answers sent ≠ 0 then ([reportOf (rest.take payloadMax)], answers sent)
  else
    let s := sendLoop answers (sent + 1) (rest.drop payloadMax)
    (reportOf (rest.take payloadMax) :: s.1, s.2)
termination_by rest.length
decreasing_by
  have hpos : 0 < rest.length := List.length_pos_of_ne_nil ‹_›
  rw [List.length_drop]
  exact Nat.sub_lt hpos (by decide)

/-- `codex_hid_send` -/
def codexHidSend (json : Text) (answers : ℕ → Int) : List (List UInt8) × Int :=
  let framed := json ++ text "\n"
  if codexJsonMax ≤ framed.length then ([], emsgsize) else sendLoop answers 0 framed

/-- A part of a message as a report: with or without the report's id in front, and with
whatever pads it. -/
structure Fragment where
  payload : Text
  withId : Bool
  padding : List UInt8
  nonempty : payload ≠ []
  short : payload.length ≤ payloadMax

def Fragment.bytes (f : Fragment) : List UInt8 :=
  (if f.withId then [reportId] else []) ++
    msgTypeJson :: f.payload.length.toUInt8 :: (f.payload ++ f.padding)

def carried (fs : List Fragment) : Text := fs.flatMap Fragment.payload

/-- A fragment's payload is what is appended. -/
theorem setReport_fragment (f : Fragment) (rx : Text) :
    setReport .output reportId f.bytes rx = rxAppend rx f.payload := by
  have hlen : f.payload.length.toUInt8.toNat = f.payload.length := by
    have hshort : f.payload.length ≤ 61 := f.short
    simp
    omega
  have hmin : min f.payload.length payloadMax = f.payload.length := Nat.min_eq_left f.short
  unfold setReport Fragment.bytes
  cases f.withId with
  | false =>
    have hhead : ¬ f.payload.length + f.padding.length + 1 + 1 < 2 := by omega
    have hwhole : ¬ f.payload.length + f.padding.length + 1 + 1 < 2 + f.payload.length := by omega
    simp [reportId, msgTypeJson, hlen, hmin, hhead, hwhole]
  | true =>
    have hhead : ¬ f.payload.length + f.padding.length + 1 + 1 + 1 < 3 := by omega
    have hwhole : ¬ f.payload.length + f.padding.length + 1 + 1 + 1 < 3 + f.payload.length := by
      omega
    simp [reportId, msgTypeJson, hlen, hmin, hhead, hwhole]

theorem receive_fragment (f : Fragment) (fs : List Fragment) (rx : Text) :
    let r := rxAppend rx f.payload
    receive rx ((f :: fs).map Fragment.bytes) =
      ((receive r.1 (fs.map Fragment.bytes)).1,
        r.2.toList ++ (receive r.1 (fs.map Fragment.bytes)).2) := by
  rw [List.map_cons, receive, setReport_fragment]

/-- The reports of a message that goes out whole are its fragments, padded to the length of
a report. -/
theorem sendLoop_fragments (answers : ℕ → Int) (h : ∀ n, answers n = 0) (sent : ℕ) (rest : Text) :
    ∃ fs : List Fragment, sendLoop answers sent rest = (fs.map Fragment.bytes, 0) ∧
      carried fs = rest := by
  fun_induction sendLoop answers sent rest with
  | case1 => exact ⟨[], rfl, rfl⟩
  | case2 sent rest hne hfail => exact absurd (h sent) hfail
  | case3 sent rest hne hok s ih =>
    obtain ⟨fs, hs, hcarried⟩ := ih
    have hchunk : rest.take payloadMax ≠ [] := by
      rw [Ne, List.take_eq_nil_iff]
      exact not_or.mpr ⟨by decide, hne⟩
    have hshort : (rest.take payloadMax).length ≤ payloadMax := List.length_take_le ..
    let f : Fragment := ⟨rest.take payloadMax, false,
      List.replicate (payloadMax - (rest.take payloadMax).length) 0, hchunk, hshort⟩
    refine ⟨f :: fs, ?_, ?_⟩
    · have hs' : s = (fs.map Fragment.bytes, 0) := hs
      rw [hs']
      rfl
    · rw [carried, List.flatMap_cons]
      change rest.take payloadMax ++ carried fs = rest
      rw [hcarried, List.take_append_drop]

theorem scanObject_escape (depth : ℤ) (c : UInt8) (q : Text) :
    scanObject depth true (backslash :: c :: q) = scanObject depth true q := by
  rw [scanObject, if_pos rfl, if_pos rfl]

theorem scanObject_char (depth : ℤ) {c : UInt8} (hc : c ≠ backslash) (p : Text) :
    scanObject depth true (c :: p) = scanObject depth (c ≠ quote) p := by
  conv_lhs => unfold scanObject
  rw [if_pos rfl, if_neg hc]

theorem scanObject_quote (depth : ℤ) (p : Text) :
    scanObject depth false (quote :: p) = scanObject depth true p := by
  conv_lhs => unfold scanObject
  rw [if_neg Bool.false_ne_true, if_pos rfl]

theorem scanObject_begin (depth : ℤ) (p : Text) :
    scanObject depth false (beginObject :: p) = scanObject (depth + 1) false p := by
  conv_lhs => unfold scanObject
  rw [if_neg Bool.false_ne_true, if_neg (by decide), if_pos rfl]

theorem scanObject_end (depth : ℤ) (p : Text) :
    scanObject depth false (endObject :: p) =
      if depth - 1 = 0 then some p else scanObject (depth - 1) false p := by
  conv_lhs => unfold scanObject
  rw [if_neg Bool.false_ne_true, if_neg (by decide), if_neg (by decide), if_pos rfl]

theorem scanObject_other (depth : ℤ) {c : UInt8} (hq : c ≠ quote) (hb : c ≠ beginObject)
    (he : c ≠ endObject) (p : Text) :
    scanObject depth false (c :: p) = scanObject depth false p := by
  conv_lhs => unfold scanObject
  rw [if_neg Bool.false_ne_true, if_neg hq, if_neg hb, if_neg he]

theorem scanObject_append {depth : ℤ} {inString : Bool} {s r : Text}
    (h : scanObject depth inString s = some r) (t : Text) :
    scanObject depth inString (s ++ t) = some (r ++ t) := by
  fun_induction scanObject depth inString s with
  | case1 | case2 => cases h
  | case3 depth c q ih =>
    rw [List.cons_append, List.cons_append, scanObject_escape]
    exact ih h
  | case4 depth c p hc ih =>
    rw [List.cons_append, scanObject_char depth hc]
    exact ih h
  | case5 depth inString p hs ih =>
    rw [Bool.not_eq_true] at hs
    rw [hs, List.cons_append, scanObject_quote]
    exact ih h
  | case6 depth inString p hs _ ih =>
    rw [Bool.not_eq_true] at hs
    rw [hs, List.cons_append, scanObject_begin]
    exact ih h
  | case7 depth inString p hs hd =>
    rw [Bool.not_eq_true] at hs
    cases h
    rw [hs, List.cons_append, scanObject_end, if_pos hd]
  | case8 depth inString p hs hd _ _ ih =>
    rw [Bool.not_eq_true] at hs
    rw [hs, List.cons_append, scanObject_end, if_neg hd]
    exact ih h
  | case9 depth inString c p hs hq hb he ih =>
    rw [Bool.not_eq_true] at hs
    rw [hs, List.cons_append, scanObject_other depth hq hb he]
    exact ih h

theorem scanObject_chars {s : Text} (h : Chars s) (depth : ℤ) (p : Text) :
    scanObject depth true (s ++ quote :: p) = scanObject depth false p := by
  induction h with
  | nil => exact scanObject_char depth (by decide) p
  | @unescaped c rest _ noQuote noEscape _ ih =>
    rw [List.cons_append, scanObject_char depth noEscape, decide_eq_true noQuote, ih]
  | escape _ _ ih =>
    rw [List.cons_append, List.cons_append, scanObject_escape, ih]
  | @unicode a b c d rest hex _ ih =>
    have hdigit {x : UInt8} (hx : x ∈ [a, b, c, d]) (q : Text) :
        scanObject depth true (x :: q) = scanObject depth true q := by
      obtain ⟨hq, -, hb⟩ := digit_plain (hex x hx)
      rw [scanObject_char depth hb, decide_eq_true hq]
    simp only [List.cons_append]
    rw [scanObject_escape, hdigit (by simp), hdigit (by simp), hdigit (by simp),
      hdigit (by simp), ih]

/-- Inside an object the scan passes over what stands between its braces. -/
theorem scanObject_closed :
    Closed fun s => ∀ depth : ℤ, 0 < depth → ∀ p,
      scanObject depth false (s ++ p) = scanObject depth false p where
  nil depth hd p := rfl
  append hs ht depth hd p := by rw [List.append_assoc, hs depth hd, ht depth hd]
  plain hc depth hd p := scanObject_other depth hc.quote hc.object.1 hc.object.2 p
  string hs depth hd p := by
    rw [quoted, List.cons_append, List.cons_append, scanObject_quote, List.append_assoc]
    exact scanObject_chars hs depth p
  array hs depth hd p := by
    rw [List.cons_append, scanObject_other depth (by decide) (by decide) (by decide),
      List.append_assoc, hs depth hd, List.singleton_append,
      scanObject_other depth (by decide) (by decide) (by decide)]
  object hs depth hd p := by
    have hne : ¬ depth + 1 - 1 = 0 := by omega
    rw [List.cons_append, scanObject_begin, List.append_assoc, hs _ (by omega),
      List.singleton_append, scanObject_end, if_neg hne, Int.add_sub_cancel]

theorem scanObject_object {blank : Text} {ms : List Member} (hb : Whitespace blank)
    (spaced : ∀ m ∈ ms, m.Spaced) (values : ∀ m ∈ ms, Value m.value) (p : Text) :
    scanObject 0 false (objectText blank ms ++ p) = some p := by
  have hinner := scanObject_closed.members hb spaced fun m hm =>
    scanObject_closed.value (values m hm)
  rw [objectText, List.cons_append, scanObject_begin, List.append_assoc, hinner _ (by decide),
    List.singleton_append, scanObject_end, if_pos (by decide)]

end ZephyrApps.CodexHid
