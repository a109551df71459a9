import ZephyrApps.CBuffers
import ZephyrApps.PrusaCfg

/-!
# The request of a viewer of the MJPEG stream

`read_head`, `auth_header` and `request_ok` of `stream.c`, over the bytes of `req`. An access
outside `req` or through a null pointer is `none`.
-/
namespace ZephyrApps.MjpegStream
open AppSettings CStrings HttpUtil PrusaCfg CBuffers

/-- `sizeof(req)` -/
def reqSize : ℕ := 768

/-- `-E2BIG` -/
def e2big : Int := -7

/-- `"\r\n"` -/
def crlf : Text := [13, 10]

/-- `"\r\n\r\n"` -/
def headEnd : Text := crlf ++ crlf

/-- `AUTH_PREFIX` -/
def authPrefix : Text := text "Authorization:"

/-- `read_head` with `len` bytes in `req`; its calls of `zsock_recv` give `chunks`, and then
nothing more or an error. -/
def readHeadFrom (req : List UInt8) (len : ℕ) : List (List UInt8) → Option (List UInt8 × Int)
  | [] => some (req, if len < reqSize - 1 then eio else e2big)
  | chunk :: chunks =>
    if len < reqSize - 1 then do
      let req ← writeAt req len chunk
      let len := len + chunk.length
      let req ← writeAt req len [0]
      match ← strstr req 0 headEnd with
      | some e => do
        let req ← writeAt req (e + 2) [0]
        some (req, 0)
      | none => readHeadFrom req len chunks
    else some (req, e2big)

/-- `read_head` -/
def readHead (req : List UInt8) (chunks : List (List UInt8)) : Option (List UInt8 × Int) :=
  readHeadFrom req 0 chunks

/-- `strncasecmp(s, w, strlen(w)) == 0` -/
def startsCase (w s : Text) : Bool := decide (w.map lower <+: s.map lower)

/-- The loop of `auth_header`: `req` after it, and what it returns, where `""` is `none`.
`fuel` bounds the lines. -/
def authLoop (req : List UInt8) : ℕ → Option ℕ → Option (List UInt8 × Option ℕ)
  | _, none => some (req, none)
  | 0, some _ => none
  | fuel + 1, some line => do
    let line := line + 2
    if startsCase authPrefix (← stringAt req line) then
      let v := line + authPrefix.length
      let endOfLine ← strstr req v crlf
      let v ← skip req v (ascii ' ')
      let req ← writeAt req (← endOfLine) [0]
      some (req, some v)
    else authLoop req fuel (← strstr req line crlf)

/-- The string at a pointer that `auth_header` returns. -/
def pointed (req : List UInt8) : Option ℕ → Option Text
  | none => some []
  | some v => stringAt req v

/-- `auth_header`: `req` after it, and the string that it returns. -/
def authHeader (req : List UInt8) : Option (List UInt8 × Text) := do
  let (req, v) ← authLoop req req.length (← strstr req 0 crlf)
  some (req, ← pointed req v)

/-- The errors that `request_ok` sends. -/
inductive Refusal where
  | notFound
  | forbidden
  | unauthorized
  deriving DecidableEq

/-- `request_ok` with the configured `password`: `req` after it, and the error if there is one. -/
def requestOk (base64Decode : ℕ → Text → Option (List UInt8)) (password : Text)
    (req : List UInt8) : Option (List UInt8 × Option Refusal) := do
  let head ← stringAt req 0
  if ¬ text "GET / " <+: head ∧ ¬ text "GET /stream " <+: head then some (req, some .notFound)
  else if password = [] then some (req, some .forbidden)
  else
    let (req, auth) ← authHeader req
    if httpBasicAuthOk base64Decode (some auth) (text "admin") password then some (req, none)
    else some (req, some .unauthorized)

/-- What the calls of `zsock_recv` with `room` bytes left may return of what arrives. -/
inductive Split : ℕ → List UInt8 → List (List UInt8) → Prop where
  | full (stream : List UInt8) : Split 0 stream []
  | closed (room : ℕ) : Split room [] []
  | piece {room : ℕ} {chunk stream : List UInt8} {chunks : List (List UInt8)} (hne : chunk ≠ [])
      (hroom : chunk.length ≤ room) (h : Split (room - chunk.length) stream chunks) :
      Split room (chunk ++ stream) (chunk :: chunks)

/-- `head` is what comes before the first empty line of `stream`, and with it fits into `req`. -/
structure Head (stream head : Text) : Prop where
  part : head <+: stream
  first : First headEnd stream head.length
  fits : head.length + headEnd.length ≤ reqSize - 1
  noNul : 0 ∉ head

def headerLines (head : Text) : List Text := (pieces crlf head).tail

/-- The value of the first of the lines whose name is `Authorization`. -/
def valueOf (lines : List Text) : Text :=
  match lines.find? (startsCase authPrefix) with
  | none => []
  | some line => (line.drop authPrefix.length).dropWhile (· = ascii ' ')

def decision (base64Decode : ℕ → Text → Option (List UInt8)) (password head : Text) :
    Option Refusal :=
  if ¬ text "GET / " <+: head ∧ ¬ text "GET /stream " <+: head then some .notFound
  else if password = [] then some .forbidden
  else if httpBasicAuthOk base64Decode (some (valueOf (headerLines head))) (text "admin") password
    then none
  else some .unauthorized

theorem headEnd_ne_nil : headEnd ≠ [] := List.cons_ne_nil _ _

theorem crlf_ne_nil : crlf ≠ [] := List.cons_ne_nil _ _

/-- A word that does not contain `x` ends before it. -/
theorem prefix_append_cons {x : UInt8} {w l s : Text} (hx : x ∉ w) : w <+: l ++ x :: s ↔ w <+: l := by
  refine ⟨fun h => ?_, fun h => h.trans (List.prefix_append _ _)⟩
  rcases Nat.lt_or_ge l.length w.length with hlt | hle
  · have hlx : l ++ [x] <+: w :=
      List.prefix_of_prefix_length_le ⟨s, by simp⟩ h (by simp; omega)
    exact absurd (hlx.subset (by simp)) hx
  · exact List.prefix_of_prefix_length_le h (List.prefix_append _ _) hle

/-- The name of a header is compared within its line. -/
theorem startsCase_append (l s : Text) :
    startsCase authPrefix (l ++ crlf ++ s) = startsCase authPrefix l := by
  have hcr : (13 : UInt8) ∉ authPrefix.map lower := by decide
  have hmap : (l ++ crlf ++ s).map lower = l.map lower ++ 13 :: ([10] ++ s.map lower) := by
    simp [crlf]
    decide
  rw [startsCase, startsCase, hmap]
  exact decide_eq_decide.mpr (prefix_append_cons hcr)

/-- In a line and what follows it, the first CR LF is the one at its end. -/
theorem find_crlf {l : Text} (hl : ¬ crlf <:+: l) (s : Text) :
    find crlf (l ++ crlf ++ s) = some l.length := by
  rw [find_eq_some]
  refine ⟨by simp, fun j hj hs => ?_⟩
  rcases Nat.lt_or_ge (j + 1) l.length with hlt | hge
  · have hin : crlf <+: l.drop j := by
      refine (stands_of_part ⟨crlf ++ s, by simp⟩ ?_).mpr hs
      simp [crlf]
      omega
    exact hl (hin.isInfix.trans (List.drop_suffix j l).isInfix)
  · -- the last character of the line is not both the CR and before the LF
    have hsnd : (l ++ crlf ++ s)[j + 1]? = some 10 := by
      obtain ⟨t, ht⟩ := hs
      have h1 := congrArg (·[1]?) ht
      simpa [crlf] using h1.symm
    have hlen : j + 1 = l.length := by omega
    rw [hlen, List.append_assoc, List.getElem?_append_right le_rfl] at hsnd
    simp [crlf] at hsnd

variable {stream head got b : List UInt8} {chunks : List (List UInt8)}

theorem Head.whole (h : Head stream head) : head ++ headEnd <+: stream := by
  obtain ⟨t, rfl⟩ := h.part
  have hs := h.first.stands
  rw [List.drop_left] at hs
  exact (List.prefix_append_right_inj head).mpr hs

theorem Head.unique {head' : Text} (h : Head stream head) (h' : Head stream head') : head = head' := by
  have hlen := h.first.unique h'.first
  exact (List.prefix_of_prefix_length_le h.part h'.part hlen.le).eq_of_length hlen

/-- `strstr` finds the end of the head when it is there. -/
theorem Head.find_eq (h : Head stream head) (hp : got <+: stream)
    (hle : head.length + headEnd.length ≤ got.length) : find headEnd (cstr got) = some head.length := by
  have hgot : head ++ headEnd <+: got :=
    List.prefix_of_prefix_length_le h.whole hp (by simpa using hle)
  have hno : 0 ∉ head ++ headEnd := by
    rw [List.mem_append]
    exact fun hm => hm.elim h.noNul (by decide)
  have hcstr : head ++ headEnd <+: cstr got := prefix_cstr hgot hno
  have hpart : cstr got <+: stream := (List.takeWhile_prefix _).trans hp
  rw [find_eq_some]
  exact (first_of_part headEnd_ne_nil hpart).mpr ⟨h.first, by simpa using hcstr.length_le⟩

theorem head_of_find (hp : got <+: stream) (hlen : got.length ≤ reqSize - 1) {e : ℕ}
    (h : find headEnd (cstr got) = some e) :
    ∃ head, Head stream head ∧ head.length = e ∧ head ++ headEnd <+: got := by
  have hsub : cstr got <+: got := List.takeWhile_prefix _
  have hf : First headEnd (cstr got) e := find_eq_some.mp h
  have hle := hf.le headEnd_ne_nil
  have hlen' := hsub.length_le
  have hcut : ((cstr got).take e).length = e := by
    rw [List.length_take]
    omega
  have hhead : Head stream ((cstr got).take e) := by
    refine ⟨(List.take_prefix e _).trans (hsub.trans hp), ?_, ?_, ?_⟩
    · rw [hcut]
      exact ((first_of_part headEnd_ne_nil (hsub.trans hp)).mp hf).1
    · rw [hcut]
      omega
    · exact fun hm => not_mem_cstr got (List.mem_of_mem_take hm)
  refine ⟨_, hhead, hcut, ?_⟩
  refine List.prefix_of_prefix_length_le hhead.whole hp ?_
  rw [List.length_append, hcut]
  omega

/-- What `read_head` leaves: with 0 the head and the CR LF of its last line, and otherwise there is
no head in the stream. -/
def Reads (stream : List UInt8) (r : List UInt8 × Int) : Prop :=
  r.1.length = reqSize ∧
    ((r.2 = 0 ∧ ∃ head after, Head stream head ∧ r.1 = head ++ crlf ++ 0 :: after) ∨
      (r.2 ≠ 0 ∧ ∀ head, ¬ Head stream head))

/-- A head would have been found in what is there. -/
theorem Head.missing (h : Head stream head) (hp : got <+: stream)
    (hnone : find headEnd (cstr got) = none) : got.length < head.length + headEnd.length := by
  by_contra hle
  rw [h.find_eq hp (not_lt.mp hle)] at hnone
  cases hnone

/-- One round of `read_head`, with `b` behind the bytes that are there. -/
theorem readHeadFrom_cons {chunk : List UInt8} (hlen : got.length < reqSize - 1)
    (hfit : chunk.length < b.length) :
    readHeadFrom (got ++ b) got.length (chunk :: chunks) =
      match find headEnd (cstr (got ++ chunk)) with
      | some e => (writeAt (got ++ chunk ++ 0 :: b.drop (chunk.length + 1)) (e + 2) [0]).map (·, 0)
      | none => readHeadFrom (got ++ chunk ++ 0 :: b.drop (chunk.length + 1)) (got ++ chunk).length
          chunks := by
  have hchunk := writeAt_append got (show chunk.length ≤ b.length by omega)
  have hnul : writeAt (got ++ chunk ++ b.drop chunk.length) (got.length + chunk.length) [0] =
      some (got ++ chunk ++ 0 :: b.drop (chunk.length + 1)) := by
    have hroom : ([0] : List UInt8).length ≤ (b.drop chunk.length).length := by
      rw [List.length_drop, List.length_singleton]
      omega
    rw [← List.length_append, writeAt_append (got ++ chunk) hroom]
    simp
  have hstr : strstr ([] ++ (got ++ chunk ++ 0 :: b.drop (chunk.length + 1))) 0 headEnd =
      some ((find headEnd (cstr (got ++ chunk))).map (0 + ·)) := strstr_append [] headEnd
  simp only [List.nil_append, Nat.zero_add] at hstr
  rw [readHeadFrom, if_pos hlen, hchunk]
  simp only [Option.bind_eq_bind, Option.bind_some, hnul, hstr, List.length_append]
  cases find headEnd (cstr (got ++ chunk)) with
  | none => rfl
  | some e =>
    show (writeAt _ (e + 2) [0]).bind _ = (writeAt _ (e + 2) [0]).map _
    rw [Option.map_eq_bind]
    rfl

/-- `end[2] = '\0'` -/
theorem writeAt_headEnd (head x : List UInt8) :
    writeAt (head ++ headEnd ++ x) (head.length + 2) [0] = some (head ++ crlf ++ 0 :: 10 :: x) := by
  have h := writeAt_append (c := [0]) (b := 13 :: 10 :: x) (head ++ crlf) (by simp)
  have hlen : (head ++ crlf).length = head.length + 2 := by simp [crlf]
  have hsplit : head ++ crlf ++ 13 :: 10 :: x = head ++ headEnd ++ x := by simp [headEnd, crlf]
  rw [hlen, hsplit] at h
  simpa using h

theorem ret_ne_zero (len : ℕ) : (if len < reqSize - 1 then eio else e2big) ≠ 0 := by
  split <;> decide

/-- From any point of `read_head` on: what is there has no end of a head yet. -/
theorem readHeadFrom_reads {room : ℕ} {rest : List UInt8} (hs : Split room rest chunks)
    (hroom : got.length + room = reqSize - 1) (hb : got.length + b.length = reqSize)
    (hnone : find headEnd (cstr got) = none) :
    ∃ r, readHeadFrom (got ++ b) got.length chunks = some r ∧ Reads (got ++ rest) r := by
  induction hs generalizing got b with
  | full stream =>
    refine ⟨_, rfl, by rwa [List.length_append], Or.inr ⟨ret_ne_zero _, fun head h => ?_⟩⟩
    have hlt := h.missing (List.prefix_append _ _) hnone
    have hfit := h.fits
    omega
  | closed room =>
    refine ⟨_, rfl, by rwa [List.length_append], Or.inr ⟨ret_ne_zero _, fun head h => ?_⟩⟩
    have hlt := h.missing (List.prefix_append _ _) hnone
    have hle := h.whole.length_le
    simp only [List.length_append, List.append_nil] at hle
    omega
  | @piece room chunk stream chunks hne hle hs ih =>
    have hpos : 0 < chunk.length := List.length_pos_iff.mpr hne
    have hone : reqSize = 768 := rfl
    have hp : got ++ chunk <+: got ++ (chunk ++ stream) := ⟨stream, by simp⟩
    rw [readHeadFrom_cons (by omega) (by omega)]
    cases hf : find headEnd (cstr (got ++ chunk)) with
    | none =>
      rw [← List.append_assoc]
      refine ih ?_ ?_ hf
      · rw [List.length_append]
        omega
      · simp only [List.length_append, List.length_cons, List.length_drop]
        omega
    | some e =>
      obtain ⟨head, h, rfl, t, ht⟩ := head_of_find hp (by rw [List.length_append]; omega) hf
      have hcut : writeAt (got ++ chunk ++ 0 :: b.drop (chunk.length + 1)) (head.length + 2) [0] =
          some (head ++ crlf ++ 0 :: 10 :: (t ++ 0 :: b.drop (chunk.length + 1))) := by
        rw [← writeAt_headEnd, ← ht, List.append_assoc (head ++ headEnd)]
      refine ⟨_, congrArg (Option.map (·, 0)) hcut, ?_, Or.inl ⟨rfl, head, _, h, rfl⟩⟩
      have hlen := length_writeAt hcut
      simp only [List.length_append, List.length_cons, List.length_drop] at hlen ⊢
      omega

theorem readHead_reads {req : List UInt8} (hreq : req.length = reqSize)
    (hs : Split (reqSize - 1) stream chunks) :
    ∃ r, readHead req chunks = some r ∧ Reads stream r := by
  have hempty : find headEnd (cstr ([] : List UInt8)) = none := by decide
  have hroom : ([] : List UInt8).length + (reqSize - 1) = reqSize - 1 := Nat.zero_add _
  have hb : ([] : List UInt8).length + req.length = reqSize := by rw [hreq, List.length_nil, zero_add]
  exact readHeadFrom_reads hs hroom hb hempty

variable {lines : List Text}

/-- Lines that can be told apart: no CR LF and no NUL inside. -/
def Plain (lines : List Text) : Prop := ∀ l ∈ lines, ¬ crlf <:+: l ∧ 0 ∉ l

def joined (lines : List Text) : Text := (lines.map (· ++ crlf)).flatten

theorem joined_cons (l : Text) (lines : List Text) : joined (l :: lines) = l ++ crlf ++ joined lines :=
  List.flatten_cons

theorem Plain.noNul (h : Plain lines) : 0 ∉ joined lines := by
  intro hm
  obtain ⟨t, ht, h0⟩ := List.mem_flatten.mp hm
  obtain ⟨l, hl, rfl⟩ := List.mem_map.mp ht
  rcases List.mem_append.mp h0 with h0 | h0
  · exact (h l hl).2 h0
  · exact absurd h0 (by decide)

theorem length_le_joined (lines : List Text) : 2 * lines.length ≤ (joined lines).length := by
  induction lines with
  | nil => exact Nat.zero_le _
  | cons l lines ih =>
    rw [joined_cons]
    simp only [List.length_append, List.length_cons, crlf]
    omega

/-- A header line is cut at its end, and its value starts after the spaces. -/
theorem cut_line (a rest : List UInt8) {line after : Text} (hl : ¬ crlf <:+: line)
    (h0 : 0 ∉ line) (hafter : 0 ∉ after) :
    strstr (a ++ (line ++ crlf ++ after ++ 0 :: rest)) a.length crlf =
        some (some (a.length + line.length)) ∧
      skip (a ++ (line ++ crlf ++ after ++ 0 :: rest)) a.length (ascii ' ') =
        some (a.length + (line.takeWhile (· = ascii ' ')).length) ∧
      ∃ req', writeAt (a ++ (line ++ crlf ++ after ++ 0 :: rest)) (a.length + line.length) [0] =
          some req' ∧
        stringAt req' (a.length + (line.takeWhile (· = ascii ' ')).length) =
          some (line.dropWhile (· = ascii ' ')) := by
  have hno : 0 ∉ line ++ crlf ++ after := by
    simp only [List.mem_append, not_or]
    exact ⟨⟨h0, by decide⟩, hafter⟩
  refine ⟨?_, ?_, a ++ line ++ 0 :: 10 :: (after ++ 0 :: rest), ?_, ?_⟩
  · rw [strstr_append, cstr_of_not_mem hno, find_crlf hl after]
    rfl
  · have hskip : skip (a ++ (line ++ 13 :: 10 :: (after ++ 0 :: rest))) a.length (ascii ' ') = _ :=
      skip_append a (by decide)
    rw [← hskip]
    simp [crlf]
  · have hwrite := writeAt_append (c := [0]) (b := 13 :: 10 :: (after ++ 0 :: rest)) (a ++ line)
      (by simp)
    rw [List.length_append] at hwrite
    simpa [crlf] using hwrite
  · have hval : 0 ∉ line.dropWhile (· = ascii ' ') := fun hm =>
      h0 ((List.dropWhile_suffix _).subset hm)
    have hsplit : a ++ line ++ 0 :: 10 :: (after ++ 0 :: rest) =
        a ++ line.takeWhile (· = ascii ' ') ++
          (line.dropWhile (· = ascii ' ') ++ 0 :: 10 :: (after ++ 0 :: rest)) := by
      rw [List.append_assoc a (line.takeWhile _), ← List.append_assoc (line.takeWhile _),
        List.takeWhile_append_dropWhile, List.append_assoc]
    rw [hsplit, ← List.length_append, stringAt_append, cstr_of_not_mem hval]

theorem authLoop_next {req : List UInt8} {fuel line : ℕ} {s : Text} {next : Option ℕ}
    (hstring : stringAt req (line + 2) = some s) (hs : startsCase authPrefix s = false)
    (hnext : strstr req (line + 2) crlf = some next) :
    authLoop req (fuel + 1) (some line) = authLoop req fuel next := by
  rw [authLoop, hstring]
  simp [hs, hnext]

theorem authLoop_found {req req' : List UInt8} {fuel line e v : ℕ} {s : Text}
    (hstring : stringAt req (line + 2) = some s) (hs : startsCase authPrefix s = true)
    (hend : strstr req (line + 2 + authPrefix.length) crlf = some (some e))
    (hskip : skip req (line + 2 + authPrefix.length) (ascii ' ') = some v)
    (hwrite : writeAt req e [0] = some req') :
    authLoop req (fuel + 1) (some line) = some (req', some v) := by
  rw [authLoop, hstring]
  simp [hs, hend, hskip, hwrite]

theorem authLoop_none (req : List UInt8) (fuel : ℕ) : authLoop req fuel none = some (req, none) := by
  cases fuel <;> rfl

theorem stringAt_joined (hl : Plain lines) (a rest : List UInt8) :
    stringAt (a ++ (joined lines ++ 0 :: rest)) a.length = some (joined lines) := by
  rw [stringAt_append, cstr_of_not_mem hl.noNul]

theorem startsCase_joined (l : Text) (lines : List Text) :
    startsCase authPrefix (joined (l :: lines)) = startsCase authPrefix l := by
  rw [joined_cons, startsCase_append]

theorem split_name {l : Text} (h : startsCase authPrefix l = true) :
    ∃ name value, l = name ++ value ∧ name.length = authPrefix.length := by
  have hle : (authPrefix.map lower).length ≤ (l.map lower).length :=
    (of_decide_eq_true h).length_le
  simp only [List.length_map] at hle
  refine ⟨l.take authPrefix.length, l.drop authPrefix.length, (List.take_append_drop _ _).symm, ?_⟩
  rw [List.length_take]
  omega

theorem authLoop_here {a : List UInt8} (rest : List UInt8) {fuel line : ℕ} {l : Text}
    (hl : Plain (l :: lines)) (hline : line + 2 = a.length) (hs : startsCase authPrefix l = true) :
    ∃ req' v, authLoop (a ++ (joined (l :: lines) ++ 0 :: rest)) (fuel + 1) (some line) =
        some (req', v) ∧
      pointed req' v = some ((l.drop authPrefix.length).dropWhile (· = ascii ' ')) := by
  obtain ⟨name, value, rfl, hlen⟩ := split_name hs
  obtain ⟨⟨hcrlf, h0⟩, hrest⟩ := List.forall_mem_cons.mp hl
  have hcrlf' : ¬ crlf <:+: value := fun h => hcrlf (h.trans (List.suffix_append _ _).isInfix)
  have h0' : 0 ∉ value := fun h => h0 (List.mem_append_right _ h)
  have hpos : (a ++ name).length = line + 2 + authPrefix.length := by
    rw [List.length_append, hline, hlen]
  have hsplit : a ++ (joined ((name ++ value) :: lines) ++ 0 :: rest) =
      a ++ name ++ (value ++ crlf ++ joined lines ++ 0 :: rest) := by
    rw [joined_cons]
    simp
  obtain ⟨hend, hskip, req', hwrite, hvalue⟩ :=
    cut_line (a ++ name) rest hcrlf' h0' (Plain.noNul hrest)
  rw [hpos, ← hsplit] at hend hskip hwrite
  rw [hpos] at hvalue
  have hname := (startsCase_joined (name ++ value) lines).trans hs
  have hdrop : (name ++ value).drop authPrefix.length = value := by
    rw [← hlen, List.drop_left]
  refine ⟨req', _, authLoop_found (hline ▸ stringAt_joined hl a rest) hname hend hskip hwrite, ?_⟩
  rw [hdrop]
  exact hvalue

/-- From the end of the line before them, the loop finds the header among the lines. -/
theorem authLoop_value {a : List UInt8} (rest : List UInt8) {fuel line : ℕ} (hl : Plain lines)
    (hline : line + 2 = a.length) (hfuel : lines.length < fuel) :
    ∃ req' v, authLoop (a ++ (joined lines ++ 0 :: rest)) fuel (some line) = some (req', v) ∧
      pointed req' v = some (valueOf lines) := by
  induction lines generalizing a line fuel with
  | nil =>
    obtain ⟨fuel, rfl⟩ : ∃ f, fuel = f + 1 := Nat.exists_eq_succ_of_ne_zero (by omega)
    have hnext : strstr (a ++ (joined [] ++ 0 :: rest)) (line + 2) crlf = some none :=
      hline ▸ strstr_append a crlf
    refine ⟨a ++ (joined [] ++ 0 :: rest), none, ?_, rfl⟩
    rw [authLoop_next (hline ▸ stringAt_joined hl a rest) (by decide) hnext, authLoop_none]
  | cons l lines ih =>
    obtain ⟨fuel, rfl⟩ : ∃ f, fuel = f + 1 := Nat.exists_eq_succ_of_ne_zero (by omega)
    cases hs : startsCase authPrefix l with
    | true =>
      rw [valueOf, List.find?_cons_of_pos hs]
      exact authLoop_here rest hl hline hs
    | false =>
      obtain ⟨⟨hcrlf, -⟩, hrest⟩ := List.forall_mem_cons.mp hl
      have hnext : strstr (a ++ (joined (l :: lines) ++ 0 :: rest)) (line + 2) crlf =
          some (some (line + 2 + l.length)) := by
        rw [hline, strstr_append, cstr_of_not_mem hl.noNul, joined_cons, find_crlf hcrlf]
        rfl
      have hsplit : a ++ (joined (l :: lines) ++ 0 :: rest) =
          a ++ l ++ crlf ++ (joined lines ++ 0 :: rest) := by
        rw [joined_cons]
        simp
      have hpos : line + 2 + l.length + 2 = (a ++ l ++ crlf).length := by
        simp only [List.length_append, crlf, List.length_cons, List.length_nil]
        omega
      rw [authLoop_next (hline ▸ stringAt_joined hl a rest) ((startsCase_joined l lines).trans hs) hnext,
        hsplit, valueOf, List.find?_cons_of_neg (by simp [hs])]
      exact ih hrest hpos (by simpa using hfuel)

theorem Head.noNul_line (h : Head stream head) : 0 ∉ head ++ crlf := by
  rw [List.mem_append]
  exact fun hm => hm.elim h.noNul (by decide)

theorem Head.plain (h : Head stream head) : Plain (pieces crlf head) := by
  refine fun l hl => ⟨not_infix_of_mem_pieces crlf_ne_nil hl, fun h0 => ?_⟩
  have hm : 0 ∈ joined (pieces crlf head) :=
    List.mem_flatten.mpr ⟨l ++ crlf, List.mem_map_of_mem hl, List.mem_append_left _ h0⟩
  rw [joined, flatten_pieces crlf_ne_nil] at hm
  exact h.noNul_line hm

/-- `auth_header` on what `read_head` leaves. -/
theorem authHeader_value (h : Head stream head) (after : List UInt8) :
    ∃ req', authHeader (head ++ crlf ++ 0 :: after) = some (req', valueOf (headerLines head)) := by
  have hjoined : joined (pieces crlf head) = head ++ crlf := flatten_pieces crlf_ne_nil head
  have hplain := h.plain
  rw [headerLines]
  cases hp : pieces crlf head with
  | nil =>
    rw [hp] at hjoined
    simp [joined, crlf] at hjoined
  | cons l lines =>
    rw [hp] at hjoined hplain
    obtain ⟨⟨hcrlf, -⟩, hrest⟩ := List.forall_mem_cons.mp hplain
    have hfirst : strstr ([] ++ (head ++ crlf ++ 0 :: after)) 0 crlf = some (some (0 + l.length)) := by
      rw [← List.length_nil (α := UInt8), strstr_append, cstr_of_not_mem h.noNul_line, ← hjoined,
        joined_cons, find_crlf hcrlf]
      rfl
    have hsplit : head ++ crlf ++ 0 :: after = l ++ crlf ++ (joined lines ++ 0 :: after) := by
      rw [← hjoined, joined_cons]
      simp
    have hfuel : lines.length < (head ++ crlf ++ 0 :: after).length := by
      have hle := length_le_joined lines
      rw [hsplit]
      simp only [List.length_append, List.length_cons]
      omega
    obtain ⟨req', v, hloop, hvalue⟩ :=
      authLoop_value after hrest (show l.length + 2 = (l ++ crlf).length by simp [crlf]) hfuel
    refine ⟨req', ?_⟩
    rw [List.nil_append, Nat.zero_add] at hfirst
    rw [← hsplit] at hloop
    rw [authHeader, hfirst]
    simp only [Option.bind_eq_bind, Option.bind_some, hloop, hvalue, List.tail_cons]

/-- A request line is compared within the head. -/
theorem method_in_head {w : Text} (hw : 13 ∉ w) (head : Text) : w <+: head ++ crlf ↔ w <+: head :=
  prefix_append_cons hw

theorem requestOk_decision (h : Head stream head) (after : List UInt8)
    (base64Decode : ℕ → Text → Option (List UInt8)) (password : Text) :
    ∃ req', requestOk base64Decode password (head ++ crlf ++ 0 :: after) =
      some (req', decision base64Decode password head) := by
  obtain ⟨req', hauth⟩ := authHeader_value h after
  have hstring : stringAt (head ++ crlf ++ 0 :: after) 0 = some (head ++ crlf) := by
    have hs : stringAt ([] ++ (head ++ crlf ++ 0 :: after)) 0 = some (cstr (head ++ crlf)) :=
      stringAt_append [] _ _
    rwa [cstr_of_not_mem h.noNul_line] at hs
  rw [requestOk, hstring, decision]
  simp only [Option.bind_eq_bind, Option.bind_some, hauth,
    method_in_head (show (13 : UInt8) ∉ text "GET / " by decide),
    method_in_head (show (13 : UInt8) ∉ text "GET /stream " by decide)]
  split
  · exact ⟨_, rfl⟩
  · split
    · exact ⟨_, rfl⟩
    · split
      · exact ⟨_, rfl⟩
      · exact ⟨_, rfl⟩

/-- However the bytes of a viewer arrive, `read_head` accepts them if they begin with a head that
fits; then the value of the Authorization header and the answer are those of that head. Nothing
outside `req` is touched. -/
theorem request_chunking {req stream : List UInt8} {chunks : List (List UInt8)}
    (hreq : req.length = reqSize) (hs : Split (reqSize - 1) stream chunks)
    (base64Decode : ℕ → Text → Option (List UInt8)) (password : Text) :
    ∃ req' ret, readHead req chunks = some (req', ret) ∧ req'.length = reqSize ∧
      (ret = 0 ↔ ∃ head, Head stream head) ∧
      ∀ head, Head stream head →
        (∃ req₁, authHeader req' = some (req₁, valueOf (headerLines head))) ∧
          ∃ req₂, requestOk base64Decode password req' =
            some (req₂, decision base64Decode password head) := by
  obtain ⟨⟨req', ret⟩, hread, hlen, hr⟩ := readHead_reads hreq hs
  refine ⟨req', ret, hread, hlen, ?_⟩
  rcases hr with ⟨hret, head, after, h, rfl⟩ | ⟨hret, hno⟩
  · refine ⟨iff_of_true hret ⟨head, h⟩, fun head' h' => ?_⟩
    rw [h'.unique h]
    exact ⟨authHeader_value h after, requestOk_decision h after base64Decode password⟩
  · exact ⟨iff_of_false hret fun ⟨head, h⟩ => hno head h, fun head h => absurd h (hno head)⟩

/-- A request whose last CR LF is cut in two. -/
theorem request_chunking_cut : ∃ req' req₁,
    readHead (List.replicate reqSize 88)
        [text "GET / " ++ crlf ++ text "authorization:  k" ++ crlf ++ [13], [10]] =
      some (req', 0) ∧ authHeader req' = some (req₁, text "k") := by
  have hs : Split (reqSize - 1) ((text "GET / " ++ crlf ++ text "authorization:  k" ++ crlf ++ [13]) ++
      ([10] ++ [])) [text "GET / " ++ crlf ++ text "authorization:  k" ++ crlf ++ [13], [10]] :=
    .piece (by decide) (by decide) (.piece (by decide) (by decide) (.closed _))
  have hhead : Head ((text "GET / " ++ crlf ++ text "authorization:  k" ++ crlf ++ [13]) ++ ([10] ++ []))
      (text "GET / " ++ crlf ++ text "authorization:  k") :=
    ⟨by decide, find_eq_some.mp (by decide), by decide, by decide⟩
  obtain ⟨req', ret, hread, -, hret, hall⟩ :=
    request_chunking (List.length_replicate ..) hs (fun _ _ => none) []
  obtain ⟨⟨req₁, hauth⟩, -⟩ := hall _ hhead
  rw [hret.mpr ⟨_, hhead⟩] at hread
  exact ⟨req', req₁, hread, hauth⟩

end ZephyrApps.MjpegStream
