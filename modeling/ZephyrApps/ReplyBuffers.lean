import ZephyrApps.ApiReplies
import ZephyrApps.CBuffers

/-!
# Replies in the caller's buffer

`struct out` of `api.c` over the bytes of the buffer. A write outside the buffer, or a capacity
below the length that is subtracted from it, is `none`. What a handler prints is data here, and is
either printed whole or replaced.
-/
namespace ZephyrApps.ReplyBuffers
open CStrings CBuffers ApiReplies

/-- `struct out`, with the bytes at `buf` -/
structure OutAt where
  buf : List UInt8
  cap : ℕ
  len : ℕ
  overflow : Bool

/-- `out_printf` of a text that is already formatted. -/
def OutAt.printf (o : OutAt) (s : Text) : Option OutAt :=
  if o.overflow then some o
  else if o.cap < o.len then none
  else do
    let buf ← snprintf o.buf o.len (o.cap - o.len) s
    if o.cap - o.len ≤ s.length then some { o with buf, overflow := true }
    else some { o with buf, len := o.len + s.length }

/-- `struct pstop_api_response` -/
structure ResponseAt where
  status : Int
  len : ℕ
  authChallenge : Bool
  restart : Bool
  deriving DecidableEq

/-- `finish`, on a response that `init_rsp` cleared. -/
def finishAt (o : OutAt) (status : Int) : Option (List UInt8 × ResponseAt) :=
  if o.overflow then do
    let o ← { o with len := 0, overflow := false }.printf (errorBody "response too large")
    some (o.buf, ⟨500, o.len, false, false⟩)
  else some (o.buf, ⟨status, o.len, false, false⟩)

/-- `reply`, on a response that `init_rsp` cleared. -/
def replyAt (buf : List UInt8) (cap : ℕ) (status : Int) (s : Text) :
    Option (List UInt8 × ResponseAt) := do
  let buf ← snprintf buf 0 cap s
  if cap ≤ s.length then finishAt ⟨buf, cap, 0, true⟩ status
  else finishAt ⟨buf, cap, s.length, false⟩ status

section Texts

variable {o : Out}

@[simp] theorem printf_cap (o : Out) (s : Text) : (o.printf s).cap = o.cap := by
  rw [Out.printf]
  split
  · rfl
  · split <;> rfl

@[simp] theorem foldl_printf_cap (o : Out) (pieces : List Text) :
    (pieces.foldl Out.printf o).cap = o.cap := by
  induction pieces generalizing o with
  | nil => rfl
  | cons s pieces ih => rw [List.foldl_cons, ih, printf_cap]

/-- After an overflow nothing is appended, however short. -/
theorem foldl_printf_overflow (h : o.overflow = true) (pieces : List Text) :
    pieces.foldl Out.printf o = o := by
  induction pieces with
  | nil => rfl
  | cons s pieces ih =>
    have hstays : o.printf s = o := by rw [Out.printf, if_pos h]
    rw [List.foldl_cons, hstays, ih]

/-- The texts are appended whole if all of them fit together, and overflow otherwise. -/
theorem foldl_printf (h : o.overflow = false) (hroom : o.body.length < o.cap) (pieces : List Text) :
    ((o.body ++ pieces.flatten).length < o.cap ∧
      pieces.foldl Out.printf o = { o with body := o.body ++ pieces.flatten }) ∨
    (o.cap ≤ (o.body ++ pieces.flatten).length ∧
      (pieces.foldl Out.printf o).overflow = true) := by
  induction pieces generalizing o with
  | nil => exact Or.inl ⟨by simpa using hroom, by simp⟩
  | cons s pieces ih =>
    have hopen : ¬ o.overflow = true := by simp [h]
    rw [List.foldl_cons, List.flatten_cons, ← List.append_assoc]
    by_cases hs : o.cap - o.body.length ≤ s.length
    · -- it does not fit, and what comes after does not help
      have hover : (o.printf s).overflow = true := by rw [Out.printf, if_neg hopen, if_pos hs]
      refine Or.inr ⟨?_, ?_⟩
      · simp only [List.length_append]
        omega
      · rw [foldl_printf_overflow hover, hover]
    · have hnext : o.printf s = { o with body := o.body ++ s } := by
        rw [Out.printf, if_neg hopen, if_neg hs]
      have hroom' : (o.body ++ s).length < o.cap := by
        rw [List.length_append]
        omega
      rw [hnext]
      exact ih (o := { o with body := o.body ++ s }) h hroom'

theorem finish_overflow (h : o.overflow = true) (status : Int) : finish o status =
    { Response.init with
      status := 500
      body := if (errorBody "response too large").length < o.cap then errorBody "response too large"
        else [] } := by
  rw [finish, if_pos h, Out.printf, if_neg Bool.false_ne_true, List.length_nil, Nat.sub_zero]
  by_cases hcap : o.cap ≤ (errorBody "response too large").length
  · rw [if_pos hcap, if_neg (Nat.not_lt.mpr hcap)]
  · rw [if_neg hcap, if_pos (Nat.not_le.mp hcap)]
    rfl

end Texts

/-- The appender of a buffer that holds the body of the abstract one. -/
structure Holds (o : Out) (a : OutAt) : Prop where
  cap : a.cap = o.cap
  size : a.buf.length = o.cap
  room : o.body.length < o.cap
  len : a.len = o.body.length
  body : a.buf.take a.len = o.body
  overflow : a.overflow = o.overflow

section Appender

variable {o : Out} {a : OutAt}

/-- An append stays in the buffer, and what was there before an overflow stays too. -/
theorem Holds.printf (h : Holds o a) (s : Text) :
    ∃ a', a.printf s = some a' ∧ Holds (o.printf s) a' := by
  rw [OutAt.printf, Out.printf, h.overflow]
  cases hover : o.overflow with
  | true =>
    refine ⟨a, by simp, ?_⟩
    simpa using h
  | false =>
    have hroom := h.room
    have hlt : ¬ a.cap < a.len := by rw [h.cap, h.len]; omega
    have hspan : 0 < a.cap - a.len := by rw [h.cap, h.len]; omega
    have hinside : a.len + (a.cap - a.len) ≤ a.buf.length := by rw [h.cap, h.len, h.size]; omega
    obtain ⟨buf, hbuf, hsize, htake⟩ := snprintf_inside hspan hinside s
    rw [h.body] at htake
    simp only [Bool.false_eq_true, if_false, if_neg hlt, hbuf, Option.bind_eq_bind, Option.bind_some]
    have hspace : a.cap - a.len = o.cap - o.body.length := by rw [h.cap, h.len]
    rw [hspace] at htake ⊢
    by_cases hs : o.cap - o.body.length ≤ s.length
    · rw [if_pos hs, if_pos hs]
      refine ⟨_, rfl, ⟨h.cap, hsize.trans h.size, h.room, h.len, ?_, rfl⟩⟩
      have hfront := congrArg (List.take a.len) htake
      rw [List.take_take, Nat.min_eq_left (Nat.le_add_right _ _), h.len, List.take_left] at hfront
      show buf.take a.len = o.body
      rw [h.len]
      exact hfront
    · rw [if_neg hs, if_neg hs]
      have hlt : s.length < o.cap - o.body.length := Nat.not_le.mp hs
      have hmin : min s.length (o.cap - o.body.length - 1) = s.length := by omega
      have hwhole : s.take (o.cap - o.body.length - 1) = s := List.take_of_length_le (by omega)
      rw [hmin, hwhole] at htake
      refine ⟨_, rfl, ⟨h.cap, hsize.trans h.size, ?_, ?_, htake, rfl⟩⟩
      · show (o.body ++ s).length < o.cap
        rw [List.length_append]
        omega
      · show a.len + s.length = (o.body ++ s).length
        rw [List.length_append, h.len]

theorem Holds.foldlM (h : Holds o a) (pieces : List Text) :
    ∃ a', pieces.foldlM OutAt.printf a = some a' ∧ Holds (pieces.foldl Out.printf o) a' := by
  induction pieces generalizing o a with
  | nil => exact ⟨a, rfl, h⟩
  | cons s pieces ih =>
    obtain ⟨a', ha', h'⟩ := h.printf s
    obtain ⟨a'', ha'', h''⟩ := ih h'
    refine ⟨a'', ?_, h''⟩
    rw [List.foldlM_cons, ha']
    exact ha''

/-- The buffer holds the body of the response, and `len` and `status` are those of it. -/
structure Carries (cap : ℕ) (rsp : Response) (r : List UInt8 × ResponseAt) : Prop where
  size : r.1.length = cap
  len : r.2.len = rsp.body.length
  body : r.1.take r.2.len = rsp.body
  status : r.2.status = rsp.status

theorem Holds.finish (h : Holds o a) (status : Int) :
    ∃ r, finishAt a status = some r ∧ Carries o.cap (ApiReplies.finish o status) r := by
  rw [finishAt, ApiReplies.finish, h.overflow]
  cases hover : o.overflow with
  | true =>
    have hcleared : Holds { o with body := [], overflow := false }
        { a with len := 0, overflow := false } :=
      ⟨h.cap, h.size, Nat.zero_lt_of_lt h.room, rfl, rfl, rfl⟩
    obtain ⟨a', ha', h'⟩ := hcleared.printf (errorBody "response too large")
    rw [if_pos rfl, if_pos rfl, ha']
    exact ⟨_, rfl, h'.size.trans (printf_cap _ _), h'.len, h'.body, rfl⟩
  | false =>
    rw [if_neg Bool.false_ne_true, if_neg Bool.false_ne_true]
    exact ⟨_, rfl, h.size, h.len, h.body, rfl⟩

theorem holds_empty {buf : List UInt8} (hcap : 0 < buf.length) :
    Holds ⟨buf.length, [], false⟩ ⟨buf, buf.length, 0, false⟩ :=
  ⟨rfl, rfl, hcap, rfl, rfl, rfl⟩

theorem reply_eq_printf {cap : ℕ} (status : Int) (s : Text) :
    reply cap status s = ApiReplies.finish ((⟨cap, [], false⟩ : Out).printf s) status := by
  simp only [reply, Out.printf, Bool.false_eq_true, if_false, List.length_nil, Nat.sub_zero,
    List.nil_append]
  split <;> rfl

theorem replyAt_eq_printf (buf : List UInt8) (cap : ℕ) (status : Int) (s : Text) :
    replyAt buf cap status s =
      (OutAt.printf ⟨buf, cap, 0, false⟩ s).bind fun o => finishAt o status := by
  rw [replyAt, OutAt.printf, if_neg Bool.false_ne_true, if_neg (Nat.not_lt_zero _), Nat.sub_zero]
  cases snprintf buf 0 cap s with
  | none => rfl
  | some buf' =>
    simp only [Option.bind_eq_bind, Option.bind_some, Nat.zero_add]
    split <;> rfl

end Appender

inductive Body where
  | none
  | reply (s : Text)
  | printed (pieces : List Text)

structure Formatted where
  status : Int
  body : Body
  authChallenge : Bool
  restart : Bool

def Formatted.bare (status : Int) : Formatted := ⟨status, .none, false, false⟩

/-- A body of one `reply`. -/
def Formatted.reply (status : Int) (s : Text) : Formatted := ⟨status, .reply s, false, false⟩

/-- A body of one `out_printf` after the other. -/
def Formatted.printed (status : Int) (pieces : List Text) : Formatted :=
  ⟨status, .printed pieces, false, false⟩

def Body.pieces : Body → List Text
  | .none => []
  | .reply s => [s]
  | .printed pieces => pieces

def Formatted.text (f : Formatted) : Text := f.body.pieces.flatten

/-- The response with a buffer of `cap` bytes. -/
def Formatted.response (f : Formatted) (cap : ℕ) : Response :=
  let rsp :=
    match f.body with
    | .none => { Response.init with status := f.status }
    | .reply s => ApiReplies.reply cap f.status s
    | .printed pieces => finish (pieces.foldl Out.printf ⟨cap, [], false⟩) f.status
  { rsp with authChallenge := f.authChallenge, restart := f.restart }

def Body.write (buf : List UInt8) (status : Int) : Body → Option (List UInt8 × ResponseAt)
  | .none => some (buf, ⟨status, 0, false, false⟩)
  | .reply s => replyAt buf buf.length status s
  | .printed pieces => do
    let o ← pieces.foldlM OutAt.printf ⟨buf, buf.length, 0, false⟩
    finishAt o status

/-- What the handler leaves in the buffer and in the response. -/
def Formatted.write (f : Formatted) (buf : List UInt8) : Option (List UInt8 × ResponseAt) :=
  (f.body.write buf f.status).map fun r =>
    (r.1, { r.2 with authChallenge := f.authChallenge, restart := f.restart })

section Bodies

variable {buf : List UInt8}

theorem printed_carries (hcap : 0 < buf.length) (status : Int) (pieces : List Text) :
    ∃ r, (Body.printed pieces).write buf status = some r ∧ Carries buf.length
      (finish (pieces.foldl Out.printf ⟨buf.length, [], false⟩) status) r := by
  obtain ⟨a, ha, h⟩ := (holds_empty hcap).foldlM pieces
  obtain ⟨r, hr, hc⟩ := h.finish status
  refine ⟨r, ?_, ?_⟩
  · rw [Body.write, ha]
    exact hr
  · rwa [foldl_printf_cap] at hc

theorem reply_carries (hcap : 0 < buf.length) (status : Int) (s : Text) :
    ∃ r, (Body.reply s).write buf status = some r ∧
      Carries buf.length (reply buf.length status s) r := by
  obtain ⟨a, ha, h⟩ := (holds_empty hcap).printf s
  obtain ⟨r, hr, hc⟩ := h.finish status
  refine ⟨r, ?_, ?_⟩
  · rw [Body.write, replyAt_eq_printf, ha]
    exact hr
  · rwa [printf_cap, ← reply_eq_printf] at hc

/-- The calls leave in the buffer what the response says. -/
theorem write_carries (f : Formatted) (hcap : 0 < buf.length) :
    ∃ r, f.write buf = some r ∧ Carries buf.length (f.response buf.length) r := by
  suffices hbody : ∃ r, f.body.write buf f.status = some r ∧
      Carries buf.length (f.response buf.length) r by
    obtain ⟨r, hr, hc⟩ := hbody
    rw [Formatted.write, hr]
    exact ⟨_, rfl, hc.size, hc.len, hc.body, hc.status⟩
  rw [Formatted.response]
  cases f.body with
  | none => exact ⟨_, rfl, rfl, rfl, rfl, rfl⟩
  | reply s =>
    obtain ⟨r, hr, hc⟩ := reply_carries hcap f.status s
    exact ⟨r, hr, hc.size, hc.len, hc.body, hc.status⟩
  | printed pieces =>
    obtain ⟨r, hr, hc⟩ := printed_carries hcap f.status pieces
    exact ⟨r, hr, hc.size, hc.len, hc.body, hc.status⟩

/-- The three ways in which a buffer of `cap` bytes can end up. -/
inductive Outcome (f : Formatted) (cap : ℕ) (r : List UInt8 × ResponseAt) : Prop
  | complete (fits : f.text.length < cap) (status : r.2.status = f.status)
      (len : r.2.len = f.text.length) (body : r.1.take r.2.len = f.text)
  | replaced (tooLong : cap ≤ f.text.length) (room : (errorBody "response too large").length < cap)
      (status : r.2.status = 500) (len : r.2.len = (errorBody "response too large").length)
      (body : r.1.take r.2.len = errorBody "response too large")
  | emptied (tooLong : cap ≤ f.text.length) (full : cap ≤ (errorBody "response too large").length)
      (status : r.2.status = 500) (len : r.2.len = 0)

/-- The appends of a body and `finish`: the whole body if it fits with its NUL, and an error
otherwise. -/
theorem finish_printed {cap : ℕ} (hcap : 0 < cap) (status : Int) (pieces : List Text) :
    (pieces.flatten.length < cap ∧ finish (pieces.foldl Out.printf ⟨cap, [], false⟩) status =
      { Response.init with status, body := pieces.flatten }) ∨
    (cap ≤ pieces.flatten.length ∧ finish (pieces.foldl Out.printf ⟨cap, [], false⟩) status =
      { Response.init with
        status := 500
        body := if (errorBody "response too large").length < cap then
          errorBody "response too large" else [] }) := by
  rcases foldl_printf (o := ⟨cap, [], false⟩) rfl hcap pieces with ⟨hfits, ho⟩ | ⟨hover, ho⟩
  · rw [ho]
    exact Or.inl ⟨hfits, rfl⟩
  · rw [finish_overflow ho, foldl_printf_cap]
    exact Or.inr ⟨hover, rfl⟩

theorem response_status_body (f : Formatted) {cap : ℕ} (hcap : 0 < cap) :
    (f.text.length < cap ∧ (f.response cap).status = f.status ∧ (f.response cap).body = f.text) ∨
    (cap ≤ f.text.length ∧ (f.response cap).status = 500 ∧ (f.response cap).body =
      if (errorBody "response too large").length < cap then errorBody "response too large"
      else []) := by
  rw [Formatted.text, Formatted.response]
  cases f.body with
  | none => exact Or.inl ⟨hcap, rfl, rfl⟩
  | reply s =>
    have hs := finish_printed hcap f.status [s]
    simp only [List.foldl_cons, List.foldl_nil, ← reply_eq_printf] at hs
    rcases hs with ⟨hfits, hr⟩ | ⟨hover, hr⟩
    · exact Or.inl ⟨hfits, congrArg Response.status hr, congrArg Response.body hr⟩
    · exact Or.inr ⟨hover, congrArg Response.status hr, congrArg Response.body hr⟩
  | printed pieces =>
    rcases finish_printed hcap f.status pieces with ⟨hfits, hr⟩ | ⟨hover, hr⟩
    · exact Or.inl ⟨hfits, congrArg Response.status hr, congrArg Response.body hr⟩
    · exact Or.inr ⟨hover, congrArg Response.status hr, congrArg Response.body hr⟩

/-- On the bytes too: nothing is written outside the buffer, and it ends up in one of the three
ways. -/
theorem write_outcome (f : Formatted) (hcap : 0 < buf.length) :
    ∃ r, f.write buf = some r ∧ r.1.length = buf.length ∧ Outcome f buf.length r := by
  obtain ⟨r, hr, hc⟩ := write_carries f hcap
  refine ⟨r, hr, hc.size, ?_⟩
  rcases response_status_body f hcap with ⟨hfits, hs, hb⟩ | ⟨hover, hs, hb⟩
  · exact .complete hfits (hc.status.trans hs) (hc.len.trans (congrArg _ hb)) (hc.body.trans hb)
  · by_cases hroom : (errorBody "response too large").length < buf.length
    · rw [if_pos hroom] at hb
      exact .replaced hover hroom (hc.status.trans hs) (hc.len.trans (congrArg _ hb))
        (hc.body.trans hb)
    · rw [if_neg hroom] at hb
      exact .emptied hover (Nat.not_lt.mp hroom) (hc.status.trans hs)
        (hc.len.trans (congrArg _ hb))

def IsError (r : List UInt8 × ResponseAt) : Prop :=
  r.2.status = 500 ∧ (r.1.take r.2.len = errorBody "response too large" ∨ r.2.len = 0)

/-- One append that does not fit makes the whole body an error, whatever comes after it. -/
theorem Outcome.isError {f : Formatted} {cap : ℕ} {r : List UInt8 × ResponseAt}
    (h : Outcome f cap r) {before after : List Text} {s : Text}
    (hpieces : f.body.pieces = before ++ s :: after)
    (hover : cap ≤ before.flatten.length + s.length) : IsError r := by
  cases h with
  | complete fits =>
    rw [Formatted.text, hpieces, List.flatten_append, List.flatten_cons, List.length_append,
      List.length_append] at fits
    omega
  | replaced _ _ status _ body => exact ⟨status, Or.inl body⟩
  | emptied _ _ status len => exact ⟨status, Or.inr len⟩

end Bodies

end ZephyrApps.ReplyBuffers
