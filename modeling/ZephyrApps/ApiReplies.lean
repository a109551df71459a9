import ZephyrApps.CStrings

/-!
# Replies

The bounded appender of `api.c` and `struct pstop_api_response`. The body is what the
first `len` bytes of the caller's buffer hold; it is sent complete or not at all.
-/
namespace ZephyrApps.ApiReplies
open CStrings

/-- `PSTOP_API_BODY_MAX`, the capacity of the buffer that every caller passes -/
def pstopApiBodyMax : ℕ := 2048

/-- `struct out` -/
structure Out where
  cap : ℕ
  body : Text
  overflow : Bool

/-- `out_printf` of a text that is already formatted. -/
def Out.printf (o : Out) (s : Text) : Out :=
  if o.overflow then o
  else if o.cap - o.body.length ≤ s.length then { o with overflow := true }
  else { o with body := o.body ++ s }

/-- `struct pstop_api_response` -/
structure Response where
  status : Int
  body : Text
  authChallenge : Bool
  restart : Bool
  deriving DecidableEq

/-- `init_rsp` -/
def Response.init : Response := ⟨0, [], false, false⟩

/-- `{"ok":false,"error":` and a text. -/
def errorBody (err : String) : Text :=
  text "\x7b\"ok\":false,\"error\":\"" ++ text err ++ text "\"\x7d"

/-- `finish`, on a response that `init_rsp` cleared. -/
def finish (o : Out) (status : Int) : Response :=
  if o.overflow then
    let o := { o with body := [], overflow := false }.printf (errorBody "response too large")
    { Response.init with status := 500, body := o.body }
  else { Response.init with status, body := o.body }

/-- `reply`, on a response that `init_rsp` cleared. -/
def reply (cap : ℕ) (status : Int) (s : Text) : Response :=
  if cap ≤ s.length then finish ⟨cap, [], true⟩ status else finish ⟨cap, s, false⟩ status

/-- A reply is complete, or replaced by an error. -/
theorem reply_eq (cap : ℕ) (status : Int) (s : Text) : reply cap status s =
    if s.length < cap then { Response.init with status, body := s }
    else finish ⟨cap, [], true⟩ status := by
  rw [reply]
  by_cases h : cap ≤ s.length
  · rw [if_pos h, if_neg (Nat.not_lt.mpr h)]
  · rw [if_neg h, if_pos (Nat.not_le.mp h)]
    rfl

theorem reply_fits {cap : ℕ} {s : Text} (status : Int) (h : s.length < cap) :
    reply cap status s = { Response.init with status, body := s } := by
  rw [reply_eq, if_pos h]

/-- An overflow is an error of the server. -/
theorem finish_status (o : Out) (status : Int) :
    (finish o status).status = status ∨ (finish o status).status = 500 := by
  rw [finish]
  by_cases h : o.overflow = true
  · rw [if_pos h]
    exact Or.inr rfl
  · rw [if_neg h]
    exact Or.inl rfl

theorem reply_status (cap : ℕ) (status : Int) (s : Text) :
    (reply cap status s).status = status ∨ (reply cap status s).status = 500 := by
  rw [reply]
  by_cases h : cap ≤ s.length
  · rw [if_pos h]
    exact finish_status _ status
  · rw [if_neg h]
    exact finish_status _ status

section
variable {cap n k : ℕ} {o : Out}

/-- At most `n` characters were printed, and they fit. -/
structure Fits (cap n : ℕ) (o : Out) : Prop where
  total : o.cap = cap
  length : o.body.length ≤ n
  room : n < cap
  complete : o.overflow = false

theorem Fits.printf {s : Text} (h : Fits cap n o) (hs : s.length ≤ k) (hroom : n + k < cap) :
    Fits cap (n + k) (o.printf s) := by
  have hlength := h.length
  have hfree : ¬ o.cap - o.body.length ≤ s.length := by
    rw [h.total]
    omega
  have hcomplete : ¬ o.overflow = true := by simp [h.complete]
  rw [Out.printf, if_neg hcomplete, if_neg hfree]
  refine ⟨h.total, ?_, hroom, h.complete⟩
  rw [List.length_append]
  omega

/-- A loop that prints at most `k` characters for every item. -/
theorem Fits.foldl {ι : Type} {item : Out × Bool → ι → Out × Bool}
    (hitem : ∀ of i n, n + k < cap → Fits cap n of.1 → Fits cap (n + k) (item of i).1)
    (items : List ι) {of : Out × Bool} (h : Fits cap n of.1) (hroom : n + items.length * k < cap) :
    Fits cap (n + items.length * k) (items.foldl item of).1 := by
  induction items generalizing n of with
  | nil => simpa using h
  | cons i items ih =>
    rw [List.length_cons, Nat.succ_mul] at hroom ⊢
    have hi := hitem of i n (by omega) h
    have hrest := ih hi (by omega)
    rwa [Nat.add_comm (items.length * k), ← Nat.add_assoc]

theorem Fits.status (h : Fits cap n o) (status : Int) : (finish o status).status = status := by
  have hcomplete : ¬ o.overflow = true := by simp [h.complete]
  rw [finish, if_neg hcomplete]

end

end ZephyrApps.ApiReplies
