import Mathlib.Data.List.Perm.Basic
import ZephyrApps.SystemRuns
import ZephyrApps.VideoBuffers

/-!
# Calls of the video API

What an application does to the pool and to the driver, call by call, and when a call is
one that it may make. A buffer that is out of the pool is in the application's hands or
with the driver, in one place only; each call has its rule for what is in hand after it.
-/
namespace ZephyrApps.VideoCalls
open SystemRuns VideoBuffers

def exec (v : Video) : VideoCall → Video
  | .alloc b => v.alloc b
  | .release b => v.release b
  | .enqueue b => v.enqueue b
  | .dequeue b => v.dequeue b
  | .stop => v.stop
  | .fill n => v.fill n

/-- The buffer is out of the pool and not with the driver. -/
def InHand (v : Video) (b : VideoBuffer) : Prop := b ∈ v.out ∧ b ∉ v.queued ∧ b ∉ v.done

/-- What the application owes: it releases and enqueues only what it has, and gets from the
driver what was done first. -/
def Permits (v : Video) : VideoCall → Prop
  | .release b | .enqueue b => InHand v b
  | .dequeue b => v.done.head? = some b
  | .alloc _ | .stop | .fill _ => True

/-- What the pool owes: it gives out only what is free. -/
def Gives (v : Video) (c : VideoCall) : Prop := ∀ b ∈ v.out, c ≠ .alloc b

instance (v : Video) (b : VideoBuffer) : Decidable (InHand v b) := by
  unfold InHand
  infer_instance

instance (v : Video) (c : VideoCall) : Decidable (Permits v c) := by
  cases c <;> unfold Permits <;> infer_instance

instance (v : Video) (c : VideoCall) : Decidable (Gives v c) := by
  unfold Gives
  infer_instance

@[simp] theorem exec_log (v : Video) (c : VideoCall) : (exec v c).log = v.log ++ [c] := by
  cases c <;> rfl

theorem run_log (v : Video) (cs : List VideoCall) : (run exec v cs).log = v.log ++ cs := by
  induction cs generalizing v with
  | nil => exact (List.append_nil _).symm
  | cons c cs ih =>
    have hrest := ih (exec v c)
    rw [exec_log, List.append_assoc] at hrest
    exact hrest

/-- Calls that lead somewhere are those that are logged on the way. -/
theorem since_eq {v v' : Video} {cs : List VideoCall} (h : v' = run exec v cs) : v.since v' = cs := by
  rw [Video.since, h, run_log, List.drop_left]

/-- Of the buffers that are out the application has `mine`, and the driver the others, each
in one place. -/
structure Owned (v : Video) (mine : List VideoBuffer) : Prop where
  nodup : v.out.Nodup
  places : v.out.Perm (mine ++ (v.queued ++ v.done))

variable {v : Video} {mine mine' : List VideoBuffer} {b : VideoBuffer} {cs ds : List VideoCall}

theorem Owned.perm (h : Owned v mine) (hp : mine.Perm mine') : Owned v mine' :=
  ⟨h.nodup, h.places.trans (hp.append_right _)⟩

theorem Owned.places_nodup (h : Owned v mine) : (mine ++ (v.queued ++ v.done)).Nodup :=
  h.places.nodup_iff.mp h.nodup

theorem Owned.inHand (h : Owned v mine) (hb : b ∈ mine) : InHand v b := by
  have hnot := (List.nodup_append.mp h.places_nodup).2.2 b hb
  refine ⟨h.places.mem_iff.mpr (List.mem_append_left _ hb), fun hq => ?_, fun hd => ?_⟩
  · exact hnot b (List.mem_append_left _ hq) rfl
  · exact hnot b (List.mem_append_right _ hd) rfl

/-- The calls are all allowed, and leave the application with `mine`. -/
structure Moves (v : Video) (cs : List VideoCall) (mine : List VideoBuffer) : Prop where
  allowed : Meets exec Permits v cs
  owned : Owned (run exec v cs) mine

theorem Moves.nil (h : Owned v mine) : Moves v [] mine := ⟨meets_nil _ _ _, h⟩

theorem Moves.append (h : Moves v cs mine) (hnext : Moves (run exec v cs) ds mine') :
    Moves v (cs ++ ds) mine' := by
  refine ⟨meets_append.mpr ⟨h.allowed, hnext.allowed⟩, ?_⟩
  rw [run_append]
  exact hnext.owned

theorem moves_single {c : VideoCall} (hc : Permits v c) (h : Owned (exec v c) mine) :
    Moves v [c] mine :=
  ⟨meets_cons.mpr ⟨hc, meets_nil _ _ _⟩, h⟩

theorem Moves.cons {c : VideoCall} (hc : Permits v c) (h : Moves (exec v c) cs mine) :
    Moves v (c :: cs) mine :=
  ⟨meets_cons.mpr ⟨hc, h.allowed⟩, h.owned⟩

theorem Owned.alloc (h : Owned v mine) (hb : b ∉ v.out) : Owned (v.alloc b) (b :: mine) :=
  ⟨List.nodup_cons.mpr ⟨hb, h.nodup⟩, h.places.cons b⟩

theorem Owned.release (h : Owned v (b :: mine)) : Owned (v.release b) mine := by
  refine ⟨h.nodup.erase b, ?_⟩
  have hplaces := h.places.erase b
  rwa [List.cons_append, List.erase_cons_head] at hplaces

theorem Owned.enqueue (h : Owned v (b :: mine)) : Owned (v.enqueue b) mine := by
  refine ⟨h.nodup, h.places.trans ?_⟩
  have hmiddle : (b :: mine ++ (v.queued ++ v.done)).Perm (mine ++ v.queued ++ b :: v.done) := by
    rw [List.cons_append, ← List.append_assoc]
    exact List.perm_middle.symm
  simpa [Video.enqueue] using hmiddle

theorem dequeue_done {done : List VideoBuffer} (hd : v.done = b :: done) :
    (v.dequeue b).done = done := by
  rw [Video.dequeue, hd]
  rfl

theorem permits_dequeue {done : List VideoBuffer} (hd : v.done = b :: done) :
    Permits v (.dequeue b) := by
  simp [Permits, hd]

theorem Owned.dequeue {done : List VideoBuffer} (h : Owned v mine) (hd : v.done = b :: done) :
    Owned (v.dequeue b) (b :: mine) := by
  refine ⟨h.nodup, h.places.trans ?_⟩
  have hmiddle : (mine ++ v.queued ++ b :: done).Perm (b :: (mine ++ v.queued ++ done)) :=
    List.perm_middle
  simpa [Video.dequeue, hd] using hmiddle

theorem Owned.stop (h : Owned v mine) : Owned v.stop mine := by
  refine ⟨h.nodup, h.places.trans ?_⟩
  have hswap : (v.queued ++ v.done).Perm (v.done ++ v.queued) := List.perm_append_comm
  exact hswap.append_left mine

theorem Owned.fill (h : Owned v mine) (n : ℕ) : Owned (v.fill n) mine := by
  refine ⟨h.nodup, h.places.trans (List.Perm.append_left mine ?_)⟩
  have hsplit : v.queued.Perm (v.queued.drop n ++ v.queued.take n) := by
    nth_rewrite 1 [← List.take_append_drop n v.queued]
    exact List.perm_append_comm
  have hdone : (v.queued ++ v.done).Perm (v.queued.drop n ++ (v.queued.take n ++ v.done)) := by
    rw [← List.append_assoc]
    exact hsplit.append_right _
  exact hdone.trans (List.perm_append_comm.append_left _)

theorem Owned.mem_of_inHand (h : Owned v mine) (hb : InHand v b) : b ∈ mine := by
  rcases List.mem_append.mp (h.places.mem_iff.mp hb.1) with hm | hd
  · exact hm
  · rcases List.mem_append.mp hd with hq | hd
    · exact absurd hq hb.2.1
    · exact absurd hd hb.2.2

/-- With the driver is what is out and not in hand. -/
theorem Owned.mem_driver (h : Owned v mine) :
    b ∈ v.queued ++ v.done ↔ b ∈ v.out ∧ b ∉ mine := by
  constructor
  · intro hb
    refine ⟨h.places.mem_iff.mpr (List.mem_append_right _ hb), fun hm => ?_⟩
    exact (List.nodup_append.mp h.places_nodup).2.2 b hm b hb rfl
  · rintro ⟨hb, hm⟩
    exact (List.mem_append.mp (h.places.mem_iff.mp hb)).resolve_left hm

theorem Owned.release_inHand (h : Owned v mine) (hb : InHand v b) :
    Owned (v.release b) (mine.erase b) :=
  (h.perm (List.perm_cons_erase (h.mem_of_inHand hb))).release

theorem Owned.enqueue_inHand (h : Owned v mine) (hb : InHand v b) :
    Owned (v.enqueue b) (mine.erase b) :=
  (h.perm (List.perm_cons_erase (h.mem_of_inHand hb))).enqueue

/-- Every buffer that is done is dequeued, and released unless it is the one to keep. -/
def drainCalls (keep : Option VideoBuffer) (done : List VideoBuffer) : List VideoCall :=
  done.flatMap fun b => .dequeue b :: if some b ≠ keep then [.release b] else []

theorem drainCalls_cons (keep : Option VideoBuffer) (b : VideoBuffer) (done : List VideoBuffer) :
    drainCalls keep (b :: done) =
      (.dequeue b :: if some b ≠ keep then [.release b] else []) ++ drainCalls keep done :=
  List.flatMap_cons

def drainOne (keep : Option VideoBuffer) (v : Video) (b : VideoBuffer) : Video :=
  if some b ≠ keep then (v.dequeue b).release b else v.dequeue b

theorem run_drainCalls (keep : Option VideoBuffer) (v : Video) (done : List VideoBuffer) :
    run exec v (drainCalls keep done) = done.foldl (drainOne keep) v := by
  induction done generalizing v with
  | nil => rfl
  | cons b done ih =>
    rw [drainCalls_cons, run_append, List.foldl_cons, ih, drainOne]
    split <;> rfl

theorem foldl_drainOne_done (keep : Option VideoBuffer) (v : Video) (done : List VideoBuffer) :
    (done.foldl (drainOne keep) v).done = v.done.drop done.length := by
  induction done generalizing v with
  | nil => rfl
  | cons b done ih =>
    rw [List.foldl_cons, ih, drainOne, List.length_cons, Nat.add_comm, ← List.drop_drop,
      List.drop_one]
    split <;> rfl

theorem foldl_drainOne_queued (keep : Option VideoBuffer) (v : Video) (done : List VideoBuffer) :
    (done.foldl (drainOne keep) v).queued = v.queued := by
  induction done generalizing v with
  | nil => rfl
  | cons b done ih =>
    rw [List.foldl_cons, ih, drainOne]
    split <;> rfl

theorem moves_drain {keep : Option VideoBuffer} (h : Owned v mine) (hq : v.queued = [])
    (hkeep : ∀ b ∈ keep, b ∉ v.done) : Moves v (drainCalls keep v.done) mine := by
  generalize hd : v.done = done at hkeep
  induction done generalizing v with
  | nil => exact .nil h
  | cons b done ih =>
    have hne : some b ≠ keep := fun hb => hkeep b hb.symm (List.mem_cons_self)
    have htaken := h.dequeue hd
    have hreleased := htaken.release
    rw [drainCalls_cons, if_pos hne]
    refine .cons (permits_dequeue hd) (.cons (htaken.inHand List.mem_cons_self) ?_)
    exact ih hreleased hq (dequeue_done hd) fun c hc hmem => hkeep c hc (List.mem_cons_of_mem _ hmem)

end ZephyrApps.VideoCalls
