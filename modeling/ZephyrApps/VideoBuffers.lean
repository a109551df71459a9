import Mathlib.Data.List.Basic

/-!
# Video buffers

Where the buffers of Zephyr's video pool are: taken out of it, in the queue of a driver, or
filled and waiting to be dequeued. Each call is logged.
-/
namespace ZephyrApps.VideoBuffers

abbrev VideoBuffer := ℕ

/-- A call that did what it does, or the driver filling buffers. -/
inductive VideoCall where
  | alloc (b : VideoBuffer)
  | release (b : VideoBuffer)
  | enqueue (b : VideoBuffer)
  | dequeue (b : VideoBuffer)
  | stop
  | fill (n : ℕ)
  deriving DecidableEq

/-- Where the buffers are: out of the pool, in the driver, and waiting to be dequeued; and what was
done so far. -/
structure Video where
  out : List VideoBuffer
  queued : List VideoBuffer
  done : List VideoBuffer
  log : List VideoCall

def Video.record (v : Video) (c : VideoCall) : Video := { v with log := v.log ++ [c] }

@[simp] theorem record_out (v : Video) (c : VideoCall) : (v.record c).out = v.out := rfl
@[simp] theorem record_queued (v : Video) (c : VideoCall) : (v.record c).queued = v.queued := rfl
@[simp] theorem record_done (v : Video) (c : VideoCall) : (v.record c).done = v.done := rfl
@[simp] theorem record_log (v : Video) (c : VideoCall) : (v.record c).log = v.log ++ [c] := rfl

/-- `video_buffer_release` -/
def Video.release (v : Video) (b : VideoBuffer) : Video :=
  { v with out := v.out.erase b }.record (.release b)

/-- `video_buffer_aligned_alloc` that returned a buffer. -/
def Video.alloc (v : Video) (b : VideoBuffer) : Video :=
  { v with out := b :: v.out }.record (.alloc b)

/-- `video_enqueue` that succeeded. -/
def Video.enqueue (v : Video) (b : VideoBuffer) : Video :=
  { v with queued := v.queued ++ [b] }.record (.enqueue b)

/-- `video_dequeue` that returned a buffer. -/
def Video.dequeue (v : Video) (b : VideoBuffer) : Video :=
  { v with done := v.done.tail }.record (.dequeue b)

/-- The driver fills the first `n` buffers. -/
def Video.fill (v : Video) (n : ℕ) : Video :=
  { v with queued := v.queued.drop n, done := v.done ++ v.queued.take n }.record (.fill n)

/-- `video_stream_stop` -/
def Video.stop (v : Video) : Video :=
  { v with queued := [], done := v.done ++ v.queued }.record .stop

/-- What was done on the way from `v` to `v'`. -/
def Video.since (v v' : Video) : List VideoCall := v'.log.drop v.log.length

end ZephyrApps.VideoBuffers
