import ZephyrApps.LockstepThreads
import ZephyrApps.SessionSteps

/-!
# The loops of the comparator, round by round

`sendAll` is a function of the slot and `find?` an order of the slots. Here the
sending loop runs one round after the other, over the slots in any order, and the
whole of `comparator_pass` and `run_tick_body` with it.
-/
namespace ZephyrApps.ComparatorLoops
open Pstop AppSettings EstopVerdict PstopSession LockstepComparator LockstepThreads

/-- The sending loop of `comparator_pass`, over the slots as listed. -/
def sendLoop (sendto : Slot → Int) (order : List Slot) (L : Lockstep) : Lockstep :=
  order.foldl (fun L s => sendSlot L s (sendto s)) L

theorem sendSlot_eq (L : Lockstep) (s : Slot) (n : Int) :
    sendSlot L s n =
      { L with
        slots := Function.update L.slots s
          (if L.due s then
            pstopSessionCommitSend ((L.samplers 0).frames s) L.snap.nowMs n (L.slots s)
          else L.slots s) } := by
  unfold sendSlot
  split
  · rfl
  · rw [Function.update_eq_self]

/-- A round changes the session of its own slot, and no slot's activity. -/
@[simp] theorem sendSlot_due (L : Lockstep) (s s' : Slot) (n : Int) :
    (sendSlot L s n).due s' = L.due s' := by
  rw [sendSlot_eq]
  by_cases hs : s' = s
  · subst hs
    cases hd : L.due s' with
    | false => simpa [Lockstep.due, dueSlot] using hd
    | true => simpa [Lockstep.due, dueSlot] using hd
  · simp [Lockstep.due, dueSlot, Function.update_of_ne hs]

/-- After the loop every slot it visited has had its round, whatever the order. -/
theorem sendLoop_eq (sendto : Slot → Int) {order : List Slot} (hn : order.Nodup) (L : Lockstep) :
    sendLoop sendto order L =
      { L with
        slots := fun s =>
          if s ∈ order ∧ L.due s = true then
            pstopSessionCommitSend ((L.samplers 0).frames s) L.snap.nowMs (sendto s) (L.slots s)
          else L.slots s } := by
  induction order generalizing L with
  | nil => simp [sendLoop]
  | cons s order ih =>
    obtain ⟨hs, hn⟩ := List.nodup_cons.mp hn
    have hr : sendLoop sendto (s :: order) L = sendLoop sendto order (sendSlot L s (sendto s)) := rfl
    rw [hr, ih hn]
    simp only [sendSlot_due]
    simp only [sendSlot_eq]
    congr 1
    funext s'
    by_cases he : s' = s
    · subst he
      simp [hs]
    · simp [he]

theorem sendLoop_perm (sendto : Slot → Int) {order : List Slot}
    (h : order.Perm (List.finRange 4)) (L : Lockstep) :
    sendLoop sendto order L = L.sendAll sendto := by
  have hm (s : Slot) : s ∈ order := h.mem_iff.mpr (List.mem_finRange s)
  rw [sendLoop_eq sendto (h.nodup_iff.mpr (List.nodup_finRange 4))]
  simp [Lockstep.sendAll, hm]

/-- The comparing loop runs to its end, in any order, exactly if no encodings differ. -/
theorem find_differs_none {order : List Slot} (h : order.Perm (List.finRange 4)) (L : Lockstep) :
    order.find? L.differs = none ↔ ∀ s, L.differs s = false := by
  have hm (s : Slot) : s ∈ order := h.mem_iff.mpr (List.mem_finRange s)
  simp [hm]

/-- `comparator_pass`, both loops over the slots as listed; the code's order is
`List.finRange 4`. -/
def comparatorPassIn (order : List Slot) (L : Lockstep) (sendto : Slot → Int)
    (uptimeMs : UInt64) : Lockstep :=
  if !L.primed then { L with gatedTicks := L.gatedTicks + 1 }
  else
    (order.find? L.differs).elim (sendLoop sendto order L) fun s =>
      { L.recordMismatch uptimeMs s with mismatches := L.mismatches + 1 }

/-- The first part of `run_tick_body`, with the loops over the slots as listed. -/
def compareOrDeclineIn (order : List Slot) (L : Lockstep) (gen : UInt32)
    (lateMask : Channel → Bool) (lateByMs : UInt32) (sendto : Slot → Int) (uptimeMs : UInt64) :
    Lockstep :=
  let late := fun c => lateMask c || !decide ((L.samplers c).gen = gen)
  if !late 0 && !late 1 && samplersPublished L gen then
    (comparatorPassIn order L sendto uptimeMs).observe gen
  else
    { L with missedDeadlines := L.missedDeadlines + 1 }.recordLate uptimeMs late lateByMs

variable (p : PstopC)

/-- `run_tick_body`, with the loops of `comparator_pass` over the slots as listed. -/
def runTickBodyIn (order : List Slot) (L : Lockstep) (now : UInt64) (gen : UInt32)
    (lateMask : Channel → Bool) (lateByMs : UInt32) (sendto : Slot → Int) (uptimeMs : UInt64)
    (arrivals : Slot → List Datagram) : Lockstep :=
  let L := compareOrDeclineIn order L gen lateMask lateByMs sendto uptimeMs
  { L with slots := fun s => serviceSlot p now (arrivals s) (L.slots s) }

theorem comparatorPassIn_finRange (L : Lockstep) (sendto : Slot → Int) (uptimeMs : UInt64) :
    comparatorPassIn (List.finRange 4) L sendto uptimeMs = L.comparatorPass sendto uptimeMs := by
  unfold comparatorPassIn Lockstep.comparatorPass
  rw [sendLoop_perm sendto (.refl _)]
  cases (List.finRange 4).find? L.differs <;> rfl

theorem compareOrDeclineIn_finRange (L : Lockstep) (gen : UInt32) (lateMask : Channel → Bool)
    (lateByMs : UInt32) (sendto : Slot → Int) (uptimeMs : UInt64) :
    compareOrDeclineIn (List.finRange 4) L gen lateMask lateByMs sendto uptimeMs =
      L.compareOrDecline gen lateMask lateByMs sendto uptimeMs := by
  simp only [compareOrDeclineIn, Lockstep.compareOrDecline, comparatorPassIn_finRange]

theorem runTickBodyIn_finRange (L : Lockstep) (now : UInt64) (gen : UInt32)
    (lateMask : Channel → Bool) (lateByMs : UInt32) (sendto : Slot → Int) (uptimeMs : UInt64)
    (arrivals : Slot → List Datagram) :
    runTickBodyIn p (List.finRange 4) L now gen lateMask lateByMs sendto uptimeMs arrivals =
      L.runTickBody p now gen lateMask lateByMs sendto uptimeMs arrivals := by
  simp only [runTickBodyIn, Lockstep.runTickBody, compareOrDeclineIn_finRange]

end ZephyrApps.ComparatorLoops
