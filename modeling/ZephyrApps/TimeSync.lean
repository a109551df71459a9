import Mathlib.Algebra.Group.Nat.Defs
import ZephyrApps.DelayableWork

/-!
# Time synchronisation

`app_time.c`: two delayable work items, a resolver and a socket service that drive one another.
Times are in milliseconds of uptime.
-/
namespace ZephyrApps.TimeSync
open DelayableWork SystemRuns

inductive Family where
  | inet | inet6 | other
  deriving DecidableEq

structure NetAddr where
  family : Family
  addr : List UInt8
  port : UInt16
  deriving DecidableEq

/-- `struct sntp_time` -/
structure SntpTime where
  seconds : UInt64
  fraction : UInt32

/-- `struct timespec` -/
structure Timespec where
  tvSec : Int
  tvNsec : Int
  deriving DecidableEq

/-- `CONFIG_APP_TIME_*`, `LONG_MAX`, the families that are built in and what `net_ipaddr_parse`
makes of the server's name; and by how much the work queue runs an item late at most. -/
structure Setup where
  timeoutMs : ℕ
  retrySec : ℕ
  resyncSec : ℕ
  longMax : ℕ
  ipv4 : Bool
  ipv6 : Bool
  literal : Option NetAddr
  lag : ℕ

/-- The statics of `app_time.c`: `addr` is `none` while `sntp_addrlen` is `0`. The kernel's part:
whether the socket service has a socket, by when each query of the resolver ends, and what the
realtime clock was last set to. -/
structure Statics where
  started : Bool
  synced : Bool
  ipv4Up : Bool
  addr : Option NetAddr
  syncWork : Work
  sntpTimeoutWork : Work
  listening : Bool
  resolving : List ℕ
  clock : Option Timespec
  deriving DecidableEq

def Statics.init : Statics := ⟨false, false, false, none, none, none, false, [], none⟩

/-- `SNTP_SERVER_PORT` -/
def sntpServerPort : UInt16 := 123

/-- `net_port_set_default` -/
def setDefaultPort (a : NetAddr) : NetAddr :=
  { a with port := if a.port = 0 then sntpServerPort else a.port }

/-- `sntp_fraction_to_nsec` -/
def sntpFractionToNsec (fraction : UInt32) : UInt32 :=
  ((fraction.toUInt64 * 1000000000) >>> 32).toUInt32

/-- `schedule_next` -/
def scheduleNext (c : Setup) (success : Bool) (t : ℕ) (s : Statics) : Statics :=
  { s with syncWork := reschedule (t + (if success then c.resyncSec else c.retrySec) * 1000) }

/-- `set_clock_from_sntp`, with what `sys_clock_settime` returns. -/
def setClockFromSntp (c : Setup) (ts : SntpTime) (settime : Int) (s : Statics) : Bool × Statics :=
  if c.longMax < ts.seconds.toNat then (false, s)
  else if settime < 0 then (false, s)
  else (true, { s with
    synced := true, clock := some ⟨ts.seconds.toNat, (sntpFractionToNsec ts.fraction).toNat⟩ })

/-- What `sntp_init_async` and `sntp_send_async` return. -/
structure Query where
  init : Int
  send : Int

/-- `start_sntp_query` -/
def startSntpQuery (c : Setup) (q : Query) (t : ℕ) (s : Statics) : Int × Statics :=
  if q.init < 0 then (q.init, s)
  else if q.send < 0 then (q.send, { s with listening := false })
  else (0, { s with listening := true, sntpTimeoutWork := reschedule (t + c.timeoutMs) })

def queryOrRetry (c : Setup) (q : Query) (t : ℕ) (s : Statics) : Statics :=
  let r := startSntpQuery c q t s
  if r.1 < 0 then scheduleNext c false t r.2 else r.2

/-- `parse_sntp_server_addr` -/
def parseSntpServerAddr (c : Setup) : Option NetAddr :=
  c.literal.bind fun a =>
    if (c.ipv4 ∧ a.family = .inet) ∨ (c.ipv6 ∧ a.family = .inet6) then some (setDefaultPort a)
    else none

/-- `enum dns_resolve_status`, with all the other codes as one. -/
inductive DnsStatus where
  | inprogress | alldone | canceled | fail | other
  deriving DecidableEq

def noteAddr (c : Setup) (info : Option NetAddr) (s : Statics) : Statics :=
  match info with
  | none => s
  | some a =>
    if s.addr = none ∧ c.ipv4 ∧ a.family = .inet then
      { s with addr := some ⟨.inet, a.addr, sntpServerPort⟩ }
    else s

/-- `dns_result_cb` -/
def dnsResultCb (c : Setup) (status : DnsStatus) (info : Option NetAddr) (q : Query) (t : ℕ)
    (s : Statics) : Statics :=
  match status with
  | .canceled => scheduleNext c false t s
  | .fail => scheduleNext c false t s
  | .alldone => if s.addr = none then scheduleNext c false t s else queryOrRetry c q t s
  | .other => s
  | .inprogress => noteAddr c info s

/-- `sync_work_handler`, with what `dns_get_addr_info` returns. -/
def syncWorkHandler (c : Setup) (dns : Int) (q : Query) (t : ℕ) (s : Statics) : Statics :=
  if !s.ipv4Up then scheduleNext c false t s
  else
    match parseSntpServerAddr c with
    | some a => queryOrRetry c q t { s with addr := some a }
    | none =>
      if dns < 0 then scheduleNext c false t { s with addr := none }
      else { s with addr := none, resolving := s.resolving ++ [t + c.timeoutMs] }

/-- `sntp_timeout_handler` -/
def sntpTimeoutHandler (c : Setup) (t : ℕ) (s : Statics) : Statics :=
  scheduleNext c false t { s with listening := false }

/-- `sntp_service_handler`, with what `sntp_read_async` yields. -/
def sntpServiceHandler (c : Setup) (read : Except Int SntpTime) (settime : Int) (t : ℕ)
    (s : Statics) : Statics :=
  let r := match read with
    | .error _ => (false, s)
    | .ok ts => setClockFromSntp c ts settime s
  scheduleNext c r.1 t { r.2 with listening := false, sntpTimeoutWork := none }

/-- `l4_handler` -/
def l4Handler (connected : Bool) (t : ℕ) (s : Statics) : Statics :=
  let s := { s with ipv4Up := connected }
  if connected then { s with syncWork := schedule s.syncWork t } else s

/-- `app_time_synced` -/
def appTimeSynced (s : Statics) : Bool := s.synced

/-- `struct app_ros_time` -/
structure AppRosTime where
  sec : UInt32
  nanosec : UInt32
  deriving DecidableEq

/-- `app_time_now`, with what `sys_clock_gettime` returns. -/
def appTimeNow (s : Statics) (gettime : Int) (tspec : Timespec) : AppRosTime :=
  if !appTimeSynced s then ⟨0, 0⟩
  else if gettime < 0 ∨ tspec.tvSec < 0 ∨ 4294967295 < tspec.tvSec ∨ tspec.tvNsec < 0 ∨
      1000000000 ≤ tspec.tvNsec then ⟨0, 0⟩
  else ⟨UInt32.ofNat tspec.tvSec.toNat, UInt32.ofNat tspec.tvNsec.toNat⟩

inductive Event where
  | start
  | l4 (connected : Bool)
  | sync (dns : Int) (q : Query)
  | resolved (i : ℕ) (status : DnsStatus) (info : Option NetAddr) (q : Query)
  | answer (read : Except Int SntpTime) (settime : Int)
  | timeout
  | pass

def Due (w : Work) (t : ℕ) : Prop := ∃ d ∈ w, d ≤ t

instance (w : Work) (t : ℕ) : Decidable (Due w t) :=
  match w with
  | none => isFalse fun h => h.elim fun _ hd => Option.some_ne_none _ hd.1.symm
  | some d => decidable_of_iff (d ≤ t)
      ⟨fun h => ⟨d, rfl, h⟩, fun h => h.elim fun _ hd => Option.some.inj hd.1 ▸ hd.2⟩

/-- A step: the callbacks are there once the module has been started, an item runs when it is
due, and the resolver and the socket service call back for what they have been given. -/
def step (c : Setup) (s : Statics) (t : ℕ) : Event → Option Statics
  | .start => some { s with started := true }
  | .l4 connected => if s.started then some (l4Handler connected t s) else none
  | .sync dns q =>
    if Due s.syncWork t then some (syncWorkHandler c dns q t { s with syncWork := none }) else none
  | .resolved i status info q =>
    if i < s.resolving.length then
      some (dnsResultCb c status info q t
        (if status = .inprogress then s else { s with resolving := s.resolving.eraseIdx i }))
    else none
  | .answer read settime =>
    if s.listening then some (sntpServiceHandler c read settime t s) else none
  | .timeout =>
    if Due s.sntpTimeoutWork t then
      some (sntpTimeoutHandler c t { s with sntpTimeoutWork := none })
    else none
  | .pass => some s

/-- The queue runs its items in time, and the resolver ends its queries in time. -/
def deadlines (c : Setup) (s : Statics) : List ℕ :=
  runsBy c.lag s.syncWork ++ runsBy c.lag s.sntpTimeoutWork ++ s.resolving

/-- A server that is looked up by its name, and 20 ms of latency. -/
def pool : Setup := ⟨3000, 15, 3600, 2147483647, true, false, none, 20⟩

/-- The link comes up, the name is resolved, the server answers. -/
def firstSync : List (ℕ × Event) :=
  [(0, .start), (100, .l4 true), (101, .sync 0 ⟨0, 0⟩),
    (120, .resolved 0 .inprogress (some ⟨.inet, [10, 0, 0, 1], 0⟩) ⟨0, 0⟩),
    (121, .resolved 0 .alldone none ⟨0, 0⟩), (150, .answer (.ok ⟨1700000000, 0⟩) 0)]

def afterFirstSync : Statics :=
  ⟨true, true, true, some ⟨.inet, [10, 0, 0, 1], 123⟩, some 3600150, none, false, [],
    some ⟨1700000000, 0⟩⟩

theorem firstSync_run :
    timedRun (deadlines pool) (step pool) .init firstSync = some ⟨150, afterFirstSync⟩ := rfl

variable {c : Setup} {s s' : Statics} {t a d : ℕ} {past : List (ℕ × Event)}

def retryMs (c : Setup) : ℕ := max c.retrySec c.resyncSec * 1000

/-- What is pending is due soon after an attempt at time `a`. -/
structure Paced (c : Setup) (a : ℕ) (s : Statics) : Prop where
  resolving : ∀ d ∈ s.resolving, d ≤ a + c.timeoutMs
  timeout : ∀ d, s.sntpTimeoutWork = some d → d ≤ a + 2 * c.timeoutMs
  sync : ∀ d, s.syncWork = some d → d ≤ a + 2 * c.timeoutMs + c.lag + retryMs c
  listening : s.listening = true → ∃ d, s.sntpTimeoutWork = some d

def Alive (s : Statics) : Prop :=
  (∃ d, s.syncWork = some d) ∨ (∃ d, s.sntpTimeoutWork = some d) ∨ s.resolving ≠ []

theorem Paced.later {b : ℕ} (h : Paced c a s) (hab : a ≤ b) : Paced c b s := by
  refine ⟨fun d hd => ?_, fun d hd => ?_, fun d hd => ?_, h.listening⟩
  · have := h.resolving d hd
    omega
  · have := h.timeout d hd
    omega
  · have := h.sync d hd
    omega

theorem wait_le (c : Setup) (success : Bool) :
    (if success then c.resyncSec else c.retrySec) * 1000 ≤ retryMs c := by
  apply Nat.mul_le_mul_right
  cases success with
  | true => exact Nat.le_max_right _ _
  | false => exact Nat.le_max_left _ _

theorem scheduleNext_alive (success : Bool) : Alive (scheduleNext c success t s) :=
  .inl ⟨_, rfl⟩

theorem Paced.scheduleNext (success : Bool) (h : Paced c a s)
    (ht : t ≤ a + 2 * c.timeoutMs + c.lag) : Paced c a (scheduleNext c success t s) := by
  refine ⟨h.resolving, h.timeout, fun d hd => ?_, h.listening⟩
  have hw := wait_le c success
  cases hd
  omega

theorem queryOrRetry_paced (q : Query) (h : Paced c a s) (ht : t ≤ a + c.timeoutMs) :
    Paced c a (queryOrRetry c q t s) ∧ Alive (queryOrRetry c q t s) := by
  have hlate : t ≤ a + 2 * c.timeoutMs + c.lag := by omega
  have hclosed : Paced c a { s with listening := false } :=
    ⟨h.resolving, h.timeout, h.sync, fun hl => absurd hl Bool.false_ne_true⟩
  unfold queryOrRetry startSntpQuery
  by_cases hinit : q.init < 0
  · rw [if_pos hinit, if_pos hinit]
    exact ⟨h.scheduleNext false hlate, scheduleNext_alive false⟩
  · rw [if_neg hinit]
    by_cases hsend : q.send < 0
    · rw [if_pos hsend, if_pos hsend]
      exact ⟨hclosed.scheduleNext false hlate, scheduleNext_alive false⟩
    · rw [if_neg hsend, if_neg (Int.lt_irrefl 0)]
      refine ⟨⟨h.resolving, fun d hd => ?_, h.sync, fun _ => ⟨_, rfl⟩⟩, .inr (.inl ⟨_, rfl⟩)⟩
      cases hd
      omega

theorem syncWorkHandler_paced (dns : Int) (q : Query) (h : Paced c t s) :
    Paced c t (syncWorkHandler c dns q t s) ∧ Alive (syncWorkHandler c dns q t s) := by
  have hnow : t ≤ t + 2 * c.timeoutMs + c.lag := by omega
  have haddr (up : Bool) (o : Option NetAddr) : Paced c t { s with ipv4Up := up, addr := o } :=
    ⟨h.resolving, h.timeout, h.sync, h.listening⟩
  unfold syncWorkHandler
  cases s.ipv4Up with
  | false => exact ⟨h.scheduleNext false hnow, scheduleNext_alive false⟩
  | true =>
    rw [Bool.not_true, if_neg Bool.false_ne_true]
    cases parseSntpServerAddr c with
    | some addr => exact queryOrRetry_paced q (haddr true _) (Nat.le_add_right _ _)
    | none =>
      by_cases hdns : dns < 0
      · simp only [if_pos hdns]
        exact ⟨(haddr true none).scheduleNext false hnow, scheduleNext_alive false⟩
      · simp only [if_neg hdns]
        refine ⟨⟨fun d hd => ?_, h.timeout, h.sync, h.listening⟩, .inr (.inr ?_)⟩
        · rcases List.mem_append.mp hd with hold | hnew
          · exact h.resolving d hold
          · exact (List.mem_singleton.mp hnew).le
        · exact List.append_ne_nil_of_right_ne_nil _ (List.cons_ne_nil _ _)

/-- The end of a query of the resolver, with a code that the module knows. -/
theorem dnsResultCb_paced {status : DnsStatus} (info : Option NetAddr) (q : Query)
    (hstatus : status = .canceled ∨ status = .fail ∨ status = .alldone) (h : Paced c a s)
    (ht : t ≤ a + c.timeoutMs) :
    Paced c a (dnsResultCb c status info q t s) ∧ Alive (dnsResultCb c status info q t s) := by
  have hlate : t ≤ a + 2 * c.timeoutMs + c.lag := by omega
  have hretry : Paced c a (scheduleNext c false t s) ∧ Alive (scheduleNext c false t s) :=
    ⟨h.scheduleNext false hlate, scheduleNext_alive false⟩
  rcases hstatus with rfl | rfl | rfl
  · exact hretry
  · exact hretry
  · unfold dnsResultCb
    by_cases haddr : s.addr = none
    · simp only [if_pos haddr]
      exact hretry
    · simp only [if_neg haddr]
      exact queryOrRetry_paced q h ht

def Event.Attempt : Event → Prop
  | .sync _ _ => True
  | _ => False

/-- A query of the resolver ends with a code that `dns_result_cb` does not look for. -/
def Event.Lost : Event → Prop
  | .resolved _ .other _ _ => True
  | _ => False

theorem mem_deadlines : d ∈ deadlines c s ↔
    (∃ due, s.syncWork = some due ∧ due + c.lag = d) ∨
      (∃ due, s.sntpTimeoutWork = some due ∧ due + c.lag = d) ∨ d ∈ s.resolving := by
  rw [deadlines, List.mem_append, List.mem_append, mem_runsBy, mem_runsBy, or_assoc]

/-- Where a state paced by an attempt allows time to go. -/
theorem Paced.le_of_alive (h : Paced c a s) (halive : Alive s)
    (hd : ∀ d ∈ deadlines c s, t ≤ d) :
    t ≤ a + 2 * c.timeoutMs + 2 * c.lag + retryMs c ∧
      (s.syncWork = none → t ≤ a + 2 * c.timeoutMs + c.lag) := by
  have hother (hle : t ≤ a + 2 * c.timeoutMs + c.lag) :
      t ≤ a + 2 * c.timeoutMs + 2 * c.lag + retryMs c ∧
        (s.syncWork = none → t ≤ a + 2 * c.timeoutMs + c.lag) := ⟨by omega, fun _ => hle⟩
  rcases halive with ⟨due, hdue⟩ | ⟨due, hdue⟩ | hne
  · have hle := hd _ (mem_deadlines.mpr (.inl ⟨due, hdue, rfl⟩))
    have hsync := h.sync due hdue
    exact ⟨by omega, fun hn => absurd (hn.symm.trans hdue) (Option.some_ne_none _).symm⟩
  · have hle := hd _ (mem_deadlines.mpr (.inr (.inl ⟨due, hdue, rfl⟩)))
    have htimeout := h.timeout due hdue
    exact hother (by omega)
  · obtain ⟨d, hmem⟩ := List.exists_mem_of_ne_nil _ hne
    have hle := hd d (mem_deadlines.mpr (.inr (.inr hmem)))
    have hres := h.resolving d hmem
    exact hother (by omega)

theorem Paced.ended (h : Paced c a s) (i : ℕ) :
    Paced c a { s with resolving := s.resolving.eraseIdx i } :=
  ⟨fun d hd => h.resolving d (List.mem_of_mem_eraseIdx hd), h.timeout, h.sync, h.listening⟩

theorem noteAddr_paced (info : Option NetAddr) (h : Paced c a s) (halive : Alive s) :
    Paced c a (noteAddr c info s) ∧ Alive (noteAddr c info s) := by
  unfold noteAddr
  cases info with
  | none => exact ⟨h, halive⟩
  | some addr =>
    dsimp only
    split
    · exact ⟨⟨h.resolving, h.timeout, h.sync, h.listening⟩, halive⟩
    · exact ⟨h, halive⟩

theorem setClockFromSntp_paced (ts : SntpTime) (settime : Int) (h : Paced c a s) :
    Paced c a (setClockFromSntp c ts settime s).2 := by
  unfold setClockFromSntp
  split
  · exact h
  split
  · exact h
  · exact ⟨h.resolving, h.timeout, h.sync, h.listening⟩

theorem Paced.closed (h : Paced c a s) :
    Paced c a { s with listening := false, sntpTimeoutWork := none } :=
  ⟨h.resolving, fun _ hd => absurd hd (Option.some_ne_none _).symm, h.sync,
    fun hl => absurd hl Bool.false_ne_true⟩

theorem step_resolved {i : ℕ} {status : DnsStatus} {info : Option NetAddr} {q : Query}
    (h : Paced c a s) (halive : Alive s) (hd : ∀ d ∈ deadlines c s, t ≤ d)
    (hs : step c s t (.resolved i status info q) = some s') (hkept : status ≠ .other) :
    Paced c a s' ∧ Alive s' := by
  obtain ⟨hi, he⟩ := Option.ite_none_right_eq_some.mp hs
  have hmem : s.resolving[i] ∈ s.resolving := List.getElem_mem hi
  have hle := hd _ (mem_deadlines.mpr (.inr (.inr hmem)))
  have ht : t ≤ a + c.timeoutMs := hle.trans (h.resolving _ hmem)
  cases he
  by_cases hp : status = .inprogress
  · rw [hp, if_pos rfl]
    exact noteAddr_paced info h halive
  · rw [if_neg hp]
    apply dnsResultCb_paced info q _ (h.ended i) ht
    cases status with
    | inprogress => exact absurd rfl hp
    | alldone => exact .inr (.inr rfl)
    | canceled => exact .inl rfl
    | fail => exact .inr (.inl rfl)
    | other => exact absurd rfl hkept

theorem Paced.syncing (h : Paced c a s) : Paced c a { s with syncWork := none } :=
  ⟨h.resolving, h.timeout, fun _ hn => absurd hn (Option.some_ne_none _).symm, h.listening⟩

/-- A server query ends in time. -/
theorem Paced.le_of_timeout (h : Paced c a s) (hd : ∀ d ∈ deadlines c s, t ≤ d)
    (hdue : s.sntpTimeoutWork = some d) : t ≤ a + 2 * c.timeoutMs + c.lag := by
  have hle := hd _ (mem_deadlines.mpr (.inr (.inl ⟨d, hdue, rfl⟩)))
  have htimeout := h.timeout d hdue
  omega

/-- Every step keeps the pace, and an attempt sets it anew. -/
theorem step_paced {e : Event} (h : Paced c a s) (halive : Alive s) (hat : a ≤ t)
    (hd : ∀ d ∈ deadlines c s, t ≤ d) (hs : step c s t e = some s') (hkept : ¬ e.Lost) :
    (Paced c a s' ∨ e.Attempt ∧ Paced c t s') ∧ Alive s' := by
  have hallowed := h.le_of_alive halive hd
  cases e with
  | start =>
    cases hs
    exact ⟨.inl ⟨h.resolving, h.timeout, h.sync, h.listening⟩, halive⟩
  | pass =>
    cases hs
    exact ⟨.inl h, halive⟩
  | l4 connected =>
    obtain ⟨-, he⟩ := Option.ite_none_right_eq_some.mp hs
    cases he
    cases connected with
    | false => exact ⟨.inl ⟨h.resolving, h.timeout, h.sync, h.listening⟩, halive⟩
    | true =>
      refine ⟨.inl ⟨h.resolving, h.timeout, fun d hsync => ?_, h.listening⟩, .inl ⟨_, rfl⟩⟩
      cases hw : s.syncWork with
      | some due =>
        have he : schedule s.syncWork t = some due := by rw [hw, schedule_some]
        cases he.symm.trans hsync
        exact h.sync d hw
      | none =>
        have he : schedule s.syncWork t = some t := by rw [hw, schedule_none]
        cases he.symm.trans hsync
        have := hallowed.2 hw
        omega
  | sync dns q =>
    obtain ⟨-, he⟩ := Option.ite_none_right_eq_some.mp hs
    cases he
    have hp := syncWorkHandler_paced dns q (h.later hat).syncing
    exact ⟨.inr ⟨trivial, hp.1⟩, hp.2⟩
  | resolved i status info q =>
    have hother : status ≠ .other := by
      rintro rfl
      exact hkept trivial
    have hp := step_resolved h halive hd hs hother
    exact ⟨.inl hp.1, hp.2⟩
  | answer read settime =>
    obtain ⟨hl, he⟩ := Option.ite_none_right_eq_some.mp hs
    obtain ⟨due, hdue⟩ := h.listening hl
    have ht := h.le_of_timeout hd hdue
    cases he
    refine ⟨.inl ?_, scheduleNext_alive _⟩
    cases read with
    | error e => exact h.closed.scheduleNext false ht
    | ok ts => exact (setClockFromSntp_paced ts settime h).closed.scheduleNext _ ht
  | timeout =>
    obtain ⟨⟨due, hdue, -⟩, he⟩ := Option.ite_none_right_eq_some.mp hs
    have ht := h.le_of_timeout hd hdue
    cases he
    exact ⟨.inl (h.closed.scheduleNext false ht), scheduleNext_alive false⟩

/-- Before the first attempt nothing but that attempt can be pending, and it is since the link came
up first. -/
structure Waiting (past : List (ℕ × Event)) (now : ℕ) (s : Statics) : Prop where
  quiet : s.resolving = [] ∧ s.sntpTimeoutWork = none ∧ s.listening = false
  due : ∀ d, s.syncWork = some d → d ≤ now ∧ ∀ up, (up, .l4 true) ∈ past → d ≤ up
  up : ∀ up, (up, .l4 true) ∈ past → ∃ d, s.syncWork = some d

/-- The last attempt of a history sets the pace, if there has been one. -/
def Going (c : Setup) (past : List (ℕ × Event)) (v : Timed Statics) : Prop :=
  (∃ a e, (a, e) ∈ past ∧ e.Attempt ∧ a ≤ v.now ∧ Paced c a v.state ∧ Alive v.state) ∨
    Waiting past v.now v.state

theorem Waiting.paced (h : Waiting past t s) : Paced c t s := by
  obtain ⟨hres, htimeout, hl⟩ := h.quiet
  refine ⟨fun d hd => ?_, fun d hd => ?_, fun d hd => ?_, fun ht => ?_⟩
  · rw [hres] at hd
    cases hd
  · rw [htimeout] at hd
    cases hd
  · have := (h.due d hd).1
    omega
  · rw [hl] at ht
    cases ht

theorem mem_of_mem_concat {e : Event} {up : ℕ} (he : e ≠ .l4 true)
    (h : (up, .l4 true) ∈ past ++ [(t, e)]) : (up, .l4 true) ∈ past := by
  rcases List.mem_append.mp h with hold | hnew
  · exact hold
  · cases List.mem_singleton.mp hnew
    exact absurd rfl he

/-- An event that leaves the work item alone goes on waiting. -/
theorem Waiting.later {now : ℕ} {e : Event} (h : Waiting past now s) (hnow : now ≤ t)
    (he : e ≠ .l4 true) (hq : s'.resolving = s.resolving ∧
      s'.sntpTimeoutWork = s.sntpTimeoutWork ∧ s'.listening = s.listening)
    (hw : s'.syncWork = s.syncWork) : Waiting (past ++ [(t, e)]) t s' := by
  obtain ⟨hres, htimeout, hl⟩ := h.quiet
  refine ⟨⟨hq.1.trans hres, hq.2.1.trans htimeout, hq.2.2.trans hl⟩, fun d hd => ?_,
    fun up hup => ?_⟩
  · obtain ⟨hle, hups⟩ := h.due d (hw ▸ hd)
    exact ⟨hle.trans hnow, fun up hup => hups up (mem_of_mem_concat he hup)⟩
  · exact hw ▸ h.up up (mem_of_mem_concat he hup)

theorem Waiting.connected {now : ℕ} (h : Waiting past now s) (hnow : now ≤ t) :
    Waiting (past ++ [(t, .l4 true)]) t (l4Handler true t s) := by
  refine ⟨h.quiet, fun d hd => ?_, fun _ _ => ⟨_, rfl⟩⟩
  have hmem (up : ℕ) (hup : (up, Event.l4 true) ∈ past ++ [(t, .l4 true)]) :
      (up, .l4 true) ∈ past ∨ up = t := by
    rcases List.mem_append.mp hup with hold | hnew
    · exact .inl hold
    · exact .inr (Prod.mk.inj (List.mem_singleton.mp hnew)).1
  cases hw : s.syncWork with
  | some due =>
    have he : schedule s.syncWork t = some due := by rw [hw, schedule_some]
    cases he.symm.trans hd
    obtain ⟨hle, hups⟩ := h.due d hw
    refine ⟨hle.trans hnow, fun up hup => ?_⟩
    rcases hmem up hup with hold | rfl
    · exact hups up hold
    · exact hle.trans hnow
  | none =>
    have he : schedule s.syncWork t = some t := by rw [hw, schedule_none]
    cases he.symm.trans hd
    refine ⟨Nat.le_refl t, fun up hup => ?_⟩
    rcases hmem up hup with hold | rfl
    · obtain ⟨d, hsome⟩ := h.up up hold
      cases hw.symm.trans hsome
    · exact Nat.le_refl up

theorem waiting_step {now : ℕ} {e : Event} (h : Waiting past now s) (hnow : now ≤ t)
    (hs : step c s t e = some s') :
    (e.Attempt ∧ Paced c t s' ∧ Alive s') ∨ Waiting (past ++ [(t, e)]) t s' := by
  obtain ⟨hres, htimeout, hl⟩ := h.quiet
  cases e with
  | start =>
    cases hs
    exact .inr (h.later hnow Event.noConfusion ⟨rfl, rfl, rfl⟩ rfl)
  | pass =>
    cases hs
    exact .inr (h.later hnow Event.noConfusion ⟨rfl, rfl, rfl⟩ rfl)
  | l4 connected =>
    obtain ⟨-, he⟩ := Option.ite_none_right_eq_some.mp hs
    cases he
    cases connected with
    | true => exact .inr (h.connected hnow)
    | false =>
      refine .inr (h.later hnow (fun he => ?_) ⟨rfl, rfl, rfl⟩ rfl)
      cases he
  | sync dns q =>
    obtain ⟨-, he⟩ := Option.ite_none_right_eq_some.mp hs
    cases he
    exact .inl ⟨trivial, syncWorkHandler_paced dns q (h.paced.later hnow).syncing⟩
  | resolved i status info q =>
    obtain ⟨hi, -⟩ := Option.ite_none_right_eq_some.mp hs
    rw [hres] at hi
    cases hi
  | answer read settime =>
    obtain ⟨ht, -⟩ := Option.ite_none_right_eq_some.mp hs
    cases hl.symm.trans ht
  | timeout =>
    obtain ⟨⟨d, hd, -⟩, -⟩ := Option.ite_none_right_eq_some.mp hs
    cases htimeout.symm.trans hd

theorem going (c : Setup) {es : List (ℕ × Event)} {v : Timed Statics}
    (h : timedRun (deadlines c) (step c) .init es = some v) :
    (∀ e ∈ es, ¬ e.2.Lost) → Going c es v := by
  refine timedRun_induction (I := fun es v => (∀ e ∈ es, ¬ e.2.Lost) → Going c es v) ?_ ?_ h
  · intro _
    exact .inr ⟨⟨rfl, rfl, rfl⟩, fun _ hd => absurd hd (Option.some_ne_none _).symm,
      fun _ hup => absurd hup List.not_mem_nil⟩
  · intro past v t e u ih hnow hd hs hkept
    have hlast : (t, e) ∈ past ++ [(t, e)] := List.mem_append_right _ (List.mem_singleton.mpr rfl)
    have hpast := ih fun x hx => hkept x (List.mem_append_left _ hx)
    rcases hpast with ⟨a, x, hx, hatt, hle, hpaced, halive⟩ | hwait
    · obtain ⟨hstep, halive'⟩ := step_paced hpaced halive (hle.trans hnow) hd hs (hkept _ hlast)
      rcases hstep with hp | ⟨ha, hp⟩
      · exact .inl ⟨a, x, List.mem_append_left _ hx, hatt, hle.trans hnow, hp, halive'⟩
      · exact .inl ⟨t, e, hlast, ha, Nat.le_refl t, hp, halive'⟩
    · rcases waiting_step hwait hnow hs with ⟨ha, hp, halive⟩ | hw
      · exact .inl ⟨t, e, hlast, ha, Nat.le_refl t, hp, halive⟩
      · exact .inr hw

/-- It never stalls. From the first time the link has come up, the next synchronisation is never
further away than the timeouts of the resolver and of a query and the longer of the two waits,
whatever fails in between; unless a query of the resolver ends with a code that is not looked for. -/
theorem never_stalls (c : Setup) (past future : List (ℕ × Event)) (e : ℕ × Event)
    {v : Timed Statics} (h : timedRun (deadlines c) (step c) .init (past ++ e :: future) = some v)
    (hkept : ∀ e ∈ past, ¬ e.2.Lost) (up : ℕ) (hup : (up, .l4 true) ∈ past) :
    e.1 ≤ up + c.lag ∨ ∃ a dns q, (a, .sync dns q) ∈ past ∧
      e.1 ≤ a + 2 * c.timeoutMs + 2 * c.lag + retryMs c := by
  obtain ⟨u, w, hu, hnow, hd, hstep⟩ := timedRun_past h
  rcases going c hu hkept with ⟨a, x, hx, hatt, hle, hpaced, halive⟩ | hwait
  · cases x with
    | sync dns q => exact .inr ⟨a, dns, q, hx, (hpaced.le_of_alive halive hd).1⟩
    | _ => exact hatt.elim
  · obtain ⟨d, hdue⟩ := hwait.up up hup
    have hle := hd _ (mem_deadlines.mpr (.inl ⟨d, hdue, rfl⟩))
    have hup' := (hwait.due d hdue).2 up hup
    exact .inl (by omega)

theorem never_stalls_hour : 3600160 ≤ 100 + pool.lag ∨ ∃ a dns q, (a, .sync dns q) ∈ firstSync ∧
    3600160 ≤ a + 2 * pool.timeoutMs + 2 * pool.lag + retryMs pool :=
  never_stalls pool firstSync [] (3600160, .pass) (v := ⟨3600160, afterFirstSync⟩) rfl
    (by simp [firstSync, Event.Lost]) 100 (by simp [firstSync])

/-- Nothing is in flight; the next synchronisation may be pending. -/
def Resting (s : Statics) : Prop :=
  s.sntpTimeoutWork = none ∧ s.resolving = [] ∧ s.listening = false

def Querying (s : Statics) : Prop :=
  s.syncWork = none ∧ s.resolving = [] ∧ s.listening = true ∧ ∃ d, s.sntpTimeoutWork = some d

def Resolving (s : Statics) : Prop :=
  s.syncWork = none ∧ s.sntpTimeoutWork = none ∧ s.listening = false ∧ ∃ d, s.resolving = [d]

def One (s : Statics) : Prop := Resting s ∨ Querying s ∨ Resolving s

def Event.comesUp : Event → Bool
  | .l4 connected => connected
  | _ => false

/-- The link does not come up while a query is in flight. -/
def Undisturbed (v : Timed Statics) (e : ℕ × Event) : Prop := e.2.comesUp = true → Resting v.state

instance (v : Timed Statics) (e : ℕ × Event) : Decidable (Undisturbed v e) := by
  unfold Undisturbed Resting
  infer_instance

theorem Resting.queryOrRetry (q : Query) (h : Resting s) (hw : s.syncWork = none) :
    One (queryOrRetry c q t s) := by
  obtain ⟨htimeout, hres, hl⟩ := h
  unfold TimeSync.queryOrRetry startSntpQuery
  by_cases hinit : q.init < 0
  · rw [if_pos hinit, if_pos hinit]
    exact .inl ⟨htimeout, hres, hl⟩
  · rw [if_neg hinit]
    by_cases hsend : q.send < 0
    · rw [if_pos hsend, if_pos hsend]
      exact .inl ⟨htimeout, hres, rfl⟩
    · rw [if_neg hsend, if_neg (Int.lt_irrefl 0)]
      exact .inr (.inl ⟨hw, hres, rfl, _, rfl⟩)

theorem Resting.syncWorkHandler (dns : Int) (q : Query) (h : Resting s) (hw : s.syncWork = none) :
    One (syncWorkHandler c dns q t s) := by
  have hrest := h
  obtain ⟨htimeout, hres, hl⟩ := h
  unfold TimeSync.syncWorkHandler
  split
  · exact .inl ⟨htimeout, hres, hl⟩
  split
  · exact Resting.queryOrRetry (s := { s with addr := some _ }) q hrest hw
  split
  · exact .inl ⟨htimeout, hres, hl⟩
  · refine .inr (.inr ⟨hw, htimeout, hl, t + c.timeoutMs, ?_⟩)
    simp only [hres, List.nil_append]

theorem Resting.dnsResultCb (status : DnsStatus) (info : Option NetAddr) (q : Query)
    (hp : status ≠ .inprogress) (h : Resting s) (hw : s.syncWork = none) :
    One (dnsResultCb c status info q t s) := by
  cases status with
  | inprogress => exact absurd rfl hp
  | canceled => exact .inl h
  | fail => exact .inl h
  | other => exact .inl h
  | alldone =>
    unfold TimeSync.dnsResultCb
    dsimp only
    split
    · exact .inl h
    · exact h.queryOrRetry q hw

theorem setClockFromSntp_resolving (c : Setup) (ts : SntpTime) (settime : Int) (s : Statics) :
    (setClockFromSntp c ts settime s).2.resolving = s.resolving := by
  unfold setClockFromSntp
  split
  · rfl
  split
  · rfl
  · rfl

theorem noteAddr_one (info : Option NetAddr) (h : One s) : One (noteAddr c info s) := by
  unfold noteAddr
  cases info with
  | none => exact h
  | some addr =>
    dsimp only
    split
    · exact h
    · exact h

theorem One.resting_of_sync (h : One s) (hw : s.syncWork = some d) : Resting s := by
  rcases h with h | h | h
  · exact h
  · cases h.1.symm.trans hw
  · cases h.1.symm.trans hw

/-- While a server is asked, no resolver is. -/
theorem One.unresolving (h : One s) (hq : s.listening = true ∨ ∃ d, s.sntpTimeoutWork = some d) :
    s.resolving = [] := by
  rcases h with h | h | ⟨-, htimeout, hl, -⟩
  · exact h.2.1
  · exact h.2.1
  · rcases hq with hq | ⟨d, hq⟩
    · cases hl.symm.trans hq
    · cases htimeout.symm.trans hq

theorem one_step {e : Event} (h : One s) (hu : e.comesUp = true → Resting s)
    (hs : step c s t e = some s') : One s' := by
  cases e with
  | start =>
    cases hs
    exact h
  | pass =>
    cases hs
    exact h
  | l4 connected =>
    obtain ⟨-, he⟩ := Option.ite_none_right_eq_some.mp hs
    cases he
    cases connected with
    | false => exact h
    | true => exact .inl (hu rfl)
  | sync dns q =>
    obtain ⟨⟨d, hd, -⟩, he⟩ := Option.ite_none_right_eq_some.mp hs
    have hrest := h.resting_of_sync hd
    cases he
    exact Resting.syncWorkHandler dns q hrest rfl
  | resolved i status info q =>
    obtain ⟨hi, he⟩ := Option.ite_none_right_eq_some.mp hs
    cases he
    by_cases hp : status = .inprogress
    · rw [hp, if_pos rfl]
      exact noteAddr_one info h
    · rw [if_neg hp]
      rcases h with h | h | ⟨hw, htimeout, hl, d, hres⟩
      · rw [h.2.1] at hi
        cases hi
      · rw [h.2.1] at hi
        cases hi
      · have hzero : i = 0 := by
          rw [hres] at hi
          exact Nat.lt_one_iff.mp hi
        have hnil : s.resolving.eraseIdx i = [] := by rw [hres, hzero]; rfl
        exact Resting.dnsResultCb status info q hp ⟨htimeout, hnil, hl⟩ hw
  | answer read settime =>
    obtain ⟨hl, he⟩ := Option.ite_none_right_eq_some.mp hs
    have hres := h.unresolving (.inl hl)
    cases he
    refine .inl ⟨rfl, ?_, rfl⟩
    cases read with
    | error e => exact hres
    | ok ts => exact (setClockFromSntp_resolving c ts settime s).trans hres
  | timeout =>
    obtain ⟨⟨d, hd, -⟩, he⟩ := Option.ite_none_right_eq_some.mp hs
    cases he
    exact .inl ⟨rfl, h.unresolving (.inr ⟨d, hd⟩), rfl⟩

/-- One query at a time. As long as the link never comes up while a query is in flight, there is at
any time at most one of a query of the resolver, a query of the server with its timeout, and a
synchronisation to come. -/
theorem one_query (c : Setup) {es : List (ℕ × Event)} {v : Timed Statics}
    (h : timedRun (deadlines c) (step c) .init es = some v)
    (hu : Allows (timedStep (deadlines c) (step c)) Undisturbed ⟨0, .init⟩ es) : One v.state := by
  have hr : Reaches (timedStep (deadlines c) (step c)) Undisturbed ⟨0, .init⟩ v :=
    Reaches.runFrom .start hu h
  refine hr.invariant (I := fun v => One v.state) (.inl ⟨rfl, rfl, rfl⟩) ?_
  intro v w e hone hundisturbed hstep
  obtain ⟨-, -, hs, -⟩ := timedStep_eq_some.mp hstep
  exact one_step hone hundisturbed hs

theorem one_query_first : One afterFirstSync :=
  one_query pool firstSync_run (by decide)

def taken (c : Setup) : Event → Option Timespec
  | .answer (.ok ts) settime =>
    if c.longMax < ts.seconds.toNat ∨ settime < 0 then none
    else some ⟨ts.seconds.toNat, (sntpFractionToNsec ts.fraction).toNat⟩
  | _ => none

theorem sntpFractionToNsec_lt (fraction : UInt32) :
    (sntpFractionToNsec fraction).toNat < 1000000000 := by
  have hlt := fraction.toNat_lt
  rw [sntpFractionToNsec, UInt64.toNat_toUInt32, UInt64.toNat_shiftRight, UInt64.toNat_mul,
    UInt32.toNat_toUInt64]
  have hpow : (1000000000 : UInt64).toNat = 1000000000 := rfl
  have hshift : (32 : UInt64).toNat % 64 = 32 := rfl
  have hfits : fraction.toNat * 1000000000 < 2 ^ 64 := by omega
  have hdiv : fraction.toNat * 1000000000 / 2 ^ 32 < 1000000000 := by
    apply Nat.div_lt_of_lt_mul
    omega
  rw [hpow, hshift, Nat.shiftRight_eq_div_pow, Nat.mod_eq_of_lt hfits]
  exact (Nat.mod_le _ _).trans_lt hdiv

/-- The clock and the flag, on which only an answer that is taken has an effect. -/
def shown (s : Statics) : Option Timespec × Bool := (s.clock, s.synced)

theorem queryOrRetry_shown (c : Setup) (q : Query) (t : ℕ) (s : Statics) :
    shown (queryOrRetry c q t s) = shown s := by
  unfold queryOrRetry startSntpQuery
  by_cases hinit : q.init < 0
  · rw [if_pos hinit, if_pos hinit]
    rfl
  · rw [if_neg hinit]
    by_cases hsend : q.send < 0
    · rw [if_pos hsend, if_pos hsend]
      rfl
    · rw [if_neg hsend, if_neg (Int.lt_irrefl 0)]
      rfl

theorem dnsResultCb_shown (c : Setup) (status : DnsStatus) (info : Option NetAddr) (q : Query)
    (t : ℕ) (s : Statics) : shown (dnsResultCb c status info q t s) = shown s := by
  cases status with
  | canceled => rfl
  | fail => rfl
  | other => rfl
  | alldone =>
    unfold dnsResultCb
    dsimp only
    split
    · rfl
    · exact queryOrRetry_shown c q t s
  | inprogress =>
    unfold dnsResultCb noteAddr
    cases info with
    | none => rfl
    | some addr =>
      dsimp only
      split
      · rfl
      · rfl

theorem syncWorkHandler_shown (c : Setup) (dns : Int) (q : Query) (t : ℕ) (s : Statics) :
    shown (syncWorkHandler c dns q t s) = shown s := by
  unfold syncWorkHandler
  split
  · rfl
  split
  · exact queryOrRetry_shown c q t _
  split
  · rfl
  · rfl

theorem sntpServiceHandler_shown (c : Setup) (read : Except Int SntpTime) (settime : Int) (t : ℕ)
    (s : Statics) : shown (sntpServiceHandler c read settime t s) =
      ((taken c (.answer read settime)).or s.clock,
        (taken c (.answer read settime)).isSome || s.synced) := by
  cases read with
  | error e => rfl
  | ok ts =>
    unfold sntpServiceHandler taken setClockFromSntp
    by_cases hrange : c.longMax < ts.seconds.toNat
    · simp only [if_pos hrange, if_pos (Or.inl hrange)]
      rfl
    · by_cases hset : settime < 0
      · simp only [if_neg hrange, if_pos hset, if_pos (Or.inr hset)]
        rfl
      · simp only [if_neg hrange, if_neg hset, if_neg (not_or.mpr ⟨hrange, hset⟩)]
        rfl

theorem step_shown {e : Event} (hs : step c s t e = some s') :
    shown s' = ((taken c e).or s.clock, (taken c e).isSome || s.synced) := by
  cases e with
  | start =>
    cases hs
    rfl
  | pass =>
    cases hs
    rfl
  | l4 connected =>
    obtain ⟨-, he⟩ := Option.ite_none_right_eq_some.mp hs
    cases he
    cases connected with
    | true => rfl
    | false => rfl
  | sync dns q =>
    obtain ⟨-, he⟩ := Option.ite_none_right_eq_some.mp hs
    cases he
    exact syncWorkHandler_shown c dns q t _
  | resolved i status info q =>
    obtain ⟨-, he⟩ := Option.ite_none_right_eq_some.mp hs
    cases he
    refine (dnsResultCb_shown c status info q t _).trans ?_
    split
    · rfl
    · rfl
  | answer read settime =>
    obtain ⟨-, he⟩ := Option.ite_none_right_eq_some.mp hs
    cases he
    exact sntpServiceHandler_shown c read settime t s
  | timeout =>
    obtain ⟨-, he⟩ := Option.ite_none_right_eq_some.mp hs
    cases he
    rfl

theorem getLast?_taken (past : List (ℕ × Event)) (t : ℕ) (e : Event) :
    ((past ++ [(t, e)]).filterMap fun e => taken c e.2).getLast? =
      (taken c e).or (past.filterMap fun e => taken c e.2).getLast? := by
  rw [List.filterMap_append, List.filterMap_cons, List.filterMap_nil]
  cases taken c e with
  | none => rw [List.append_nil, Option.none_or]
  | some ts => rw [List.getLast?_concat, Option.some_or]

theorem taken_nsec {e : Event} {ts : Timespec} (h : taken c e = some ts) :
    0 ≤ ts.tvNsec ∧ ts.tvNsec < 1000000000 := by
  cases e with
  | answer read settime =>
    cases read with
    | error e => cases h
    | ok sntp =>
      obtain ⟨-, he⟩ := Option.ite_none_left_eq_some.mp h
      cases he
      have hlt := sntpFractionToNsec_lt sntp.fraction
      exact ⟨Int.natCast_nonneg _, Int.ofNat_lt.mpr hlt⟩
  | _ => cases h

theorem clock_run (c : Setup) {es : List (ℕ × Event)} {v : Timed Statics}
    (h : timedRun (deadlines c) (step c) .init es = some v) :
    v.state.clock = (es.filterMap fun e => taken c e.2).getLast? ∧
      v.state.synced = v.state.clock.isSome := by
  apply timedRun_induction (I := fun es v =>
    v.state.clock = (es.filterMap fun e => taken c e.2).getLast? ∧
      v.state.synced = v.state.clock.isSome) ⟨rfl, rfl⟩ _ h
  intro past v t e u ih hnow hd hs
  obtain ⟨hclock, hsynced⟩ := Prod.mk.inj (step_shown hs)
  refine ⟨?_, ?_⟩
  · rw [getLast?_taken, ← ih.1, hclock]
  · rw [hclock, hsynced, ih.2, Option.isSome_or]

/-- The time comes from the server alone. After every run the realtime clock was last set to what
the last answer that was taken says, with less than a second of nanoseconds, and as long as there was
none the stamps are zero. -/
theorem clock_follows_answers (c : Setup) {es : List (ℕ × Event)} {v : Timed Statics}
    (h : timedRun (deadlines c) (step c) .init es = some v) :
    v.state.clock = (es.filterMap fun e => taken c e.2).getLast? ∧
      (∀ ts ∈ v.state.clock, 0 ≤ ts.tvNsec ∧ ts.tvNsec < 1000000000) ∧
      (v.state.clock = none → ∀ gettime tspec, appTimeNow v.state gettime tspec = ⟨0, 0⟩) := by
  obtain ⟨hclock, hsynced⟩ := clock_run c h
  refine ⟨hclock, fun ts hts => ?_, fun hnone gettime tspec => ?_⟩
  · rw [hclock] at hts
    obtain ⟨e, -, he⟩ := List.mem_filterMap.mp (List.mem_of_getLast? hts)
    exact taken_nsec he
  · rw [hnone] at hsynced
    rw [appTimeNow, appTimeSynced, hsynced]
    rfl

theorem clock_follows_answers_first :
    afterFirstSync.clock = (firstSync.filterMap fun e => taken pool e.2).getLast? ∧
      (∀ ts ∈ afterFirstSync.clock, 0 ≤ ts.tvNsec ∧ ts.tvNsec < 1000000000) ∧
      (afterFirstSync.clock = none →
        ∀ gettime tspec, appTimeNow afterFirstSync gettime tspec = ⟨0, 0⟩) :=
  clock_follows_answers pool firstSync_run

end ZephyrApps.TimeSync
