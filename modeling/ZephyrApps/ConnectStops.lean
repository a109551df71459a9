import ZephyrApps.ConnectThread

/-!
# Refusals

Once the service has refused a request, nothing is to be uploaded until the configuration
changes, an address event or a kick comes, or a connection test passes.
-/
namespace ZephyrApps.ConnectStops
open AppSettings CStrings PrusaCfg SystemRuns EventHistories ConnectThread

variable {ι N : Type*}

/-- Whether the uploads are refused after an event, if they were so before or not. -/
def Event.refuses : Event → Bool → Bool
  | .answered _ .stop, _ => true
  | .answered .test .ok, _ => false
  | .kicked, _ => false
  | _, r => r

def refused (log : List Event) : Bool := log.foldl (fun r e => Event.refuses e r) false

theorem refused_concat (log : List Event) (e : Event) :
    refused (log ++ [e]) = Event.refuses e (refused log) := by simp [refused]

def Event.uploads : Event → Prop
  | .sent .info | .sent .snapshot => True
  | _ => False

instance (e : Event) : Decidable (Event.uploads e) :=
  match e with
  | .sent .info | .sent .snapshot => isTrue trivial
  | .sent .test | .answered _ _ | .kicked => isFalse id

/-- Nothing is uploaded while that is refused. -/
def Respected (log : List Event) : Prop :=
  Each (fun past e => Event.uploads e → refused past = false) log

theorem respected_concat {log : List Event} {e : Event} (h : Respected log)
    (he : Event.uploads e → refused log = false) : Respected (log ++ [e]) :=
  each_concat.mpr ⟨h, he⟩

/-- The steps that leave a refusal alone: no refusal meets a unit of the semaphore that is not
of a test, no test is answered with a wait or a retryable failure while uploads are refused,
and no test gives the semaphore after the thread has finished it. -/
def LeavesStop (jobs : ι → Job) (s : System ι N) : Act ι N → Prop
  | .answer ret =>
    (prusaCameraNext ret = .stop → s.kick = true → s.testRequested = true) ∧
      (s.pc = .testing → refused s.log = true →
        prusaCameraNext ret = .stop ∨ prusaCameraNext ret = .ok)
  | .give i =>
    jobs i = .test → refused s.log = true → s.testRequested = true ∨ s.pc = .testing
  | _ => True

instance [DecidableEq N] (jobs : ι → Job) (s : System ι N) (a : Act ι N) :
    Decidable (LeavesStop jobs s a) :=
  match a with
  | .answer ret =>
    inferInstanceAs (Decidable
      ((prusaCameraNext ret = .stop → s.kick = true → s.testRequested = true) ∧
        (s.pc = .testing → refused s.log = true →
          prusaCameraNext ret = .stop ∨ prusaCameraNext ret = .ok)))
  | .give i =>
    inferInstanceAs (Decidable
      (jobs i = .test → refused s.log = true → s.testRequested = true ∨ s.pc = .testing))
  | .store _ _ | .flag _ | .take | .timeout _ | .wake | .copy | .begin | .choose _ | .clear =>
    isTrue trivial

def Idle : Pc N → Prop
  | .choosing _ | .informing _ | .snapping | .clearing _ => False
  | _ => True

/-- The thread is stopped, and what can wake it up is a test. -/
structure Stopped (s : System ι N) : Prop where
  stopped : s.stopped = true
  kick : s.kick = true → s.testRequested = true ∨ s.pc = .testing
  woken : s.pc = .woken → s.testRequested = true
  idle : Idle s.pc

/-- While uploads are refused the thread is stopped, and nothing was uploaded against that. -/
structure Obeys (s : System ι N) : Prop where
  stops : refused s.log = true → Stopped s
  respected : Respected s.log

variable {s u : System ι N}

theorem Stopped.of_eq (h : Stopped s) (hs : u.stopped = s.stopped) (hk : u.kick = s.kick)
    (hpc : u.pc = s.pc) (ht : s.testRequested = true → u.testRequested = true) : Stopped u where
  stopped := hs.trans h.stopped
  kick := by
    intro hkick
    rw [hpc]
    exact (h.kick (hk ▸ hkick)).imp_left ht
  woken := by
    intro hwoken
    exact ht (h.woken (hpc ▸ hwoken))
  idle := hpc ▸ h.idle

theorem Obeys.of_stopped (h : Obeys s) (hlog : u.log = s.log) (hu : Stopped s → Stopped u) : Obeys u where
  stops := fun hr => hu (h.stops (hlog ▸ hr))
  respected := hlog ▸ h.respected

theorem Obeys.of_event {e : Event} (h : Obeys s) (hlog : u.log = s.log ++ [e])
    (he : Event.uploads e → refused s.log = false)
    (hu : Event.refuses e (refused s.log) = true → Stopped u) : Obeys u where
  stops := by
    intro hr
    rw [hlog, refused_concat] at hr
    exact hu hr
  respected := by
    rw [hlog]
    exact respected_concat h.respected he

theorem take_obeys (hpc : s.pc = .top) (h : Obeys s) : Obeys s.take := by
  unfold System.take
  split
  case isTrue hkick =>
    refine h.of_stopped rfl fun hs => ?_
    have htest : s.testRequested = true := (hs.kick hkick).resolve_right (by rw [hpc]; exact nofun)
    exact ⟨hs.stopped, nofun, fun _ => htest, trivial⟩
  case isFalse hkick =>
    exact h.of_stopped rfl fun hs => ⟨hs.stopped, fun hk => absurd hk hkick, nofun, trivial⟩

theorem wake_obeys (hpc : s.pc = .woken) (h : Obeys s) : Obeys s.wake := by
  refine h.of_stopped rfl fun hs => ?_
  have htest := hs.woken hpc
  refine ⟨?_, fun _ => Or.inl htest, nofun, trivial⟩
  show (if s.testRequested = true then s.stopped else false) = true
  rw [if_pos htest]
  exact hs.stopped

theorem Stopped.to_pc (h : Stopped s) (hs : u.stopped = s.stopped) (hk : u.kick = s.kick)
    (ht : u.testRequested = s.testRequested) (hpc : s.pc ≠ .testing) (hw : u.pc ≠ .woken)
    (hi : Idle u.pc) : Stopped u where
  stopped := hs.trans h.stopped
  kick := by
    intro hkick
    rw [ht]
    exact Or.inl ((h.kick (hk ▸ hkick)).resolve_right hpc)
  woken := fun hwoken => absurd hwoken hw
  idle := hi

theorem timeout_obeys {wait : ℕ} (hpc : s.pc = .pended wait) (h : Obeys s) :
    Obeys { s with pc := .passing } :=
  h.of_stopped rfl fun hs => hs.to_pc rfl rfl rfl (by rw [hpc]; exact nofun) nofun trivial

theorem copy_obeys (hpc : s.pc = .passing) (h : Obeys s) : Obeys s.copy := by
  have hne : s.pc ≠ .testing := by
    rw [hpc]
    exact nofun
  unfold System.copy
  split
  · exact h.of_stopped rfl fun hs => hs.to_pc rfl rfl rfl hne nofun trivial
  · exact h.of_stopped rfl fun hs => hs.to_pc rfl rfl rfl hne nofun trivial

theorem begin_obeys {c : Cfg} (hpc : s.pc = .copied c) (h : Obeys s) : Obeys (s.begin c) := by
  have hne : s.pc ≠ .testing := by
    rw [hpc]
    exact nofun
  unfold System.begin
  split
  · exact h.of_event rfl nofun fun hr => ⟨(h.stops hr).stopped, fun _ => Or.inr rfl, nofun, trivial⟩
  · split
    · exact h.of_stopped rfl fun hs => hs.to_pc rfl rfl rfl hne nofun trivial
    case isFalse hstopped =>
      exact h.of_stopped rfl fun hs => absurd hs.stopped hstopped

theorem not_refused (h : Obeys s) (hpc : ¬ Idle s.pc) : refused s.log = false := by
  cases hr : refused s.log with
  | false => rfl
  | true => exact absurd (h.stops hr).idle hpc

theorem choose_obeys {c : Cfg} (net : N) (hpc : s.pc = .choosing c) (h : Obeys s) :
    Obeys (s.choose c net) := by
  have hr : refused s.log = false := not_refused h (by rw [hpc]; exact id)
  unfold System.choose
  split
  · exact h.of_event rfl (fun _ => hr) fun hrefused => absurd (hr.symm.trans hrefused) Bool.false_ne_true
  · exact h.of_event rfl (fun _ => hr) fun hrefused => absurd (hr.symm.trans hrefused) Bool.false_ne_true

theorem finish_stopped (hkick : s.kick = true → s.testRequested = true) (e : Event) :
    Stopped ((s.finish .stop).record e) :=
  ⟨rfl, fun hk => Or.inl (hkick hk), nofun, trivial⟩

theorem upload_obeys {k : Kind} {next : Next} (hk : k ≠ .test) (hpc : ¬ Idle s.pc)
    (hkick : next = .stop → s.kick = true → s.testRequested = true) (h : Obeys s) :
    Obeys ((s.finish next).record (.answered k next)) := by
  have hr := not_refused h hpc
  refine h.of_event rfl nofun fun hrefused => ?_
  cases next with
  | stop => exact finish_stopped (hkick rfl) _
  | ok | wait | retry =>
    rw [hr] at hrefused
    cases k with
    | test => exact absurd rfl hk
    | info | snapshot => cases hrefused

theorem test_obeys {next : Next} (hkick : next = .stop → s.kick = true → s.testRequested = true)
    (hnext : refused s.log = true → next = .stop ∨ next = .ok) (h : Obeys s) :
    Obeys ((s.finish next).record (.answered .test next)) := by
  refine h.of_event rfl nofun fun hrefused => ?_
  cases next with
  | stop => exact finish_stopped (hkick rfl) _
  | ok => cases hrefused
  | wait | retry => exact (hnext hrefused).elim nofun nofun

/-- The service has accepted camera-info. -/
theorem accepted_obeys {b : Built N} (hpc : s.pc = .informing b) (h : Obeys s) :
    Obeys ({ s with accepted := some b, pc := .clearing b.cfg }.record (.answered .info .ok)) := by
  have hr : refused s.log = false := not_refused h (by rw [hpc]; exact id)
  refine h.of_event rfl nofun fun hrefused => ?_
  cases hr.symm.trans hrefused

theorem clear_obeys {c : Cfg} (hpc : s.pc = .clearing c) (h : Obeys s) : Obeys s.clear := by
  refine h.of_stopped rfl fun hs => ?_
  have hidle := hs.idle
  rw [hpc] at hidle
  exact hidle.elim

/-- What gives the semaphore while a test is requested or under way wakes up nothing else. -/
theorem give_stopped (ht : s.testRequested = true ∨ s.pc = .testing) (h : Stopped s) :
    Stopped s.give := by
  unfold System.give
  split
  case h_1 wait hpc =>
    have htest : s.testRequested = true := ht.resolve_right (by rw [hpc]; exact nofun)
    exact ⟨h.stopped, fun _ => Or.inl htest, fun _ => htest, trivial⟩
  case h_2 => exact ⟨h.stopped, fun _ => ht, h.woken, h.idle⟩

theorem give_log (s : System ι N) : s.give.log = s.log := by
  unfold System.give
  split <;> rfl

variable [DecidableEq ι] {jobs : ι → Job}

theorem giveOf_obeys {i : ι} (hi : LeavesStop jobs s (.give i : Act ι N)) (h : Obeys s) :
    Obeys (s.giveOf i (jobs i)) := by
  unfold System.giveOf
  split
  case h_1 hjob =>
    refine ⟨fun hr => ?_, (give_log s).symm ▸ h.respected⟩
    have hr' : refused s.log = true := (give_log s) ▸ hr
    exact (give_stopped (hi hjob hr') (h.stops hr')).of_eq rfl rfl rfl id
  all_goals
    refine h.of_event (e := .kicked) ?_ nofun nofun
    show s.give.log ++ [.kicked] = s.log ++ [.kicked]
    rw [give_log]

theorem step_obeys {a : Act ι N} (h : step jobs s a = some u) (ha : LeavesStop jobs s a)
    (ho : Obeys s) : Obeys u := by
  cases step_moves h with
  | store | flagChange | flagEvent => exact ho.of_stopped rfl fun hs => hs.of_eq rfl rfl rfl id
  | flagTest => exact ho.of_stopped rfl fun hs => hs.of_eq rfl rfl rfl fun _ => rfl
  | give => exact giveOf_obeys ha ho
  | take hpc => exact take_obeys hpc ho
  | timeout hpc => exact timeout_obeys hpc ho
  | wake hpc => exact wake_obeys hpc ho
  | copy hpc => exact copy_obeys hpc ho
  | begin hpc => exact begin_obeys hpc ho
  | choose hpc => exact choose_obeys _ hpc ho
  | tested hpc => exact test_obeys ha.1 (ha.2 hpc) ho
  | snapped hpc => exact upload_obeys nofun (by rw [hpc]; exact id) ha.1 ho
  | accepted hpc => exact accepted_obeys hpc ho
  | rejected hpc => exact upload_obeys nofun (by rw [hpc]; exact id) ha.1 ho
  | clear hpc => exact clear_obeys hpc ho

omit [DecidableEq ι] in
theorem start_obeys (s : CfgStore) : Obeys (start s : System ι N) :=
  ⟨nofun, each_nil _⟩

/-- In every run whose steps leave refusals alone, nothing is uploaded against one. -/
theorem refusals_respected {s : CfgStore} {t : System ι N}
    (h : Reaches (step jobs) (LeavesStop jobs) (start s) t) : Respected t.log :=
  (h.invariant (start_obeys s) fun _ _ _ ho ha ht => step_obeys ht ha ho).respected

def registered : CfgStore := ⟨{ cfgDefault with token := text "abcdefghij0123456789" }, none⟩

/-- Camera-info is refused, a test is answered, and the next pass comes in time. -/
def refusedThenTested (ret : Int) : List (Act Unit Unit) :=
  [.take, .timeout 30, .copy, .begin, .choose (), .answer 403, .flag (), .give (), .take, .wake,
    .copy, .begin, .answer ret, .take, .timeout 60, .copy, .begin, .choose ()]

theorem refusals_respected_passing :
    ∃ t, runFrom (step fun _ => .test) (start registered) (refusedThenTested 200) = some t ∧
      t.pc = .informing ⟨registered.ram, ()⟩ ∧ Respected t.log := by
  have hr : (runFrom (step fun _ => .test) (start registered) (refusedThenTested 200)).map (·.pc) =
      some (.informing ⟨registered.ram, ()⟩) := by
    decide +kernel
  obtain ⟨t, ht, hpc⟩ := Option.map_eq_some_iff.mp hr
  exact ⟨t, ht, hpc, refusals_respected (Reaches.start.runFrom (by decide +kernel) ht)⟩

/-- The test that finds no network lets the uploads go on. -/
theorem refusal_forgotten :
    ∃ t, runFrom (step fun _ => .test) (start registered) (refusedThenTested (-116)) = some t ∧
      t.log = [.sent .info, .answered .info .stop, .sent .test, .answered .test .retry, .sent .info] ∧
      ¬ Respected t.log := by
  have hr : (runFrom (step fun _ => .test) (start registered) (refusedThenTested (-116))).map (·.log) =
      some [.sent .info, .answered .info .stop, .sent .test, .answered .test .retry, .sent .info] := by
    decide +kernel
  obtain ⟨t, ht, hlog⟩ := Option.map_eq_some_iff.mp hr
  refine ⟨t, ht, hlog, ?_⟩
  rw [hlog]
  unfold Respected
  decide

/-- A run can go on to an upload that is refused. -/
def Resumes (jobs : ι → Job) (s : System ι N) : Prop :=
  ∃ acts t, runFrom (step jobs) s acts = some t ∧ ¬ Respected t.log

theorem Resumes.of_step {a : Act ι N} (h : step jobs s a = some u) (hu : Resumes jobs u) :
    Resumes jobs s := by
  obtain ⟨acts, t, ht, hr⟩ := hu
  exact ⟨a :: acts, t, Option.bind_eq_some_iff.mpr ⟨u, h, ht⟩, hr⟩

/-- Uploads are refused, and the next pass is not for a test. -/
structure Armed (s : System ι N) : Prop where
  refused : refused s.log = true
  test : s.testRequested = false
  token : s.store.ram.token ≠ []

omit [DecidableEq ι] in
theorem Armed.of_eq (h : Armed s) (hl : u.log = s.log) (ht : u.testRequested = s.testRequested)
    (hs : u.store = s.store) : Armed u :=
  ⟨hl ▸ h.refused, ht.trans h.test, hs ▸ h.token⟩

theorem resumes_choosing (net : N) {c : Cfg} (h : Armed s) (hpc : s.pc = .choosing c) :
    Resumes jobs s := by
  refine ⟨[.choose net], s.choose c net, by simp [runFrom, step, hpc], fun hr => ?_⟩
  have hlast : refused s.log = false := by
    unfold System.choose at hr
    split at hr
    · exact (each_concat.mp hr).2 trivial
    · exact (each_concat.mp hr).2 trivial
  rw [h.refused] at hlast
  cases hlast

theorem resumes_copied (net : N) {c : Cfg} (h : Armed s) (hpc : s.pc = .copied c)
    (hs : s.stopped = false) : Resumes jobs s := by
  have hstep : step jobs s .begin = some { s with pc := .choosing c } := by
    simp [step, hpc, System.begin, h.test, hs]
  exact .of_step hstep (resumes_choosing net (h.of_eq rfl rfl rfl) rfl)

theorem resumes_passing (net : N) (h : Armed s) (hpc : s.pc = .passing) (hs : s.stopped = false) :
    Resumes jobs s := by
  have hstep : step jobs s .copy = some { s with pc := .copied s.store.ram } := by
    simp [step, hpc, System.copy, h.token]
  exact .of_step hstep (resumes_copied net (h.of_eq rfl rfl rfl) rfl hs)

theorem resumes_woken (net : N) (h : Armed s) (hpc : s.pc = .woken) : Resumes jobs s := by
  have hstep : step jobs s .wake = some { s with stopped := false, pc := .passing } := by
    simp [step, hpc, System.wake, h.test]
  exact .of_step hstep (resumes_passing net (h.of_eq rfl rfl rfl) rfl rfl)

/-- A unit of the semaphore, or a timeout when the thread is not stopped. -/
theorem resumes_top (net : N) (h : Armed s) (hpc : s.pc = .top)
    (hs : s.kick = true ∨ s.stopped = false) : Resumes jobs s := by
  cases hk : s.kick with
  | true =>
    have hstep : step jobs s .take = some { s with kick := false, pc := .woken } := by
      simp [step, hpc, System.take, hk]
    exact .of_step hstep (resumes_woken net (h.of_eq rfl rfl rfl) rfl)
  | false =>
    have hstopped : s.stopped = false := hs.resolve_left (by rw [hk]; exact Bool.false_ne_true)
    let wait := waitTime s.store.ram s.fails
    have htake : step jobs s .take = some { s with pc := .pended wait } := by
      simp [step, hpc, System.take, hk, wait]
    have htimeout : step jobs { s with pc := .pended wait } (.timeout wait) =
        some { s with pc := .passing } := by
      simp [step]
    exact .of_step htake (.of_step htimeout
      (resumes_passing net (h.of_eq rfl rfl rfl) rfl hstopped))

/-- With a unit of the semaphore a stopped thread only gets to the top of its loop first. -/
theorem resumes_copied_kicked (net : N) {c : Cfg} (h : Armed s) (hpc : s.pc = .copied c)
    (hk : s.kick = true) : Resumes jobs s := by
  cases hs : s.stopped with
  | false => exact resumes_copied net h hpc hs
  | true =>
    have hstep : step jobs s .begin = some { s with pc := .top } := by
      simp [step, hpc, System.begin, h.test, hs]
    exact .of_step hstep (resumes_top net (h.of_eq rfl rfl rfl) rfl (Or.inl hk))

theorem resumes_passing_kicked (net : N) (h : Armed s) (hpc : s.pc = .passing)
    (hk : s.kick = true) : Resumes jobs s := by
  have hstep : step jobs s .copy = some { s with pc := .copied s.store.ram } := by
    simp [step, hpc, System.copy, h.token]
  exact .of_step hstep (resumes_copied_kicked net (h.of_eq rfl rfl rfl) rfl hk)

theorem resumes_kicked (net : N) (h : Armed s) (hi : Idle s.pc) (hpc : s.pc ≠ .testing)
    (hk : s.kick = true) : Resumes jobs s := by
  cases hp : s.pc with
  | top => exact resumes_top net h hp (Or.inl hk)
  | pended wait =>
    have hstep : step jobs s (.timeout wait) = some { s with pc := .passing } := by
      simp [step, hp]
    exact .of_step hstep (resumes_passing_kicked net (h.of_eq rfl rfl rfl) rfl hk)
  | woken => exact resumes_woken net h hp
  | passing => exact resumes_passing_kicked net h hp hk
  | copied c => exact resumes_copied_kicked net h hp hk
  | testing => exact absurd hp hpc
  | choosing | informing | snapping | clearing =>
    rw [hp] at hi
    exact hi.elim

/-- A test that is requested is carried out, and may be answered with a wait. -/
theorem resumes_passing_test (net : N) (hr : refused s.log = true)
    (htoken : s.store.ram.token ≠ []) (ht : s.testRequested = true) (hpc : s.pc = .passing) :
    Resumes jobs s := by
  have hcopy : step jobs s .copy = some { s with pc := .copied s.store.ram } := by
    simp [step, hpc, System.copy, htoken]
  have hbegin : step jobs { s with pc := .copied s.store.ram } .begin =
      some ({ s with testRequested := false, pc := .testing }.record (.sent .test)) := by
    simp [step, System.begin, ht]
  have hnext : prusaCameraNext 429 = .wait := by decide
  have hanswer : step jobs ({ s with testRequested := false, pc := .testing }.record (.sent .test))
      (.answer 429) = some ((({ s with testRequested := false, pc := .testing }.record
        (.sent .test)).finish .wait).record (.answered .test .wait)) := by
    simp [step, System.answer, System.record, hnext]
  refine .of_step hcopy (.of_step hbegin (.of_step hanswer ?_))
  refine resumes_top net ⟨?_, rfl, htoken⟩ rfl (Or.inr rfl)
  show refused ((s.log ++ [.sent .test]) ++ [.answered .test .wait]) = true
  rw [refused_concat, refused_concat]
  exact hr

theorem resumes_top_test (net : N) (hr : refused s.log = true) (htoken : s.store.ram.token ≠ [])
    (ht : s.testRequested = true) (hpc : s.pc = .top) : Resumes jobs s := by
  cases hk : s.kick with
  | true =>
    have htake : step jobs s .take = some { s with kick := false, pc := .woken } := by
      simp [step, hpc, System.take, hk]
    have hwake : step jobs { s with kick := false, pc := .woken } .wake =
        some { s with kick := false, pc := .passing } := by
      simp [step, System.wake, ht]
    exact .of_step htake (.of_step hwake (resumes_passing_test net hr htoken ht rfl))
  | false =>
    let wait := waitTime s.store.ram s.fails
    have htake : step jobs s .take = some { s with pc := .pended wait } := by
      simp [step, hpc, System.take, hk, wait]
    have htimeout : step jobs { s with pc := .pended wait } (.timeout wait) =
        some { s with pc := .passing } := by
      simp [step]
    exact .of_step htake (.of_step htimeout (resumes_passing_test net hr htoken ht rfl))

theorem answer_stop_resumes (net : N) {k : Kind} (ht : s.testRequested = false)
    (hk : s.kick = true) (htoken : s.store.ram.token ≠ []) :
    Resumes jobs ((s.finish .stop).record (.answered k .stop)) := by
  refine resumes_top net ⟨?_, ht, htoken⟩ rfl (Or.inl hk)
  show refused (s.log ++ [.answered k .stop]) = true
  rw [refused_concat]
  rfl

theorem answer_test_resumes (net : N) {next : Next} (hr : refused s.log = true)
    (htoken : s.store.ram.token ≠ []) (hstop : next ≠ .stop) (hok : next ≠ .ok) :
    Resumes jobs ((s.finish next).record (.answered .test next)) := by
  have hrefused : refused (s.log ++ [.answered .test next]) = true := by
    rw [refused_concat]
    cases next with
    | ok => exact absurd rfl hok
    | stop => exact absurd rfl hstop
    | wait | retry => exact hr
  have hstopped : decide (next = .stop) = false := decide_eq_false hstop
  cases ht : s.testRequested with
  | true => exact resumes_top_test net hrefused htoken ht rfl
  | false => exact resumes_top net ⟨hrefused, ht, htoken⟩ rfl (Or.inr hstopped)

theorem give_resumes (net : N) {i : ι} (hjob : jobs i = .test) (h : Armed s) (hs : Stopped s)
    (hpc : s.pc ≠ .testing) : Resumes jobs (s.giveOf i (jobs i)) := by
  rw [hjob]
  show Resumes jobs (s.give.move i (.returned 0))
  unfold System.give
  split
  · exact resumes_woken net (h.of_eq rfl rfl rfl) rfl
  · exact resumes_kicked net (h.of_eq rfl rfl rfl) hs.idle hpc rfl

omit [DecidableEq ι] in
/-- The two ways in which an answer does not leave a refusal alone. -/
theorem answer_breaks {ret : Int} (ha : ¬ LeavesStop jobs s (.answer ret)) :
    (prusaCameraNext ret = .stop ∧ s.kick = true ∧ s.testRequested = false) ∨
      (s.pc = .testing ∧ refused s.log = true ∧ prusaCameraNext ret ≠ .stop ∧
        prusaCameraNext ret ≠ .ok) := by
  by_cases hstop : prusaCameraNext ret = .stop ∧ s.kick = true ∧ s.testRequested = false
  · exact Or.inl hstop
  · refine Or.inr ?_
    by_contra hno
    refine ha ⟨fun hn hk => ?_, fun hpc hr => ?_⟩
    · cases ht : s.testRequested with
      | true => rfl
      | false => exact absurd ⟨hn, hk, ht⟩ hstop
    · by_contra hnext
      exact hno ⟨hpc, hr, fun hn => hnext (Or.inl hn), fun hn => hnext (Or.inr hn)⟩

/-- No part of the condition is idle: after every step that breaks one the run can go on to an upload
against the refusal, if there is a token. It need not: what comes next may forbid it again. -/
theorem resumes_of_break {a : Act ι N} (net : N) (h : step jobs s a = some u) (ho : Obeys s)
    (ha : ¬ LeavesStop jobs s a) (htoken : u.store.ram.token ≠ []) : Resumes jobs u := by
  cases step_moves h with
  | tested =>
    rcases answer_breaks ha with ⟨hstop, hk, ht⟩ | ⟨-, hr, hstop, hok⟩
    · rw [hstop]
      exact answer_stop_resumes net ht hk htoken
    · exact answer_test_resumes net hr htoken hstop hok
  | snapped hpc | rejected hpc =>
    rcases answer_breaks ha with ⟨hstop, hk, ht⟩ | ⟨htesting, -⟩
    · rw [hstop]
      exact answer_stop_resumes net ht hk htoken
    · cases hpc.symm.trans htesting
  | accepted hpc hok =>
    rcases answer_breaks ha with ⟨hstop, -⟩ | ⟨htesting, -⟩
    · cases hok.symm.trans hstop
    · cases hpc.symm.trans htesting
  | @give i =>
    have hjob : jobs i = .test := by
      by_contra hj
      exact ha fun hj' => absurd hj' hj
    have hr : refused s.log = true := by
      by_contra hno
      exact ha fun _ hr => absurd hr hno
    have hno : ¬ (s.testRequested = true ∨ s.pc = .testing) := fun ht => ha fun _ _ => ht
    have htest : s.testRequested = false := by
      cases ht : s.testRequested with
      | true => exact absurd (Or.inl ht) hno
      | false => rfl
    have hstore : (s.giveOf i (jobs i)).store = s.store := by
      unfold System.giveOf System.give
      split <;> split <;> rfl
    exact give_resumes net hjob ⟨hr, htest, hstore ▸ htoken⟩ (ho.stops hr) fun hpc => hno (Or.inr hpc)
  | store | flagChange | flagEvent | flagTest | take | timeout | wake | copy | begin | choose
  | clear => exact absurd trivial ha

end ZephyrApps.ConnectStops
