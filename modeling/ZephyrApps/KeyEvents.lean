import Mathlib.Algebra.BigOperators.Group.List.Basic
import Mathlib.Data.Fin.VecNotation
import Mathlib.Data.Nat.Bitwise
import ZephyrApps.CodexRpc
import ZephyrApps.SwitchEvents
import ZephyrApps.SystemRuns

/-!
# The keys and the dial of the macropad

The scan loop of `codex_keys`: twelve keys on three keypads, the dial and its push switch, the
pixels under the keys, and what `codex_rpc_send_key` makes of an event.
-/
namespace ZephyrApps.KeyEvents
open CStrings CodexHid CodexRpc JsonTexts SwitchEvents SystemRuns

/-- `CODEX_ACT_RELEASE` -/
def actRelease : UInt8 := 0
/-- `CODEX_ACT_PRESS` -/
def actPress : UInt8 := 1
/-- `CODEX_ACT_STEP` -/
def actStep : UInt8 := 2

/-- The arguments of `codex_rpc_send_key`. -/
structure KeyEvent where
  key : Text
  action : UInt8
  agent : Int
  deriving DecidableEq

/-- `codex_rpc_send_key`: the message it hands to `codex_hid_send`. -/
def codexRpcSendKey (e : KeyEvent) : Text :=
  if 0 ≤ e.agent then
    (CodexRpc.snprintf 128 (text "\x7b\"method\":\"v.oai.hid\",\"params\":\x7b\"k\":\"" ++ e.key ++
      text "\",\"act\":" ++ dec e.action.toNat ++ text ",\"ag\":" ++ dec e.agent.toNat ++
        text "\x7d\x7d")).1
  else
    (CodexRpc.snprintf 128 (text "\x7b\"method\":\"v.oai.hid\",\"params\":\x7b\"k\":\"" ++ e.key ++
      text "\",\"act\":" ++ dec e.action.toNat ++ text "\x7d\x7d")).1

/-- `KEYS_PER_PAD` -/
def keysPerPad : ℕ := 4
/-- `NUM_PADS` -/
def numPads : ℕ := 3

/-- One of the `NUM_KEYS` keys. -/
abbrev Key := Fin 12

/-- `key_pin` -/
def keyPin : Fin 4 → ℕ := ![4, 5, 6, 7]

/-- `key_map`: the id and the agent of a key. -/
def keyMap : Key → Text × Int :=
  ![(text "AG00", 0), (text "AG01", 1), (text "AG02", 2), (text "AG03", 3),
    (text "AG04", 4), (text "AG05", 5), (text "ACT06", -1), (text "ACT07", -1),
    (text "ACT08", -1), (text "ACT09", -1), (text "ACT10", -1), (text "ACT12", -1)]

/-- `BIT` -/
def bit (n : ℕ) : ℕ := 1 <<< n

def scanPad (raw pad pressed : ℕ) : ℕ :=
  (List.finRange 4).foldl (fun pressed i =>
    if raw &&& bit (keyPin i) = 0 then pressed ||| bit (pad * keysPerPad + i) else pressed) pressed

/-- `keypads_scan`; `reads` is what `gpio_port_get_raw` returns and reads on each keypad. -/
def keypadsScan (reads : ℕ → Int × ℕ) : Except Int ℕ :=
  (List.range numPads).foldlM (fun pressed pad =>
    if (reads pad).1 ≠ 0 then .error (reads pad).1 else .ok (scanPad (reads pad).2 pad pressed)) 0

/-- The pixels of a keypad: which are lit, unknown after an update that failed. -/
abbrev Pixels := Option (Fin 4 → Bool)

/-- `leds_update`; `rets` is what `led_strip_update_rgb` returns for each keypad. -/
def ledsUpdate (rets : ℕ → Int) (pressed prev : ℕ) (shown : ℕ → Pixels) (pad : ℕ) : Pixels :=
  let mask := (bit keysPerPad - 1) <<< (pad * keysPerPad)
  if numPads ≤ pad ∨ pressed &&& mask = prev &&& mask then shown pad
  else if rets pad = 0 then some fun i => pressed &&& bit (pad * keysPerPad + i) ≠ 0
  else none

/-- `report_keys` -/
def reportKeys (pressed prev : ℕ) : List KeyEvent :=
  (List.finRange 12).flatMap fun (i : Key) =>
    let now := pressed &&& bit i
    if now = prev &&& bit i then []
    else [⟨(keyMap i).1, if now ≠ 0 then actPress else actRelease, (keyMap i).2⟩]

/-- `ENCODER_COUNTS_PER_STEP` -/
def encoderCountsPerStep : Int := 1
/-- `ENCODER_STEPS_PER_POLL` -/
def encoderStepsPerPoll : Int := 8

/-- The statics and the `prev_mask` of `main`, what the pixels show, and what was sent so far. -/
structure Controls where
  prevMask : ℕ
  shown : ℕ → Pixels
  encoderLast : Int
  encoderSynced : Bool
  wasPressed : Bool
  sent : List KeyEvent

structure Poll where
  reads : ℕ → Int × ℕ
  pixels : ℕ → Int
  rotation : Option Int
  switch : Int

/-- The events of a turn of the dial, and the counts they stand for; counts between two polls are
taken to fit an `int32_t`. -/
def encoderSteps (last val : Int) : List KeyEvent × Int :=
  let steps := (val - last).tdiv encoderCountsPerStep
  let clockwise := steps < 0
  let count := min (steps.natAbs : Int) encoderStepsPerPoll
  (List.replicate count.toNat ⟨if clockwise then text "ENC_CW" else text "ENC_CC", actStep, -1⟩,
    steps * encoderCountsPerStep)

/-- `encoder_poll` -/
def encoderPoll (p : Poll) (s : Controls) : Controls :=
  match p.rotation with
  | none => s
  | some val =>
    if s.encoderSynced = false then { s with encoderLast := val, encoderSynced := true }
    else
      let r := encoderSteps s.encoderLast val
      { s with encoderLast := s.encoderLast + r.2, sent := s.sent ++ r.1 }

/-- `encoder_switch_poll` -/
def encoderSwitchPoll (p : Poll) (s : Controls) : Controls :=
  if p.switch < 0 then s
  else
    let pressed := decide (p.switch = 0)
    if pressed ≠ s.wasPressed then
      { s with
          wasPressed := pressed
          sent := s.sent ++ [⟨text "ENC", if pressed then actPress else actRelease, -1⟩] }
    else s

/-- The keypads' part of a round of `main`. -/
def keypadsPoll (p : Poll) (s : Controls) : Controls :=
  match keypadsScan p.reads with
  | .error _ => s
  | .ok mask =>
    if mask ≠ s.prevMask then
      { s with
          prevMask := mask
          shown := ledsUpdate p.pixels mask s.prevMask s.shown
          sent := s.sent ++ reportKeys mask s.prevMask }
    else s

/-- A round of the loop of `main`. -/
def Controls.step (s : Controls) (p : Poll) : Controls :=
  encoderSwitchPoll p (encoderPoll p (keypadsPoll p s))

/-- `main` before its loop, when all is ready: it blanks the pixels. -/
def Controls.start (rets : ℕ → Int) : Controls :=
  ⟨0, ledsUpdate rets 0 (bit 12 - 1) fun _ => none, 0, false, false, []⟩

variable {s : Controls} {p : Poll} {m n raw pad : ℕ} {i : Key}

theorem and_bit (m n : ℕ) : m &&& bit n ≠ 0 ↔ m.testBit n = true := by
  rw [bit, Nat.one_shiftLeft, Nat.and_two_pow]
  cases m.testBit n <;> simp

theorem and_bit_eq (m k n : ℕ) : m &&& bit n = k &&& bit n ↔ m.testBit n = k.testBit n := by
  rw [bit, Nat.one_shiftLeft, Nat.and_two_pow, Nat.and_two_pow]
  have hpos : 0 < 2 ^ n := Nat.two_pow_pos n
  cases m.testBit n <;> cases k.testBit n <;> simp
  omega

def keyId (i : Key) : Text := (keyMap i).1

def dialId : Text := text "ENC"

def switchOf (e : KeyEvent) : Option (Text × Bool) :=
  if e.action = actPress then some (e.key, true)
  else if e.action = actRelease then some (e.key, false)
  else none

/-- The levels of the keys and the dial's switch, by their ids. -/
def levels (mask : ℕ) (dial : Bool) (id : Text) : Bool :=
  match (List.finRange 12).find? fun i => keyId i = id with
  | some i => mask.testBit i
  | none => decide (id = dialId) && dial

theorem levels_key (mask : ℕ) (dial : Bool) (i : Key) : levels mask dial (keyId i) = mask.testBit i := by
  have hfind : ∀ i : Key, (List.finRange 12).find? (fun j => keyId j = keyId i) = some i := by decide
  rw [levels, hfind]

theorem levels_dial (mask : ℕ) (dial : Bool) : levels mask dial dialId = dial := by
  have hfind : (List.finRange 12).find? (fun j => keyId j = dialId) = none := by decide
  rw [levels, hfind]
  simp

/-- The levels of the other ids do not depend on the dial. -/
theorem levels_of_ne_dial {id : Text} (h : id ≠ dialId) (mask : ℕ) (dial dial' : Bool) :
    levels mask dial id = levels mask dial' id := by
  unfold levels
  split
  · rfl
  · simp [h]

/-- Nor do those of other ids than the keys' depend on the keys. -/
theorem levels_of_ne_key {id : Text} (h : ∀ i, keyId i ≠ id) (mask mask' : ℕ) (dial : Bool) :
    levels mask dial id = levels mask' dial id := by
  have hfind : (List.finRange 12).find? (fun j => keyId j = id) = none :=
    List.find?_eq_none.mpr fun i _ => by simpa using h i
  rw [levels, levels, hfind]

theorem switchOf_reportKeys (mask prev : ℕ) (dial : Bool) :
    (reportKeys mask prev).filterMap switchOf =
      changes ((List.finRange 12).map keyId) (levels prev dial) (levels mask dial) := by
  rw [reportKeys, changes, List.flatMap_map, List.filterMap_flatMap]
  apply List.flatMap_congr
  intro i _
  rw [levels_key, levels_key]
  simp only [and_bit_eq, and_bit]
  split
  · rfl
  · cases mask.testBit i <;> rfl

/-- The steps of the dial are no presses. -/
theorem switchOf_steps (last val : Int) : (encoderSteps last val).1.filterMap switchOf = [] := by
  rw [encoderSteps, List.filterMap_replicate]
  rfl

/-- The events tell the levels that the loop holds. -/
def InStep (s : Controls) : Prop :=
  Tells (s.sent.filterMap switchOf) (levels s.prevMask s.wasPressed)

theorem keyIds_nodup : ((List.finRange 12).map keyId).Nodup := by decide

theorem keypadsPoll_inStep (p : Poll) (h : InStep s) : InStep (keypadsPoll p s) := by
  unfold keypadsPoll
  split
  · exact h
  rename_i mask _
  split
  · have hkeys := Tells.changes (levels mask s.wasPressed) h keyIds_nodup fun id hid =>
      levels_of_ne_key (fun i hi => hid (List.mem_map.mpr ⟨i, List.mem_finRange i, hi⟩)) _ _ _
    rw [InStep, List.filterMap_append, switchOf_reportKeys _ _ s.wasPressed]
    exact hkeys
  · exact h

theorem encoderPoll_inStep (p : Poll) (h : InStep s) : InStep (encoderPoll p s) := by
  unfold encoderPoll
  split
  · exact h
  · split
    · exact h
    · rw [InStep, List.filterMap_append, switchOf_steps, List.append_nil]
      exact h

theorem encoderSwitchPoll_inStep (p : Poll) (h : InStep s) : InStep (encoderSwitchPoll p s) := by
  unfold encoderSwitchPoll
  split
  · exact h
  simp only
  split
  · rename_i hchanged
    have hdial := Tells.changes (levels s.prevMask (decide (p.switch = 0))) h
      (List.nodup_singleton dialId) fun id hid =>
        levels_of_ne_dial (fun e => hid (List.mem_singleton.mpr e)) _ _ _
    rw [changes, List.flatMap_singleton, levels_dial, levels_dial, if_neg hchanged] at hdial
    rw [InStep, List.filterMap_append]
    cases hp : decide (p.switch = 0) <;> rw [hp] at hdial <;> exact hdial
  · exact h

theorem run_inStep (rets : ℕ → Int) (ps : List Poll) :
    InStep (run Controls.step (.start rets) ps) := by
  apply run_induction (I := fun _ s => InStep s)
  · have hnone : levels 0 false = fun _ => false := by
      funext id
      unfold levels
      split <;> simp
    rw [InStep, Controls.start, hnone]
    exact tells_nil
  intro past p h
  exact encoderSwitchPoll_inStep p (encoderPoll_inStep p (keypadsPoll_inStep p h))

@[simp] theorem encoderPoll_prevMask (p : Poll) (s : Controls) :
    (encoderPoll p s).prevMask = s.prevMask := by
  unfold encoderPoll
  split
  · rfl
  · split <;> rfl

@[simp] theorem encoderSwitchPoll_prevMask (p : Poll) (s : Controls) :
    (encoderSwitchPoll p s).prevMask = s.prevMask := by
  unfold encoderSwitchPoll
  split
  · rfl
  · simp only
    split <;> rfl

def pixelsOf (mask pad : ℕ) (i : Fin 4) : Bool := mask.testBit (pad * keysPerPad + i)

theorem padMask_eq (m k pad : ℕ) :
    m &&& (bit keysPerPad - 1) <<< (pad * keysPerPad) =
        k &&& (bit keysPerPad - 1) <<< (pad * keysPerPad) ↔ pixelsOf m pad = pixelsOf k pad := by
  have hbit : ∀ j, ((bit keysPerPad - 1) <<< (pad * keysPerPad)).testBit j =
      (decide (pad * keysPerPad ≤ j) && decide (j - pad * keysPerPad < keysPerPad)) := by
    intro j
    rw [bit, Nat.one_shiftLeft, Nat.testBit_shiftLeft, Nat.testBit_two_pow_sub_one]
  constructor
  · intro h
    funext i
    have hi := congrArg (fun x => x.testBit (pad * keysPerPad + i)) h
    have hlt : (i : ℕ) < keysPerPad := i.isLt
    rw [pixelsOf, pixelsOf]
    simpa [hbit, hlt] using hi
  · intro h
    apply Nat.eq_of_testBit_eq
    intro j
    rw [Nat.testBit_and, Nat.testBit_and, hbit]
    by_cases hj : pad * keysPerPad ≤ j ∧ j - pad * keysPerPad < keysPerPad
    · have hi := congrFun h ⟨j - pad * keysPerPad, hj.2⟩
      rw [pixelsOf, pixelsOf, Nat.add_sub_cancel' hj.1] at hi
      rw [hi]
    · have hout : (decide (pad * keysPerPad ≤ j) && decide (j - pad * keysPerPad < keysPerPad)) =
          false := by
        rw [Bool.and_eq_false_iff, decide_eq_false_iff_not, decide_eq_false_iff_not]
        exact not_and_or.mp hj
      rw [hout, Bool.and_false, Bool.and_false]

variable {rets : ℕ → Int} {mask prev : ℕ} {shown : ℕ → Pixels}

/-- Only a keypad whose keys changed is updated. -/
theorem ledsUpdate_same (h : pixelsOf mask pad = pixelsOf prev pad) :
    ledsUpdate rets mask prev shown pad = shown pad := if_pos (.inr ((padMask_eq _ _ _).mpr h))

theorem ledsUpdate_changed (hpad : pad < numPads) (h : pixelsOf mask pad ≠ pixelsOf prev pad) :
    ledsUpdate rets mask prev shown pad =
      if rets pad = 0 then some (pixelsOf mask pad) else none := by
  have hbits : (fun i : Fin 4 => decide (mask &&& bit (pad * keysPerPad + i) ≠ 0)) =
      pixelsOf mask pad := by
    funext i
    rw [pixelsOf, Bool.decide_congr (and_bit _ _), Bool.decide_eq_true]
  rw [ledsUpdate, hbits]
  apply if_neg
  rw [padMask_eq, not_or]
  exact ⟨Nat.not_le.mpr hpad, h⟩

/-- A keypad shows the mask; if all its updates `ok`, for certain. -/
def Shows (ok : Prop) (mask pad : ℕ) (pixels : Pixels) : Prop :=
  (pixels = none ∨ pixels = some (pixelsOf mask pad)) ∧ (ok → pixels ≠ none)

theorem Shows.pushed {ok : Prop} (hpad : pad < numPads)
    (h : pixelsOf mask pad ≠ pixelsOf prev pad) :
    Shows (ok ∧ rets pad = 0) mask pad (ledsUpdate rets mask prev shown pad) := by
  rw [ledsUpdate_changed hpad h]
  split
  · exact ⟨.inr rfl, fun _ => Option.some_ne_none _⟩
  · rename_i hret
    exact ⟨.inl rfl, fun hok => absurd hok.2 hret⟩

theorem Shows.update {ok : Prop} (hpad : pad < numPads) (h : Shows ok prev pad (shown pad)) :
    Shows (ok ∧ rets pad = 0) mask pad (ledsUpdate rets mask prev shown pad) := by
  by_cases hsame : pixelsOf mask pad = pixelsOf prev pad
  · rw [ledsUpdate_same hsame, Shows, hsame]
    exact ⟨h.1, fun hok => h.2 hok.1⟩
  · exact Shows.pushed hpad hsame

theorem Shows.weaken {ok ok' : Prop} {pixels : Pixels} (h : Shows ok mask pad pixels)
    (himp : ok' → ok) : Shows ok' mask pad pixels := ⟨h.1, fun hok => h.2 (himp hok)⟩

theorem keypadsPoll_shows {ok : Prop} (hpad : pad < numPads)
    (h : Shows ok s.prevMask pad (s.shown pad)) :
    Shows (ok ∧ p.pixels pad = 0) (keypadsPoll p s).prevMask pad ((keypadsPoll p s).shown pad) := by
  unfold keypadsPoll
  split
  · exact h.weaken And.left
  · split
    · exact h.update hpad
    · exact h.weaken And.left

/-- The first update is pushed to every keypad. -/
theorem blanked (hpad : pad < numPads) : pixelsOf 0 pad ≠ pixelsOf (bit 12 - 1) pad := by
  intro h
  have h0 := congrFun h 0
  rw [pixelsOf, pixelsOf, bit, Nat.one_shiftLeft, Nat.testBit_two_pow_sub_one] at h0
  simp only [numPads, keysPerPad] at hpad h0
  simp at h0
  omega

@[simp] theorem encoderPoll_shown (p : Poll) (s : Controls) :
    (encoderPoll p s).shown = s.shown := by
  unfold encoderPoll
  split
  · rfl
  · split <;> rfl

@[simp] theorem encoderSwitchPoll_shown (p : Poll) (s : Controls) :
    (encoderSwitchPoll p s).shown = s.shown := by
  unfold encoderSwitchPoll
  split
  · rfl
  · simp only
    split <;> rfl

/-- The pixels under the keys show what the host was told. In every run a keypad whose last
update was pushed lights exactly the keys whose last event is a press; and it always does
if every update of it succeeds. -/
theorem pixels_show_keys (rets : ℕ → Int) (ps : List Poll) (pad : ℕ) (hpad : pad < numPads) :
    let s := run Controls.step (.start rets) ps
    let told := s.sent.filterMap switchOf
    (s.shown pad = none ∨ ∃ lit, s.shown pad = some lit ∧
      ∀ (i : Fin 4) (k : Key), (k : ℕ) = pad * keysPerPad + i →
        (lit i = true ↔ (eventsOf (keyId k) told).getLast? = some true)) ∧
    (rets pad = 0 → (∀ p ∈ ps, p.pixels pad = 0) → s.shown pad ≠ none) := by
  intro s told
  let ok (past : List Poll) : Prop := rets pad = 0 ∧ ∀ p ∈ past, p.pixels pad = 0
  have hshows : Shows (ok ps) s.prevMask pad (s.shown pad) := by
    apply run_induction (I := fun past (s : Controls) => Shows (ok past) s.prevMask pad (s.shown pad))
    · have hstart : Shows (True ∧ rets pad = 0) 0 pad
          (ledsUpdate rets 0 (bit 12 - 1) (fun _ => none) pad) := Shows.pushed hpad (blanked hpad)
      exact hstart.weaken fun h => ⟨trivial, h.1⟩
    intro past p h
    rw [Controls.step, encoderSwitchPoll_prevMask, encoderPoll_prevMask, encoderSwitchPoll_shown,
      encoderPoll_shown]
    refine (keypadsPoll_shows hpad h).weaken fun hok => ⟨⟨hok.1, fun q hq => ?_⟩, ?_⟩
    · exact hok.2 q (List.mem_append_left _ hq)
    · exact hok.2 p (by simp)
  refine ⟨hshows.1.imp id fun hlit => ⟨_, hlit, fun i k hk => ?_⟩,
    fun hret hpixels => hshows.2 ⟨hret, hpixels⟩⟩
  obtain ⟨n, hn, hlevel⟩ := run_inStep rets ps (keyId k)
  rw [levels_key] at hlevel
  rw [hn, alternating_getLast, pixelsOf, ← hk, hlevel, decide_eq_true_eq]

/-- The second key of the last keypad is pressed: the host is told, and the pixel lights. -/
theorem pixels_show_keys_pressed :
    let p : Poll := ⟨fun pad => (0, if pad = 2 then 0xDF else 0xFF), fun _ => 0, none, 1⟩
    let s := run Controls.step (.start fun _ => 0) [p]
    s.sent = [⟨text "ACT09", actPress, -1⟩] ∧
      ∃ lit, s.shown 2 = some lit ∧ lit ⟨1, by decide⟩ = true := by
  intro p s
  obtain ⟨hshown, hpushed⟩ := pixels_show_keys (fun _ => 0) [p] 2 (by decide)
  obtain ⟨lit, hlit, hkeys⟩ := hshown.resolve_left (hpushed rfl (by simp [p]))
  have hsent : s.sent = [⟨text "ACT09", actPress, -1⟩] := by decide
  refine ⟨hsent, lit, hlit, (hkeys ⟨1, by decide⟩ 9 rfl).mpr ?_⟩
  change (eventsOf (keyId 9) (s.sent.filterMap switchOf)).getLast? = some true
  rw [hsent]
  decide

def turnOf (e : KeyEvent) : Int :=
  if e.key = text "ENC_CC" then 1 else if e.key = text "ENC_CW" then -1 else 0

def turns (sent : List KeyEvent) : Int := (sent.map turnOf).sum

/-- At most `ENCODER_STEPS_PER_POLL` steps either way. -/
def clamp (d : Int) : Int := max (-encoderStepsPerPoll) (min d encoderStepsPerPoll)

/-- The differences of consecutive readings, clamped and added up. -/
def clamped : List Int → Int
  | [] => 0
  | [_] => 0
  | a :: b :: rs => clamp (b - a) + clamped (b :: rs)

theorem clamped_concat (rs : List Int) (a b : Int) :
    clamped (rs ++ [a, b]) = clamped (rs ++ [a]) + clamp (b - a) := by
  induction rs with
  | nil => simp [clamped]
  | cons c rs ih =>
    cases rs with
    | nil =>
      simp only [List.cons_append, List.nil_append, clamped]
      omega
    | cons d rs =>
      simp only [List.cons_append, clamped] at ih ⊢
      omega

theorem turns_append (sent sent' : List KeyEvent) :
    turns (sent ++ sent') = turns sent + turns sent' := by
  rw [turns, List.map_append, List.sum_append]
  rfl

theorem turns_replicate (n : ℕ) (e : KeyEvent) : turns (List.replicate n e) = n * turnOf e := by
  rw [turns, List.map_replicate, List.sum_replicate, nsmul_eq_mul]

theorem turnOf_clockwise : turnOf ⟨text "ENC_CW", actStep, -1⟩ = -1 := by decide

theorem turnOf_anticlockwise : turnOf ⟨text "ENC_CC", actStep, -1⟩ = 1 := by decide

/-- A turn of the dial is told up to the clamp, and the whole of it is taken up. -/
theorem encoderSteps_spec (last val : Int) :
    turns (encoderSteps last val).1 = clamp (val - last) ∧ (encoderSteps last val).2 = val - last := by
  simp only [encoderSteps, encoderCountsPerStep, Int.tdiv_one, mul_one, and_true, turns_replicate,
    clamp, encoderStepsPerPoll]
  by_cases hneg : val - last < 0
  · simp only [hneg, if_true, turnOf_clockwise]
    omega
  · simp only [hneg, if_false, turnOf_anticlockwise]
    omega

/-- Presses and releases do not turn the dial. -/
theorem turns_of_switches {sent : List KeyEvent}
    (h : ∀ e ∈ sent, (∃ i, e.key = keyId i) ∨ e.key = dialId) : turns sent = 0 := by
  have hcc : ∀ i : Key, keyId i ≠ text "ENC_CC" ∧ keyId i ≠ text "ENC_CW" := by decide
  have hzero : ∀ e ∈ sent, turnOf e = 0 := by
    intro e he
    cases h e he with
    | inl hk =>
      obtain ⟨i, hi⟩ := hk
      rw [turnOf, hi, if_neg (hcc i).1, if_neg (hcc i).2]
    | inr hd =>
      rw [turnOf, hd]
      decide
  rw [turns]
  apply List.sum_eq_zero
  intro d hd
  obtain ⟨e, he, rfl⟩ := List.mem_map.mp hd
  exact hzero e he

theorem mem_reportKeys {e : KeyEvent} (h : e ∈ reportKeys mask prev) :
    ∃ i : Key, e.key = keyId i ∧ e.agent = (keyMap i).2 ∧ (e.action = actPress ∨ e.action = actRelease) := by
  obtain ⟨i, -, he⟩ := List.mem_flatMap.mp h
  simp only at he
  split at he
  · cases he
  · rw [List.mem_singleton.mp he]
    refine ⟨i, rfl, rfl, ?_⟩
    simp only
    split
    · exact .inl rfl
    · exact .inr rfl

def readings (ps : List Poll) : List Int := ps.filterMap Poll.rotation

/-- The last reading is kept, and the steps so far are told. -/
structure Turned (rs : List Int) (s : Controls) : Prop where
  synced : s.encoderSynced = false → rs = []
  last : s.encoderSynced = true → ∃ front, rs = front ++ [s.encoderLast]
  told : turns s.sent = clamped rs

variable {rs : List Int}

theorem Turned.keypadsPoll (h : Turned rs s) : Turned rs (keypadsPoll p s) := by
  unfold KeyEvents.keypadsPoll
  split
  · exact h
  · split
    · refine ⟨h.synced, h.last, ?_⟩
      rw [turns_append, h.told, turns_of_switches, add_zero]
      intro e he
      obtain ⟨i, hi, -⟩ := mem_reportKeys he
      exact .inl ⟨i, hi⟩
    · exact h

theorem Turned.encoderSwitchPoll (h : Turned rs s) : Turned rs (encoderSwitchPoll p s) := by
  unfold KeyEvents.encoderSwitchPoll
  split
  · exact h
  simp only
  split
  · refine ⟨h.synced, h.last, ?_⟩
    rw [turns_append, h.told, turns_of_switches, add_zero]
    intro e he
    rw [List.mem_singleton.mp he]
    exact .inr rfl
  · exact h

theorem Turned.encoderPoll (h : Turned rs s) :
    Turned (rs ++ p.rotation.toList) (encoderPoll p s) := by
  unfold KeyEvents.encoderPoll
  cases hr : p.rotation with
  | none =>
    rw [Option.toList_none, List.append_nil]
    exact h
  | some val =>
    simp only [Option.toList_some]
    split
    · rename_i hsync
      have hrs := h.synced hsync
      refine ⟨fun hf => Bool.noConfusion hf, fun _ => ⟨rs, rfl⟩, ?_⟩
      rw [h.told, hrs]
      rfl
    · rename_i hsync
      have hs : s.encoderSynced = true := Bool.eq_true_of_not_eq_false hsync
      obtain ⟨front, hfront⟩ := h.last hs
      obtain ⟨htold, htaken⟩ := encoderSteps_spec s.encoderLast val
      refine ⟨fun hf => absurd hf hsync, fun _ => ⟨rs, ?_⟩, ?_⟩
      · rw [htaken]
        simp
      · rw [turns_append, h.told, htold, hfront, List.append_assoc, List.singleton_append,
          clamped_concat]

theorem run_turned (rets : ℕ → Int) (ps : List Poll) :
    Turned (readings ps) (run Controls.step (.start rets) ps) := by
  apply run_induction (I := fun past (s : Controls) => Turned (readings past) s)
  · exact ⟨fun _ => rfl, fun h => Bool.noConfusion h, rfl⟩
  intro past p h
  have hr : readings (past ++ [p]) = readings past ++ p.rotation.toList := by
    rw [readings, List.filterMap_append, List.filterMap_cons]
    cases p.rotation <;> rfl
  rw [hr]
  exact h.keypadsPoll.encoderPoll.encoderSwitchPoll

/-- A dial that is never turned faster than the loop tells is told exactly. -/
theorem clamped_slow {a : Int} (h : (a :: rs).IsChain fun a b => |b - a| ≤ encoderStepsPerPoll) :
    clamped (a :: rs) = (a :: rs).getLast (List.cons_ne_nil _ _) - a := by
  induction rs generalizing a with
  | nil => simp [clamped]
  | cons b rs ih =>
    obtain ⟨hab, hrest⟩ := List.isChain_cons_cons.mp h
    have hclamp : clamp (b - a) = b - a := by
      rw [abs_le] at hab
      rw [clamp, min_eq_left hab.2, max_eq_right hab.1]
    rw [clamped, ih hrest, hclamp, List.getLast_cons (List.cons_ne_nil _ _)]
    omega

/-- The dial's steps account for its turns. In every run the steps that were sent, anticlockwise ones
less clockwise ones, are the sum of its movements between readings, each cut to eight; and the
whole way from the first reading to the last if no movement was larger. -/
theorem dial_accounts (rets : ℕ → Int) (ps : List Poll) :
    let s := run Controls.step (.start rets) ps
    turns s.sent = clamped (readings ps) ∧
      ∀ a rs, readings ps = a :: rs →
        (a :: rs).IsChain (fun a b => |b - a| ≤ encoderStepsPerPoll) →
          turns s.sent = (a :: rs).getLast (List.cons_ne_nil _ _) - a := by
  intro s
  have h := (run_turned rets ps).told
  refine ⟨h, fun a rs hrs hslow => ?_⟩
  rw [h, hrs, clamped_slow hslow]

/-- The members of an event's `params`. -/
def paramsOf (e : KeyEvent) : List (Text × Text) :=
  [(text "k", quoted e.key), (text "act", dec e.action.toNat)] ++
    if 0 ≤ e.agent then [(text "ag", dec e.agent.toNat)] else []

def keyObject (e : KeyEvent) : JsonObject where
  lead := []
  blank := []
  members :=
    [tight (text "method") (quoted (text "v.oai.hid")),
      tight (text "params") (objectText [] ((paramsOf e).map fun m => tight m.1 m.2))]
  trail := []

/-- An event with a short name without escapes, and one-digit numbers. -/
structure Brief (e : KeyEvent) : Prop where
  chars : Chars e.key
  key : e.key.length ≤ 6
  action : e.action.toNat < 10
  agent : e.agent < 10
  agentKey : 0 ≤ e.agent → e.key.length ≤ 4

theorem dec_digit {n : ℕ} (h : n < 10) : IntPart (dec n) ∧ (dec n).length = 1 := by
  have hall : ∀ n : Fin 10, (dec n = text "0" ∨ ((dec n ≠ [] ∧ ∀ c ∈ dec n, IsDigit c) ∧
      (dec n).head? ≠ some (ascii '0'))) ∧ (dec n).length = 1 := by decide
  exact hall ⟨n, h⟩

variable {e : KeyEvent}

theorem keyObject_text (e : KeyEvent) :
    (keyObject e).text =
      text "\x7b\"method\":\"v.oai.hid\",\"params\":\x7b\"k\":\"" ++ e.key ++
        text "\",\"act\":" ++ dec e.action.toNat ++
          (if 0 ≤ e.agent then text ",\"ag\":" ++ dec e.agent.toNat else []) ++ text "\x7d\x7d" := by
  have h1 : text "\x7b\"method\":\"v.oai.hid\",\"params\":\x7b\"k\":\"" =
      beginObject :: (quoted (text "method") ++ nameSeparator :: (quoted (text "v.oai.hid") ++
        valueSeparator :: (quoted (text "params") ++ nameSeparator :: beginObject ::
          (quoted (text "k") ++ [nameSeparator, quote])))) := by decide
  have h2 : text "\",\"act\":" =
      quote :: valueSeparator :: (quoted (text "act") ++ [nameSeparator]) := by decide
  have h3 : text ",\"ag\":" = valueSeparator :: (quoted (text "ag") ++ [nameSeparator]) := by decide
  have h4 : text "\x7d\x7d" = [endObject, endObject] := rfl
  rw [h1, h2, h3, h4]
  by_cases ha : 0 ≤ e.agent <;>
    simp [keyObject, paramsOf, ha, tight, JsonObject.text, objectText, separated, Member.text,
      quoted]

theorem Brief.length (h : Brief e) : (keyObject e).text.length ≤ 59 := by
  have h1 : (text "\x7b\"method\":\"v.oai.hid\",\"params\":\x7b\"k\":\"").length = 37 := by decide
  have h2 : (text "\",\"act\":").length = 8 := by decide
  have h3 : (text ",\"ag\":").length = 6 := by decide
  have h4 : (text "\x7d\x7d").length = 2 := by decide
  have hact := (dec_digit h.action).2
  have hkey := h.key
  rw [keyObject_text]
  simp only [List.length_append, h1, h2, h4, hact]
  split
  · rename_i ha
    have hagent := (dec_digit (n := e.agent.toNat) (by have := h.agent; omega)).2
    have hshort := h.agentKey ha
    rw [List.length_append, h3, hagent]
    omega
  · rw [List.length_nil]
    omega

theorem codexRpcSendKey_eq (h : Brief e) : codexRpcSendKey e = (keyObject e).text := by
  have hlen := h.length
  rw [keyObject_text] at hlen ⊢
  unfold codexRpcSendKey CodexRpc.snprintf
  split
  · rename_i ha
    simp only [if_pos ha, List.append_assoc] at hlen ⊢
    exact List.take_of_length_le (by omega)
  · rename_i ha
    simp only [if_neg ha, List.append_nil] at hlen ⊢
    exact List.take_of_length_le (by omega)

theorem keyObject_legal (h : Brief e) : (keyObject e).Legal := by
  have hnil : Whitespace [] := by decide
  have hmethod : Chars (text "v.oai.hid") := chars_of_unescaped (by decide)
  have hparams : Value (objectText [] ((paramsOf e).map fun m => tight m.1 m.2)) := by
    apply value_tight
    intro m hm
    have hk : Chars (text "k") := chars_of_unescaped (by decide)
    have hact : Chars (text "act") := chars_of_unescaped (by decide)
    have hag : Chars (text "ag") := chars_of_unescaped (by decide)
    cases List.mem_append.mp hm with
    | inl hm =>
      rcases List.mem_pair.mp hm with rfl | rfl
      · exact ⟨hk, .string h.chars⟩
      · exact ⟨hact, value_int (dec_digit h.action).1⟩
    | inr hm =>
      split at hm
      · rw [List.mem_singleton.mp hm]
        exact ⟨hag, value_int (dec_digit (n := e.agent.toNat) (by have := h.agent; omega)).1⟩
      · cases hm
  refine ⟨hnil, hnil, fun m hm => ?_, fun m hm => ?_, hnil⟩
  · rcases List.mem_pair.mp hm with rfl | rfl <;>
      exact tight_spaced (chars_of_unescaped (by decide)) _
  · rcases List.mem_pair.mp hm with rfl | rfl
    · exact .string hmethod
    · exact hparams

/-- A message that fits into one report with its newline is sent in one. -/
theorem codexHidSend_single {json : Text} (h : json.length < payloadMax) (answers : ℕ → Int) :
    codexHidSend json answers = ([reportOf (json ++ text "\n")], answers 0) := by
  have hlen : (json ++ text "\n").length ≤ payloadMax := by
    rw [List.length_append]
    exact h
  have hroom : ¬codexJsonMax ≤ (json ++ text "\n").length := by
    rw [Nat.not_le]
    exact hlen.trans_lt (by decide)
  have hne : json ++ text "\n" ≠ [] := List.append_ne_nil_of_right_ne_nil _ (by decide)
  simp only [codexHidSend, if_neg hroom]
  rw [sendLoop, if_neg hne, List.take_of_length_le hlen]
  split
  · rfl
  · rename_i hok
    rw [List.drop_of_length_le hlen, sendLoop, if_pos rfl, not_not.mp hok]

def Genuine (e : KeyEvent) : Prop :=
  (∃ i : Key, e.key = keyId i ∧ e.agent = (keyMap i).2 ∧
      (e.action = actPress ∨ e.action = actRelease)) ∨
    (e.key = dialId ∧ e.agent = -1 ∧ (e.action = actPress ∨ e.action = actRelease)) ∨
      (e.key = text "ENC_CW" ∨ e.key = text "ENC_CC") ∧ e.agent = -1 ∧ e.action = actStep

theorem Genuine.brief (h : Genuine e) : Brief e := by
  have hkeys : ∀ i : Key, (∀ c ∈ keyId i, 0x20 ≤ c ∧ c ≠ quote ∧ c ≠ backslash) ∧
      (keyId i).length ≤ 6 ∧ (keyMap i).2 < 10 ∧ (0 ≤ (keyMap i).2 → (keyId i).length ≤ 4) := by
    decide
  have hdial : ∀ id ∈ [dialId, text "ENC_CW", text "ENC_CC"],
      (∀ c ∈ id, 0x20 ≤ c ∧ c ≠ quote ∧ c ≠ backslash) ∧ id.length ≤ 6 := by decide
  have hswitch : e.action = actPress ∨ e.action = actRelease → e.action.toNat < 10 := by
    intro ha
    cases ha with
    | inl ha => rw [ha]; decide
    | inr ha => rw [ha]; decide
  have hstep : e.action = actStep → e.action.toNat < 10 := fun ha => by rw [ha]; decide
  -- the dial has no agent
  have hnone : e.agent = -1 → e.key ∈ [dialId, text "ENC_CW", text "ENC_CC"] →
      e.action.toNat < 10 → Brief e := fun hagent hid ha => by
    obtain ⟨hchars, hlen⟩ := hdial e.key hid
    exact ⟨chars_of_unescaped hchars, hlen, ha, by omega, by omega⟩
  rcases h with ⟨i, hk, hagent, ha⟩ | ⟨hk, hagent, ha⟩ | ⟨hk, hagent, ha⟩
  · obtain ⟨hchars, hlen, hten, hfour⟩ := hkeys i
    exact ⟨hk ▸ chars_of_unescaped hchars, hk ▸ hlen, hswitch ha, hagent ▸ hten,
      fun h => hk ▸ hfour (hagent ▸ h)⟩
  · exact hnone hagent (by simp [hk]) (hswitch ha)
  · exact hnone hagent (by cases hk <;> simp [*]) (hstep ha)

theorem encoderSteps_genuine {last val : Int} (h : e ∈ (encoderSteps last val).1) : Genuine e := by
  obtain ⟨-, he⟩ := List.mem_replicate.mp h
  rw [he]
  refine .inr (.inr ⟨?_, rfl, rfl⟩)
  simp only
  split
  · exact .inl rfl
  · exact .inr rfl

theorem step_genuine (h : ∀ e ∈ s.sent, Genuine e) : ∀ e ∈ (s.step p).sent, Genuine e := by
  have hkeys : ∀ e ∈ (keypadsPoll p s).sent, Genuine e := by
    unfold keypadsPoll
    split
    · exact h
    · split
      · exact List.forall_mem_append.mpr ⟨h, fun e he => .inl (mem_reportKeys he)⟩
      · exact h
  have hdial : ∀ e ∈ (encoderPoll p (keypadsPoll p s)).sent, Genuine e := by
    unfold encoderPoll
    split
    · exact hkeys
    · split
      · exact hkeys
      · exact List.forall_mem_append.mpr ⟨hkeys, fun e he => encoderSteps_genuine he⟩
  unfold Controls.step encoderSwitchPoll
  split
  · exact hdial
  simp only
  split
  · refine List.forall_mem_append.mpr ⟨hdial, fun e he => ?_⟩
    rw [List.mem_singleton.mp he]
    refine .inr (.inl ⟨rfl, rfl, ?_⟩)
    simp only
    split
    · exact .inl rfl
    · exact .inr rfl
  · exact hdial

/-- No event is ever cut. In every run each event that is sent is a legal JSON object with
`v.oai.hid` as its method and the event as its parameters, which `snprintf` does not cut; and it
goes out in a single report, so that a report that is refused loses the event as a whole. -/
theorem events_are_whole (rets : ℕ → Int) (ps : List Poll) :
    ∀ e ∈ (run Controls.step (.start rets) ps).sent,
      codexRpcSendKey e = (keyObject e).text ∧ (keyObject e).Legal ∧
        ∀ answers, codexHidSend (codexRpcSendKey e) answers =
          ([reportOf ((keyObject e).text ++ text "\n")], answers 0) := by
  have hall : ∀ e ∈ (run Controls.step (.start rets) ps).sent, Genuine e := by
    apply run_induction (I := fun _ (s : Controls) => ∀ e ∈ s.sent, Genuine e)
    · intro e he
      cases he
    · exact fun _ _ h => step_genuine h
  intro e he
  have hbrief := (hall e he).brief
  have hlen := hbrief.length
  rw [codexRpcSendKey_eq hbrief]
  exact ⟨rfl, keyObject_legal hbrief, fun answers =>
    codexHidSend_single (hlen.trans_lt (by decide)) answers⟩

def dialPressed : Poll := ⟨fun _ => (-5, 0), fun _ => 0, none, 0⟩

theorem events_are_whole_dial :
    let e : KeyEvent := ⟨text "ENC", actPress, -1⟩
    codexRpcSendKey e = (keyObject e).text ∧
      codexHidSend (codexRpcSendKey e) (fun _ => 0) = ([reportOf ((keyObject e).text ++ text "\n")], 0) :=
  have h := events_are_whole (fun _ => 0) [dialPressed] ⟨text "ENC", actPress, -1⟩ (by decide)
  ⟨h.1, h.2.2 fun _ => 0⟩

end ZephyrApps.KeyEvents
