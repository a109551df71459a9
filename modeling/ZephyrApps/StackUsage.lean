import Mathlib.Algebra.Order.BigOperators.Group.List
import Mathlib.Algebra.Order.Ring.Nat
import Mathlib.Data.List.Induction
import ZephyrApps.DepthLists

/-!
# The stack that a system call takes

`stack_usage.py` lists the calls that the debugging information shows for each system call, in
preorder with their depths, and reports what the heaviest of its call chains takes. The loop that
pops the current stack removes from the list it goes over, and so leaves some of what it should
remove.
-/
namespace ZephyrApps.StackUsage
open DepthLists

/-- The tags that `check_call_sites` tells apart -/
inductive Tag where
  | callSite | inlinedSubroutine | other

/-- A debugging entry: `DW_AT_abstract_origin`, if it has one, the addresses that `tags` finds for
it, and its children. -/
inductive Die where
  | mk (tag : Tag) (origin : Option ℕ) (pointers : List ℕ) (children : List Die)

def Die.tag : Die → Tag
  | .mk tag _ _ _ => tag

def Die.origin : Die → Option ℕ
  | .mk _ origin _ _ => origin

def Die.pointers : Die → List ℕ
  | .mk _ _ pointers _ => pointers

def Die.children : Die → List Die
  | .mk _ _ _ children => children

/-- The entries that `check_call_sites`, here `check`, appends for a child. -/
def checkEntry (info : ℕ → Die) (cuOffset : ℕ)
    (check : Die → ℕ → List (ℕ × ℕ) → Option (List (ℕ × ℕ))) (depth : ℕ) (tree : List (ℕ × ℕ))
    (child : Die) : Option (List (ℕ × ℕ)) :=
  match child.tag, child.origin with
  | .other, _ => some (tree ++ (child.pointers.filter (· ≠ 0)).map fun ptr => (ptr, depth))
  | _, none => some tree
  | _, some origin =>
    let target := origin + cuOffset
    check (info target) (depth + 1) (tree ++ [(target, depth)])

/-- A round of `check_call_sites`: debugging entries can nest others. -/
def checkChild (info : ℕ → Die) (cuOffset : ℕ)
    (check : Die → ℕ → List (ℕ × ℕ) → Option (List (ℕ × ℕ))) (depth : ℕ) (tree : List (ℕ × ℕ))
    (child : Die) : Option (List (ℕ × ℕ)) :=
  (checkEntry info cuOffset check depth tree child).bind fun tree =>
    if child.children.isEmpty then some tree else check child depth tree

/-- `check_call_sites`, on an interpreter that takes `limit` calls within one another: the call tree
with what is appended to it. -/
def checkCallSites (info : ℕ → Die) (cuOffset : ℕ) :
    ℕ → Die → ℕ → List (ℕ × ℕ) → Option (List (ℕ × ℕ))
  | 0, _, _, _ => none
  | limit + 1, die, depth, tree =>
    die.children.foldlM (checkChild info cuOffset (checkCallSites info cuOffset limit) depth) tree

/-- A round of `get_call_tree`: a system call that another one calls gets no tree of its own. -/
def addSyscall (info : ℕ → Die) (cuOffset limit : ℕ) (tree : List (ℕ × ℕ)) (address : ℕ) :
    Option (List (ℕ × ℕ)) :=
  if address ∈ tree.map Prod.fst then some tree
  else
    let tree := tree ++ [(address, 0)]
    if (info address).children.isEmpty then some tree
    else checkCallSites info cuOffset limit (info address) 1 tree

/-- `get_call_tree` for one object file -/
def getCallTree (info : ℕ → Die) (cuOffset limit : ℕ) (syscalls : List ℕ) :
    Option (List (ℕ × ℕ)) := syscalls.foldlM (addSyscall info cuOffset limit) []

/-- An entry of the call tree after `get_names` -/
structure Func (ν : Type) where
  name : ν
  depth : ℕ
  address : ℕ
  usage : ℕ
  deriving DecidableEq

variable {ν : Type}

/-- An entry as `get_names` extends it: a function that has no usage takes `0`. -/
def named (name : ℕ → ν) (memUsage : ℕ → Option ℕ) (entry : ℕ × ℕ) : Func ν :=
  ⟨name entry.1, entry.2, entry.1, (memUsage entry.1).getD 0⟩

/-- `get_names` for one object file -/
def getNames (name : ℕ → ν) (memUsage : ℕ → Option ℕ) (tree : List (ℕ × ℕ)) : List (Func ν) :=
  tree.map (named name memUsage)

def total (stack : List (Func ν)) : ℕ := (stack.map Func.usage).sum

/-- `check_stacks` -/
def checkStacks (currS maxS : List (Func ν)) : List (Func ν) :=
  if total maxS ≤ total currS then currS else maxS

variable [DecidableEq ν]

/-- A round of the loop of `max_mem_usage` over the current stack: `remove` takes the first entry
that is equal out of the list that the loop goes over. An index behind its end stays behind it. -/
def popRound (nextDepth : ℕ) (stack : List (Func ν)) (i : ℕ) : List (Func ν) :=
  match stack[i]? with
  | none => stack
  | some func => if nextDepth ≤ func.depth then stack.erase func else stack

def popLoop (nextDepth : ℕ) (stack : List (Func ν)) : List (Func ν) :=
  (List.range stack.length).foldl (popRound nextDepth) stack

/-- The variables of `max_mem_usage`, and `max_usage[key]` -/
structure Scan (ν : Type) where
  currStack : List (Func ν)
  maxStack : List (Func ν)
  root : ℕ
  maxMemUsed : ℕ
  maxUsage : List (ℕ × ℕ)

/-- One round of `max_mem_usage`, where `nextDepth` is `none` behind the last entry. -/
def round (s : Scan ν) (f : Func ν) (nextDepth : Option ℕ) : Scan ν :=
  let s := if f.depth = 0 then { s with root := f.address } else s
  let ends := nextDepth = none ∨ nextDepth = some 0
  if f.depth = 0 ∧ ends then { s with maxUsage := s.maxUsage ++ [(s.root, f.usage)] }
  else
    let s := { s with currStack := s.currStack ++ [f] }
    if nextDepth.all fun d => d ≤ f.depth then
      let s := { s with maxStack := checkStacks s.currStack s.maxStack }
      if ends then
        ⟨[], [], s.root, 0, s.maxUsage ++ [(s.root, s.maxMemUsed + total s.maxStack)]⟩
      else { s with currStack := popLoop (nextDepth.getD 0) s.currStack }
    else s

def scan (s : Scan ν) : List (Func ν) → Scan ν
  | [] => s
  | f :: fs => scan (round s f (fs.head?.map Func.depth)) fs

/-- `max_mem_usage` for one object file -/
def maxMemUsage (callTree : List (Func ν)) : List (ℕ × ℕ) :=
  (scan ⟨[], [], 0, 0, []⟩ callTree).maxUsage

variable {d : ℕ} {f : Func ν} {c c' fs : List (Func ν)} {s : Scan ν}

omit [DecidableEq ν] in
theorem total_append (c c' : List (Func ν)) : total (c ++ c') = total c + total c' := by
  rw [total, List.map_append, List.sum_append]
  rfl

omit [DecidableEq ν] in
theorem total_sublist (h : c.Sublist c') : total c ≤ total c' :=
  (h.map Func.usage).sum_le_sum fun _ _ => Nat.zero_le _

theorem popRound_sublist (d : ℕ) (c : List (Func ν)) (i : ℕ) : (popRound d c i).Sublist c := by
  unfold popRound
  split
  · exact List.Sublist.refl c
  · split
    · exact List.erase_sublist
    · exact List.Sublist.refl c

theorem popLoop_sublist (d : ℕ) (c : List (Func ν)) : (popLoop d c).Sublist c := by
  unfold popLoop
  generalize List.range c.length = is
  induction is using List.reverseRecOn with
  | nil => exact List.Sublist.refl c
  | append_singleton is i ih =>
    rw [List.foldl_append]
    exact (popRound_sublist d _ i).trans ih

/-- What is above the next depth is not removed. -/
theorem sublist_popLoop (h : c'.Sublist c) (hd : ∀ f ∈ c', f.depth < d) :
    c'.Sublist (popLoop d c) := by
  unfold popLoop
  generalize List.range c.length = is
  induction is using List.reverseRecOn with
  | nil => exact h
  | append_singleton is i ih =>
    rw [List.foldl_append]
    generalize is.foldl (popRound d) c = c at ih
    rw [List.foldl_cons, List.foldl_nil, popRound]
    split
    · exact ih
    · rename_i f _
      split
      · rename_i hf
        have hne : f ∉ c' := fun hmem => Nat.not_lt.mpr hf (hd f hmem)
        rw [← List.erase_of_not_mem hne]
        exact ih.erase f
      · exact ih

omit [DecidableEq ν] in
theorem checkStacks_total (c c' : List (Func ν)) :
    total (checkStacks c c') = max (total c') (total c) := by
  unfold checkStacks
  split
  case isTrue h => rw [max_eq_right h]
  case isFalse h => rw [max_eq_left (Nat.le_of_not_le h)]

omit [DecidableEq ν] in
theorem checkStacks_sublist {t : List (Func ν)} (h : c.Sublist t) (h' : c'.Sublist t) :
    (checkStacks c c').Sublist t := by
  unfold checkStacks
  split
  · exact h
  · exact h'

theorem round_last (hf : f.depth ≠ 0) {nextDepth : Option ℕ} (hnext : ∀ d ∈ nextDepth, d = 0) :
    round s f nextDepth = ⟨[], [], s.root, 0, s.maxUsage ++
      [(s.root, s.maxMemUsed + total (checkStacks (s.currStack ++ [f]) s.maxStack))]⟩ := by
  cases nextDepth with
  | none => simp [round, hf]
  | some d =>
    obtain rfl : d = 0 := hnext d rfl
    simp [round, hf]

theorem round_leaf (hf : f.depth ≠ 0) (hd : d ≠ 0) (hle : d ≤ f.depth) :
    round s f (some d) = { s with
      currStack := popLoop d (s.currStack ++ [f])
      maxStack := checkStacks (s.currStack ++ [f]) s.maxStack } := by
  simp [round, hf, hd, hle]

theorem round_inner (hf : f.depth ≠ 0) (hd : f.depth < d) :
    round s f (some d) = { s with currStack := s.currStack ++ [f] } := by
  simp [round, hf, hd]

omit [DecidableEq ν] in
/-- A chain that is on the stack counts. -/
theorem total_checkStacks (h : c'.Sublist c) (m : List (Func ν)) :
    total c' ≤ total (checkStacks c m) := by
  rw [checkStacks_total]
  exact (total_sublist h).trans (le_max_right _ _)

/-- The calls of a system call: what is reported is the sum of some of its entries, and no less than
what any chain takes. -/
theorem scan_calls (fs tail : List (Func ν)) (htail : ∀ g ∈ tail.head?, g.depth = 0) (f : Func ν)
    (s : Scan ν) (stack t : List (Func ν)) (hdeep : ∀ g ∈ f :: fs, g.depth ≠ 0)
    (hopen : (above Func.depth f.depth stack).Sublist s.currStack) (hcurr : s.currStack.Sublist t)
    (hmax : s.maxStack.Sublist t) (hused : s.maxMemUsed = 0) :
    ∃ m, scan s (f :: fs ++ tail) =
        scan ⟨[], [], s.root, 0, s.maxUsage ++ [(s.root, total m)]⟩ tail ∧
      m.Sublist (t ++ f :: fs) ∧ total s.maxStack ≤ total m ∧
      ∀ c ∈ openings Func.depth stack (f :: fs), total c ≤ total m := by
  induction fs generalizing f s stack t with
  | nil =>
    have hnext : ∀ d ∈ tail.head?.map Func.depth, d = 0 := by
      intro d hd
      obtain ⟨g, hg, rfl⟩ := Option.map_eq_some_iff.mp hd
      exact htail g hg
    refine ⟨checkStacks (s.currStack ++ [f]) s.maxStack, ?_, ?_, ?_, fun c hc => ?_⟩
    · rw [List.singleton_append, scan, round_last (hdeep f List.mem_cons_self) hnext, hused,
        Nat.zero_add]
    · exact checkStacks_sublist (hcurr.append_right [f])
        (hmax.trans (List.sublist_append_left t [f]))
    · rw [checkStacks_total]
      exact le_max_left _ _
    · rw [List.mem_singleton.mp hc]
      exact total_checkStacks (hopen.append_right [f]) _
  | cons g fs ih =>
    have hf : f.depth ≠ 0 := hdeep f List.mem_cons_self
    have hdeep' : ∀ x ∈ g :: fs, x.depth ≠ 0 := fun x hx => hdeep x (List.mem_cons_of_mem _ hx)
    have hg : g.depth ≠ 0 := hdeep' g List.mem_cons_self
    have hpush : (s.currStack ++ [f]).Sublist (t ++ [f]) := hcurr.append_right [f]
    have hmax' : s.maxStack.Sublist (t ++ [f]) := hmax.trans (List.sublist_append_left t [f])
    have hopened : (opened Func.depth stack f).Sublist (s.currStack ++ [f]) :=
      hopen.append_right [f]
    have habove : (above Func.depth g.depth (opened Func.depth stack f)).Sublist
        (s.currStack ++ [f]) := List.filter_sublist.trans hopened
    rcases Nat.lt_or_ge f.depth g.depth with hlt | hge
    · -- `g` is called by `f`
      obtain ⟨m, hscan, hsub, hbest, hchains⟩ := ih g { s with currStack := s.currStack ++ [f] }
        (opened Func.depth stack f) (t ++ [f]) hdeep' habove hpush hmax' hused
      refine ⟨m, ?_, ?_, hbest, fun c hc => ?_⟩
      · rw [List.cons_append, scan]
        exact (congrArg (scan · _) (round_inner hf hlt)).trans hscan
      · rw [List.append_assoc] at hsub
        exact hsub
      · rcases List.mem_cons.mp hc with rfl | hc
        · -- what is open at `f` is open at `g`
          have hnext := hchains _ (List.mem_cons_self)
          rw [opened, above_opened_of_lt hlt, total_append] at hnext
          omega
        · exact hchains c hc
    · -- no call of `f` follows: its chain is complete
      obtain ⟨m, hscan, hsub, hbest, hchains⟩ := ih g { s with
        currStack := popLoop g.depth (s.currStack ++ [f])
        maxStack := checkStacks (s.currStack ++ [f]) s.maxStack }
        (opened Func.depth stack f) (t ++ [f]) hdeep'
        (sublist_popLoop habove fun x hx => of_decide_eq_true (List.mem_filter.mp hx).2)
        ((popLoop_sublist _ _).trans hpush) (checkStacks_sublist hpush hmax') hused
      have hmore : total s.maxStack ≤ total (checkStacks (s.currStack ++ [f]) s.maxStack) := by
        rw [checkStacks_total]
        exact le_max_left _ _
      refine ⟨m, ?_, ?_, hmore.trans hbest, fun c hc => ?_⟩
      · rw [List.cons_append, scan]
        exact (congrArg (scan · _) (round_leaf hf hg hge)).trans hscan
      · rw [List.append_assoc] at hsub
        exact hsub
      · rcases List.mem_cons.mp hc with rfl | hc
        · exact (total_checkStacks hopened _).trans hbest
        · exact hchains c hc

theorem round_alone (hf : f.depth = 0) {nextDepth : Option ℕ} (hnext : ∀ d ∈ nextDepth, d = 0) :
    round s f nextDepth =
      { s with root := f.address, maxUsage := s.maxUsage ++ [(f.address, f.usage)] } := by
  cases nextDepth with
  | none => simp [round, hf]
  | some d =>
    obtain rfl : d = 0 := hnext d rfl
    simp [round, hf]

theorem round_root (hf : f.depth = 0) (hd : d ≠ 0) :
    round s f (some d) = { s with root := f.address, currStack := s.currStack ++ [f] } := by
  simp [round, hf, hd]

structure Listed (t : Func ν × List (Func ν)) : Prop where
  root : t.1.depth = 0
  deep : ∀ g ∈ t.2, g.depth ≠ 0

/-- What is reported of a system call: the sum of some of its entries, and no less than what any
chain takes. -/
def Reports (t : Func ν × List (Func ν)) (r : ℕ × ℕ) : Prop :=
  r.1 = t.1.address ∧ (∃ m, m.Sublist (t.1 :: t.2) ∧ total m = r.2) ∧
    ∀ c ∈ openings Func.depth [] (t.1 :: t.2), total c ≤ r.2

theorem scan_tree {t : Func ν × List (Func ν)} (ht : Listed t) (tail : List (Func ν))
    (htail : ∀ g ∈ tail.head?, g.depth = 0) (root : ℕ) (done : List (ℕ × ℕ)) :
    ∃ r, scan ⟨[], [], root, 0, done⟩ (t.1 :: t.2 ++ tail) =
        scan ⟨[], [], t.1.address, 0, done ++ [r]⟩ tail ∧ Reports t r := by
  obtain ⟨f, fs⟩ := t
  have hf : f.depth = 0 := ht.root
  cases fs with
  | nil =>
    have hnext : ∀ d ∈ tail.head?.map Func.depth, d = 0 := by
      intro d hd
      obtain ⟨g, hg, rfl⟩ := Option.map_eq_some_iff.mp hd
      exact htail g hg
    have hsum : total [f] = f.usage := Nat.add_zero _
    refine ⟨(f.address, f.usage), ?_, rfl, ⟨[f], List.Sublist.refl _, hsum⟩, fun c hc => ?_⟩
    · rw [List.singleton_append, scan, round_alone hf hnext]
    · rw [List.mem_singleton.mp hc]
      exact Nat.le_of_eq hsum
  | cons g fs =>
    have hg : g.depth ≠ 0 := ht.deep g List.mem_cons_self
    obtain ⟨m, hscan, hsub, -, hchains⟩ := scan_calls fs tail htail g
      ⟨[f], [], f.address, 0, done⟩ [f] [f] ht.deep List.filter_sublist (List.Sublist.refl _)
      (List.nil_sublist _) rfl
    refine ⟨(f.address, total m), ?_, rfl, ⟨m, hsub, rfl⟩, fun c hc => ?_⟩
    · rw [List.cons_append, scan]
      exact (congrArg (scan · _) (round_root hf hg)).trans hscan
    · have hroot : opened Func.depth [] f = [f] := rfl
      rw [openings, hroot] at hc
      rcases List.mem_cons.mp hc with rfl | hc
      · have hfirst := hchains _ List.mem_cons_self
        have habove : above Func.depth g.depth [f] = [f] := by
          rw [← hroot]
          exact above_opened_of_lt (by omega)
        rw [opened, habove, total_append] at hfirst
        exact Nat.le_trans (Nat.le_add_right _ _) hfirst
      · exact hchains c hc

/-- There is one report for each system call. -/
theorem scan_trees (trees : List (Func ν × List (Func ν))) (h : ∀ t ∈ trees, Listed t) (root : ℕ)
    (done : List (ℕ × ℕ)) :
    ∃ rs, (scan ⟨[], [], root, 0, done⟩ (trees.flatMap fun t => t.1 :: t.2)).maxUsage = done ++ rs ∧
      List.Forall₂ Reports trees rs := by
  induction trees generalizing root done with
  | nil => exact ⟨[], (List.append_nil _).symm, .nil⟩
  | cons t trees ih =>
    have hrest : ∀ t ∈ trees, Listed t := fun t ht => h t (List.mem_cons_of_mem _ ht)
    have htail : ∀ g ∈ (trees.flatMap fun t => t.1 :: t.2).head?, g.depth = 0 := by
      intro g hg
      cases trees with
      | nil => cases hg
      | cons u trees =>
        cases hg
        exact (hrest u List.mem_cons_self).root
    obtain ⟨r, hscan, hr⟩ := scan_tree (h t List.mem_cons_self) _ htail root done
    obtain ⟨rs, hrs, hall⟩ := ih hrest t.1.address (done ++ [r])
    refine ⟨r :: rs, ?_, .cons hr hall⟩
    rw [List.flatMap_cons, hscan, hrs, List.append_assoc, List.singleton_append]

/-- The functions that are called in turn from within an entry, where a pointer is followed no
further. -/
inductive Calls (info : ℕ → Die) (cuOffset : ℕ) : Die → List ℕ → Prop where
  | done (die : Die) : Calls info cuOffset die []
  | site {die child : Die} {origin : ℕ} {chain : List ℕ} (child_mem : child ∈ die.children)
      (call : child.tag ≠ .other) (target : child.origin = some origin)
      (rest : Calls info cuOffset (info (origin + cuOffset)) chain) :
    Calls info cuOffset die ((origin + cuOffset) :: chain)
  | pointer {die child : Die} {ptr : ℕ} (child_mem : child ∈ die.children)
      (noCall : child.tag = .other) (ptr_mem : ptr ∈ child.pointers) (named : ptr ≠ 0) :
    Calls info cuOffset die [ptr]
  | nested {die child : Die} {chain : List ℕ} (child_mem : child ∈ die.children)
      (rest : Calls info cuOffset child chain) : Calls info cuOffset die chain

/-- The entries of a chain that begins at depth `d`. -/
def chainFrom (d : ℕ) : List ℕ → List (ℕ × ℕ)
  | [] => []
  | a :: chain => (a, d) :: chainFrom (d + 1) chain

/-- The entries that are appended for a debugging entry at depth `d` list its chains, and nothing
that is on none of them. -/
structure Lists (d : ℕ) (chains : List ℕ → Prop) (added : List (ℕ × ℕ)) : Prop where
  deep : ∀ x ∈ added, d ≤ x.2
  opens : ∀ chain, chain ≠ [] → chains chain → Opens Prod.snd d (chainFrom d chain) added
  called : ∀ x ∈ added, ∃ chain, chains chain ∧ x.1 ∈ chain

theorem Lists.append {chains chains' : List ℕ → Prop} {added added' : List (ℕ × ℕ)}
    (h : Lists d chains added) (h' : Lists d chains' added') :
    Lists d (fun chain => chains chain ∨ chains' chain) (added ++ added') := by
  refine ⟨fun x hx => ?_, fun chain hne hc => ?_, fun x hx => ?_⟩
  · rcases List.mem_append.mp hx with hx | hx
    · exact h.deep x hx
    · exact h'.deep x hx
  · rcases hc with hc | hc
    · exact Opens.append (h.opens chain hne hc) (List.forall_mem_nil _) added'
    · have hopens := (h'.opens chain hne hc).append h.deep []
      rw [List.append_nil] at hopens
      exact hopens
  · rcases List.mem_append.mp hx with hx | hx
    · obtain ⟨chain, hc, hmem⟩ := h.called x hx
      exact ⟨chain, .inl hc, hmem⟩
    · obtain ⟨chain, hc, hmem⟩ := h'.called x hx
      exact ⟨chain, .inr hc, hmem⟩

theorem Lists.congr {chains chains' : List ℕ → Prop} {added : List (ℕ × ℕ)}
    (h : Lists d chains added) (hiff : ∀ chain, chain ≠ [] → (chains chain ↔ chains' chain)) :
    Lists d chains' added := by
  refine ⟨h.deep, fun chain hne hc => h.opens chain hne ((hiff chain hne).mpr hc), fun x hx => ?_⟩
  obtain ⟨chain, hc, hmem⟩ := h.called x hx
  exact ⟨chain, (hiff chain (List.ne_nil_of_mem hmem)).mp hc, hmem⟩

theorem lists_nil : Lists d (fun _ => False) [] := by
  refine ⟨fun x hx => ?_, fun chain _ hc => hc.elim, fun x hx => ?_⟩
  · cases hx
  · cases hx

/-- An entry for a call, and those for what is called. -/
theorem Lists.call {chains : List ℕ → Prop} {added : List (ℕ × ℕ)} (h : Lists (d + 1) chains added)
    (a : ℕ) : Lists d (fun chain => ∃ rest, chain = a :: rest ∧ (rest = [] ∨ chains rest))
      ((a, d) :: added) := by
  refine ⟨fun x hx => ?_, fun chain _ hc => ?_, fun x hx => ?_⟩
  · rcases List.mem_cons.mp hx with rfl | hx
    · exact Nat.le_refl d
    · exact Nat.le_of_succ_le (h.deep x hx)
  · obtain ⟨rest, rfl, hrest⟩ := hc
    cases rest with
    | nil => exact opens_head rfl
    | cons b rest =>
      have hne : b :: rest ≠ [] := List.cons_ne_nil b rest
      exact (h.opens _ hne (hrest.resolve_left hne)).cons rfl
  · rcases List.mem_cons.mp hx with rfl | hx
    · exact ⟨[a], ⟨[], rfl, .inl rfl⟩, List.mem_cons_self⟩
    · obtain ⟨chain, hc, hmem⟩ := h.called x hx
      exact ⟨a :: chain, ⟨chain, rfl, .inr hc⟩, List.mem_cons_of_mem a hmem⟩

/-- Chains that begin with a child. -/
def EntryCalls (info : ℕ → Die) (cuOffset : ℕ) (child : Die) (chain : List ℕ) : Prop :=
  (child.tag ≠ .other ∧ ∃ origin, child.origin = some origin ∧
      ∃ rest, chain = (origin + cuOffset) :: rest ∧
        (rest = [] ∨ Calls info cuOffset (info (origin + cuOffset)) rest)) ∨
    (child.tag = .other ∧ ∃ ptr ∈ child.pointers, ptr ≠ 0 ∧ chain = [ptr])

/-- Chains that begin with a child, or within it. -/
def ChildCalls (info : ℕ → Die) (cuOffset : ℕ) (child : Die) (chain : List ℕ) : Prop :=
  EntryCalls info cuOffset child chain ∨ Calls info cuOffset child chain

theorem calls_iff {info : ℕ → Die} {cuOffset : ℕ} {die : Die} {chain : List ℕ} (hne : chain ≠ []) :
    Calls info cuOffset die chain ↔
      ∃ child ∈ die.children, ChildCalls info cuOffset child chain := by
  constructor
  · intro h
    cases h with
    | done => exact absurd rfl hne
    | site hmem hcall htarget hrest =>
      exact ⟨_, hmem, .inl (.inl ⟨hcall, _, htarget, _, rfl, .inr hrest⟩)⟩
    | pointer hmem hno hptr h0 => exact ⟨_, hmem, .inl (.inr ⟨hno, _, hptr, h0, rfl⟩)⟩
    | nested hmem hrest => exact ⟨_, hmem, .inr hrest⟩
  · rintro ⟨child, hmem, (⟨hcall, origin, htarget, rest, rfl, hrest⟩ | ⟨hno, ptr, hptr, h0, rfl⟩) |
      hrest⟩
    · refine .site hmem hcall htarget ?_
      rcases hrest with rfl | hrest
      · exact .done _
      · exact hrest
    · exact .pointer hmem hno hptr h0
    · exact .nested hmem hrest

theorem calls_childless {info : ℕ → Die} {cuOffset : ℕ} {die : Die} {chain : List ℕ}
    (h : die.children.isEmpty = true) (hne : chain ≠ []) : ¬Calls info cuOffset die chain := by
  intro hc
  obtain ⟨x, hx, -⟩ := (calls_iff hne).mp hc
  rw [List.isEmpty_iff.mp h] at hx
  cases hx

/-- A function that appends entries, and lists with them the chains of what it is given. -/
def Appends {γ : Type} (d : ℕ) (chains : γ → List ℕ → Prop)
    (f : List (ℕ × ℕ) → γ → Option (List (ℕ × ℕ))) : Prop :=
  ∀ tree x tree', f tree x = some tree' →
    ∃ added, tree' = tree ++ added ∧ Lists d (chains x) added

theorem Appends.foldlM {γ : Type} {chains : γ → List ℕ → Prop}
    {f : List (ℕ × ℕ) → γ → Option (List (ℕ × ℕ))} (h : Appends d chains f)
    {tree tree' : List (ℕ × ℕ)} {xs : List γ} (hf : xs.foldlM f tree = some tree') :
    ∃ added, tree' = tree ++ added ∧ Lists d (fun chain => ∃ x ∈ xs, chains x chain) added := by
  induction xs generalizing tree with
  | nil =>
    cases hf
    refine ⟨[], (List.append_nil _).symm, lists_nil.congr fun chain _ => ?_⟩
    simp
  | cons x xs ih =>
    rw [List.foldlM_cons] at hf
    obtain ⟨mid, hmid, hf⟩ := Option.bind_eq_some_iff.mp hf
    obtain ⟨added, rfl, hlists⟩ := h tree x mid hmid
    obtain ⟨added', rfl, hlists'⟩ := ih hf
    refine ⟨added ++ added', List.append_assoc ..,
      (hlists.append hlists').congr fun chain _ => ?_⟩
    rw [List.exists_mem_cons_iff]

variable {info : ℕ → Die} {cuOffset : ℕ}
  {check : Die → ℕ → List (ℕ × ℕ) → Option (List (ℕ × ℕ))}

theorem lists_pointers (d : ℕ) (pointers : List ℕ) :
    Lists d (fun chain => ∃ ptr ∈ pointers, ptr ≠ 0 ∧ chain = [ptr])
      ((pointers.filter (· ≠ 0)).map fun ptr => (ptr, d)) := by
  refine ⟨fun x hx => ?_, fun chain _ hc => ?_, fun x hx => ?_⟩
  · obtain ⟨ptr, -, rfl⟩ := List.mem_map.mp hx
    exact Nat.le_refl d
  · obtain ⟨ptr, hptr, h0, rfl⟩ := hc
    have hmem : ptr ∈ pointers.filter (· ≠ 0) := List.mem_filter.mpr ⟨hptr, decide_eq_true h0⟩
    obtain ⟨before, after, hsplit⟩ := List.append_of_mem hmem
    rw [hsplit, List.map_append, List.map_cons]
    have hhead : Opens Prod.snd d [(ptr, d)] ((ptr, d) :: after.map fun ptr => (ptr, d)) :=
      opens_head rfl
    have hbefore : ∀ x ∈ before.map fun ptr => (ptr, d), d ≤ x.2 := by
      intro x hx
      obtain ⟨y, -, rfl⟩ := List.mem_map.mp hx
      exact Nat.le_refl d
    have hopens := hhead.append hbefore []
    rw [List.append_nil] at hopens
    exact hopens
  · obtain ⟨ptr, hptr, rfl⟩ := List.mem_map.mp hx
    obtain ⟨hptr, h0⟩ := List.mem_filter.mp hptr
    exact ⟨[ptr], ⟨ptr, hptr, of_decide_eq_true h0, rfl⟩, List.mem_cons_self⟩

theorem checkEntry_appends
    (h : ∀ d, Appends d (Calls info cuOffset) fun tree die => check die d tree) (d : ℕ) :
    Appends d (EntryCalls info cuOffset) (checkEntry info cuOffset check d) := by
  intro tree child tree' hf
  unfold checkEntry at hf
  split at hf
  · rename_i htag
    cases hf
    refine ⟨_, rfl, (lists_pointers d child.pointers).congr fun chain _ => ?_⟩
    have hno : ¬child.tag ≠ .other := fun hcall => hcall htag
    rw [EntryCalls, or_iff_right fun h => hno h.1, and_iff_right htag]
  · rename_i hnone hother
    cases hf
    refine ⟨[], (List.append_nil _).symm, lists_nil.congr fun chain _ => ?_⟩
    refine ⟨False.elim, fun hc => ?_⟩
    rcases hc with ⟨-, origin, horigin, -⟩ | ⟨htag, -⟩
    · cases hnone.symm.trans horigin
    · exact hother htag
  · rename_i origin horigin hother
    obtain ⟨added, rfl, hlists⟩ := h (d + 1) _ _ tree' hf
    refine ⟨(origin + cuOffset, d) :: added, List.append_assoc .., (hlists.call _).congr
      fun chain _ => ?_⟩
    constructor
    · exact fun hchain => .inl ⟨hother, origin, horigin, hchain⟩
    · rintro (⟨-, origin', horigin', hchain⟩ | ⟨htag, -⟩)
      · cases horigin.symm.trans horigin'
        exact hchain
      · exact absurd htag hother

/-- What is appended for a child lists the chains that begin with it or within it. -/
theorem checkChild_appends
    (h : ∀ d, Appends d (Calls info cuOffset) fun tree die => check die d tree) (d : ℕ) :
    Appends d (ChildCalls info cuOffset) (checkChild info cuOffset check d) := by
  intro tree child tree' hf
  obtain ⟨mid, hmid, hf⟩ := Option.bind_eq_some_iff.mp hf
  obtain ⟨added, rfl, hlists⟩ := checkEntry_appends h d tree child mid hmid
  split at hf
  case isTrue hempty =>
    cases hf
    exact ⟨added, rfl, hlists.congr fun chain hne =>
      (or_iff_left (calls_childless hempty hne)).symm⟩
  case isFalse =>
    obtain ⟨added', rfl, hlists'⟩ := h d _ _ tree' hf
    exact ⟨added ++ added', List.append_assoc .., hlists.append hlists'⟩

/-- What `check_call_sites` appends lists all call chains. -/
theorem checkCallSites_appends (info : ℕ → Die) (cuOffset limit d : ℕ) :
    Appends d (Calls info cuOffset) fun tree die =>
      checkCallSites info cuOffset limit die d tree := by
  induction limit generalizing d with
  | zero =>
    intro tree die tree' hf
    cases hf
  | succ limit ih =>
    intro tree die tree' hf
    obtain ⟨added, rfl, hlists⟩ := (checkChild_appends ih d).foldlM hf
    exact ⟨added, rfl, hlists.congr fun chain hne => (calls_iff hne).symm⟩

def forest (segs : List (ℕ × List (ℕ × ℕ))) : List (ℕ × ℕ) := segs.flatMap fun t => (t.1, 0) :: t.2

def Segment (info : ℕ → Die) (cuOffset : ℕ) (t : ℕ × List (ℕ × ℕ)) : Prop :=
  Lists 1 (Calls info cuOffset (info t.1)) t.2

/-- A system call, or what it calls in turn. -/
def Reached (info : ℕ → Die) (cuOffset root a : ℕ) : Prop :=
  a = root ∨ ∃ chain, Calls info cuOffset (info root) chain ∧ a ∈ chain

theorem Segment.reached {t : ℕ × List (ℕ × ℕ)} (h : Segment info cuOffset t) {y : ℕ × ℕ}
    (hy : y ∈ (t.1, 0) :: t.2) : Reached info cuOffset t.1 y.1 := by
  rcases List.mem_cons.mp hy with rfl | hy
  · exact .inl rfl
  · exact .inr (h.called y hy)

theorem forest_reached {segs : List (ℕ × List (ℕ × ℕ))} (h : ∀ t ∈ segs, Segment info cuOffset t)
    {a : ℕ} (ha : a ∈ (forest segs).map Prod.fst) :
    ∃ root ∈ segs.map Prod.fst, Reached info cuOffset root a := by
  obtain ⟨y, hy, rfl⟩ := List.mem_map.mp ha
  obtain ⟨t, ht, hy⟩ := List.mem_flatMap.mp hy
  exact ⟨t.1, List.mem_map_of_mem ht, (h t ht).reached hy⟩

theorem forest_concat (segs : List (ℕ × List (ℕ × ℕ))) (a : ℕ) (added : List (ℕ × ℕ)) :
    forest (segs ++ [(a, added)]) = forest segs ++ [(a, 0)] ++ added := by
  rw [forest, List.flatMap_append, List.flatMap_singleton, List.append_assoc]
  rfl

/-- A system call is in the tree already, or gets a tree that lists its chains. -/
theorem addSyscall_forest {limit a : ℕ} {segs : List (ℕ × List (ℕ × ℕ))} {tree : List (ℕ × ℕ)}
    (h : addSyscall info cuOffset limit (forest segs) a = some tree) :
    a ∈ (forest segs).map Prod.fst ∧ tree = forest segs ∨
      ∃ added, tree = forest (segs ++ [(a, added)]) ∧ Segment info cuOffset (a, added) := by
  unfold addSyscall at h
  split at h
  case isTrue hmem =>
    cases h
    exact .inl ⟨hmem, rfl⟩
  case isFalse =>
    right
    dsimp only at h
    split at h
    case isTrue hempty =>
      cases h
      refine ⟨[], ?_, lists_nil.congr fun chain hne => ?_⟩
      · rw [forest_concat, List.append_nil]
      · exact (iff_of_false (calls_childless hempty hne) not_false).symm
    case isFalse =>
      obtain ⟨added, rfl, hlists⟩ := checkCallSites_appends info cuOffset limit 1 _ _ tree h
      exact ⟨added, (forest_concat segs a added).symm, hlists⟩

theorem getCallTree_forest {limit : ℕ} {syscalls : List ℕ} {tree : List (ℕ × ℕ)}
    (h : getCallTree info cuOffset limit syscalls = some tree) :
    ∃ segs, tree = forest segs ∧ (∀ t ∈ segs, t.1 ∈ syscalls ∧ Segment info cuOffset t) ∧
      ∀ a ∈ syscalls, a ∈ tree.map Prod.fst := by
  unfold getCallTree at h
  induction syscalls using List.reverseRecOn generalizing tree with
  | nil =>
    cases h
    refine ⟨[], rfl, fun t ht => ?_, fun a ha => ?_⟩
    · cases ht
    · cases ha
  | append_singleton syscalls a ih =>
    rw [List.foldlM_append] at h
    obtain ⟨mid, hmid, h⟩ := Option.bind_eq_some_iff.mp h
    obtain ⟨segs, rfl, hsegs, hmem⟩ := ih hmid
    rw [List.foldlM_cons] at h
    obtain ⟨last, hlast, h⟩ := Option.bind_eq_some_iff.mp h
    cases h
    have hold : ∀ t ∈ segs, t.1 ∈ syscalls ++ [a] ∧ Segment info cuOffset t := fun t ht =>
      ⟨List.mem_append_left _ (hsegs t ht).1, (hsegs t ht).2⟩
    rcases addSyscall_forest hlast with ⟨ha, rfl⟩ | ⟨added, rfl, hseg⟩
    · refine ⟨segs, rfl, hold, fun b hb => ?_⟩
      rcases List.mem_append.mp hb with hb | hb
      · exact hmem b hb
      · exact List.mem_singleton.mp hb ▸ ha
    · refine ⟨segs ++ [(a, added)], rfl, fun t ht => ?_, fun b hb => ?_⟩
      · rcases List.mem_append.mp ht with ht | ht
        · exact hold t ht
        · obtain rfl := List.mem_singleton.mp ht
          exact ⟨List.mem_append_right _ List.mem_cons_self, hseg⟩
      · rw [forest_concat, List.map_append, List.map_append]
        rcases List.mem_append.mp hb with hb | hb
        · exact List.mem_append_left _ (List.mem_append_left _ (hmem b hb))
        · rw [List.mem_singleton.mp hb]
          exact List.mem_append_left _ (List.mem_append_right _ List.mem_cons_self)

/-- The roots of the trees are the entries at depth `0`. -/
theorem forest_roots {segs : List (ℕ × List (ℕ × ℕ))} (h : ∀ t ∈ segs, Segment info cuOffset t) :
    (forest segs).filter (fun x => x.2 = 0) = segs.map fun t => (t.1, 0) := by
  induction segs with
  | nil => rfl
  | cons t segs ih =>
    have hdeep : t.2.filter (fun x => x.2 = 0) = [] := by
      rw [List.filter_eq_nil_iff]
      intro x hx hzero
      have := (h t List.mem_cons_self).deep x hx
      have := of_decide_eq_true hzero
      omega
    rw [forest, List.flatMap_cons, List.filter_append, List.filter_cons_of_pos (by simp), hdeep,
      List.map_cons, ← forest, ih fun t ht => h t (List.mem_cons_of_mem _ ht)]
    rfl

def usageOf (memUsage : ℕ → Option ℕ) (functions : List ℕ) : ℕ :=
  (functions.map fun a => (memUsage a).getD 0).sum

variable (name : ℕ → ν) (memUsage : ℕ → Option ℕ)

omit [DecidableEq ν] in
theorem total_named (tree : List (ℕ × ℕ)) :
    total (tree.map (named name memUsage)) = usageOf memUsage (tree.map Prod.fst) := by
  rw [total, usageOf, List.map_map, List.map_map]
  rfl

theorem chainFrom_fst (d : ℕ) (chain : List ℕ) : (chainFrom d chain).map Prod.fst = chain := by
  induction chain generalizing d with
  | nil => rfl
  | cons a chain ih => rw [chainFrom, List.map_cons, ih]

/-- A chain is open at one of the entries of its system call. -/
theorem chain_open {t : ℕ × List (ℕ × ℕ)} (ht : Segment info cuOffset t) {chain : List ℕ}
    (hc : Calls info cuOffset (info t.1) chain) :
    (t.1, 0) :: chainFrom 1 chain ∈ openings Prod.snd [] ((t.1, 0) :: t.2) := by
  have hroot : opened Prod.snd [] (t.1, 0) = [(t.1, 0)] := rfl
  rw [openings, hroot]
  cases chain with
  | nil => exact List.mem_cons_self
  | cons a chain =>
    exact List.mem_cons_of_mem _ (ht.opens _ (List.cons_ne_nil a chain) hc [(t.1, 0)])

omit [DecidableEq ν] in
/-- What the reports of some trees say of their roots, and each of them of a tree. -/
theorem reports_roots {trees : List (Func ν × List (Func ν))} {rs : List (ℕ × ℕ)}
    (h : List.Forall₂ Reports trees rs) :
    rs.map Prod.fst = trees.map (fun t => t.1.address) ∧ ∀ r ∈ rs, ∃ t ∈ trees, Reports t r := by
  induction h with
  | nil => exact ⟨rfl, fun r hr => by cases hr⟩
  | cons hr h ih =>
    obtain ⟨hmap, hmem⟩ := ih
    refine ⟨?_, fun r hr' => ?_⟩
    · rw [List.map_cons, List.map_cons, hmap, hr.1]
    · rcases List.mem_cons.mp hr' with rfl | hr'
      · exact ⟨_, List.mem_cons_self, hr⟩
      · obtain ⟨t, ht, hreports⟩ := hmem r hr'
        exact ⟨t, List.mem_cons_of_mem _ ht, hreports⟩

/-- The tree of a system call, as `max_mem_usage` finds it. -/
def namedTree (t : ℕ × List (ℕ × ℕ)) : Func ν × List (Func ν) :=
  (named name memUsage (t.1, 0), t.2.map (named name memUsage))

omit [DecidableEq ν] in
theorem namedTree_entries (t : ℕ × List (ℕ × ℕ)) :
    (namedTree name memUsage t).1 :: (namedTree name memUsage t).2 =
      ((t.1, 0) :: t.2).map (named name memUsage) := rfl

omit [DecidableEq ν] in
theorem getNames_forest (segs : List (ℕ × List (ℕ × ℕ))) :
    getNames name memUsage (forest segs) =
      (segs.map (namedTree name memUsage)).flatMap fun t => t.1 :: t.2 := by
  rw [getNames, forest, List.map_flatMap, List.flatMap_map]
  rfl

omit [DecidableEq ν] in
theorem namedTree_listed {t : ℕ × List (ℕ × ℕ)} (h : Segment info cuOffset t) :
    Listed (namedTree name memUsage t) := by
  refine ⟨rfl, fun f hf => ?_⟩
  obtain ⟨x, hx, rfl⟩ := List.mem_map.mp hf
  have hdeep : 1 ≤ x.2 := h.deep x hx
  exact Nat.ne_of_gt hdeep

omit [DecidableEq ν] in
theorem Reports.usage {t : ℕ × List (ℕ × ℕ)} {r : ℕ × ℕ} (h : Segment info cuOffset t)
    (hr : Reports (namedTree name memUsage t) r) :
    r.1 = t.1 ∧
      (∀ chain, Calls info cuOffset (info t.1) chain → usageOf memUsage (t.1 :: chain) ≤ r.2) ∧
      ∃ part : List (ℕ × ℕ), part.Sublist ((t.1, 0) :: t.2) ∧
        (∀ x ∈ part, Reached info cuOffset t.1 x.1) ∧
        usageOf memUsage (part.map Prod.fst) = r.2 := by
  obtain ⟨hroot, ⟨m, hsub, hsum⟩, hchains⟩ := hr
  refine ⟨hroot, fun chain hc => ?_, ?_⟩
  · have hmap : openings Func.depth [] (((t.1, 0) :: t.2).map (named name memUsage)) =
        (openings Prod.snd [] ((t.1, 0) :: t.2)).map (List.map (named name memUsage)) :=
      openings_map (named name memUsage) (fun _ => rfl) [] _
    have hle := hchains (((t.1, 0) :: chainFrom 1 chain).map (named name memUsage)) (by
      rw [namedTree_entries, hmap]
      exact List.mem_map_of_mem (chain_open h hc))
    rw [total_named, List.map_cons, chainFrom_fst] at hle
    exact hle
  · rw [namedTree_entries, List.sublist_map_iff] at hsub
    obtain ⟨part, hpart, rfl⟩ := hsub
    exact ⟨part, hpart, fun x hx => h.reached (hpart.subset hx),
      (total_named name memUsage part).symm.trans hsum⟩

/-- The report never says too little. A report is for a system call, is at least what any chain of
calls takes that the debugging information shows for it, and is the sum of some entries of the
call tree, all of them functions that it calls in turn; and every system call has a report, or is
called in turn by one that has. -/
theorem never_underreports {limit : ℕ} {syscalls : List ℕ} {tree : List (ℕ × ℕ)}
    (h : getCallTree info cuOffset limit syscalls = some tree) :
    let report := maxMemUsage (getNames name memUsage tree)
    (∀ a ∈ syscalls, ∃ root ∈ report.map Prod.fst, Reached info cuOffset root a) ∧
      report.map Prod.fst = (tree.filter fun x => x.2 = 0).map Prod.fst ∧
      ∀ r ∈ report, r.1 ∈ syscalls ∧
        (∀ chain, Calls info cuOffset (info r.1) chain → usageOf memUsage (r.1 :: chain) ≤ r.2) ∧
        ∃ part : List (ℕ × ℕ), part.Sublist tree ∧
          (∀ x ∈ part, Reached info cuOffset r.1 x.1) ∧
          usageOf memUsage (part.map Prod.fst) = r.2 := by
  intro report
  obtain ⟨segs, rfl, hsegs, hall⟩ := getCallTree_forest h
  have hsound : ∀ t ∈ segs, Segment info cuOffset t := fun t ht => (hsegs t ht).2
  have hlisted : ∀ t ∈ segs.map (namedTree name memUsage), Listed t := by
    intro t ht
    obtain ⟨seg, hseg, rfl⟩ := List.mem_map.mp ht
    exact namedTree_listed name memUsage (hsound seg hseg)
  obtain ⟨rs, hrs, hreports⟩ := scan_trees _ hlisted 0 []
  have hreport : report = rs := by
    rw [← List.nil_append rs, ← hrs, ← getNames_forest]
    rfl
  obtain ⟨hroots, hmem⟩ := reports_roots hreports
  have hroots' : rs.map Prod.fst = segs.map Prod.fst := by
    rw [hroots, List.map_map]
    rfl
  rw [hreport]
  refine ⟨fun a ha => ?_, ?_, fun r hr => ?_⟩
  · rw [hroots']
    exact forest_reached hsound (hall a ha)
  · rw [hroots', forest_roots hsound, List.map_map]
    rfl
  · obtain ⟨t, ht, hrt⟩ := hmem r hr
    obtain ⟨seg, hseg, rfl⟩ := List.mem_map.mp ht
    obtain ⟨hroot, hchains, part, hpart, hreached, hsum⟩ :=
      Reports.usage name memUsage (hsound seg hseg) hrt
    rw [hroot]
    refine ⟨(hsegs seg hseg).1, hchains, part, hpart.trans ?_, hreached, hsum⟩
    exact List.sublist_flatten_of_mem (List.mem_map_of_mem hseg)

/-- A system call that calls two functions, one of which calls a third. -/
def small : ℕ → Die
  | 1 => .mk .other none [] [.mk .callSite (some 2) [] [], .mk .callSite (some 4) [] []]
  | 2 => .mk .other none [] [.mk .callSite (some 3) [] []]
  | _ => .mk .other none [] []

/-- The first of two system calls is reported to take more than its heaviest chain; the other one is
called by it. -/
theorem never_underreports_small :
    maxMemUsage (getNames id (fun a => some (10 * a)) [(1, 0), (2, 1), (3, 2), (4, 1)]) =
        [(1, 80)] ∧
      usageOf (fun a => some (10 * a)) [1, 2, 3] ≤ 80 ∧ Reached small 0 1 3 := by
  have hreport : maxMemUsage (getNames id (fun a => some (10 * a)) [(1, 0), (2, 1), (3, 2), (4, 1)]) =
      [(1, 80)] := by decide
  have hchain : Calls small 0 (small 1) [2, 3] :=
    .site (.head _) (by simp [Die.tag]) rfl (.site (.head _) (by simp [Die.tag]) rfl (.done _))
  have htree : getCallTree small 0 5 [1, 3] = some [(1, 0), (2, 1), (3, 2), (4, 1)] := rfl
  obtain ⟨hcalled, -, hreports⟩ := never_underreports id (fun a => some (10 * a)) htree
  rw [hreport] at hcalled hreports
  obtain ⟨root, hroot, hreached⟩ := hcalled 3 (by decide)
  obtain rfl : root = 1 := List.mem_singleton.mp hroot
  exact ⟨hreport, (hreports (1, 80) List.mem_cons_self).2.1 [2, 3] hchain, hreached⟩

end ZephyrApps.StackUsage
