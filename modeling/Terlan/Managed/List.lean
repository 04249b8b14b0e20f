/-
  Persistent lists of the managed heap: RRB trees of 32-way nodes. A regular node finds a child
  by division, a relaxed one by its cumulative sizes. A node is what its payload says; its place
  in the heap is left out, and so are views that start at a later element.

  `Hold h xs level` says that the nodes of a level are well formed and hold `xs`; every step
  keeps it, and `run_refines` reads it off whatever calls have made a list.
-/
import Mathlib.Algebra.Ring.Nat
import Mathlib.Data.List.Chain
import Terlan.Lib.Checked

namespace Terlan.Rrb

open Terlan.Lib List

variable {α : Type}

def branchFactor : Nat := 32

def inlineLimit : Nat := 8

def maxListElements : Nat := 2 ^ 24

inductive ManagedMemoryError where
  | corruptedCollection
  | collectionIndexOutOfBounds
  | collectionTooLarge
  /-- The overflow of `child_height + 1`, a `u8`. -/
  | heightOverflow

abbrev Result := Except ManagedMemoryError

/-! ## Nodes -/

structure Internal (ν : Type) where
  relaxed : Bool
  total : Nat
  /-- Cumulative, in a relaxed node only. -/
  sizes : List Nat
  children : List ν

/-- The nodes of a height; a leaf is a list of elements. -/
def RrbNode (α : Type) : Nat → Type
  | 0 => List α
  | h + 1 => Internal (RrbNode α h)

def total : (h : Nat) → RrbNode α h → Nat
  | 0, elements => List.length elements
  | _ + 1, node => Internal.total node

def isRelaxed : (h : Nat) → RrbNode α h → Bool
  | 0, _ => false
  | _ + 1, node => Internal.relaxed node

def toList : (h : Nat) → RrbNode α h → List α
  | 0, elements => elements
  | h + 1, node => (Internal.children node).flatMap (toList h)

def allocateLeaf (elements : List α) : Result (RrbNode α 0) := do
  failIf (elements = [] ∨ branchFactor < elements.length) .corruptedCollection
  return elements

def cumulative (start : Nat) : List Nat → List Nat
  | [] => []
  | n :: ns => (start + n) :: cumulative (start + n) ns

def internal (h : Nat) (children : List (RrbNode α h)) : RrbNode α (h + 1) :=
  let totals := children.map (total h)
  let regular := decide (totals.IsChain (· = ·)) && children.all (!isRelaxed h ·)
  Internal.mk (!regular) totals.sum (if regular then [] else cumulative 0 totals) children

def allocateInternal (h : Nat) (children : List (RrbNode α h)) :
    Result (RrbNode α (h + 1)) := do
  failIf (children = [] ∨ branchFactor < children.length) .corruptedCollection
  failIf (h = 255) .heightOverflow
  return internal h children

/-- `chunks(BRANCH_FACTOR)`. -/
def chunks {ν : Type} : List ν → List (List ν)
  | [] => []
  | x :: xs => (x :: xs.take 31) :: chunks (xs.drop 31)
termination_by xs => xs.length

def allocateLevel (h : Nat) (children : List (RrbNode α h)) :
    Result (List (RrbNode α (h + 1))) :=
  (chunks children).mapM (allocateInternal h)

abbrev Tree (α : Type) := (h : Nat) × RrbNode α h

/-- New levels until one node is left; there is room for `room` of them. -/
def raise : (room h : Nat) → List (RrbNode α h) → Result (Tree α)
  | _, h, [node] => return ⟨h, node⟩
  | 0, _, _ => throw .heightOverflow
  | room + 1, h, level => do raise room (h + 1) (← allocateLevel h level)

def elementAt (elements : List α) (index : Nat) : Result α :=
  match elements[index]? with
  | none => throw .collectionIndexOutOfBounds
  | some value => return value

/-- The first of the cumulative sizes above an index, and the size before it. -/
def search (index : Nat) : (child prior : Nat) → List Nat → Option (Nat × Nat)
  | _, _, [] => none
  | child, prior, size :: sizes =>
    if index < size then some (child, prior) else search index (child + 1) size sizes

def selectChild (h index : Nat) (node : RrbNode α (h + 1)) : Option (Nat × Nat) :=
  if Internal.relaxed node then search index 0 0 (Internal.sizes node)
  else (Internal.children node).head?.map fun first =>
    (index / total h first, index / total h first * total h first)

def nodeGet : (h index : Nat) → RrbNode α h → Result α
  | 0, index, elements => elementAt elements index
  | h + 1, index, node => do
    failIf (Internal.total node ≤ index) .collectionIndexOutOfBounds
    match selectChild h index node with
    | none => throw .corruptedCollection
    | some (child, start) =>
      match (Internal.children node)[child]? with
      | none => throw .corruptedCollection
      | some child => nodeGet h (index - start) child

def updateNode : (h index : Nat) → RrbNode α h → α → Result (RrbNode α h)
  | 0, index, elements, value => do
    failIf (List.length elements ≤ index) .collectionIndexOutOfBounds
    allocateLeaf (List.set elements index value)
  | h + 1, index, node, value => do
    failIf (Internal.total node ≤ index) .collectionIndexOutOfBounds
    -- Always searched, also in a regular node.
    match search index 0 0 (cumulative 0 ((Internal.children node).map (total h))) with
    | none => throw .corruptedCollection
    | some (child, prior) =>
      match (Internal.children node)[child]? with
      | none => throw .corruptedCollection
      | some old => do
        let new ← updateNode h (index - prior) old value
        allocateInternal h ((Internal.children node).set child new)

def liftToHeight : (h : Nat) → Tree α → Result (RrbNode α h)
  | 0, ⟨0, node⟩ => return node
  | 0, ⟨_ + 1, _⟩ => throw .corruptedCollection
  | h + 1, tree =>
    if same : tree.1 = h + 1 then return same ▸ tree.2
    else do allocateInternal h [← liftToHeight h tree]

def concatSameHeight : (h : Nat) → (left right : RrbNode α h) →
    Result (List (RrbNode α h))
  | 0, left, right => (chunks (List.append left right)).mapM allocateLeaf
  | h + 1, left, right =>
    match (Internal.children left).getLast?, Internal.children right with
    | some leftFringe, rightFringe :: rights => do
      let middle ← concatSameHeight h leftFringe rightFringe
      allocateLevel h ((Internal.children left).dropLast ++ middle ++ rights)
    | _, _ => throw .corruptedCollection

/-! ## Lists -/

inductive ManagedList (α : Type) where
  | empty
  | inline (elements : List α)
  | tree (length : Nat) (node : Tree α)

namespace ManagedList

def length : ManagedList α → Nat
  | empty => 0
  | inline elements => elements.length
  | tree length _ => length

def elements : ManagedList α → List α
  | empty => []
  | inline elements => elements
  | tree length node => (toList node.1 node.2).take length

def get (list : ManagedList α) (index : Nat) : Result α := do
  failIf (list.length ≤ index) .collectionIndexOutOfBounds
  match list with
  | empty => throw .corruptedCollection
  | inline elements => elementAt elements index
  | tree _ node => nodeGet node.1 index node.2

def allocateTreeRoot (node : Tree α) (length : Nat) : Result (ManagedList α) := do
  failIf (total node.1 node.2 < length) .corruptedCollection
  return tree length node

def fromElements (elements : List α) : Result (ManagedList α) := do
  failIf (maxListElements < elements.length) .collectionTooLarge
  if elements = [] then return empty
  else if elements.length ≤ inlineLimit then return inline elements
  else do
    let leaves ← (chunks elements).mapM allocateLeaf
    allocateTreeRoot (← raise 255 0 leaves) elements.length

def update (list : ManagedList α) (index : Nat) (value : α) : Result (ManagedList α) := do
  failIf (list.length ≤ index) .collectionIndexOutOfBounds
  match list with
  | tree length node => do
    allocateTreeRoot ⟨node.1, ← updateNode node.1 index node.2 value⟩ length
  | _ => fromElements (list.elements.set index value)

def rootAsNode : ManagedList α → Result (Tree α)
  | empty => throw .corruptedCollection
  | inline elements => do return ⟨0, ← allocateLeaf elements⟩
  | tree _ node => return node

def concat (left right : ManagedList α) : Result (ManagedList α) := do
  failIf (maxListElements < left.length + right.length) .collectionTooLarge
  if left.length = 0 then return right
  else if right.length = 0 then return left
  else if left.length + right.length ≤ inlineLimit then
    fromElements (left.elements ++ right.elements)
  else do
    let leftNode ← rootAsNode left
    let rightNode ← rootAsNode right
    let h := max leftNode.1 rightNode.1
    let level ← concatSameHeight h (← liftToHeight h leftNode) (← liftToHeight h rightNode)
    allocateTreeRoot (← raise (255 - h) h level) (left.length + right.length)

end ManagedList

/-- Calls that make a list; a list they share stands in each place it goes to. -/
inductive Calls (α : Type) where
  | fromElements (elements : List α)
  | update (list : Calls α) (index : Nat) (value : α)
  | concat (left right : Calls α)

namespace Calls

def run : Calls α → Result (ManagedList α)
  | fromElements elements => ManagedList.fromElements elements
  | update list index value => do (← list.run).update index value
  | concat left right => do (← left.run).concat (← right.run)

def value : Calls α → List α
  | fromElements elements => elements
  | update list index value => list.value.set index value
  | concat left right => left.value ++ right.value

/-- How deep concatenations are nested. -/
def depth : Calls α → Nat
  | fromElements _ => 0
  | update list _ _ => list.depth
  | concat left right => max left.depth right.depth + 1

def Within : Calls α → Prop
  | fromElements _ => True
  | update list index _ => list.Within ∧ index < list.value.length
  | concat left right => left.Within ∧ right.Within

/-- When a call may fail with an error. -/
def Fails (calls : Calls α) : ManagedMemoryError → Prop
  | .corruptedCollection => False
  | .collectionIndexOutOfBounds => ¬ calls.Within
  | .collectionTooLarge => maxListElements < calls.value.length
  | .heightOverflow => 251 < calls.depth

end Calls

/-! ## What nodes hold -/

variable {h index : Nat} {xs ys : List α} {node : RrbNode α h} {children : List (RrbNode α h)}

def Sized {ν : Type} (xs : List ν) : Prop := xs ≠ [] ∧ xs.length ≤ 32

def Valid : (h : Nat) → RrbNode α h → Prop
  | 0, elements => Sized (show List α from elements)
  | h + 1, node => ∃ children : List (RrbNode α h), Sized children ∧
    (∀ child ∈ children, Valid h child) ∧ node = internal h children

def Hold (h : Nat) (xs : List α) (level : List (RrbNode α h)) : Prop :=
  (∀ node ∈ level, Valid h node) ∧ level.flatMap (toList h) = xs

theorem Hold.append {others : List (RrbNode α h)} (hx : Hold h xs children)
    (hy : Hold h ys others) : Hold h (xs ++ ys) (children ++ others) :=
  ⟨forall_mem_append.mpr ⟨hx.1, hy.1⟩, by rw [flatMap_append, hx.2, hy.2]⟩

theorem hold_node : Hold h xs [node] ↔ Valid h node ∧ toList h node = xs := by
  rw [Hold, forall_mem_singleton, flatMap_cons, flatMap_nil, append_nil]

theorem internal_total :
    Internal.total (internal h children) = (children.map (total h)).sum := rfl

theorem internal_children : Internal.children (internal h children) = children := rfl

theorem total_eq : ∀ {h : Nat} {node : RrbNode α h}, Valid h node →
    total h node = (toList h node).length
  | 0, _, _ => rfl
  | h + 1, _, ⟨children, _, valid, rfl⟩ => by
    rw [total, internal_total, toList, internal_children, length_flatMap,
      map_congr_left fun child mem => total_eq (valid child mem)]

/-! ## Reading -/

/-- A search ends in the child that has the element. -/
theorem search_finds {ν : Type} {g : ν → List α} {kids : List ν} (child : Nat)
    {prior : Nat} (past : prior ≤ index) (inside : index < prior + (kids.flatMap g).length) :
    ∃ before kid after, kids = before ++ kid :: after ∧
      search index child prior (cumulative prior (kids.map fun kid => (g kid).length)) =
        some (child + before.length, prior + (before.flatMap g).length) ∧
      prior + (before.flatMap g).length ≤ index ∧
        index - (prior + (before.flatMap g).length) < (g kid).length := by
  induction kids generalizing child prior with
  | nil => exact absurd inside (Nat.not_lt.mpr past)
  | cons kid kids ih =>
    rw [flatMap_cons, length_append] at inside
    rw [map_cons, cumulative, search]
    by_cases here : index < prior + (g kid).length
    · rw [if_pos here]
      exact ⟨[], kid, kids, rfl, rfl, past, Nat.sub_lt_left_of_lt_add past here⟩
    · obtain ⟨before, found, after, rfl, run, low, high⟩ :=
        ih (child + 1) (Nat.not_lt.mp here) (by omega)
      rw [if_neg here, run]
      refine ⟨kid :: before, found, after, rfl, ?_⟩
      rw [flatMap_cons, length_append, length_cons, ← Nat.add_assoc prior, Nat.add_right_comm child]
      exact ⟨rfl, low, high⟩

/-- Among children of one size, division finds what a search would. -/
theorem search_uniform (child : Nat) {n : Nat} {totals : List Nat}
    (same : ∀ size ∈ totals, size = n) (past : child * n ≤ index)
    (inside : index < child * n + totals.sum) :
    search index child (child * n) (cumulative (child * n) totals) =
      some (index / n, index / n * n) := by
  induction totals generalizing child with
  | nil => exact absurd inside (Nat.not_lt.mpr past)
  | cons size totals ih =>
    obtain rfl := same size mem_cons_self
    rw [sum_cons, ← Nat.add_assoc] at inside
    rw [cumulative, search, ← Nat.succ_mul] at *
    by_cases here : index < (child + 1) * size
    · rw [if_pos here, Nat.div_eq_of_lt_le past here]
    · rw [if_neg here, ih (child + 1) (fun _ mem => same _ (mem_cons_of_mem _ mem))
        (Nat.not_lt.mp here) inside]

theorem selectChild_eq (inside : index < (children.map (total h)).sum) :
    selectChild h index (internal h children) =
      search index 0 0 (cumulative 0 (children.map (total h))) := by
  cases regular : decide ((children.map (total h)).IsChain (· = ·)) &&
      children.all (!isRelaxed h ·) <;> simp only [selectChild, internal, regular]
  case false => rfl
  case true =>
    cases children with
    | nil => exact absurd inside (Nat.not_lt_zero _)
    | cons first others =>
      have equal := isChain_iff_pairwise.mp (of_decide_eq_true (Bool.and_eq_true_iff.mp regular).1)
      have found := search_uniform 0 (forall_mem_cons.mpr ⟨rfl, fun size mem =>
        ((pairwise_cons.mp equal).1 size mem).symm⟩) (Nat.zero_mul _ ▸ Nat.zero_le index)
      rw [Nat.zero_mul, Nat.zero_add] at found
      exact (found inside).symm

theorem nodeGet_eq (valid : Valid h node) (index : Nat) :
    nodeGet h index node = elementAt (toList h node) index := by
  induction h generalizing index with
  | zero => rfl
  | succ h ih =>
    have sum := total_eq valid
    obtain ⟨children, _, each, rfl⟩ := valid
    rw [total, internal_total, toList, internal_children] at sum
    rw [nodeGet, internal_total, toList, internal_children]
    by_cases inside : index < (children.flatMap (toList h)).length
    · rw [failIf_ok_iff.mpr (by omega), selectChild_eq (by omega),
        map_congr_left fun child mem => total_eq (each child mem)]
      obtain ⟨before, kid, after, rfl, found, low, high⟩ :=
        search_finds 0 (Nat.zero_le index) (by rwa [Nat.zero_add])
      simp only [Nat.zero_add] at found low high
      rw [found]
      simp only [getElem?_append_right (Nat.le_refl _), Nat.sub_self, getElem?_cons_zero]
      rw [ih (each kid (by simp)), elementAt, elementAt, flatMap_append, flatMap_cons,
        getElem?_append_right low, getElem?_append_left high]
      rfl
    · rw [failIf, if_pos (by omega), elementAt, getElem?_eq_none (Nat.not_lt.mp inside)]
      rfl

/-! ## Making -/

/-- The call returns with `P`, or with an error that `fails` allows. -/
def Gives {β : Type} (fails : ManagedMemoryError → Prop) (x : Result β) (P : β → Prop) : Prop :=
  (∃ error, fails error ∧ x = .error error) ∨ ∃ b, x = .ok b ∧ P b

variable {β γ : Type} {fails : ManagedMemoryError → Prop} {P : β → Prop} {Q : γ → Prop}

theorem gives_ok {b : β} (holds : P b) : Gives fails (.ok b) P := .inr ⟨b, rfl, holds⟩

theorem gives_bind {x : Result γ} {f : γ → Result β} (first : Gives fails x Q)
    (rest : ∀ c, x = .ok c → Q c → Gives fails (f c) P) : Gives fails (x >>= f) P := by
  rcases first with ⟨error, allowed, rfl⟩ | ⟨c, rfl, holds⟩
  · exact .inl ⟨error, allowed, rfl⟩
  · exact rest c rfl holds

theorem gives_and {x : Result β} {R : β → Prop} (gives : Gives fails x P)
    (also : ∀ b, x = .ok b → R b) : Gives fails x fun b => R b ∧ P b :=
  gives.imp_right fun ⟨b, run, holds⟩ => ⟨b, run, also b run, holds⟩

theorem gives_mono {weaker : ManagedMemoryError → Prop} {x : Result β} (gives : Gives weaker x P)
    (all : ∀ error, weaker error → fails error) : Gives fails x P :=
  gives.imp_left fun ⟨error, allowed, run⟩ => ⟨error, all error allowed, run⟩

theorem gives_check {p : Prop} [Decidable p] {error : ManagedMemoryError} {x : Result β}
    (allowed : p → fails error) (rest : ¬ p → Gives fails x P) :
    Gives fails (failIf p error >>= fun _ => x) P := by
  by_cases holds : p
  · rw [failIf, if_pos holds]
    exact .inl ⟨error, allowed holds, rfl⟩
  · rw [failIf_ok_iff.mpr holds]
    exact rest holds

theorem gives_allocateLeaf (sized : Sized xs) :
    Gives fails (allocateLeaf xs) fun leaf => Hold 0 xs [leaf] :=
  gives_check (fun bad => absurd bad (not_or.mpr ⟨sized.1, Nat.not_lt.mpr sized.2⟩)) fun _ =>
    gives_ok (hold_node.mpr ⟨sized, rfl⟩)

theorem gives_allocateInternal (top : h = 255 → fails .heightOverflow) (sized : Sized children)
    (all : Hold h xs children) :
    Gives fails (allocateInternal h children) fun node => Hold (h + 1) xs [node] :=
  gives_check (fun bad => absurd bad (not_or.mpr ⟨sized.1, Nat.not_lt.mpr sized.2⟩)) fun _ =>
    gives_check top fun _ => gives_ok (hold_node.mpr ⟨⟨children, sized, all.1, rfl⟩, all.2⟩)

/-- Chunk by chunk; `g` says what an item of a chunk stands for. -/
theorem gives_chunks {ν : Type} {make : List ν → Result (RrbNode α h)}
    (g : ν → List α) (items : List ν) (each : ∀ part : List ν, Sized part → part ⊆ items →
      Gives fails (make part) fun node => Hold h (part.flatMap g) [node]) :
    Gives fails ((chunks items).mapM make) (Hold h (items.flatMap g)) := by
  induction items using chunks.induct with
  | case1 =>
    rw [chunks]
    exact gives_ok ⟨fun _ mem => absurd mem not_mem_nil, rfl⟩
  | case2 x items ih =>
    rw [chunks, mapM_cons]
    have first := each (x :: items.take 31) ⟨cons_ne_nil _ _, by rw [length_cons, length_take]; omega⟩
      (cons_subset_cons x (take_subset 31 items))
    have others := ih fun part sized within => each part sized fun _ mem =>
      mem_cons_of_mem x (drop_subset 31 items (within mem))
    refine gives_bind first fun node _ holds => gives_bind others fun nodes _ all => gives_ok ?_
    rw [← take_append_drop 31 items, ← cons_append, flatMap_append]
    exact Hold.append holds all

theorem length_chunks {ν : Type} {items : List ν} {n : Nat} (few : items.length ≤ 32 * n)
    {make : List ν → Result (RrbNode α h)} (run : (chunks items).mapM make = .ok children) :
    children.length ≤ n := by
  rw [← (mapM_ok_iff.mp run).length_eq]
  clear run
  induction items using chunks.induct generalizing n with
  | case1 =>
    rw [chunks]
    exact Nat.zero_le n
  | case2 x items ih =>
    rw [length_cons] at few
    obtain ⟨n, rfl⟩ := Nat.exists_eq_add_one.mpr (show 0 < n by omega)
    rw [chunks, length_cons]
    exact Nat.add_le_add_right (ih (by rw [length_drop]; omega)) 1

theorem gives_allocateLeaves (xs : List α) :
    Gives fails ((chunks xs).mapM allocateLeaf) (Hold 0 xs) := by
  have leaves : Gives fails _ (Hold 0 (xs.flatMap fun x => [x])) :=
    gives_chunks _ xs fun part sized _ => by
      rw [flatMap_singleton']
      exact gives_allocateLeaf sized
  rwa [flatMap_singleton'] at leaves

theorem gives_allocateLevel (top : h = 255 → fails .heightOverflow) (all : Hold h xs children) :
    Gives fails (allocateLevel h children) (Hold (h + 1) xs) := by
  rw [← all.2]
  exact gives_chunks _ _ fun part sized within =>
    gives_allocateInternal top sized ⟨fun node mem => all.1 node (within mem), rfl⟩

theorem levels_left {k : Nat} (few : children.length ≤ 32 ^ k) (filled : xs ≠ [])
    (all : Hold h xs children) (more : ∀ node, children = [node] → False) : 0 < k := by
  refine Nat.pos_of_ne_zero fun none => ?_
  rw [none, Nat.pow_zero] at few
  match children, few with
  | [], _ => exact filled all.2.symm
  | [node], _ => exact more node rfl

/-- A level of at most `32 ^ k` nodes is raised by at most `k`. -/
theorem gives_raise {room k height : Nat} (bound : h + k = height) (enough : 255 ≤ h + room)
    (top : 255 < height → fails .heightOverflow) (few : children.length ≤ 32 ^ k) (filled : xs ≠ [])
    (all : Hold h xs children) :
    Gives fails (raise room h children) fun tree => tree.1 ≤ height ∧ Hold tree.1 xs [tree.2] := by
  fun_induction raise room h children generalizing k with
  | case1 => exact gives_ok ⟨Nat.le.intro bound, all⟩
  | case2 h level more =>
    have := levels_left few filled all more
    exact .inl ⟨_, top (by omega), rfl⟩
  | case3 room h level more ih =>
    obtain ⟨k, rfl⟩ := Nat.exists_eq_add_one.mpr (levels_left few filled all more)
    rw [Nat.pow_succ'] at few
    exact gives_bind (gives_allocateLevel (fun high => top (by omega)) all) fun next run all =>
      ih next (by omega) (by omega) (length_chunks few run) all

theorem gives_liftToHeight (top : 255 < h → fails .heightOverflow) {tree : Tree α} (low : tree.1 ≤ h)
    (holds : Hold tree.1 xs [tree.2]) :
    Gives fails (liftToHeight h tree) fun node => Hold h xs [node] := by
  obtain ⟨height, node⟩ := tree
  induction h with
  | zero =>
    obtain rfl := Nat.le_zero.mp low
    exact gives_ok holds
  | succ h ih =>
    rw [liftToHeight]
    split
    case isTrue same =>
      cases same
      exact gives_ok holds
    case isFalse other =>
      exact gives_bind (ih (fun high => top (Nat.lt_succ_of_lt high))
        (Nat.le_of_lt_succ (Nat.lt_of_le_of_ne low other))) fun node _ =>
          gives_allocateInternal (fun high => top (by omega)) ⟨cons_ne_nil _ _, Nat.le_add_left 1 31⟩

theorem gives_updateNode (top : 255 < h → fails .heightOverflow) {value : α}
    (valid : Valid h node) (inside : index < (toList h node).length) :
    Gives fails (updateNode h index node value)
      fun new => Hold h ((toList h node).set index value) [new] := by
  induction h generalizing index with
  | zero =>
    refine gives_check (fun past => absurd inside (Nat.not_lt.mpr past)) fun _ =>
      gives_allocateLeaf ⟨?_, ?_⟩
    · exact fun none => valid.1 ((set_eq_nil_iff _ _).mp none)
    · exact length_set.trans_le valid.2
  | succ h ih =>
    have sum := total_eq valid
    obtain ⟨children, sized, each, rfl⟩ := valid
    refine gives_check (fun past => absurd inside (Nat.not_lt.mpr (sum ▸ past))) fun _ => ?_
    rw [toList, internal_children] at inside ⊢
    rw [map_congr_left fun child mem => total_eq (each child mem)]
    obtain ⟨before, kid, after, rfl, found, low, high⟩ :=
      search_finds 0 (Nat.zero_le index) (by rwa [Nat.zero_add])
    simp only [Nat.zero_add] at found low high
    rw [found]
    simp only [getElem?_append_right (Nat.le_refl _), Nat.sub_self, getElem?_cons_zero]
    rw [forall_mem_append, forall_mem_cons] at each
    refine gives_bind (ih (fun high => top (by omega)) each.2.1 high) fun new _ holds => ?_
    simp only [set_append_right _ _ (Nat.le_refl _), Nat.sub_self, set_cons_zero, flatMap_append, flatMap_cons,
      set_append_right _ _ low, set_append_left _ _ high]
    refine gives_allocateInternal (fun high => top (by omega)) ?_ ?_
    · simpa [Sized] using sized
    · exact Hold.append ⟨each.1, rfl⟩ (Hold.append holds ⟨each.2.2, rfl⟩)

theorem gives_concatSameHeight (top : 255 < h → fails .heightOverflow) {left right : RrbNode α h}
    (validLeft : Valid h left) (validRight : Valid h right) :
    Gives fails (concatSameHeight h left right)
      fun level => level.length ≤ 2 ∧ Hold h (toList h left ++ toList h right) level := by
  induction h with
  | zero =>
    have few := Nat.add_le_add validLeft.2 validRight.2
    rw [← length_append] at few
    exact gives_and (gives_allocateLeaves _) fun level run => length_chunks few run
  | succ h ih =>
    obtain ⟨lefts, sizedLeft, eachLeft, rfl⟩ := validLeft
    obtain ⟨rights, sizedRight, eachRight, rfl⟩ := validRight
    obtain ⟨lefts, leftFringe, rfl⟩ := (eq_nil_or_concat' lefts).resolve_left sizedLeft.1
    obtain ⟨rightFringe, rights, rfl⟩ := exists_cons_of_ne_nil sizedRight.1
    rw [forall_mem_append, forall_mem_singleton] at eachLeft
    rw [forall_mem_cons] at eachRight
    simp only [concatSameHeight, toList, internal_children, getLast?_concat, dropLast_concat]
    refine gives_bind (ih (fun high => top (by omega)) eachLeft.2 eachRight.1)
      fun middle _ ⟨two, all⟩ => gives_and ?_ fun level run => length_chunks ?_ run
    · have level := (Hold.append ⟨eachLeft.1, rfl⟩ all).append ⟨eachRight.2, rfl⟩
      simpa only [flatMap_append, flatMap_cons, flatMap_nil, nil_append, append_assoc] using
        gives_allocateLevel (fun high => top (by omega)) level
    · have small := Nat.add_le_add sizedLeft.2 sizedRight.2
      simp only [length_append, length_cons, length_nil] at small ⊢
      omega

/-! ## Lists and the sequences they stand for -/

def Stands (height : Nat) (list : ManagedList α) (xs : List α) : Prop :=
  match list with
  | .empty => xs = []
  | .inline elements => elements = xs ∧ Sized xs
  | .tree length node => length = xs.length ∧ (xs ≠ [] ∧ xs.length ≤ maxListElements) ∧
    node.1 ≤ height ∧ Hold node.1 xs [node.2]

variable {height : Nat} {list left right : ManagedList α}

theorem Stands.mono {low : Nat} (le : low ≤ height) (stands : Stands low list xs) :
    Stands height list xs := by
  cases list with
  | empty | inline => exact stands
  | tree => exact ⟨stands.1, stands.2.1, stands.2.2.1.trans le, stands.2.2.2⟩

theorem Stands.reads (stands : Stands height list xs) :
    list.elements = xs ∧ list.length = xs.length := by
  cases list with
  | empty => exact stands ▸ ⟨rfl, rfl⟩
  | inline => exact stands.1 ▸ ⟨rfl, rfl⟩
  | tree =>
    obtain ⟨rfl, _, _, holds⟩ := stands
    exact ⟨by rw [ManagedList.elements, (hold_node.mp holds).2, take_length], rfl⟩

theorem Stands.fits (stands : Stands height list xs) : xs.length ≤ maxListElements := by
  cases list with
  | empty => exact stands ▸ Nat.zero_le _
  | inline => exact stands.2.2.trans (by decide)
  | tree => exact stands.2.1.2

theorem Stands.get_eq (stands : Stands height list xs) (index : Nat) :
    list.get index = elementAt xs index := by
  unfold ManagedList.get
  rw [stands.reads.2]
  by_cases past : xs.length ≤ index
  · rw [failIf, if_pos past, elementAt, getElem?_eq_none past]
    rfl
  · rw [failIf_ok_iff.mpr past]
    cases list with
    | empty => exact absurd (stands ▸ Nat.zero_le _) past
    | inline => exact stands.1 ▸ rfl
    | tree =>
      obtain ⟨valid, rfl⟩ := hold_node.mp stands.2.2.2
      exact nodeGet_eq valid index

theorem gives_allocateTreeRoot {tree : Tree α} (filled : xs ≠ [] ∧ xs.length ≤ maxListElements)
    (low : tree.1 ≤ height) (holds : Hold tree.1 xs [tree.2]) :
    Gives fails (ManagedList.allocateTreeRoot tree xs.length) (Stands height · xs) := by
  refine gives_check (fun short => ?_) fun _ => gives_ok ⟨rfl, filled, low, holds⟩
  obtain ⟨valid, rfl⟩ := hold_node.mp holds
  exact absurd short (total_eq valid ▸ Nat.lt_irrefl _)

theorem gives_fromElements (long : maxListElements < xs.length → fails .collectionTooLarge)
    (deep : inlineLimit < xs.length → 4 ≤ height) :
    Gives fails (ManagedList.fromElements xs) (Stands height · xs) := by
  refine gives_check long fun fits => ?_
  have fits := Nat.not_lt.mp fits
  split_ifs with none small
  · exact gives_ok none
  · exact gives_ok ⟨rfl, none, small.trans (by decide)⟩
  · refine gives_bind (gives_allocateLeaves xs) fun leaves run all => ?_
    have few : leaves.length ≤ 32 ^ 4 := length_chunks (fits.trans (by decide)) run
    exact gives_bind (gives_raise (Nat.zero_add 4) (by decide) (absurd · (by decide)) few none all)
      fun tree _ ⟨low, holds⟩ => gives_allocateTreeRoot ⟨none, fits⟩
        (low.trans (deep (Nat.not_le.mp small))) holds

theorem gives_rootAsNode (stands : Stands height list xs) (filled : xs ≠ []) :
    Gives fails list.rootAsNode fun tree => tree.1 ≤ height ∧ Hold tree.1 xs [tree.2] := by
  cases list with
  | empty => exact absurd stands filled
  | inline =>
    obtain ⟨rfl, sized⟩ := stands
    exact gives_bind (gives_allocateLeaf sized) fun _ _ holds => gives_ok ⟨Nat.zero_le _, holds⟩
  | tree => exact gives_ok stands.2.2

theorem gives_concat (hl : Stands height left xs) (hr : Stands height right ys)
    (top : 255 ≤ height → fails .heightOverflow)
    (long : maxListElements < (xs ++ ys).length → fails .collectionTooLarge) :
    Gives fails (left.concat right) (Stands (height + 1) · (xs ++ ys)) := by
  rw [length_append] at long
  rw [ManagedList.concat, hl.reads.1, hl.reads.2, hr.reads.1, hr.reads.2]
  refine gives_check long fun fits => ?_
  split_ifs with noLeft noRight small
  · rw [length_eq_zero_iff.mp noLeft]
    exact gives_ok (hr.mono (Nat.le_add_right _ _))
  · rw [length_eq_zero_iff.mp noRight, append_nil]
    exact gives_ok (hl.mono (Nat.le_add_right _ _))
  · rw [← length_append] at small long
    exact gives_fromElements long fun large => absurd small (Nat.not_le.mpr large)
  · rw [length_eq_zero_iff] at noLeft noRight
    refine gives_bind (gives_rootAsNode hl noLeft) fun leftNode _ ⟨lowLeft, holdsLeft⟩ =>
      gives_bind (gives_rootAsNode hr noRight) fun rightNode _ ⟨lowRight, holdsRight⟩ => ?_
    have low := Nat.max_le.mpr ⟨lowLeft, lowRight⟩
    have high : 255 < max leftNode.1 rightNode.1 → fails .heightOverflow := fun high => top (by omega)
    refine gives_bind (gives_liftToHeight high (le_max_left _ _) holdsLeft) fun _ _ holdsLeft =>
      gives_bind (gives_liftToHeight high (le_max_right _ _) holdsRight) fun node _ holdsRight => ?_
    obtain ⟨validLeft, rfl⟩ := hold_node.mp holdsLeft
    obtain ⟨validRight, rfl⟩ := hold_node.mp holdsRight
    have filled := append_ne_nil_of_left_ne_nil noLeft (toList _ node)
    rw [← length_append] at fits ⊢
    exact gives_bind (gives_concatSameHeight high validLeft validRight) fun level _ ⟨two, all⟩ =>
      gives_bind (gives_raise rfl (by omega) (fun high => top (by omega))
        (two.trans (by decide : 2 ≤ 32 ^ 1)) filled all) fun tree _ ⟨lowTree, holds⟩ =>
          gives_allocateTreeRoot ⟨filled, Nat.not_lt.mp fits⟩
            (lowTree.trans (Nat.add_le_add_right low 1)) holds

theorem gives_update (stands : Stands height list xs) (deep : 4 ≤ height)
    (top : 255 < height → fails .heightOverflow) {value : α}
    (out : xs.length ≤ index → fails .collectionIndexOutOfBounds) :
    Gives fails (list.update index value) (Stands height · (xs.set index value)) := by
  have fits := stands.fits
  rw [← @length_set _ xs index value] at fits
  rw [ManagedList.update.eq_def, stands.reads.2]
  refine gives_check out fun inside => ?_
  cases list with
  | empty | inline =>
    rw [stands.reads.1]
    exact gives_fromElements (fun long => absurd fits (Nat.not_le.mpr long)) fun _ => deep
  | tree =>
    obtain ⟨rfl, filled, low, holds⟩ := stands
    obtain ⟨valid, rfl⟩ := hold_node.mp holds
    rw [← @length_set _ _ index value]
    exact gives_bind (gives_updateNode (fun high => top (by omega)) valid (Nat.not_le.mp inside))
      fun new _ holds => gives_allocateTreeRoot
        ⟨fun none => filled.1 ((set_eq_nil_iff _ _).mp none), fits⟩ low holds

theorem update_inside {value : α} {new : ManagedList α} (run : list.update index value = .ok new) :
    index < list.length := by
  rw [ManagedList.update.eq_def] at run
  exact Nat.not_le.mp (failIf_ok_iff.mp (check_bind_ok_iff.mp run).1)

theorem fails_mono {part whole : Calls α} (within : whole.Within → part.Within)
    (shorter : part.value.length ≤ whole.value.length) (shallower : part.depth ≤ whole.depth) :
    ∀ error, part.Fails error → whole.Fails error
  | .corruptedCollection, fails => fails
  | .collectionIndexOutOfBounds, fails => fun all => fails (within all)
  | .collectionTooLarge, fails => fails.trans_le shorter
  | .heightOverflow, fails => fails.trans_le shallower

/-- Whatever calls make a list, it reads as their sequence, and only what `Fails` says goes wrong. -/
theorem run_refines (calls : Calls α) : Gives calls.Fails calls.run fun list =>
    (calls.Within ∧ list.elements = calls.value ∧ list.length = calls.value.length ∧
      calls.value.length ≤ maxListElements) ∧
        ∀ index, list.get index = elementAt calls.value index := by
  suffices Gives calls.Fails calls.run fun list =>
      calls.Within ∧ Stands (calls.depth + 4) list calls.value by
    refine this.imp_right fun ⟨list, run, within, stands⟩ => ⟨list, run, ?_⟩
    exact ⟨⟨within, stands.reads.1, stands.reads.2, stands.fits⟩, stands.get_eq⟩
  induction calls with
  | fromElements elements =>
    exact gives_and (gives_fromElements id fun _ => Nat.le_add_left 4 _) fun _ _ => trivial
  | update calls index value ih =>
    refine gives_bind (gives_mono ih ?_) fun list _ ⟨within, stands⟩ =>
      gives_and (gives_update stands ?_ ?_ ?_) fun _ run =>
        ⟨within, stands.reads.2 ▸ update_inside run⟩
    · exact fails_mono And.left length_set.ge le_rfl
    · exact Nat.le_add_left 4 _
    · exact fun deep => show 251 < calls.depth by omega
    · exact fun past within => absurd within.2 (Nat.not_lt.mpr past)
  | concat left right left_ih right_ih =>
    refine gives_bind (gives_mono left_ih ?_) fun _ _ ⟨withinLeft, holdsLeft⟩ =>
      gives_bind (gives_mono right_ih ?_) fun _ _ ⟨withinRight, holdsRight⟩ =>
        gives_and ?_ fun _ _ => ⟨withinLeft, withinRight⟩
    · exact fails_mono And.left (length_append ▸ Nat.le_add_right _ _)
        ((le_max_left _ _).trans (Nat.le_add_right _ 1))
    · exact fails_mono And.right (length_append ▸ Nat.le_add_left _ _)
        ((le_max_right _ _).trans (Nat.le_add_right _ 1))
    rw [Calls.depth, Nat.add_right_comm]
    exact gives_concat (holdsLeft.mono (Nat.add_le_add_right (le_max_left _ _) 4))
      (holdsRight.mono (Nat.add_le_add_right (le_max_right _ _) 4)) (fun deep => by
        show 251 < max left.depth right.depth + 1; omega) id

end Terlan.Rrb
