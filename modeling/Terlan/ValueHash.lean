/-
  Stable hash of a value: FNV-1a over type-separated frames, computed with a stack of tasks and
  a stack of results.

  * `stableHash_spec`: the two stacks compute the recursive definition `hashOf`, and the order
    of map entries and set items does not matter at any depth.

  A stack is a list with its top first for tasks, and with its top last for results, where a
  finishing task takes its hashes off the end. Vectors are never long enough for the source's
  `saturating_mul` to saturate.
-/
import Terlan.Lib.Bytes
import Terlan.Lib.Method
import Terlan.Lib.Sorted
import Terlan.Lib.Text
import Terlan.TermFormat.Value

namespace Terlan.ValueHash

open Terlan.Lib Terlan.TermFormat List

/-! ## The hasher -/

def fnvOffsetBasis : UInt64 := 0xcbf29ce484222325
def fnvPrime : UInt64 := 0x00000100000001b3

inductive VmStableHashError where
  | unsupportedValue (kind : String)

structure StableHasher where
  state : UInt64

namespace StableHasher

def writeByte (hasher : StableHasher) (byte : UInt8) : StableHasher :=
  ⟨(hasher.state ^^^ byte.toUInt64) * fnvPrime⟩

def new (tag : UInt8) : StableHasher := writeByte ⟨fnvOffsetBasis⟩ tag

def writeU64 (hasher : StableHasher) (value : UInt64) : StableHasher :=
  (leBytes 8 value.toNat).foldl writeByte hasher

def writeLen (hasher : StableHasher) (len : Nat) : StableHasher := hasher.writeU64 (.ofNat len)

def writeBytes (hasher : StableHasher) (bytes : Bytes) : StableHasher :=
  bytes.foldl writeByte (hasher.writeLen bytes.length)

def writeStr (hasher : StableHasher) (value : String) : StableHasher :=
  hasher.writeBytes (asBytes value)

def finish (hasher : StableHasher) : UInt64 := hasher.state

end StableHasher

def valueTag : ReplValue → UInt8
  | .closure _ _ _ => 21
  | .unit => 1
  | .int _ => 2
  | .float _ => 3
  | .string _ | .stringBytes _ => 4
  | .bytes _ => 5
  | .bitString _ => 6
  | .atom _ => 7
  | .bool _ => 8
  | .tuple _ => 15
  | .record _ _ => 16
  | .list _ => 17
  | .map _ => 18
  | .set _ => 19

/-- What a value without parts writes behind its tag. -/
def writeLeaf (hasher : StableHasher) : ReplValue → StableHasher
  | .int value => hasher.writeU64 value.toUInt64
  | .float text | .string text | .atom text => hasher.writeStr text
  | .stringBytes bytes | .bytes bytes => hasher.writeBytes bytes
  | .bitString value => (hasher.writeLen value.bitLen).writeBytes value.bytes
  | .bool value => hasher.writeByte (if value then 1 else 0)
  | .unit | .closure _ _ _ | .tuple _ | .record _ _ | .list _ | .map _ | .set _ => hasher

def leafHash (value : ReplValue) : UInt64 :=
  (writeLeaf (.new (valueTag value)) value).finish

def hashSequence (tag : UInt8) (len : Nat) (hashes : List UInt64) : UInt64 :=
  (hashes.foldl StableHasher.writeU64 ((StableHasher.new tag).writeLen len)).finish

def hashRecord (name : String) (fields : List String) (hashes : List UInt64) : UInt64 :=
  ((fields.zip hashes).foldl (fun hasher field => (hasher.writeStr field.1).writeU64 field.2)
    (((StableHasher.new 16).writeStr name).writeLen fields.length)).finish

def hashEntry (entry : UInt64 × UInt64) : UInt64 :=
  (((StableHasher.new 1).writeU64 entry.1).writeU64 entry.2).finish

/-- `sort_unstable`. -/
def sortHashes (hashes : List UInt64) : List UInt64 :=
  sortByKey UInt64.toNat hashes

/-! ## The two stacks -/

inductive Task where
  | value (value : ReplValue)
  | finishOrdered (tag : UInt8) (len : Nat)
  | finishRecord (name : String) (fields : List (String × ReplValue))
  | finishMap (len : Nat)
  | finishSet (len : Nat)

abbrev HashResult (α : Type) := Except (Fault VmStableHashError) α

/-- The last `len` results, and those below them. -/
def takeResults (results : List UInt64) (len : Nat) : HashResult (List UInt64 × List UInt64) :=
  if len ≤ results.length then
    .ok (results.drop (results.length - len), results.take (results.length - len))
  else .error (.panicked "attempt to subtract with overflow")

/-- `chunks_exact(2)`. -/
def pairs : List UInt64 → List (UInt64 × UInt64)
  | key :: value :: rest => (key, value) :: pairs rest
  | _ => []

/-- One turn of the loop: the tasks that are pushed, and the results. -/
def step (task : Task) (results : List UInt64) : HashResult (List Task × List UInt64) :=
  match task with
  | .value whole =>
    match whole with
    | .closure _ _ _ => .error (.returned (.unsupportedValue "Function"))
    | .tuple items => .ok (items.map Task.value ++ [.finishOrdered 15 items.length], results)
    | .list items => .ok (items.map Task.value ++ [.finishOrdered 17 items.length], results)
    | .record name fields =>
      .ok ((fields.map Prod.snd).map Task.value ++ [.finishRecord name fields], results)
    | .map entries =>
      .ok ((entries.flatMap fun entry => [entry.1, entry.2]).map Task.value ++
        [.finishMap entries.length], results)
    | .set items => .ok (items.map Task.value ++ [.finishSet items.length], results)
    | leaf => .ok ([], results ++ [leafHash leaf])
  | .finishOrdered tag len => do
    let (hashes, rest) ← takeResults results len
    return ([], rest ++ [hashSequence tag len hashes])
  | .finishRecord name fields => do
    let (hashes, rest) ← takeResults results fields.length
    return ([], rest ++ [hashRecord name (fields.map Prod.fst) hashes])
  | .finishMap len => do
    let (childHashes, rest) ← takeResults results (len * 2)
    return ([], rest ++ [hashSequence 18 len (sortHashes ((pairs childHashes).map hashEntry))])
  | .finishSet len => do
    let (hashes, rest) ← takeResults results len
    return ([], rest ++ [hashSequence 19 len (sortHashes hashes)])

/-- A bound on the turns that a task takes with all it pushes. -/
noncomputable def Task.weight : Task → Nat
  | .value whole => 2 * sizeOf whole
  | _ => 1

noncomputable def weights (tasks : List Task) : Nat := (tasks.map Task.weight).sum

theorem weights_cons (task : Task) (tasks : List Task) :
    weights (task :: tasks) = task.weight + weights tasks := by
  unfold weights
  rw [map_cons, sum_cons]

theorem weights_append (a b : List Task) : weights (a ++ b) = weights a + weights b := by
  unfold weights
  rw [map_append, sum_append]

theorem weights_items (items : List ReplValue) :
    weights (items.map Task.value) + 2 ≤ 2 * sizeOf items := by
  induction items with
  | nil => decide
  | cons item items ih =>
    rw [map_cons, weights_cons, List.cons.sizeOf_spec, Task.weight]
    omega

theorem weights_fields (fields : List (String × ReplValue)) :
    weights ((fields.map Prod.snd).map Task.value) + 2 ≤ 2 * sizeOf fields := by
  induction fields with
  | nil => decide
  | cons field fields ih =>
    obtain ⟨name, value⟩ := field
    rw [map_cons, map_cons, weights_cons, List.cons.sizeOf_spec, Prod.mk.sizeOf_spec]
    change 2 * sizeOf value + _ + 2 ≤ _
    omega

variable (entries : List (ReplValue × ReplValue))

theorem weights_entries :
    weights ((entries.flatMap fun entry => [entry.1, entry.2]).map Task.value) + 2 ≤
      2 * sizeOf entries := by
  induction entries with
  | nil => decide
  | cons entry entries ih =>
    obtain ⟨key, value⟩ := entry
    rw [flatMap_cons, map_append, weights_append, map_cons, map_cons,
      weights_cons, weights_cons, List.cons.sizeOf_spec, Prod.mk.sizeOf_spec, Task.weight,
      Task.weight]
    change 2 * sizeOf key + (2 * sizeOf value + 0) + _ + 2 ≤ _
    omega

/-- What a task that takes results does: it pushes nothing. -/
theorem finish_pushes {results : List UInt64} {len : Nat} {pushed : List Task}
    {after : List UInt64} (combine : List UInt64 → UInt64)
    (h : (do
      let (hashes, rest) ← takeResults results len
      return (([] : List Task), rest ++ [combine hashes]) : HashResult _) = .ok (pushed, after)) :
    weights pushed < 1 := by
  obtain ⟨_, _, h⟩ := except_bind_ok_iff.mp h
  cases h
  decide

theorem step_lighter {task : Task} {results after : List UInt64} {pushed : List Task}
    (h : step task results = .ok (pushed, after)) : weights pushed < task.weight := by
  have one : ∀ task : Task, weights [task] = task.weight := fun task => by
    rw [weights_cons]
    rfl
  cases task with
  | value value =>
    cases value with
    | closure => cases h
    | tuple items =>
      cases h
      have := weights_items items
      rw [weights_append, one]
      change _ + 1 < 2 * sizeOf (ReplValue.tuple items)
      rw [ReplValue.tuple.sizeOf_spec]
      omega
    | list items =>
      cases h
      have := weights_items items
      rw [weights_append, one]
      change _ + 1 < 2 * sizeOf (ReplValue.list items)
      rw [ReplValue.list.sizeOf_spec]
      omega
    | set items =>
      cases h
      have := weights_items items
      rw [weights_append, one]
      change _ + 1 < 2 * sizeOf (ReplValue.set items)
      rw [ReplValue.set.sizeOf_spec]
      omega
    | record name fields =>
      cases h
      have := weights_fields fields
      rw [weights_append, one]
      change _ + 1 < 2 * sizeOf (ReplValue.record name fields)
      rw [ReplValue.record.sizeOf_spec]
      omega
    | map entries =>
      cases h
      have := weights_entries entries
      rw [weights_append, one]
      change _ + 1 < 2 * sizeOf (ReplValue.map entries)
      rw [ReplValue.map.sizeOf_spec]
      omega
    | _ =>
      cases h
      exact Nat.mul_pos (by decide) (by simp <;> omega)
  | finishOrdered tag len => exact finish_pushes (hashSequence tag len) h
  | finishRecord name fields => exact finish_pushes (hashRecord name (fields.map Prod.fst)) h
  | finishMap len =>
    exact finish_pushes
      (fun hashes => hashSequence 18 len (sortHashes ((pairs hashes).map hashEntry))) h
  | finishSet len => exact finish_pushes (fun hashes => hashSequence 19 len (sortHashes hashes)) h

/-- The loop over the task stack. -/
def hashLoop : List Task → List UInt64 → HashResult (List UInt64)
  | [], results => .ok results
  | task :: tasks, results =>
    match _h : step task results with
    | .error e => .error e
    | .ok (pushed, results) => hashLoop (pushed ++ tasks) results
termination_by tasks => weights tasks
decreasing_by
  have := step_lighter _h
  rw [weights_append, weights_cons]
  omega

def stableHash (value : ReplValue) : HashResult UInt64 := do
  match ← hashLoop [.value value] [] with
  | [hash] => return hash
  | _ => throw (.returned (.unsupportedValue "invalid stable hash traversal state"))

/-! ## The recursive definition -/

mutual

def hashOf : ReplValue → Except VmStableHashError UInt64
  | .closure _ _ _ => .error (.unsupportedValue "Function")
  | .tuple items => (hashItems items).map (hashSequence 15 items.length)
  | .list items => (hashItems items).map (hashSequence 17 items.length)
  | .record name fields => (hashFields fields).map (hashRecord name (fields.map Prod.fst))
  | .map entries =>
    (hashEntries entries).map fun hashes =>
      hashSequence 18 entries.length (sortHashes (hashes.map hashEntry))
  | .set items => (hashItems items).map fun hashes =>
    hashSequence 19 items.length (sortHashes hashes)
  | leaf => .ok (leafHash leaf)

def hashItems : List ReplValue → Except VmStableHashError (List UInt64)
  | [] => .ok []
  | item :: items => do return (← hashOf item) :: (← hashItems items)

def hashFields : List (String × ReplValue) → Except VmStableHashError (List UInt64)
  | [] => .ok []
  | (_, value) :: fields => do return (← hashOf value) :: (← hashFields fields)

def hashEntries : List (ReplValue × ReplValue) → Except VmStableHashError (List (UInt64 × UInt64))
  | [] => .ok []
  | (key, value) :: entries => do
    return (← hashOf key, ← hashOf value) :: (← hashEntries entries)

end

def hashPair (entry : ReplValue × ReplValue) : Except VmStableHashError (UInt64 × UInt64) := do
  return (← hashOf entry.1, ← hashOf entry.2)

theorem hashItems_eq_mapM (items : List ReplValue) : hashItems items = items.mapM hashOf := by
  induction items with
  | nil => rfl
  | cons item items ih => rw [hashItems, mapM_cons, ih]

theorem hashFields_eq_mapM (fields : List (String × ReplValue)) :
    hashFields fields = (fields.map Prod.snd).mapM hashOf := by
  induction fields with
  | nil => rfl
  | cons field fields ih =>
    obtain ⟨name, value⟩ := field
    rw [hashFields, map_cons, mapM_cons, ih]

theorem hashEntries_eq_mapM : hashEntries entries = entries.mapM hashPair := by
  induction entries with
  | nil => rfl
  | cons entry entries ih =>
    obtain ⟨key, value⟩ := entry
    rw [hashEntries, mapM_cons, ih]
    simp only [hashPair, bind_assoc, pure_bind]

variable {values : List ReplValue}

theorem length_hashItems {hashes : List UInt64}
    (h : values.mapM hashOf = .ok hashes) : hashes.length = values.length :=
  (mapM_ok_iff.mp h).length_eq.symm

/-- A map's entries are hashed key, value, key, value. -/
theorem hashEntries_eq_pairs : hashEntries entries =
      ((entries.flatMap fun entry => [entry.1, entry.2]).mapM hashOf).map pairs := by
  induction entries with
  | nil => rfl
  | cons entry entries ih =>
    obtain ⟨key, value⟩ := entry
    rw [hashEntries, ih, flatMap_cons, mapM_append, mapM_cons, mapM_cons]
    cases hashOf key with
    | error e => rfl
    | ok keyHash =>
      cases hashOf value with
      | error e => rfl
      | ok valueHash =>
        cases (entries.flatMap fun entry => [entry.1, entry.2]).mapM hashOf with
        | error | ok => rfl

/-! ## The stacks compute it -/

/-- The loop after some tasks have left their hashes, or failed. -/
def resume (hashes : Except VmStableHashError (List UInt64)) (tasks : List Task)
    (results : List UInt64) : HashResult (List UInt64) :=
  match hashes with
  | .ok hashes => hashLoop tasks (results ++ hashes)
  | .error e => .error (.returned e)

/-- A value's task leaves its hash on the results, whatever lies below and behind. -/
def Computes (v : ReplValue) : Prop :=
  ∀ tasks results, hashLoop (.value v :: tasks) results =
    resume ((hashOf v).map fun hash => [hash]) tasks results

theorem hashLoop_cons (task : Task) (tasks : List Task) (results : List UInt64) :
    hashLoop (task :: tasks) results = (do
      let (pushed, results) ← step task results
      hashLoop (pushed ++ tasks) results) := by
  rw [hashLoop]
  split
  next e h => rw [h]; rfl
  next pushed after h => rw [h]; rfl

theorem takeResults_append (results hashes : List UInt64) :
    takeResults (results ++ hashes) hashes.length = .ok (hashes, results) := by
  unfold takeResults
  rw [length_append, if_pos (Nat.le_add_left _ _), Nat.add_sub_cancel, drop_left,
    take_left]

/-- The parts of a container leave their hashes in order. -/
theorem resume_items (parts : ∀ v ∈ values, Computes v)
    (tasks : List Task) (results : List UInt64) :
    hashLoop (values.map Task.value ++ tasks) results = resume (values.mapM hashOf) tasks results := by
  induction values generalizing results with
  | nil => exact congrArg (hashLoop tasks) (append_nil results).symm
  | cons v values ih =>
    rw [map_cons, cons_append, parts v (mem_cons_self ..), mapM_cons]
    cases hashOf v with
    | error e => rfl
    | ok hash =>
      change hashLoop (values.map Task.value ++ tasks) (results ++ [hash]) = _
      rw [ih fun v member => parts v (mem_cons_of_mem _ member)]
      cases values.mapM hashOf with
      | error e => rfl
      | ok hashes =>
        exact congrArg (hashLoop tasks) (append_assoc results [hash] hashes)

/-- A container: its parts, and a task that combines exactly their hashes. -/
theorem resume_container (parts : ∀ v ∈ values, Computes v)
    {last : Task} (combine : List UInt64 → UInt64)
    (finish : ∀ hashes results, hashes.length = values.length →
      step last (results ++ hashes) = .ok ([], results ++ [combine hashes]))
    (tasks : List Task) (results : List UInt64) :
    hashLoop ((values.map Task.value ++ [last]) ++ tasks) results =
      resume (((values.mapM hashOf).map combine).map fun hash => [hash]) tasks results := by
  rw [append_assoc, resume_items parts]
  cases h : values.mapM hashOf with
  | error e => rfl
  | ok hashes =>
    change hashLoop (last :: tasks) (results ++ hashes) = _
    rw [hashLoop_cons, finish hashes results (length_hashItems h)]
    rfl

theorem length_flatMap_pair :
    (entries.flatMap fun entry => [entry.1, entry.2]).length = entries.length * 2 := by
  induction entries with
  | nil => rfl
  | cons entry entries ih =>
    rw [flatMap_cons, length_append, ih, length_cons, length_cons,
      length_cons, length_nil]
    omega

theorem computes (v : ReplValue) : Computes v := by
  induction v using ReplValue.induction with
  | closure id types captures =>
    intro tasks results
    rw [hashLoop_cons]
    rfl
  | tuple items parts =>
    intro tasks results
    rw [hashLoop_cons, hashOf, hashItems_eq_mapM]
    refine resume_container parts (hashSequence 15 items.length) (fun hashes below len => ?_) ..
    rw [← len]
    exact congrArg (· >>= _) (takeResults_append below hashes)
  | list items parts =>
    intro tasks results
    rw [hashLoop_cons, hashOf, hashItems_eq_mapM]
    refine resume_container parts (hashSequence 17 items.length) (fun hashes below len => ?_) ..
    rw [← len]
    exact congrArg (· >>= _) (takeResults_append below hashes)
  | set items parts =>
    intro tasks results
    rw [hashLoop_cons, hashOf, hashItems_eq_mapM]
    refine resume_container parts (fun hashes => hashSequence 19 items.length (sortHashes hashes))
      (fun hashes below len => ?_) ..
    rw [← len]
    exact congrArg (· >>= _) (takeResults_append below hashes)
  | record name fields parts =>
    intro tasks results
    rw [hashLoop_cons, hashOf, hashFields_eq_mapM]
    refine resume_container (fun v member => ?_) (hashRecord name (fields.map Prod.fst))
      (fun hashes below len => ?_) ..
    · obtain ⟨field, listed, rfl⟩ := mem_map.mp member
      exact parts field listed
    · change takeResults _ fields.length >>= _ = _
      rw [← length_map Prod.snd, ← len, takeResults_append]
      rfl
  | map entries parts =>
    intro tasks results
    rw [hashLoop_cons, hashOf, hashEntries_eq_pairs]
    have children : ∀ v ∈ entries.flatMap fun entry => [entry.1, entry.2], Computes v := by
      intro v member
      obtain ⟨entry, listed, inside⟩ := mem_flatMap.mp member
      rcases mem_pair.mp inside with rfl | rfl
      · exact (parts entry listed).1
      · exact (parts entry listed).2
    refine (@resume_container _ children (.finishMap entries.length)
      (fun hashes => hashSequence 18 entries.length (sortHashes ((pairs hashes).map hashEntry)))
      (fun hashes below len => ?_) tasks results).trans ?_
    · change takeResults _ (entries.length * 2) >>= _ = _
      rw [← length_flatMap_pair, ← len, takeResults_append]
      rfl
    · cases (entries.flatMap fun entry => [entry.1, entry.2]).mapM hashOf with
      | error | ok => rfl
  | _ =>
    intro tasks results
    rw [hashLoop_cons]
    rfl

/-! ## The order of entries and items -/

/-- One container somewhere inside a value has its entries or items in another order. -/
inductive Reorders : ReplValue → ReplValue → Prop where
  | map {entries entries' : List (ReplValue × ReplValue)} (perm : entries.Perm entries') :
      Reorders (.map entries) (.map entries')
  | set {items items' : List ReplValue} (perm : items.Perm items') :
      Reorders (.set items) (.set items')
  | inTuple {a b : ReplValue} (before after : List ReplValue) (inner : Reorders a b) :
      Reorders (.tuple (before ++ a :: after)) (.tuple (before ++ b :: after))
  | inList {a b : ReplValue} (before after : List ReplValue) (inner : Reorders a b) :
      Reorders (.list (before ++ a :: after)) (.list (before ++ b :: after))
  | inSet {a b : ReplValue} (before after : List ReplValue) (inner : Reorders a b) :
      Reorders (.set (before ++ a :: after)) (.set (before ++ b :: after))
  | inField {a b : ReplValue} (name field : String) (before after : List (String × ReplValue))
      (inner : Reorders a b) :
      Reorders (.record name (before ++ (field, a) :: after))
        (.record name (before ++ (field, b) :: after))
  | inKey {a b : ReplValue} (value : ReplValue) (before after : List (ReplValue × ReplValue))
      (inner : Reorders a b) :
      Reorders (.map (before ++ (a, value) :: after)) (.map (before ++ (b, value) :: after))
  | inValue {a b : ReplValue} (key : ReplValue) (before after : List (ReplValue × ReplValue))
      (inner : Reorders a b) :
      Reorders (.map (before ++ (key, a) :: after)) (.map (before ++ (key, b) :: after))

theorem sortHashes_perm {hashes hashes' : List UInt64} (perm : hashes.Perm hashes') :
    sortHashes hashes = sortHashes hashes' :=
  sortByKey_eq_of_perm (fun _ _ => UInt64.toNat_inj.mp) perm

theorem container_error {combine : List UInt64 → UInt64}
    {e error : VmStableHashError} (parts : ∀ v ∈ values, hashOf v = .error e → e = error)
    (h : (values.mapM hashOf).map combine = .error e) : e = error := by
  cases hashed : values.mapM hashOf with
  | error e' =>
    rw [hashed] at h
    cases h
    obtain ⟨part, member, failed⟩ := mapM_error hashed
    exact parts part member failed
  | ok hashes =>
    rw [hashed] at h
    cases h

/-- Only a function has no hash. -/
theorem hashOf_error (v : ReplValue) {e : VmStableHashError} (h : hashOf v = .error e) :
    e = .unsupportedValue "Function" := by
  induction v using ReplValue.induction with
  | closure id types captures =>
    cases h
    rfl
  | tuple items parts | list items parts | set items parts =>
    rw [hashOf, hashItems_eq_mapM] at h
    exact container_error parts h
  | record name fields parts =>
    rw [hashOf, hashFields_eq_mapM] at h
    refine container_error (fun v member => ?_) h
    obtain ⟨field, listed, rfl⟩ := mem_map.mp member
    exact parts field listed
  | map entries parts =>
    rw [hashOf, hashEntries_eq_pairs] at h
    cases combined : (entries.flatMap fun entry => [entry.1, entry.2]).mapM hashOf with
    | error e' =>
      rw [combined] at h
      cases h
      obtain ⟨part, member, failed⟩ := mapM_error combined
      obtain ⟨entry, listed, inside⟩ := mem_flatMap.mp member
      rcases mem_pair.mp inside with rfl | rfl
      · exact (parts entry listed).1 failed
      · exact (parts entry listed).2 failed
    | ok hashes =>
      rw [combined] at h
      cases h
  | _ => cases h

theorem hashItems_replace {a b : ReplValue} (same : hashOf a = hashOf b)
    (before after : List ReplValue) :
    (before ++ a :: after).mapM hashOf = (before ++ b :: after).mapM hashOf := by
  rw [mapM_append, mapM_append, mapM_cons, mapM_cons, same]

theorem hashPair_replace {a b : ReplValue × ReplValue} (same : hashPair a = hashPair b)
    (before after : List (ReplValue × ReplValue)) :
    (before ++ a :: after).mapM hashPair = (before ++ b :: after).mapM hashPair := by
  rw [mapM_append, mapM_append, mapM_cons, mapM_cons, same]

theorem hashPair_error (entry : ReplValue × ReplValue) {e : VmStableHashError}
    (h : hashPair entry = .error e) : e = .unsupportedValue "Function" := by
  unfold hashPair at h
  cases key : hashOf entry.1 with
  | error e' =>
    rw [key] at h
    cases h
    exact hashOf_error _ key
  | ok keyHash =>
    cases value : hashOf entry.2 with
    | error e' =>
      rw [key, value] at h
      cases h
      exact hashOf_error _ value
    | ok valueHash =>
      rw [key, value] at h
      cases h

theorem hashOf_reorders {a b : ReplValue} (h : Reorders a b) : hashOf a = hashOf b := by
  induction h with
  | @map entries entries' perm =>
    rw [hashOf, hashOf, hashEntries_eq_mapM, hashEntries_eq_mapM, perm.length_eq]
    rcases mapM_perm (fun entry e => hashPair_error entry) perm with
      ⟨hashes, hashes', left, right, same⟩ | ⟨left, right⟩
    · rw [left, right]
      exact congrArg (fun sorted => Except.ok (hashSequence 18 entries'.length sorted))
        (sortHashes_perm (same.map hashEntry))
    · rw [left, right]
  | @set items items' perm =>
    rw [hashOf, hashOf, hashItems_eq_mapM, hashItems_eq_mapM, perm.length_eq]
    rcases mapM_perm (fun item e => hashOf_error item) perm with
      ⟨hashes, hashes', left, right, same⟩ | ⟨left, right⟩
    · rw [left, right]
      exact congrArg (fun sorted => Except.ok (hashSequence 19 items'.length sorted))
        (sortHashes_perm same)
    · rw [left, right]
  | inTuple before after inner same | inList before after inner same
  | inSet before after inner same =>
    rw [hashOf, hashOf, hashItems_eq_mapM, hashItems_eq_mapM, hashItems_replace same,
      length_append, length_append, length_cons, length_cons]
  | inField name field before after inner same =>
    rw [hashOf, hashOf, hashFields_eq_mapM, hashFields_eq_mapM, map_append, map_append,
      map_append, map_append, map_cons, map_cons, map_cons,
      map_cons, hashItems_replace same]
  | @inKey a b value before after inner same =>
    have pair : hashPair (a, value) = hashPair (b, value) := by
      unfold hashPair
      rw [same]
    rw [hashOf, hashOf, hashEntries_eq_mapM, hashEntries_eq_mapM, hashPair_replace pair,
      length_append, length_append, length_cons, length_cons]
  | @inValue a b key before after inner same =>
    have pair : hashPair (key, a) = hashPair (key, b) := by
      unfold hashPair
      rw [same]
    rw [hashOf, hashOf, hashEntries_eq_mapM, hashEntries_eq_mapM, hashPair_replace pair,
      length_append, length_append, length_cons, length_cons]

theorem stableHash_eq (v : ReplValue) : stableHash v = (hashOf v).mapError Fault.returned := by
  unfold stableHash
  rw [computes v]
  cases hashOf v with
  | error e => rfl
  | ok hash =>
    change (hashLoop [] [hash] >>= _) = _
    rw [hashLoop]
    rfl

/-- The stacks compute the recursive hash, fail only with its error, and no order of entries or
items at any depth changes it. -/
theorem stableHash_spec (v : ReplValue) : stableHash v = (hashOf v).mapError Fault.returned ∧
      (∀ e, stableHash v = .error e → e = .returned (.unsupportedValue "Function")) ∧
      ∀ w, Relation.ReflTransGen Reorders v w → stableHash w = stableHash v := by
  refine ⟨stableHash_eq v, fun e failed => ?_, fun w reordered => ?_⟩
  · rw [stableHash_eq] at failed
    cases h : hashOf v with
    | error e' =>
      rw [h] at failed
      cases failed
      rw [hashOf_error v h]
    | ok hash =>
      rw [h] at failed
      cases failed
  · induction reordered with
    | refl => rfl
    | tail _ step ih => rw [← ih, stableHash_eq, stableHash_eq, hashOf_reorders step]

/-- A set inside a list, with its items exchanged. -/
theorem stableHash_spec_exchanged : stableHash (.list [.set [.int 2, .bool true], .unit]) =
      stableHash (.list [.set [.bool true, .int 2], .unit]) :=
  (stableHash_spec (.list [.set [.bool true, .int 2], .unit])).2.2 _
    (.single (.inList [] [.unit] (.set (.swap (ReplValue.int 2) (ReplValue.bool true) []))))

end Terlan.ValueHash
