/-
  Epoch fence of an execution shard: the ledger that admits an operation for execution and
  records its completion, across replacement generations of the shard.

  The three calls `advance`, `begin` and `commit` are translated as they stand: each takes
  the fence and returns it with the result, so an error path that left a trace in the ledger
  would show. A run is a list of calls in the order in which the shard serves them, whoever
  makes them.

  `OperationLedger` is the invariant that carries the whole module. It compares the record
  kept for an operation with what its callers were told so far: the epochs in which it was
  told to execute are strictly increasing, the last of them is the prepared one, and a
  commit is the last thing that happens. `call_ledger` is the step lemma, `run_ledger` the
  run lemma; `fence_at_most_once` reads the guarantees off the invariant.

  `retire_committed`, which forgets an operation on purpose, is no call of these runs.
-/
import Terlan.Lib.Replay
import Terlan.Lib.TreeMap

namespace Terlan.ExecutionShard

open Terlan.Lib List
open Std (ExtTreeMap TransOrd TransCmp LawfulEqOrd)

/-! ## Operations and their ledger -/

/-- Shard generation; `new` refuses zero. -/
structure VmShardEpoch where
  value : Nat
  nonzero : value ≠ 0
deriving DecidableEq

/-- Stable identity of one operation across shard restarts; `new` refuses zero. -/
structure VmShardOperationId where
  value : Nat
  nonzero : value ≠ 0
deriving DecidableEq

theorem VmShardEpoch.ext_value {a b : VmShardEpoch} (h : a.value = b.value) : a = b := by
  cases a; cases b; cases h; rfl

theorem VmShardOperationId.ext_value {a b : VmShardOperationId} (h : a.value = b.value) :
    a = b := by
  cases a; cases b; cases h; rfl

instance : Ord VmShardOperationId := ⟨compareOn VmShardOperationId.value⟩

instance : TransOrd VmShardOperationId :=
  inferInstanceAs (TransCmp (compareOn VmShardOperationId.value))

instance : LawfulEqOrd VmShardOperationId :=
  lawfulEqCmp_compareOn fun _ _ => VmShardOperationId.ext_value

inductive VmShardOperationKind where
  | actorRoute
  | mailboxPublication
  | continuationResume
  | resourceNotification
  | capabilityCompletion
  | timerDelivery
  | httpResponse
  | databaseWrite
  | externalEffect
deriving DecidableEq

inductive VmShardReplayPolicy where
  | replayable
  | idempotent
  | atMostOnce
deriving DecidableEq

structure VmShardEpochOperation where
  id : VmShardOperationId
  epoch : VmShardEpoch
  kind : VmShardOperationKind
  replayPolicy : VmShardReplayPolicy
deriving DecidableEq

/-- Decision of `begin`. -/
inductive VmShardOperationAdmission where
  | executeFirst
  | executeReplay
  | executeIdempotentReplay
  | duplicateSuppressed
  | indeterminateSuppressed

/-- Decision of `commit`. -/
inductive VmShardOperationCommit where
  | committed
  | alreadyCommitted

inductive VmShardEpochError where
  | zeroOperationId
  | staleEpoch (expected actual : VmShardEpoch)
  | nonAdvancingEpoch (current proposed : VmShardEpoch)
  | operationIdentityConflict (operationId : VmShardOperationId)
  | unknownOperation (operationId : VmShardOperationId)
  | operationNotPreparedForEpoch (operationId : VmShardOperationId)
      (prepared completion : VmShardEpoch)

inductive VmShardOperationState where
  | prepared (epoch : VmShardEpoch)
  | committed
deriving DecidableEq

structure VmShardOperationRecord where
  kind : VmShardOperationKind
  replayPolicy : VmShardReplayPolicy
  state : VmShardOperationState
deriving DecidableEq

structure VmShardEpochFence where
  epoch : VmShardEpoch
  operations : ExtTreeMap VmShardOperationId VmShardOperationRecord

namespace VmShardEpochFence

def new (epoch : VmShardEpoch) : VmShardEpochFence := ⟨epoch, ∅⟩

def requireEpoch (fence : VmShardEpochFence) (actual : VmShardEpoch) :
    Except VmShardEpochError Unit :=
  if actual ≠ fence.epoch then .error (.staleEpoch fence.epoch actual) else .ok ()

def advance (fence : VmShardEpochFence) (proposed : VmShardEpoch) :
    VmShardEpochFence × Except VmShardEpochError Unit :=
  if proposed.value ≤ fence.epoch.value then
    (fence, .error (.nonAdvancingEpoch fence.epoch proposed))
  else ({ fence with epoch := proposed }, .ok ())

/-- `existing.state = ...` on the entry that `get_mut` found under `id`. -/
def setState (fence : VmShardEpochFence) (id : VmShardOperationId)
    (existing : VmShardOperationRecord) (state : VmShardOperationState) : VmShardEpochFence :=
  { fence with operations := fence.operations.insert id { existing with state := state } }

def begin (fence : VmShardEpochFence) (operation : VmShardEpochOperation) :
    VmShardEpochFence × Except VmShardEpochError VmShardOperationAdmission :=
  match fence.requireEpoch operation.epoch with
  | .error e => (fence, .error e)
  | .ok () =>
    match fence.operations[operation.id]? with
    | none =>
      ({ fence with
          operations := fence.operations.insert operation.id
            { kind := operation.kind
              replayPolicy := operation.replayPolicy
              state := .prepared operation.epoch } },
        .ok .executeFirst)
    | some existing =>
      if existing.kind ≠ operation.kind ∨ existing.replayPolicy ≠ operation.replayPolicy then
        (fence, .error (.operationIdentityConflict operation.id))
      else
        match existing.state with
        | .committed => (fence, .ok .duplicateSuppressed)
        | .prepared epoch =>
          if epoch = operation.epoch then (fence, .ok .duplicateSuppressed)
          else
            match operation.replayPolicy with
            | .replayable =>
              (fence.setState operation.id existing (.prepared operation.epoch),
                .ok .executeReplay)
            | .idempotent =>
              (fence.setState operation.id existing (.prepared operation.epoch),
                .ok .executeIdempotentReplay)
            | .atMostOnce => (fence, .ok .indeterminateSuppressed)

def commit (fence : VmShardEpochFence) (operation : VmShardEpochOperation) :
    VmShardEpochFence × Except VmShardEpochError VmShardOperationCommit :=
  match fence.requireEpoch operation.epoch with
  | .error e => (fence, .error e)
  | .ok () =>
    match fence.operations[operation.id]? with
    | none => (fence, .error (.unknownOperation operation.id))
    | some record =>
      if record.kind ≠ operation.kind ∨ record.replayPolicy ≠ operation.replayPolicy then
        (fence, .error (.operationIdentityConflict operation.id))
      else
        match record.state with
        | .committed => (fence, .ok .alreadyCommitted)
        | .prepared epoch =>
          if epoch = operation.epoch then
            (fence.setState operation.id record .committed, .ok .committed)
          else
            (fence,
              .error (.operationNotPreparedForEpoch operation.id epoch operation.epoch))

end VmShardEpochFence

/-! ## Runs -/

inductive FenceCall where
  | advance (proposed : VmShardEpoch)
  | begin (operation : VmShardEpochOperation)
  | commit (operation : VmShardEpochOperation)

inductive FenceReply where
  | advanced (result : Except VmShardEpochError Unit)
  | admission (result : Except VmShardEpochError VmShardOperationAdmission)
  | completion (result : Except VmShardEpochError VmShardOperationCommit)

def VmShardEpochFence.call (fence : VmShardEpochFence) : FenceCall → VmShardEpochFence × FenceReply
  | .advance proposed => ((fence.advance proposed).1, .advanced (fence.advance proposed).2)
  | .begin operation => ((fence.begin operation).1, .admission (fence.begin operation).2)
  | .commit operation => ((fence.commit operation).1, .completion (fence.commit operation).2)

/-- What one fence, started in `epoch`, told its callers. -/
abbrev fenceRun (epoch : VmShardEpoch) (calls : List FenceCall) :
    VmShardEpochFence × List (FenceCall × FenceReply) :=
  replay VmShardEpochFence.call (VmShardEpochFence.new epoch) calls

/-- The admissions that let the caller execute. -/
def VmShardOperationAdmission.executes : VmShardOperationAdmission → Bool
  | .executeFirst | .executeReplay | .executeIdempotentReplay => true
  | .duplicateSuppressed | .indeterminateSuppressed => false

/-- The operation this exchange told its caller to execute. -/
def executed : FenceCall × FenceReply → Option VmShardEpochOperation
  | (.begin operation, .admission (.ok admission)) =>
    if admission.executes then some operation else none
  | _ => none

/-- The operation whose commit this exchange granted. -/
def granted : FenceCall × FenceReply → Option VmShardEpochOperation
  | (.commit operation, .completion (.ok .committed)) => some operation
  | _ => none

/-- Every execution of operation `id` in the history, oldest first. -/
def executions (id : VmShardOperationId) (history : List (FenceCall × FenceReply)) :
    List VmShardEpochOperation :=
  (history.filterMap executed).filter fun operation => operation.id = id

/-- Every granted commit of operation `id` in the history, oldest first. -/
def grants (id : VmShardOperationId) (history : List (FenceCall × FenceReply)) :
    List VmShardEpochOperation :=
  (history.filterMap granted).filter fun operation => operation.id = id

/-- The call names a generation that the fence has left behind or never reached; for
`advance`, one that does not advance it. -/
def FenceCall.Stale (fence : VmShardEpochFence) : FenceCall → Prop
  | .advance proposed => proposed.value ≤ fence.epoch.value
  | .begin operation => operation.epoch ≠ fence.epoch
  | .commit operation => operation.epoch ≠ fence.epoch

/-! ## What one call can do -/

/-- Every effect of one call: the fence afterwards, the operation it let execute and the
operation whose commit it granted. -/
inductive Progress (fence : VmShardEpochFence) :
    VmShardEpochFence → Option VmShardEpochOperation → Option VmShardEpochOperation → Prop
  | quiet : Progress fence fence none none
  | advanced (proposed : VmShardEpoch) (above : fence.epoch.value < proposed.value) :
      Progress fence { fence with epoch := proposed } none none
  | first (operation : VmShardEpochOperation) (current : operation.epoch = fence.epoch)
      (fresh : fence.operations[operation.id]? = none) :
      Progress fence
        (fence.setState operation.id ⟨operation.kind, operation.replayPolicy, .committed⟩
          (.prepared operation.epoch))
        (some operation) none
  | replayed (operation : VmShardEpochOperation) (last : VmShardEpoch)
      (current : operation.epoch = fence.epoch)
      (existing : fence.operations[operation.id]? =
        some ⟨operation.kind, operation.replayPolicy, .prepared last⟩)
      (crossed : last ≠ operation.epoch) (policy : operation.replayPolicy ≠ .atMostOnce) :
      Progress fence
        (fence.setState operation.id ⟨operation.kind, operation.replayPolicy, .prepared last⟩
          (.prepared operation.epoch))
        (some operation) none
  | committed (operation : VmShardEpochOperation) (current : operation.epoch = fence.epoch)
      (existing : fence.operations[operation.id]? =
        some ⟨operation.kind, operation.replayPolicy, .prepared operation.epoch⟩) :
      Progress fence
        (fence.setState operation.id
          ⟨operation.kind, operation.replayPolicy, .prepared operation.epoch⟩ .committed)
        none (some operation)

variable {fence : VmShardEpochFence}

theorem requireEpoch_ok_iff {actual : VmShardEpoch} :
    fence.requireEpoch actual = .ok () ↔ actual = fence.epoch := by
  unfold VmShardEpochFence.requireEpoch
  split <;> simp_all

theorem requireEpoch_stale {actual : VmShardEpoch} (h : actual ≠ fence.epoch) :
    fence.requireEpoch actual = .error (.staleEpoch fence.epoch actual) := by
  unfold VmShardEpochFence.requireEpoch
  rw [if_pos h]

theorem begin_stale {operation : VmShardEpochOperation} (h : operation.epoch ≠ fence.epoch) :
    fence.begin operation = (fence, .error (.staleEpoch fence.epoch operation.epoch)) := by
  simp only [VmShardEpochFence.begin, requireEpoch_stale h]

theorem commit_stale {operation : VmShardEpochOperation} (h : operation.epoch ≠ fence.epoch) :
    fence.commit operation = (fence, .error (.staleEpoch fence.epoch operation.epoch)) := by
  simp only [VmShardEpochFence.commit, requireEpoch_stale h]

variable (fence : VmShardEpochFence)

theorem advance_progress (proposed : VmShardEpoch) :
    Progress fence (fence.advance proposed).1 none none := by
  unfold VmShardEpochFence.advance
  split
  next => exact .quiet
  next above => exact .advanced proposed (by omega)

theorem begin_progress (operation : VmShardEpochOperation) :
    Progress fence (fence.begin operation).1
      (executed (.begin operation, .admission (fence.begin operation).2)) none := by
  by_cases stale : operation.epoch ≠ fence.epoch
  · rw [begin_stale stale]
    exact .quiet
  have current : operation.epoch = fence.epoch := not_not.mp stale
  simp only [VmShardEpochFence.begin, requireEpoch_ok_iff.mpr current]
  cases existing : fence.operations[operation.id]? with
  | none => exact .first operation current existing
  | some record =>
    obtain ⟨kind, policy, state⟩ := record
    dsimp only
    split
    next => exact .quiet
    next same =>
      obtain ⟨rfl, rfl⟩ : kind = operation.kind ∧ policy = operation.replayPolicy := by
        simpa using same
      cases state with
      | committed => exact .quiet
      | prepared last =>
        dsimp only
        by_cases again : last = operation.epoch
        · rw [if_pos again]
          exact .quiet
        rw [if_neg again]
        -- the recovery policy decides alone once the attempt crossed a generation
        cases policy : operation.replayPolicy with
        | atMostOnce => exact .quiet
        | replayable | idempotent =>
          have h := Progress.replayed operation last current existing again (by simp [policy])
          rw [policy] at h
          exact h

theorem commit_progress (operation : VmShardEpochOperation) :
    Progress fence (fence.commit operation).1 none
      (granted (.commit operation, .completion (fence.commit operation).2)) := by
  by_cases stale : operation.epoch ≠ fence.epoch
  · rw [commit_stale stale]
    exact .quiet
  have current : operation.epoch = fence.epoch := not_not.mp stale
  simp only [VmShardEpochFence.commit, requireEpoch_ok_iff.mpr current]
  cases existing : fence.operations[operation.id]? with
  | none => exact .quiet
  | some record =>
    obtain ⟨kind, policy, state⟩ := record
    dsimp only
    split
    next => exact .quiet
    next same =>
      obtain ⟨rfl, rfl⟩ : kind = operation.kind ∧ policy = operation.replayPolicy := by
        simpa using same
      cases state with
      | committed => exact .quiet
      | prepared last =>
        dsimp only
        by_cases own : last = operation.epoch
        · subst own
          rw [if_pos rfl]
          exact .committed operation current existing
        · rw [if_neg own]
          exact .quiet

theorem call_progress (call : FenceCall) :
    Progress fence (fence.call call).1 (executed (call, (fence.call call).2))
      (granted (call, (fence.call call).2)) := by
  cases call with
  | advance proposed => exact advance_progress fence proposed
  | begin operation => exact begin_progress fence operation
  | commit operation => exact commit_progress fence operation

/-! ## The ledger agrees with what the callers were told -/

/-- What the callers were told about operation `id`, read off its ledger entry: `epochs` are
the generations in which it was told to execute. -/
def EntryAgrees (current : VmShardEpoch) (id : VmShardOperationId)
    (history : List (FenceCall × FenceReply)) : Option VmShardOperationRecord → Prop
  | none => executions id history = [] ∧ grants id history = []
  | some record =>
    ∃ epochs : List VmShardEpoch,
      executions id history =
          epochs.map (fun epoch => ⟨id, epoch, record.kind, record.replayPolicy⟩) ∧
        epochs.Pairwise (fun earlier later => earlier.value < later.value) ∧
        (∀ epoch ∈ epochs, epoch.value ≤ current.value) ∧
        (record.replayPolicy = .atMostOnce → epochs.length ≤ 1) ∧
        match record.state with
        | .prepared last => epochs.getLast? = some last ∧ grants id history = []
        | .committed => (grants id history).length = 1

structure OperationLedger (fence : VmShardEpochFence)
    (history : List (FenceCall × FenceReply)) : Prop where
  entry : ∀ id, EntryAgrees fence.epoch id history fence.operations[id]?
  settled : ∀ before exchange after operation, history = before ++ exchange :: after →
    granted exchange = some operation → executions operation.id after = []

variable (id : VmShardOperationId)

theorem executions_append (history more : List (FenceCall × FenceReply)) :
    executions id (history ++ more) = executions id history ++ executions id more := by
  simp [executions, filterMap_append]

theorem grants_append (history more : List (FenceCall × FenceReply)) :
    grants id (history ++ more) = grants id history ++ grants id more := by
  simp [grants, filterMap_append]

theorem executions_single (exchange : FenceCall × FenceReply) :
    executions id [exchange] = ((executed exchange).toList.filter fun op => op.id = id) := by
  unfold executions
  cases h : executed exchange <;> simp [h]

theorem grants_single (exchange : FenceCall × FenceReply) :
    grants id [exchange] = ((granted exchange).toList.filter fun op => op.id = id) := by
  unfold grants
  cases h : granted exchange <;> simp [h]

section Step

variable {current current' : VmShardEpoch} {history history' : List (FenceCall × FenceReply)}

/-- An entry whose operation was told nothing new still agrees, in a later generation too. -/
theorem entryAgrees_untouched {id : VmShardOperationId} {entry : Option VmShardOperationRecord}
    (h : EntryAgrees current id history entry) (later : current.value ≤ current'.value)
    (noRun : executions id history' = executions id history)
    (noGrant : grants id history' = grants id history) :
    EntryAgrees current' id history' entry := by
  cases entry with
  | none => exact ⟨noRun.trans h.1, noGrant.trans h.2⟩
  | some record =>
    obtain ⟨epochs, runs, increasing, below, once, state⟩ := h
    refine ⟨epochs, noRun.trans runs, increasing, ?_, once, ?_⟩
    · intro epoch mem
      exact Nat.le_trans (below epoch mem) later
    · rw [noGrant]
      exact state

variable {operation : VmShardEpochOperation}

theorem entryAgrees_first (h : EntryAgrees operation.epoch operation.id history none)
    (run : executions operation.id history' = executions operation.id history ++ [operation])
    (noGrant : grants operation.id history' = grants operation.id history) :
    EntryAgrees operation.epoch operation.id history'
      (some ⟨operation.kind, operation.replayPolicy, .prepared operation.epoch⟩) := by
  refine ⟨[operation.epoch], ?_, pairwise_singleton _ _, ?_, fun _ => Nat.le_refl 1, rfl, ?_⟩
  · rw [run, h.1]
    rfl
  · simp
  · rw [noGrant, h.2]

theorem entryAgrees_replayed {last : VmShardEpoch}
    (h : EntryAgrees operation.epoch operation.id history
      (some ⟨operation.kind, operation.replayPolicy, .prepared last⟩))
    (crossed : last ≠ operation.epoch) (policy : operation.replayPolicy ≠ .atMostOnce)
    (run : executions operation.id history' = executions operation.id history ++ [operation])
    (noGrant : grants operation.id history' = grants operation.id history) :
    EntryAgrees operation.epoch operation.id history'
      (some ⟨operation.kind, operation.replayPolicy, .prepared operation.epoch⟩) := by
  obtain ⟨epochs, runs, increasing, below, -, latest, grant⟩ := h
  refine ⟨epochs ++ [operation.epoch], ?_, ?_, ?_, fun h => absurd h policy, ?_, ?_⟩
  · rw [run, runs, map_append]
    rfl
  · -- every earlier generation lies at or below the last one, which is not the current one
    have lastBelow : last.value < operation.epoch.value := by
      have := below last (mem_of_getLast? latest)
      have : last.value ≠ operation.epoch.value := fun h => crossed (VmShardEpoch.ext_value h)
      omega
    refine pairwise_append.mpr ⟨increasing, pairwise_singleton _ _, ?_⟩
    intro epoch mem other one
    rw [mem_singleton.mp one]
    obtain ⟨front, rfl⟩ := getLast?_eq_some_iff.mp latest
    rcases mem_append.mp mem with old | new
    · exact Nat.lt_trans ((pairwise_append.mp increasing).2.2 epoch old last (by simp))
        lastBelow
    · rw [mem_singleton.mp new]
      exact lastBelow
  · intro epoch mem
    rcases mem_append.mp mem with old | new
    · exact below epoch old
    · exact Nat.le_of_eq (congrArg _ (mem_singleton.mp new))
  · simp
  · rw [noGrant, grant]

theorem entryAgrees_committed (h : EntryAgrees operation.epoch operation.id history
      (some ⟨operation.kind, operation.replayPolicy, .prepared operation.epoch⟩))
    (noRun : executions operation.id history' = executions operation.id history)
    (grant : grants operation.id history' = grants operation.id history ++ [operation]) :
    EntryAgrees operation.epoch operation.id history'
      (some ⟨operation.kind, operation.replayPolicy, .committed⟩) := by
  obtain ⟨epochs, runs, increasing, below, once, -, none⟩ := h
  refine ⟨epochs, noRun.trans runs, increasing, below, once, ?_⟩
  simp [grant, none]

/-- Once a commit was granted, the entry is committed. -/
theorem committed_of_granted {fence : VmShardEpochFence} (ledger : OperationLedger fence history)
    {id : VmShardOperationId} (h : grants id history ≠ []) :
    ∃ record, fence.operations[id]? = some record ∧ record.state = .committed := by
  have entry := ledger.entry id
  cases found : fence.operations[id]? with
  | none =>
    rw [found] at entry
    exact absurd entry.2 h
  | some record =>
    rw [found] at entry
    obtain ⟨kind, policy, state⟩ := record
    cases state with
    | committed => exact ⟨_, rfl, rfl⟩
    | prepared last =>
      obtain ⟨epochs, -, -, -, -, -, none⟩ := entry
      exact absurd none h

variable {fence fence' : VmShardEpochFence} {ran done : Option VmShardEpochOperation}
  {exchange : FenceCall × FenceReply}

theorem progress_entry (progress : Progress fence fence' ran done)
    (hran : executed exchange = ran) (hdone : granted exchange = done)
    (ledger : OperationLedger fence history) (id : VmShardOperationId) :
    EntryAgrees fence'.epoch id (history ++ [exchange]) fence'.operations[id]? := by
  have entry := ledger.entry id
  have run : executions id (history ++ [exchange]) =
      executions id history ++ ran.toList.filter fun op => op.id = id := by
    rw [executions_append, executions_single, hran]
  have grant : grants id (history ++ [exchange]) =
      grants id history ++ done.toList.filter fun op => op.id = id := by
    rw [grants_append, grants_single, hdone]
  cases progress with
  | quiet => exact entryAgrees_untouched entry (Nat.le_refl _) (by simpa using run) (by simpa using grant)
  | advanced proposed above =>
    exact entryAgrees_untouched entry (Nat.le_of_lt above) (by simpa using run) (by simpa using grant)
  | first operation now fresh =>
    simp only [VmShardEpochFence.setState, getElem?_insert_eq]
    split
    next same =>
      subst same
      rw [fresh, ← now] at entry
      rw [← now]
      exact entryAgrees_first entry (by simpa using run) (by simpa using grant)
    next other =>
      exact entryAgrees_untouched entry (Nat.le_refl _) (by simpa [other] using run)
        (by simpa using grant)
  | replayed operation last now existing crossed policy =>
    simp only [VmShardEpochFence.setState, getElem?_insert_eq]
    split
    next same =>
      subst same
      rw [existing, ← now] at entry
      rw [← now]
      exact entryAgrees_replayed entry crossed policy (by simpa using run) (by simpa using grant)
    next other =>
      exact entryAgrees_untouched entry (Nat.le_refl _) (by simpa [other] using run)
        (by simpa using grant)
  | committed operation now existing =>
    simp only [VmShardEpochFence.setState, getElem?_insert_eq]
    split
    next same =>
      subst same
      rw [existing, ← now] at entry
      rw [← now]
      exact entryAgrees_committed entry (by simpa using run) (by simpa using grant)
    next other =>
      exact entryAgrees_untouched entry (Nat.le_refl _) (by simpa using run)
        (by simpa [other] using grant)

/-- A call never tells anyone to execute an operation whose entry is committed. -/
theorem progress_executes_uncommitted (progress : Progress fence fence' ran done)
    (h : ran = some operation)
    {record : VmShardOperationRecord} (found : fence.operations[operation.id]? = some record) :
    record.state ≠ .committed := by
  cases progress with
  | quiet | advanced | committed => cases h
  | first other now fresh =>
    cases h
    rw [fresh] at found
    cases found
  | replayed other last now existing crossed policy =>
    cases h
    rw [existing] at found
    cases found
    simp

theorem progress_settled (progress : Progress fence fence' (executed exchange) (granted exchange))
    (ledger : OperationLedger fence history) :
    ∀ before commit after operation, history ++ [exchange] = before ++ commit :: after →
      granted commit = some operation → executions operation.id after = [] := by
  intro before commit after operation split grant
  rcases append_eq_append_iff.mp split with ⟨tail, rfl, tailEq⟩ | ⟨tail, historyEq, tailEq⟩
  · -- the granted commit is this very exchange: nothing follows it
    cases tail with
    | nil => cases tailEq; rfl
    | cons head rest => simp at tailEq
  · cases tail with
    | nil => cases tailEq; rfl
    | cons head rest =>
      obtain ⟨rfl, rfl⟩ : commit = head ∧ after = rest ++ [exchange] := by
        simpa using tailEq
      have quiet := ledger.settled before commit rest operation historyEq grant
      rw [executions_append, quiet, executions_single, nil_append]
      cases ran : executed exchange with
      | none => rfl
      | some next =>
        have granted : grants operation.id history ≠ [] := by
          rw [historyEq, show before ++ commit :: rest = before ++ ([commit] ++ rest) from rfl,
            grants_append, grants_append, grants_single, grant]
          simp
        obtain ⟨record, found, state⟩ := committed_of_granted ledger granted
        have other : next.id ≠ operation.id := by
          intro same
          rw [← same] at found
          exact progress_executes_uncommitted progress ran found state
        simp [other]

/-- Step lemma: every call keeps the ledger in agreement with the history. -/
theorem call_ledger (ledger : OperationLedger fence history) (call : FenceCall) :
    OperationLedger (fence.call call).1 (history ++ [(call, (fence.call call).2)]) where
  entry := progress_entry (call_progress fence call) rfl rfl ledger
  settled := progress_settled (call_progress fence call) ledger

end Step

theorem new_ledger (epoch : VmShardEpoch) : OperationLedger (.new epoch) [] where
  entry id := by
    simp only [VmShardEpochFence.new, ExtTreeMap.getElem?_empty]
    exact ⟨rfl, rfl⟩
  settled before commit after operation h := by simp at h

/-- Run lemma: the ledger agrees with the history of every run. -/
theorem run_ledger (epoch : VmShardEpoch) (calls : List FenceCall) :
    OperationLedger (fenceRun epoch calls).1 (fenceRun epoch calls).2 :=
  replay_invariant VmShardEpochFence.call OperationLedger
    (fun _ _ call ledger => call_ledger ledger call) _ [] calls (new_ledger epoch)

/-! ## Guarantees of a run -/

section Guarantees

variable {fence : VmShardEpochFence} {history : List (FenceCall × FenceReply)}

/-- The executions of one operation carry one policy and strictly increasing generations. -/
theorem ledger_executions (ledger : OperationLedger fence history) (id : VmShardOperationId) :
    (executions id history).Pairwise (fun first next => first.epoch.value < next.epoch.value) ∧
      ∀ operation ∈ executions id history,
        operation.replayPolicy = .atMostOnce → (executions id history).length ≤ 1 := by
  have entry := ledger.entry id
  cases found : fence.operations[id]? with
  | none =>
    rw [found] at entry
    rw [entry.1]
    simp
  | some record =>
    rw [found] at entry
    obtain ⟨epochs, runs, increasing, -, once, -⟩ := entry
    rw [runs]
    refine ⟨pairwise_map.mpr increasing, ?_⟩
    intro operation mem policy
    obtain ⟨epoch, -, rfl⟩ := mem_map.mp mem
    simpa using once policy

/-- Executions in strictly increasing generations, all in one generation, are at most one. -/
private theorem executions_in_one_epoch {runs : List VmShardEpochOperation} {epoch : VmShardEpoch}
    (increasing : runs.Pairwise fun first next => first.epoch.value < next.epoch.value)
    (same : ∀ operation ∈ runs, operation.epoch = epoch) : runs.length ≤ 1 := by
  match runs with
  | [] => exact Nat.zero_le 1
  | [_] => exact Nat.le_refl 1
  | first :: next :: rest =>
    have h := (pairwise_cons.mp increasing).1 next mem_cons_self
    rw [same first mem_cons_self,
      same next (mem_cons_of_mem _ mem_cons_self)] at h
    omega

theorem ledger_once_per_epoch (ledger : OperationLedger fence history) (id : VmShardOperationId)
    (epoch : VmShardEpoch) :
    ((executions id history).filter fun operation => operation.epoch = epoch).length ≤ 1 := by
  apply executions_in_one_epoch
  · exact (ledger_executions ledger id).1.filter _
  · intro operation mem
    simpa using of_mem_filter mem

theorem ledger_grants (ledger : OperationLedger fence history) (id : VmShardOperationId) :
    (grants id history).length ≤ 1 := by
  have entry := ledger.entry id
  cases found : fence.operations[id]? with
  | none =>
    rw [found] at entry
    simp [entry.2]
  | some record =>
    rw [found] at entry
    obtain ⟨kind, policy, state⟩ := record
    cases state with
    | prepared last =>
      obtain ⟨epochs, -, -, -, -, -, none⟩ := entry
      simp [none]
    | committed =>
      obtain ⟨epochs, -, -, -, -, one⟩ := entry
      exact Nat.le_of_eq one

theorem call_stale (fence : VmShardEpochFence) (call : FenceCall) (h : call.Stale fence) :
    (fence.call call).1 = fence := by
  cases call with
  | advance proposed =>
    have h : proposed.value ≤ fence.epoch.value := h
    simp only [VmShardEpochFence.call, VmShardEpochFence.advance, if_pos h]
  | begin operation =>
    have h : operation.epoch ≠ fence.epoch := h
    simp only [VmShardEpochFence.call, begin_stale h]
  | commit operation =>
    have h : operation.epoch ≠ fence.epoch := h
    simp only [VmShardEpochFence.call, commit_stale h]

theorem progress_epoch {fence fence' : VmShardEpochFence}
    {ran done : Option VmShardEpochOperation} (progress : Progress fence fence' ran done) :
    fence'.epoch = fence.epoch ∨ fence.epoch.value < fence'.epoch.value := by
  cases progress with
  | advanced proposed above => exact .inr above
  | _ => exact .inl rfl

end Guarantees

/-- **At-most-once execution across generations.** In every run of a fence, an at-most-once
operation is told to execute at most once; any operation at most once in one generation and
never after its commit was granted; a commit is granted at most once; a call that carries a
stale generation leaves the fence as it is; and the generation only increases. -/
theorem fence_at_most_once (start : VmShardEpoch) (calls : List FenceCall) :
    (∀ id, ∀ operation ∈ executions id (fenceRun start calls).2,
      operation.replayPolicy = .atMostOnce →
        (executions id (fenceRun start calls).2).length ≤ 1) ∧
    (∀ id epoch, ((executions id (fenceRun start calls).2).filter
      fun operation => operation.epoch = epoch).length ≤ 1) ∧
    (∀ before commit after operation,
      (fenceRun start calls).2 = before ++ commit :: after →
        granted commit = some operation → executions operation.id after = []) ∧
    (∀ id, (grants id (fenceRun start calls).2).length ≤ 1) ∧
    (∀ before call after, calls = before ++ call :: after →
      let fence := (fenceRun start before).1
      (call.Stale fence → (fence.call call).1 = fence) ∧
        ((fence.call call).1.epoch = fence.epoch ∨
          fence.epoch.value < (fence.call call).1.epoch.value)) := by
  have ledger := run_ledger start calls
  refine ⟨fun id => (ledger_executions ledger id).2, ledger_once_per_epoch ledger,
    ledger.settled, ledger_grants ledger, ?_⟩
  intro before call after _ fence
  exact ⟨call_stale fence call, progress_epoch (call_progress fence call)⟩

end Terlan.ExecutionShard
