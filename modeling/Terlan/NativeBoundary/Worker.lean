/-
  The worker behind the native boundary. Every call takes a request id and one credit, and
  gives the credit back when the request ends: completed, cancelled or timed out.

  `events` keeps the last 1024 lifecycle events. `history` is not in the source: it keeps
  every event, so that a statement about a whole run is a statement about it.

  The runtime which does the work is a parameter: whatever it answers, and whatever it does to
  its own state, the accounts of the worker are the same.

  `Effect` says everything that a call can do: a request is accepted, ended or rejected, or it
  is accepted, served and ended. `Conserved` is kept by each of them.
-/
import Terlan.Lib.Machine
import Terlan.Lib.Method
import Terlan.Lib.Replay
import Terlan.Lib.TreeMap

namespace Terlan.NativeBoundary

open Terlan.Lib List
open Std (ExtTreeMap)

/-! ## Values -/

/-- Generation-tagged identity of a stored resource. -/
structure NativeBoundaryHandle where
  id : UInt64
  generation : UInt64

/-- What crosses the boundary, with a handle in the place of each resource. The stable terms of
the boundary have the same constructors, and so are the same type here. A float is its bits. -/
inductive NativeBoundaryBridgeValue (α : Type) where
  | unit
  | map (entries : List (NativeBoundaryBridgeValue α × NativeBoundaryBridgeValue α))
  | text (value : String)
  | bytes (value : List UInt8)
  | int (value : Int64)
  | float (bits : UInt64)
  | bool (value : Bool)
  | atom (value : String)
  | record (name : String) (fields : List (String × NativeBoundaryBridgeValue α))
  | handle (handle : NativeBoundaryHandle)
  | postgresConfig (value : α)
  | optionalText (value : Option String)
  | optionalHandle (value : Option NativeBoundaryHandle)
  | list (values : List (NativeBoundaryBridgeValue α))
  | tuple (values : List (NativeBoundaryBridgeValue α))

variable {α : Type}

/-- `NativeAdapterError`, the error of a dispatch. -/
structure DispatchError where
  code : String
  message : String
  offset : Nat

/-! ## Credits -/

def normalizeLimit (limit : UInt64) : UInt64 := if limit = 0 then 1 else limit

def reserveCredit (current requested limit : UInt64) : Option UInt64 :=
  (checkedAdd current requested).filter fun next => next ≤ normalizeLimit limit

def releaseCredit (current released : UInt64) : Option UInt64 :=
  if released ≤ current then some (current - released) else none

theorem normalizeLimit_normalizeLimit (limit : UInt64) :
    normalizeLimit (normalizeLimit limit) = normalizeLimit limit := by
  unfold normalizeLimit
  split <;> simp_all

theorem reserveCredit_one_eq_some_iff {current limit next : UInt64} :
    reserveCredit current 1 limit = some next ↔
      next.toNat = current.toNat + 1 ∧ next ≤ normalizeLimit limit := by
  rw [reserveCredit, Option.filter_eq_some_iff, checkedAdd_eq_some_iff, decide_eq_true_iff]
  rfl

theorem releaseCredit_one_eq_some_iff {current next : UInt64} :
    releaseCredit current 1 = some next ↔ next.toNat + 1 = current.toNat := by
  unfold releaseCredit
  by_cases enough : (1 : UInt64) ≤ current
  · have difference : (current - 1).toNat = current.toNat - 1 :=
      UInt64.toNat_sub_of_le _ _ enough
    have positive : 1 ≤ current.toNat := UInt64.le_iff_toNat_le.mp enough
    rw [if_pos enough, Option.some_inj, ← UInt64.toNat_inj, difference]
    omega
  · have zero : ¬ 1 ≤ current.toNat := fun h => enough (UInt64.le_iff_toNat_le.mpr h)
    rw [if_neg enough]
    exact iff_of_false (by simp) (by omega)

/-! ## Requests -/

structure RequestId where
  value : UInt64
deriving DecidableEq

inductive RequestState where
  | idle
  | pending (id : RequestId)
  | completed (id : RequestId)
  | cancelled (id : RequestId)
  | timedOut (id : RequestId)
deriving DecidableEq

namespace RequestState

def startRequest : RequestState → RequestId → Option RequestState
  | .idle, requestId => some (.pending requestId)
  | _, _ => none

/-- Only the request that is pending under the id ends. -/
def endRequest (ended : RequestId → RequestState) (state : RequestState) (requestId : RequestId) :
    Option RequestState :=
  if state = .pending requestId then some (ended requestId) else none

def completeRequest : RequestState → RequestId → Option RequestState := endRequest .completed

def cancelRequest : RequestState → RequestId → Option RequestState := endRequest .cancelled

def timeoutRequest : RequestState → RequestId → Option RequestState := endRequest .timedOut

end RequestState

/-! ## Errors and replies -/

inductive ErrorKind where
  | staleHandle
  | backpressureLimit
  | invalidRequest
  | cancelled
  | timeout
deriving DecidableEq

def errorFor : ErrorKind → String × String
  | .staleHandle =>
    ("native_boundary.stale_handle",
      "NativeBoundary handle is stale or does not match the resource slot.")
  | .backpressureLimit =>
    ("native_boundary.backpressure_limit", "NativeBoundary backpressure limit was exceeded.")
  | .invalidRequest =>
    ("native_boundary.invalid_request",
      "NativeBoundary request lifecycle did not match the reply.")
  | .cancelled =>
    ("native_boundary.cancelled",
      "NativeBoundary request was cancelled before the native reply completed.")
  | .timeout =>
    ("native_boundary.timeout",
      "NativeBoundary request timed out before the native reply completed.")

abbrev NativeBoundaryReplyTerm (α : Type) := Except DispatchError (NativeBoundaryBridgeValue α)

def workerErrorReply {α : Type} (kind : ErrorKind) : NativeBoundaryReplyTerm α :=
  .error { code := (errorFor kind).1, message := (errorFor kind).2, offset := 0 }

structure NativeBoundaryWorkerReply (α : Type) where
  requestId : RequestId
  result : NativeBoundaryReplyTerm α
  reservedCredits : UInt64
  availableCredits : UInt64

inductive NativeBoundaryWorkerClass where
  | fast
  | blocking
  | longRunningCancellable
  | sandboxed
  | resourceOwning

structure NativeBoundaryWorkerCall (α : Type) where
  requestId : RequestId
  ownerProcessId : UInt64
  grantedCapabilities : List String
  admittedWorkerClasses : List NativeBoundaryWorkerClass
  operation : String
  args : List (NativeBoundaryBridgeValue α)

inductive NativeBoundaryCommandTerm (α : Type) where
  | call (requestId : UInt64) (operation : String) (args : List (NativeBoundaryBridgeValue α))
  | dispose (requestId : UInt64) (handle : NativeBoundaryHandle)

/-! ## The worker -/

inductive NativeBoundaryWorkerOutcome where
  | accepted
  | completed
  | cancelled
  | timedOut
  | rejectedInvalidRequest
  | rejectedBackpressure
deriving DecidableEq

namespace NativeBoundaryWorkerOutcome

/-- The request has ended. -/
def terminal : NativeBoundaryWorkerOutcome → Bool
  | .completed | .cancelled | .timedOut => true
  | .accepted | .rejectedInvalidRequest | .rejectedBackpressure => false

def rejection : NativeBoundaryWorkerOutcome → Bool
  | .rejectedInvalidRequest | .rejectedBackpressure => true
  | .accepted | .completed | .cancelled | .timedOut => false

end NativeBoundaryWorkerOutcome

structure NativeBoundaryWorkerEvent where
  requestId : UInt64
  outcome : NativeBoundaryWorkerOutcome
  reservedCredits : UInt64
  availableCredits : UInt64

def eventHistoryLimit : Nat := 1024

/-- What is kept of the events before one more is recorded. -/
def retained (events : List NativeBoundaryWorkerEvent) : List NativeBoundaryWorkerEvent :=
  if events.length = eventHistoryLimit then events.tail else events

structure NativeBoundaryWorker (R : Type) where
  runtime : R
  creditLimit : UInt64
  reservedCredits : UInt64
  lastStartedRequestId : Option UInt64
  requests : ExtTreeMap UInt64 RequestState
  events : List NativeBoundaryWorkerEvent
  /-- Every event so far; see the head of this file. -/
  history : List NativeBoundaryWorkerEvent

/-- What the worker calls its runtime for. A cancellation token is read twice, before the work
and after it; the runtime may read it too, so it is told both readings. -/
structure NativeBoundaryRuntime (R α : Type) where
  call : R → String → List (NativeBoundaryBridgeValue α) → R × NativeBoundaryReplyTerm α
  callForProcessWithPolicy : R → NativeBoundaryWorkerCall α → R × NativeBoundaryReplyTerm α
  callForProcessWithPolicyAndCancellation :
    R → NativeBoundaryWorkerCall α → Bool × Bool → R × NativeBoundaryReplyTerm α
  dispose : R → NativeBoundaryHandle → R × NativeBoundaryReplyTerm α
  disposeForProcess : R → UInt64 → NativeBoundaryHandle → R × NativeBoundaryReplyTerm α

namespace NativeBoundaryWorker

variable {R α : Type}

def new (runtime : R) (creditLimit : UInt64) : NativeBoundaryWorker R where
  runtime := runtime
  creditLimit := normalizeLimit creditLimit
  reservedCredits := 0
  lastStartedRequestId := none
  requests := ∅
  events := []
  history := []

def availableCredits (worker : NativeBoundaryWorker R) : UInt64 :=
  if worker.reservedCredits ≤ worker.creditLimit then
    worker.creditLimit - worker.reservedCredits
  else 0

/-- The event that is recorded now. -/
def event (worker : NativeBoundaryWorker R) (requestId : RequestId)
    (outcome : NativeBoundaryWorkerOutcome) : NativeBoundaryWorkerEvent where
  requestId := requestId.value
  outcome := outcome
  reservedCredits := worker.reservedCredits
  availableCredits := worker.availableCredits

def recordEvent (worker : NativeBoundaryWorker R) (requestId : RequestId)
    (outcome : NativeBoundaryWorkerOutcome) : NativeBoundaryWorker R :=
  { worker with
    events := retained worker.events ++ [worker.event requestId outcome]
    history := worker.history ++ [worker.event requestId outcome] }

def beginRequest (worker : NativeBoundaryWorker R) (requestId : RequestId) :
    NativeBoundaryWorker R × Except (NativeBoundaryReplyTerm α) Unit :=
  if requestId.value ∈ worker.requests ∨
      worker.lastStartedRequestId.any (requestId.value ≤ ·) then
    (worker.recordEvent requestId .rejectedInvalidRequest,
      .error (workerErrorReply .invalidRequest))
  else
    match reserveCredit worker.reservedCredits 1 worker.creditLimit with
    | none =>
      (worker.recordEvent requestId .rejectedBackpressure,
        .error (workerErrorReply .backpressureLimit))
    | some nextReserved =>
      match RequestState.idle.startRequest requestId with
      | none =>
        (worker.recordEvent requestId .rejectedInvalidRequest,
          .error (workerErrorReply .invalidRequest))
      | some state =>
        ({ worker with
            reservedCredits := nextReserved
            lastStartedRequestId := some requestId.value
            requests := worker.requests.insert requestId.value state
            : NativeBoundaryWorker R }.recordEvent requestId .accepted,
          .ok ())

/-- What `finish_request`, `cancel_request` and `timeout_request` share: the request pending
under the id is removed and its credit released, or the call is rejected. -/
def releaseRequest (ended : RequestState → RequestId → Option RequestState)
    (outcome : NativeBoundaryWorkerOutcome) (worker : NativeBoundaryWorker R)
    (requestId : RequestId) : NativeBoundaryWorker R × Bool :=
  match (worker.requests[requestId.value]?).bind (ended · requestId) with
  | none => (worker.recordEvent requestId .rejectedInvalidRequest, false)
  | some _ =>
    match releaseCredit worker.reservedCredits 1 with
    | none => (worker.recordEvent requestId .rejectedInvalidRequest, false)
    | some nextReserved =>
      ({ worker with
          reservedCredits := nextReserved
          requests := worker.requests.erase requestId.value
          : NativeBoundaryWorker R }.recordEvent requestId outcome,
        true)

def finishRequest (worker : NativeBoundaryWorker R) (requestId : RequestId) :
    NativeBoundaryWorker R × Except (NativeBoundaryReplyTerm α) Unit :=
  let (worker, released) := releaseRequest RequestState.completeRequest .completed worker requestId
  (worker, if released then .ok () else .error (workerErrorReply .invalidRequest))

def cancelRequest (worker : NativeBoundaryWorker R) (requestId : RequestId) :
    NativeBoundaryWorker R × NativeBoundaryReplyTerm α :=
  let (worker, released) := releaseRequest RequestState.cancelRequest .cancelled worker requestId
  (worker, workerErrorReply (if released then .cancelled else .invalidRequest))

def timeoutRequest (worker : NativeBoundaryWorker R) (requestId : RequestId) :
    NativeBoundaryWorker R × NativeBoundaryReplyTerm α :=
  let (worker, released) := releaseRequest RequestState.timeoutRequest .timedOut worker requestId
  (worker, workerErrorReply (if released then .timeout else .invalidRequest))

def reply (worker : NativeBoundaryWorker R) (requestId : RequestId)
    (result : NativeBoundaryReplyTerm α) : NativeBoundaryWorkerReply α where
  requestId := requestId
  result := result
  reservedCredits := worker.reservedCredits
  availableCredits := worker.availableCredits

/-- How every call ends that has not been cancelled. -/
def finishReply (worker : NativeBoundaryWorker R) (requestId : RequestId)
    (result : NativeBoundaryReplyTerm α) : NativeBoundaryWorker R × NativeBoundaryWorkerReply α :=
  match worker.finishRequest requestId with
  | (worker, .ok ()) => (worker, worker.reply requestId result)
  | (worker, .error error) => (worker, worker.reply requestId error)

/-- What the calls without cancellation share: a request begins, the runtime works, the request
is finished. -/
def callWith (work : R → R × NativeBoundaryReplyTerm α) (worker : NativeBoundaryWorker R)
    (requestId : RequestId) : NativeBoundaryWorker R × NativeBoundaryWorkerReply α :=
  match worker.beginRequest requestId with
  | (worker, .error error) => (worker, worker.reply requestId error)
  | (worker, .ok ()) =>
    let (runtime, result) := work worker.runtime
    { worker with runtime := runtime }.finishReply requestId result

section Calls

variable (methods : NativeBoundaryRuntime R α)

def call (worker : NativeBoundaryWorker R) (requestId : RequestId) (operation : String)
    (args : List (NativeBoundaryBridgeValue α)) :
    NativeBoundaryWorker R × NativeBoundaryWorkerReply α :=
  callWith (fun runtime => methods.call runtime operation args) worker requestId

def callForProcessWithPolicy (worker : NativeBoundaryWorker R)
    (call : NativeBoundaryWorkerCall α) :
    NativeBoundaryWorker R × NativeBoundaryWorkerReply α :=
  callWith (fun runtime => methods.callForProcessWithPolicy runtime call) worker call.requestId

/-- `before` and `after` are the two readings of the cancellation token. -/
def callForProcessWithPolicyAndCancellation (worker : NativeBoundaryWorker R)
    (call : NativeBoundaryWorkerCall α) (before after : Bool) :
    NativeBoundaryWorker R × NativeBoundaryWorkerReply α :=
  match worker.beginRequest call.requestId with
  | (worker, .error error) => (worker, worker.reply call.requestId error)
  | (worker, .ok ()) =>
    if before then
      let (worker, result) := worker.cancelRequest call.requestId
      (worker, worker.reply call.requestId result)
    else
      let (runtime, result) :=
        methods.callForProcessWithPolicyAndCancellation worker.runtime call (before, after)
      let worker := { worker with runtime := runtime }
      if after then
        let (worker, result) := worker.cancelRequest call.requestId
        (worker, worker.reply call.requestId result)
      else worker.finishReply call.requestId result

def dispose (worker : NativeBoundaryWorker R) (requestId : RequestId)
    (handle : NativeBoundaryHandle) : NativeBoundaryWorker R × NativeBoundaryWorkerReply α :=
  callWith (fun runtime => methods.dispose runtime handle) worker requestId

def disposeForProcess (worker : NativeBoundaryWorker R) (requestId : RequestId)
    (ownerProcessId : UInt64) (handle : NativeBoundaryHandle) :
    NativeBoundaryWorker R × NativeBoundaryWorkerReply α :=
  callWith (fun runtime => methods.disposeForProcess runtime ownerProcessId handle) worker
    requestId

def executeCommand (worker : NativeBoundaryWorker R) :
    NativeBoundaryCommandTerm α → NativeBoundaryWorker R × NativeBoundaryWorkerReply α
  | .call requestId operation args => worker.call methods ⟨requestId⟩ operation args
  | .dispose requestId handle => worker.dispose methods ⟨requestId⟩ handle

end Calls

end NativeBoundaryWorker

/-! ## Runs of calls -/

inductive WorkerCall (α : Type) where
  | beginRequest (requestId : RequestId)
  | finishRequest (requestId : RequestId)
  | cancelRequest (requestId : RequestId)
  | timeoutRequest (requestId : RequestId)
  | call (requestId : RequestId) (operation : String) (args : List (NativeBoundaryBridgeValue α))
  | callForProcessWithPolicy (call : NativeBoundaryWorkerCall α)
  | callForProcessWithPolicyAndCancellation (call : NativeBoundaryWorkerCall α)
      (before after : Bool)
  | dispose (requestId : RequestId) (handle : NativeBoundaryHandle)
  | disposeForProcess (requestId : RequestId) (ownerProcessId : UInt64)
      (handle : NativeBoundaryHandle)
  | executeCommand (command : NativeBoundaryCommandTerm α)

inductive WorkerAnswer (α : Type) where
  | status (result : Except (NativeBoundaryReplyTerm α) Unit)
  | term (result : NativeBoundaryReplyTerm α)
  | reply (reply : NativeBoundaryWorkerReply α)

def NativeBoundaryCommandTerm.requestId {α : Type} : NativeBoundaryCommandTerm α → RequestId
  | .call requestId _ _ => ⟨requestId⟩
  | .dispose requestId _ => ⟨requestId⟩

def WorkerCall.requestId {α : Type} : WorkerCall α → RequestId
  | .beginRequest requestId => requestId
  | .finishRequest requestId => requestId
  | .cancelRequest requestId => requestId
  | .timeoutRequest requestId => requestId
  | .call requestId _ _ => requestId
  | .callForProcessWithPolicy request => request.requestId
  | .callForProcessWithPolicyAndCancellation request _ _ => request.requestId
  | .dispose requestId _ => requestId
  | .disposeForProcess requestId _ _ => requestId
  | .executeCommand command => command.requestId

section

variable {R α : Type} (methods : NativeBoundaryRuntime R α)

def workerStep (worker : NativeBoundaryWorker R) :
    WorkerCall α → NativeBoundaryWorker R × WorkerAnswer α
  | .beginRequest requestId => (worker.beginRequest requestId).map id .status
  | .finishRequest requestId => (worker.finishRequest requestId).map id .status
  | .cancelRequest requestId => (worker.cancelRequest requestId).map id .term
  | .timeoutRequest requestId => (worker.timeoutRequest requestId).map id .term
  | .call requestId operation args =>
    (worker.call methods requestId operation args).map id .reply
  | .callForProcessWithPolicy call =>
    (worker.callForProcessWithPolicy methods call).map id .reply
  | .callForProcessWithPolicyAndCancellation call before after =>
    (worker.callForProcessWithPolicyAndCancellation methods call before after).map id .reply
  | .dispose requestId handle => (worker.dispose methods requestId handle).map id .reply
  | .disposeForProcess requestId ownerProcessId handle =>
    (worker.disposeForProcess methods requestId ownerProcessId handle).map id .reply
  | .executeCommand command => (worker.executeCommand methods command).map id .reply

end

/-! ## What one change does -/

section Accounts

variable {R : Type}

/-- One event is recorded. -/
def Logs (before after : NativeBoundaryWorker R) (requestId : UInt64)
    (outcome : NativeBoundaryWorkerOutcome) : Prop :=
  ∃ event : NativeBoundaryWorkerEvent,
    event.requestId = requestId ∧ event.outcome = outcome ∧
      after.history = before.history ++ [event] ∧ after.events = retained before.events ++ [event]

/-- The pending requests, the credits and the watermark are as before. -/
structure SameBooks (before after : NativeBoundaryWorker R) : Prop where
  limit : after.creditLimit = before.creditLimit
  reserved : after.reservedCredits = before.reservedCredits
  watermark : after.lastStartedRequestId = before.lastStartedRequestId
  requests : after.requests = before.requests

/-- A new request is pending and has taken a credit. -/
structure Accepts (requestId : UInt64) (before after : NativeBoundaryWorker R) : Prop where
  fresh : requestId ∉ before.requests
  above : ∀ last, before.lastStartedRequestId = some last → last < requestId
  limit : after.creditLimit = before.creditLimit
  reserved : after.reservedCredits.toNat = before.reservedCredits.toNat + 1
  within : after.reservedCredits ≤ normalizeLimit before.creditLimit
  watermark : after.lastStartedRequestId = some requestId
  requests : after.requests = before.requests.insert requestId (.pending ⟨requestId⟩)
  logs : Logs before after requestId .accepted

/-- A pending request is no longer pending and has given its credit back. -/
structure Ends (requestId : UInt64) (before after : NativeBoundaryWorker R) : Prop where
  pending : requestId ∈ before.requests
  limit : after.creditLimit = before.creditLimit
  reserved : after.reservedCredits.toNat + 1 = before.reservedCredits.toNat
  watermark : after.lastStartedRequestId = before.lastStartedRequestId
  requests : after.requests = before.requests.erase requestId
  logs : ∃ outcome : NativeBoundaryWorkerOutcome,
    outcome.terminal = true ∧ Logs before after requestId outcome

structure Rejects (requestId : UInt64) (before after : NativeBoundaryWorker R) : Prop where
  same : SameBooks before after
  logs : ∃ outcome : NativeBoundaryWorkerOutcome,
    outcome.rejection = true ∧ Logs before after requestId outcome

/-- What the runtime did leaves the books alone. -/
structure Works (before after : NativeBoundaryWorker R) : Prop where
  same : SameBooks before after
  events : after.events = before.events
  history : after.history = before.history

/-- Everything that a call can do. -/
inductive Effect (requestId : UInt64) (before after : NativeBoundaryWorker R) : Prop
  | accepted (accepts : Accepts requestId before after)
  | ended (ends : Ends requestId before after)
  | rejected (rejects : Rejects requestId before after)
  | served (began worked : NativeBoundaryWorker R) (accepts : Accepts requestId before began)
      (works : Works began worked) (ends : Ends requestId worked after)

variable {α : Type} (worker : NativeBoundaryWorker R)

theorem sameBooks_recordEvent (requestId : RequestId) (outcome : NativeBoundaryWorkerOutcome) :
    SameBooks worker (worker.recordEvent requestId outcome) :=
  ⟨rfl, rfl, rfl, rfl⟩

theorem rejects_recordEvent (worker : NativeBoundaryWorker R) (requestId : RequestId)
    {outcome : NativeBoundaryWorkerOutcome} (rejection : outcome.rejection = true) :
    Rejects requestId.value worker (worker.recordEvent requestId outcome) where
  same := sameBooks_recordEvent worker requestId outcome
  logs := ⟨outcome, rejection, worker.event requestId outcome, rfl, rfl, rfl, rfl⟩

theorem beginRequest_effect (requestId : RequestId) :
    ((∃ error, (worker.beginRequest (α := α) requestId).2 = .error error) ∧
        Rejects requestId.value worker (worker.beginRequest (α := α) requestId).1) ∨
      ((worker.beginRequest (α := α) requestId).2 = .ok () ∧
        Accepts requestId.value worker (worker.beginRequest (α := α) requestId).1) := by
  unfold NativeBoundaryWorker.beginRequest
  by_cases known : requestId.value ∈ worker.requests ∨
      worker.lastStartedRequestId.any (requestId.value ≤ ·)
  · rw [if_pos known]
    exact .inl ⟨⟨_, rfl⟩, rejects_recordEvent worker requestId rfl⟩
  rw [if_neg known]
  obtain ⟨fresh, above⟩ := not_or.mp known
  cases room : reserveCredit worker.reservedCredits 1 worker.creditLimit with
  | none => exact .inl ⟨⟨_, rfl⟩, rejects_recordEvent worker requestId rfl⟩
  | some nextReserved =>
    obtain ⟨sum, within⟩ := reserveCredit_one_eq_some_iff.mp room
    refine .inr ⟨rfl, ?_⟩
    exact {
      fresh := fresh
      above := by
        intro last started
        rw [started] at above
        simpa using above
      limit := rfl
      reserved := sum
      within := within
      watermark := rfl
      requests := rfl
      logs := ⟨_, rfl, rfl, rfl, rfl⟩ }

theorem releaseRequest_effect (ended : RequestId → RequestState)
    {outcome : NativeBoundaryWorkerOutcome} (terminal : outcome.terminal = true)
    (worker : NativeBoundaryWorker R) (requestId : RequestId) :
    ((NativeBoundaryWorker.releaseRequest (RequestState.endRequest ended) outcome worker
          requestId).2 = false ∧ Rejects requestId.value worker
          (NativeBoundaryWorker.releaseRequest (RequestState.endRequest ended) outcome worker
            requestId).1) ∨
      ((NativeBoundaryWorker.releaseRequest (RequestState.endRequest ended) outcome worker
          requestId).2 = true ∧ Ends requestId.value worker
          (NativeBoundaryWorker.releaseRequest (RequestState.endRequest ended) outcome worker
            requestId).1) := by
  unfold NativeBoundaryWorker.releaseRequest
  cases found : (worker.requests[requestId.value]?).bind
      (RequestState.endRequest ended · requestId) with
  | none => exact .inl ⟨rfl, rejects_recordEvent worker requestId rfl⟩
  | some state =>
    obtain ⟨held, stored, -⟩ := Option.bind_eq_some_iff.mp found
    cases credit : releaseCredit worker.reservedCredits 1 with
    | none => exact .inl ⟨rfl, rejects_recordEvent worker requestId rfl⟩
    | some nextReserved =>
      refine .inr ⟨rfl, ?_⟩
      exact {
        pending := ExtTreeMap.mem_iff_isSome_getElem?.mpr (by rw [stored]; rfl)
        limit := rfl
        reserved := releaseCredit_one_eq_some_iff.mp credit
        watermark := rfl
        requests := rfl
        logs := ⟨outcome, terminal, _, rfl, rfl, rfl, rfl⟩ }

/-- A pending request with a credit behind it always ends. -/
theorem releaseRequest_released (ended : RequestId → RequestState)
    (outcome : NativeBoundaryWorkerOutcome) {worker : NativeBoundaryWorker R} {requestId : RequestId}
    (stored : worker.requests[requestId.value]? = some (.pending requestId))
    (credit : worker.reservedCredits.toNat ≠ 0) :
    (NativeBoundaryWorker.releaseRequest (RequestState.endRequest ended) outcome worker
      requestId).2 = true := by
  unfold NativeBoundaryWorker.releaseRequest
  have enough : (1 : UInt64) ≤ worker.reservedCredits :=
    UInt64.le_iff_toNat_le.mpr (Nat.one_le_iff_ne_zero.mpr credit)
  rw [stored, Option.bind_some, RequestState.endRequest, if_pos rfl, releaseCredit, if_pos enough]

section Served

variable {worker began worked : NativeBoundaryWorker R} {requestId : RequestId}

section

variable (accepts : Accepts requestId.value worker began)
include accepts

/-- What a request that has just been accepted, and served, comes to. -/
theorem served_ends (works : Works began worked)
    (ended : RequestId → RequestState) (outcome : NativeBoundaryWorkerOutcome)
    (terminal : outcome.terminal = true) :
    (NativeBoundaryWorker.releaseRequest (RequestState.endRequest ended) outcome worked
        requestId).2 = true ∧ Ends requestId.value worked
        (NativeBoundaryWorker.releaseRequest (RequestState.endRequest ended) outcome worked
          requestId).1 := by
  have stored : worked.requests[requestId.value]? = some (.pending requestId) := by
    rw [works.same.requests, accepts.requests]
    exact getElem?_insert_self_eq _ _ _
  have credit : worked.reservedCredits.toNat ≠ 0 := by
    rw [works.same.reserved, accepts.reserved]
    exact Nat.succ_ne_zero _
  have released := releaseRequest_released ended outcome stored credit
  rcases releaseRequest_effect ended terminal worked requestId with
    ⟨refused, _⟩ | ⟨_, ends⟩
  · rw [released] at refused
    exact absurd refused (by decide)
  · exact ⟨released, ends⟩

theorem finishReply_ends (works : Works began worked) (result : NativeBoundaryReplyTerm α) :
    Ends requestId.value worked (worked.finishReply requestId result).1 := by
  obtain ⟨released, ends⟩ := served_ends accepts works .completed .completed rfl
  unfold NativeBoundaryWorker.finishReply NativeBoundaryWorker.finishRequest
  simp only [RequestState.completeRequest, released, if_true]
  exact ends

theorem cancelRequest_ends (works : Works began worked) :
    Ends requestId.value worked (worked.cancelRequest (α := α) requestId).1 :=
  (served_ends accepts works .cancelled .cancelled rfl).2

end

end Served

theorem works_runtime (runtime : R) : Works worker { worker with runtime := runtime } :=
  ⟨⟨rfl, rfl, rfl, rfl⟩, rfl, rfl⟩

theorem callWith_effect (work : R → R × NativeBoundaryReplyTerm α)
    (worker : NativeBoundaryWorker R) (requestId : RequestId) :
    Effect requestId.value worker (NativeBoundaryWorker.callWith work worker requestId).1 := by
  unfold NativeBoundaryWorker.callWith
  have effect := beginRequest_effect (α := α) worker requestId
  cases begun : worker.beginRequest (α := α) requestId with
  | mk began answer =>
    rw [begun] at effect
    rcases effect with ⟨⟨error, rfl⟩, rejects⟩ | ⟨rfl, accepts⟩
    · exact .rejected rejects
    · have works := works_runtime began (work began.runtime).1
      exact .served began _ accepts works (finishReply_ends accepts works _)

theorem callWithCancellation_effect (methods : NativeBoundaryRuntime R α)
    (worker : NativeBoundaryWorker R) (call : NativeBoundaryWorkerCall α) (before after : Bool) :
    Effect call.requestId.value worker
      (worker.callForProcessWithPolicyAndCancellation methods call before after).1 := by
  unfold NativeBoundaryWorker.callForProcessWithPolicyAndCancellation
  have effect := beginRequest_effect (α := α) worker call.requestId
  cases begun : worker.beginRequest (α := α) call.requestId with
  | mk began answer =>
    rw [begun] at effect
    rcases effect with ⟨⟨error, rfl⟩, rejects⟩ | ⟨rfl, accepts⟩
    · exact .rejected rejects
    cases before with
    | true =>
      have works := works_runtime began began.runtime
      exact .served began _ accepts works (cancelRequest_ends (α := α) accepts works)
    | false =>
      have works := works_runtime began
        (methods.callForProcessWithPolicyAndCancellation began.runtime call (false, after)).1
      cases after with
      | true =>
        exact .served began _ accepts works (cancelRequest_ends (α := α) accepts works)
      | false => exact .served began _ accepts works (finishReply_ends accepts works _)

theorem workerStep_effect (methods : NativeBoundaryRuntime R α) (worker : NativeBoundaryWorker R)
    (call : WorkerCall α) :
    Effect call.requestId.value worker (workerStep methods worker call).1 := by
  have released (ended : RequestId → RequestState) (outcome : NativeBoundaryWorkerOutcome)
      (terminal : outcome.terminal = true) (requestId : RequestId) :
      Effect requestId.value worker
        (NativeBoundaryWorker.releaseRequest (RequestState.endRequest ended) outcome worker
          requestId).1 := by
    rcases releaseRequest_effect ended terminal worker requestId with
      ⟨_, rejects⟩ | ⟨_, ends⟩
    · exact .rejected rejects
    · exact .ended ends
  cases call with
  | beginRequest requestId =>
    rcases beginRequest_effect (α := α) worker requestId with ⟨_, rejects⟩ | ⟨_, accepts⟩
    · exact .rejected rejects
    · exact .accepted accepts
  | finishRequest requestId => exact released .completed .completed rfl requestId
  | cancelRequest requestId => exact released .cancelled .cancelled rfl requestId
  | timeoutRequest requestId => exact released .timedOut .timedOut rfl requestId
  | call requestId operation args =>
    exact callWith_effect (methods.call · operation args) worker requestId
  | callForProcessWithPolicy request =>
    exact callWith_effect (methods.callForProcessWithPolicy · request) worker request.requestId
  | callForProcessWithPolicyAndCancellation request before after =>
    exact callWithCancellation_effect methods worker request before after
  | dispose requestId handle =>
    exact callWith_effect (methods.dispose · handle) worker requestId
  | disposeForProcess requestId ownerProcessId handle =>
    exact callWith_effect (methods.disposeForProcess · ownerProcessId handle) worker requestId
  | executeCommand command =>
    cases command with
    | call requestId operation args =>
      exact callWith_effect (methods.call · operation args) worker ⟨requestId⟩
    | dispose requestId handle =>
      exact callWith_effect (methods.dispose · handle) worker ⟨requestId⟩

end Accounts

/-! ## The accounts of a run -/

section History

/-- The ids of the accepted requests, in the order of their acceptance. -/
def acceptedIds (history : List NativeBoundaryWorkerEvent) : List UInt64 :=
  (history.filter fun event => event.outcome = .accepted).map (·.requestId)

/-- How the request has ended, each time that it has. -/
def terminalOutcomes (requestId : UInt64) (history : List NativeBoundaryWorkerEvent) :
    List NativeBoundaryWorkerOutcome :=
  (history.filter fun event => event.requestId = requestId && event.outcome.terminal).map
    (·.outcome)

variable (history : List NativeBoundaryWorkerEvent) (event : NativeBoundaryWorkerEvent)

theorem acceptedIds_append_accepted (accepted : event.outcome = .accepted) :
    acceptedIds (history ++ [event]) = acceptedIds history ++ [event.requestId] := by
  simp [acceptedIds, accepted]

theorem acceptedIds_append_of_ne (other : event.outcome ≠ .accepted) :
    acceptedIds (history ++ [event]) = acceptedIds history := by
  simp [acceptedIds, other]

theorem terminalOutcomes_append_terminal (terminal : event.outcome.terminal = true) :
    terminalOutcomes event.requestId (history ++ [event]) =
      terminalOutcomes event.requestId history ++ [event.outcome] := by
  simp [terminalOutcomes, terminal]

theorem terminalOutcomes_append_other {requestId : UInt64}
    (other : event.requestId ≠ requestId ∨ event.outcome.terminal = false) :
    terminalOutcomes requestId (history ++ [event]) = terminalOutcomes requestId history := by
  rcases other with other | other
  · simp [terminalOutcomes, other]
  · simp [terminalOutcomes, other]

end History

section Conservation

variable {R α : Type}

/-- The books of a worker agree with the events that it has recorded. -/
structure Conserved (worker : NativeBoundaryWorker R) : Prop where
  normal : normalizeLimit worker.creditLimit = worker.creditLimit
  reserved : worker.reservedCredits.toNat = worker.requests.size
  within : worker.reservedCredits ≤ worker.creditLimit
  pending : ∀ (id : UInt64) (state : RequestState), worker.requests[id]? = some state →
    state = .pending ⟨id⟩
  known : ∀ id ∈ worker.requests, id ∈ acceptedIds worker.history
  increasing : (acceptedIds worker.history).Pairwise (· < ·)
  watermark : worker.lastStartedRequestId = (acceptedIds worker.history).getLast?
  settled : ∀ id ∈ acceptedIds worker.history,
    (terminalOutcomes id worker.history).length = if id ∈ worker.requests then 0 else 1
  unknown : ∀ id, id ∉ acceptedIds worker.history → terminalOutcomes id worker.history = []
  recent : worker.events = worker.history.drop (worker.history.length - eventHistoryLimit)

theorem conserved_new (runtime : R) (creditLimit : UInt64) :
    Conserved (NativeBoundaryWorker.new runtime creditLimit) where
  normal := normalizeLimit_normalizeLimit creditLimit
  reserved := by simp [NativeBoundaryWorker.new]
  within := UInt64.zero_le
  pending := by
    intro id state stored
    simp [NativeBoundaryWorker.new] at stored
  known := by
    intro id mem
    simp [NativeBoundaryWorker.new] at mem
  increasing := List.Pairwise.nil
  watermark := rfl
  settled := by
    intro id mem
    simp [NativeBoundaryWorker.new, acceptedIds] at mem
  unknown := fun _ _ => rfl
  recent := by simp [NativeBoundaryWorker.new]

/-- The accepted ids are all at most the watermark. -/
theorem Conserved.le_watermark {worker : NativeBoundaryWorker R} (books : Conserved worker)
    {id : UInt64} (mem : id ∈ acceptedIds worker.history) :
    ∃ last, worker.lastStartedRequestId = some last ∧ id ≤ last := by
  have increasing := books.increasing
  rw [books.watermark]
  rcases eq_nil_or_concat (acceptedIds worker.history) with none | ⟨ids, last, listed⟩
  · rw [none] at mem
    exact absurd mem not_mem_nil
  rw [listed, concat_eq_append] at mem increasing ⊢
  refine ⟨last, getLast?_concat, ?_⟩
  rcases mem_append.mp mem with earlier | newest
  · have below := (pairwise_append.mp increasing).2.2 id earlier last (by simp)
    exact UInt64.le_of_lt below
  · rw [mem_singleton.mp newest]
    exact UInt64.le_refl last

theorem drop_retained (history : List NativeBoundaryWorkerEvent)
    (event : NativeBoundaryWorkerEvent) :
    retained (history.drop (history.length - eventHistoryLimit)) ++ [event] =
      (history ++ [event]).drop ((history ++ [event]).length - eventHistoryLimit) := by
  have length : (history ++ [event]).length = history.length + 1 := by simp
  rw [retained, length_drop, length]
  unfold eventHistoryLimit
  split
  next full =>
    have start : history.length - 1024 + 1 = history.length + 1 - 1024 := by omega
    rw [tail_drop, drop_append_of_le_length (by omega), start]
  next room =>
    have start : history.length - 1024 = history.length + 1 - 1024 := by omega
    rw [drop_append_of_le_length (by omega), start]

variable {before after : NativeBoundaryWorker R} {outcome : NativeBoundaryWorkerOutcome}
variable {requestId : UInt64}

theorem Logs.recent (logs : Logs before after requestId outcome)
    (recent : before.events = before.history.drop (before.history.length - eventHistoryLimit)) :
    after.events = after.history.drop (after.history.length - eventHistoryLimit) := by
  obtain ⟨event, -, -, history, events⟩ := logs
  rw [events, history, recent]
  exact drop_retained before.history event

section Steps

variable {before after : NativeBoundaryWorker R} {requestId : UInt64}

theorem Accepts.unheard (accepts : Accepts requestId before after) (books : Conserved before) :
    requestId ∉ acceptedIds before.history := by
  intro mem
  obtain ⟨last, started, le⟩ := books.le_watermark mem
  exact absurd (accepts.above last started) (UInt64.not_lt.mpr le)

theorem Accepts.conserved (accepts : Accepts requestId before after) (books : Conserved before) :
    Conserved after := by
  have unheard := accepts.unheard books
  have recent := accepts.logs.recent books.recent
  obtain ⟨event, names, accepted, history, -⟩ := accepts.logs
  have ids : acceptedIds after.history = acceptedIds before.history ++ [requestId] := by
    rw [history, acceptedIds_append_accepted _ _ accepted, names]
  have outcomes (id : UInt64) :
      terminalOutcomes id after.history = terminalOutcomes id before.history := by
    rw [history, terminalOutcomes_append_other _ _ (.inr (by rw [accepted]; rfl))]
  exact {
    normal := by rw [accepts.limit, books.normal]
    reserved := by
      have absent : ¬ before.requests.contains requestId = true := accepts.fresh
      rw [accepts.reserved, accepts.requests, ExtTreeMap.size_insert, if_neg absent,
        books.reserved]
    within := by
      have within := accepts.within
      rwa [books.normal, ← accepts.limit] at within
    pending := by
      intro id state stored
      rw [accepts.requests, getElem?_insert_eq] at stored
      split at stored
      next own => rw [← own, Option.some_inj.mp stored]
      next => exact books.pending id state stored
    known := by
      intro id mem
      rw [ids, mem_append, mem_singleton]
      rw [accepts.requests, Lib.mem_insert_iff] at mem
      exact mem.elim (fun own => .inr own.symm) fun old => .inl (books.known id old)
    increasing := by
      rw [ids, pairwise_append]
      refine ⟨books.increasing, pairwise_singleton _ _, ?_⟩
      intro id mem new isNew
      obtain ⟨last, started, le⟩ := books.le_watermark mem
      rw [mem_singleton.mp isNew]
      exact UInt64.lt_of_le_of_lt le (accepts.above last started)
    watermark := by rw [ids, accepts.watermark, getLast?_concat]
    settled := by
      intro id mem
      rw [ids, mem_append, mem_singleton] at mem
      rw [outcomes, accepts.requests]
      rcases mem with old | new
      · have other : requestId ≠ id := fun own => unheard (own ▸ old)
        simp only [Lib.mem_insert_iff, other, false_or]
        exact books.settled id old
      · rw [new, books.unknown requestId unheard, if_pos ((Lib.mem_insert_iff _ _ _ _).mpr (.inl rfl))]
        rfl
    unknown := by
      intro id out
      rw [ids] at out
      rw [outcomes]
      exact books.unknown id fun mem => out (mem_append_left _ mem)
    recent := recent }

theorem Ends.conserved (ends : Ends requestId before after) (books : Conserved before) :
    Conserved after := by
  obtain ⟨outcome, terminal, logs⟩ := ends.logs
  have recent := logs.recent books.recent
  obtain ⟨event, rfl, rfl, history, -⟩ := logs
  have accepted := books.known event.requestId ends.pending
  have notAccepted : event.outcome ≠ .accepted := by
    intro h
    rw [h] at terminal
    exact absurd terminal (by decide)
  have ids : acceptedIds after.history = acceptedIds before.history := by
    rw [history, acceptedIds_append_of_ne _ _ notAccepted]
  exact {
    normal := by rw [ends.limit, books.normal]
    reserved := by
      have size : before.requests.size ≠ 0 := by
        rw [← books.reserved, ← ends.reserved]
        exact Nat.succ_ne_zero _
      have sum := ends.reserved
      rw [books.reserved] at sum
      have present : before.requests.contains event.requestId = true := ends.pending
      rw [ends.requests, ExtTreeMap.size_erase, if_pos present]
      omega
    within := by
      have within := UInt64.le_iff_toNat_le.mp books.within
      have sum := ends.reserved
      rw [ends.limit, UInt64.le_iff_toNat_le]
      omega
    pending := by
      intro id state stored
      rw [ends.requests, getElem?_erase_eq] at stored
      split at stored
      next => cases stored
      next => exact books.pending id state stored
    known := by
      intro id mem
      rw [ends.requests, Lib.mem_erase_iff] at mem
      rw [ids]
      exact books.known id mem.2
    increasing := by rw [ids]; exact books.increasing
    watermark := by rw [ids, ends.watermark, books.watermark]
    settled := by
      intro id mem
      rw [ids] at mem
      have settled := books.settled id mem
      by_cases own : event.requestId = id
      · subst own
        rw [if_pos ends.pending] at settled
        rw [history, terminalOutcomes_append_terminal _ _ terminal, length_append, settled,
          ends.requests, if_neg (by simp)]
        rfl
      · rw [history, terminalOutcomes_append_other _ _ (.inl own), settled, ends.requests]
        simp only [Lib.mem_erase_iff, ne_eq, own, not_false_eq_true, true_and]
    unknown := by
      intro id out
      rw [ids] at out
      have other : event.requestId ≠ id := fun own => out (own ▸ accepted)
      rw [history, terminalOutcomes_append_other _ _ (.inl other), books.unknown id out]
    recent := recent }

/-- What leaves the books, the accepted ids and the outcomes alone keeps them in agreement. -/
theorem SameBooks.conserved (same : SameBooks before after)
    (ids : acceptedIds after.history = acceptedIds before.history)
    (outcomes : ∀ id, terminalOutcomes id after.history = terminalOutcomes id before.history)
    (recent : after.events = after.history.drop (after.history.length - eventHistoryLimit))
    (books : Conserved before) : Conserved after where
  normal := by rw [same.limit, books.normal]
  reserved := by rw [same.reserved, same.requests, books.reserved]
  within := by rw [same.reserved, same.limit]; exact books.within
  pending := by rw [same.requests]; exact books.pending
  known := by rw [same.requests, ids]; exact books.known
  increasing := by rw [ids]; exact books.increasing
  watermark := by rw [same.watermark, ids, books.watermark]
  settled := by
    intro id mem
    rw [ids] at mem
    rw [outcomes, same.requests, books.settled id mem]
  unknown := by
    intro id out
    rw [ids] at out
    rw [outcomes, books.unknown id out]
  recent := recent

theorem Rejects.conserved (rejects : Rejects requestId before after) (books : Conserved before) :
    Conserved after := by
  obtain ⟨outcome, rejection, logs⟩ := rejects.logs
  have recent := logs.recent books.recent
  obtain ⟨event, rfl, rfl, history, -⟩ := logs
  have silent : event.outcome ≠ .accepted ∧ event.outcome.terminal = false := by
    revert rejection
    cases event.outcome <;> decide
  refine rejects.same.conserved ?_ ?_ recent books
  · rw [history, acceptedIds_append_of_ne _ _ silent.1]
  · intro id
    rw [history, terminalOutcomes_append_other _ _ (.inr silent.2)]

theorem Works.conserved (works : Works before after) (books : Conserved before) :
    Conserved after := by
  refine works.same.conserved ?_ ?_ ?_ books
  · rw [works.history]
  · intro id
    rw [works.history]
  · rw [works.events, works.history, books.recent]

theorem Effect.conserved (effect : Effect requestId before after) (books : Conserved before) :
    Conserved after := by
  cases effect with
  | accepted accepts => exact accepts.conserved books
  | ended ends => exact ends.conserved books
  | rejected rejects => exact rejects.conserved books
  | served began worked accepts works ends =>
    exact ends.conserved (works.conserved (accepts.conserved books))

end Steps

/-- A call was rejected: it answers so, or it has recorded so. -/
def WorkerAnswer.rejected : WorkerAnswer α → Prop
  | .status (.ok ()) => False
  | .status (.error _) => True
  | .term result => result = workerErrorReply .invalidRequest
  | .reply _ => False

def RecordsRejection (before after : NativeBoundaryWorker R) : Prop :=
  ∃ event ∈ after.history.drop before.history.length, event.outcome.rejection = true

theorem Logs.new (logs : Logs before after requestId outcome) : ∃ event : NativeBoundaryWorkerEvent,
      event.outcome = outcome ∧ after.history.drop before.history.length = [event] := by
  obtain ⟨event, -, names, history, -⟩ := logs
  exact ⟨event, names, by rw [history, drop_left]⟩

theorem NativeBoundaryWorkerOutcome.rejection_of_terminal
    (terminal : outcome.terminal = true) : outcome.rejection = false := by
  revert terminal
  cases outcome <;> decide

theorem Effect.same_of_rejection
    (effect : Effect requestId before after) (rejection : RecordsRejection before after) :
    SameBooks before after := by
  obtain ⟨event, mem, rejected⟩ := rejection
  cases effect with
  | accepted accepts =>
    obtain ⟨new, names, listed⟩ := accepts.logs.new
    rw [listed, mem_singleton] at mem
    rw [mem, names] at rejected
    exact absurd rejected (by decide)
  | ended ends =>
    obtain ⟨outcome, terminal, logs⟩ := ends.logs
    obtain ⟨new, names, listed⟩ := logs.new
    rw [listed, mem_singleton] at mem
    rw [mem, names, NativeBoundaryWorkerOutcome.rejection_of_terminal terminal] at rejected
    exact absurd rejected (by decide)
  | rejected rejects => exact rejects.same
  | served began worked accepts works ends =>
    obtain ⟨first, -, acceptance, began, -⟩ := accepts.logs
    obtain ⟨outcome, terminal, last, -, ending, ended, -⟩ := ends.logs
    rw [ended, works.history, began, append_assoc, drop_left] at mem
    rcases mem_cons.mp mem with isFirst | isLast
    · rw [isFirst, acceptance] at rejected
      exact absurd rejected (by decide)
    · rw [mem_singleton.mp isLast, ending,
        NativeBoundaryWorkerOutcome.rejection_of_terminal terminal] at rejected
      exact absurd rejected (by decide)

/-- No call touches the request of another id. -/
theorem Effect.other
    (effect : Effect requestId before after) {other : UInt64} (ne : requestId ≠ other) :
    after.requests[other]? = before.requests[other]? := by
  cases effect with
  | accepted accepts => rw [accepts.requests, getElem?_insert_of_ne _ _ ne]
  | ended ends => rw [ends.requests, getElem?_erase_eq, if_neg ne]
  | rejected rejects => rw [rejects.same.requests]
  | served began worked accepts works ends =>
    rw [ends.requests, getElem?_erase_eq, if_neg ne, works.same.requests, accepts.requests,
      getElem?_insert_of_ne _ _ ne]

theorem Rejects.records
    (rejects : Rejects requestId before after) : RecordsRejection before after := by
  obtain ⟨outcome, rejection, logs⟩ := rejects.logs
  obtain ⟨event, names, listed⟩ := logs.new
  exact ⟨event, by simp [listed], by rw [names, rejection]⟩

theorem workerErrorReply_inj {kind other : ErrorKind}
    (same : (workerErrorReply kind : NativeBoundaryReplyTerm α) = workerErrorReply other) :
    kind = other := by
  have codes : (errorFor kind).1 = (errorFor other).1 := by
    injection same with errors
    exact congrArg DispatchError.code errors
  revert codes
  cases kind <;> cases other <;> decide

theorem records_of_rejected (methods : NativeBoundaryRuntime R α) (worker : NativeBoundaryWorker R)
    (call : WorkerCall α) (rejected : (workerStep methods worker call).2.rejected) :
    RecordsRejection worker (workerStep methods worker call).1 := by
  have released (ended : RequestId → RequestState) (outcome : NativeBoundaryWorkerOutcome)
      (terminal : outcome.terminal = true) (requestId : RequestId)
      (refused : (NativeBoundaryWorker.releaseRequest (RequestState.endRequest ended) outcome worker
        requestId).2 = true → False) :
      RecordsRejection worker
        (NativeBoundaryWorker.releaseRequest (RequestState.endRequest ended) outcome worker
          requestId).1 := by
    rcases releaseRequest_effect ended terminal worker requestId with
      ⟨_, rejects⟩ | ⟨isReleased, _⟩
    · exact rejects.records
    · exact (refused isReleased).elim
  cases call with
  | beginRequest requestId =>
    rcases beginRequest_effect (α := α) worker requestId with ⟨_, rejects⟩ | ⟨ok, _⟩
    · exact rejects.records
    · simp only [workerStep, Prod.map, ok, WorkerAnswer.rejected] at rejected
  | finishRequest requestId =>
    refine released .completed .completed rfl requestId fun isReleased => ?_
    simp only [workerStep, Prod.map, NativeBoundaryWorker.finishRequest,
      RequestState.completeRequest, isReleased, if_true, WorkerAnswer.rejected] at rejected
  | cancelRequest requestId =>
    refine released .cancelled .cancelled rfl requestId fun isReleased => ?_
    simp only [workerStep, Prod.map, NativeBoundaryWorker.cancelRequest,
      RequestState.cancelRequest, isReleased, if_true, WorkerAnswer.rejected] at rejected
    exact absurd (workerErrorReply_inj rejected) (by decide)
  | timeoutRequest requestId =>
    refine released .timedOut .timedOut rfl requestId fun isReleased => ?_
    simp only [workerStep, Prod.map, NativeBoundaryWorker.timeoutRequest,
      RequestState.timeoutRequest, isReleased, if_true, WorkerAnswer.rejected] at rejected
    exact absurd (workerErrorReply_inj rejected) (by decide)
  | call | callForProcessWithPolicy | callForProcessWithPolicyAndCancellation | dispose
  | disposeForProcess | executeCommand => exact rejected.elim

variable (methods : NativeBoundaryRuntime R α)

theorem conserved_run (runtime : R) (creditLimit : UInt64) (calls : List (WorkerCall α)) :
    Conserved (replay (workerStep methods) (.new runtime creditLimit) calls).1 :=
  replay_state (workerStep methods) Conserved
    (fun worker call books => (workerStep_effect methods worker call).conserved books) _ calls
    (conserved_new runtime creditLimit)

/-- After any run of calls every pending request holds one credit, ids have been accepted in
increasing order, and a request has ended exactly once if it is no longer pending and not at
all if it is. The next call touches no request but its own, and nothing if it is rejected. -/
theorem worker_credits_conserved (runtime : R) (creditLimit : UInt64)
    (calls : List (WorkerCall α)) :
    let worker := (replay (workerStep methods) (.new runtime creditLimit) calls).1
    worker.reservedCredits.toNat = worker.requests.size ∧
      worker.reservedCredits ≤ worker.creditLimit ∧
      (∀ (id : UInt64) (state : RequestState), worker.requests[id]? = some state →
        state = .pending ⟨id⟩ ∧ id ∈ acceptedIds worker.history) ∧
      (acceptedIds worker.history).Pairwise (· < ·) ∧
      (∀ id ∈ acceptedIds worker.history,
        (terminalOutcomes id worker.history).length ≤ 1 ∧
          ((terminalOutcomes id worker.history).length = 1 ↔ id ∉ worker.requests)) ∧
      ∀ call : WorkerCall α,
        let next := workerStep methods worker call
        (∀ other : UInt64, call.requestId.value ≠ other →
          next.1.requests[other]? = worker.requests[other]?) ∧
        (next.2.rejected ∨ RecordsRejection worker next.1 → SameBooks worker next.1) := by
  intro worker
  have books : Conserved worker := conserved_run methods runtime creditLimit calls
  refine ⟨books.reserved, books.within, ?_, books.increasing, ?_, ?_⟩
  · intro id state stored
    refine ⟨books.pending id state stored, books.known id ?_⟩
    exact ExtTreeMap.mem_iff_isSome_getElem?.mpr (by rw [stored]; rfl)
  · intro id accepted
    rw [books.settled id accepted]
    by_cases pending : id ∈ worker.requests
    · simp [pending]
    · simp [pending]
  · intro call
    have effect := workerStep_effect methods worker call
    refine ⟨fun other ne => effect.other ne, fun rejected => effect.same_of_rejection ?_⟩
    exact rejected.elim (records_of_rejected methods worker call) id

end Conservation

end Terlan.NativeBoundary
