/-
  Timers of the virtual machine: one-shot timers, intervals and receive timeouts in one table
  by id, and the clock that fires them.

  * `fireTimer_spec`: what the clock does with one due timer.
  * `advanceClock_spec`: what one advance does to the table, and which events it emits.
  * `call_balance`: started timers are the active ones and the ended ones, through one call.
  * `timer_run`: the rules of every run that starts fewer than `2 ^ 64` timers; the allocator
    of ids saturates there (`timer_run_fails`).
-/
import Mathlib.Data.List.Nodup
import Terlan.Scheduler

namespace Terlan.Timer

open Terlan.Lib Terlan.ActorDirectory Terlan.Process Terlan.Scheduler List
open Std (ExtTreeMap TransOrd TransCmp LawfulEqOrd)
open VmProcessTable (updateProcess)

/-! ## Data -/

structure VmTimerId where
  value : UInt64
deriving DecidableEq

theorem VmTimerId.ext_value {a b : VmTimerId} (h : a.value = b.value) : a = b := by
  cases a; cases b; cases h; rfl

instance : Ord VmTimerId := ⟨compareOn VmTimerId.value⟩

instance : TransOrd VmTimerId := inferInstanceAs (TransCmp (compareOn VmTimerId.value))

instance : LawfulEqOrd VmTimerId := lawfulEqCmp_compareOn fun _ _ => VmTimerId.ext_value

inductive VmTimerKind where
  | oneShot
  | interval
  | receiveTimeout
deriving DecidableEq

inductive VmTimerEvent where
  | fired (timerId : VmTimerId) (owner : VmProcessId) (kind : VmTimerKind)
  | deadlineMissed (timerId : VmTimerId) (owner : VmProcessId) (kind : VmTimerKind)
      (lateByTicks : UInt64)
  | coalesced (timerId : VmTimerId) (owner : VmProcessId) (kind : VmTimerKind)
      (skippedIntervals nextDeadlineTick : UInt64)
  | overflow (timerId : VmTimerId) (owner : VmProcessId) (kind : VmTimerKind)
  | cancelled (timerId : VmTimerId) (owner : VmProcessId) (kind : VmTimerKind)
  | ownerExited (timerId : VmTimerId) (owner : VmProcessId) (kind : VmTimerKind)
deriving DecidableEq

namespace VmTimerEvent

def timerId : VmTimerEvent → VmTimerId
  | .fired timerId _ _ => timerId
  | .deadlineMissed timerId _ _ _ => timerId
  | .coalesced timerId _ _ _ _ => timerId
  | .overflow timerId _ _ => timerId
  | .cancelled timerId _ _ => timerId
  | .ownerExited timerId _ _ => timerId

def owner : VmTimerEvent → VmProcessId
  | .fired _ owner _ => owner
  | .deadlineMissed _ owner _ _ => owner
  | .coalesced _ owner _ _ _ => owner
  | .overflow _ owner _ => owner
  | .cancelled _ owner _ => owner
  | .ownerExited _ owner _ => owner

def kind : VmTimerEvent → VmTimerKind
  | .fired _ _ kind => kind
  | .deadlineMissed _ _ kind _ => kind
  | .coalesced _ _ kind _ _ => kind
  | .overflow _ _ kind => kind
  | .cancelled _ _ kind => kind
  | .ownerExited _ _ kind => kind

/-- Whether the event is the last of its timer. -/
def ends : VmTimerEvent → Bool
  | .fired _ _ kind => kind ≠ .interval
  | .deadlineMissed _ _ kind _ => kind ≠ .interval
  | .coalesced _ _ _ _ _ => false
  | .overflow _ _ _ => true
  | .cancelled _ _ _ => true
  | .ownerExited _ _ _ => true

end VmTimerEvent

/-- Owner-bound authority to cancel one timer. -/
structure VmTimerCancellationToken where
  timerId : VmTimerId
  owner : VmProcessId

/-- A rejected observation of the clock. -/
structure VmTimerClockDrift where
  previousTick : UInt64
  observedTick : UInt64
  diagnostic : String

structure VmTimerCancellationDecision where
  timerId : UInt64
  owner : UInt64
  kind : VmTimerKind
  outcome : String

structure VmTimerMetrics where
  started : UInt64
  fired : UInt64
  deadlineMissed : UInt64
  coalesced : UInt64
  overflow : UInt64
  cancelled : UInt64
  ownerExited : UInt64
  maxActive : Nat
  lateByTicksTotal : UInt64
  orderingTrace : List UInt64
  cancellationDecisions : List VmTimerCancellationDecision
  clockDriftRejections : List VmTimerClockDrift

def VmTimerMetrics.new : VmTimerMetrics := ⟨0, 0, 0, 0, 0, 0, 0, 0, 0, [], [], []⟩

structure VmTimer where
  id : VmTimerId
  owner : VmProcessId
  deadlineTick : UInt64
  kind : VmTimerKind
  intervalTicks : Option UInt64

structure VmTimerTable where
  nextTimerId : UInt64
  timers : ExtTreeMap VmTimerId VmTimer
  metrics : VmTimerMetrics
  lastClockTick : Option UInt64

namespace VmTimerTable

def new : VmTimerTable := ⟨0, ∅, .new, none⟩

def currentTick (self : VmTimerTable) : UInt64 := self.lastClockTick.getD 0

/-! ## Metrics -/

def recordEvent (self : VmTimerTable) (event : VmTimerEvent) : VmTimerTable :=
  let metrics := self.metrics
  let metrics :=
    match event with
    | .fired _ _ _ => { metrics with fired := metrics.fired + 1 }
    | .deadlineMissed _ _ _ lateByTicks =>
      { metrics with
        deadlineMissed := metrics.deadlineMissed + 1
        lateByTicksTotal := saturatingAdd metrics.lateByTicksTotal lateByTicks }
    | .coalesced _ _ _ _ _ => { metrics with coalesced := metrics.coalesced + 1 }
    | .overflow _ _ _ => { metrics with overflow := metrics.overflow + 1 }
    | .cancelled _ _ _ => { metrics with cancelled := metrics.cancelled + 1 }
    | .ownerExited _ _ _ => { metrics with ownerExited := metrics.ownerExited + 1 }
  let metrics :=
    { metrics with orderingTrace := metrics.orderingTrace ++ [event.timerId.value] }
  let outcome :=
    match event with
    | .cancelled _ _ _ => some "cancelled"
    | .ownerExited _ _ _ => some "owner_exited"
    | _ => none
  let metrics :=
    match outcome with
    | none => metrics
    | some outcome =>
      { metrics with
        cancellationDecisions := metrics.cancellationDecisions ++
          [⟨event.timerId.value, event.owner.value, event.kind, outcome⟩] }
  { self with metrics }

def recordEvents (self : VmTimerTable) (events : List VmTimerEvent) : VmTimerTable :=
  events.foldl recordEvent self

/-! ## Starting and cancelling -/

def insertTimer (self : VmTimerTable) (owner : VmProcessId) (deadlineTick : UInt64)
    (kind : VmTimerKind) (intervalTicks : Option UInt64) : VmTimerTable × VmTimerId :=
  let id : VmTimerId := ⟨saturatingAdd self.nextTimerId 1⟩
  let timers := self.timers.insert id ⟨id, owner, deadlineTick, kind, intervalTicks⟩
  ({ self with
      nextTimerId := id.value
      timers
      metrics :=
        { self.metrics with
          started := saturatingAdd self.metrics.started 1
          maxActive := max self.metrics.maxActive timers.size } }, id)

def cancel (self : VmTimerTable) (timerId : VmTimerId) :
    VmTimerTable × Except String VmTimerEvent :=
  match self.timers[timerId]? with
  | none => (self, .error s!"missing timer {timerId.value}")
  | some timer =>
    let event := .cancelled timerId timer.owner timer.kind
    ({ self with timers := self.timers.erase timerId }.recordEvent event, .ok event)

def cancellationToken (self : VmTimerTable) (timerId : VmTimerId) :
    Except String VmTimerCancellationToken :=
  match self.timers[timerId]? with
  | none => .error s!"missing timer {timerId.value}"
  | some timer => .ok ⟨timerId, timer.owner⟩

def cancelWithToken (self : VmTimerTable) (token : VmTimerCancellationToken) :
    VmTimerTable × Except String VmTimerEvent :=
  match self.timers[token.timerId]? with
  | none => (self, .error s!"missing timer {token.timerId.value}")
  | some timer =>
    if timer.owner ≠ token.owner then
      (self, .error (s!"timer {token.timerId.value} cancellation token owner mismatch: "
        ++ s!"expected {timer.owner.value}, observed {token.owner.value}"))
    else self.cancel token.timerId

/-- The timers of a process, in the order of their ids. -/
def ownedTimers (self : VmTimerTable) (owner : VmProcessId) : List VmTimer :=
  (valuesOf self.timers).filter fun timer => timer.owner = owner

def cancelOwnerTimers (self : VmTimerTable) (owner : VmProcessId) :
    VmTimerTable × List VmTimerEvent :=
  let owned := self.ownedTimers owner
  let events := owned.map fun timer => VmTimerEvent.ownerExited timer.id timer.owner timer.kind
  let timers := (owned.map (·.id)).foldl (fun timers id => timers.erase id) self.timers
  ({ self with timers }.recordEvents events, events)

/-! ## The clock -/

def rescheduleInterval (self : VmTimerTable) (timer : VmTimer) :
    VmTimerTable × Option VmTimerEvent :=
  match timer.intervalTicks with
  | none => (self, none)
  | some intervalTicks =>
    match checkedAdd timer.deadlineTick intervalTicks with
    | none => (self, some (.overflow timer.id timer.owner timer.kind))
    | some deadlineTick =>
      ({ self with timers := self.timers.insert timer.id { timer with deadlineTick } }, none)

/-- How many intervals of a late timer have passed, and the deadline behind them; `none` where
a number does not fit. -/
def nextDeadline (deadlineTick intervalTicks nowTick : UInt64) : Option UInt64 := do
  let nextStepCount ← checkedAdd ((nowTick - deadlineTick) / intervalTicks) 1
  let nextOffset ← checkedMul intervalTicks nextStepCount
  checkedAdd deadlineTick nextOffset

def coalesceLateInterval (self : VmTimerTable) (timer : VmTimer) (nowTick : UInt64) :
    VmTimerTable × Option VmTimerEvent :=
  if timer.kind ≠ .interval ∨ nowTick ≤ timer.deadlineTick then (self, none)
  else
    match timer.intervalTicks with
    | none => (self, none)
    | some intervalTicks =>
      let skippedIntervals := (nowTick - timer.deadlineTick) / intervalTicks
      if skippedIntervals = 0 then (self, none)
      else
        match nextDeadline timer.deadlineTick intervalTicks nowTick with
        | none => (self, some (.overflow timer.id timer.owner timer.kind))
        | some nextDeadlineTick =>
          ({ self with
              timers :=
                self.timers.insert timer.id { timer with deadlineTick := nextDeadlineTick } },
            some (.coalesced timer.id timer.owner timer.kind skippedIntervals
              nextDeadlineTick))

end VmTimerTable

/-- The timers, and the scheduler and process table they borrow. -/
structure Timing where
  timers : VmTimerTable
  scheduling : Scheduling

open VmTimerTable

/-- `timer_owner_exited`: a missing owner counts as exited. -/
def timerOwnerExited (processes : VmProcessTable) (pid : VmProcessId) : Bool :=
  match processes.get pid with
  | none => true
  | some process => process.state.isExited

/-- A receive timeout wakes its owner; a failure to do so is ignored. -/
def wakeReceiver (scheduling : Scheduling) (timer : VmTimer) : Scheduling :=
  if timer.kind = .receiveTimeout then ((wakeProcess timer.owner).call scheduling).1
  else scheduling

/-- One due timer, which was taken out of the table. -/
def fireTimer (nowTick : UInt64) (s : Timing) (timer : VmTimer) : Timing × VmTimerEvent :=
  let timers := { s.timers with timers := s.timers.timers.erase timer.id }
  if timerOwnerExited s.scheduling.processes timer.owner then
    (⟨timers, s.scheduling⟩, .ownerExited timer.id timer.owner timer.kind)
  else
    match timers.coalesceLateInterval timer nowTick with
    | (timers, some event) => (⟨timers, s.scheduling⟩, event)
    | (timers, none) =>
      let scheduling := wakeReceiver s.scheduling timer
      match timers.rescheduleInterval timer with
      | (timers, some event) => (⟨timers, scheduling⟩, event)
      | (timers, none) =>
        (⟨timers, scheduling⟩,
          if timer.deadlineTick < nowTick then
            .deadlineMissed timer.id timer.owner timer.kind (nowTick - timer.deadlineTick)
          else .fired timer.id timer.owner timer.kind)

/-- The loop over the due timers, in the order of their ids. -/
def fireTimers (nowTick : UInt64) : Timing → List VmTimer → Timing × List VmTimerEvent
  | s, [] => (s, [])
  | s, timer :: due =>
    let (s, event) := fireTimer nowTick s timer
    let (s, events) := fireTimers nowTick s due
    (s, event :: events)

def dueTimers (self : VmTimerTable) (nowTick : UInt64) : List VmTimer :=
  (valuesOf self.timers).filter fun timer => timer.deadlineTick ≤ nowTick

def setClock (self : VmTimerTable) (nowTick : UInt64) : VmTimerTable :=
  { self with lastClockTick := some nowTick }

/-- The clock was seen at a later tick before. -/
def Backwards (self : VmTimerTable) (nowTick : UInt64) : Prop :=
  ∃ previousTick, self.lastClockTick = some previousTick ∧ nowTick < previousTick

instance (self : VmTimerTable) (nowTick : UInt64) : Decidable (Backwards self nowTick) :=
  match h : self.lastClockTick with
  | none => isFalse (by rintro ⟨_, some, _⟩; rw [h] at some; cases some)
  | some previousTick =>
    if earlier : nowTick < previousTick then isTrue ⟨previousTick, h, earlier⟩
    else isFalse (by rintro ⟨_, some, lt⟩; rw [h] at some; cases some; exact earlier lt)

def advanceClock (s : Timing) (nowTick : UInt64) : Timing × List VmTimerEvent :=
  if Backwards s.timers nowTick then
    let previousTick := s.timers.currentTick
    let drift : VmTimerClockDrift :=
      { previousTick
        observedTick := nowTick
        diagnostic := s!"timer clock moved backwards: previous tick {previousTick}, observed "
          ++ s!"tick {nowTick}" }
    let metrics := s.timers.metrics
    let metrics :=
      { metrics with clockDriftRejections := metrics.clockDriftRejections ++ [drift] }
    ({ s with timers := { s.timers with metrics } }, [])
  else
    let (s, events) :=
      fireTimers nowTick ⟨setClock s.timers nowTick, s.scheduling⟩ (dueTimers s.timers nowTick)
    ({ s with timers := s.timers.recordEvents events }, events)

def requireLiveProcess (processes : VmProcessTable) (pid : VmProcessId) : Except String Unit :=
  match processes.get pid with
  | none => .error s!"missing process {pid.value}"
  | some process => failIf process.state.isExited s!"process {pid.value} has exited"

def insert (owner : VmProcessId) (deadlineTick : UInt64) (kind : VmTimerKind)
    (intervalTicks : Option UInt64) : Method (Fault String) Timing VmTimerId :=
  .ofCall fun s =>
    let (timers, id) := s.timers.insertTimer owner deadlineTick kind intervalTicks
    ({ s with timers }, .ok id)

/-- The check before each start. -/
def requireLive (owner : VmProcessId) : Method (Fault String) Timing Unit := do
  let s ← get
  (requireLiveProcess s.scheduling.processes owner).mapError Fault.returned

def startOneShot (owner : VmProcessId) (deadlineTick : UInt64) :
    Method (Fault String) Timing VmTimerId := do
  requireLive owner
  insert owner deadlineTick .oneShot none

def startInterval (owner : VmProcessId) (firstDeadlineTick intervalTicks : UInt64) :
    Method (Fault String) Timing VmTimerId := do
  requireLive owner
  failIf (intervalTicks = 0)
    (Fault.returned s!"interval timer for process {owner.value} must have a positive interval")
  insert owner firstDeadlineTick .interval (some intervalTicks)

def startReceiveTimeout (owner : VmProcessId) (nowTick timeoutTicks : UInt64) :
    Method (Fault String) Timing VmTimerId := do
  requireLive owner
  match checkedAdd nowTick timeoutTicks with
  | none => throw (.returned s!"timer deadline overflow for process {owner.value}")
  | some deadlineTick =>
    (Scheduling.table ((updateProcess owner (·.block)).expect
      "owner process was checked before blocking receive timeout")).within (·.scheduling)
        fun scheduling s => { s with scheduling }
    insert owner deadlineTick .receiveTimeout none

/-! ## Runs -/

/-- `borrow` is the scheduler and the process table as others left them. -/
inductive Request where
  | startOneShot (owner : VmProcessId) (deadlineTick : UInt64)
  | startInterval (owner : VmProcessId) (firstDeadlineTick intervalTicks : UInt64)
  | startReceiveTimeout (owner : VmProcessId) (nowTick timeoutTicks : UInt64)
  | cancel (timerId : VmTimerId)
  | cancelWithToken (token : VmTimerCancellationToken)
  | cancelOwnerTimers (owner : VmProcessId)
  | advanceClock (nowTick : UInt64)
  | borrow (scheduling : Scheduling)

inductive Reply where
  | started (timerId : VmTimerId)
  | events (events : List VmTimerEvent)
  | failed (fault : Fault String)
deriving DecidableEq

/-- A start, whose timer id or failure is the reply. -/
def startReply (start : Method (Fault String) Timing VmTimerId) (s : Timing) : Timing × Reply :=
  match start.call s with
  | (s, .ok timerId) => (s, .started timerId)
  | (s, .error fault) => (s, .failed fault)

/-- A cancellation of the table alone. -/
def cancelReply (s : Timing) (result : VmTimerTable × Except String VmTimerEvent) :
    Timing × Reply :=
  ({ s with timers := result.1 },
    match result.2 with
    | .ok event => .events [event]
    | .error error => .failed (.returned error))

def call (s : Timing) : Request → Timing × Reply
  | .startOneShot owner deadlineTick => startReply (startOneShot owner deadlineTick) s
  | .startInterval owner firstDeadlineTick intervalTicks =>
    startReply (startInterval owner firstDeadlineTick intervalTicks) s
  | .startReceiveTimeout owner nowTick timeoutTicks =>
    startReply (startReceiveTimeout owner nowTick timeoutTicks) s
  | .cancel timerId => cancelReply s (s.timers.cancel timerId)
  | .cancelWithToken token => cancelReply s (s.timers.cancelWithToken token)
  | .cancelOwnerTimers owner =>
    let (timers, events) := s.timers.cancelOwnerTimers owner
    ({ s with timers }, .events events)
  | .advanceClock nowTick =>
    let (s, events) := advanceClock s nowTick
    (s, .events events)
  | .borrow scheduling => ({ s with scheduling }, .events [])

def Reply.startedIds : Reply → List VmTimerId
  | .started timerId => [timerId]
  | _ => []

def Reply.endedIds : Reply → List VmTimerId
  | .events emitted => (emitted.filter (·.ends)).map (·.timerId)
  | _ => []

abbrev History := List (Request × Reply)

/-- The timers that were started, oldest first. -/
def startedIds (history : History) : List VmTimerId := history.flatMap (·.2.startedIds)

/-- The timers that ended, once for each final event. -/
def endedIds (history : History) : List VmTimerId := history.flatMap (·.2.endedIds)

def activeIds (timers : VmTimerTable) : List VmTimerId := timers.timers.keys

/-! ## One due timer -/

/-- Only intervals have an interval, and it is positive. -/
structure VmTimer.Sound (timer : VmTimer) : Prop where
  interval : timer.kind = .interval → ∃ ticks, timer.intervalTicks = some ticks ∧ ticks ≠ 0
  single : timer.kind ≠ .interval → timer.intervalTicks = none

/-- The timers stand under their ids. -/
def VmTimerTable.Sound (self : VmTimerTable) : Prop :=
  ∀ (id : VmTimerId) (timer : VmTimer),
    self.timers[id]? = some timer → timer.id = id ∧ timer.Sound

/-- A due timer ends with its event, or is armed again for a later tick. -/
inductive Settled (nowTick : UInt64) (timer : VmTimer) (before : ExtTreeMap VmTimerId VmTimer) :
    ExtTreeMap VmTimerId VmTimer → VmTimerEvent → Prop where
  | ended {event : VmTimerEvent} (own : event.timerId = timer.id) (ends : event.ends = true) :
      Settled nowTick timer before (before.erase timer.id) event
  | rearmed {event : VmTimerEvent} {deadlineTick : UInt64} (own : event.timerId = timer.id)
      (goes : event.ends = false) (later : nowTick < deadlineTick) :
      Settled nowTick timer before
        ((before.erase timer.id).insert timer.id { timer with deadlineTick }) event

variable {timer : VmTimer}

theorem VmTimer.Sound.rearm (h : timer.Sound) (deadlineTick : UInt64) :
    VmTimer.Sound { timer with deadlineTick } :=
  ⟨h.interval, h.single⟩

/-- The deadline behind the intervals that have passed is in the future. -/
theorem nextDeadline_later {deadlineTick intervalTicks nowTick next : UInt64}
    (due : deadlineTick ≤ nowTick) (positive : intervalTicks ≠ 0)
    (run : nextDeadline deadlineTick intervalTicks nowTick = some next) : nowTick < next := by
  unfold nextDeadline at run
  obtain ⟨count, step, run⟩ := Option.bind_eq_some_iff.mp run
  obtain ⟨offset, product, sum⟩ := Option.bind_eq_some_iff.mp run
  rw [checkedAdd_eq_some_iff] at step sum
  rw [checkedMul_eq_some_iff] at product
  have one : (1 : UInt64).toNat = 1 := rfl
  have width : 0 < intervalTicks.toNat := Nat.pos_of_ne_zero fun zero =>
    positive (UInt64.toNat_inj.mp zero)
  have passed := Nat.lt_mul_div_succ (nowTick.toNat - deadlineTick.toNat) width
  rw [UInt64.toNat_div, UInt64.toNat_sub_of_le _ _ due, one] at step
  rw [step] at product
  rw [UInt64.lt_iff_toNat_lt, sum, product]
  have due := UInt64.le_iff_toNat_le.mp due
  omega

theorem coalesceLateInterval_spec (self : VmTimerTable) (nowTick : UInt64) (h : timer.Sound) :
    ((self.coalesceLateInterval timer nowTick).1 = self ∧
      ((self.coalesceLateInterval timer nowTick).2 = none ∨
        (self.coalesceLateInterval timer nowTick).2 =
          some (.overflow timer.id timer.owner timer.kind))) ∨
      ∃ deadlineTick skipped, nowTick < deadlineTick ∧ (self.coalesceLateInterval timer nowTick).1 =
          { self with timers := self.timers.insert timer.id { timer with deadlineTick } } ∧
        (self.coalesceLateInterval timer nowTick).2 =
          some (.coalesced timer.id timer.owner timer.kind skipped deadlineTick) := by
  unfold coalesceLateInterval
  split
  next => exact .inl ⟨rfl, .inl rfl⟩
  next late =>
    obtain ⟨interval, due⟩ := not_or.mp late
    obtain ⟨ticks, some, positive⟩ := h.interval (not_not.mp interval)
    rw [some]
    dsimp only
    split
    · exact .inl ⟨rfl, .inl rfl⟩
    cases next : nextDeadline timer.deadlineTick ticks nowTick with
    | none => exact .inl ⟨rfl, .inr rfl⟩
    | some deadlineTick =>
      have le : timer.deadlineTick ≤ nowTick := UInt64.le_of_lt (UInt64.not_le.mp due)
      exact .inr ⟨deadlineTick, _, nextDeadline_later le positive next, rfl, rfl⟩

variable {nowTick : UInt64} {self : VmTimerTable}

/-- When nothing was coalesced, a rescheduled interval is due in the future. -/
theorem rescheduleInterval_spec
    (h : timer.Sound) (alone : (self.coalesceLateInterval timer nowTick).2 = none) :
    (timer.kind ≠ .interval ∧ self.rescheduleInterval timer = (self, none)) ∨
      (timer.kind = .interval ∧ self.rescheduleInterval timer =
        (self, some (.overflow timer.id timer.owner timer.kind))) ∨
      ∃ deadlineTick, timer.kind = .interval ∧ nowTick < deadlineTick ∧
        self.rescheduleInterval timer =
          ({ self with timers := self.timers.insert timer.id { timer with deadlineTick } },
            none) := by
  by_cases interval : timer.kind = .interval
  · obtain ⟨ticks, some, positive⟩ := h.interval interval
    unfold rescheduleInterval
    rw [some]
    dsimp only
    cases next : checkedAdd timer.deadlineTick ticks with
    | none => exact .inr (.inl ⟨interval, rfl⟩)
    | some deadlineTick =>
      refine .inr (.inr ⟨deadlineTick, interval, ?_, rfl⟩)
      rw [checkedAdd_eq_some_iff] at next
      have width : 0 < ticks.toNat := Nat.pos_of_ne_zero fun zero =>
        positive (UInt64.toNat_inj.mp zero)
      rw [UInt64.lt_iff_toNat_lt, next]
      by_cases due : nowTick ≤ timer.deadlineTick
      · have due := UInt64.le_iff_toNat_le.mp due
        omega
      have le : timer.deadlineTick ≤ nowTick := UInt64.le_of_lt (UInt64.not_le.mp due)
      have zero : (nowTick - timer.deadlineTick) / ticks = 0 := by
        unfold coalesceLateInterval at alone
        rw [if_neg (by simp [interval, due]), some] at alone
        dsimp only at alone
        by_contra skipped
        rw [if_neg skipped] at alone
        cases missed : nextDeadline timer.deadlineTick ticks nowTick with
        | none | some =>
          rw [missed] at alone
          cases alone
      have zero := congrArg UInt64.toNat zero
      rw [UInt64.toNat_div, UInt64.toNat_sub_of_le _ _ le] at zero
      have small := (Nat.div_eq_zero_iff.mp zero).resolve_left (by omega)
      have le := UInt64.le_iff_toNat_le.mp le
      omega
  · left
    refine ⟨interval, ?_⟩
    unfold rescheduleInterval
    rw [h.single interval]

/-- Everything of the table but the timers. -/
def VmTimerTable.SameClock (self other : VmTimerTable) : Prop :=
  self.nextTimerId = other.nextTimerId ∧ self.lastClockTick = other.lastClockTick

theorem fireTimer_spec (nowTick : UInt64) (s : Timing) (h : timer.Sound) :
    Settled nowTick timer s.timers.timers (fireTimer nowTick s timer).1.timers.timers
        (fireTimer nowTick s timer).2 ∧
      (fireTimer nowTick s timer).1.timers.SameClock s.timers := by
  unfold fireTimer
  dsimp only
  split
  · exact ⟨.ended rfl rfl, rfl, rfl⟩
  have coalesced := coalesceLateInterval_spec
    { s.timers with timers := s.timers.timers.erase timer.id } nowTick h
  rcases run : ({ s.timers with timers := s.timers.timers.erase timer.id } :
    VmTimerTable).coalesceLateInterval timer nowTick with ⟨timers, _ | event⟩
  · rw [run] at coalesced
    have same : timers = { s.timers with timers := s.timers.timers.erase timer.id } := by
      rcases coalesced with ⟨same, _⟩ | ⟨_, _, _, _, impossible⟩
      · exact same
      · cases impossible
    have alone := congrArg (·.2) run
    subst same
    dsimp only
    rcases rescheduleInterval_spec h alone with ⟨other, same⟩ | ⟨interval, same⟩ |
      ⟨deadlineTick, interval, later, same⟩
    · rw [same]
      refine ⟨.ended ?_ ?_, rfl, rfl⟩
      · dsimp only
        split <;> rfl
      · dsimp only
        split <;> simp [VmTimerEvent.ends, other]
    · rw [same]
      exact ⟨.ended rfl rfl, rfl, rfl⟩
    · rw [same]
      refine ⟨.rearmed ?_ ?_ later, rfl, rfl⟩
      · dsimp only
        split <;> rfl
      · dsimp only
        split <;> simp [VmTimerEvent.ends, interval]
  · rw [run] at coalesced
    rcases coalesced with ⟨rfl, none | same⟩ | ⟨deadlineTick, skipped, later, rfl, same⟩
    · cases none
    · cases same
      exact ⟨.ended rfl rfl, rfl, rfl⟩
    · cases same
      exact ⟨.rearmed rfl rfl later, rfl, rfl⟩

/-! ## All due timers -/

/-- The ids whose final event is among some events. -/
def finalIds (events : List VmTimerEvent) : List VmTimerId :=
  (events.filter (·.ends)).map (·.timerId)

/-- One for an active timer. -/
def active (timers : ExtTreeMap VmTimerId VmTimer) (id : VmTimerId) : Nat :=
  if timers.contains id then 1 else 0

variable {id : VmTimerId}

theorem active_of_some {timers : ExtTreeMap VmTimerId VmTimer}
    (found : timers[id]? = some timer) : active timers id = 1 := by
  unfold active
  rw [ExtTreeMap.contains_eq_isSome_getElem?, found]
  rfl

theorem active_of_none {timers : ExtTreeMap VmTimerId VmTimer}
    (absent : timers[id]? = none) : active timers id = 0 := by
  unfold active
  rw [ExtTreeMap.contains_eq_isSome_getElem?, absent]
  rfl

theorem active_congr {timers timers' : ExtTreeMap VmTimerId VmTimer}
    (same : timers[id]? = timers'[id]?) : active timers id = active timers' id := by
  unfold active
  rw [ExtTreeMap.contains_eq_isSome_getElem?, ExtTreeMap.contains_eq_isSome_getElem?, same]

/-- What one due timer leaves behind, id by id. -/
theorem Settled.lookup {before after : ExtTreeMap VmTimerId VmTimer} {event : VmTimerEvent}
    (h : Settled nowTick timer before after event) (sound : timer.Sound) :
    event.timerId = timer.id ∧ (∀ id, id ≠ timer.id → after[id]? = before[id]?) ∧
      (∀ left : VmTimer, after[timer.id]? = some left →
        left.id = timer.id ∧ left.Sound ∧ nowTick < left.deadlineTick) ∧
      active after timer.id + (finalIds [event]).count timer.id = 1 := by
  cases h with
  | ended own ends =>
    have gone : (before.erase timer.id)[timer.id]? = none := by
      rw [getElem?_erase_eq, if_pos rfl]
    refine ⟨own, fun id other => ?_, fun left found => ?_, ?_⟩
    · rw [getElem?_erase_eq, if_neg fun same => other same.symm]
    · rw [gone] at found
      cases found
    · rw [active_of_none gone]
      simp [finalIds, ends, own]
  | rearmed own goes later =>
    have kept := getElem?_insert_self_eq (before.erase timer.id) timer.id
    refine ⟨own, fun id other => ?_, fun left found => ?_, ?_⟩
    · rw [getElem?_insert_of_ne _ _ fun same => other same.symm, getElem?_erase_eq,
        if_neg fun same => other same.symm]
    · rw [kept] at found
      cases found
      exact ⟨rfl, sound.rearm _, later⟩
    · rw [active_of_some (kept _)]
      simp [finalIds, goes]

theorem finalIds_cons (event : VmTimerEvent) (events : List VmTimerEvent) :
    finalIds (event :: events) = finalIds [event] ++ finalIds events := by
  unfold finalIds
  rw [← map_append, ← filter_append]
  rfl

theorem count_finalIds_of_not_mem {events : List VmTimerEvent}
    (out : id ∉ events.map (·.timerId)) : (finalIds events).count id = 0 := by
  refine count_eq_zero.mpr fun mem => out ?_
  obtain ⟨event, final, same⟩ := mem_map.mp mem
  exact mem_map.mpr ⟨event, (mem_filter.mp final).1, same⟩

/-- The loop: each due timer has one event, and is armed for later or ended by it; the others
stay. -/
theorem fireTimers_spec (due : List VmTimer) (s : Timing)
    (sound : ∀ timer ∈ due, timer.Sound) (distinct : (due.map (·.id)).Nodup) :
    (fireTimers nowTick s due).2.map (·.timerId) = due.map (·.id) ∧ (∀ id, id ∉ due.map (·.id) →
        (fireTimers nowTick s due).1.timers.timers[id]? = s.timers.timers[id]?) ∧
      (∀ id ∈ due.map (·.id), ∀ left : VmTimer,
        (fireTimers nowTick s due).1.timers.timers[id]? = some left →
          left.id = id ∧ left.Sound ∧ nowTick < left.deadlineTick) ∧
      (∀ id ∈ due.map (·.id), active (fireTimers nowTick s due).1.timers.timers id +
        (finalIds (fireTimers nowTick s due).2).count id = 1) ∧
      (fireTimers nowTick s due).1.timers.SameClock s.timers := by
  induction due generalizing s with
  | nil =>
    refine ⟨rfl, fun _ _ => rfl, fun id mem => ?_, fun id mem => ?_, rfl, rfl⟩
    · cases mem
    · cases mem
  | cons timer due ih =>
    obtain ⟨fresh, distinct⟩ := nodup_cons.mp distinct
    have own := sound timer mem_cons_self
    obtain ⟨settled, clock⟩ := fireTimer_spec nowTick s own
    obtain ⟨named, others, left, balance⟩ := settled.lookup own
    obtain ⟨names, kept, armed, balances, clocks⟩ :=
      ih (fireTimer nowTick s timer).1 (fun t mem => sound t (mem_cons_of_mem _ mem))
        distinct
    unfold fireTimers
    dsimp only
    refine ⟨?_, fun id out => ?_, fun id mem later found => ?_, fun id mem => ?_,
      clocks.1.trans clock.1, clocks.2.trans clock.2⟩
    · rw [map_cons, map_cons, named, names]
    · rw [map_cons, mem_cons, not_or] at out
      rw [kept id out.2, others id out.1]
    · rw [map_cons, mem_cons] at mem
      by_cases tail : id ∈ due.map (·.id)
      · exact armed id tail later found
      · obtain rfl := mem.resolve_right tail
        rw [kept _ tail] at found
        exact left later found
    · rw [map_cons, mem_cons] at mem
      rw [finalIds_cons, count_append]
      by_cases tail : id ∈ due.map (·.id)
      · have differ : id ≠ timer.id := by
          rintro rfl
          exact fresh tail
        have none : (finalIds [(fireTimer nowTick s timer).2]).count id = 0 :=
          count_finalIds_of_not_mem (by simpa [named] using differ)
        have := balances id tail
        omega
      · obtain rfl := mem.resolve_right tail
        have none : (finalIds (fireTimers nowTick (fireTimer nowTick s timer).1 due).2).count
            timer.id = 0 := count_finalIds_of_not_mem (by rw [names]; exact tail)
        rw [active_congr (kept _ tail), none]
        omega

/-! ## One advance of the clock -/

@[simp] theorem recordEvent_timers (self : VmTimerTable) (event : VmTimerEvent) :
    (self.recordEvent event).timers = self.timers := rfl

@[simp] theorem recordEvent_nextTimerId (self : VmTimerTable) (event : VmTimerEvent) :
    (self.recordEvent event).nextTimerId = self.nextTimerId := rfl

@[simp] theorem recordEvents_timers (self : VmTimerTable) (events : List VmTimerEvent) :
    (self.recordEvents events).timers = self.timers := by
  unfold recordEvents
  induction events generalizing self with
  | nil => rfl
  | cons event events ih => rw [foldl_cons, ih, recordEvent_timers]

@[simp] theorem recordEvents_nextTimerId (self : VmTimerTable) (events : List VmTimerEvent) :
    (self.recordEvents events).nextTimerId = self.nextTimerId := by
  unfold recordEvents
  induction events generalizing self with
  | nil => rfl
  | cons event events ih => rw [foldl_cons, ih, recordEvent_nextTimerId]

theorem mem_valuesOf_iff (h : self.Sound) :
    timer ∈ valuesOf self.timers ↔ self.timers[timer.id]? = some timer := by
  rw [mem_valuesOf]
  constructor
  · rintro ⟨id, found⟩
    obtain ⟨rfl, _⟩ := h id timer found
    exact found
  · intro found
    exact ⟨_, found⟩

theorem valuesOf_ids (h : self.Sound) : (valuesOf self.timers).map (·.id) = self.timers.keys := by
  unfold valuesOf
  rw [map_map, ← ExtTreeMap.map_fst_toList_eq_keys]
  refine map_congr_left fun entry mem => ?_
  obtain ⟨id, timer⟩ := entry
  exact (h id timer (ExtTreeMap.mem_toList_iff_getElem?_eq_some.mp mem)).1

theorem selected_ids_nodup (h : self.Sound) (p : VmTimer → Bool) :
    (((valuesOf self.timers).filter p).map (·.id)).Nodup := by
  have keys : self.timers.keys.Nodup := ExtTreeMap.nodup_keys
  rw [← valuesOf_ids h] at keys
  exact (filter_sublist.map _).nodup keys

theorem mem_dueTimers_iff (h : self.Sound) : timer ∈ dueTimers self nowTick ↔
      self.timers[timer.id]? = some timer ∧ timer.deadlineTick ≤ nowTick := by
  unfold dueTimers
  rw [mem_filter, mem_valuesOf_iff h, decide_eq_true_eq]

variable {s : Timing}

/-- What an accepted tick does. -/
theorem advanceClock_spec (h : s.timers.Sound) (forward : ¬ Backwards s.timers nowTick) :
    (∀ (id : VmTimerId) (left : VmTimer),
      (advanceClock s nowTick).1.timers.timers[id]? = some left →
      left.id = id ∧ left.Sound ∧ nowTick < left.deadlineTick) ∧
    (advanceClock s nowTick).2.map (·.timerId) = (dueTimers s.timers nowTick).map (·.id) ∧
    (∀ id, active s.timers.timers id = active (advanceClock s nowTick).1.timers.timers id +
      (finalIds (advanceClock s nowTick).2).count id) ∧
    (advanceClock s nowTick).1.timers.nextTimerId = s.timers.nextTimerId := by
  have due_sound : ∀ timer ∈ dueTimers s.timers nowTick, timer.Sound := fun timer mem =>
    (h _ timer ((mem_dueTimers_iff h).mp mem).1).2
  obtain ⟨names, kept, armed, balance, clock⟩ :=
    fireTimers_spec (dueTimers s.timers nowTick) ⟨setClock s.timers nowTick, s.scheduling⟩ due_sound
      (selected_ids_nodup h _)
  unfold advanceClock
  rw [if_neg forward]
  dsimp only
  rw [recordEvents_timers, recordEvents_nextTimerId]
  refine ⟨fun id left found => ?_, names, fun id => ?_, clock.1⟩
  · by_cases due : id ∈ (dueTimers s.timers nowTick).map (·.id)
    · exact armed id due left found
    · rw [kept id due] at found
      obtain ⟨same, sound⟩ := h id left found
      refine ⟨same, sound, UInt64.not_le.mp fun early => due ?_⟩
      subst same
      exact mem_map.mpr ⟨left, (mem_dueTimers_iff h).mpr ⟨found, early⟩, rfl⟩
  · by_cases due : id ∈ (dueTimers s.timers nowTick).map (·.id)
    · rw [balance id due]
      obtain ⟨timer, mem, rfl⟩ := mem_map.mp due
      exact active_of_some ((mem_dueTimers_iff h).mp mem).1
    · have none := count_finalIds_of_not_mem (by rw [names]; exact due)
      rw [none, Nat.add_zero]
      exact (active_congr (kept id due)).symm

/-! ## One call -/

/-- A call starts a timer under the next id, or ends some timers and leaves the others. -/
inductive CallEffect (before after : VmTimerTable) : Reply → Prop where
  | started {timer : VmTimer} (sound : timer.Sound)
      (id : timer.id = ⟨saturatingAdd before.nextTimerId 1⟩)
      (next : after.nextTimerId = saturatingAdd before.nextTimerId 1)
      (timers : after.timers = before.timers.insert timer.id timer) :
      CallEffect before after (.started timer.id)
  | settled {reply : Reply} (sound : after.Sound)
      (next : after.nextTimerId = before.nextTimerId) (none : reply.startedIds = [])
      (balance : ∀ id,
        active before.timers id = active after.timers id + reply.endedIds.count id) :
      CallEffect before after reply

theorem CallEffect.unchanged {before after : VmTimerTable} {reply : Reply} (sound : before.Sound)
    (timers : after.timers = before.timers) (next : after.nextTimerId = before.nextTimerId)
    (none : reply.startedIds = []) (ended : reply.endedIds = []) :
    CallEffect before after reply := by
  refine .settled ?_ next none fun id => ?_
  · unfold VmTimerTable.Sound
    rw [timers]
    exact sound
  · rw [timers, ended]
    rfl

theorem CallEffect.keeps_sound {before after : VmTimerTable} {reply : Reply}
    (h : CallEffect before after reply) (before_sound : before.Sound) : after.Sound := by
  cases h with
  | started sound id next timers =>
    intro other found mem
    rw [timers, getElem?_insert_eq] at mem
    split at mem
    next same =>
      cases mem
      exact ⟨same, sound⟩
    next => exact before_sound other found mem
  | settled sound next none balance => exact sound

theorem insert_effect (s : Timing) (owner : VmProcessId) (deadlineTick : UInt64)
    {kind : VmTimerKind} {intervalTicks : Option UInt64}
    (sound : ∀ id, VmTimer.Sound ⟨id, owner, deadlineTick, kind, intervalTicks⟩) :
    CallEffect s.timers (startReply (insert owner deadlineTick kind intervalTicks) s).1.timers
      (startReply (insert owner deadlineTick kind intervalTicks) s).2 :=
  .started (sound ⟨saturatingAdd s.timers.nextTimerId 1⟩) rfl rfl rfl

/-- A start behind a check that does not touch the timers. -/
theorem startReply_bind {α : Type} {first : Method (Fault String) Timing α}
    {start : α → Method (Fault String) Timing VmTimerId} (sound : s.timers.Sound)
    (same : (first.call s).1.timers = s.timers) (rest : ∀ a t, t.timers = s.timers →
      CallEffect t.timers (startReply (start a) t).1.timers (startReply (start a) t).2) :
    CallEffect s.timers (startReply (first >>= start) s).1.timers
      (startReply (first >>= start) s).2 := by
  unfold startReply
  rw [call_bind]
  rcases run : Method.call first s with ⟨t, e | a⟩
  · rw [run] at same
    exact .unchanged sound (congrArg (·.timers) same) (congrArg (·.nextTimerId) same) rfl rfl
  rw [run] at same
  have effect := rest a t same
  rw [same] at effect
  exact effect

theorem startOneShot_effect (sound : s.timers.Sound) (owner : VmProcessId) (deadlineTick : UInt64) :
    CallEffect s.timers (call s (.startOneShot owner deadlineTick)).1.timers
      (call s (.startOneShot owner deadlineTick)).2 :=
  startReply_bind sound rfl fun _ t _ =>
    insert_effect t owner deadlineTick fun _ => ⟨fun kind => (by cases kind), fun _ => rfl⟩

theorem startInterval_effect (sound : s.timers.Sound) (owner : VmProcessId)
    (firstDeadlineTick intervalTicks : UInt64) :
    CallEffect s.timers (call s (.startInterval owner firstDeadlineTick intervalTicks)).1.timers
      (call s (.startInterval owner firstDeadlineTick intervalTicks)).2 := by
  refine startReply_bind sound rfl fun _ t same => ?_
  have sound : t.timers.Sound := same ▸ sound
  by_cases zero : intervalTicks = 0
  · have refused : Method.call (do
        failIf (intervalTicks = 0)
          (Fault.returned s!"interval timer for process {owner.value} must have a positive interval")
        insert owner firstDeadlineTick .interval (some intervalTicks) :
          Method (Fault String) Timing VmTimerId) t =
        (t, .error (.returned
          s!"interval timer for process {owner.value} must have a positive interval")) := by
      rw [call_check_bind, failIf, if_pos zero]
    unfold startReply
    rw [refused]
    exact .unchanged sound rfl rfl rfl rfl
  · refine startReply_bind sound rfl fun _ t' _ => insert_effect t' owner firstDeadlineTick fun _ => ?_
    exact ⟨fun _ => ⟨intervalTicks, rfl, zero⟩, fun other => absurd rfl other⟩

theorem startReceiveTimeout_effect (sound : s.timers.Sound) (owner : VmProcessId)
    (nowTick timeoutTicks : UInt64) :
    CallEffect s.timers (call s (.startReceiveTimeout owner nowTick timeoutTicks)).1.timers
      (call s (.startReceiveTimeout owner nowTick timeoutTicks)).2 := by
  refine startReply_bind sound rfl fun _ t same => ?_
  have sound : t.timers.Sound := same ▸ sound
  split
  next => exact .unchanged sound rfl rfl rfl rfl
  next deadlineTick _ =>
    exact startReply_bind sound rfl fun _ t' _ =>
      insert_effect t' owner deadlineTick fun _ => ⟨fun kind => (by cases kind), fun _ => rfl⟩

/-- The timers that are erased each have one final event. -/
theorem erase_balance {before : VmTimerTable} {gone : List VmTimer}
    (present : ∀ timer ∈ gone, before.timers[timer.id]? = some timer)
    (distinct : (gone.map (·.id)).Nodup) (id : VmTimerId) : active before.timers id =
      active ((gone.map (·.id)).foldl (fun timers id => timers.erase id) before.timers) id +
        (gone.map (·.id)).count id := by
  by_cases mem : id ∈ gone.map (·.id)
  · obtain ⟨timer, listed, rfl⟩ := mem_map.mp mem
    rw [active_of_some (present timer listed), active_of_none
      (by rw [getElem?_foldl_erase, if_pos mem]), nodup_iff_count_eq_one.mp distinct _ mem]
  · rw [count_eq_zero.mpr mem, Nat.add_zero]
    exact active_congr (by rw [getElem?_foldl_erase, if_neg mem])

theorem sound_foldl_erase {before : VmTimerTable} (sound : before.Sound) (ids : List VmTimerId) :
    VmTimerTable.Sound
      { before with timers := ids.foldl (fun timers id => timers.erase id) before.timers } := by
  intro id timer found
  have found : (ids.foldl (fun timers id => timers.erase id) before.timers)[id]? = some timer :=
    found
  rw [getElem?_foldl_erase] at found
  split at found
  next => cases found
  next => exact sound id timer found

theorem cancel_effect (sound : s.timers.Sound) (timerId : VmTimerId) :
    CallEffect s.timers (cancelReply s (s.timers.cancel timerId)).1.timers
      (cancelReply s (s.timers.cancel timerId)).2 := by
  unfold cancelReply VmTimerTable.cancel
  cases found : s.timers.timers[timerId]? with
  | none => exact .unchanged sound rfl rfl rfl rfl
  | some timer =>
    refine .settled (sound_foldl_erase sound [timerId]) rfl rfl fun id => ?_
    obtain ⟨rfl, _⟩ := sound _ timer found
    have present : ∀ t ∈ [timer], s.timers.timers[t.id]? = some t := by
      intro t mem
      rw [mem_singleton.mp mem]
      exact found
    exact erase_balance present (nodup_cons.mpr ⟨not_mem_nil, nodup_nil⟩) id

theorem cancelWithToken_effect (sound : s.timers.Sound) (token : VmTimerCancellationToken) :
    CallEffect s.timers (cancelReply s (s.timers.cancelWithToken token)).1.timers
      (cancelReply s (s.timers.cancelWithToken token)).2 := by
  unfold VmTimerTable.cancelWithToken
  split
  next => exact .unchanged sound rfl rfl rfl rfl
  next timer _ =>
    split
    next => exact .unchanged sound rfl rfl rfl rfl
    next => exact cancel_effect sound token.timerId

theorem cancelOwnerTimers_effect (sound : s.timers.Sound) (owner : VmProcessId) :
    CallEffect s.timers (call s (.cancelOwnerTimers owner)).1.timers
      (call s (.cancelOwnerTimers owner)).2 := by
  have ended : finalIds ((s.timers.ownedTimers owner).map fun timer =>
      VmTimerEvent.ownerExited timer.id timer.owner timer.kind) =
        (s.timers.ownedTimers owner).map (·.id) := by
    unfold finalIds
    induction s.timers.ownedTimers owner with
    | nil => rfl
    | cons timer owned ih =>
      rw [map_cons, filter_cons_of_pos rfl, map_cons, ih]
      rfl
  unfold call VmTimerTable.cancelOwnerTimers
  dsimp only
  refine .settled ?_ (recordEvents_nextTimerId _ _) rfl fun id => ?_
  · unfold VmTimerTable.Sound
    rw [recordEvents_timers]
    exact sound_foldl_erase sound _
  · rw [recordEvents_timers]
    change _ = _ + (finalIds _).count id
    rw [ended]
    refine erase_balance (fun timer mem => ?_) (selected_ids_nodup sound _) id
    exact (mem_valuesOf_iff sound).mp (mem_filter.mp mem).1

/-- A backwards clock is logged, and changes nothing else. -/
theorem advanceClock_backwards (backwards : Backwards s.timers nowTick) :
    ∃ drift, advanceClock s nowTick =
      ({ s with
          timers :=
            { s.timers with
              metrics :=
                { s.timers.metrics with
                  clockDriftRejections :=
                    s.timers.metrics.clockDriftRejections ++ [drift] } } }, []) := by
  unfold advanceClock
  rw [if_pos backwards]
  exact ⟨_, rfl⟩

theorem advanceClock_effect (sound : s.timers.Sound) (nowTick : UInt64) :
    CallEffect s.timers (call s (.advanceClock nowTick)).1.timers
      (call s (.advanceClock nowTick)).2 := by
  by_cases backwards : Backwards s.timers nowTick
  · obtain ⟨drift, run⟩ := advanceClock_backwards backwards
    change CallEffect s.timers (advanceClock s nowTick).1.timers (.events (advanceClock s nowTick).2)
    rw [run]
    exact .unchanged sound rfl rfl rfl rfl
  · obtain ⟨left, _, balance, next⟩ := advanceClock_spec sound backwards
    refine .settled (fun id timer found => ?_) next rfl balance
    obtain ⟨own, kept, _⟩ := left id timer found
    exact ⟨own, kept⟩

theorem call_effect (sound : s.timers.Sound) (request : Request) :
    CallEffect s.timers (call s request).1.timers (call s request).2 := by
  cases request with
  | startOneShot owner deadlineTick => exact startOneShot_effect sound owner deadlineTick
  | startInterval owner firstDeadlineTick intervalTicks =>
    exact startInterval_effect sound owner firstDeadlineTick intervalTicks
  | startReceiveTimeout owner nowTick timeoutTicks =>
    exact startReceiveTimeout_effect sound owner nowTick timeoutTicks
  | cancel timerId => exact cancel_effect sound timerId
  | cancelWithToken token => exact cancelWithToken_effect sound token
  | cancelOwnerTimers owner => exact cancelOwnerTimers_effect sound owner
  | advanceClock nowTick => exact advanceClock_effect sound nowTick
  | borrow scheduling => exact .unchanged sound rfl rfl rfl rfl

/-! ## Runs -/

/-- The ids count up from one, and each started timer is active or has ended, once. -/
structure Balance (timers : VmTimerTable) (history : History) : Prop where
  sound : timers.Sound
  allocated : timers.nextTimerId.toNat = (startedIds history).length
  numbered : ∀ k id, (startedIds history)[k]? = some id → id.value.toNat = k + 1
  balance : ∀ id, (startedIds history).count id =
    active timers.timers id + (endedIds history).count id

theorem startedIds_snoc (history : History) (entry : Request × Reply) :
    startedIds (history ++ [entry]) = startedIds history ++ entry.2.startedIds := by
  simp [startedIds]

theorem endedIds_snoc (history : History) (entry : Request × Reply) :
    endedIds (history ++ [entry]) = endedIds history ++ entry.2.endedIds := by
  simp [endedIds]

variable {history : History}

theorem Balance.distinct {timers : VmTimerTable} (h : Balance timers history) :
    (startedIds history).Nodup := by
  rw [nodup_iff_getElem?_ne_getElem?]
  intro i j before inside same
  have found : (startedIds history)[j]? = some (startedIds history)[j] :=
    getElem?_eq_getElem inside
  have second := h.numbered j _ found
  rw [found] at same
  have first := h.numbered i _ same
  omega

/-- One call keeps the balance as long as ids are left. -/
theorem call_balance (h : Balance s.timers history) (request : Request)
    (few : (startedIds (history ++ [(request, (call s request).2)])).length < 2 ^ 64) :
    Balance (call s request).1.timers (history ++ [(request, (call s request).2)]) := by
  have effect := call_effect h.sound request
  have settled := effect.keeps_sound h.sound
  generalize (call s request).2 = reply at effect few ⊢
  rw [startedIds_snoc, length_append] at few
  cases effect with
  | @started timer sound id next timers =>
    have few : (startedIds history).length + 1 < 2 ^ 64 := few
    have value : (saturatingAdd s.timers.nextTimerId 1).toNat =
        (startedIds history).length + 1 := by
      rw [saturatingAdd_toNat, h.allocated]
      have one : (1 : UInt64).toNat = 1 := rfl
      unfold u64Max
      omega
    have fresh : timer.id ∉ startedIds history := by
      intro mem
      obtain ⟨k, inside, same⟩ := mem_iff_getElem.mp mem
      have number := h.numbered k _ (getElem?_eq_getElem inside)
      rw [same, id, value] at number
      omega
    have absent : active s.timers.timers timer.id = 0 := by
      have := h.balance timer.id
      rw [count_eq_zero.mpr fresh] at this
      omega
    refine ⟨settled, ?_, fun k other found => ?_, fun other => ?_⟩
    · rw [next, value, startedIds_snoc, length_append]
      rfl
    · rw [startedIds_snoc, getElem?_append] at found
      split at found
      next => exact h.numbered k other found
      next past =>
        have found : [timer.id][k - (startedIds history).length]? = some other := found
        have bound := (List.getElem?_eq_some_iff.mp found).1
        have first : k - (startedIds history).length = 0 := by simpa using bound
        rw [first] at found
        cases found
        rw [id, value]
        omega
    · rw [startedIds_snoc, endedIds_snoc, count_append, count_append, h.balance, timers]
      change _ + [timer.id].count other = _ + (_ + [].count other)
      by_cases own : timer.id = other
      · subst own
        rw [active_of_some (getElem?_insert_self_eq _ _ _), absent]
        simp
        omega
      · rw [active_congr (getElem?_insert_of_ne _ _ own), count_cons_of_ne own]
        simp
  | settled sound next none balance =>
    refine ⟨sound, ?_, ?_, fun id => ?_⟩
    · rw [next, startedIds_snoc, none, append_nil]
      exact h.allocated
    · rw [startedIds_snoc, none, append_nil]
      exact h.numbered
    · rw [startedIds_snoc, none, append_nil, endedIds_snoc, count_append, h.balance,
        balance id, Nat.add_assoc, Nat.add_comm (reply.endedIds.count id)]

/-- The rules of a state and of the history that led to it. -/
structure TimerRules (s : Timing) (history : History) : Prop where
  remaining : ∀ nowTick, ¬ Backwards s.timers nowTick → ∀ (id : VmTimerId) (timer : VmTimer),
    (advanceClock s nowTick).1.timers.timers[id]? = some timer → nowTick < timer.deadlineTick
  oneEvent : ∀ nowTick, ¬ Backwards s.timers nowTick → ∀ (id : VmTimerId) (timer : VmTimer),
    s.timers.timers[id]? = some timer → timer.deadlineTick ≤ nowTick →
      (advanceClock s nowTick).2.countP (·.timerId = id) = 1
  distinct : (startedIds history).Nodup
  conserved : (startedIds history).Perm (activeIds s.timers ++ endedIds history)
  backwards : ∀ nowTick, Backwards s.timers nowTick → ∃ drift, advanceClock s nowTick =
    ({ s with
        timers :=
          { s.timers with
            metrics :=
              { s.timers.metrics with
                clockDriftRejections :=
                  s.timers.metrics.clockDriftRejections ++ [drift] } } }, [])

theorem count_activeIds (timers : VmTimerTable) (id : VmTimerId) :
    (activeIds timers).count id = active timers.timers id := by
  have keys : (activeIds timers).Nodup := ExtTreeMap.nodup_keys
  unfold active
  rw [List.Nodup.count keys]
  simp only [activeIds, ExtTreeMap.mem_keys, ExtTreeMap.contains_iff_mem]

theorem Balance.rules (h : Balance s.timers history) :
    TimerRules s history where
  remaining nowTick forward id timer found :=
    ((advanceClock_spec h.sound forward).1 id timer found).2.2
  oneEvent nowTick forward id timer found due := by
    obtain ⟨_, names, _⟩ := advanceClock_spec h.sound forward
    obtain ⟨rfl, _⟩ := h.sound id timer found
    have one : ((dueTimers s.timers nowTick).map (·.id)).count timer.id = 1 :=
      nodup_iff_count_eq_one.mp (selected_ids_nodup h.sound _) _
        (mem_map.mpr ⟨timer, (mem_dueTimers_iff h.sound).mpr ⟨found, due⟩, rfl⟩)
    rw [← names, List.count, countP_map] at one
    rw [← one]
    exact countP_congr fun event _ => by simp
  distinct := h.distinct
  conserved := by
    rw [perm_iff_count]
    intro id
    rw [count_append, count_activeIds, h.balance]
  backwards nowTick := advanceClock_backwards

theorem startedIds_mono (history later : History) :
    (startedIds history).length ≤ (startedIds (history ++ later)).length := by
  unfold startedIds
  rw [flatMap_append, length_append]
  omega

/-- The rules hold in every state of every run that starts fewer than `2 ^ 64` timers. -/
theorem timer_run (scheduling : Scheduling) (requests : List Request)
    (few : (startedIds (replay call ⟨.new, scheduling⟩ requests).2).length < 2 ^ 64) :
    TimerRules (replay call ⟨.new, scheduling⟩ requests).1
      (replay call ⟨.new, scheduling⟩ requests).2 := by
  refine Balance.rules (replay_invariant call
    (fun s history => (startedIds history).length < 2 ^ 64 → Balance s.timers history) ?_
    ⟨.new, scheduling⟩ [] requests (fun _ => ?_) few)
  · intro s history request h few
    exact call_balance (h (Nat.lt_of_le_of_lt (startedIds_mono history _) few)) request few
  · refine ⟨fun id timer found => ?_, rfl, fun k id found => ?_, fun id => ?_⟩
    · have empty : (∅ : ExtTreeMap VmTimerId VmTimer)[id]? = none := ExtTreeMap.getElem?_empty
      have found : (∅ : ExtTreeMap VmTimerId VmTimer)[id]? = some timer := found
      rw [empty] at found
      cases found
    · cases found
    · have none : active (∅ : ExtTreeMap VmTimerId VmTimer) id = 0 :=
        active_of_none ExtTreeMap.getElem?_empty
      exact none.symm

/-- A scheduler and a process table with one process. -/
def oneProcess : Scheduling := start (.new 100 64) 1 Scheduler.oneProcess

/-- A one-shot timer, an interval that fires late, and a receive timeout that is cancelled. -/
def mixedRun : List Request :=
  [.startOneShot ⟨1⟩ 5, .startInterval ⟨1⟩ 4 10, .startReceiveTimeout ⟨1⟩ 0 9, .advanceClock 7,
    .cancel ⟨3⟩, .advanceClock 6]

theorem timer_run_mixed : TimerRules (replay call ⟨.new, oneProcess⟩ mixedRun).1
      (replay call ⟨.new, oneProcess⟩ mixedRun).2 :=
  timer_run oneProcess mixedRun (by decide +kernel)

/-! ### A run that uses up the ids -/

/-- The id of a start after a number of others. -/
def idAfter (earlier : Nat) : VmTimerId := ⟨UInt64.ofNat (min (earlier + 1) u64Max)⟩

theorem startOneShot_live (timers : VmTimerTable) (deadlineTick : UInt64) :
    call ⟨timers, oneProcess⟩ (.startOneShot ⟨1⟩ deadlineTick) =
      (⟨(timers.insertTimer ⟨1⟩ deadlineTick .oneShot none).1, oneProcess⟩,
        .started ⟨saturatingAdd timers.nextTimerId 1⟩) := by
  have live : requireLiveProcess oneProcess.processes ⟨1⟩ = .ok () := by decide +kernel
  have check : (requireLive ⟨1⟩).call ⟨timers, oneProcess⟩ = (⟨timers, oneProcess⟩, .ok ()) := by
    change ((⟨timers, oneProcess⟩ : Timing),
      (requireLiveProcess oneProcess.processes ⟨1⟩).mapError Fault.returned) = _
    rw [live]
    rfl
  have run : (startOneShot ⟨1⟩ deadlineTick).call ⟨timers, oneProcess⟩ =
      (⟨(timers.insertTimer ⟨1⟩ deadlineTick .oneShot none).1, oneProcess⟩,
        .ok ⟨saturatingAdd timers.nextTimerId 1⟩) := by
    unfold startOneShot
    rw [call_bind, check]
    rfl
  rw [Timer.call, startReply, run]

theorem repeated_starts (deadlineTick : UInt64) (n : Nat) :
    (replay call ⟨.new, oneProcess⟩ (List.replicate n (.startOneShot ⟨1⟩ deadlineTick))).1.scheduling
        = oneProcess ∧ (replay call ⟨.new, oneProcess⟩
        (List.replicate n (.startOneShot ⟨1⟩ deadlineTick))).1.timers.nextTimerId.toNat
          = min n u64Max ∧ startedIds (replay call ⟨.new, oneProcess⟩
        (List.replicate n (.startOneShot ⟨1⟩ deadlineTick))).2 = (List.range n).map idAfter ∧
      endedIds (replay call ⟨.new, oneProcess⟩
        (List.replicate n (.startOneShot ⟨1⟩ deadlineTick))).2 = [] := by
  induction n with
  | zero => exact ⟨rfl, rfl, rfl, rfl⟩
  | succ n ih =>
    obtain ⟨scheduling, next, started, ended⟩ := ih
    rw [replicate_succ', replay_append_fst, replay_append_snd]
    rcases run : replay call ⟨.new, oneProcess⟩
      (List.replicate n (.startOneShot ⟨1⟩ deadlineTick)) with ⟨⟨timers, scheduling'⟩, history⟩
    rw [run] at scheduling next started ended
    dsimp only at scheduling next
    subst scheduling
    have value : (saturatingAdd timers.nextTimerId 1).toNat = min (n + 1) u64Max := by
      rw [saturatingAdd_toNat, next]
      have one : (1 : UInt64).toNat = 1 := rfl
      unfold u64Max
      omega
    have id : (⟨saturatingAdd timers.nextTimerId 1⟩ : VmTimerId) = idAfter n := by
      unfold idAfter
      rw [← value, UInt64.ofNat_toNat]
    rw [replay_cons_fst, replay_cons_snd, replay_nil, startOneShot_live]
    dsimp only at started ended ⊢
    refine ⟨rfl, value, ?_, ?_⟩
    · rw [startedIds_snoc, started, id, range_succ, map_append]
      rfl
    · rw [endedIds_snoc, ended]
      rfl

/-- The last two of `2 ^ 64` timers have one id: the first of them never ends. -/
theorem timer_run_fails : ¬ ∀ (scheduling : Scheduling) (requests : List Request),
    TimerRules (replay call ⟨.new, scheduling⟩ requests).1
      (replay call ⟨.new, scheduling⟩ requests).2 := by
  intro every
  obtain ⟨n, size⟩ : ∃ n, n = u64Max := ⟨_, rfl⟩
  have rules := every oneProcess (List.replicate (n + 1) (.startOneShot ⟨1⟩ 5))
  obtain ⟨_, _, started, ended⟩ := repeated_starts 5 (n + 1)
  have conserved := rules.conserved
  rw [started, ended, append_nil] at conserved
  have active : (activeIds (replay call ⟨.new, oneProcess⟩
      (List.replicate (n + 1) (.startOneShot ⟨1⟩ 5))).1.timers).Nodup := ExtTreeMap.nodup_keys
  have distinct := conserved.nodup_iff.mpr active
  have positive : 1 ≤ n := by rw [size]; decide
  have same : idAfter (n - 1) = idAfter n := by
    unfold idAfter
    congr 2
    omega
  have equal := inj_on_of_nodup_map distinct
    (mem_range.mpr (show n - 1 < n + 1 by omega)) (mem_range.mpr (Nat.lt_succ_self n)) same
  omega

end Terlan.Timer
