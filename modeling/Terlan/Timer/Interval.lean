/-
  How many ticks an interval timer reports.

  * `fireTimer_interval`: a due interval is armed for the first of its multiples behind the
    clock, and reports as many ticks as it passes; where that multiple does not fit, it
    overflows.
  * `Armed`: after `n` ticks the deadline is the multiple `n`, and those before it have passed.
  * `interval_accounting`: after an accepted advance the ticks are the multiples up to the clock.
-/
import Mathlib.Order.Interval.Set.Nat
import Terlan.Process.TableSpec
import Terlan.Timer

namespace Terlan.Timer

open Terlan.Lib Terlan.ActorDirectory Terlan.Process Terlan.Scheduler List
open Std (ExtTreeMap)
open VmTimerTable
open VmProcessTable (mutateProcess markActorQueued)

/-! ## Ticks -/

/-- The ticks of a timer that an event reports. -/
def ticksOf (id : VmTimerId) : VmTimerEvent → Nat
  | .fired timerId _ _ => if timerId = id then 1 else 0
  | .deadlineMissed timerId _ _ _ => if timerId = id then 1 else 0
  | .coalesced timerId _ _ skipped _ => if timerId = id then skipped.toNat + 1 else 0
  | _ => 0

def ticks (id : VmTimerId) : List VmTimerEvent → Nat
  | [] => 0
  | event :: events => ticksOf id event + ticks id events

def Reply.emitted : Reply → List VmTimerEvent
  | .events emitted => emitted
  | _ => []

/-- The events of a history, oldest first. -/
def emitted (history : History) : List VmTimerEvent := history.flatMap (·.2.emitted)

/-- The event says that the next deadline of a timer does not fit. -/
def IsOverflow (id : VmTimerId) (event : VmTimerEvent) : Prop :=
  ∃ owner kind, event = .overflow id owner kind

theorem ticks_append (id : VmTimerId) (events more : List VmTimerEvent) :
    ticks id (events ++ more) = ticks id events + ticks id more := by
  induction events with
  | nil => exact (Nat.zero_add _).symm
  | cons event events ih => rw [cons_append, ticks, ticks, ih, Nat.add_assoc]

theorem ticksOf_other {id : VmTimerId} {event : VmTimerEvent} (other : event.timerId ≠ id) :
    ticksOf id event = 0 := by
  cases event with
  | fired | deadlineMissed | coalesced => exact if_neg other
  | overflow | cancelled | ownerExited => rfl

theorem ticks_others {id : VmTimerId} {events : List VmTimerEvent}
    (others : id ∉ events.map (·.timerId)) : ticks id events = 0 := by
  induction events with
  | nil => rfl
  | cons event events ih =>
    rw [map_cons, mem_cons, not_or] at others
    rw [ticks, ticksOf_other fun same => others.1 same.symm, ih others.2]

theorem not_overflow_of_others {id : VmTimerId} {events : List VmTimerEvent}
    (others : id ∉ events.map (·.timerId)) : ∀ event ∈ events, ¬ IsOverflow id event := by
  rintro event mem ⟨owner, kind, rfl⟩
  exact others (mem_map.mpr ⟨_, mem, rfl⟩)

/-! ## A due interval -/

/-- The multiple of the interval behind the clock. -/
def nextMultiple (deadlineTick intervalTicks nowTick : Nat) : Nat :=
  deadlineTick + ((nowTick - deadlineTick) / intervalTicks + 1) * intervalTicks

theorem toNat_ofNat_of_le {value : Nat} {word : UInt64} (le : value ≤ word.toNat) :
    (UInt64.ofNat value).toNat = value := by
  have bound := word.toNat_lt
  rw [UInt64.toNat_ofNat', Nat.mod_eq_of_lt (by omega)]

theorem nextDeadline_eq_some_iff {deadlineTick intervalTicks nowTick next : UInt64}
    (due : deadlineTick ≤ nowTick) (positive : intervalTicks ≠ 0) :
    nextDeadline deadlineTick intervalTicks nowTick = some next ↔
      next.toNat = nextMultiple deadlineTick.toNat intervalTicks.toNat nowTick.toNat := by
  have quotient : ((nowTick - deadlineTick) / intervalTicks).toNat =
      (nowTick.toNat - deadlineTick.toNat) / intervalTicks.toNat := by
    rw [UInt64.toNat_div, UInt64.toNat_sub_of_le _ _ due]
  have one : (1 : UInt64).toNat = 1 := rfl
  unfold nextDeadline nextMultiple
  rw [← quotient]
  generalize (nowTick - deadlineTick) / intervalTicks = skipped
  rw [Option.bind_eq_bind, Option.bind_eq_some_iff]
  constructor
  · rintro ⟨count, step, run⟩
    obtain ⟨offset, product, sum⟩ := Option.bind_eq_some_iff.mp run
    rw [checkedAdd_eq_some_iff] at step sum
    rw [checkedMul_eq_some_iff] at product
    rw [sum, product, step, one, Nat.mul_comm]
  · intro fits
    have width : 1 ≤ intervalTicks.toNat := Nat.one_le_iff_ne_zero.mpr fun zero =>
      positive (UInt64.toNat_inj.mp zero)
    have product : (skipped.toNat + 1) * intervalTicks.toNat ≤ next.toNat := by omega
    have count : skipped.toNat + 1 ≤ next.toNat :=
      (Nat.le_mul_of_pos_right _ width).trans product
    refine ⟨UInt64.ofNat (skipped.toNat + 1), checkedAdd_eq_some_iff.mpr ?_,
      Option.bind_eq_some_iff.mpr ⟨UInt64.ofNat ((skipped.toNat + 1) * intervalTicks.toNat),
        checkedMul_eq_some_iff.mpr ?_, checkedAdd_eq_some_iff.mpr ?_⟩⟩
    · rw [toNat_ofNat_of_le count, one]
    · rw [toNat_ofNat_of_le product, toNat_ofNat_of_le count, Nat.mul_comm]
    · rw [toNat_ofNat_of_le product]
      exact fits

/-- What the clock does with a due interval whose owner is live. -/
structure Passed (nowTick : UInt64) (timer : VmTimer) (intervalTicks : UInt64)
    (left : Option VmTimer) (events : List VmTimerEvent) : Prop where
  armed : ∀ next : UInt64,
    next.toNat = nextMultiple timer.deadlineTick.toNat intervalTicks.toNat nowTick.toNat →
      left = some { timer with deadlineTick := next } ∧
        ticks timer.id events =
          (nowTick.toNat - timer.deadlineTick.toNat) / intervalTicks.toNat + 1 ∧
        ∀ event ∈ events, ¬ IsOverflow timer.id event
  full : u64Max < nextMultiple timer.deadlineTick.toNat intervalTicks.toNat nowTick.toNat →
    ∃ event ∈ events, IsOverflow timer.id event

theorem exists_word_iff {value : Nat} :
    (∃ word : UInt64, word.toNat = value) ↔ ¬ u64Max < value := by
  constructor
  · rintro ⟨word, rfl⟩
    have := word.toNat_lt
    unfold u64Max
    omega
  · intro small
    refine ⟨UInt64.ofNat value, ?_⟩
    unfold u64Max at small
    rw [UInt64.toNat_ofNat', Nat.mod_eq_of_lt (by omega)]

theorem Passed.of_armed {nowTick : UInt64} {timer : VmTimer} {intervalTicks next : UInt64}
    {left : Option VmTimer} {event : VmTimerEvent} (multiple : next.toNat =
      nextMultiple timer.deadlineTick.toNat intervalTicks.toNat nowTick.toNat)
    (armed : left = some { timer with deadlineTick := next })
    (counted : ticksOf timer.id event =
      (nowTick.toNat - timer.deadlineTick.toNat) / intervalTicks.toNat + 1) :
    Passed nowTick timer intervalTicks left [event] where
  armed other same := by
    rw [← multiple, UInt64.toNat_inj] at same
    refine ⟨by rw [armed, same], counted, fun event' mem => ?_⟩
    rintro ⟨owner, kind, rfl⟩
    rw [← mem_singleton.mp mem] at counted
    exact absurd counted (by simp [ticksOf])
  full big := absurd big (exists_word_iff.mp ⟨next, multiple⟩)

theorem Passed.of_full {nowTick : UInt64} {timer : VmTimer} {intervalTicks : UInt64}
    {left : Option VmTimer} (none_ : ∀ next : UInt64, ¬ next.toNat =
      nextMultiple timer.deadlineTick.toNat intervalTicks.toNat nowTick.toNat) :
    Passed nowTick timer intervalTicks left
      [.overflow timer.id timer.owner timer.kind] where
  armed next multiple := absurd multiple (none_ next)
  full _ := ⟨_, mem_singleton_self _, timer.owner, timer.kind, rfl⟩

/-- A due interval that is late by less than one interval goes on by one. -/
theorem rescheduleInterval_passed {nowTick : UInt64} {timers : VmTimerTable} {timer : VmTimer}
    {intervalTicks : UInt64} (every : timer.intervalTicks = some intervalTicks)
    (soon : (nowTick.toNat - timer.deadlineTick.toNat) / intervalTicks.toNat = 0)
    {event : VmTimerEvent} (one : ticksOf timer.id event = 1) :
    Passed nowTick timer intervalTicks (timers.rescheduleInterval timer).1.timers[timer.id]?
      [((timers.rescheduleInterval timer).2).getD event] := by
  have multiple : nextMultiple timer.deadlineTick.toNat intervalTicks.toNat nowTick.toNat =
      timer.deadlineTick.toNat + intervalTicks.toNat := by
    rw [nextMultiple, soon, Nat.zero_add, Nat.one_mul]
  obtain ⟨id, owner, deadlineTick, kind, _⟩ := timer
  obtain rfl := every
  unfold rescheduleInterval
  dsimp only at soon multiple ⊢
  cases sum : checkedAdd deadlineTick intervalTicks with
  | none =>
    refine .of_full fun next same => ?_
    rw [multiple, ← checkedAdd_eq_some_iff, sum] at same
    cases same
  | some next =>
    dsimp only
    refine .of_armed (multiple ▸ checkedAdd_eq_some_iff.mp sum)
      (getElem?_insert_self_eq _ _ _) ?_
    dsimp only
    rw [soon]
    exact one

section Late

variable (self : VmTimerTable) {timer : VmTimer} {nowTick intervalTicks : UInt64}

theorem coalesceLateInterval_soon (every : timer.intervalTicks = some intervalTicks)
    (soon : (nowTick - timer.deadlineTick) / intervalTicks = 0) :
    self.coalesceLateInterval timer nowTick = (self, none) := by
  unfold coalesceLateInterval
  split
  · rfl
  rw [every]
  exact if_pos soon

theorem coalesceLateInterval_overflow (interval : timer.kind = .interval)
    (late : ¬ nowTick ≤ timer.deadlineTick) (every : timer.intervalTicks = some intervalTicks)
    (skipped : (nowTick - timer.deadlineTick) / intervalTicks ≠ 0)
    (next : nextDeadline timer.deadlineTick intervalTicks nowTick = none) :
    self.coalesceLateInterval timer nowTick =
      (self, some (.overflow timer.id timer.owner timer.kind)) := by
  unfold coalesceLateInterval
  rw [if_neg (by simp [interval, late]), every]
  dsimp only
  rw [if_neg skipped, next]

theorem coalesceLateInterval_skipped (interval : timer.kind = .interval)
    (late : ¬ nowTick ≤ timer.deadlineTick) (every : timer.intervalTicks = some intervalTicks)
    (skipped : (nowTick - timer.deadlineTick) / intervalTicks ≠ 0) {deadlineTick : UInt64}
    (next : nextDeadline timer.deadlineTick intervalTicks nowTick = some deadlineTick) :
    self.coalesceLateInterval timer nowTick =
      ({ self with timers := self.timers.insert timer.id { timer with deadlineTick } },
        some (.coalesced timer.id timer.owner timer.kind
          ((nowTick - timer.deadlineTick) / intervalTicks) deadlineTick)) := by
  unfold coalesceLateInterval
  rw [if_neg (by simp [interval, late]), every]
  dsimp only
  rw [if_neg skipped, next]

end Late

/-- The table without the timer that fires. -/
def takenOut (timers : VmTimerTable) (timer : VmTimer) : VmTimerTable :=
  { timers with timers := timers.timers.erase timer.id }

section Live

variable {nowTick : UInt64} {s : Timing} {timer : VmTimer}
  (live : timerOwnerExited s.scheduling.processes timer.owner = false) {timers : VmTimerTable}

include live

theorem fireTimer_coalesced {event : VmTimerEvent}
    (run : (takenOut s.timers timer).coalesceLateInterval timer nowTick = (timers, some event)) :
    fireTimer nowTick s timer = (⟨timers, s.scheduling⟩, event) := by
  unfold takenOut at run
  unfold fireTimer
  dsimp only
  rw [live, if_neg (by decide), run]

theorem fireTimer_rescheduled
    (run : (takenOut s.timers timer).coalesceLateInterval timer nowTick = (timers, none)) :
    ∃ scheduling, fireTimer nowTick s timer =
      (⟨(timers.rescheduleInterval timer).1, scheduling⟩,
        (timers.rescheduleInterval timer).2.getD
          (if timer.deadlineTick < nowTick then
            .deadlineMissed timer.id timer.owner timer.kind (nowTick - timer.deadlineTick)
          else .fired timer.id timer.owner timer.kind)) := by
  unfold takenOut at run
  unfold fireTimer
  dsimp only
  rw [live, if_neg (by decide), run]
  dsimp only
  rcases timers.rescheduleInterval timer with ⟨after, _ | overflow⟩
  · exact ⟨_, rfl⟩
  · exact ⟨_, rfl⟩

/-- A due interval of a live owner. -/
theorem fireTimer_interval {intervalTicks : UInt64} (interval : timer.kind = .interval)
    (every : timer.intervalTicks = some intervalTicks) (positive : intervalTicks ≠ 0)
    (due : timer.deadlineTick ≤ nowTick) :
    Passed nowTick timer intervalTicks (fireTimer nowTick s timer).1.timers.timers[timer.id]?
      [(fireTimer nowTick s timer).2] := by
  have quotient : ((nowTick - timer.deadlineTick) / intervalTicks).toNat =
      (nowTick.toNat - timer.deadlineTick.toNat) / intervalTicks.toNat := by
    rw [UInt64.toNat_div, UInt64.toNat_sub_of_le _ _ due]
  by_cases soon : (nowTick - timer.deadlineTick) / intervalTicks = 0
  · obtain ⟨scheduling, result⟩ :=
      fireTimer_rescheduled live (coalesceLateInterval_soon _ every soon)
    rw [result]
    refine rescheduleInterval_passed every (by rw [← quotient, soon]; rfl) ?_
    split
    · exact if_pos rfl
    · exact if_pos rfl
  · have late : ¬ nowTick ≤ timer.deadlineTick := by
      intro early
      refine soon ?_
      rw [UInt64.le_antisymm early due, UInt64.sub_self, UInt64.zero_div]
    cases next : nextDeadline timer.deadlineTick intervalTicks nowTick with
    | none =>
      rw [fireTimer_coalesced live
        (coalesceLateInterval_overflow _ interval late every soon next)]
      refine .of_full fun next' same => ?_
      rw [← nextDeadline_eq_some_iff due positive, next] at same
      cases same
    | some deadlineTick =>
      rw [fireTimer_coalesced live
        (coalesceLateInterval_skipped _ interval late every soon next)]
      refine .of_armed ((nextDeadline_eq_some_iff due positive).mp next)
        (getElem?_insert_self_eq _ _ _) ?_
      rw [← quotient]
      exact if_pos rfl

end Live

/-! ## Live owners -/

/-- The owner lives in a sound process table. -/
def Alive (owner : VmProcessId) (processes : VmProcessTable) : Prop :=
  processes.Sound ∧ timerOwnerExited processes owner = false

theorem alive_of_becomes {owner pid : VmProcessId} {before after : VmProcessTable}
    {actor actor' : VmActor} (alive : Alive owner before) (found : before.view pid = some actor)
    (becomes : before.Becomes pid actor' after)
    (same : actor'.value.state.isExited = actor.value.state.isExited) : Alive owner after := by
  refine ⟨becomes.sound, ?_⟩
  have lives := alive.2
  unfold timerOwnerExited at lives ⊢
  rw [becomes.get]
  by_cases own : owner = pid
  · rw [if_pos own]
    rw [own, VmProcessTable.get_eq_view, found] at lives
    exact same.trans lives
  · rw [if_neg own]
    exact lives

theorem alive_withProcessControlMutator {α : Type} {owner : VmProcessId}
    {processes : VmProcessTable} (alive : Alive owner processes) (pid : VmProcessId)
    {mutate : VmProcess → VmProcess × α}
    (keeps : ∀ process, (mutate process).1.state.isExited = process.state.isExited) :
    Alive owner ((VmProcessTable.withProcessControlMutator pid mutate).call processes).1 := by
  rcases alive.1.withProcessControlMutator_cases pid keeps with
    ⟨e, run, _⟩ | ⟨after, actor, run, found, _, becomes⟩
  · rw [run]
    exact alive
  · rw [run]
    exact alive_of_becomes alive found becomes (keeps actor.value)

theorem alive_mutateProcess {α : Type} {owner : VmProcessId} {processes : VmProcessTable}
    (alive : Alive owner processes) (pid : VmProcessId)
    {mutate : VmProcess → VmProcess × Except String α}
    (keeps : ∀ process, (mutate process).1.state.isExited = process.state.isExited) :
    Alive owner ((mutateProcess pid mutate).call processes).1 := by
  have after := alive_withProcessControlMutator alive pid keeps
  unfold mutateProcess
  rw [call_bind]
  rcases run : (VmProcessTable.withProcessControlMutator pid mutate).call processes with
    ⟨table, e | result⟩
  · rw [run] at after
    exact after
  · rw [run] at after
    exact after

theorem alive_markActorQueued {owner : VmProcessId} {processes : VmProcessTable}
    (alive : Alive owner processes) (pid : VmProcessId) :
    Alive owner ((markActorQueued pid).call processes).1 := by
  rcases alive.1.markActorQueued_cases pid with
    ⟨e, run⟩ | ⟨after, actor, run, found, _, becomes⟩
  · rw [run]
    exact alive
  · rw [run]
    exact alive_of_becomes alive found becomes rfl

/-- Waking a process ends none. -/
theorem alive_wakeProcess (owner pid : VmProcessId) :
    Keeps (fun s : Scheduling => Alive owner s.processes) (wakeProcess pid) := by
  refine keeps_bind (keeps_get_bind fun _ => keeps_bind (keeps_lift _) fun _ => ?_) fun _ =>
    leads_ite (fun _ => keeps_pure _) fun _ => keeps_bind ?_ fun _ => ?_
  · refine leads_within fun s alive => alive_mutateProcess alive pid fun process => ?_
    cases state : process.state with
    | runnable | blocked | hibernated | suspended =>
      exact (VmProcessTable.wake_isExited process).trans (by rw [state])
    | exited => exact congrArg VmProcessState.isExited state
  · exact leads_within fun s alive => alive_markActorQueued alive pid
  · exact leads_modify fun _ alive => alive

theorem alive_fireTimer {nowTick : UInt64} {s : Timing} {owner : VmProcessId}
    (alive : Alive owner s.scheduling.processes) (timer : VmTimer) :
    Alive owner (fireTimer nowTick s timer).1.scheduling.processes := by
  have woken : Alive owner (wakeReceiver s.scheduling timer).processes := by
    unfold wakeReceiver
    split
    · exact alive_wakeProcess owner timer.owner s.scheduling alive
    · exact alive
  unfold fireTimer
  dsimp only
  split
  · exact alive
  split
  · exact alive
  · split
    · exact woken
    · exact woken

/-! ## The due timers -/

theorem IsOverflow.timerId {id : VmTimerId} {event : VmTimerEvent} (h : IsOverflow id event) :
    event.timerId = id := by
  obtain ⟨owner, kind, rfl⟩ := h
  rfl

/-- Events of other timers tell nothing of an interval. -/
theorem Passed.congr {nowTick intervalTicks : UInt64} {timer : VmTimer} {left : Option VmTimer}
    {events events' : List VmTimerEvent} (h : Passed nowTick timer intervalTicks left events)
    (same : ticks timer.id events' = ticks timer.id events)
    (own : ∀ event, IsOverflow timer.id event → (event ∈ events' ↔ event ∈ events)) :
    Passed nowTick timer intervalTicks left events' where
  armed next multiple := by
    obtain ⟨left, counted, none⟩ := h.armed next multiple
    exact ⟨left, same.trans counted, fun event mem overflow =>
      none event ((own event overflow).mp mem) overflow⟩
  full big := by
    obtain ⟨event, mem, overflow⟩ := h.full big
    exact ⟨event, (own event overflow).mpr mem, overflow⟩

/-- The loop passes a due interval once; the timers around it have other ids. -/
theorem fireTimers_interval {nowTick intervalTicks : UInt64} {timer : VmTimer}
    (interval : timer.kind = .interval) (every : timer.intervalTicks = some intervalTicks)
    (positive : intervalTicks ≠ 0) (late : timer.deadlineTick ≤ nowTick) {due : List VmTimer}
    {s : Timing} (sound : ∀ timer ∈ due, timer.Sound) (distinct : (due.map (·.id)).Nodup)
    (mem : timer ∈ due) (alive : Alive timer.owner s.scheduling.processes) :
    Passed nowTick timer intervalTicks
      (fireTimers nowTick s due).1.timers.timers[timer.id]? (fireTimers nowTick s due).2 := by
  induction due generalizing s with
  | nil => cases mem
  | cons head due ih =>
    obtain ⟨fresh, apart⟩ := nodup_cons.mp distinct
    have rest : ∀ timer ∈ due, timer.Sound := fun timer mem =>
      sound timer (mem_cons_of_mem _ mem)
    unfold fireTimers
    dsimp only
    rcases mem_cons.mp mem with rfl | mem
    · obtain ⟨names, kept, _⟩ :=
        @fireTimers_spec nowTick due (fireTimer nowTick s timer).1 rest apart
      rw [kept _ fresh]
      rw [← names] at fresh
      refine (fireTimer_interval alive.2 interval every positive late).congr ?_ fun event own => ?_
      · rw [ticks, ticks_others fresh]
        rfl
      · rw [mem_cons, mem_singleton, or_iff_left]
        exact fun mem => not_overflow_of_others fresh event mem own
    · obtain ⟨settled, _⟩ := fireTimer_spec nowTick s (sound head mem_cons_self)
      obtain ⟨named, _⟩ := settled.lookup (sound head mem_cons_self)
      have other : (fireTimer nowTick s head).2.timerId ≠ timer.id := by
        rw [named]
        intro same
        exact fresh (mem_map.mpr ⟨timer, mem, same.symm⟩)
      refine (ih rest apart mem (alive_fireTimer alive head)).congr ?_ fun event own => ?_
      · rw [ticks, ticksOf_other other, Nat.zero_add]
      · rw [mem_cons, or_iff_right]
        rintro rfl
        exact other own.timerId

/-! ## An advance of the clock -/

@[simp] theorem recordEvents_lastClockTick (self : VmTimerTable) (events : List VmTimerEvent) :
    (self.recordEvents events).lastClockTick = self.lastClockTick := by
  unfold recordEvents
  induction events generalizing self with
  | nil => rfl
  | cons event events ih => rw [foldl_cons, ih]; rfl

theorem dueTimers_sound {self : VmTimerTable} (sound : self.Sound) (nowTick : UInt64) :
    ∀ timer ∈ dueTimers self nowTick, timer.Sound := fun timer mem =>
  (sound _ timer ((mem_dueTimers_iff sound).mp mem).1).2

theorem advanceClock_lastClockTick {s : Timing} {nowTick : UInt64} (sound : s.timers.Sound)
    (forward : ¬ Backwards s.timers nowTick) :
    (advanceClock s nowTick).1.timers.lastClockTick = some nowTick := by
  obtain ⟨_, _, _, _, clock⟩ := fireTimers_spec (dueTimers s.timers nowTick)
    ⟨setClock s.timers nowTick, s.scheduling⟩ (dueTimers_sound sound nowTick)
    (selected_ids_nodup sound _)
  unfold advanceClock
  rw [if_neg forward]
  dsimp only
  rw [recordEvents_lastClockTick]
  exact clock.2

section Advance

variable {id : VmTimerId} {owner : VmProcessId} {deadlineTick period : UInt64} {s : Timing}
  {nowTick : UInt64}

theorem advanceClock_early (sound : s.timers.Sound) (forward : ¬ Backwards s.timers nowTick)
    (found : s.timers.timers[id]? = some ⟨id, owner, deadlineTick, .interval, some period⟩)
    (early : nowTick < deadlineTick) : (advanceClock s nowTick).1.timers.timers[id]? =
        some ⟨id, owner, deadlineTick, .interval, some period⟩ ∧
      id ∉ (advanceClock s nowTick).2.map (·.timerId) := by
  obtain ⟨names, kept, _⟩ := fireTimers_spec (dueTimers s.timers nowTick)
    ⟨setClock s.timers nowTick, s.scheduling⟩ (dueTimers_sound sound nowTick)
    (selected_ids_nodup sound _)
  have out : id ∉ (dueTimers s.timers nowTick).map (·.id) := by
    intro mem
    obtain ⟨other, due, same⟩ := mem_map.mp mem
    obtain ⟨own, late⟩ := (mem_dueTimers_iff sound).mp due
    rw [same, found] at own
    cases own
    exact UInt64.not_le.mpr early late
  unfold advanceClock
  rw [if_neg forward]
  dsimp only
  rw [recordEvents_timers, kept _ out, names]
  exact ⟨found, out⟩

theorem advanceClock_passed (sound : s.timers.Sound) (forward : ¬ Backwards s.timers nowTick)
    (found : s.timers.timers[id]? = some ⟨id, owner, deadlineTick, .interval, some period⟩)
    (positive : period ≠ 0) (late : deadlineTick ≤ nowTick)
    (alive : Alive owner s.scheduling.processes) :
    Passed nowTick ⟨id, owner, deadlineTick, .interval, some period⟩ period
      (advanceClock s nowTick).1.timers.timers[id]? (advanceClock s nowTick).2 := by
  have passed := @fireTimers_interval nowTick period
    ⟨id, owner, deadlineTick, .interval, some period⟩ rfl rfl positive late _
    ⟨setClock s.timers nowTick, s.scheduling⟩ (dueTimers_sound sound nowTick)
    (selected_ids_nodup sound _) ((mem_dueTimers_iff sound).mpr ⟨found, late⟩) alive
  unfold advanceClock
  rw [if_neg forward]
  dsimp only
  rw [recordEvents_timers]
  exact passed

end Advance

/-! ## The schedule -/

/-- The interval has ticked `n` times: the multiples before the deadline have passed. -/
structure Armed (id : VmTimerId) (owner : VmProcessId) (first period : UInt64) (n : Nat)
    (timers : VmTimerTable) : Prop where
  sound : timers.Sound
  armed : ∃ deadlineTick : UInt64, deadlineTick.toNat = first.toNat + n * period.toNat ∧
    timers.timers[id]? = some ⟨id, owner, deadlineTick, .interval, some period⟩
  passed : ∀ i < n, first.toNat + i * period.toNat ≤ timers.currentTick.toNat

section Schedule

variable {id : VmTimerId} {owner : VmProcessId} {first period : UInt64} {n : Nat}

theorem Armed.positive {timers : VmTimerTable} (h : Armed id owner first period n timers) :
    period ≠ 0 := by
  obtain ⟨deadlineTick, _, found⟩ := h.armed
  obtain ⟨period', same, positive⟩ := (h.sound _ _ found).2.interval rfl
  cases same
  exact positive

theorem Armed.kept {before after : VmTimerTable} (h : Armed id owner first period n before)
    (sound : after.Sound) (same : after.timers[id]? = before.timers[id]?)
    (clock : after.lastClockTick = before.lastClockTick) :
    Armed id owner first period n after where
  sound := sound
  armed := by
    rw [same]
    exact h.armed
  passed := by
    unfold currentTick
    rw [clock]
    exact h.passed

theorem currentTick_le {timers : VmTimerTable} {nowTick : UInt64}
    (forward : ¬ Backwards timers nowTick) : timers.currentTick.toNat ≤ nowTick.toNat := by
  unfold currentTick
  cases clock : timers.lastClockTick with
  | none => exact Nat.zero_le _
  | some previousTick =>
    exact UInt64.le_iff_toNat_le.mp (UInt64.not_lt.mp fun earlier =>
      forward ⟨previousTick, clock, earlier⟩)

/-- An advance ticks for each multiple that it passes, and leaves the next one armed. -/
theorem Armed.advance {s : Timing} {nowTick : UInt64}
    (h : Armed id owner first period n s.timers) (forward : ¬ Backwards s.timers nowTick)
    (alive : Alive owner s.scheduling.processes)
    (fits : ∀ event ∈ (advanceClock s nowTick).2, ¬ IsOverflow id event) :
    Armed id owner first period (n + ticks id (advanceClock s nowTick).2)
        (advanceClock s nowTick).1.timers ∧
      nowTick.toNat < first.toNat + (n + ticks id (advanceClock s nowTick).2) * period.toNat := by
  obtain ⟨deadlineTick, multiple, found⟩ := h.armed
  have sound : (advanceClock s nowTick).1.timers.Sound :=
    (advanceClock_effect h.sound nowTick).keeps_sound h.sound
  have clock : (advanceClock s nowTick).1.timers.currentTick = nowTick := by
    unfold currentTick
    rw [advanceClock_lastClockTick h.sound forward]
    rfl
  have before := currentTick_le forward
  have width : 0 < period.toNat := Nat.pos_of_ne_zero fun zero =>
    h.positive (UInt64.toNat_inj.mp zero)
  by_cases late : deadlineTick ≤ nowTick
  · have passed := advanceClock_passed h.sound forward found h.positive late alive
    have reached := UInt64.le_iff_toNat_le.mp late
    by_cases full : u64Max < nextMultiple deadlineTick.toNat period.toNat nowTick.toNat
    · obtain ⟨event, mem, overflow⟩ := passed.full full
      exact absurd overflow (fits event mem)
    obtain ⟨next, same⟩ := exists_word_iff.mpr full
    obtain ⟨left, counted, _⟩ := passed.armed next same
    rw [counted]
    dsimp only at same left ⊢
    generalize quotient : (nowTick.toNat - deadlineTick.toNat) / period.toNat = skipped
    have floor : skipped * period.toNat ≤ nowTick.toNat - deadlineTick.toNat :=
      quotient ▸ Nat.div_mul_le_self _ _
    have ceiling : nowTick.toNat - deadlineTick.toNat < (skipped + 1) * period.toNat := by
      rw [← quotient, Nat.mul_comm]
      exact Nat.lt_mul_div_succ _ width
    rw [nextMultiple, quotient] at same
    have later : first.toNat + (n + (skipped + 1)) * period.toNat =
        deadlineTick.toNat + (skipped + 1) * period.toNat := by
      rw [multiple, Nat.add_mul, Nat.add_assoc]
    refine ⟨⟨sound, ⟨next, same.trans later.symm, left⟩, fun i less => ?_⟩, ?_⟩
    · rw [clock]
      have small : i * period.toNat ≤ (n + skipped) * period.toNat :=
        Nat.mul_le_mul_right _ (by omega)
      rw [Nat.add_mul] at small
      omega
    · rw [later]
      omega
  · have early := UInt64.not_le.mp late
    obtain ⟨kept, out⟩ := advanceClock_early h.sound forward found early
    rw [ticks_others out, Nat.add_zero, ← multiple]
    refine ⟨⟨sound, ⟨deadlineTick, multiple, kept⟩, fun i less => ?_⟩,
      UInt64.lt_iff_toNat_lt.mp early⟩
    rw [clock]
    exact (h.passed i less).trans before

/-- An overflow means that the first multiple behind the clock does not fit. -/
theorem Armed.overflow {s : Timing} {nowTick : UInt64}
    (h : Armed id owner first period n s.timers) (forward : ¬ Backwards s.timers nowTick)
    (alive : Alive owner s.scheduling.processes) {event : VmTimerEvent}
    (mem : event ∈ (advanceClock s nowTick).2) (overflow : IsOverflow id event) (i : Nat)
    (behind : nowTick.toNat < first.toNat + i * period.toNat) :
    u64Max < first.toNat + i * period.toNat := by
  obtain ⟨deadlineTick, multiple, found⟩ := h.armed
  by_cases late : deadlineTick ≤ nowTick
  · have passed := advanceClock_passed h.sound forward found h.positive late alive
    have full : u64Max < nextMultiple deadlineTick.toNat period.toNat nowTick.toNat := by
      by_contra fits
      obtain ⟨next, same⟩ := exists_word_iff.mpr fits
      obtain ⟨_, _, none⟩ := passed.armed next same
      exact none event mem overflow
    refine Nat.lt_of_lt_of_le full ?_
    have floor := Nat.div_mul_le_self (nowTick.toNat - deadlineTick.toNat) period.toNat
    have reached := UInt64.le_iff_toNat_le.mp late
    unfold nextMultiple
    generalize (nowTick.toNat - deadlineTick.toNat) / period.toNat = skipped at floor
    have above : n + skipped < i := by
      refine Nat.lt_of_mul_lt_mul_right (a := period.toNat) ?_
      rw [Nat.add_mul]
      omega
    have product : (n + (skipped + 1)) * period.toNat ≤ i * period.toNat :=
      Nat.mul_le_mul_right _ (by omega)
    rw [Nat.add_mul] at product
    omega
  · obtain ⟨_, out⟩ := advanceClock_early h.sound forward found (UInt64.not_le.mp late)
    exact absurd overflow (not_overflow_of_others out event mem)

end Schedule

/-! ## The other calls -/

/-- A start fails, or inserts one timer. -/
inductive Starts (before : VmTimerTable) : VmTimerTable → Prop where
  | refused : Starts before before
  | inserted (owner : VmProcessId) (deadlineTick : UInt64) (kind : VmTimerKind)
      (intervalTicks : Option UInt64) :
      Starts before (before.insertTimer owner deadlineTick kind intervalTicks).1

variable (before : VmTimerTable) (owner : VmProcessId)

theorem insert_starts (deadlineTick : UInt64) (kind : VmTimerKind) (intervalTicks : Option UInt64) :
    Leads (fun s : Timing => s.timers = before) (fun s => Starts before s.timers)
      (insert owner deadlineTick kind intervalTicks) := by
  intro s same
  subst same
  exact .inserted owner deadlineTick kind intervalTicks

theorem starts_bind {α : Type} {before : VmTimerTable} {first : Method (Fault String) Timing α}
    {start : α → Method (Fault String) Timing VmTimerId}
    (checks : Keeps (fun s : Timing => s.timers = before) first)
    (rest : ∀ a, Leads (fun s : Timing => s.timers = before) (fun s => Starts before s.timers)
      (start a)) : Leads (fun s : Timing => s.timers = before) (fun s => Starts before s.timers)
      (first >>= start) :=
  leads_bind checks (fun _ same => same ▸ .refused) rest

theorem requireLive_keeps : Keeps (fun s : Timing => s.timers = before) (requireLive owner) :=
  keeps_get_bind fun _ => keeps_lift _

theorem startOneShot_starts (deadlineTick : UInt64) :
    Leads (fun s : Timing => s.timers = before) (fun s => Starts before s.timers)
      (startOneShot owner deadlineTick) :=
  starts_bind (requireLive_keeps before owner) fun _ => insert_starts before _ _ _ _

theorem startInterval_starts (firstDeadlineTick intervalTicks : UInt64) :
    Leads (fun s : Timing => s.timers = before) (fun s => Starts before s.timers)
      (startInterval owner firstDeadlineTick intervalTicks) :=
  starts_bind (requireLive_keeps before owner) fun _ =>
    starts_bind (keeps_lift _) fun _ => insert_starts before _ _ _ _

theorem startReceiveTimeout_starts (nowTick timeoutTicks : UInt64) :
    Leads (fun s : Timing => s.timers = before) (fun s => Starts before s.timers)
      (startReceiveTimeout owner nowTick timeoutTicks) := by
  refine starts_bind (requireLive_keeps before owner) fun _ => ?_
  split
  next => exact fun s same => same ▸ .refused
  next =>
    exact starts_bind (leads_within fun _ same => same) fun _ => insert_starts before _ _ _ _

theorem startReply_fst (start : Method (Fault String) Timing VmTimerId) (s : Timing) :
    (startReply start s).1 = (start.call s).1 := by
  unfold startReply
  rcases start.call s with ⟨t, fault | id⟩
  · rfl
  · rfl

theorem startReply_emitted (start : Method (Fault String) Timing VmTimerId) (s : Timing) :
    (startReply start s).2.emitted = [] := by
  unfold startReply
  rcases start.call s with ⟨t, fault | id⟩
  · rfl
  · rfl

/-- The call leaves the timer to the clock, and the clock finds its owner alive. Only a start
behind `2 ^ 64 - 1` others could take its id over. -/
def Undisturbed (id : VmTimerId) (owner : VmProcessId) (s : Timing) : Request → Prop
  | .startOneShot _ _ => id.value ≠ saturatingAdd s.timers.nextTimerId 1
  | .startInterval _ _ _ => id.value ≠ saturatingAdd s.timers.nextTimerId 1
  | .startReceiveTimeout _ _ _ => id.value ≠ saturatingAdd s.timers.nextTimerId 1
  | .cancel timerId => timerId ≠ id
  | .cancelWithToken token => token ≠ ⟨id, owner⟩
  | .cancelOwnerTimers other => other ≠ owner
  | .advanceClock nowTick => ¬ Backwards s.timers nowTick → Alive owner s.scheduling.processes
  | .borrow _ => True

section Schedule

variable {id : VmTimerId} {owner : VmProcessId} {first period : UInt64} {n : Nat}

theorem Armed.start {s : Timing} (h : Armed id owner first period n s.timers)
    {start : Method (Fault String) Timing VmTimerId} (sound : (startReply start s).1.timers.Sound)
    (starts : Leads (fun t : Timing => t.timers = s.timers) (fun t => Starts s.timers t.timers)
      start) (other : id.value ≠ saturatingAdd s.timers.nextTimerId 1) :
    Armed id owner first period (n + ticks id (startReply start s).2.emitted)
      (startReply start s).1.timers := by
  have inserted := starts s rfl
  rw [startReply_emitted, ticks, Nat.add_zero]
  rw [startReply_fst] at sound ⊢
  generalize (start.call s).1.timers = after at sound inserted
  cases inserted with
  | refused => exact h
  | inserted owner deadlineTick kind intervalTicks =>
    refine h.kept sound (getElem?_insert_of_ne _ _ fun same => other ?_) rfl
    rw [← same]

theorem Armed.cancel {s : Timing} (h : Armed id owner first period n s.timers)
    {timerId : VmTimerId} (sound : (s.timers.cancel timerId).1.Sound) (other : timerId ≠ id) :
    Armed id owner first period (n + ticks id (cancelReply s (s.timers.cancel timerId)).2.emitted)
      (s.timers.cancel timerId).1 := by
  unfold cancelReply
  unfold VmTimerTable.cancel at sound ⊢
  cases found : s.timers.timers[timerId]? with
  | none => exact h
  | some timer =>
    rw [found] at sound
    refine h.kept sound ?_ rfl
    dsimp only
    rw [recordEvent_timers, getElem?_erase_eq, if_neg other]

theorem ticks_ownerExited (id : VmTimerId) (owned : List VmTimer) :
    ticks id (owned.map fun timer => .ownerExited timer.id timer.owner timer.kind) = 0 := by
  induction owned with
  | nil => rfl
  | cons timer owned ih =>
    rw [map_cons, ticks, ih]
    rfl

/-- Each call that does not disturb the timer keeps its schedule. -/
theorem Armed.call {s : Timing} (h : Armed id owner first period n s.timers) (request : Request)
    (undisturbed : Undisturbed id owner s request)
    (fits : ∀ event ∈ (call s request).2.emitted, ¬ IsOverflow id event) :
    Armed id owner first period (n + ticks id (call s request).2.emitted)
      (call s request).1.timers := by
  have sound := (call_effect h.sound request).keeps_sound h.sound
  cases request with
  | startOneShot other deadlineTick =>
    exact h.start sound (startOneShot_starts s.timers other deadlineTick) undisturbed
  | startInterval other firstDeadlineTick intervalTicks =>
    exact h.start sound (startInterval_starts s.timers other firstDeadlineTick intervalTicks)
      undisturbed
  | startReceiveTimeout other nowTick timeoutTicks =>
    exact h.start sound (startReceiveTimeout_starts s.timers other nowTick timeoutTicks)
      undisturbed
  | cancel timerId => exact h.cancel sound undisturbed
  | cancelWithToken token =>
    obtain ⟨deadlineTick, _, found⟩ := h.armed
    obtain ⟨timerId, other⟩ := token
    unfold Timer.call at sound ⊢
    dsimp only at sound ⊢
    unfold VmTimerTable.cancelWithToken at sound ⊢
    dsimp only at sound ⊢
    cases entry : s.timers.timers[timerId]? with
    | none => exact h
    | some timer =>
      rw [entry] at sound
      dsimp only at sound ⊢
      by_cases differ : timer.owner ≠ other
      · rw [if_pos differ]
        exact h
      rw [if_neg differ] at sound ⊢
      refine h.cancel sound fun same => undisturbed ?_
      subst same
      rw [found] at entry
      cases entry
      exact congrArg _ (not_not.mp differ).symm
  | cancelOwnerTimers other =>
    obtain ⟨deadlineTick, _, found⟩ := h.armed
    unfold Timer.call VmTimerTable.cancelOwnerTimers at sound ⊢
    dsimp only at sound ⊢
    rw [Reply.emitted, ticks_ownerExited, Nat.add_zero]
    refine h.kept sound ?_ (recordEvents_lastClockTick _ _)
    rw [recordEvents_timers, getElem?_foldl_erase, if_neg]
    intro mem
    obtain ⟨timer, owned, same⟩ := mem_map.mp mem
    obtain ⟨listed, own⟩ := mem_filter.mp owned
    rw [mem_valuesOf_iff h.sound, same, found] at listed
    cases listed
    exact undisturbed (decide_eq_true_eq.mp own).symm
  | advanceClock nowTick =>
    by_cases backwards : Backwards s.timers nowTick
    · obtain ⟨drift, run⟩ := advanceClock_backwards backwards
      change VmTimerTable.Sound (advanceClock s nowTick).1.timers at sound
      change Armed id owner first period (n + ticks id (advanceClock s nowTick).2)
        (advanceClock s nowTick).1.timers
      rw [run] at sound ⊢
      exact h.kept sound rfl rfl
    · exact (h.advance backwards (undisturbed backwards) fits).1
  | borrow scheduling => exact h

theorem emitted_snoc (history : History) (entry : Request × Reply) :
    emitted (history ++ [entry]) = emitted history ++ entry.2.emitted := by
  simp [emitted]

/-- Each run does, as long as the timer does not overflow. -/
theorem Armed.run {s : Timing} (h : Armed id owner first period 0 s.timers)
    {requests : List Request} (undisturbed : Guarded Timer.call (Undisturbed id owner) s requests)
    (fits : ∀ event ∈ emitted (replay Timer.call s requests).2, ¬ IsOverflow id event) :
    Armed id owner first period (ticks id (emitted (replay Timer.call s requests).2))
      (replay Timer.call s requests).1.timers := by
  refine replay_invariant_of Timer.call (Undisturbed id owner)
    (fun s history => (∀ event ∈ emitted history, ¬ IsOverflow id event) →
      Armed id owner first period (ticks id (emitted history)) s.timers) ?_ s [] requests
    (fun _ => h) undisturbed fits
  intro s history request kept ih fits
  rw [emitted_snoc] at fits ⊢
  rw [ticks_append]
  exact (ih fun event mem => fits event (mem_append_left _ mem)).call request kept
    fun event mem => fits event (mem_append_right _ mem)

theorem startInterval_armed {s : Timing} (sound : s.timers.Sound)
    (started : (call s (.startInterval owner first period)).2 = .started id) :
    Armed id owner first period 0 (call s (.startInterval owner first period)).1.timers := by
  refine ⟨(call_effect sound (.startInterval owner first period)).keeps_sound sound,
    ⟨first, by rw [Nat.zero_mul, Nat.add_zero], ?_⟩, fun i less => by cases less⟩
  unfold Timer.call startReply startInterval at started ⊢
  dsimp only at started ⊢
  rw [call_bind] at started ⊢
  rcases run : (requireLive owner).call s with ⟨t, fault | ⟨⟩⟩
  · rw [run] at started
    cases started
  rw [run] at started
  dsimp only at started ⊢
  rw [call_check_bind] at started ⊢
  by_cases zero : period = 0
  · rw [failIf, if_pos zero] at started
    cases started
  · rw [failIf, if_neg zero] at started ⊢
    cases started
    exact getElem?_insert_self_eq _ _ _

end Schedule

theorem reachable_sound (scheduling : Scheduling) (requests : List Request) :
    (replay call ⟨.new, scheduling⟩ requests).1.timers.Sound := by
  refine replay_state call (fun s => s.timers.Sound)
    (fun s request sound => (call_effect sound request).keeps_sound sound) _ requests ?_
  intro id timer found
  have empty : (∅ : ExtTreeMap VmTimerId VmTimer)[id]? = none := ExtTreeMap.getElem?_empty
  have found : (∅ : ExtTreeMap VmTimerId VmTimer)[id]? = some timer := found
  rw [empty] at found
  cases found

/-- The account of an interval after a tick of the clock: what it reported before, and what it
reports now. -/
structure Accounted (id : VmTimerId) (first period nowTick : UInt64)
    (past now : List VmTimerEvent) : Prop where
  counted : (∀ event ∈ now, ¬ IsOverflow id event) → ticks id (past ++ now) =
    {i : Nat | first.toNat + i * period.toNat ≤ nowTick.toNat}.ncard
  overflow : ∀ event ∈ now, IsOverflow id event → ∀ i : Nat,
    nowTick.toNat < first.toNat + i * period.toNat → u64Max < first.toNat + i * period.toNat

/-- The multiples up to the clock are those before the first one behind it. -/
theorem multiples_ncard {first period nowTick n : Nat}
    (passed : ∀ i < n, first + i * period ≤ nowTick) (behind : nowTick < first + n * period) :
    {i : Nat | first + i * period ≤ nowTick}.ncard = n := by
  have same : {i : Nat | first + i * period ≤ nowTick} = Set.Iio n := by
    ext i
    refine ⟨fun le => Nat.lt_of_not_le fun above => ?_, passed i⟩
    have product : n * period ≤ i * period := Nat.mul_le_mul_right _ above
    have le : first + i * period ≤ nowTick := le
    omega
  rw [same, Set.ncard_Iio_nat]

/-- Every accepted tick of a run that has not overflowed the interval is accounted for. -/
theorem interval_accounting (scheduling : Scheduling) (earlier : List Request) (id : VmTimerId)
    (owner : VmProcessId) (first period : UInt64)
    (started : (call (replay call ⟨.new, scheduling⟩ earlier).1
      (.startInterval owner first period)).2 = .started id)
    (requests : List Request) (nowTick : UInt64) (undisturbed : Guarded call (Undisturbed id owner)
      (call (replay call ⟨.new, scheduling⟩ earlier).1 (.startInterval owner first period)).1
      (requests ++ [.advanceClock nowTick]))
    (fits : ∀ event ∈ emitted (replay call (call (replay call ⟨.new, scheduling⟩ earlier).1
      (.startInterval owner first period)).1 requests).2, ¬ IsOverflow id event)
    (forward : ¬ Backwards (replay call (call (replay call ⟨.new, scheduling⟩ earlier).1
      (.startInterval owner first period)).1 requests).1.timers nowTick) :
    Accounted id first period nowTick
      (emitted (replay call (call (replay call ⟨.new, scheduling⟩ earlier).1
        (.startInterval owner first period)).1 requests).2)
      (advanceClock (replay call (call (replay call ⟨.new, scheduling⟩ earlier).1
        (.startInterval owner first period)).1 requests).1 nowTick).2 := by
  rw [guarded_append] at undisturbed
  obtain ⟨kept, alive, _⟩ := undisturbed
  have armed := (startInterval_armed (reachable_sound scheduling earlier) started).run kept fits
  refine ⟨fun fits => ?_, fun event mem overflow =>
    armed.overflow forward (alive forward) mem overflow⟩
  obtain ⟨after, behind⟩ := armed.advance forward (alive forward) fits
  have clock := advanceClock_lastClockTick armed.sound forward
  rw [ticks_append]
  refine (multiples_ncard (fun i less => ?_) behind).symm
  have passed := after.passed i less
  unfold currentTick at passed
  rw [clock] at passed
  exact passed

theorem oneProcess_alive : Alive ⟨1⟩ oneProcess.processes := by
  have exited : timerOwnerExited oneProcess.processes ⟨1⟩ = false := by decide +kernel
  refine ⟨?_, exited⟩
  change VmProcessTable.Sound
    ((VmProcessTable.spawn none ⟨"Main", "start", 0, none⟩).call .new).1
  rcases VmProcessTable.sound_new.spawn_cases none ⟨"Main", "start", 0, none⟩ with
    ⟨_, after, run, sound, _⟩ | ⟨after, pid, run, _, becomes⟩
  · rw [run]
    exact sound
  · rw [run]
    exact becomes.sound

theorem startInterval_scheduling (s : Timing) (owner : VmProcessId) (first period : UInt64) :
    (call s (.startInterval owner first period)).1.scheduling = s.scheduling := by
  have kept : Keeps (fun t : Timing => t.scheduling = s.scheduling)
      (startInterval owner first period) :=
    keeps_bind (keeps_get_bind fun _ => keeps_lift _) fun _ =>
      keeps_bind (keeps_lift _) fun _ => fun _ same => same
  exact (congrArg (·.scheduling) (startReply_fst _ s)).trans (kept s rfl)

/-- The multiples 5, 8, 11 and 14 in one tick. -/
theorem interval_accounting_four : Accounted ⟨1⟩ 5 3 14 []
    (advanceClock (call ⟨.new, oneProcess⟩ (.startInterval ⟨1⟩ 5 3)).1 14).2 :=
  interval_accounting oneProcess [] ⟨1⟩ ⟨1⟩ 5 3 (by decide +kernel) [] 14
    ⟨fun _ => by
      rw [replay_nil, startInterval_scheduling]
      exact oneProcess_alive, trivial⟩
    (fun _ mem => nomatch mem) (by decide +kernel)

end Terlan.Timer
