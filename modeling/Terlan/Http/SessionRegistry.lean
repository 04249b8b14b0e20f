/-
  The session registry of the HTTP package: the sessions by identity, the set of their deadlines,
  and for each session the resource that a host made for it.

  The host is a parameter, and it may fail to create or to release at any call. `recording` gives
  each resource a number as it is created. The registry is the same code for every type of
  resource, so it does not see the numbers; they tell the resources apart where the host's values
  do not. `session_registry_consistent` is about every run over every host.
-/
import Terlan.Lib.Machine
import Terlan.Lib.Method
import Terlan.Lib.Replay
import Terlan.Lib.Sorted
import Terlan.Lib.TreeMap

namespace Terlan.HttpSession

open Terlan.Lib List
open Std (ExtTreeMap ExtTreeSet TransCmp TransOrd LawfulEqOrd)

/-! ## Identities -/

structure NativeAdapterError where
  code : String
  message : String
  offset : Nat

def maxAttempts : Nat := 16

/-- What the system draws at an attempt. -/
abbrev Entropy := Nat → Except NativeAdapterError (List UInt8)

/-- Each attempt draws bytes and encodes them. -/
def issueWith (encode : List UInt8 → String) (excluded : String) (occupied : String → Bool)
    (fill : Entropy) : Nat → Except NativeAdapterError String
  | 0 => .error
      ⟨"http.session.identity_collision", "could not allocate a distinct session identity", 0⟩
  | attempts + 1 => do
    let bytes ← fill attempts
    let identity := encode bytes
    if identity ≠ excluded ∧ ¬ occupied identity then
      return identity
    else
      issueWith encode excluded occupied fill attempts

theorem issueWith_ok {encode : List UInt8 → String} {excluded : String} {occupied : String → Bool}
    {fill : Entropy} {attempts : Nat} {identity : String}
    (issued : issueWith encode excluded occupied fill attempts = .ok identity) :
    occupied identity = false := by
  induction attempts with
  | zero => cases issued
  | succ attempts ih =>
    obtain ⟨bytes, -, issued⟩ := except_bind_ok_iff.mp issued
    dsimp only at issued
    split at issued
    next free =>
      cases issued
      exact Bool.eq_false_iff.mpr free.2
    next => exact ih issued

/-! ## The registry -/

inductive RecoveryPolicy where
  | createLocalReplacement
  | failClosed
deriving DecidableEq

inductive SessionError where
  | zeroTtl
  | stale (identity : String)
  | emptySnapshotIdentity
  | expiredSnapshot (identity : String)
  | duplicateSnapshot (identity : String)
  | resource (message : String)
  | identity (error : NativeAdapterError)

structure SessionEntry (T : Type) where
  id : String
  expiresAtTick : UInt64
  value : T

/-- The pair `(expires_at_tick, id)`. -/
structure Deadline where
  expiresAtTick : UInt64
  id : String

instance : Ord Deadline where
  compare := compareLex (compareOn (·.expiresAtTick)) (compareOn (·.id))

theorem Deadline.compare_def : compare (α := Deadline) =
    compareLex (compareOn (·.expiresAtTick)) (compareOn (·.id)) :=
  rfl

instance : TransOrd Deadline := inferInstanceAs (TransCmp (compareLex _ _))

instance : LawfulEqOrd Deadline where
  eq_of_compare {a b} h := by
    obtain ⟨expires, id⟩ := a
    obtain ⟨expires', id'⟩ := b
    simp only [Deadline.compare_def, compareLex_eq_eq, compareOn] at h
    rw [LawfulEqOrd.eq_of_compare h.1, LawfulEqOrd.eq_of_compare h.2]

/-- What the registry asks of a host with state `H`. -/
structure SessionResources (T H : Type) where
  create : H → String → H × Except SessionError T
  failure : H → String → T → Option SessionError
  release : H → T → H × Except SessionError Unit

/-- Instants are nanoseconds of the monotonic clock. -/
structure SessionRegistry (T : Type) where
  entries : ExtTreeMap String (SessionEntry T)
  deadlines : ExtTreeSet Deadline
  nowTick : UInt64
  clockOrigin : Option Nat
  recovery : RecoveryPolicy

/-- The registry, and the host's resources that a call borrows. -/
structure Hosted (T H : Type) where
  registry : SessionRegistry T
  resources : H

variable {T H : Type}

namespace SessionRegistry

def new (recovery : RecoveryPolicy) : SessionRegistry T := ⟨∅, ∅, 0, none, recovery⟩

def startClock (self : SessionRegistry T) (now : Nat) : SessionRegistry T :=
  { self with clockOrigin := self.clockOrigin <|> some now }

def advanceTicks (self : SessionRegistry T) (ticks : UInt64) : SessionRegistry T :=
  { self with nowTick := saturatingAdd self.nowTick ticks }

def observedTick (self : SessionRegistry T) (now : Nat) : UInt64 :=
  saturatingAdd self.nowTick
    (match self.clockOrigin with
    | none => 0
    | some origin => UInt64.ofNat ((now - origin) / 1000000000))

def insert (self : SessionRegistry T) (entry : SessionEntry T) : SessionRegistry T :=
  { self with
    deadlines := self.deadlines.insert ⟨entry.expiresAtTick, entry.id⟩
    entries := self.entries.insert entry.id entry }

/-- The two removals that `remove` and `replace_identity` make. -/
def forget (self : SessionRegistry T) (identity : String) (entry : SessionEntry T) :
    SessionRegistry T :=
  { self with
    deadlines := self.deadlines.erase ⟨entry.expiresAtTick, entry.id⟩
    entries := self.entries.erase identity }

def issue (self : SessionRegistry T) (encode : List UInt8 → String)
    (fill : Entropy) (excluded : String) :
    Except SessionError String :=
  (issueWith encode excluded (fun identity => decide (identity ∈ self.entries)) fill
    maxAttempts).mapError .identity

def validateRestore (self : SessionRegistry T) (now : Nat) (identity : String)
    (expiresAtTick : UInt64) : Except SessionError Unit := do
  failIf (identity = "") .emptySnapshotIdentity
  failIf (expiresAtTick ≤ self.observedTick now) (.expiredSnapshot identity)
  failIf (identity ∈ self.entries) (.duplicateSnapshot identity)

end SessionRegistry

section Methods

variable (host : SessionResources T H)

def isLive (self : SessionRegistry T) (now : Nat) (identity : String) (alive : T → Bool) : Bool :=
  match self.entries[identity]? with
  | none => false
  | some entry => decide (self.observedTick now < entry.expiresAtTick) && alive entry.value

/-- The host releases first; where it fails nothing is forgotten. -/
def remove (identity : String) : Method SessionError (Hosted T H) Unit := .ofCall fun s =>
  match s.registry.entries[identity]? with
  | none => (s, .ok ())
  | some entry =>
    match host.release s.resources entry.value with
    | (resources, .error error) => (⟨s.registry, resources⟩, .error error)
    | (resources, .ok ()) => (⟨s.registry.forget identity entry, resources⟩, .ok ())

def lookup (now : Nat) (identity : String) :
    Method SessionError (Hosted T H) (Option (SessionEntry T)) := do
  let s ← get
  if identity = "" then
    return none
  else if isLive s.registry now identity fun value =>
      (host.failure s.resources identity value).isNone then
    return s.registry.entries[identity]?
  else
    remove host identity
    if s.registry.recovery = .failClosed then throw (.stale identity) else return none

def insertNew (now : Nat) (id : String) (ttlTicks : UInt64) :
    Method SessionError (Hosted T H) (SessionEntry T) := .ofCall fun s =>
  match host.create s.resources id with
  | (resources, .error error) => (⟨s.registry, resources⟩, .error error)
  | (resources, .ok value) =>
    let entry := ⟨id, saturatingAdd (s.registry.observedTick now) ttlTicks, value⟩
    (⟨s.registry.insert entry, resources⟩, .ok entry)

def create (encode : List UInt8 → String) (now : Nat)
    (fill : Entropy) (excludedIdentity : String)
    (ttlTicks : UInt64) : Method SessionError (Hosted T H) (SessionEntry T) := do
  liftM (failIf (ttlTicks = 0) SessionError.zeroTtl)
  let s ← get
  let id ← liftM (s.registry.issue encode fill excludedIdentity)
  insertNew host now id ttlTicks

def tryCreate (now : Nat) (identity : String) (ttlTicks : UInt64) :
    Method SessionError (Hosted T H) Bool := do
  liftM (failIf (ttlTicks = 0) SessionError.zeroTtl)
  let s ← get
  if identity = "" ∨ identity ∈ s.registry.entries then
    return false
  else
    let _ ← insertNew host now identity ttlTicks
    return true

def live (now : Nat) (identity : String) :
    Method SessionError (Hosted T H) (SessionEntry T) := do
  let s ← get
  match s.registry.entries[identity]? with
  | none => throw (.stale identity)
  | some entry =>
    let failure :=
      if entry.expiresAtTick ≤ s.registry.observedTick now then some (.stale identity)
      else host.failure s.resources identity entry.value
    match failure with
    | some error => do
      remove host identity
      throw error
    | none => return entry

/-- The host is not asked. It panics without a session of the identity. -/
def replaceIdentity (now : Nat) (identity id : String) (ttlTicks : UInt64) :
    Method (Fault SessionError) (Hosted T H) (SessionEntry T) := .ofCall fun s =>
  match s.registry.entries[identity]? with
  | none => (s, .error (.panicked "validated live session"))
  | some entry =>
    let replaced : SessionEntry T :=
      { entry with id, expiresAtTick := saturatingAdd (s.registry.observedTick now) ttlTicks }
    (⟨(s.registry.forget identity entry).insert replaced, s.resources⟩, .ok replaced)

def rotate (encode : List UInt8 → String) (now later : Nat)
    (fill : Entropy) (identity : String)
    (ttlTicks : UInt64) : Method (Fault SessionError) (Hosted T H) (SessionEntry T) := do
  liftM (failIf (ttlTicks = 0) (Fault.returned SessionError.zeroTtl))
  let _ ← (live host now identity).orReturn
  let s ← get
  let id ← liftM ((s.registry.issue encode fill identity).mapError Fault.returned)
  replaceIdentity later identity id ttlTicks

def tryRotate (now later : Nat) (identity replacement : String) (ttlTicks : UInt64) :
    Method (Fault SessionError) (Hosted T H) Bool := do
  liftM (failIf (ttlTicks = 0) (Fault.returned SessionError.zeroTtl))
  let _ ← (live host now identity).orReturn
  let s ← get
  if replacement = "" ∨ replacement ∈ s.registry.entries then
    return false
  else
    let _ ← replaceIdentity later identity replacement ttlTicks
    return true

def expire (now : Nat) (identity : String) : Method SessionError (Hosted T H) Unit := do
  let _ ← live host now identity
  remove host identity

/-- The loop, with the tick that was read before it. -/
def expireDueLoop (now : UInt64) : Nat → Method SessionError (Hosted T H) (List String)
  | 0 => return []
  | limit + 1 => do
    let s ← get
    match s.registry.deadlines.min? with
    | none => return []
    | some deadline =>
      if now < deadline.expiresAtTick then
        return []
      else do
        remove host deadline.id
        let expired ← expireDueLoop now limit
        return deadline.id :: expired

def expireDueLimit (now limit : Nat) : Method SessionError (Hosted T H) (List String) := do
  let s ← get
  expireDueLoop host (s.registry.observedTick now) limit

def restore (now : Nat) (entry : SessionEntry T) : Method SessionError (Hosted T H) Unit := do
  let s ← get
  liftM (s.registry.validateRestore now entry.id entry.expiresAtTick)
  modify fun s => { s with registry := s.registry.insert entry }

end Methods

/-! ## Resources with numbers -/

structure Resource (T : Type) where
  serial : Nat
  value : T

/-- A host with what was asked of it: how many resources were created, and the numbers of those
whose release succeeded or failed, in this order. -/
structure Recorded (H : Type) where
  host : H
  created : Nat
  released : List Nat
  failed : List Nat

def recording (host : SessionResources T H) : SessionResources (Resource T) (Recorded H) where
  create self identity :=
    match host.create self.host identity with
    | (h, .error error) => ({ self with host := h }, .error error)
    | (h, .ok value) =>
      ({ self with host := h, created := self.created + 1 }, .ok ⟨self.created, value⟩)
  failure self identity resource := host.failure self.host identity resource.value
  release self resource :=
    match host.release self.host resource.value with
    | (h, .error error) =>
      ({ self with host := h, failed := self.failed ++ [resource.serial] }, .error error)
    | (h, .ok ()) =>
      ({ self with host := h, released := self.released ++ [resource.serial] }, .ok ())

abbrev World (T H : Type) := Hosted (Resource T) (Recorded H)

/-- The calls of the registry, each with the instants at which it reads the clock. -/
inductive Call (T : Type) where
  | startClock (now : Nat)
  | advanceTicks (ticks : UInt64)
  | lookup (now : Nat) (identity : String)
  | create (now : Nat) (fill : Entropy)
      (excludedIdentity : String) (ttlTicks : UInt64)
  | tryCreate (now : Nat) (identity : String) (ttlTicks : UInt64)
  | live (now : Nat) (identity : String)
  | rotate (now later : Nat) (fill : Entropy)
      (identity : String) (ttlTicks : UInt64)
  | tryRotate (now later : Nat) (identity replacement : String) (ttlTicks : UInt64)
  | expire (now : Nat) (identity : String)
  | expireDueLimit (now limit : Nat)
  | restore (now : Nat) (identity : String) (expiresAtTick : UInt64) (value : T)

inductive Reply (T : Type) where
  | none
  | found (entry : Option (SessionEntry (Resource T)))
  | session (entry : SessionEntry (Resource T))
  | answer (taken : Bool)
  | expired (identities : List String)

def Call.method (encode : List UInt8 → String) (host : SessionResources T H) :
    Call T → Method (Fault SessionError) (World T H) (Reply T)
  | .startClock now => do
    modify fun s => { s with registry := s.registry.startClock now }
    return .none
  | .advanceTicks ticks => do
    modify fun s => { s with registry := s.registry.advanceTicks ticks }
    return .none
  | .lookup now identity => .found <$> (HttpSession.lookup (recording host) now identity).orReturn
  | .create now fill excludedIdentity ttlTicks =>
    .session <$> (HttpSession.create (recording host) encode now fill excludedIdentity
      ttlTicks).orReturn
  | .tryCreate now identity ttlTicks =>
    .answer <$> (HttpSession.tryCreate (recording host) now identity ttlTicks).orReturn
  | .live now identity => .session <$> (HttpSession.live (recording host) now identity).orReturn
  | .rotate now later fill identity ttlTicks =>
    .session <$> HttpSession.rotate (recording host) encode now later fill identity ttlTicks
  | .tryRotate now later identity replacement ttlTicks =>
    .answer <$> HttpSession.tryRotate (recording host) now later identity replacement ttlTicks
  | .expire now identity => do
    (HttpSession.expire (recording host) now identity).orReturn
    return .none
  | .expireDueLimit now limit =>
    .expired <$> (HttpSession.expireDueLimit (recording host) now limit).orReturn
  | .restore now identity expiresAtTick value => do
    let s ← get
    -- The caller made the resource; it is the registry's once it is restored.
    (HttpSession.restore now ⟨identity, expiresAtTick, ⟨s.resources.created, value⟩⟩).orReturn
    modify fun s => { s with resources.created := s.resources.created + 1 }
    return .none

def Call.run (encode : List UInt8 → String) (host : SessionResources T H) (s : World T H)
    (call : Call T) : World T H × Except (Fault SessionError) (Reply T) :=
  (call.method encode host).call s

/-! ## What a call can do -/

variable (host : SessionResources T H)

/-- After a release that succeeded. -/
def Hosted.removed (s : World T H) (identity : String) (entry : SessionEntry (Resource T)) (h : H) :
    World T H :=
  ⟨s.registry.forget identity entry,
    { s.resources with host := h, released := s.resources.released ++ [entry.value.serial] }⟩

@[simp] theorem removed_registry (s : World T H) (identity : String)
    (entry : SessionEntry (Resource T)) (h : H) :
    (s.removed identity entry h).registry = s.registry.forget identity entry := rfl

@[simp] theorem removed_resources (s : World T H) (identity : String)
    (entry : SessionEntry (Resource T)) (h : H) :
    (s.removed identity entry h).resources = { s.resources with
      host := h, released := s.resources.released ++ [entry.value.serial] } := rfl

/-- After a release that failed. -/
def Hosted.refused (s : World T H) (entry : SessionEntry (Resource T)) (h : H) : World T H :=
  { s with resources :=
    { s.resources with host := h, failed := s.resources.failed ++ [entry.value.serial] } }

/-- What one call does that is not a pass of expiry. -/
inductive Changes (s : World T H) : World T H → Prop where
  | same : Changes s s
  | clock (nowTick : UInt64) (clockOrigin : Option Nat) :
      Changes s { s with registry := { s.registry with nowTick, clockOrigin } }
  | notCreated (h : H) : Changes s { s with resources := { s.resources with host := h } }
  | inserted (id : String) (expiresAtTick : UInt64) (h : H) (value : T) :
      id ∉ s.registry.entries →
      Changes s ⟨s.registry.insert ⟨id, expiresAtTick, ⟨s.resources.created, value⟩⟩,
        { s.resources with host := h, created := s.resources.created + 1 }⟩
  | refused (identity : String) (entry : SessionEntry (Resource T)) (h : H) :
      s.registry.entries[identity]? = some entry → Changes s (s.refused entry h)
  | removed (identity : String) (entry : SessionEntry (Resource T)) (h : H) :
      s.registry.entries[identity]? = some entry → Changes s (s.removed identity entry h)
  | rotated (identity id : String) (expiresAtTick : UInt64) (entry : SessionEntry (Resource T)) :
      s.registry.entries[identity]? = some entry → id ∉ s.registry.entries →
      Changes s { s with registry :=
        (s.registry.forget identity entry).insert { entry with id, expiresAtTick } }

/-- Nothing of a registry or its resources has changed. -/
def Unchanged (s s' : World T H) : Prop :=
  s'.registry = s.registry ∧ s'.resources.created = s.resources.created ∧
    s'.resources.released = s.resources.released ∧ s'.resources.failed = s.resources.failed

/-- At most one thing changes, and nothing at all unless the call succeeds. -/
def Settles {ε α : Type} (s : World T H) (succeeds : Except ε α → Prop)
    (answer : World T H × Except ε α) : Prop :=
  Changes s answer.1 ∧ (¬ succeeds answer.2 → Unchanged s answer.1)

def Succeeds {ε α : Type} (result : Except ε α) : Prop := ∃ a, result = .ok a

theorem settles_same {ε α : Type} (s : World T H) (succeeds : Except ε α → Prop)
    (result : Except ε α) : Settles s succeeds (s, result) :=
  ⟨.same, fun _ => ⟨rfl, rfl, rfl, rfl⟩⟩

theorem Settles.change {ε α : Type} {s : World T H} {succeeds : Except ε α → Prop}
    {answer : World T H × Except ε α} (change : Changes s answer.1) (ok : succeeds answer.2) :
    Settles s succeeds answer :=
  ⟨change, fun failed => absurd ok failed⟩

/-- The reply of a method as the reply of a call. -/
theorem Settles.reply {α : Type} {s : World T H} {m : Method SessionError (World T H) α}
    {succeeds : Except SessionError α → Prop}
    (succeeds' : Except (Fault SessionError) (Reply T) → Prop) (f : α → Reply T)
    (h : Settles s succeeds (Method.call m s))
    (same : ∀ result, succeeds result → succeeds' ((result.mapError .returned).map f)) :
    Settles s succeeds' (Method.call (f <$> m.orReturn) s) := by
  rw [call_map, call_orReturn]
  exact ⟨h.1, fun failed => h.2 fun ok => failed (same _ ok)⟩

section Methods

variable (s : World T H) (now : Nat) (identity : String)

/-- A release that fails, or one that succeeds and is followed by the two removals. -/
theorem remove_cases : (∃ entry h, s.registry.entries[identity]? = some entry ∧
      (Method.call (remove (recording host) identity) s = (s.removed identity entry h, .ok ()) ∨
        ∃ error, Method.call (remove (recording host) identity) s =
          (s.refused entry h, .error error))) ∨ s.registry.entries[identity]? = none ∧
      Method.call (remove (recording host) identity) s = (s, .ok ()) := by
  unfold remove
  rw [call_ofCall]
  cases s.registry.entries[identity]? with
  | none => exact .inr ⟨rfl, rfl⟩
  | some entry =>
    left
    dsimp only [recording]
    rcases host.release s.resources.host entry.value.value with ⟨h, error | ⟨⟩⟩
    · exact ⟨entry, h, rfl, .inr ⟨error, rfl⟩⟩
    · exact ⟨entry, h, rfl, .inl rfl⟩

theorem remove_changes : Changes s (Method.call (remove (recording host) identity) s).1 := by
  rcases remove_cases host s identity with ⟨entry, h, there, run | ⟨error, run⟩⟩ | ⟨-, run⟩
  · rw [run]
    exact .removed identity entry h there
  · rw [run]
    exact .refused identity entry h there
  · rw [run]
    exact .same

/-- A session is returned as it is, or its entry is removed, or there is none. -/
theorem live_cases : (∃ entry, s.registry.entries[identity]? = some entry ∧
      Method.call (live (recording host) now identity) s = (s, .ok entry)) ∨
    ∃ s' error, Method.call (live (recording host) now identity) s = (s', .error error) ∧
      Changes s s' := by
  unfold live
  rw [call_get_bind]
  cases s.registry.entries[identity]? with
  | none => exact .inr ⟨s, _, rfl, .same⟩
  | some entry =>
    dsimp only
    cases (if entry.expiresAtTick ≤ s.registry.observedTick now then
        some (SessionError.stale identity)
      else (recording host).failure s.resources identity entry.value) with
    | none => exact .inl ⟨entry, rfl, rfl⟩
    | some error =>
      right
      dsimp only
      rw [call_bind]
      have change := remove_changes host s identity
      revert change
      rcases Method.call (remove (recording host) identity) s with ⟨s', error' | ⟨⟩⟩
      · exact fun change => ⟨s', error', rfl, change⟩
      · exact fun change => ⟨s', error, rfl, change⟩

theorem live_changes : Changes s (Method.call (live (recording host) now identity) s).1 := by
  rcases live_cases host s now identity with ⟨entry, -, run⟩ | ⟨s', error, run, change⟩
  · rw [run]
    exact .same
  · rw [run]
    exact change

theorem lookup_changes : Changes s (Method.call (lookup (recording host) now identity) s).1 := by
  unfold lookup
  rw [call_get_bind, call_ite, call_ite]
  split
  · exact .same
  split
  · exact .same
  have change := remove_changes host s identity
  rw [call_bind]
  revert change
  rcases Method.call (remove (recording host) identity) s with ⟨s', error | ⟨⟩⟩
  · exact id
  intro change
  dsimp only
  rw [call_ite]
  split
  next => exact change
  next => exact change

theorem expire_changes : Changes s (Method.call (expire (recording host) now identity) s).1 := by
  unfold expire
  rw [call_bind]
  rcases live_cases host s now identity with ⟨entry, there, run⟩ | ⟨s', error, run, change⟩
  · rw [run]
    exact remove_changes host s identity
  · rw [run]
    exact change

theorem insertNew_settles (ttlTicks : UInt64) (vacant : identity ∉ s.registry.entries) :
    Settles s Succeeds (Method.call (insertNew (recording host) now identity ttlTicks) s) := by
  unfold insertNew
  rw [call_ofCall]
  dsimp only [recording]
  rcases host.create s.resources.host identity with ⟨h, error | value⟩
  · exact ⟨.notCreated h, fun _ => ⟨rfl, rfl, rfl, rfl⟩⟩
  · exact .change (.inserted identity _ h value vacant) ⟨_, rfl⟩

theorem issue_ok {registry : SessionRegistry T} {encode : List UInt8 → String} {fill : Entropy}
    {excluded id : String} (issued : registry.issue encode fill excluded = .ok id) :
    id ∉ registry.entries := by
  unfold SessionRegistry.issue at issued
  cases answer : issueWith encode excluded (fun identity => decide (identity ∈ registry.entries))
      fill maxAttempts with
  | error error =>
    rw [answer] at issued
    cases issued
  | ok identity =>
    rw [answer] at issued
    cases issued
    exact of_decide_eq_false (issueWith_ok answer)

theorem create_settles (encode : List UInt8 → String) (fill : Entropy) (ttlTicks : UInt64) :
    Settles s Succeeds
      (Method.call (create (recording host) encode now fill identity ttlTicks) s) := by
  unfold create
  rw [call_check_bind]
  cases failIf (ttlTicks = 0) SessionError.zeroTtl with
  | error error => exact settles_same s _ _
  | ok _ =>
    dsimp only
    rw [call_get_bind, call_check_bind]
    cases issued : s.registry.issue encode fill identity with
    | error error => exact settles_same s _ _
    | ok id => exact insertNew_settles host s now id ttlTicks (issue_ok issued)

theorem tryCreate_settles (ttlTicks : UInt64) : Settles s (· = .ok true)
      (Method.call (tryCreate (recording host) now identity ttlTicks) s) := by
  unfold tryCreate
  rw [call_check_bind]
  cases failIf (ttlTicks = 0) SessionError.zeroTtl with
  | error error => exact settles_same s _ _
  | ok _ =>
    dsimp only
    rw [call_get_bind, call_ite]
    split
    next => exact settles_same s _ _
    next free =>
      have settles := insertNew_settles host s now identity ttlTicks fun mem => free (.inr mem)
      rw [call_bind]
      revert settles
      rcases Method.call (insertNew (recording host) now identity ttlTicks) s with
        ⟨s', error | entry⟩
      · exact fun settles => ⟨settles.1, fun _ => settles.2 fun ok => by cases ok.choose_spec⟩
      · exact fun settles => .change settles.1 rfl

theorem replaceIdentity_of_there {entry : SessionEntry (Resource T)}
    (there : s.registry.entries[identity]? = some entry) (id : String) (ttlTicks : UInt64) :
    ∃ replaced, Method.call (replaceIdentity now identity id ttlTicks) s =
      ({ s with registry := (s.registry.forget identity entry).insert replaced }, .ok replaced) ∧
      replaced = { entry with
        id, expiresAtTick := saturatingAdd (s.registry.observedTick now) ttlTicks } := by
  refine ⟨_, ?_, rfl⟩
  unfold replaceIdentity
  rw [call_ofCall, there]

/-- The session of the identity is live. -/
def IsLive : Prop := Succeeds (Method.call (live (recording host) now identity) s).2

/-- What settles where a session is live, for a call that first ends one that is not. -/
theorem live_bind_settles {β : Type} {succeeds : Except (Fault SessionError) β → Prop}
    {next : SessionEntry (Resource T) → Method (Fault SessionError) (World T H) β}
    (goesOn : ∀ entry, s.registry.entries[identity]? = some entry →
      Settles s succeeds (Method.call (next entry) s)) :
    Changes s (Method.call ((live (recording host) now identity).orReturn >>= next) s).1 ∧
      (IsLive host s now identity → Settles s succeeds
        (Method.call ((live (recording host) now identity).orReturn >>= next) s)) := by
  unfold IsLive
  rw [call_bind, call_orReturn]
  rcases live_cases host s now identity with ⟨entry, there, run⟩ | ⟨s', error, run, change⟩
  · rw [run]
    exact ⟨(goesOn entry there).1, fun _ => goesOn entry there⟩
  · rw [run]
    exact ⟨change, fun isLive => by cases isLive.choose_spec⟩

theorem rotate_settles (encode : List UInt8 → String) (later : Nat) (fill : Entropy)
    (ttlTicks : UInt64) : Changes s
        (Method.call (rotate (recording host) encode now later fill identity ttlTicks) s).1 ∧
      (IsLive host s now identity → Settles s Succeeds
        (Method.call (rotate (recording host) encode now later fill identity ttlTicks) s)) := by
  unfold rotate
  rw [call_check_bind]
  cases failIf (ttlTicks = 0) (Fault.returned SessionError.zeroTtl) with
  | error error => exact ⟨.same, fun _ => settles_same s _ _⟩
  | ok _ =>
    refine live_bind_settles host s now identity fun entry there => ?_
    rw [call_get_bind, call_check_bind]
    cases issued : s.registry.issue encode fill identity with
    | error error => exact settles_same s _ _
    | ok id =>
      obtain ⟨replaced, run, rfl⟩ := replaceIdentity_of_there s later identity there id ttlTicks
      dsimp only [Except.mapError]
      rw [run]
      exact .change (.rotated identity id _ entry there (issue_ok issued)) ⟨_, rfl⟩

theorem tryRotate_settles (later : Nat) (replacement : String) (ttlTicks : UInt64) : Changes s
        (Method.call (tryRotate (recording host) now later identity replacement ttlTicks) s).1 ∧
      (IsLive host s now identity → Settles s (· = .ok true)
        (Method.call (tryRotate (recording host) now later identity replacement ttlTicks) s)) := by
  unfold tryRotate
  rw [call_check_bind]
  cases failIf (ttlTicks = 0) (Fault.returned SessionError.zeroTtl) with
  | error error => exact ⟨.same, fun _ => settles_same s _ _⟩
  | ok _ =>
    refine live_bind_settles host s now identity fun entry there => ?_
    rw [call_get_bind, call_ite]
    split
    next => exact settles_same s _ _
    next free =>
      obtain ⟨replaced, run, rfl⟩ :=
        replaceIdentity_of_there s later identity there replacement ttlTicks
      rw [call_bind_of_ok run]
      exact .change (.rotated identity replacement _ entry there fun mem => free (.inr mem)) rfl

theorem restore_vacant {registry : SessionRegistry T} {expiresAtTick : UInt64}
    (valid : registry.validateRestore now identity expiresAtTick = .ok ()) :
    identity ∉ registry.entries := by
  obtain ⟨-, valid⟩ := check_bind_ok_iff.mp valid
  obtain ⟨-, valid⟩ := check_bind_ok_iff.mp valid
  exact failIf_ok_iff.mp valid

end Methods

/-- The calls that must change nothing unless they succeed. A rotation ends a session that is not
live. -/
def Call.Attempts (s : World T H) : Call T → Prop
  | .create .. | .tryCreate .. | .restore .. => True
  | .rotate now _ _ identity _ | .tryRotate now _ identity _ _ => IsLive host s now identity
  | _ => False

def Call.Succeeded (reply : Except (Fault SessionError) (Reply T)) : Call T → Prop
  | .tryCreate .. | .tryRotate .. => reply = .ok (.answer true)
  | _ => Succeeds reply

/-- Every call but a pass of expiry changes at most one thing, and an attempt that does not
succeed changes nothing. -/
theorem call_settles (encode : List UInt8 → String) (s : World T H) (call : Call T)
    (single : ∀ now limit, call ≠ .expireDueLimit now limit) :
    Changes s (call.run encode host s).1 ∧
      (call.Attempts host s → ¬ call.Succeeded (call.run encode host s).2 →
        Unchanged s (call.run encode host s).1) := by
  unfold Call.run
  cases call with
  | startClock now => exact ⟨.clock s.registry.nowTick _, False.elim⟩
  | advanceTicks ticks => exact ⟨.clock _ s.registry.clockOrigin, False.elim⟩
  | lookup now identity =>
    rw [Call.method, call_map]
    exact ⟨lookup_changes host s now identity, False.elim⟩
  | create now fill excluded ttlTicks =>
    have settles := (create_settles host s now excluded encode fill ttlTicks).reply Succeeds .session
      fun result ⟨entry, ok⟩ => ⟨.session entry, by rw [ok]; rfl⟩
    exact ⟨settles.1, fun _ => settles.2⟩
  | tryCreate now identity ttlTicks =>
    have settles := (tryCreate_settles host s now identity ttlTicks).reply
      (· = .ok (.answer true)) .answer fun result ok => by rw [ok]; rfl
    exact ⟨settles.1, fun _ => settles.2⟩
  | live now identity =>
    rw [Call.method, call_map]
    exact ⟨live_changes host s now identity, False.elim⟩
  | rotate now later fill identity ttlTicks =>
    have settles := rotate_settles host s now identity encode later fill ttlTicks
    rw [Call.method, call_map]
    refine ⟨settles.1, fun isLive failed => (settles.2 isLive).2 fun ⟨entry, ok⟩ => failed ?_⟩
    exact ⟨.session entry, by rw [ok]; rfl⟩
  | tryRotate now later identity replacement ttlTicks =>
    have settles := tryRotate_settles host s now identity later replacement ttlTicks
    rw [Call.method, call_map]
    refine ⟨settles.1, fun isLive failed => (settles.2 isLive).2 fun ok => failed ?_⟩
    rw [ok]
    rfl
  | expire now identity =>
    have change := expire_changes host s now identity
    rw [Call.method, call_bind, call_orReturn]
    revert change
    rcases Method.call (expire (recording host) now identity) s with ⟨s', error | ⟨⟩⟩
    · exact fun change => ⟨change, False.elim⟩
    · exact fun change => ⟨change, False.elim⟩
  | expireDueLimit now limit => exact absurd rfl (single now limit)
  | restore now identity expiresAtTick value =>
    rw [Call.method, call_get_bind, call_bind, call_orReturn]
    unfold restore
    rw [call_get_bind, call_check_bind]
    dsimp only
    cases valid : s.registry.validateRestore now identity expiresAtTick with
    | error error => exact ⟨.same, fun _ _ => ⟨rfl, rfl, rfl, rfl⟩⟩
    | ok _ =>
      refine ⟨.inserted identity expiresAtTick s.resources.host value
        (restore_vacant now identity valid), fun _ failed => ?_⟩
      exact absurd (show Succeeds _ from ⟨_, rfl⟩) failed

/-! ## Consistent registries -/

namespace SessionRegistry

/-- A session of the identity has the resource. -/
def Holds (registry : SessionRegistry (Resource T)) (id : String) (serial : Nat) : Prop :=
  ∃ entry : SessionEntry (Resource T),
    registry.entries[id]? = some entry ∧ entry.value.serial = serial

/-- Entries are under their identities, and the deadlines are theirs, one for each entry. -/
structure Indexed (registry : SessionRegistry T) : Prop where
  keyed : ∀ id (entry : SessionEntry T), registry.entries[id]? = some entry → entry.id = id
  deadlines : ∀ deadline, deadline ∈ registry.deadlines ↔
    ∃ entry : SessionEntry T, registry.entries[deadline.id]? = some entry ∧
      entry.expiresAtTick = deadline.expiresAtTick

theorem getElem?_of_vacant {registry : SessionRegistry T} {id : String}
    (vacant : id ∉ registry.entries) : registry.entries[id]? = none :=
  ExtTreeMap.getElem?_eq_none vacant

theorem entries_new (recovery : RecoveryPolicy) (id : String) :
    (new recovery : SessionRegistry T).entries[id]? = none :=
  ExtTreeMap.getElem?_empty

theorem entries_insert (registry : SessionRegistry T) (entry : SessionEntry T) (id : String) :
    (registry.insert entry).entries[id]? =
      if entry.id = id then some entry else registry.entries[id]? :=
  getElem?_insert_eq _ _ _ _

theorem entries_forget (registry : SessionRegistry T) (identity : String)
    (entry : SessionEntry T) (id : String) :
    (registry.forget identity entry).entries[id]? =
      if identity = id then none else registry.entries[id]? :=
  getElem?_erase_eq _ _ _

theorem indexed_new (recovery : RecoveryPolicy) :
    (new recovery : SessionRegistry T).Indexed where
  keyed id entry there := by
    rw [entries_new] at there
    cases there
  deadlines deadline := by
    refine iff_of_false ExtTreeSet.not_mem_empty ?_
    rintro ⟨entry, there, -⟩
    rw [entries_new] at there
    cases there

theorem Indexed.insert {registry : SessionRegistry T} (ok : registry.Indexed)
    {entry : SessionEntry T} (vacant : entry.id ∉ registry.entries) :
    (registry.insert entry).Indexed where
  keyed id other there := by
    rw [entries_insert] at there
    split at there
    next own =>
      cases there
      exact own
    next => exact ok.keyed id other there
  deadlines deadline := by
    rw [entries_insert]
    refine (mem_set_insert_iff _ _ _).trans ?_
    rw [ok.deadlines]
    split
    next own =>
      rw [← own, getElem?_of_vacant vacant]
      constructor
      · rintro (same | ⟨_, there, -⟩)
        · exact ⟨entry, rfl, congrArg Deadline.expiresAtTick same⟩
        · cases there
      · rintro ⟨_, ⟨⟩, same⟩
        left
        rw [same, own]
    next other =>
      apply or_iff_right
      intro same
      exact other (congrArg Deadline.id same)

theorem Indexed.forget {registry : SessionRegistry T} (ok : registry.Indexed) {identity : String}
    {entry : SessionEntry T} (there : registry.entries[identity]? = some entry) :
    (registry.forget identity entry).Indexed where
  keyed id other held := by
    rw [entries_forget] at held
    split at held
    next => cases held
    next => exact ok.keyed id other held
  deadlines deadline := by
    have own := ok.keyed identity entry there
    rw [entries_forget]
    refine (mem_set_erase_iff _ _ _).trans ?_
    rw [ok.deadlines, own]
    split
    next same =>
      rw [← same, there]
      refine iff_of_false ?_ (by simp)
      rintro ⟨apart, _, ⟨⟩, expires⟩
      apply apart
      rw [expires, same]
    next other =>
      apply and_iff_right
      intro same
      exact other (congrArg Deadline.id same)

theorem holds_insert {registry : SessionRegistry (Resource T)} {entry : SessionEntry (Resource T)}
    (vacant : entry.id ∉ registry.entries) (id : String) (serial : Nat) :
    (registry.insert entry).Holds id serial ↔
      entry.id = id ∧ entry.value.serial = serial ∨ registry.Holds id serial := by
  unfold Holds
  rw [entries_insert]
  split
  next own =>
    rw [← own, getElem?_of_vacant vacant]
    simp
  next other => simp [other]

theorem holds_forget (registry : SessionRegistry (Resource T)) (identity : String)
    (entry : SessionEntry (Resource T)) (id : String) (serial : Nat) :
    (registry.forget identity entry).Holds id serial ↔
      identity ≠ id ∧ registry.Holds id serial := by
  unfold Holds
  rw [entries_forget]
  split
  next own => simp [own]
  next other => simp [other]

end SessionRegistry

structure Consistent (s : World T H) : Prop where
  indexed : s.registry.Indexed
  /-- A resource that was created has a session until it is released. -/
  owned : ∀ serial, (∃ id, s.registry.Holds id serial) ↔
    serial < s.resources.created ∧ serial ∉ s.resources.released
  /-- No two sessions have one resource. -/
  apart : ∀ id id' serial, s.registry.Holds id serial → s.registry.Holds id' serial → id = id'
  once : s.resources.released.Nodup
  made : ∀ serial ∈ s.resources.released, serial < s.resources.created

theorem consistent_new (recovery : RecoveryPolicy) (h : H) :
    Consistent (⟨.new recovery, ⟨h, 0, [], []⟩⟩ : World T H) where
  indexed := SessionRegistry.indexed_new recovery
  owned serial := by
    refine iff_of_false ?_ fun both => absurd both.1 (Nat.not_lt_zero _)
    rintro ⟨id, entry, there, -⟩
    rw [SessionRegistry.entries_new] at there
    cases there
  apart id id' serial := by
    rintro ⟨entry, there, -⟩
    rw [SessionRegistry.entries_new] at there
    cases there
  once := nodup_nil
  made serial mem := absurd mem not_mem_nil

namespace Consistent

variable {s : World T H}

theorem inserted (ok : Consistent s) {entry : SessionEntry (Resource T)}
    (vacant : entry.id ∉ s.registry.entries) (h : H)
    (next : entry.value.serial = s.resources.created) : Consistent ⟨s.registry.insert entry,
      { s.resources with host := h, created := s.resources.created + 1 }⟩ := by
  have holds := SessionRegistry.holds_insert vacant
  have older : ∀ id, ¬ s.registry.Holds id s.resources.created := fun id held =>
    absurd ((ok.owned _).mp ⟨id, held⟩).1 (Nat.lt_irrefl _)
  refine ⟨ok.indexed.insert vacant, fun serial => ?_, fun id id' serial => ?_, ok.once,
    fun serial mem => Nat.lt_succ_of_lt (ok.made serial mem)⟩
  · have fresh : s.resources.created ∉ s.resources.released := fun mem =>
      absurd (ok.made _ mem) (Nat.lt_irrefl _)
    simp only [holds, exists_or, ok.owned, next]
    constructor
    · rintro (⟨id, -, rfl⟩ | ⟨made, kept⟩)
      · exact ⟨Nat.lt_succ_self _, fresh⟩
      · exact ⟨Nat.lt_succ_of_lt made, kept⟩
    · rintro ⟨made, kept⟩
      rcases Nat.lt_succ_iff_lt_or_eq.mp made with before | rfl
      · exact .inr ⟨before, kept⟩
      · exact .inl ⟨entry.id, rfl, rfl⟩
  · rw [holds, holds, next]
    rintro (⟨rfl, rfl⟩ | held) (⟨rfl, same⟩ | held')
    · rfl
    · exact absurd held' (older id')
    · exact absurd (same ▸ held) (older id)
    · exact ok.apart id id' serial held held'

theorem removed (ok : Consistent s) {identity : String} {entry : SessionEntry (Resource T)}
    (there : s.registry.entries[identity]? = some entry) (h : H) :
    Consistent (s.removed identity entry h) := by
  have holds := SessionRegistry.holds_forget s.registry identity entry
  have own : s.registry.Holds identity entry.value.serial := ⟨entry, there, rfl⟩
  obtain ⟨made, kept⟩ := (ok.owned _).mp ⟨identity, own⟩
  refine ⟨ok.indexed.forget there, fun serial => ?_, fun id id' serial => ?_, ?_, fun serial mem => ?_⟩
  · simp only [removed_registry, removed_resources, holds, mem_append, mem_singleton,
      not_or]
    rw [← and_assoc, ← ok.owned]
    constructor
    · rintro ⟨id, other, held⟩
      refine ⟨⟨id, held⟩, ?_⟩
      rintro rfl
      exact other (ok.apart _ _ _ own held)
    · rintro ⟨⟨id, held⟩, other⟩
      refine ⟨id, ?_, held⟩
      rintro rfl
      obtain ⟨_, there', same⟩ := held
      cases there.symm.trans there'
      exact other same.symm
  · rw [removed_registry, holds, holds]
    rintro ⟨-, held⟩ ⟨-, held'⟩
    exact ok.apart id id' serial held held'
  · exact nodup_append.mpr ⟨ok.once, nodup_singleton _, fun a mem b mem' same =>
      kept (mem_singleton.mp mem' ▸ same ▸ mem)⟩
  · rcases mem_append.mp mem with before | last
    · exact ok.made serial before
    · rw [mem_singleton.mp last]
      exact made

theorem rotated (ok : Consistent s) {identity id : String} {entry : SessionEntry (Resource T)}
    (there : s.registry.entries[identity]? = some entry) (vacant : id ∉ s.registry.entries)
    (expiresAtTick : UInt64) :
    Consistent { s with registry :=
      (s.registry.forget identity entry).insert { entry with id, expiresAtTick } } := by
  have free : id ∉ (s.registry.forget identity entry).entries := fun mem =>
    vacant ((Lib.mem_erase_iff _ _ _).mp mem).2
  have own : s.registry.Holds identity entry.value.serial := ⟨entry, there, rfl⟩
  have holds : ∀ other serial, ((s.registry.forget identity entry).insert
      { entry with id, expiresAtTick }).Holds other serial ↔
        id = other ∧ entry.value.serial = serial ∨
          identity ≠ other ∧ s.registry.Holds other serial := fun other serial =>
    (SessionRegistry.holds_insert free other serial).trans
      (or_congr_right (SessionRegistry.holds_forget _ _ _ _ _))
  refine ⟨(ok.indexed.forget there).insert free, fun serial => ?_, fun other other' serial => ?_,
    ok.once, ok.made⟩
  · rw [← ok.owned]
    simp only [holds]
    constructor
    · rintro ⟨other, ⟨-, rfl⟩ | ⟨-, held⟩⟩
      · exact ⟨identity, own⟩
      · exact ⟨other, held⟩
    · rintro ⟨other, held⟩
      by_cases same : identity = other
      · obtain ⟨entry', there', rfl⟩ := held
        rw [← same, there] at there'
        cases there'
        exact ⟨id, .inl ⟨rfl, rfl⟩⟩
      · exact ⟨other, .inr ⟨same, held⟩⟩
  · rw [holds, holds]
    rintro (⟨rfl, rfl⟩ | ⟨apart, held⟩) (⟨rfl, same⟩ | ⟨apart', held'⟩)
    · rfl
    · exact absurd (ok.apart _ _ _ own held') apart'
    · exact absurd (ok.apart _ _ _ (same ▸ own) held) apart
    · exact ok.apart _ _ _ held held'

theorem change {s' : World T H} (ok : Consistent s) (change : Changes s s') : Consistent s' := by
  cases change with
  | same => exact ok
  | clock nowTick clockOrigin =>
    exact ⟨⟨ok.indexed.keyed, ok.indexed.deadlines⟩, ok.owned, ok.apart, ok.once, ok.made⟩
  | notCreated | refused => exact ⟨ok.indexed, ok.owned, ok.apart, ok.once, ok.made⟩
  | inserted id expiresAtTick h value vacant => exact ok.inserted vacant h rfl
  | removed identity entry h there => exact ok.removed there h
  | rotated identity id expiresAtTick entry there vacant =>
    exact ok.rotated there vacant expiresAtTick

end Consistent

/-! ## Passes of expiry -/

/-- The deadlines that are due, the earliest first. -/
def due (now : UInt64) (s : World T H) : List Deadline :=
  s.registry.deadlines.toList.takeWhile fun deadline => deadline.expiresAtTick ≤ now

/-- The resource of the session with a deadline. -/
def serialAt (s : World T H) (deadline : Deadline) : Option Nat :=
  s.registry.entries[deadline.id]?.map (·.value.serial)

/-- A pass that released the sessions of some deadlines. -/
structure Expires (now : UInt64) (limit : Nat) (s s' : World T H)
    (result : Except SessionError (List String)) (done : List Deadline) : Prop where
  /-- They are due and the earliest, and not more than the limit. -/
  earliest : done <+: (due now s).take limit
  deadlines : s'.registry.deadlines.toList = s.registry.deadlines.toList.drop done.length
  released : s'.resources.released = s.resources.released ++ done.filterMap (serialAt s)
  entries : ∀ id, s'.registry.entries[id]? =
    if id ∈ done.map (·.id) then none else s.registry.entries[id]?
  /-- The pass ends with the limit or with all that is due, or at a release that fails. -/
  ending : (result = .ok (done.map (·.id)) ∧ done = (due now s).take limit ∧
      s'.resources.failed = s.resources.failed) ∨
    ∃ error deadline serial, result = .error error ∧
      s.registry.deadlines.toList[done.length]? = some deadline ∧
      deadline.id ∉ done.map (·.id) ∧ serialAt s deadline = some serial ∧
        s'.resources.failed = s.resources.failed ++ [serial]

/-- A pass with nothing due. -/
theorem Expires.nothing {now : UInt64} {limit : Nat} {s : World T H}
    (none : (due now s).take limit = []) : Expires now limit s s (.ok []) [] where
  earliest := nil_prefix
  deadlines := rfl
  released := (append_nil _).symm
  entries _ := rfl
  ending := .inl ⟨rfl, none.symm, rfl⟩

/-- A release that succeeds, and the rest of the pass. -/
theorem Expires.cons {now : UInt64} {limit : Nat} {s s' : World T H} {deadline : Deadline}
    {rest : List Deadline} {entry : SessionEntry (Resource T)} {h : H}
    {result : Except SessionError (List String)} {done : List Deadline} (ok : Consistent s)
    (first : s.registry.deadlines.toList = deadline :: rest) (isDue : deadline.expiresAtTick ≤ now)
    (there : s.registry.entries[deadline.id]? = some entry)
    (later : Expires now limit (s.removed deadline.id entry h) s' result done) :
    Expires now (limit + 1) s s' (result.map (deadline.id :: ·)) (deadline :: done) := by
  have after := ok.removed there h
  have own : (⟨entry.expiresAtTick, entry.id⟩ : Deadline) = deadline := by
    have mem : deadline ∈ s.registry.deadlines :=
      ExtTreeSet.mem_toList.mp (first ▸ mem_cons_self)
    obtain ⟨entry', there', expires⟩ := (ok.indexed.deadlines deadline).mp mem
    cases there.symm.trans there'
    rw [expires, ok.indexed.keyed _ _ there]
  have erased : (s.registry.forget deadline.id entry).deadlines.toList = rest := by
    refine Eq.trans ?_ (toList_erase_first first)
    rw [← own]
    rfl
  have dueAfter : due now s = deadline :: rest.takeWhile (fun d => d.expiresAtTick ≤ now) := by
    unfold due
    rw [first, takeWhile_cons, if_pos (decide_eq_true isDue)]
  have inside : ∀ other ∈ done, other ∈ rest := by
    intro other mem
    have listed := mem_of_mem_take (later.earliest.subset mem)
    unfold due at listed
    rw [removed_registry, erased] at listed
    exact ( takeWhile_prefix _).subset listed
  have apart : ∀ other ∈ done, deadline.id ≠ other.id := by
    intro other mem same
    have held : other ∈ (s.registry.forget deadline.id entry).deadlines :=
      ExtTreeSet.mem_toList.mp (erased ▸ inside other mem)
    obtain ⟨entry', there', -⟩ := (after.indexed.deadlines other).mp held
    rw [removed_registry, SessionRegistry.entries_forget, if_pos same] at there'
    cases there'
  obtain ⟨earliest, deadlines, released, entries, ending⟩ := later
  unfold due at earliest ending
  rw [removed_registry] at earliest deadlines ending
  rw [removed_resources] at released ending
  dsimp only at released ending
  rw [erased] at earliest deadlines ending
  have serials : done.filterMap (serialAt (s.removed deadline.id entry h)) =
      done.filterMap (serialAt s) := by
    refine filterMap_congr fun other mem => ?_
    unfold serialAt
    rw [removed_registry, SessionRegistry.entries_forget, if_neg (apart other mem)]
  refine ⟨?_, ?_, ?_, fun id => ?_, ?_⟩
  · rw [dueAfter, take_succ_cons]
    exact cons_prefix_cons.mpr ⟨rfl, earliest⟩
  · rw [deadlines, first]
    rfl
  · rw [released, serials]
    have head : serialAt s deadline = some entry.value.serial := by
      unfold serialAt
      rw [there]
      rfl
    rw [filterMap_cons_some head, append_assoc, singleton_append]
  · rw [entries, removed_registry, SessionRegistry.entries_forget, map_cons]
    by_cases same : deadline.id = id
    · simp [same]
    · have other : ¬ id = deadline.id := fun eq => same eq.symm
      simp [same, other]
  · rcases ending with ⟨rfl, all, same⟩ | ⟨error, next, serial, rfl, found, fresh, held, failed⟩
    · refine .inl ⟨rfl, ?_, same⟩
      rw [dueAfter, take_succ_cons, ← all]
    · unfold serialAt at held
      rw [removed_registry, SessionRegistry.entries_forget] at held
      split at held
      next => cases held
      next other =>
        refine .inr ⟨error, next, serial, rfl, ?_, ?_, held, failed⟩
        · rw [first, length_cons, getElem?_cons_succ]
          exact found
        · rw [map_cons]
          exact fun mem => (mem_cons.mp mem).elim (fun same => other same.symm) fresh

theorem expireDueLoop_expires (now : UInt64) (limit : Nat) {s : World T H} (ok : Consistent s) :
    (∃ done, Expires now limit s (Method.call (expireDueLoop (recording host) now limit) s).1
      (Method.call (expireDueLoop (recording host) now limit) s).2 done) ∧
      Consistent (Method.call (expireDueLoop (recording host) now limit) s).1 := by
  induction limit generalizing s with
  | zero => exact ⟨⟨[], .nothing rfl⟩, ok⟩
  | succ limit ih =>
    rw [expireDueLoop, call_get_bind]
    have head := @ExtTreeSet.min?_eq_head?_toList _ _ s.registry.deadlines _
    cases first : s.registry.deadlines.toList with
    | nil =>
      rw [first] at head
      rw [head]
      refine ⟨⟨[], .nothing ?_⟩, ok⟩
      unfold due
      rw [first]
      rfl
    | cons deadline rest =>
      rw [first] at head
      rw [head]
      dsimp only [head?_cons]
      by_cases later : now < deadline.expiresAtTick
      · rw [if_pos later]
        refine ⟨⟨[], .nothing ?_⟩, ok⟩
        unfold due
        rw [first, takeWhile_cons, if_neg]
        · rfl
        · simpa using later
      · rw [if_neg later, call_bind]
        have isDue : deadline.expiresAtTick ≤ now := UInt64.not_lt.mp later
        have mem : deadline ∈ s.registry.deadlines :=
          ExtTreeSet.mem_toList.mp (first ▸ mem_cons_self)
        obtain ⟨held, there, -⟩ := (ok.indexed.deadlines deadline).mp mem
        rcases remove_cases host s deadline.id with ⟨entry, h, there', run | ⟨error, run⟩⟩ | ⟨gone, -⟩
        · obtain ⟨⟨done, expires⟩, after⟩ := ih (ok.removed there' h)
          have more := Expires.cons ok first isDue there' expires
          rw [run]
          dsimp only
          rw [call_bind]
          revert more after
          rcases Method.call (expireDueLoop (recording host) now limit) _ with ⟨s', error | ids⟩
          · exact fun after more => ⟨⟨deadline :: done, more⟩, after⟩
          · exact fun after more => ⟨⟨deadline :: done, more⟩, after⟩
        · rw [run]
          refine ⟨⟨[], ?_⟩, ok.change (.refused deadline.id entry h there')⟩
          refine ⟨ nil_prefix, rfl, (append_nil _).symm, fun _ => rfl, .inr ?_⟩
          refine ⟨error, deadline, entry.value.serial, rfl, ?_, not_mem_nil, ?_, rfl⟩
          · rw [first]
            rfl
          · unfold serialAt
            rw [there']
            rfl
        · rw [there] at gone
          cases gone

/-! ## Runs -/

/-- A release that fails keeps the session of the resource, and its deadline. -/
def KeepsFailed (s s' : World T H) : Prop :=
  s'.resources.failed = s.resources.failed ∨
    ∃ id entry, s.registry.entries[id]? = some entry ∧ s'.registry.entries[id]? = some entry ∧
      ⟨entry.expiresAtTick, id⟩ ∈ s'.registry.deadlines ∧
      s'.resources.failed = s.resources.failed ++ [entry.value.serial]

/-- What holds of one call of a run. -/
structure Sound (encode : List UInt8 → String) (s : World T H) (call : Call T) : Prop where
  keepsFailed : KeepsFailed s (call.run encode host s).1
  /-- A collision or a failed creation changes nothing. -/
  refuses : call.Attempts host s → ¬ call.Succeeded (call.run encode host s).2 →
    Unchanged s (call.run encode host s).1
  expires : ∀ now limit, call = .expireDueLimit now limit → ∃ done result,
    Expires (s.registry.observedTick now) limit s (call.run encode host s).1 result done ∧
      (call.run encode host s).2 = (result.mapError Fault.returned).map .expired

theorem Changes.keepsFailed {s s' : World T H} (ok : Consistent s) (change : Changes s s') :
    KeepsFailed s s' := by
  cases change with
  | refused identity entry h there =>
    refine .inr ⟨identity, entry, there, there, ?_, rfl⟩
    exact (ok.indexed.deadlines ⟨entry.expiresAtTick, identity⟩).mpr ⟨entry, there, rfl⟩
  | _ => exact .inl rfl

theorem Expires.keepsFailed {now : UInt64} {limit : Nat} {s s' : World T H}
    {result : Except SessionError (List String)} {done : List Deadline} (ok : Consistent s)
    (expires : Expires now limit s s' result done) : KeepsFailed s s' := by
  rcases expires.ending with ⟨-, -, same⟩ | ⟨error, deadline, serial, -, next, kept, held, failed⟩
  · exact .inl same
  have mem : deadline ∈ s.registry.deadlines :=
    ExtTreeSet.mem_toList.mp (mem_of_getElem? next)
  obtain ⟨entry, there, due⟩ := (ok.indexed.deadlines deadline).mp mem
  unfold serialAt at held
  rw [there] at held
  have behind : deadline ∈ s'.registry.deadlines := by
    rw [← ExtTreeSet.mem_toList, expires.deadlines]
    exact mem_of_getElem? (show (s.registry.deadlines.toList.drop done.length)[0]? =
      some deadline by rw [getElem?_drop]; exact next)
  refine .inr ⟨deadline.id, entry, there, ?_, ?_, ?_⟩
  · rw [expires.entries, if_neg kept]
    exact there
  · rw [due]
    exact behind
  · rw [failed]
    exact congrArg (s.resources.failed ++ [·]) (Option.some.inj held).symm

/-- One call keeps the registry consistent. -/
theorem run_sound (encode : List UInt8 → String) {s : World T H} (ok : Consistent s)
    (call : Call T) : Sound host encode s call ∧ Consistent (call.run encode host s).1 := by
  by_cases pass : ∃ now limit, call = .expireDueLimit now limit
  · obtain ⟨now, limit, rfl⟩ := pass
    obtain ⟨⟨done, expires⟩, after⟩ :=
      expireDueLoop_expires host (s.registry.observedTick now) limit ok
    have run : (Call.expireDueLimit now limit).run encode host s =
        Method.call (.expired <$> (expireDueLoop (recording host) (s.registry.observedTick now)
          limit).orReturn) s := rfl
    rw [call_map, call_orReturn] at run
    have keeps := expires.keepsFailed ok
    refine ⟨⟨?_, False.elim, fun _ _ same => ?_⟩, ?_⟩
    · rw [run]
      exact keeps
    · cases same
      rw [run]
      exact ⟨done, _, expires, rfl⟩
    · rw [run]
      exact after
  · have single : ∀ now limit, call ≠ .expireDueLimit now limit := fun now limit same =>
      pass ⟨now, limit, same⟩
    obtain ⟨change, refuses⟩ := call_settles host encode s call single
    exact ⟨⟨change.keepsFailed ok, refuses, fun now limit same => absurd same (single now limit)⟩,
      ok.change change⟩

/-- Of every run over every host: the registry is consistent after it, and every call of it was
sound. -/
theorem session_registry_consistent (encode : List UInt8 → String) (recovery : RecoveryPolicy)
    (h : H) (calls : List (Call T)) :
    Consistent (Lib.replay (Call.run encode host) ⟨.new recovery, ⟨h, 0, [], []⟩⟩ calls).1 ∧
      Lib.Guarded (Call.run encode host) (Sound host encode) ⟨.new recovery, ⟨h, 0, [], []⟩⟩
        calls := by
  have kept : ∀ (s : World T H), Consistent s →
      Consistent (Lib.replay (Call.run encode host) s calls).1 ∧
        Lib.Guarded (Call.run encode host) (Sound host encode) s calls := by
    induction calls with
    | nil => exact fun s ok => ⟨ok, trivial⟩
    | cons call calls ih =>
      intro s ok
      obtain ⟨sound, next⟩ := run_sound host encode ok call
      obtain ⟨after, rest⟩ := ih _ next
      exact ⟨after, sound, rest⟩
  exact kept _ (consistent_new recovery h)

end Terlan.HttpSession
