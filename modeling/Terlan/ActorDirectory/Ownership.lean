/-
  Exclusive ownership of actors, over every interleaving of calls on the shared directory and
  of the operations that need it alone.

  `Ownership` is the invariant of the outstanding tokens: no two are for one occupant, and
  each is the owner that the state word of its actor names. `History` ties the generation of a
  slot to the number of insertions into it.

  A slot has `2 ^ 20 - 1` generations. An actor that comes back to a slot after a multiple of
  that many insertions gets the handle it had before, and then the old handle is as good as
  the new one: `Repeats` describes these insertions, and `exclusive_ownership` is about the
  runs without them.
-/
import Mathlib.Data.List.Induction
import Terlan.ActorDirectory.StepSpec

namespace Terlan.ActorDirectory

open Terlan.Lib VmActorDirectory List Function
open VmActorDirectoryError

variable {τ π : Type}

/-! ## Specification -/

/-- The check that guards every use of a token. -/
def VmActorDirectory.accepts (directory : VmActorDirectory τ π) (token : VmActorMutatorToken) :
    Bool :=
  match directory.cellForHandle token.handle with
  | .ok cell => (validateToken cell token).isOk
  | .error _ => false

/-- The tokens that callers have, and those a release has taken and not yet given up. -/
def System.outstanding (sys : System τ π) : List VmActorMutatorToken :=
  sys.tokens ++ sys.calls.filterMap (·.state.held)

/-- Exclusive ownership, of the state a run ends in and of the replies it gave. -/
structure Exclusive (sys : System τ π) (history : List (Request τ π × Reply τ π)) : Prop where
  /-- At most one outstanding token of an actor is accepted. -/
  single : ∀ pid,
    (sys.outstanding.filter fun token =>
      token.handle.pid = pid && sys.directory.accepts token).length ≤ 1
  /-- A rejected operation has not changed a state word. -/
  harmless : ∀ request wrote e, (request, .returned wrote (.error e)) ∈ history → wrote = false
  /-- Nothing issued for an earlier occupant of a slot is accepted. -/
  stale : ∀ slot, ∀ occupant ∈ (sys.occupants slot).tail,
    (∀ cell, sys.directory.cellForHandle occupant.handle ≠ .ok cell) ∧
      ∀ token ∈ occupant.tokens, sys.directory.accepts token = false

/-- The request puts an actor into a slot whose generation has come round to the one that
this actor had there before. -/
def Repeats (sys : System τ π) : Request τ π → Prop
  | .insert pid _ => sys.calls = [] ∧ sys.directory.actorSlots[pid]? = none ∧
      ∃ (back : Nat) (occupant : Occupant),
        (sys.occupants sys.directory.nextSlot)[back]? = some occupant ∧
          occupant.handle.pid = pid ∧ (back + 1) % (2 ^ 20 - 1) = 0
  | _ => False

/-! ## Invariants -/

theorem validateToken_ok_iff {cell : VmActorCell τ π} {token : VmActorMutatorToken} :
    validateToken cell token = .ok () ↔ unpackState cell.state =
      .ok ⟨token.lifecycle, token.handle.actorGeneration, token.ownerGeneration, token.owner⟩ := by
  unfold validateToken
  rw [except_bind_ok_iff]
  constructor
  · rintro ⟨state, read, check⟩
    have same := failIf_ok_iff.mp check
    simp only [not_or, not_not] at same
    obtain ⟨lifecycle, owner, ownerGeneration, actorGeneration⟩ := same
    rw [read, ← lifecycle, ← owner, ← ownerGeneration, ← actorGeneration]
  · intro read
    exact ⟨_, read, failIf_ok_iff.mpr (by simp)⟩

variable {directory : VmActorDirectory τ π}

theorem accepts_iff {token : VmActorMutatorToken} :
    directory.accepts token = true ↔ ∃ cell, directory.cellAt token.handle.slot = some cell ∧
      cell.handle = token.handle ∧ validateToken cell token = .ok () := by
  unfold VmActorDirectory.accepts
  split
  next cell resolved =>
    obtain ⟨found, own⟩ := cellForHandle_ok_iff.mp resolved
    cases valid : validateToken cell token with
    | ok u => exact iff_of_true rfl ⟨cell, found, own, valid⟩
    | error e =>
      refine iff_of_false (by simp [Except.isOk, Except.toBool]) ?_
      rintro ⟨other, found', _, valid'⟩
      rw [found] at found'
      cases found'
      rw [valid] at valid'
      cases valid'
  next e resolved =>
    refine iff_of_false (by simp) ?_
    rintro ⟨cell, found, own, _⟩
    rw [cellForHandle_ok_iff.mpr ⟨found, own⟩] at resolved
    cases resolved

/-- Every state word can be read, and carries the generation of its handle. -/
def Readable (directory : VmActorDirectory τ π) : Prop :=
  ∀ slot cell, directory.cellAt slot = some cell →
    ∃ state, unpackState cell.state = .ok state ∧
      state.actorGeneration = cell.handle.actorGeneration

/-- The insertions into each slot, and the tokens issued between them. -/
structure History (directory : VmActorDirectory τ π) (occupants : Nat → List Occupant) :
    Prop where
  count : ∀ slot, directory.generationAt slot = generationAfter (occupants slot).length
  present : ∀ slot cell, directory.cellAt slot = some cell →
    ∃ occupant older, occupants slot = occupant :: older ∧ occupant.handle = cell.handle
  numbered : ∀ slot back occupant, (occupants slot)[back]? = some occupant →
    occupant.handle.slot = slot ∧
      occupant.handle.actorGeneration = generationAfter ((occupants slot).length - back)
  issued : ∀ slot, ∀ occupant ∈ occupants slot, ∀ token ∈ occupant.tokens,
    token.handle = occupant.handle
  distinct : ∀ slot, ((occupants slot).map (·.handle)).Nodup

/-- The owner of an actor has the only token for it. -/
structure Ownership (directory : VmActorDirectory τ π) (occupants : Nat → List Occupant)
    (outstanding : List VmActorMutatorToken) : Prop where
  single : (outstanding.map (·.handle)).Nodup
  named : ∀ token ∈ outstanding, ∀ cell, directory.cellAt token.handle.slot = some cell →
    cell.handle = token.handle → token.owner ≠ 0 ∧ validateToken cell token = .ok ()
  recorded : ∀ token ∈ outstanding,
    token.handle ∈ (occupants token.handle.slot).map (·.handle)

/-- A call in flight has its cell, and a call that has written cannot fail. -/
def InFlight (directory : VmActorDirectory τ π) (call : Call π) : Prop :=
  (∃ cell, directory.cellAt call.slot = some cell ∧ call.state.Sound cell.handle) ∧
    (call.wrote = true → call.state.Written)

structure Consistent (sys : System τ π) : Prop where
  wellFormed : sys.directory.WellFormed
  readable : Readable sys.directory
  history : History sys.directory sys.occupants
  ownership : Ownership sys.directory sys.occupants sys.outstanding
  inFlight : ∀ call ∈ sys.calls, InFlight sys.directory call

theorem new_consistent : Consistent (System.new : System τ π) where
  wellFormed := VmActorDirectory.new_wellFormed
  readable slot cell found := by cases slot <;> cases found
  history :=
    { count := fun slot => by cases slot <;> rfl
      present := fun slot cell found => by cases slot <;> cases found
      numbered := fun slot back occupant mem => by cases mem
      issued := fun slot occupant mem => by cases mem
      distinct := fun slot => nodup_nil }
  ownership :=
    { single := nodup_nil
      named := fun token mem => by cases mem
      recorded := fun token mem => by cases mem }
  inFlight call mem := by cases mem

/-! ### Tokens -/

variable {occupants : Nat → List Occupant}

theorem Ownership.perm
    {tokens tokens' : List VmActorMutatorToken} (h : Ownership directory occupants tokens)
    (order : tokens.Perm tokens') : Ownership directory occupants tokens' where
  single := (order.map _).nodup_iff.mp h.single
  named token mem := h.named token (order.mem_iff.mpr mem)
  recorded token mem := h.recorded token (order.mem_iff.mpr mem)

theorem Ownership.rest
    {gone tokens : List VmActorMutatorToken} (h : Ownership directory occupants (gone ++ tokens)) :
    Ownership directory occupants tokens where
  single := by
    have nodup := h.single
    rw [map_append] at nodup
    exact (nodup_append.mp nodup).2.1
  named token mem := h.named token (mem_append_right _ mem)
  recorded token mem := h.recorded token (mem_append_right _ mem)

variable {state : VmActorState}

/-- Nobody has a token for an actor without an owner. -/
theorem Ownership.unowned
    {tokens : List VmActorMutatorToken} (h : Ownership directory occupants tokens)
    {cell : VmActorCell τ π} (found : directory.cellAt cell.handle.slot = some cell)
    (read : unpackState cell.state = .ok state)
    (free : state.owner = 0) : ∀ token ∈ tokens, token.handle ≠ cell.handle := by
  intro token mem own
  have owned := h.named token mem cell (by rw [own]; exact found) own.symm
  have same := validateToken_ok_iff.mp owned.2
  rw [read] at same
  cases same
  exact owned.1 free

variable {old cell : VmActorCell τ π}

/-- What the tokens say is about the word of their own cell only. -/
theorem Ownership.setCell
    {tokens : List VmActorMutatorToken} (h : Ownership directory occupants tokens)
    (found : directory.cellAt cell.handle.slot = some old)
    (named : ∀ token ∈ tokens, token.handle = cell.handle →
      token.owner ≠ 0 ∧ validateToken cell token = .ok ()) :
    Ownership (directory.setCell cell) occupants tokens where
  single := h.single
  named token mem other found' own := by
    rw [VmActorDirectory.cellAt_setCell found] at found'
    split at found'
    next => cases found'; exact named token mem own.symm
    next => exact h.named token mem other found' own
  recorded := h.recorded

theorem validateToken_congr {cell cell' : VmActorCell τ π} (same : cell'.state = cell.state)
    (token : VmActorMutatorToken) : validateToken cell' token = validateToken cell token := by
  unfold validateToken
  rw [same]

theorem History.setCell (h : History directory occupants)
    (found : directory.cellAt cell.handle.slot = some old) (same : cell.handle = old.handle) :
    History (directory.setCell cell) occupants where
  count slot := by rw [VmActorDirectory.generationAt_setCell, h.count]
  present slot other found' := by
    rw [VmActorDirectory.cellAt_setCell found] at found'
    split at found'
    next own =>
      cases found'
      obtain ⟨occupant, older, eq, handle⟩ := h.present _ old found
      exact ⟨occupant, older, by rw [own, eq], by rw [handle, same]⟩
    next => exact h.present slot other found'
  numbered := h.numbered
  issued := h.issued
  distinct := h.distinct

theorem Readable.setCell (h : Readable directory)
    (found : directory.cellAt cell.handle.slot = some old)
    (read : ∃ state, unpackState cell.state = .ok state ∧
      state.actorGeneration = cell.handle.actorGeneration) : Readable (directory.setCell cell) := by
  intro slot other found'
  rw [cellAt_setCell found] at found'
  split at found'
  next => cases found'; exact read
  next => exact h slot other found'

theorem InFlight.setCell {call : Call π} (h : InFlight directory call)
    (found : directory.cellAt cell.handle.slot = some old) (same : cell.handle = old.handle) :
    InFlight (directory.setCell cell) call := by
  obtain ⟨⟨other, found', sound⟩, written⟩ := h
  refine ⟨?_, written⟩
  rw [cellAt_setCell found]
  split
  next own =>
    rw [own, found] at found'
    cases found'
    exact ⟨cell, rfl, by rw [same]; exact sound⟩
  next => exact ⟨other, found', sound⟩

/-- The word stays readable. -/
theorem WordEffect.readable {handle : VmActorHandle} {before after : UInt64}
    {held held' granted : Option VmActorMutatorToken}
    (effect : WordEffect handle before after held held' granted)
    (read : unpackState before = .ok state) :
    ∃ state', unpackState after = .ok state' ∧ state'.actorGeneration = state.actorGeneration := by
  cases effect with
  | unchanged same kept => exact ⟨state, by rw [same, read], rfl⟩
  | moved read' unowned write | granted read' unowned own nonzero write | released read' write =>
    rw [read] at read'
    cases read'
    exact ⟨_, write, rfl⟩

theorem WordEffect.handle {handle : VmActorHandle} {before after : UInt64}
    {held held' : Option VmActorMutatorToken} {token : VmActorMutatorToken}
    (effect : WordEffect handle before after held held' (some token)) : token.handle = handle := by
  generalize granted : some token = g at effect
  cases effect with
  | granted _ _ own _ _ => cases granted; exact own
  | _ => cases granted

/-- What one operation leaves of the tokens: `rest` are the tokens the call does not hold. -/
theorem Ownership.effect
    {held held' granted : Option VmActorMutatorToken} {rest : List VmActorMutatorToken}
    {cell cell' : VmActorCell τ π} (h : Ownership directory occupants (held.toList ++ rest))
    (found : directory.cellAt cell.handle.slot = some cell) (same : cell'.handle = cell.handle)
    (readable : ∃ state, unpackState cell.state = .ok state ∧
      state.actorGeneration = cell.handle.actorGeneration)
    (present : cell.handle ∈ (occupants cell.handle.slot).map (·.handle))
    (own : ∀ token, held = some token → token.handle = cell.handle)
    (effect : WordEffect cell.handle cell.state cell'.state held held' granted) :
    Ownership (directory.setCell cell') occupants (held'.toList ++ (granted.toList ++ rest)) := by
  have found' : directory.cellAt cell'.handle.slot = some cell := by rw [same]; exact found
  cases effect with
  | @unchanged held held' unchanged kept =>
    have left : Ownership directory occupants (held'.toList ++ rest) := by
      rcases kept with rfl | rfl
      · exact h
      · exact h.rest
    refine left.setCell found' fun token mem named => ?_
    rw [validateToken_congr unchanged]
    rw [same] at named
    exact left.named token mem cell (by rw [named]; exact found) named.symm
  | moved read unowned write =>
    refine h.setCell found' fun token mem named => ?_
    rw [same] at named
    exact absurd named (h.unowned found read unowned token mem)
  | @granted state token read unowned fits nonzero write =>
    have fresh := h.unowned found read unowned
    have grown : Ownership directory occupants rest := h
    have valid : validateToken cell' token = .ok () := by
      obtain ⟨state', read', generation⟩ := readable
      rw [read] at read'
      cases read'
      rw [validateToken_ok_iff, write, fits, generation]
    refine
      { single := nodup_cons.mpr ⟨fun mem => ?_, grown.single⟩
        named := fun other mem other' found'' own' => ?_
        recorded := fun other mem => ?_ }
    · obtain ⟨other, mem, eq⟩ := mem_map.mp mem
      exact fresh other mem (eq.trans fits)
    · rw [cellAt_setCell found'] at found''
      rcases mem_cons.mp mem with rfl | mem
      · rw [fits, same, if_pos rfl] at found''
        cases found''
        exact ⟨nonzero, valid⟩
      · split at found''
        next =>
          cases found''
          exact absurd (own'.symm.trans same) (fresh other mem)
        next => exact grown.named other mem other' found'' own'
    · rcases mem_cons.mp mem with rfl | mem
      · rw [fits]
        exact present
      · exact grown.recorded other mem
  | @released state token lifecycle read write =>
    refine h.rest.setCell found' fun other mem named => ?_
    have single := h.single
    rw [map_append] at single
    have apart := (nodup_append.mp single).2.2 token.handle
      (mem_map_of_mem (mem_singleton.mpr rfl)) other.handle (mem_map_of_mem mem)
    exact absurd (((own token rfl).trans same.symm).trans named.symm) apart

/-! ### Steps of the system -/

theorem split_at {α : Type} {l : List α} {i : Nat} {a : α} (h : l[i]? = some a) :
    ∃ before after, l = before ++ a :: after ∧ l.eraseIdx i = before ++ after ∧
      ∀ b, l.set i b = before ++ b :: after := by
  obtain ⟨inside, rfl⟩ := List.getElem?_eq_some_iff.mp h
  refine ⟨l.take i, l.drop (i + 1), ?_, eraseIdx_eq_take_drop_succ l i, fun b => ?_⟩
  · rw [getElem_cons_drop, take_append_drop]
  · rw [set_eq_take_append_cons_drop, if_pos inside]

namespace Consistent

variable {sys : System τ π}

/-- A new call holds at most the tokens just taken for it. -/
theorem start (h : Consistent sys) {cell : Except VmActorDirectoryError (VmActorCell τ π)}
    {call : CallState π} (none : call.held = none)
    (located : ∀ c, cell = .ok c → sys.directory.cellAt c.handle.slot = some c)
    (sound : ∀ c, cell = .ok c → call.Sound c.handle) : Consistent (sys.start cell call).1 := by
  unfold System.start
  split
  next => exact h
  next c =>
    refine
      { wellFormed := h.wellFormed
        readable := h.readable
        history := h.history
        ownership := ?_
        inFlight := fun other mem => ?_ }
    · unfold System.outstanding
      rw [filterMap_append, filterMap_cons, none, filterMap_nil, append_nil]
      exact h.ownership
    · rcases mem_append.mp mem with mem | mem
      · exact h.inFlight other mem
      · cases mem_singleton.mp mem
        exact ⟨⟨c, located c rfl, sound c rfl⟩, fun wrote => by cases wrote⟩

variable {place : Nat}

/-- The tokens other than the one at a place. -/
theorem outstanding_take {token : VmActorMutatorToken}
    (mem : sys.tokens[place]? = some token) : sys.outstanding.Perm
      ([token] ++ (sys.tokens.eraseIdx place ++ sys.calls.filterMap (·.state.held))) := by
  obtain ⟨before, after, split, erased, -⟩ := split_at mem
  unfold System.outstanding
  rw [erased, split, append_assoc, cons_append, append_assoc]
  exact perm_middle

/-- A release takes its token along. -/
theorem startHolding (h : Consistent sys) {token : VmActorMutatorToken}
    (mem : sys.tokens[place]? = some token) {call : CallState π} (held : call.held = some token)
    (sound : call.Sound token.handle) :
    Consistent (({ sys with tokens := sys.tokens.eraseIdx place } : System τ π).start
      (sys.directory.cellForHandle token.handle) call).1 := by
  have order := outstanding_take mem
  unfold System.start
  split
  next =>
    exact
      { wellFormed := h.wellFormed
        readable := h.readable
        history := h.history
        ownership := (h.ownership.perm order).rest
        inFlight := h.inFlight }
  next cell resolved =>
    obtain ⟨found, own⟩ := cellForHandle_ok_iff.mp resolved
    refine
      { wellFormed := h.wellFormed
        readable := h.readable
        history := h.history
        ownership := ?_
        inFlight := fun other mem => ?_ }
    · have order' : sys.outstanding.Perm (sys.tokens.eraseIdx place ++
          (sys.calls ++ [(⟨cell.handle.slot, call, false⟩ : Call π)]).filterMap (·.state.held)) := by
        rw [filterMap_append, filterMap_cons, held, filterMap_nil,
          ← append_assoc]
        exact order.trans perm_append_comm
      exact h.ownership.perm order'
    · rcases mem_append.mp mem with mem | mem
      · exact h.inFlight other mem
      · cases mem_singleton.mp mem
        refine ⟨⟨cell, ?_, ?_⟩, fun wrote => by cases wrote⟩
        · rw [own]
          exact found
        · rw [own]
          exact sound

/-- A token that is dropped, or taken by a release that is refused. -/
theorem drop (h : Consistent sys) {token : VmActorMutatorToken}
    (mem : sys.tokens[place]? = some token) :
    Consistent { sys with tokens := sys.tokens.eraseIdx place } := by
  have order := outstanding_take mem
  exact
    { wellFormed := h.wellFormed
      readable := h.readable
      history := h.history
      ownership := (h.ownership.perm order).rest
      inFlight := h.inFlight }

/-- The history keeps the handles when a token is noted. -/
theorem grant_handles (sys : System τ π) (token : VmActorMutatorToken) (slot : Nat) :
    ((sys.grant token).occupants slot).map (·.handle) = (sys.occupants slot).map (·.handle) := by
  unfold System.grant
  by_cases own : slot = token.handle.slot
  · rw [own]
    simp only [update_self]
    cases sys.occupants token.handle.slot <;> simp
  · simp only [update_of_ne own]

/-- The tokens other than the one of a call. -/
theorem held_perm (tokens : List VmActorMutatorToken) (before after : List (Call π))
    (call : Call π) : (tokens ++ (before ++ call :: after).filterMap (·.state.held)).Perm
      (call.state.held.toList ++ (tokens ++ (before ++ after).filterMap (·.state.held))) := by
  rw [filterMap_append, filterMap_append, filterMap_cons]
  cases call.state.held with
  | none => exact List.Perm.refl _
  | some token =>
    have middle := @perm_middle _ token
      (tokens ++ before.filterMap (·.state.held)) (after.filterMap (·.state.held))
    rw [append_assoc, append_assoc] at middle
    exact middle

/-- The history after a grant to the present occupant of a slot. -/
theorem grant_history {directory : VmActorDirectory τ π} {token : VmActorMutatorToken}
    (h : History directory sys.occupants) {occupant : Occupant} {older : List Occupant}
    (eq : sys.occupants token.handle.slot = occupant :: older)
    (own : occupant.handle = token.handle) : History directory (sys.grant token).occupants := by
  have noted : (sys.grant token).occupants token.handle.slot =
      { occupant with tokens := occupant.tokens ++ [token] } :: older := by
    unfold System.grant
    simp only [update_self]
    rw [eq]
    rfl
  have other : ∀ slot, slot ≠ token.handle.slot →
      (sys.grant token).occupants slot = sys.occupants slot := by
    intro slot apart
    unfold System.grant
    simp only [update_of_ne apart]
  refine
    { count := fun slot => ?_
      present := fun slot cell found => ?_
      numbered := fun slot back o mem => ?_
      issued := fun slot o mem issued here => ?_
      distinct := fun slot => ?_ }
  · have length := congrArg List.length (grant_handles sys token slot)
    rw [length_map, length_map] at length
    rw [length]
    exact h.count slot
  · obtain ⟨first, rest, eq', handle⟩ := h.present slot cell found
    by_cases here : slot = token.handle.slot
    · rw [here, eq] at eq'
      cases eq'
      exact ⟨{ occupant with tokens := occupant.tokens ++ [token] }, older,
        by rw [here]; exact noted, handle⟩
    · exact ⟨first, rest, by rw [other slot here]; exact eq', handle⟩
  · by_cases here : slot = token.handle.slot
    · rw [here, noted] at mem ⊢
      have numbered := h.numbered token.handle.slot back
      rw [eq] at numbered
      cases back with
      | zero =>
        cases mem
        exact numbered occupant rfl
      | succ back => exact numbered o mem
    · rw [other slot here] at mem ⊢
      exact h.numbered slot back o mem
  · by_cases at_slot : slot = token.handle.slot
    · rw [at_slot, noted] at mem
      have earlier := h.issued token.handle.slot
      rw [eq] at earlier
      rcases mem_cons.mp mem with rfl | mem
      · rcases mem_append.mp here with here | here
        · exact earlier occupant mem_cons_self issued here
        · cases mem_singleton.mp here
          exact own.symm
      · exact earlier o (mem_cons_of_mem _ mem) issued here
    · rw [other slot at_slot] at mem
      exact h.issued slot o mem issued here
  · rw [grant_handles]
    exact h.distinct slot

/-- One operation of a call in flight. -/
theorem advance (h : Consistent sys) (place : Nat) : Consistent (sys.advance place).1 := by
  unfold System.advance
  split
  next => exact h
  next call mem =>
  split
  next => exact h
  next cell found =>
  obtain ⟨before, after, split, erased, replaced⟩ := split_at mem
  obtain ⟨⟨_, found', sound⟩, written⟩ := h.inFlight call (by rw [split]; simp)
  rw [found] at found'
  cases found'
  have slot : cell.handle.slot = call.slot := (h.wellFormed.occupied _ cell found).1
  have located : sys.directory.cellAt cell.handle.slot = some cell := by rw [slot]; exact found
  obtain ⟨state, read, generation⟩ := h.readable _ cell found
  obtain ⟨occupant, older, eq, own⟩ := h.history.present _ cell located
  have present : cell.handle ∈ (sys.occupants cell.handle.slot).map (·.handle) := by
    rw [eq, map_cons, own]
    exact mem_cons_self
  have effect := step_effect sound
  have settled := @step_written τ π call.state cell ⟨state, read⟩
  have goes := fun next => @step_sound τ π cell call.state next sound
  have same := step_handle cell call.state
  rcases run : call.state.step cell with ⟨cell', progress⟩
  rw [run] at effect settled goes same
  have located' : sys.directory.cellAt cell'.handle.slot = some cell := by rw [same]; exact located
  have wellFormed := h.wellFormed.setCell located' same
  have readable : Readable (sys.directory.setCell cell') := h.readable.setCell located' (by
    obtain ⟨state', write, kept⟩ := effect.readable read
    exact ⟨state', write, by rw [kept, generation, same]⟩)
  have history := h.history.setCell located' same
  have outstanding : sys.outstanding.Perm (call.state.held.toList ++
      (sys.tokens ++ (before ++ after).filterMap (·.state.held))) := by
    unfold System.outstanding
    rw [split]
    exact held_perm sys.tokens before after call
  have ownership := (h.ownership.perm outstanding).effect located same
    ⟨state, read, generation⟩ present (fun token held => sound.held held) effect
  have inFlight : ∀ other ∈ before ++ after, InFlight (sys.directory.setCell cell') other := by
    intro other mem
    refine (h.inFlight other ?_).setCell located' same
    rw [split]
    rcases mem_append.mp mem with mem | mem
    · exact mem_append_left _ mem
    · exact mem_append_right _ (mem_cons_of_mem _ mem)
  cases progress with
  | running next =>
    refine
      { wellFormed := wellFormed
        readable := readable
        history := history
        ownership := ?_
        inFlight := fun other mem => ?_ }
    · unfold System.outstanding
      dsimp only
      rw [replaced]
      exact ownership.perm (held_perm sys.tokens before after
        { call with state := next, wrote := call.wrote || decide (cell'.state ≠ cell.state) }).symm
    · dsimp only at mem
      rw [replaced] at mem
      rcases mem_append.mp mem with mem | mem
      · exact inFlight other (mem_append_left _ mem)
      rcases mem_cons.mp mem with rfl | mem
      · refine ⟨⟨cell', ?_, ?_⟩, fun wrote => settled ?_⟩
        · dsimp only
          rw [cellAt_setCell located', if_pos (by rw [same, slot])]
        · rw [same]
          exact goes next rfl
        · rcases Bool.or_eq_true_iff.mp wrote with wrote | wrote
          · exact .inl (written wrote)
          · exact .inr (of_decide_eq_true wrote)
      · exact inFlight other (mem_append_right _ mem)
  | returned result =>
    have ended : (Progress.returned result : Progress τ π).granted = none →
        Consistent ⟨sys.directory.setCell cell', sys.calls.eraseIdx place, sys.tokens,
          sys.occupants⟩ := by
      intro none
      rw [none] at ownership
      rw [erased]
      exact
        { wellFormed := wellFormed
          readable := readable
          history := history
          ownership := ownership
          inFlight := inFlight }
    dsimp only
    split
    next token =>
      have handle : token.handle = cell.handle := effect.handle
      rw [erased]
      refine
        { wellFormed := wellFormed
          readable := readable
          history := @grant_history τ π ⟨sys.directory.setCell cell', before ++ after,
            sys.tokens, sys.occupants⟩ _ token history occupant older (by rw [handle]; exact eq)
            (by rw [own, handle])
          ownership := ?_
          inFlight := inFlight }
      have order : (token :: (sys.tokens ++ (before ++ after).filterMap (·.state.held))).Perm
          ((sys.tokens ++ [token]) ++ (before ++ after).filterMap (·.state.held)) := by
        rw [append_assoc]
        exact perm_middle.symm
      have reordered := ownership.perm order
      refine
        { single := reordered.single
          named := reordered.named
          recorded := fun t mem => ?_ }
      rw [grant_handles]
      exact reordered.recorded t mem
    next other =>
      refine ended ?_
      cases result with
      | error e => rfl
      | ok value =>
        cases value
        case granted token => exact absurd rfl (other token)
        all_goals rfl

/-- An operation with exclusive access, other than an insertion. -/
theorem exclusive {α : Type} (h : Consistent sys)
    {operation : VmActorDirectory τ π → VmActorDirectory τ π × Except VmActorDirectoryError α}
    {value : α → CallValue τ π} (operates : VmActorDirectory.Operates sys.directory (operation sys.directory)) :
    Consistent (sys.exclusive operation value).1 := by
  unfold System.exclusive
  split
  next idle =>
    have quiet : sys.calls = [] := List.isEmpty_iff.mp idle
    have rearranged := operates.1
    rcases run : operation sys.directory with ⟨directory, result⟩
    rw [run] at rearranged
    refine
      { wellFormed := rearranged.wellFormed h.wellFormed
        readable := ?_
        history := ?_
        ownership := ?_
        inFlight := fun call mem => by dsimp only at mem; rw [quiet] at mem; cases mem }
    all_goals dsimp only at rearranged ⊢
    · cases rearranged with
      | unchanged => exact h.readable
      | @moved cell allowed next after found move awake =>
        obtain ⟨state, read, generation⟩ := h.readable _ cell found
        have effect : WordEffect cell.handle cell.state after none none none := .transition move
        obtain ⟨state', write, kept⟩ := effect.readable read
        have replaced : sys.directory.cellAt
          ({ cell with state := after } : VmActorCell τ π).handle.slot = some cell := found
        exact h.readable.setCell replaced ⟨state', write, by rw [kept, generation]⟩
      | vacated found =>
        intro slot other found'
        rw [cellAt_vacate] at found'
        split at found'
        next => cases found'
        next => exact h.readable slot other found'
    · cases rearranged with
      | unchanged => exact h.history
      | @moved cell allowed next after found move awake =>
        have replaced : sys.directory.cellAt
          ({ cell with state := after } : VmActorCell τ π).handle.slot = some cell := found
        exact h.history.setCell replaced rfl
      | vacated found =>
        refine { h.history with count := fun slot => ?_, present := fun slot other found' => ?_ }
        · rw [VmActorDirectory.generationAt_vacate]
          exact h.history.count slot
        · rw [cellAt_vacate] at found'
          split at found'
          next => cases found'
          next => exact h.history.present slot other found'
    · cases rearranged with
      | unchanged => exact h.ownership
      | @moved cell allowed next after found move awake =>
        obtain ⟨state, read, unowned, -, -⟩ := transitionUnowned_ok move
        have replaced : sys.directory.cellAt
          ({ cell with state := after } : VmActorCell τ π).handle.slot = some cell := found
        exact h.ownership.setCell replaced
          fun token mem own => absurd own (h.ownership.unowned found read unowned token mem)
      | vacated found =>
        refine { h.ownership with named := fun token mem other found' => ?_ }
        rw [cellAt_vacate] at found'
        split at found'
        next => cases found'
        next => exact h.ownership.named token mem other found'
  next => exact h

variable {pid : VmProcessId}

section

variable (h : Consistent sys)
include h

/-- The handle an insertion issues is new, unless the generations have come round. -/
theorem fresh_handle (value : τ)
    (quiet : sys.calls = []) (absent : sys.directory.actorSlots[pid]? = none)
    (fresh : ¬ Repeats sys (.insert pid value)) : (⟨pid, sys.directory.nextSlot,
        generationAfter ((sys.occupants sys.directory.nextSlot).length + 1)⟩ : VmActorHandle) ∉
      (sys.occupants sys.directory.nextSlot).map (·.handle) := by
  intro mem
  obtain ⟨occupant, mem, same⟩ := mem_map.mp mem
  obtain ⟨back, inside, at_back⟩ := mem_iff_getElem.mp mem
  have found : (sys.occupants sys.directory.nextSlot)[back]? = some occupant := by
    rw [getElem?_eq_getElem inside, at_back]
  have numbered := (h.history.numbered _ back occupant found).2
  rw [same] at numbered
  refine fresh ⟨quiet, absent, back, occupant, found, by rw [same], ?_⟩
  have wraps := (generationAfter_eq_iff (by omega) (by omega)).mp numbered.symm
  have distance : (sys.occupants sys.directory.nextSlot).length + 1 -
      ((sys.occupants sys.directory.nextSlot).length - back) = back + 1 := by omega
  rwa [distance] at wraps

/-- A new occupant with a new handle. -/
theorem settle {slot : Nat} {value : τ} {after : VmActorDirectory τ π} (quiet : sys.calls = [])
    (issued : (⟨pid, slot, generationAfter ((sys.occupants slot).length + 1)⟩ : VmActorHandle) ∉
      (sys.occupants slot).map (·.handle)) (wellFormed : after.WellFormed)
    (cells : ∀ place, after.cellAt place = if place = slot then
      some (.new ⟨pid, slot, generationAfter ((sys.occupants slot).length + 1)⟩ value)
      else sys.directory.cellAt place)
    (generations : ∀ place, after.generationAt place = if place = slot then
      generationAfter ((sys.occupants slot).length + 1) else sys.directory.generationAt place) :
    Consistent (({ sys with directory := after } : System τ π).settle
      ⟨pid, slot, generationAfter ((sys.occupants slot).length + 1)⟩) := by
  have here : (({ sys with directory := after } : System τ π).settle
      ⟨pid, slot, generationAfter ((sys.occupants slot).length + 1)⟩).occupants slot =
      ⟨⟨pid, slot, generationAfter ((sys.occupants slot).length + 1)⟩, []⟩ ::
        sys.occupants slot := by
    unfold System.settle
    simp only [update_self]
  have other : ∀ place, place ≠ slot → (({ sys with directory := after } : System τ π).settle
      ⟨pid, slot, generationAfter ((sys.occupants slot).length + 1)⟩).occupants place =
      sys.occupants place := by
    intro place apart
    unfold System.settle
    simp only [update_of_ne apart]
  refine
    { wellFormed := wellFormed
      readable := fun place cell found => ?_
      history :=
        { count := fun place => ?_
          present := fun place cell found => ?_
          numbered := fun place back occupant mem => ?_
          issued := fun place occupant mem => ?_
          distinct := fun place => ?_ }
      ownership :=
        { single := h.ownership.single
          named := fun token mem cell found own => ?_
          recorded := fun token mem => ?_ }
      inFlight := fun call mem => by
        change call ∈ sys.calls at mem
        rw [quiet] at mem
        cases mem }
  · change after.cellAt place = _ at found
    rw [cells] at found
    split at found
    next =>
      cases found
      refine ⟨_, unpackState_packState _ _ _ _, ?_⟩
      exact and_generationMask (generationAfter_lt _)
    next => exact h.readable place cell found
  · change after.generationAt place = _
    rw [generations]
    by_cases own : place = slot
    · rw [if_pos own, own, here]
      rfl
    · rw [if_neg own, other place own]
      exact h.history.count place
  · change after.cellAt place = _ at found
    rw [cells] at found
    by_cases own : place = slot
    · rw [if_pos own] at found
      cases found
      exact ⟨_, _, by rw [own]; exact here, rfl⟩
    · rw [if_neg own] at found
      rw [other place own]
      exact h.history.present place cell found
  · by_cases own : place = slot
    · rw [own, here] at mem ⊢
      cases back with
      | zero =>
        cases mem
        exact ⟨rfl, rfl⟩
      | succ back =>
        obtain ⟨named, numbered⟩ := h.history.numbered slot back occupant mem
        rw [length_cons, Nat.add_sub_add_right]
        exact ⟨named, numbered⟩
    · rw [other place own] at mem ⊢
      exact h.history.numbered place back occupant mem
  · by_cases own : place = slot
    · rw [own, here] at mem
      rcases mem_cons.mp mem with rfl | mem
      · intro token none
        cases none
      · exact h.history.issued slot occupant mem
    · rw [other place own] at mem
      exact h.history.issued place occupant mem
  · by_cases own : place = slot
    · rw [own, here, map_cons]
      exact nodup_cons.mpr ⟨issued, h.history.distinct slot⟩
    · rw [other place own]
      exact h.history.distinct place
  · change after.cellAt token.handle.slot = _ at found
    have earlier := h.ownership.recorded token mem
    rw [cells] at found
    split at found
    next at_slot =>
      cases found
      rw [at_slot, ← own] at earlier
      exact absurd earlier issued
    next => exact h.ownership.named token mem cell found own
  · have earlier := h.ownership.recorded token mem
    by_cases own : token.handle.slot = slot
    · rw [own] at earlier
      rw [own, here, map_cons]
      exact mem_cons_of_mem _ earlier
    · rw [other _ own]
      exact earlier

theorem insert {value : τ} (fresh : ¬ Repeats sys (.insert pid value)) :
    Consistent (sys.call (.insert pid value)).1 := by
  unfold System.call System.exclusive
  dsimp only
  by_cases idle : sys.calls.isEmpty
  · rw [if_pos idle]
    have quiet : sys.calls = [] := List.isEmpty_iff.mp idle
    rcases h.wellFormed.insert_cases pid value with ⟨e, run⟩ | ⟨after, run, absent, vacant,
      wellFormed, cells, generations⟩
    · rw [run]
      exact h
    rw [run]
    have issued := h.fresh_handle value quiet absent fresh
    have count := h.history.count sys.directory.nextSlot
    have generation : nextGeneration (sys.directory.generationAt sys.directory.nextSlot) =
        generationAfter ((sys.occupants sys.directory.nextSlot).length + 1) := by
      rw [count]
      rfl
    rw [generation] at cells generations ⊢
    exact h.settle quiet issued wellFormed cells generations
  · rw [if_neg idle]
    exact h

theorem located {cell : VmActorCell τ π} (resolved : sys.directory.cell pid = .ok cell) :
    sys.directory.cellAt cell.handle.slot = some cell :=
  (h.wellFormed.cell_ok_iff.mp resolved).1

theorem acquire (kind : MutatorKind) (pid : VmProcessId) (owner : UInt64) :
    Consistent (sys.acquire kind pid owner).1 := by
  unfold System.acquire
  split
  next => exact h
  next fits =>
    obtain ⟨nonzero, bound⟩ := not_or.mp fits
    refine h.start rfl (fun _ resolved => h.located resolved) fun _ _ => ⟨nonzero, ?_⟩
    have mask : generationMask.toNat = 2 ^ 20 - 1 := by decide
    have le : owner.toNat ≤ generationMask.toNat := UInt64.le_iff_toNat_le.mp (UInt64.not_lt.mp bound)
    omega

/-- The check and the borrow of `consume`. -/
theorem consume {use : System τ π → VmActorMutatorToken → System τ π × Reply τ π}
    (uses : ∀ token, sys.tokens[place]? = some token →
      Consistent (use { sys with tokens := sys.tokens.eraseIdx place } token).1) :
    Consistent (sys.consume place use).1 := by
  unfold System.consume
  split
  next => exact h
  next token mem =>
    split
    next => exact h
    next => exact uses token mem

/-- One request. -/
theorem call (request : Request τ π) (fresh : ¬ Repeats sys request) :
    Consistent (sys.call request).1 := by
  cases request with
  | publishFragment | markQueued =>
    exact h.start rfl (fun _ resolved => h.located resolved) fun _ _ => trivial
  | acquireMutator pid owner => exact h.acquire .execution pid owner
  | acquireControlMutator pid owner => exact h.acquire .control pid owner
  | releaseMutator place next =>
    refine h.consume fun token mem => ?_
    dsimp only
    split
    next => exact h.drop mem
    next => exact h.startHolding mem rfl rfl
  | releaseControlMutator place =>
    exact h.consume fun token mem => h.startHolding mem rfl rfl
  | drainPayloads place =>
    unfold System.call
    dsimp only
    split
    next => exact h
    next token mem =>
      refine h.start rfl (fun cell resolved => ?_) fun _ _ => trivial
      obtain ⟨found, own⟩ := cellForHandle_ok_iff.mp resolved
      rw [own]
      exact found
  | dropToken place => exact h.consume fun token mem => h.drop mem
  | step place => exact h.advance place
  | insert pid value => exact h.insert fresh
  | markExiting pid => exact h.exclusive (h.wellFormed.markExiting pid)
  | beginMigration pid | markRetired pid =>
    exact h.exclusive (h.wellFormed.transition pid _ (by decide))
  | reclaim pid => exact h.exclusive (h.wellFormed.reclaim pid)
  | detachForTransfer pid => exact h.exclusive (h.wellFormed.detachForTransfer pid)

end

/-! ### What the invariants say -/

variable {e : VmActorDirectoryError} {wrote : Bool}

theorem start_harmless {cell : Except VmActorDirectoryError (VmActorCell τ π)} {call : CallState π}
    (reply : (sys.start cell call).2 = .returned wrote (.error e)) : wrote = false := by
  unfold System.start at reply
  split at reply <;> cases reply
  rfl

theorem exclusive_harmless {α : Type}
    {operation : VmActorDirectory τ π → VmActorDirectory τ π × Except VmActorDirectoryError α}
    {value : α → CallValue τ π} (operates : ∀ e, (operation sys.directory).2 = .error e →
      (operation sys.directory).1 = sys.directory)
    (reply : (sys.exclusive operation value).2 = .returned wrote (.error e)) : wrote = false := by
  unfold System.exclusive at reply
  split at reply
  next =>
    rcases run : operation sys.directory with ⟨directory, result⟩
    rw [run] at operates reply
    cases result with
    | error e' =>
      cases reply
      rw [show directory = sys.directory from operates e rfl]
      exact decide_eq_false (not_not.mpr rfl)
    | ok a => cases reply
  next => cases reply

/-- A call that returns an error has not changed the word of its actor. -/
theorem advance_harmless (h : Consistent sys)
    (reply : (sys.advance place).2 = .returned wrote (.error e)) : wrote = false := by
  unfold System.advance at reply
  split at reply
  next => cases reply
  next call mem =>
  split at reply
  next => cases reply
  next cell found =>
  obtain ⟨state, read, _⟩ := h.readable _ cell found
  have written := (h.inFlight call (mem_of_getElem? mem)).2
  have settled := @step_written τ π call.state cell ⟨state, read⟩
  rcases run : call.state.step cell with ⟨cell', progress⟩
  rw [run] at reply settled
  cases progress with
  | running next => cases reply
  | returned result =>
    have same : (call.wrote || decide (cell'.state ≠ cell.state)) = wrote ∧
        result = .error e := by
      dsimp only at reply
      split at reply <;> cases reply
      exact ⟨rfl, rfl⟩
    obtain ⟨flag, rfl⟩ := same
    rw [← flag]
    cases changed : (call.wrote || decide (cell'.state ≠ cell.state)) with
    | false => rfl
    | true =>
      have failed : (Progress.returned (.error e) : Progress τ π).Settled := settled (by
        rcases Bool.or_eq_true_iff.mp changed with changed | changed
        · exact .inl (written changed)
        · exact .inr (of_decide_eq_true changed))
      cases failed

theorem call_harmless (h : Consistent sys) {request : Request τ π}
    (reply : (sys.call request).2 = .returned wrote (.error e)) : wrote = false := by
  have taken : ∀ {place : Nat}
      {use : System τ π → VmActorMutatorToken → System τ π × Reply τ π},
      (∀ sys' token, (use sys' token).2 = .returned wrote (.error e) → wrote = false) →
        (sys.consume place use).2 = .returned wrote (.error e) → wrote = false := by
    intro place use uses reply
    unfold System.consume at reply
    split at reply
    · cases reply
    split at reply
    next => cases reply
    next => exact uses _ _ reply
  have acquired : ∀ {kind : MutatorKind} {pid : VmProcessId} {owner : UInt64},
      (sys.acquire kind pid owner).2 = .returned wrote (.error e) → wrote = false := by
    intro kind pid owner reply
    unfold System.acquire at reply
    split at reply
    next => cases reply; rfl
    next => exact start_harmless reply
  cases request with
  | publishFragment | markQueued => exact start_harmless reply
  | acquireMutator | acquireControlMutator => exact acquired reply
  | releaseMutator place next =>
    refine taken (fun sys' token reply => ?_) reply
    split at reply
    next => cases reply; rfl
    next => exact start_harmless reply
  | releaseControlMutator place => exact taken (fun sys' token => start_harmless) reply
  | drainPayloads place =>
    unfold System.call at reply
    dsimp only at reply
    split at reply
    next => cases reply
    next => exact start_harmless reply
  | dropToken place => exact taken (fun sys' token reply => by cases reply) reply
  | step place => exact h.advance_harmless reply
  | insert pid value =>
    have refused : ∀ e', (sys.directory.insert pid value).2 = .error e' →
        (sys.directory.insert pid value).1 = sys.directory := by
      intro e' refused
      rcases h.wellFormed.insert_cases pid value with ⟨_, run⟩ | ⟨after, run, -⟩
      · rw [run]
      · rw [run] at refused
        cases refused
    unfold System.call at reply
    dsimp only at reply
    split at reply
    next => cases reply
    next => exact exclusive_harmless refused reply
  | markExiting pid => exact exclusive_harmless (h.wellFormed.markExiting pid).2 reply
  | beginMigration pid | markRetired pid =>
    exact exclusive_harmless (h.wellFormed.transition pid _ (by decide)).2 reply
  | reclaim pid => exact exclusive_harmless (h.wellFormed.reclaim pid).2 reply
  | detachForTransfer pid =>
    exact exclusive_harmless (h.wellFormed.detachForTransfer pid).2 reply

/-- Accepted tokens of one actor carry one handle, and no two tokens carry one handle. -/
theorem single_accepted (h : Consistent sys) (pid : VmProcessId) :
    (sys.outstanding.filter fun token =>
      token.handle.pid = pid && sys.directory.accepts token).length ≤ 1 := by
  have single : ((sys.outstanding.filter fun token =>
      token.handle.pid = pid && sys.directory.accepts token).map (·.handle)).Nodup :=
    h.ownership.single.sublist (filter_sublist.map _)
  have accepted : ∀ token ∈ sys.outstanding.filter (fun token =>
      token.handle.pid = pid && sys.directory.accepts token),
      ∃ cell, sys.directory.cell pid = .ok cell ∧ cell.handle = token.handle := by
    intro token mem
    have holds := (mem_filter.mp mem).2
    rw [Bool.and_eq_true, decide_eq_true_eq] at holds
    obtain ⟨named, accepts⟩ := holds
    obtain ⟨cell, found, own, _⟩ := accepts_iff.mp accepts
    refine ⟨cell, h.wellFormed.cell_ok_iff.mpr ⟨?_, ?_⟩, own⟩
    · rw [own]
      exact found
    · rw [own]
      exact named
  generalize sys.outstanding.filter _ = tokens at single accepted
  match tokens with
  | [] => exact Nat.zero_le 1
  | [_] => exact Nat.le_refl 1
  | first :: second :: rest =>
    obtain ⟨cell, resolved, own⟩ := accepted first mem_cons_self
    obtain ⟨cell', resolved', own'⟩ :=
      accepted second (mem_cons_of_mem _ mem_cons_self)
    rw [resolved] at resolved'
    cases resolved'
    have apart : first.handle ∉ (second :: rest).map (·.handle) := (nodup_cons.mp single).1
    exact absurd (by rw [map_cons, ← own, own']; exact mem_cons_self) apart

/-- Nothing issued for an earlier occupant is accepted. -/
theorem stale_rejected (h : Consistent sys) (slot : Nat) (occupant : Occupant)
    (mem : occupant ∈ (sys.occupants slot).tail) :
    (∀ cell, sys.directory.cellForHandle occupant.handle ≠ .ok cell) ∧
      ∀ token ∈ occupant.tokens, sys.directory.accepts token = false := by
  have all : occupant ∈ sys.occupants slot := mem_of_mem_tail mem
  obtain ⟨back, inside, at_back⟩ := mem_iff_getElem.mp all
  have found : (sys.occupants slot)[back]? = some occupant := by
    rw [getElem?_eq_getElem inside, at_back]
  have placed := (h.history.numbered slot back occupant found).1
  have rejected : ∀ cell, sys.directory.cellForHandle occupant.handle ≠ .ok cell := by
    intro cell resolved
    obtain ⟨at_slot, own⟩ := cellForHandle_ok_iff.mp resolved
    rw [placed] at at_slot
    obtain ⟨first, older, eq, handle⟩ := h.history.present slot cell at_slot
    have distinct := h.history.distinct slot
    rw [eq] at mem distinct
    have apart : first.handle ∉ older.map (·.handle) := (nodup_cons.mp distinct).1
    exact apart (by rw [handle, own]; exact mem_map_of_mem mem)
  refine ⟨rejected, fun token issued => ?_⟩
  have handle := h.history.issued slot occupant all token issued
  cases accepts : sys.directory.accepts token with
  | false => rfl
  | true =>
    obtain ⟨cell, at_slot, own, _⟩ := accepts_iff.mp accepts
    exact absurd (cellForHandle_ok_iff.mpr
      ⟨by rw [← handle]; exact at_slot, by rw [own, handle]⟩) (rejected cell)

end Consistent

theorem run_consistent (requests : List (Request τ π))
    (fresh : Guarded System.call (fun sys request => ¬ Repeats sys request)
      (System.new : System τ π) requests) :
    Consistent (replay System.call (System.new : System τ π) requests).1 :=
  replay_invariant_of System.call (fun sys request => ¬ Repeats sys request)
    (fun sys _ => Consistent sys) (fun _ _ request fresh h => h.call request fresh)
    System.new [] requests new_consistent fresh

/-- In every run without an insertion that repeats a handle, ownership is exclusive. -/
theorem exclusive_ownership (requests : List (Request τ π))
    (fresh : Guarded System.call (fun sys request => ¬ Repeats sys request)
      (System.new : System τ π) requests) :
    let run := replay System.call (System.new : System τ π) requests
    Exclusive run.1 run.2 := by
  have invariant := replay_invariant_of System.call (fun sys request => ¬ Repeats sys request)
    (fun sys history => Consistent sys ∧ ∀ request wrote e,
      (request, Reply.returned wrote (.error e)) ∈ history → wrote = false)
    (fun sys history request fresh h => by
      refine ⟨h.1.call request fresh, fun other wrote e mem => ?_⟩
      rcases mem_append.mp mem with mem | mem
      · exact h.2 other wrote e mem
      · have reply := congrArg Prod.snd (mem_singleton.mp mem)
        exact h.1.call_harmless reply.symm)
    System.new [] requests ⟨new_consistent, fun _ _ _ mem => by cases mem⟩ fresh
  intro run
  exact
    { single := invariant.1.single_accepted
      harmless := invariant.2
      stale := invariant.1.stale_rejected }

/-! ### Insertions that repeat a handle -/

variable {sys : System τ π}

/-- A slot behind the last one has no history, so a slot with a history is free. -/
theorem Consistent.nextSlot_free (h : Consistent sys) {back : Nat}
    {occupant : Occupant} (found : (sys.occupants sys.directory.nextSlot)[back]? = some occupant) :
    ∃ rest, sys.directory.freeSlots = sys.directory.nextSlot :: rest := by
  cases free : sys.directory.freeSlots with
  | cons slot rest =>
    refine ⟨rest, ?_⟩
    rw [nextSlot, free]
    rfl
  | nil =>
    have beyond : sys.directory.nextSlot = sys.directory.slots.length := by
      rw [nextSlot, free]
      rfl
    have count := h.history.count sys.directory.nextSlot
    rw [beyond, VmActorDirectory.generationAt,
      getElem?_eq_none (Nat.le_refl _)] at count
    rw [beyond] at found
    cases occupants : sys.occupants sys.directory.slots.length with
    | nil =>
      rw [occupants] at found
      cases found
    | cons first older =>
      rw [occupants, length_cons] at count
      have generation := generationAfter_toNat older.length
      rw [← count] at generation
      cases generation

variable {pid : VmProcessId}

/-- An insertion that finds a slot is carried out. -/
theorem VmActorDirectory.insert_run {self : VmActorDirectory τ π}
    (value : τ) {taken : Nat × VmActorDirectory τ π} (absent : self.actorSlots[pid]? = none)
    (takes : self.takeSlot = .ok taken) :
    ∃ after handle, self.insert pid value = (after, .ok handle) := by
  have missing : ¬ self.actorSlots.contains pid = true := by
    intro present
    obtain ⟨slot, indexed⟩ :=
      Option.isSome_iff_exists.mp (Std.ExtTreeMap.isSome_getElem?_iff_mem.mpr
        (Std.ExtTreeMap.contains_iff_mem.mp present))
    rw [absent] at indexed
    cases indexed
  unfold VmActorDirectory.insert
  rw [if_neg missing, takes]
  exact ⟨_, _, rfl⟩

/-- An insertion that repeats a handle makes a handle of an earlier occupant good again. -/
theorem Consistent.repeats (h : Consistent sys) {request : Request τ π}
    (again : Repeats sys request) (history : List (Request τ π × Reply τ π)) :
    ¬ Exclusive (sys.call request).1 history := by
  cases request with
  | insert pid value =>
    obtain ⟨quiet, absent, back, occupant, found, named, wraps⟩ := again
    obtain ⟨rest, free⟩ := h.nextSlot_free found
    have takes : sys.directory.takeSlot =
        .ok (sys.directory.nextSlot, { sys.directory with freeSlots := rest }) := by
      unfold VmActorDirectory.takeSlot
      rw [free]
    obtain ⟨_, _, succeeds⟩ := insert_run value absent takes
    rcases h.wellFormed.insert_cases pid value with ⟨e, refused⟩ | ⟨after, run, -, -, -, cells, -⟩
    · rw [refused] at succeeds
      cases succeeds
    intro exclusive
    have inside : back < (sys.occupants sys.directory.nextSlot).length :=
      (List.getElem?_eq_some_iff.mp found).1
    obtain ⟨placed, numbered⟩ := h.history.numbered _ back occupant found
    have same : occupant.handle = ⟨pid, sys.directory.nextSlot,
        nextGeneration (sys.directory.generationAt sys.directory.nextSlot)⟩ := by
      have generation : generationAfter ((sys.occupants sys.directory.nextSlot).length - back) =
          generationAfter ((sys.occupants sys.directory.nextSlot).length + 1) := by
        refine (generationAfter_eq_iff (by omega) (by omega)).mpr ?_
        have distance : (sys.occupants sys.directory.nextSlot).length + 1 -
          ((sys.occupants sys.directory.nextSlot).length - back) = back + 1 := by omega
        rw [distance, wraps]
      rw [h.history.count, ← named, ← placed]
      rw [generation, ← placed] at numbered
      exact congrArg (VmActorHandle.mk occupant.handle.pid occupant.handle.slot) numbered
    have call : (sys.call (.insert pid value)).1 =
        ({ sys with directory := after } : System τ π).settle occupant.handle := by
      have idle : sys.calls.isEmpty = true := List.isEmpty_iff.mpr quiet
      rw [System.call, System.exclusive, if_pos idle]
      dsimp only
      rw [run, same]
      rfl
    rw [call] at exclusive
    refine (exclusive.stale sys.directory.nextSlot occupant ?_).1
      (VmActorCell.new occupant.handle value)
      (cellForHandle_ok_iff.mpr ⟨?_, rfl⟩)
    · unfold System.settle
      rw [placed]
      simp only [update_self, tail_cons]
      exact mem_of_getElem? found
    · change after.cellAt occupant.handle.slot = _
      rw [placed, cells, if_pos rfl, same]
  | _ => exact again.elim

/-- Ownership is exclusive all along a run exactly when no insertion of the run repeats a
handle. -/
theorem exclusive_ownership_iff (requests : List (Request τ π)) :
    (∀ done rest, requests = done ++ rest →
        let run := replay System.call (System.new : System τ π) done
        Exclusive run.1 run.2) ↔
      Guarded System.call (fun sys request => ¬ Repeats sys request)
        (System.new : System τ π) requests := by
  constructor
  · intro exclusive
    have every : ∀ done rest, requests = done ++ rest →
        Guarded System.call (fun sys request => ¬ Repeats sys request)
          (System.new : System τ π) done := by
      intro done
      induction done using List.reverseRecOn with
      | nil => exact fun _ _ => trivial
      | append_singleton done request ih =>
        intro rest split
        have before := ih (request :: rest) (by rw [split, append_assoc]; rfl)
        refine (guarded_append _ _ _ _ _).mpr ⟨before, fun again => ?_, trivial⟩
        have consistent := run_consistent done before
        have after := exclusive (done ++ [request]) rest split
        dsimp only at after
        rw [replay_append_fst] at after
        exact consistent.repeats again _ after
    exact every requests [] (append_nil _).symm
  · intro fresh done rest split
    rw [split] at fresh
    exact exclusive_ownership done ((guarded_append _ _ _ _ _).mp fresh).1

/-! ### A handle that comes round -/

theorem transitionUnowned_run {allowed : List VmActorLifecycle} {next : VmActorLifecycle}
    {word : UInt64} (read : unpackState word = .ok state)
    (unowned : state.owner = 0) (permitted : state.lifecycle ∈ allowed) :
    transitionUnowned allowed next word =
      .ok (packState next state.actorGeneration state.ownerGeneration 0) := by
  unfold transitionUnowned
  rw [read]
  have free : failIf (state.owner ≠ 0) (alreadyOwned state.owner state.ownerGeneration) =
      .ok () := failIf_ok_iff.mpr (not_not.mpr unowned)
  have inside : failIf (state.lifecycle ∉ allowed) (invalidTransition state.lifecycle next) =
      .ok () := failIf_ok_iff.mpr (not_not.mpr permitted)
  change (failIf _ _ >>= fun _ => failIf _ _ >>= fun _ => _) = _
  rw [free]
  change (failIf _ _ >>= fun _ => _) = _
  rw [inside]
  rfl

namespace VmActorDirectory

/-- The process resolves to an unowned cell of the given lifecycle that can be taken away. -/
def Rests (self : VmActorDirectory τ π) (pid : VmProcessId) (slot : Nat)
    (lifecycle : VmActorLifecycle) : Prop :=
  ∃ cell, self.cell pid = .ok cell ∧ cell.handle.slot = slot ∧ cell.lookupPins = 0 ∧
    ∃ state, unpackState cell.state = .ok state ∧ state.lifecycle = lifecycle ∧ state.owner = 0

variable {self : VmActorDirectory τ π}

theorem Rests.new (h : self.WellFormed) {handle : VmActorHandle}
    {value : τ} (found : self.cellAt handle.slot = some (.new handle value)) :
    self.Rests handle.pid handle.slot .yielding := by
  have state := unpackState_packState .yielding handle.actorGeneration 0 0
  have unowned : (0 : UInt64) &&& generationMask = 0 := by decide
  rw [unowned] at state
  exact ⟨.new handle value, h.cell_ok_iff.mpr ⟨found, rfl⟩, rfl, rfl, _, state, rfl, rfl⟩

variable {pid : VmProcessId}

theorem Rests.transition {slot : Nat}
    {lifecycle : VmActorLifecycle} (rests : self.Rests pid slot lifecycle)
    (h : self.WellFormed) {allowed : List VmActorLifecycle} (next : VmActorLifecycle)
    (permitted : lifecycle ∈ allowed) : (self.transition pid allowed next).1.WellFormed ∧
      (self.transition pid allowed next).1.Rests pid slot next := by
  obtain ⟨cell, resolved, placed, pins, state, read, current, unowned⟩ := rests
  obtain ⟨found, named⟩ := h.cell_ok_iff.mp resolved
  have move : transitionUnowned allowed next cell.state = .ok _ :=
    transitionUnowned_run read unowned (by rw [current]; exact permitted)
  unfold VmActorDirectory.transition
  rw [resolved]
  dsimp only
  rw [move]
  dsimp only
  generalize after_eq : ({ cell with
    state := packState next state.actorGeneration state.ownerGeneration 0 } :
      VmActorCell τ π) = after
  have same : after.handle = cell.handle := by rw [← after_eq]
  have found' : self.cellAt after.handle.slot = some cell := by rw [same]; exact found
  have wellFormed := h.setCell found' same
  refine ⟨wellFormed, after, wellFormed.cell_ok_iff.mpr ⟨?_, by rw [same, named]⟩,
    by rw [same, placed], by rw [← after_eq]; exact pins, ?_⟩
  · rw [cellAt_setCell found', if_pos rfl]
  · rw [← after_eq]
    exact ⟨_, unpackState_unowned read next, rfl, rfl⟩

theorem Rests.markExiting {slot : Nat}
    (rests : self.Rests pid slot .yielding) (h : self.WellFormed) :
    (self.markExiting pid).1.WellFormed ∧ (self.markExiting pid).1.Rests pid slot .exiting := by
  obtain ⟨cell, resolved, -, -, state, read, current, -⟩ := id rests
  have lifecycle : self.lifecycle pid = .ok .yielding := by
    unfold VmActorDirectory.lifecycle
    rw [resolved]
    change (unpackState cell.state >>= fun state => pure state.lifecycle) = _
    rw [read, ← current]
    rfl
  unfold VmActorDirectory.markExiting
  rw [lifecycle]
  exact rests.transition h .exiting (by decide)

theorem Rests.reclaim {slot : Nat}
    (rests : self.Rests pid slot .retired) : (self.reclaim pid).1 = self.vacate pid slot := by
  obtain ⟨cell, resolved, placed, pins, state, read, current, -⟩ := rests
  have retired : failIf (state.lifecycle ≠ VmActorLifecycle.retired)
      (invalidTransition state.lifecycle .reclaimed) = .ok () :=
    failIf_ok_iff.mpr (not_not.mpr current)
  have unpinned : failIf (cell.lookupPins ≠ 0) (lookupPinned cell.lookupPins) = .ok () :=
    failIf_ok_iff.mpr (not_not.mpr pins)
  have admitted : (do
      let cell ← self.cell pid
      let state ← unpackState cell.state
      failIf (state.lifecycle ≠ VmActorLifecycle.retired)
        (invalidTransition state.lifecycle .reclaimed)
      failIf (cell.lookupPins ≠ 0) (lookupPinned cell.lookupPins)
      pure cell) = .ok cell := by
    rw [resolved]
    change (unpackState cell.state >>= fun state => _) = _
    rw [read]
    change (failIf _ _ >>= fun _ => failIf _ _ >>= fun _ => _) = _
    rw [retired]
    change (failIf _ _ >>= fun _ => _) = _
    rw [unpinned]
    rfl
  unfold VmActorDirectory.reclaim
  rw [admitted, ← placed]

end VmActorDirectory

theorem exclusive_state {α : Type} (idle : sys.calls = [])
    (operation : VmActorDirectory τ π → VmActorDirectory τ π × Except VmActorDirectoryError α)
    (value : α → CallValue τ π) :
    (sys.exclusive operation value).1 = { sys with directory := (operation sys.directory).1 } := by
  unfold System.exclusive
  rw [if_pos (List.isEmpty_iff.mpr idle)]

/-- An idle directory that lost its only actor for the `n`-th time. -/
structure Vacant (sys : System τ π) (pid : VmProcessId) (n : Nat) : Prop where
  consistent : Consistent sys
  idle : sys.calls = []
  absent : sys.directory.actorSlots[pid]? = none
  next : sys.directory.nextSlot = 0
  takes : ∃ taken, sys.directory.takeSlot = .ok taken
  count : (sys.occupants 0).length = n
  pids : ∀ occupant ∈ sys.occupants 0, occupant.handle.pid = pid

/-- The requests that put an actor into the directory and take it out again. -/
def visit (pid : VmProcessId) (value : τ) : List (Request τ π) :=
  [.insert pid value, .markExiting pid, .markRetired pid, .reclaim pid]

theorem Vacant.fresh {n : Nat} (h : Vacant sys pid n)
    (few : n < 2 ^ 20 - 1) (value : τ) : ¬ Repeats sys (.insert pid value) := by
  rintro ⟨-, -, back, occupant, found, -, wraps⟩
  rw [h.next] at found
  have inside : back < (sys.occupants 0).length := (List.getElem?_eq_some_iff.mp found).1
  rw [h.count] at inside
  omega

theorem Vacant.again {n : Nat} (h : Vacant sys pid n) (few : n < 2 ^ 20 - 1) (value : τ) :
    Vacant (replay System.call sys (visit pid value)).1 pid (n + 1) := by
  have settled := h.consistent.insert (h.fresh few value)
  obtain ⟨taken, takes⟩ := h.takes
  obtain ⟨after, handle, run⟩ := insert_run value h.absent takes
  obtain ⟨rfl, wellFormed, cells⟩ : handle = ⟨pid, 0, nextGeneration
      (sys.directory.generationAt 0)⟩ ∧ after.WellFormed ∧
        after.cellAt 0 = some (.new handle value) := by
    rcases h.consistent.wellFormed.insert_cases pid value with ⟨e, refused⟩ |
      ⟨after', run', -, -, wellFormed, cells, -⟩
    · rw [run] at refused
      cases refused
    rw [run] at run'
    cases run'
    rw [h.next] at cells ⊢
    exact ⟨rfl, wellFormed, by rw [cells, if_pos rfl]⟩
  have first : (sys.call (.insert pid value)).1 = ({ sys with directory := after } :
      System τ π).settle ⟨pid, 0, nextGeneration (sys.directory.generationAt 0)⟩ := by
    rw [System.call, System.exclusive, if_pos (List.isEmpty_iff.mpr h.idle)]
    dsimp only
    rw [run]
    rfl
  rw [first] at settled
  generalize start : ({ sys with directory := after } : System τ π).settle
    ⟨pid, 0, nextGeneration (sys.directory.generationAt 0)⟩ = sys₁ at first settled
  have directory : sys₁.directory = after := by rw [← start]; rfl
  have idle : sys₁.calls = [] := by rw [← start]; exact h.idle
  have occupants : sys₁.occupants 0 =
      ⟨⟨pid, 0, nextGeneration (sys.directory.generationAt 0)⟩, []⟩ :: sys.occupants 0 := by
    rw [← start]
    unfold System.settle
    simp only [update_self]
  have rests : sys₁.directory.Rests pid 0 .yielding := by
    rw [directory]
    exact VmActorDirectory.Rests.new wellFormed
      (show after.cellAt (VmActorHandle.mk pid 0
        (nextGeneration (sys.directory.generationAt 0))).slot = _ from cells)
  have exiting := rests.markExiting settled.wellFormed
  have retired := exiting.2.transition exiting.1 .retired
    (mem_singleton.mpr (rfl : VmActorLifecycle.exiting = .exiting))
  have reclaimed : (((sys₁.directory.markExiting pid).1.markRetired pid).1.reclaim pid).1 =
      vacate ((sys₁.directory.markExiting pid).1.markRetired pid).1 pid 0 :=
    retired.2.reclaim
  have consistent := ((settled.call (.markExiting pid) id).call (.markRetired pid) id).call
    (.reclaim pid) id
  have final : (replay System.call sys (visit pid value)).1 =
      (((sys₁.call (.markExiting pid)).1.call (.markRetired pid)).1.call (.reclaim pid)).1 := by
    unfold visit
    simp only [replay_cons_fst, replay_nil]
    rw [first]
  have emptied : (((sys₁.call (.markExiting pid)).1.call (.markRetired pid)).1.call
      (.reclaim pid)).1 =
        { sys₁ with
          directory :=
            vacate ((sys₁.directory.markExiting pid).1.markRetired pid).1 pid 0 } := by
    have marked : (sys₁.call (.markExiting pid)).1 =
        { sys₁ with directory := (sys₁.directory.markExiting pid).1 } := exclusive_state idle _ _
    rw [marked, ← reclaimed]
    generalize (sys₁.directory.markExiting pid).1 = exited
    have ended : (({ sys₁ with directory := exited } : System τ π).call (.markRetired pid)).1 =
        { sys₁ with directory := (exited.markRetired pid).1 } :=
      exclusive_state (show ({ sys₁ with directory := exited } : System τ π).calls = [] from idle)
        _ _
    rw [ended]
    generalize (exited.markRetired pid).1 = left
    exact exclusive_state (show ({ sys₁ with directory := left } : System τ π).calls = [] from idle)
      _ _
  rw [final]
  refine ⟨consistent, ?_, ?_, ?_, ?_, ?_, ?_⟩ <;> rw [emptied]
  · exact idle
  · exact Std.ExtTreeMap.getElem?_erase_self
  · rfl
  · exact ⟨_, rfl⟩
  · change (sys₁.occupants 0).length = n + 1
    rw [occupants, length_cons, h.count]
  · change ∀ occupant ∈ sys₁.occupants 0, occupant.handle.pid = pid
    rw [occupants]
    exact forall_mem_cons.mpr ⟨rfl, h.pids⟩

/-- Any number of visits, up to the number of generations. -/
def visits (pid : VmProcessId) (value : τ) : Nat → List (Request τ π)
  | 0 => []
  | n + 1 => visits pid value n ++ visit pid value

theorem visits_vacant (pid : VmProcessId) (value : τ) (n : Nat) (few : n ≤ 2 ^ 20 - 1) :
    Vacant (replay System.call (System.new : System τ π) (visits pid value n)).1 pid n := by
  induction n with
  | zero =>
    exact ⟨new_consistent, rfl, Std.ExtTreeMap.getElem?_empty, rfl, ⟨_, rfl⟩, rfl,
      fun _ member => by cases member⟩
  | succ n ih =>
    rw [visits, replay_append_fst]
    exact (ih (by omega)).again (by omega) value

/-- The handle of the first of `2 ^ 20 - 1` earlier occupants becomes good again. -/
theorem exclusive_ownership_fails :
    ¬ ∀ requests : List (Request Unit Unit),
      let run := replay System.call (System.new : System Unit Unit) requests
      Exclusive run.1 run.2 := by
  intro every
  obtain ⟨n, generations⟩ : ∃ n, n = 2 ^ 20 - 1 := ⟨_, rfl⟩
  have vacant := visits_vacant (τ := Unit) (π := Unit) ⟨0⟩ () n (Nat.le_of_eq generations)
  have exclusive := every (visits ⟨0⟩ () n ++ [.insert ⟨0⟩ ()])
  dsimp only at exclusive
  rw [replay_append_fst] at exclusive
  have inside : n - 1 < ((replay System.call (System.new : System Unit Unit)
      (visits ⟨0⟩ () n)).1.occupants 0).length := by
    rw [vacant.count]
    omega
  have again : Repeats (replay System.call (System.new : System Unit Unit) (visits ⟨0⟩ () n)).1
      (.insert ⟨0⟩ ()) := by
    refine ⟨vacant.idle, vacant.absent, n - 1, _, ?_, vacant.pids _ (getElem_mem inside), ?_⟩
    · rw [vacant.next]
      exact getElem?_eq_getElem inside
    · have rounds : n - 1 + 1 = n := by omega
      rw [rounds, generations, Nat.mod_self]
  exact vacant.consistent.repeats again _ exclusive

end Terlan.ActorDirectory
