/-
  Decoders that are called again as more input arrives. A decoder looks at the buffer and
  answers with an item and its length, or asks for more, or fails. `drain` takes one item after
  the other from a buffer; `feed` adds a read to what was left over and drains again.

  When is a stream decoded in the same way however it is cut into reads? `StaysDecided`: an
  item or a failure that is answered for a buffer is answered for the longer buffer too.
  `feedAll_eq_drain` asks for it only of the buffers that are really looked at, each with what
  follows it in the stream, so that a decoder that has it under a condition is covered too.
-/
import Mathlib.Data.List.Basic

namespace Terlan.Lib

open List

variable {α ρ ε : Type*}

inductive Progress (ρ ε : Type*) where
  | done (item : ρ) (consumed : Nat)
  | more
  | failed (error : ε)

/-- What is left when a buffer has been drained. -/
inductive Ending (α ε : Type*) where
  | pending (rest : List α)
  | failed (error : ε)
deriving DecidableEq

namespace Incremental

variable (decode : List α → Progress ρ ε)

/-- The longer buffer is answered as the shorter one, which is not asking for more. -/
def StaysDecided (buffer rest : List α) : Prop :=
  decode buffer = .more ∨ decode (buffer ++ rest) = decode buffer

/-- An item takes something from the buffer, and nothing that is not there; an empty buffer
asks for more. -/
structure Productive : Prop where
  consumes : ∀ buffer item consumed, decode buffer = .done item consumed →
    0 < consumed ∧ consumed ≤ buffer.length
  waits : decode [] = .more

/-- `fuel` bounds the number of items. -/
def drainWith : Nat → List α → List ρ × Ending α ε
  | 0, buffer => ([], .pending buffer)
  | fuel + 1, buffer =>
    match decode buffer with
    | .done item consumed =>
      let rest := drainWith fuel (buffer.drop consumed)
      (item :: rest.1, rest.2)
    | .more => ([], .pending buffer)
    | .failed error => ([], .failed error)

def drain (buffer : List α) : List ρ × Ending α ε := drainWith decode (buffer.length + 1) buffer

/-- The buffers that `drainWith` shows to the decoder. -/
def visitsWith : Nat → List α → List (List α)
  | 0, _ => []
  | fuel + 1, buffer =>
    buffer ::
      match decode buffer with
      | .done _ consumed => visitsWith fuel (buffer.drop consumed)
      | .more | .failed _ => []

def visits (buffer : List α) : List (List α) := visitsWith decode (buffer.length + 1) buffer

/-- One read more. After a failure nothing is read. -/
def feed (state : List ρ × Ending α ε) (read : List α) : List ρ × Ending α ε :=
  match state.2 with
  | .pending rest =>
    let drained := drain decode (rest ++ read)
    (state.1 ++ drained.1, drained.2)
  | .failed _ => state

def feedAll (reads : List (List α)) : List ρ × Ending α ε :=
  reads.foldl (feed decode) ([], .pending [])

/-- Every buffer that the decoder is shown while the reads come in, with what follows it. -/
def looks : Ending α ε → List (List α) → List (List α × List α)
  | _, [] => []
  | .failed _, _ => []
  | .pending rest, read :: reads =>
    (visits decode (rest ++ read)).map (·, reads.flatten) ++
      looks (drain decode (rest ++ read)).2 reads

variable {decode}

@[simp] theorem feed_pending (items : List ρ) (rest read : List α) :
    feed decode (items, .pending rest) read =
      (items ++ (drain decode (rest ++ read)).1, (drain decode (rest ++ read)).2) := rfl

@[simp] theorem feed_failed (items : List ρ) (error : ε) (read : List α) :
    feed decode (items, .failed error) read = (items, .failed error) := rfl

/-! ## One buffer -/

variable {buffer : List α}

theorem drainWith_done {item : ρ} {consumed : Nat}
    (done : decode buffer = .done item consumed) (fuel : Nat) : drainWith decode (fuel + 1) buffer =
      (item :: (drainWith decode fuel (buffer.drop consumed)).1,
        (drainWith decode fuel (buffer.drop consumed)).2) := by
  rw [drainWith, done]

theorem drainWith_more (more : decode buffer = .more) (fuel : Nat) :
    drainWith decode (fuel + 1) buffer = ([], .pending buffer) := by
  rw [drainWith, more]

theorem drainWith_failed {error : ε} (failed : decode buffer = .failed error)
    (fuel : Nat) : drainWith decode (fuel + 1) buffer = ([], .failed error) := by
  rw [drainWith, failed]

/-- More fuel than symbols makes no difference. -/
theorem drainWith_eq (productive : Productive decode) {fuel fuel' : Nat}
    (enough : buffer.length < fuel) (enough' : buffer.length < fuel') :
    drainWith decode fuel buffer = drainWith decode fuel' buffer := by
  induction fuel generalizing fuel' buffer with
  | zero => omega
  | succ fuel ih =>
    obtain ⟨fuel', rfl⟩ := Nat.exists_eq_succ_of_ne_zero (Nat.ne_zero_of_lt enough')
    cases answer : decode buffer with
    | done item consumed =>
      obtain ⟨positive, within⟩ := productive.consumes buffer item consumed answer
      have shorter : (buffer.drop consumed).length < buffer.length := by
        rw [length_drop]
        omega
      have same : drainWith decode fuel (buffer.drop consumed) =
          drainWith decode fuel' (buffer.drop consumed) := ih (by omega) (by omega)
      rw [drainWith_done answer, drainWith_done answer, same]
    | more => rw [drainWith_more answer, drainWith_more answer]
    | failed error => rw [drainWith_failed answer, drainWith_failed answer]

theorem drain_done (productive : Productive decode) {item : ρ} {consumed : Nat}
    (done : decode buffer = .done item consumed) : drain decode buffer =
      (item :: (drain decode (buffer.drop consumed)).1,
        (drain decode (buffer.drop consumed)).2) := by
  obtain ⟨positive, within⟩ := productive.consumes buffer item consumed done
  have shorter : (buffer.drop consumed).length < buffer.length := by
    rw [length_drop]
    omega
  rw [drain, drain, drainWith_done done, drainWith_eq productive shorter (Nat.lt_succ_self _)]

theorem drain_more (more : decode buffer = .more) : drain decode buffer = ([], .pending buffer) :=
  drainWith_more more buffer.length

theorem drain_failed {error : ε} (failed : decode buffer = .failed error) :
    drain decode buffer = ([], .failed error) :=
  drainWith_failed failed buffer.length

/-- What is pending after a drain is asking for more. -/
theorem more_of_drain_pending (productive : Productive decode) {buffer rest : List α}
    (pending : (drain decode buffer).2 = .pending rest) : decode rest = .more := by
  induction length : buffer.length using Nat.strongRecOn generalizing buffer with
  | ind n ih =>
    subst length
    cases answer : decode buffer with
    | done item consumed =>
      obtain ⟨positive, within⟩ := productive.consumes buffer item consumed answer
      rw [drain_done productive answer] at pending
      refine ih _ ?_ pending rfl
      rw [length_drop]
      omega
    | more =>
      rw [drain_more answer] at pending
      cases pending
      exact answer
    | failed error =>
      rw [drain_failed answer] at pending
      cases pending

/-- The buffers that are looked at, by what the first of them is answered. -/
theorem mem_visitsWith_done {buffer visited : List α} {item : ρ} {consumed fuel : Nat}
    (done : decode buffer = .done item consumed)
    (mem : visited ∈ visitsWith decode fuel (buffer.drop consumed)) :
    visited ∈ visitsWith decode (fuel + 1) buffer := by
  rw [visitsWith, done]
  exact mem_cons_of_mem _ mem

/-! ## Two reads, and many -/

/-- A longer buffer is drained as the shorter one is, and then on from what that left. -/
theorem drainWith_append (productive : Productive decode) {fuel : Nat} {buffer more : List α}
    (enough : buffer.length < fuel)
    (stays : ∀ visited ∈ visitsWith decode fuel buffer, StaysDecided decode visited more) :
    drain decode (buffer ++ more) = feed decode (drainWith decode fuel buffer) more := by
  induction fuel generalizing buffer with
  | zero => omega
  | succ fuel ih =>
    have own := stays buffer (by rw [visitsWith]; exact mem_cons_self)
    cases answer : decode buffer with
    | done item consumed =>
      have longer : decode (buffer ++ more) = .done item consumed := by
        rcases own with asks | same
        · rw [answer] at asks
          cases asks
        · rw [same, answer]
      obtain ⟨positive, within⟩ := productive.consumes buffer item consumed answer
      have shorter : (buffer.drop consumed).length < fuel := by
        rw [length_drop]
        omega
      have rest := ih shorter fun visited mem => stays visited (mem_visitsWith_done answer mem)
      rw [drain_done productive longer, drop_append_of_le_length within, rest,
        drainWith_done answer]
      rcases drainWith decode fuel (buffer.drop consumed) with ⟨items, left | error⟩
      · rfl
      · rfl
    | more =>
      rw [drainWith_more answer, feed_pending, nil_append]
    | failed error =>
      have longer : decode (buffer ++ more) = .failed error := by
        rcases own with asks | same
        · rw [answer] at asks
          cases asks
        · rw [same, answer]
      rw [drain_failed longer, drainWith_failed answer, feed_failed]

theorem foldl_feed_failed (items : List ρ) (error : ε) (reads : List (List α)) :
    reads.foldl (feed decode) (items, .failed error) = (items, .failed error) := by
  induction reads with
  | nil => rfl
  | cons read reads ih => exact ih

theorem foldl_feed (productive : Productive decode) (reads : List (List α)) (items : List ρ)
    {rest : List α} (asks : decode rest = .more)
    (stays : ∀ look ∈ looks decode (.pending rest) reads, StaysDecided decode look.1 look.2) :
    reads.foldl (feed decode) (items, .pending rest) =
      feed decode (items, .pending rest) reads.flatten := by
  induction reads generalizing items rest with
  | nil =>
    rw [foldl_nil, feed_pending, flatten_nil, append_nil, drain_more asks,
      append_nil]
  | cons read reads ih =>
    rw [looks] at stays
    have first : drain decode (rest ++ read ++ reads.flatten) =
        feed decode (drain decode (rest ++ read)) reads.flatten := by
      refine drainWith_append productive (Nat.lt_succ_self _) fun visited mem => ?_
      exact stays (visited, reads.flatten)
        (mem_append_left _ (mem_map.mpr ⟨visited, mem, rfl⟩))
    have others := fun look mem => stays look (mem_append_right _ mem)
    rw [foldl_cons, flatten_cons, feed_pending, feed_pending, ← append_assoc,
      first]
    obtain ⟨found, ending⟩ : ∃ found, drain decode (rest ++ read) = found := ⟨_, rfl⟩
    obtain ⟨drained, left | error⟩ := found
    · rw [ending] at others ⊢
      have waits := more_of_drain_pending productive (congrArg Prod.snd ending)
      rw [ih _ waits others, feed_pending, feed_pending, append_assoc]
    · rw [ending, foldl_feed_failed, feed_failed]

/-- However a stream is cut into reads, the same items come out of it and the same is left. -/
theorem feedAll_eq_drain (productive : Productive decode) (reads : List (List α))
    (stays : ∀ look ∈ looks decode (.pending []) reads, StaysDecided decode look.1 look.2) :
    feedAll decode reads = drain decode reads.flatten := by
  rw [feedAll, foldl_feed productive reads [] productive.waits stays, feed_pending,
    nil_append, nil_append]

end Incremental

end Terlan.Lib
