/-
  Association lists in insertion order. A key is replaced where it stands, a new one goes to
  the end. Equality of keys is a partial equivalence: a key need not equal itself.
-/
import Mathlib.Data.List.Basic

namespace Terlan.Lib.AssocList

open List

variable {K V : Type} [BEq K]

def get? (entries : List (K × V)) (key : K) : Option V :=
  (entries.find? (·.1 == key)).map Prod.snd

/-- Replaces the first entry of the key, or appends one. -/
def put : List (K × V) → K → V → List (K × V)
  | [], key, value => [(key, value)]
  | entry :: rest, key, value =>
    if entry.1 == key then (entry.1, value) :: rest else entry :: put rest key value

def erase (entries : List (K × V)) (key : K) : List (K × V) :=
  entries.filter fun entry => !(entry.1 == key)

theorem get?_cons (entry : K × V) (rest : List (K × V)) (key : K) :
    get? (entry :: rest) key = if entry.1 == key then some entry.2 else get? rest key := by
  unfold get?
  rw [find?_cons]
  cases entry.1 == key <;> rfl

variable {entries : List (K × V)}

theorem get?_eq_none_iff {key : K} :
    get? entries key = none ↔ ∀ entry ∈ entries, (entry.1 == key) = false := by
  unfold get?
  rw [Option.map_eq_none_iff, find?_eq_none]
  exact forall₂_congr fun _ _ => Iff.of_eq (Bool.not_eq_true _)

/-- An absent key goes to the end. -/
theorem put_of_absent {key : K} {value : V}
    (absent : get? entries key = none) : put entries key value = entries ++ [(key, value)] := by
  induction entries with
  | nil => rfl
  | cons entry rest ih =>
    have other := get?_eq_none_iff.mp absent
    rw [put, other entry mem_cons_self, ih (get?_eq_none_iff.mpr fun entry mem =>
      other entry (mem_cons_of_mem _ mem))]
    rfl

theorem put_append (left right : List (K × V)) (key : K) (value : V) :
    put (left ++ right) key value =
      if (get? left key).isSome then put left key value ++ right
      else left ++ put right key value := by
  induction left with
  | nil => rfl
  | cons entry rest ih =>
    rw [cons_append, put, put, get?_cons]
    cases same : entry.1 == key with
    | true => rfl
    | false =>
      rw [ih]
      simp only [Bool.false_eq_true, if_false]
      split <;> rfl

theorem length_put (entries : List (K × V)) (key : K) (value : V) :
    (put entries key value).length =
      entries.length + if (get? entries key).isSome then 0 else 1 := by
  induction entries with
  | nil => rfl
  | cons entry rest ih =>
    rw [put, get?_cons]
    split
    next => rfl
    next => rw [length_cons, length_cons, ih, Nat.add_right_comm]

/-- The keys of the entries stay, and an absent one is added. -/
theorem map_fst_put (entries : List (K × V)) (key : K) (value : V) :
    (put entries key value).map Prod.fst =
      entries.map Prod.fst ++ if (get? entries key).isSome then [] else [key] := by
  induction entries with
  | nil => rfl
  | cons entry rest ih =>
    rw [put, get?_cons]
    split
    next => simp
    next => rw [map_cons, ih, map_cons, cons_append]

theorem put_cons (entry : K × V) (rest : List (K × V)) (key : K) (value : V) :
    put (entry :: rest) key value =
      if entry.1 == key then (entry.1, value) :: rest else entry :: put rest key value := rfl

theorem erase_cons (entry : K × V) (rest : List (K × V)) (key : K) :
    erase (entry :: rest) key = if entry.1 == key then erase rest key else entry :: erase rest key := by
  unfold erase
  rw [filter_cons]
  cases entry.1 == key <;> rfl

theorem erase_append (left right : List (K × V)) (key : K) :
    erase (left ++ right) key = erase left key ++ erase right key := filter_append _ _

theorem erase_of_absent {key : K} (absent : get? entries key = none) :
    erase entries key = entries := by
  refine filter_eq_self.mpr fun entry mem => ?_
  rw [get?_eq_none_iff.mp absent entry mem]
  rfl

variable [PartialEquivBEq K]

theorem get?_put (entries : List (K × V)) (key other : K) (value : V) :
    get? (put entries key value) other =
      if key == other then some value else get? entries other := by
  induction entries with
  | nil => rw [put, get?_cons]
  | cons entry rest ih =>
    rw [put_cons]
    cases same : entry.1 == key with
    | true =>
      rw [if_pos rfl, get?_cons, get?_cons, BEq.congr_left same]
      split <;> rfl
    | false =>
      rw [if_neg Bool.false_ne_true, get?_cons, get?_cons, ih]
      cases hit : entry.1 == other with
      | false => rfl
      | true =>
        rw [BEq.symm_false (BEq.neq_of_beq_of_neq (BEq.symm hit) same)]
        rfl

theorem get?_erase (entries : List (K × V)) (key other : K) :
    get? (erase entries key) other = if key == other then none else get? entries other := by
  induction entries with
  | nil => cases key == other <;> rfl
  | cons entry rest ih =>
    rw [erase_cons]
    cases same : entry.1 == key with
    | true =>
      rw [if_pos rfl, ih, get?_cons, BEq.congr_left same]
      split <;> rfl
    | false =>
      rw [if_neg Bool.false_ne_true, get?_cons, get?_cons, ih]
      cases hit : entry.1 == other with
      | false => rfl
      | true =>
        rw [BEq.symm_false (BEq.neq_of_beq_of_neq (BEq.symm hit) same)]
        rfl

/-! ## Updates of two keys -/

/-- A present key is replaced where it stands, before or after another key is put. -/
theorem put_put_comm {key other : K} (value new : V)
    (present : (get? entries key).isSome) (different : (other == key) = false) :
    put (put entries key value) other new = put (put entries other new) key value := by
  induction entries with
  | nil => cases present
  | cons entry rest ih =>
    rw [get?_cons] at present
    rw [put_cons, put_cons]
    cases first : entry.1 == key with
    | true =>
      have second : (entry.1 == other) = false :=
        BEq.neq_of_beq_of_neq first (BEq.symm_false different)
      rw [if_pos rfl, second, if_neg Bool.false_ne_true, put_cons, put_cons, first, second]
      rfl
    | false =>
      rw [first, if_neg Bool.false_ne_true] at present
      rw [if_neg Bool.false_ne_true]
      cases second : entry.1 == other with
      | true =>
        rw [if_pos rfl, put_cons, put_cons, first, second]
        rfl
      | false =>
        rw [if_neg Bool.false_ne_true, put_cons, put_cons, first, second]
        exact congrArg (entry :: ·) (ih present)

theorem erase_put_comm {key other : K} (value : V) (different : (other == key) = false) :
    erase (put entries key value) other = put (erase entries other) key value := by
  induction entries with
  | nil =>
    rw [put, erase_cons, BEq.symm_false different]
    rfl
  | cons entry rest ih =>
    rw [put_cons, erase_cons]
    cases first : entry.1 == key with
    | true =>
      have second : (entry.1 == other) = false :=
        BEq.neq_of_beq_of_neq first (BEq.symm_false different)
      rw [if_pos rfl, second, if_neg Bool.false_ne_true, erase_cons, put_cons, first, second]
      rfl
    | false =>
      rw [if_neg Bool.false_ne_true, erase_cons, ih]
      cases second : entry.1 == other with
      | true => rfl
      | false =>
        rw [if_neg Bool.false_ne_true, if_neg Bool.false_ne_true, put_cons, first]
        rfl

end Terlan.Lib.AssocList
