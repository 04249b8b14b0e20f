/-
  Service of classes by rotation. A cursor walks a fixed cycle of slots, a slot belongs to a
  class, and a service polls slots from the cursor on until the class of one has work.

  `Within c d cursor`: a slot of the class `c` is among the next `d` slots.
  `serve_within`    : a service of a busy class within `d` slots serves it, or brings it
                      within fewer.
  `Turns cursor ts` : the services `ts` follow one another from the cursor on. A class that is
                      busy at as many of them as there are slots is served by one
                      (`served_of_busy`), and where all classes are, each is served as often
                      as it has slots (`count_of_all_busy`).
-/
import Mathlib.Data.ZMod.Defs

namespace Terlan.Lib.Rotation

open List

variable {n : Nat} [NeZero n] {κ : Type*} (cycle : Fin n → κ) (busy : κ → Bool)

/-- Polls up to a number of slots; the cursor stops behind the slot that is served. -/
def serve : Nat → Fin n → Fin n × Option κ
  | 0, cursor => (cursor, none)
  | polls + 1, cursor =>
    if busy (cycle cursor) then (cursor + 1, some (cycle cursor)) else serve polls (cursor + 1)

def Within (c : κ) : Nat → Fin n → Prop
  | 0, _ => False
  | d + 1, cursor => cycle cursor = c ∨ Within c d (cursor + 1)

variable {cycle busy}

theorem add_one_add_ofNat (cursor : Fin n) (j : Nat) :
    cursor + 1 + Fin.ofNat n j = cursor + Fin.ofNat n (j + 1) := by
  rw [add_assoc]
  congr 1
  apply Fin.ext
  simp [Fin.val_add, Nat.add_comm]

theorem within_iff {c : κ} {d : Nat} {cursor : Fin n} :
    Within cycle c d cursor ↔ ∃ j < d, cycle (cursor + Fin.ofNat n j) = c := by
  induction d generalizing cursor with
  | zero => simp [Within]
  | succ d ih =>
    rw [Within, ih]
    constructor
    · rintro (here | ⟨j, small, there⟩)
      · exact ⟨0, Nat.succ_pos d, by simpa using here⟩
      · exact ⟨j + 1, by omega, by rw [← add_one_add_ofNat]; exact there⟩
    · rintro ⟨j, small, there⟩
      cases j with
      | zero => exact .inl (by simpa using there)
      | succ j => exact .inr ⟨j, by omega, by rw [add_one_add_ofNat]; exact there⟩

/-- Once around the cycle every class comes by. -/
theorem within_cycle (slot cursor : Fin n) : Within cycle (cycle slot) n cursor := by
  refine within_iff.mpr ⟨(slot - cursor).val, (slot - cursor).isLt, ?_⟩
  congr 1
  have same : Fin.ofNat n (slot - cursor).val = slot - cursor :=
    Fin.ext (Nat.mod_eq_of_lt (slot - cursor).isLt)
  rw [same, add_comm, sub_add_cancel]

/-- What is served has work. -/
theorem busy_of_serve {polls : Nat} {cursor after : Fin n} {c : κ}
    (h : serve cycle busy polls cursor = (after, some c)) : busy c = true := by
  induction polls generalizing cursor with
  | zero => cases h
  | succ polls ih =>
    rw [serve] at h
    split at h
    next work =>
      cases h
      exact work
    next => exact ih h

/-- A busy class is served, or comes nearer. -/
theorem serve_within {c : κ} {d polls : Nat} {cursor : Fin n} (work : busy c = true)
    (h : Within cycle c d cursor) (le : d ≤ polls) :
    ∃ after served, serve cycle busy polls cursor = (after, some served) ∧
      (served = c ∨ ∃ e < d, Within cycle c e after) := by
  induction d generalizing polls cursor with
  | zero => exact h.elim
  | succ d ih =>
    cases polls with
    | zero => omega
    | succ polls =>
      rw [serve]
      by_cases open_ : busy (cycle cursor) = true
      · rw [if_pos open_]
        refine ⟨_, _, rfl, ?_⟩
        rcases h with here | later
        · exact .inl here
        · exact .inr ⟨d, Nat.lt_succ_self d, later⟩
      · rw [if_neg open_]
        rcases h with here | later
        · exact absurd (here ▸ work) open_
        obtain ⟨after, served, eq, fate⟩ := @ih polls (cursor + 1) later (by omega)
        refine ⟨after, served, eq, fate.imp_right ?_⟩
        rintro ⟨e, less, near⟩
        exact ⟨e, by omega, near⟩

/-- While every class has work, a service takes the class under the cursor. -/
theorem serve_of_all_busy (work : ∀ c, busy c = true) {polls : Nat} (some_ : polls ≠ 0)
    (cursor : Fin n) : serve cycle busy polls cursor = (cursor + 1, some (cycle cursor)) := by
  cases polls with
  | zero => exact absurd rfl some_
  | succ polls => rw [serve, if_pos (work _)]

/-! ## Services one after another -/

variable (cycle) in
/-- Each service polls from where the one before it stopped. -/
def Turns : Fin n → List ((κ → Bool) × Option κ) → Prop
  | _, [] => True
  | cursor, (busy, served) :: rest =>
    ∃ after, serve cycle busy n cursor = (after, served) ∧ Turns after rest

theorem turns_append {cursor : Fin n} {first rest : List ((κ → Bool) × Option κ)}
    (h : Turns cycle cursor (first ++ rest)) :
    Turns cycle cursor first ∧ ∃ after, Turns cycle after rest := by
  induction first generalizing cursor with
  | nil => exact ⟨trivial, cursor, h⟩
  | cons turn first ih =>
    obtain ⟨after, step, later⟩ := h
    obtain ⟨begins, goesOn⟩ := ih later
    exact ⟨⟨after, step, begins⟩, goesOn⟩

theorem turns_infix {cursor : Fin n} {window ts : List ((κ → Bool) × Option κ)}
    (h : Turns cycle cursor ts) (part : window <:+: ts) : ∃ at_, Turns cycle at_ window := by
  obtain ⟨before, behind, rfl⟩ := part
  obtain ⟨at_, later⟩ := (turns_append (turns_append h).1).2
  exact ⟨at_, later⟩

/-- A class that stays busy is served while its slot comes nearer. -/
theorem served_of_within {c : κ} {d : Nat} {cursor : Fin n}
    {ts : List ((κ → Bool) × Option κ)} (h : Turns cycle cursor ts)
    (near : Within cycle c d cursor) (le : d ≤ n) (enough : d ≤ ts.length)
    (work : ∀ turn ∈ ts, turn.1 c = true) : ∃ turn ∈ ts, turn.2 = some c := by
  induction ts generalizing d cursor with
  | nil =>
    rw [Nat.le_zero.mp enough] at near
    exact near.elim
  | cons turn ts ih =>
    obtain ⟨after, step, later⟩ := h
    obtain ⟨after', served, step', fate⟩ :=
      serve_within (work turn mem_cons_self) near le
    rw [step] at step'
    obtain ⟨rfl, same⟩ := Prod.mk.inj step'
    rcases fate with rfl | ⟨e, less, nearer⟩
    · exact ⟨turn, mem_cons_self, same⟩
    have short : e ≤ ts.length := by
      rw [length_cons] at enough
      omega
    obtain ⟨turn', mem, hit⟩ := ih later nearer (by omega) short
      fun t mem => work t (mem_cons_of_mem _ mem)
    exact ⟨turn', mem_cons_of_mem _ mem, hit⟩

/-- Among as many services as there are slots, one is of a class that is busy at all of them. -/
theorem served_of_busy {slot cursor : Fin n} {ts window : List ((κ → Bool) × Option κ)}
    (h : Turns cycle cursor ts) (part : window <:+: ts) (enough : n ≤ window.length)
    (work : ∀ turn ∈ window, turn.1 (cycle slot) = true) :
    ∃ turn ∈ window, turn.2 = some (cycle slot) := by
  obtain ⟨at_, turns⟩ := turns_infix h part
  exact served_of_within turns (within_cycle slot at_) (Nat.le_refl n) enough work

theorem served_of_all_busy {cursor : Fin n} {ts : List ((κ → Bool) × Option κ)}
    (h : Turns cycle cursor ts) (work : ∀ turn ∈ ts, ∀ c, turn.1 c = true) : ts.map Prod.snd =
      (List.range ts.length).map fun j => some (cycle (cursor + Fin.ofNat n j)) := by
  induction ts generalizing cursor with
  | nil => rfl
  | cons turn ts ih =>
    obtain ⟨after, step, later⟩ := h
    rw [serve_of_all_busy (work turn mem_cons_self) (NeZero.ne n)] at step
    obtain ⟨rfl, served⟩ := Prod.mk.inj step
    have rest := ih later fun t mem => work t (mem_cons_of_mem _ mem)
    rw [map_cons, rest, length_cons, range_succ_eq_map, map_cons,
      map_map, ← served]
    congr 1
    · simp
    · refine map_congr_left fun j _ => ?_
      change some (cycle (cursor + 1 + Fin.ofNat n j)) =
        some (cycle (cursor + Fin.ofNat n (j + 1)))
      rw [add_one_add_ofNat]

/-- While all classes are busy, as many services as there are slots serve each class as often
as it has slots. -/
theorem count_of_all_busy [DecidableEq κ] {cursor : Fin n}
    {ts window : List ((κ → Bool) × Option κ)}
    (h : Turns cycle cursor ts) (part : window <:+: ts) (around : window.length = n)
    (work : ∀ turn ∈ window, ∀ c, turn.1 c = true) (c : κ) :
    (window.map Prod.snd).count (some c) = (List.ofFn cycle).count c := by
  obtain ⟨at_, turns⟩ := turns_infix h part
  have shifted : (List.range n).map (fun j => some (cycle (at_ + Fin.ofNat n j))) =
      (List.ofFn (cycle ∘ Equiv.addLeft at_)).map some := by
    refine ext_getElem (by simp) fun j inside _ => ?_
    have less : j < n := by simpa using inside
    have same : Fin.ofNat n j = ⟨j, less⟩ := Fin.ext (Nat.mod_eq_of_lt less)
    rw [getElem_map, getElem_range, getElem_map, List.getElem_ofFn, same]
    rfl
  rw [served_of_all_busy turns work, around, shifted,
    count_map_of_injective _ _ (Option.some_injective κ)]
  exact (Equiv.Perm.ofFn_comp_perm (Equiv.addLeft at_) cycle).count_eq c

end Terlan.Lib.Rotation
