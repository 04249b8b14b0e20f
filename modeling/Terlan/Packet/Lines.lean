/-
  Where lines and headers end, in a buffer and in the buffer with more bytes behind it.
-/
import Terlan.Packet.Decode

namespace Terlan.Packet

open Terlan.Lib List

/-! ## Line ends -/

def CrlfAt (bytes : List UInt8) (i : Nat) : Prop :=
  bytes[i]? = some 13 ∧ bytes[i + 1]? = some 10

variable {bytes : List UInt8} {i : Nat}

theorem CrlfAt.within (found : CrlfAt bytes i) : i + 2 ≤ bytes.length := by
  obtain ⟨within, -⟩ := List.getElem?_eq_some_iff.mp found.2
  omega

theorem crlfAt_cons {byte : UInt8} : CrlfAt (byte :: bytes) (i + 1) ↔ CrlfAt bytes i := by
  simp [CrlfAt]

theorem crlfAt_drop {start i : Nat} : CrlfAt (bytes.drop start) i ↔ CrlfAt bytes (start + i) := by
  simp [CrlfAt, getElem?_drop, Nat.add_assoc]

theorem crlfAt_append (within : i + 2 ≤ bytes.length)
    (rest : List UInt8) : CrlfAt (bytes ++ rest) i ↔ CrlfAt bytes i := by
  unfold CrlfAt
  rw [getElem?_append_left (by omega), getElem?_append_left (by omega)]

/-- No line end follows another at once. -/
theorem CrlfAt.not_succ (found : CrlfAt bytes i) : ¬ CrlfAt bytes (i + 1) := by
  intro next
  have same := found.2.symm.trans next.1
  exact absurd same (by decide)

/-- The first line end, or none. -/
theorem findCrlf_spec (bytes : List UInt8) :
    match findCrlf bytes with
    | some i => CrlfAt bytes i ∧ ∀ j < i, ¬ CrlfAt bytes j
    | none => ∀ j, ¬ CrlfAt bytes j := by
  induction bytes with
  | nil => simp [findCrlf, CrlfAt]
  | cons first bytes ih =>
    cases bytes with
    | nil =>
      rintro j ⟨-, second⟩
      simp at second
    | cons second bytes =>
      rw [findCrlf]
      by_cases here : first = 13 ∧ second = 10
      · rw [if_pos here]
        refine ⟨?_, fun j before => absurd before (Nat.not_lt_zero j)⟩
        simp [CrlfAt, here]
      have notHere : ¬ CrlfAt (first :: second :: bytes) 0 := by
        simpa [CrlfAt] using here
      rw [if_neg here]
      cases found : findCrlf (second :: bytes) with
      | none =>
        rw [found] at ih
        intro j
        cases j with
        | zero => exact notHere
        | succ j => rw [crlfAt_cons]; exact ih j
      | some i =>
        rw [found] at ih
        refine ⟨crlfAt_cons.mpr ih.1, fun j before => ?_⟩
        cases j with
        | zero => exact notHere
        | succ j => rw [crlfAt_cons]; exact ih.2 j (Nat.lt_of_succ_lt_succ before)

theorem crlfAt_of_findCrlf (found : findCrlf bytes = some i) :
    CrlfAt bytes i ∧ ∀ j < i, ¬ CrlfAt bytes j := by
  have spec := findCrlf_spec bytes
  rwa [found] at spec

theorem not_crlfAt_of_findCrlf (none : findCrlf bytes = none) (i : Nat) : ¬ CrlfAt bytes i := by
  have spec := findCrlf_spec bytes
  rw [none] at spec
  exact spec i

theorem findCrlf_eq_some (found : CrlfAt bytes i)
    (first : ∀ j < i, ¬ CrlfAt bytes j) : findCrlf bytes = some i := by
  have spec := findCrlf_spec bytes
  cases answer : findCrlf bytes with
  | none =>
    rw [answer] at spec
    exact absurd found (spec i)
  | some k =>
    rw [answer] at spec
    have notBefore : ¬ k < i := fun before => first k before spec.1
    have notAfter : ¬ i < k := fun after => spec.2 i after found
    rw [Nat.le_antisymm (Nat.not_lt.mp notAfter) (Nat.not_lt.mp notBefore)]

theorem findCrlf_append (found : findCrlf bytes = some i)
    (rest : List UInt8) : findCrlf (bytes ++ rest) = some i := by
  obtain ⟨here, first⟩ := crlfAt_of_findCrlf found
  have within := here.within
  refine findCrlf_eq_some ((crlfAt_append within rest).mpr here) fun j before => ?_
  rw [crlfAt_append (by omega)]
  exact first j before

/-- A line end that comes with more bytes ends beyond the bytes before. -/
theorem lt_of_findCrlf_append {bytes rest : List UInt8} (none : findCrlf bytes = none)
    (found : findCrlf (bytes ++ rest) = some i) : bytes.length < i + 2 := by
  by_contra within
  have here := (crlfAt_of_findCrlf found).1
  rw [crlfAt_append (by omega)] at here
  exact not_crlfAt_of_findCrlf none i here

/-! ## Header ends -/

/-- The next byte goes on with the header. -/
def Continues (rest : List UInt8) : Prop := ∃ byte, rest[0]? = some byte ∧ isBlankByte byte = true

/-- What `headerEnd` answers. -/
theorem headerEnd_total (bytes : List UInt8) (consumed : Nat) (within : consumed ≤ bytes.length) :
    ∃ answer, headerEnd bytes consumed = some answer ∧
      ∀ stop, answer = some stop → consumed ≤ stop ∧ stop ≤ bytes.length := by
  fun_induction headerEnd bytes consumed with
  | case1 consumed _ => exact ⟨some consumed, rfl, fun stop same => by cases same; omega⟩
  | case2 consumed byte there blank failed =>
    rw [sliceFrom, if_pos within] at failed
    cases failed
  | case3 consumed byte there blank rest sliced none =>
    exact ⟨Option.none, rfl, fun stop same => by cases same⟩
  | case4 consumed byte there blank rest sliced relativeEnd found ih =>
    rw [sliceFrom, if_pos within] at sliced
    cases sliced
    have ends := (crlfAt_of_findCrlf found).1.within
    rw [length_drop] at ends
    obtain ⟨answer, run, bounds⟩ := ih (by omega)
    refine ⟨answer, run, fun stop same => ?_⟩
    have bound := bounds stop same
    omega
  | case5 consumed byte there notBlank =>
    exact ⟨some consumed, rfl, fun stop same => by cases same; omega⟩

section Unfolding

variable {bytes : List UInt8} {consumed : Nat}

theorem headerEnd_of_end (reached : consumed = bytes.length) :
    headerEnd bytes consumed = some (some consumed) := by
  have none : bytes[consumed]? = none := getElem?_eq_none (by omega)
  rw [headerEnd]
  split
  next => rfl
  next there => rw [none] at there; cases there

theorem headerEnd_of_not_blank {byte : UInt8} (there : bytes[consumed]? = some byte)
    (notBlank : isBlankByte byte = false) : headerEnd bytes consumed = some (some consumed) := by
  rw [headerEnd]
  split
  next => rfl
  next other same =>
    rw [there] at same
    cases same
    rw [notBlank, if_neg (by decide)]

theorem headerEnd_of_blank {byte : UInt8} (there : bytes[consumed]? = some byte)
    (blank : isBlankByte byte = true) :
    headerEnd bytes consumed =
      match findCrlf (bytes.drop consumed) with
      | none => some none
      | some relativeEnd => headerEnd bytes (consumed + (relativeEnd + 2)) := by
  obtain ⟨within, -⟩ := List.getElem?_eq_some_iff.mp there
  have sliced : sliceFrom bytes consumed = some (bytes.drop consumed) := if_pos (by omega)
  rw [headerEnd]
  split
  next none => rw [there] at none; cases none
  next other same =>
    rw [there] at same
    cases same
    cases found : findCrlf (bytes.drop consumed) with
    | none | some =>
      rw [if_pos blank, sliced]
      simp only [found]

end Unfolding

/-- An end that is followed by a byte which does not go on stays the end. -/
theorem headerEnd_append {bytes rest : List UInt8} {consumed stop : Nat}
    (within : consumed ≤ bytes.length) (ends : headerEnd bytes consumed = some (some stop))
    (settled : stop < bytes.length ∨ ¬ Continues rest) :
    headerEnd (bytes ++ rest) consumed = some (some stop) := by
  fun_induction headerEnd bytes consumed with
  | case1 consumed none =>
    have same : consumed = stop := by simpa using ends
    subst same
    have reached : consumed = bytes.length :=
      Nat.le_antisymm within (List.getElem?_eq_none_iff.mp none)
    subst reached
    have stops : ¬ Continues rest := settled.resolve_left (Nat.lt_irrefl _)
    cases rest with
    | nil => exact headerEnd_of_end (by simp)
    | cons byte rest =>
      have first : (bytes ++ byte :: rest)[bytes.length]? = some byte := by simp
      refine headerEnd_of_not_blank first ?_
      cases blank : isBlankByte byte with
      | false => rfl
      | true => exact absurd ⟨byte, rfl, blank⟩ stops
  | case2 | case3 => cases ends
  | case4 consumed byte there blank tail sliced relativeEnd found ih =>
    rw [sliceFrom, if_pos within] at sliced
    cases sliced
    have lineEnd := (crlfAt_of_findCrlf found).1.within
    rw [length_drop] at lineEnd
    have later := ih (by omega) ends
    rw [headerEnd_of_blank (getElem?_append_of_eq_some there rest) blank,
      drop_append_of_le_length within, findCrlf_append found]
    exact later
  | case5 consumed byte there notBlank =>
    cases ends
    exact headerEnd_of_not_blank (getElem?_append_of_eq_some there rest) (by simpa using notBlank)

/-- A header that is still open, or goes on in what follows, does not end in the buffer. -/
theorem headerEnd_beyond {bytes rest : List UInt8} {consumed : Nat}
    (within : consumed ≤ bytes.length) (opened : headerEnd bytes consumed = some none ∨
      headerEnd bytes consumed = some (some bytes.length) ∧ Continues rest)
    {stop : Nat} (ends : headerEnd (bytes ++ rest) consumed = some (some stop)) :
    bytes.length < stop := by
  fun_induction headerEnd bytes consumed with
  | case1 consumed none =>
    obtain ⟨-, byte, first, blank⟩ := opened.resolve_left (by simp)
    have reached : consumed = bytes.length :=
      Nat.le_antisymm within (List.getElem?_eq_none_iff.mp none)
    subst reached
    have there : (bytes ++ rest)[bytes.length]? = some byte := by
      rw [getElem?_append_right (Nat.le_refl _), Nat.sub_self, first]
    rw [headerEnd_of_blank there blank] at ends
    cases found : findCrlf ((bytes ++ rest).drop bytes.length) with
    | none => rw [found] at ends; cases ends
    | some relativeEnd =>
      rw [found] at ends
      dsimp only at ends
      have lineEnd := (crlfAt_of_findCrlf found).1.within
      rw [length_drop] at lineEnd
      obtain ⟨answer, run, bounds⟩ := headerEnd_total (bytes ++ rest)
        (bytes.length + (relativeEnd + 2)) (by omega)
      rw [run] at ends
      cases ends
      have bound := bounds stop rfl
      omega
  | case2 => simp at opened
  | case3 consumed byte there blank tail sliced none =>
    rw [sliceFrom, if_pos within] at sliced
    cases sliced
    rw [headerEnd_of_blank (getElem?_append_of_eq_some there rest) blank,
      drop_append_of_le_length within] at ends
    cases found : findCrlf (bytes.drop consumed ++ rest) with
    | none => rw [found] at ends; cases ends
    | some relativeEnd =>
      rw [found] at ends
      dsimp only at ends
      have beyond := lt_of_findCrlf_append none found
      have lineEnd := (crlfAt_of_findCrlf found).1.within
      rw [length_drop] at beyond
      rw [length_append, length_drop] at lineEnd
      obtain ⟨answer, run, bounds⟩ := headerEnd_total (bytes ++ rest)
        (consumed + (relativeEnd + 2)) (by rw [length_append]; omega)
      rw [run] at ends
      cases ends
      have bound := bounds stop rfl
      omega
  | case4 consumed byte there blank tail sliced relativeEnd found ih =>
    rw [sliceFrom, if_pos within] at sliced
    cases sliced
    have lineEnd := (crlfAt_of_findCrlf found).1.within
    rw [length_drop] at lineEnd
    rw [headerEnd_of_blank (getElem?_append_of_eq_some there rest) blank,
      drop_append_of_le_length within, findCrlf_append found] at ends
    exact ih (by omega) opened ends
  | case5 consumed byte there notBlank =>
    obtain ⟨same, -⟩ := opened.resolve_left (by simp)
    cases same
    rw [getElem?_eq_none (Nat.le_refl _)] at there
    cases there

/-! ## Whole headers -/

/-- The buffer is one header with all its lines, as far as the buffer says: it ends with a line
end, and every line end before that goes on. -/
structure WholeHeader (bytes : List UInt8) : Prop where
  notEmpty : ¬ CrlfAt bytes 0
  ends : ∃ i, CrlfAt bytes i ∧ i + 2 = bytes.length
  goesOn : ∀ i, CrlfAt bytes i → i + 2 < bytes.length → Continues (bytes.drop (i + 2))

/-- The line ends from a place on: the last ends the buffer, the others go on. -/
theorem headerEnd_eq_length_iff {consumed : Nat} (within : consumed ≤ bytes.length) :
    headerEnd bytes consumed = some (some bytes.length) ↔ (consumed < bytes.length →
        Continues (bytes.drop consumed) ∧
        (∃ i, CrlfAt bytes i ∧ consumed ≤ i ∧ i + 2 = bytes.length) ∧
        ∀ i, CrlfAt bytes i → consumed ≤ i → i + 2 < bytes.length →
          Continues (bytes.drop (i + 2))) := by
  fun_induction headerEnd bytes consumed with
  | case1 consumed none =>
    have reached : consumed = bytes.length :=
      Nat.le_antisymm within (List.getElem?_eq_none_iff.mp none)
    simp [reached]
  | case2 consumed byte there blank failed =>
    rw [sliceFrom, if_pos within] at failed
    cases failed
  | case3 consumed byte there blank tail sliced none =>
    rw [sliceFrom, if_pos within] at sliced
    cases sliced
    obtain ⟨inside, -⟩ := List.getElem?_eq_some_iff.mp there
    refine iff_of_false (by simp) fun claim => ?_
    obtain ⟨-, ⟨i, found, after, -⟩, -⟩ := claim inside
    refine not_crlfAt_of_findCrlf none (i - consumed) ?_
    rw [crlfAt_drop, Nat.add_sub_cancel' after]
    exact found
  | case4 consumed byte there blank tail sliced relativeEnd found ih =>
    rw [sliceFrom, if_pos within] at sliced
    cases sliced
    obtain ⟨inside, -⟩ := List.getElem?_eq_some_iff.mp there
    obtain ⟨here, first⟩ := crlfAt_of_findCrlf found
    have lineEnd := here.within
    rw [length_drop] at lineEnd
    rw [crlfAt_drop] at here
    have goes : Continues (bytes.drop consumed) := ⟨byte, by simpa using there, blank⟩
    -- A line end from here on is the one that was found, or comes behind it.
    have split (i : Nat) (isEnd : CrlfAt bytes i) (after : consumed ≤ i) :
        i = consumed + relativeEnd ∨ consumed + (relativeEnd + 2) ≤ i := by
      have notBefore : ¬ i - consumed < relativeEnd := by
        intro before
        refine first (i - consumed) before ?_
        rw [crlfAt_drop, Nat.add_sub_cancel' after]
        exact isEnd
      have notNext : i ≠ consumed + relativeEnd + 1 := by
        rintro rfl
        exact here.not_succ isEnd
      omega
    rw [ih (by omega)]
    constructor
    · intro rest _
      by_cases more : consumed + (relativeEnd + 2) < bytes.length
      · obtain ⟨goesOn, ⟨i, isEnd, after, last⟩, others⟩ := rest more
        refine ⟨goes, ⟨i, isEnd, by omega, last⟩, fun j isEnd after inner => ?_⟩
        rcases split j isEnd after with rfl | behind
        · exact goesOn
        · exact others j isEnd behind inner
      · refine ⟨goes, ⟨consumed + relativeEnd, here, by omega, by omega⟩,
          fun j isEnd after inner => ?_⟩
        rcases split j isEnd after with rfl | behind <;> omega
    · intro claim more
      obtain ⟨-, ⟨i, isEnd, after, last⟩, others⟩ := claim inside
      have inner : consumed + relativeEnd + 2 < bytes.length := more
      refine ⟨others _ here (Nat.le_add_right _ _) inner, ⟨i, isEnd, ?_, last⟩,
        fun j isEnd behind inner => others j isEnd (by omega) inner⟩
      rcases split i isEnd after with rfl | behind
      · omega
      · exact behind
  | case5 consumed byte there notBlank =>
    obtain ⟨inside, -⟩ := List.getElem?_eq_some_iff.mp there
    refine iff_of_false (by simp; omega) fun claim => ?_
    obtain ⟨⟨other, same, blank⟩, -⟩ := claim inside
    rw [getElem?_drop, Nat.add_zero, there] at same
    cases same
    exact notBlank blank

theorem wholeHeader_iff (bytes : List UInt8) : WholeHeader bytes ↔
      ¬ CrlfAt bytes 0 ∧ ∃ firstEnd, findCrlf bytes = some firstEnd ∧
        headerEnd bytes (firstEnd + 2) = some (some bytes.length) := by
  constructor
  · rintro ⟨notEmpty, ⟨last, isLast, stop⟩, goesOn⟩
    refine ⟨notEmpty, ?_⟩
    cases found : findCrlf bytes with
    | none => exact absurd isLast (not_crlfAt_of_findCrlf found last)
    | some firstEnd =>
      obtain ⟨here, first⟩ := crlfAt_of_findCrlf found
      have within := here.within
      have notBefore : ¬ last < firstEnd := fun before => first last before isLast
      have notNext : last ≠ firstEnd + 1 := by
        rintro rfl
        exact here.not_succ isLast
      refine ⟨firstEnd, rfl, (headerEnd_eq_length_iff within).mpr fun more => ?_⟩
      exact ⟨goesOn firstEnd here more, ⟨last, isLast, by omega, stop⟩,
        fun i isEnd _ inner => goesOn i isEnd inner⟩
  · rintro ⟨notEmpty, firstEnd, found, ends⟩
    obtain ⟨here, first⟩ := crlfAt_of_findCrlf found
    have within := here.within
    have claim := (headerEnd_eq_length_iff within).mp ends
    have split (i : Nat) (isEnd : CrlfAt bytes i) : i = firstEnd ∨ firstEnd + 2 ≤ i := by
      have notBefore : ¬ i < firstEnd := fun before => first i before isEnd
      have notNext : i ≠ firstEnd + 1 := by
        rintro rfl
        exact here.not_succ isEnd
      omega
    by_cases more : firstEnd + 2 < bytes.length
    · obtain ⟨goes, ⟨last, isLast, -, stop⟩, others⟩ := claim more
      refine ⟨notEmpty, ⟨last, isLast, stop⟩, fun i isEnd inner => ?_⟩
      rcases split i isEnd with rfl | behind
      · exact goes
      · exact others i isEnd behind inner
    · refine ⟨notEmpty, ⟨firstEnd, here, by omega⟩, fun i isEnd inner => ?_⟩
      rcases split i isEnd with rfl | behind <;> omega

end Terlan.Packet
