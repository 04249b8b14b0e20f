/-
  Facts about type texts: how the cuts of rewriting, which count brackets, follow the nesting
  of a text, and that a list of arguments joined is the list that the cut gives back.
-/
import Terlan.ValueLifecycle.ConstGenerics

namespace Terlan.ValueLifecycle

open Terlan.Lib List

/-! ## Brackets and blanks -/

variable {c : Char}

theorem bracketMark_open (h : bracketMark c = .opening .square) : c = '[' := by
  unfold bracketMark at h
  split at h <;> simp_all

theorem bracketMark_close (h : bracketMark c = .closing .square) : c = ']' := by
  unfold bracketMark at h
  split at h <;> simp_all

theorem bracketMark_of_isWhitespace (h : isWhitespace c = true) : bracketMark c = .plain := by
  unfold bracketMark
  split <;> first | rfl | (revert h; decide)

theorem ne_comma_of_isWhitespace (h : isWhitespace c = true) : isComma c = false := by
  by_contra comma
  have : c = ',' := by simpa [isComma] using comma
  subst this
  revert h
  decide

def IsBlank (text : TypeText) : Prop := ∀ c ∈ text, isWhitespace c = true

theorem scan_blank {stop : Char → Bool} {pending : List Bracket} {blank text : TypeText}
    (isBlank : IsBlank blank) (weaker : ∀ c, stop c = true → isComma c = true) :
    scan bracketMark stop pending (blank ++ text) = scan bracketMark stop pending text := by
  induction blank with
  | nil => rfl
  | cons c blank ih =>
    have white := isBlank c mem_cons_self
    have goes : stop c = false := by
      cases stopped : stop c with
      | false => rfl
      | true => exact absurd (weaker c stopped) (by simp [ne_comma_of_isWhitespace white])
    simp only [cons_append, scan, bracketMark_of_isWhitespace white, goes, Bool.false_and]
    exact ih fun d mem => isBlank d (mem_cons_of_mem _ mem)

/-! ## Trimming -/

/-- Neither end is a blank. -/
def Trimmed (text : TypeText) : Prop :=
  (∀ c ∈ text.head?, isWhitespace c = false) ∧ ∀ c ∈ text.getLast?, isWhitespace c = false

theorem trimText_spec (text : TypeText) :
    ∃ left right, IsBlank left ∧ IsBlank right ∧ text = left ++ (trimText text ++ right) := by
  refine ⟨text.takeWhile isWhitespace, (text.dropWhile isWhitespace).rtakeWhile isWhitespace,
    fun c mem => mem_takeWhile_imp mem, fun c mem => mem_rtakeWhile_imp mem, ?_⟩
  unfold trimText
  rw [rdropWhile_append_rtakeWhile, takeWhile_append_dropWhile]

theorem trimText_of_trimmed {text : TypeText} (trimmed : Trimmed text) : trimText text = text := by
  have start : text.dropWhile isWhitespace = text := by
    cases text with
    | nil => rfl
    | cons c text => simp [List.dropWhile, trimmed.1 c rfl]
  unfold trimText
  rw [start, rdropWhile_eq_self_iff]
  intro nonempty
  rw [trimmed.2 _ (getLast?_eq_some_getLast nonempty)]
  exact Bool.false_ne_true

theorem trimmed_trimText (text : TypeText) : Trimmed (trimText text) := by
  constructor
  · intro c mem
    obtain ⟨rest, eq⟩ := rdropWhile_prefix isWhitespace (text.dropWhile isWhitespace)
    have first : (text.dropWhile isWhitespace).head? = some c := by
      rw [← eq, head?_append]
      unfold trimText at mem
      rw [mem]
      rfl
    have := head?_dropWhile_not isWhitespace text
    rw [first] at this
    simpa using this
  · intro c mem
    cases empty : trimText text with
    | nil => simp [empty] at mem
    | cons d rest =>
      have nonempty : trimText text ≠ [] := by simp [empty]
      have := rdropWhile_last_not isWhitespace (text.dropWhile isWhitespace) nonempty
      rw [getLast?_eq_some_getLast nonempty] at mem
      cases mem
      simpa [trimText] using this

theorem trimmed_blank_cons {text : TypeText} (trimmed : Trimmed text) :
    trimText (' ' :: text) = text := by
  have : trimText (' ' :: text) = trimText text := by
    unfold trimText
    rw [dropWhile_cons_of_pos (by decide)]
  rw [this, trimText_of_trimmed trimmed]

theorem trimText_eq_nil {text : TypeText} (h : trimText text = []) : IsBlank text := by
  obtain ⟨left, right, isLeft, isRight, eq⟩ := trimText_spec text
  rw [eq, h]
  intro c mem
  rcases mem_append.mp mem with mem | mem
  · exact isLeft c mem
  · exact isRight c (by simpa using mem)

/-! ## Cutting at commas -/

/-- The counts of the cut are those of the brackets open. -/
def depthsOf (pending : List Bracket) : Depths :=
  ⟨pending.count .square, pending.count .round, pending.count .brace⟩

theorem depthsOf_eq_outside {pending : List Bracket} : depthsOf pending = {} ↔ pending = [] := by
  constructor
  · intro h
    cases pending with
    | nil => rfl
    | cons b pending => cases b <;> simp [depthsOf] at h
  · rintro rfl
    rfl

theorem depths_open {b : Bracket} {pending : List Bracket}
    (h : bracketMark c = .opening b) : (depthsOf pending).after c = depthsOf (b :: pending) := by
  unfold bracketMark at h
  split at h <;> cases h <;> simp [Depths.after, depthsOf]

theorem depths_close {b : Bracket} {pending : List Bracket}
    (h : bracketMark c = .closing b) : (depthsOf (b :: pending)).after c = depthsOf pending := by
  unfold bracketMark at h
  split at h <;> cases h <;> simp [Depths.after, depthsOf]

theorem depths_plain {depths : Depths} (h : bracketMark c = .plain) : depths.after c = depths := by
  unfold bracketMark at h
  unfold Depths.after
  split at h <;> simp_all

theorem segments_ne_nil (depths : Depths) (text : TypeText) : segments depths text ≠ [] := by
  induction text generalizing depths with
  | nil => simp [segments]
  | cons c text ih =>
    unfold segments
    split
    · simp
    · cases parts : segments (depths.after c) text with
      | nil => exact absurd parts (ih _)
      | cons part parts => simp

/-- A part without a comma outside its brackets is not cut. -/
theorem segments_append {pending out : List Bracket} {part rest : TypeText}
    (run : scan bracketMark isComma pending part = some out) :
    segments (depthsOf pending) (part ++ rest) =
      (segments (depthsOf out) rest).modifyHead (part ++ ·) := by
  induction part generalizing pending with
  | nil =>
    cases run
    rw [nil_append]
    cases segments (depthsOf out) rest <;> rfl
  | cons c part ih =>
    have step : ∀ depths, segments depths (part ++ rest) =
        (segments (depthsOf out) rest).modifyHead (part ++ ·) →
        (segments depths (part ++ rest)).modifyHead (c :: ·) =
          (segments (depthsOf out) rest).modifyHead (c :: part ++ ·) := by
      intro depths eq
      rw [eq]
      cases segments (depthsOf out) rest <;> rfl
    simp only [scan] at run
    cases marked : bracketMark c with
    | opening b =>
      rw [marked] at run
      have uncut : ¬ (c = ',' ∧ depthsOf pending = {}) := by
        rintro ⟨rfl, _⟩
        cases marked
      rw [cons_append, segments, if_neg uncut, depths_open marked]
      exact step _ (ih run)
    | closing b =>
      rw [marked] at run
      have uncut : ¬ (c = ',' ∧ depthsOf pending = {}) := by
        rintro ⟨rfl, _⟩
        cases marked
      cases pending with
      | nil => cases run
      | cons b' pending =>
        simp only [Option.ite_none_right_eq_some] at run
        obtain ⟨rfl, run⟩ := run
        rw [cons_append, segments, if_neg uncut, depths_close marked]
        exact step _ (ih run)
    | plain =>
      rw [marked] at run
      simp only [Option.ite_none_left_eq_some] at run
      have uncut : ¬ (c = ',' ∧ depthsOf pending = {}) := by
        rintro ⟨rfl, outside⟩
        rw [depthsOf_eq_outside] at outside
        subst outside
        exact run.1 rfl
      rw [cons_append, segments, if_neg uncut, depths_plain marked]
      exact step _ (ih run.2)

theorem segments_piece {part : TypeText} (piece : Piece bracketMark isComma part) :
    segments {} part = [part] := by
  have := @segments_append [] [] part [] piece
  simpa [depthsOf, segments] using this

theorem segments_piece_comma {part rest : TypeText} (piece : Piece bracketMark isComma part) :
    segments {} (part ++ ',' :: rest) = part :: segments {} rest := by
  have := @segments_append [] [] part (',' :: rest) piece
  simpa [depthsOf, segments] using this

/-- The cut of a nested text gives pieces, which are the text but for the commas. -/
theorem segments_spec {pending : List Bracket} {text : TypeText}
    (run : scan bracketMark (fun _ => false) pending text = some []) :
    ∃ part parts, segments (depthsOf pending) text = part :: parts ∧
      scan bracketMark isComma pending part = some [] ∧
      (∀ piece ∈ parts, Piece bracketMark isComma piece) ∧
      text = [','].intercalate (part :: parts) := by
  induction text generalizing pending with
  | nil =>
    cases run
    exact ⟨[], [], rfl, rfl, by simp, rfl⟩
  | cons c text ih =>
    have step : ∀ {next : List Bracket}, (depthsOf pending).after c = depthsOf next →
        ¬ (c = ',' ∧ depthsOf pending = {}) →
        (∀ part, scan bracketMark isComma next part = some [] →
          scan bracketMark isComma pending (c :: part) = some []) →
        scan bracketMark (fun _ => false) next text = some [] →
        ∃ part parts, segments (depthsOf pending) (c :: text) = part :: parts ∧
          scan bracketMark isComma pending part = some [] ∧
          (∀ piece ∈ parts, Piece bracketMark isComma piece) ∧
          c :: text = [','].intercalate (part :: parts) := by
      intro next after uncut extends_ run
      obtain ⟨part, parts, eq, first, others, joined⟩ := ih run
      refine ⟨c :: part, parts, ?_, extends_ part first, others, ?_⟩
      · rw [segments, if_neg uncut, after, eq]
        rfl
      · rw [intercalate_cons_cons_left, ← joined]
    simp only [scan] at run
    cases marked : bracketMark c with
    | opening b =>
      rw [marked] at run
      refine step (depths_open marked) ?_ (fun part h => ?_) run
      · rintro ⟨rfl, _⟩
        cases marked
      · simp only [scan, marked, h]
    | closing b =>
      rw [marked] at run
      cases pending with
      | nil => cases run
      | cons b' pending =>
        simp only [Option.ite_none_right_eq_some] at run
        obtain ⟨rfl, run⟩ := run
        refine step (depths_close marked) ?_ (fun part h => ?_) run
        · rintro ⟨rfl, _⟩
          cases marked
        · simp only [scan, marked, if_pos, h]
    | plain =>
      rw [marked] at run
      simp only [Bool.false_and, Bool.false_eq_true, if_false] at run
      by_cases cut : c = ',' ∧ pending = []
      · obtain ⟨rfl, rfl⟩ := cut
        obtain ⟨part, parts, eq, first, others, joined⟩ := ih run
        refine ⟨[], part :: parts, ?_, rfl, ?_, ?_⟩
        · rw [segments, if_pos ⟨rfl, rfl⟩, eq]
        · intro piece mem
          rcases mem_cons.mp mem with rfl | mem
          · exact first
          · exact others piece mem
        · rw [intercalate_cons_cons, ← joined]
          rfl
      · refine step (depths_plain marked) ?_ (fun part h => ?_) run
        · rw [depthsOf_eq_outside]
          exact cut
        · simp only [scan, marked]
          rw [if_neg]
          · exact h
          · intro stops
            simp only [isComma, Bool.and_eq_true, beq_iff_eq, List.isEmpty_iff] at stops
            exact cut stops

/-! ## Arguments -/

/-- What the cut gives: a piece without blanks around it. -/
structure IsArg (arg : TypeText) : Prop where
  piece : Piece bracketMark isComma arg
  trimmed : Trimmed arg

theorem Piece.trimText {part : TypeText} (piece : Piece bracketMark isComma part) :
    Piece bracketMark isComma (trimText part) := by
  obtain ⟨left, right, isLeft, isRight, eq⟩ := trimText_spec part
  unfold Piece at piece ⊢
  rw [eq, scan_blank isLeft fun _ h => h, scan_append, Option.bind_eq_some_iff] at piece
  obtain ⟨out, run, rest⟩ := piece
  have : scan bracketMark isComma out (right ++ []) = some out :=
    (scan_blank isRight fun _ h => h).trans rfl
  rw [append_nil] at this
  rw [this] at rest
  cases rest
  exact run

theorem splitTopLevelConstArgs_eq {text : TypeText} (nonempty : text ≠ []) :
    splitTopLevelConstArgs text = (segments {} text).map trimText := by
  have some_parts := segments_ne_nil {} text
  have last : (segments {} text).getLastD [] ≠ [] ∨ trimText text ≠ [] := by
    by_contra none
    simp only [not_or, not_not] at none
    have blank := trimText_eq_nil none.2
    have piece : Piece bracketMark isComma text := by
      have := @scan_blank isComma [] text [] blank fun _ h => h
      rw [append_nil] at this
      exact this
    rw [segments_piece piece] at none
    exact nonempty none.1
  unfold splitTopLevelConstArgs
  simp only [if_pos last]
  rw [getLastD_eq_getLast?, getLast?_eq_some_getLast some_parts, Option.getD_some,
    dropLast_append_getLast some_parts]

theorem isArg_of_split {text arg : TypeText} (nested : Nested bracketMark text)
    (mem : arg ∈ splitTopLevelConstArgs text) : IsArg arg := by
  by_cases empty : text = []
  · subst empty
    simp [splitTopLevelConstArgs, segments, trimText] at mem
  rw [splitTopLevelConstArgs_eq empty, mem_map] at mem
  obtain ⟨part, mem, rfl⟩ := mem
  obtain ⟨first, parts, eq, isFirst, others, _⟩ := @segments_spec [] text nested
  refine ⟨Piece.trimText ?_, trimmed_trimText part⟩
  rw [show ({} : Depths) = depthsOf [] from rfl, eq] at mem
  rcases mem_cons.mp mem with rfl | mem
  · exact isFirst
  · exact others part mem

theorem segments_blank_cons (text : TypeText) :
    segments {} (' ' :: text) = (segments {} text).modifyHead (' ' :: ·) := by
  rw [segments, if_neg (by decide)]
  rfl

variable {args : List TypeText}

theorem segments_joinArgs {arg : TypeText}
    (first : IsArg arg) (others : ∀ other ∈ args, IsArg other) :
    segments {} (joinArgs (arg :: args)) = arg :: args.map (' ' :: ·) := by
  induction args generalizing arg with
  | nil => simpa [joinArgs] using segments_piece first.piece
  | cons next args ih =>
    have := ih (others next mem_cons_self)
      fun other mem => others other (mem_cons_of_mem _ mem)
    have eq : joinArgs (arg :: next :: args) = arg ++ ',' :: ' ' :: joinArgs (next :: args) := by
      simp [joinArgs]
    rw [eq, segments_piece_comma first.piece, segments_blank_cons, this]
    rfl

/-- Arguments joined are cut into the same arguments, unless there is one and it is empty. -/
theorem splitTopLevelConstArgs_joinArgs (each : ∀ arg ∈ args, IsArg arg)
    (not_blank : args ≠ [[]]) : splitTopLevelConstArgs (joinArgs args) = args := by
  cases args with
  | nil => rfl
  | cons arg args =>
    have nonempty : joinArgs (arg :: args) ≠ [] := by
      cases args with
      | nil =>
        intro empty
        simp only [joinArgs, intercalate_singleton] at empty
        exact not_blank (by rw [empty])
      | cons next args => simp [joinArgs]
    have others := fun other mem => each other (mem_cons_of_mem arg mem)
    rw [splitTopLevelConstArgs_eq nonempty,
      segments_joinArgs (each arg mem_cons_self) others, map_cons, map_map,
      trimText_of_trimmed (each arg mem_cons_self).trimmed]
    congr 1
    conv_rhs => rw [← List.map_id args]
    refine map_congr_left fun other mem => ?_
    exact trimmed_blank_cons (others other mem).trimmed

theorem nested_joinArgs (each : ∀ arg ∈ args, IsArg arg) : Nested bracketMark (joinArgs args) := by
  induction args with
  | nil => rfl
  | cons arg args ih =>
    have first := (each arg mem_cons_self).piece.nested
    have rest := ih fun other mem => each other (mem_cons_of_mem _ mem)
    cases args with
    | nil => simpa [joinArgs] using first
    | cons next args =>
      have eq : joinArgs (arg :: next :: args) =
          arg ++ ',' :: ' ' :: joinArgs (next :: args) := by
        simp [joinArgs]
      unfold Nested at first rest ⊢
      rw [eq, scan_append, first]
      exact rest

/-! ## Groups -/

theorem matchingBracket_append {pending : List Bracket} {inner after : TypeText}
    (run : scan bracketMark (fun _ => false) pending inner = some []) :
    matchingBracket (pending.count .square + 1) (inner ++ ']' :: after) = some (inner, after) := by
  induction inner generalizing pending with
  | nil =>
    cases run
    simp [matchingBracket]
  | cons c inner ih =>
    rw [cons_append, matchingBracket]
    by_cases opens : c = '['
    · subst opens
      have run : scan bracketMark (fun _ => false) (.square :: pending) inner = some [] := run
      have := ih run
      rw [count_cons_self] at this
      rw [if_pos rfl, this]
      rfl
    rw [if_neg opens]
    by_cases closes : c = ']'
    · subst closes
      cases pending with
      | nil => cases run
      | cons b pending =>
        have run : (if Bracket.square = b then
            scan bracketMark (fun _ => false) pending inner else none) = some [] := run
        rw [Option.ite_none_right_eq_some] at run
        obtain ⟨rfl, run⟩ := run
        rw [if_pos rfl, count_cons_self, if_neg (by omega), if_neg (by omega),
          Nat.add_sub_cancel, ih run]
        rfl
    rw [if_neg closes]
    simp only [scan] at run
    cases marked : bracketMark c with
    | opening b =>
      rw [marked] at run
      have other : b ≠ .square := fun same => opens (bracketMark_open (same ▸ marked))
      have := ih run
      rw [count_cons_of_ne other] at this
      rw [this]
      rfl
    | closing b =>
      rw [marked] at run
      have other : b ≠ .square := fun same => closes (bracketMark_close (same ▸ marked))
      cases pending with
      | nil => cases run
      | cons b' pending =>
        simp only [Option.ite_none_right_eq_some] at run
        obtain ⟨rfl, run⟩ := run
        rw [count_cons_of_ne other, ih run]
        rfl
    | plain =>
      rw [marked] at run
      simp only [Bool.false_and, Bool.false_eq_true, if_false] at run
      rw [ih run]
      rfl

section group

variable {before inner inner' after : TypeText}

theorem firstGroup_group (first : '[' ∉ before) (nested : Nested bracketMark inner) :
    firstGroup (group before inner after) = some (before, inner, after) := by
  have names : ∀ c ∈ before, decide (c ≠ '[') = true := by
    intro c mem
    rw [decide_eq_true_eq]
    rintro rfl
    exact first mem
  unfold firstGroup group
  rw [dropWhile_append_of_pos names, takeWhile_append_of_pos names]
  rw [dropWhile_cons_of_neg (by simp), takeWhile_cons_of_neg (by simp), append_nil]
  have := @matchingBracket_append [] inner after nested
  rw [count_nil, Nat.zero_add] at this
  simp only [this, Option.map_some]

theorem firstGroup_plain {text : TypeText} (plain : '[' ∉ text) : firstGroup text = none := by
  have names : ∀ c ∈ text, decide (c ≠ '[') = true := by
    intro c mem
    rw [decide_eq_true_eq]
    rintro rfl
    exact plain mem
  unfold firstGroup
  rw [dropWhile_eq_nil_iff.mpr names]

theorem exists_firstGroup {text : TypeText} (nested : Nested bracketMark text)
    (bracketed : '[' ∈ text) :
    ∃ before inner after, text = group before inner after ∧ '[' ∉ before ∧
      Nested bracketMark inner := by
  obtain ⟨before, rest, rfl, first⟩ := eq_append_cons_of_mem bracketed
  obtain ⟨inner, c, after, rfl, closes, isNested⟩ :=
    exists_group (show bracketMark '[' = .opening Bracket.square from rfl) nested
  obtain rfl := bracketMark_close closes
  exact ⟨before, inner, after, rfl, first, isNested⟩

theorem mem_group : '[' ∈ group before inner after := by
  simp [group]

theorem scan_group {stop : Char → Bool} {pending : List Bracket}
    (nested : Nested bracketMark inner) (nested' : Nested bracketMark inner') :
    scan bracketMark stop pending (group before inner' after) =
      scan bracketMark stop pending (group before inner after) :=
  scan_exchange (show bracketMark '[' = .opening Bracket.square from rfl) nested nested'

theorem trimmed_group (trimmed : Trimmed (group before inner after)) :
    Trimmed (group before inner' after) := by
  obtain ⟨start, last⟩ := trimmed
  constructor
  · cases before with
    | nil | cons => exact start
  · unfold group at last ⊢
    rw [← cons_append, ← append_assoc, getLast?_append_of_ne_nil _ (by simp)]
      at last ⊢
    exact last

end group

/-! ## Bytes -/

/-- Every character is one byte. -/
def IsAscii (text : TypeText) : Prop := ∀ c ∈ text, c.utf8Size = 1

theorem isAscii_of_all {text : TypeText} (h : text.all (fun c => c.utf8Size == 1) = true) :
    IsAscii text :=
  fun c mem => beq_iff_eq.mp (all_eq_true.mp h c mem)

theorem sliceFrom_append (before after : TypeText) :
    sliceFrom (byteLength before) (before ++ after) = some after := by
  induction before with
  | nil => simp [byteLength, sliceFrom]
  | cons c before ih =>
    have pos := c.utf8Size_pos
    have length : byteLength (c :: before) = (c.utf8Size - 1 + byteLength before) + 1 := by
      rw [byteLength]
      omega
    rw [length, cons_append, sliceFrom, if_pos (by omega)]
    rw [show c.utf8Size - 1 + byteLength before + 1 - c.utf8Size = byteLength before by omega]
    exact ih

theorem byteLength_append (before after : TypeText) :
    byteLength (before ++ after) = byteLength before + byteLength after := by
  induction before with
  | nil => simp [byteLength]
  | cons c before ih => simp only [cons_append, byteLength, ih, Nat.add_assoc]

/-- At its own place the closing bracket is found again. -/
theorem sliceFrom_group (before inner after : TypeText) :
    sliceFrom (min (byteLength before + 1 + byteLength inner) (byteLength (group before inner after)))
      (group before inner after) = some (']' :: after) := by
  have eq : group before inner after = (before ++ '[' :: inner) ++ ']' :: after := by
    simp [group]
  have one : byteLength ('[' :: inner) = 1 + byteLength inner := rfl
  have place : byteLength before + 1 + byteLength inner = byteLength (before ++ '[' :: inner) := by
    rw [byteLength_append, one, Nat.add_assoc]
  rw [place, eq, Nat.min_eq_left (by rw [byteLength_append _ (']' :: after)]; exact Nat.le_add_right _ _)]
  exact sliceFrom_append _ _

theorem exists_sliceFrom {text : TypeText} (ascii : IsAscii text) {offset : Nat}
    (inside : offset ≤ byteLength text) : ∃ rest, sliceFrom offset text = some rest := by
  induction text generalizing offset with
  | nil =>
    cases offset with
    | zero => exact ⟨[], rfl⟩
    | succ offset => simp [byteLength] at inside
  | cons c text ih =>
    cases offset with
    | zero => exact ⟨c :: text, rfl⟩
    | succ offset =>
      have one := ascii c mem_cons_self
      rw [byteLength, one] at inside
      rw [sliceFrom, if_pos (by omega), one, Nat.add_sub_cancel]
      exact ih (fun d mem => ascii d (mem_cons_of_mem _ mem))
        (by omega)

theorem ownerOf_ascii {before : TypeText} (ascii : IsAscii before) :
    ownerOf before = some (ownerName before) := by
  unfold ownerOf
  cases last : (before.rdropWhile isOwnerChar).getLast? with
  | none => rfl
  | some c =>
    have mem := mem_of_getLast? last
    have := ascii c (( rdropWhile_prefix isOwnerChar before).subset mem)
    simp [this]

theorem ownerOf_eq {before : TypeText} {owner : String} (h : ownerOf before = some owner) :
    ownerName before = owner := by
  unfold ownerOf at h
  split at h
  · exact Option.some.inj h
  · split at h
    · exact Option.some.inj h
    · cases h

theorem mem_intercalate {separator : TypeText} {parts : List TypeText}
    (mem : c ∈ separator.intercalate parts) : c ∈ separator ∨ ∃ part ∈ parts, c ∈ part := by
  induction parts with
  | nil => simp at mem
  | cons part parts ih =>
    cases parts with
    | nil => exact .inr ⟨part, by simp, by simpa using mem⟩
    | cons next parts =>
      rw [intercalate_cons_cons, append_assoc, mem_append, mem_append] at mem
      rcases mem with mem | mem | mem
      · exact .inr ⟨part, by simp, mem⟩
      · exact .inl mem
      · rcases ih mem with sep | ⟨other, listed, mem⟩
        · exact .inl sep
        · exact .inr ⟨other, mem_cons_of_mem _ listed, mem⟩

theorem mem_of_mem_intercalate {separator part : TypeText} {parts : List TypeText}
    (listed : part ∈ parts) (mem : c ∈ part) : c ∈ separator.intercalate parts := by
  induction parts with
  | nil => cases listed
  | cons first parts ih =>
    cases parts with
    | nil =>
      rw [mem_singleton] at listed
      subst listed
      simpa using mem
    | cons next parts =>
      rw [intercalate_cons_cons, append_assoc, mem_append, mem_append]
      rcases mem_cons.mp listed with rfl | listed
      · exact .inl mem
      · exact .inr (.inr (ih listed))

theorem isAscii_joinArgs (each : ∀ arg ∈ args, IsAscii arg) : IsAscii (joinArgs args) := by
  intro c mem
  rcases mem_intercalate mem with mem | ⟨arg, listed, mem⟩
  · rcases mem_pair.mp mem with rfl | rfl <;> rfl
  · exact each arg listed c mem

theorem isAscii_group {before inner after : TypeText} :
    IsAscii (group before inner after) ↔ IsAscii before ∧ IsAscii inner ∧ IsAscii after := by
  unfold IsAscii group
  simp only [forall_mem_append, forall_mem_cons]
  constructor
  · rintro ⟨b, _, i, _, a⟩
    exact ⟨b, i, a⟩
  · rintro ⟨b, i, a⟩
    exact ⟨b, by decide, i, by decide, a⟩

theorem isAscii_of_split {text arg : TypeText} (ascii : IsAscii text)
    (nested : Nested bracketMark text) (mem : arg ∈ splitTopLevelConstArgs text) : IsAscii arg := by
  by_cases empty : text = []
  · subst empty
    simp [splitTopLevelConstArgs, segments, trimText] at mem
  rw [splitTopLevelConstArgs_eq empty, mem_map] at mem
  obtain ⟨part, listed, rfl⟩ := mem
  obtain ⟨first, parts, eq, _, _, joined⟩ := @segments_spec [] text nested
  obtain ⟨left, right, _, _, part_eq⟩ := trimText_spec part
  intro c mem
  refine ascii c ?_
  rw [joined, ← eq]
  refine mem_of_mem_intercalate listed ?_
  rw [part_eq]
  simp [mem]

end Terlan.ValueLifecycle
