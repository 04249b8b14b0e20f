/-
  Text files made of lines, separated fields and decimal numbers, over `List Char`:
  `str::lines`, `join` and `str::split`, and integers as `Display` writes them and `FromStr`
  reads them. `List.intercalate` and `List.splitOn` are the join and the split.

  * `lines_unlines`: lines without line breaks in them are read back one for one.
  * `parseU64_displayU64`, `parseI64_displayI64`: a printed number reads back.
-/
import Terlan.Lib.Machine

namespace Terlan.Lib

open List

/-! ## Lines -/

/-- A carriage return in front of the line feed belongs to the line break. -/
def stripCarriageReturn (line : List Char) : List Char :=
  if line.getLast? = some '\r' then line.dropLast else line

/-- `text.lines()`: every piece but the last one ended in a line feed, and an empty last
piece is no line. -/
def lines (text : List Char) : List (List Char) :=
  let pieces := text.splitOn '\n'
  pieces.dropLast.map stripCarriageReturn ++ pieces.getLast?.toList.filter (· ≠ [])

/-- `format!("{}\n", rows.join("\n"))`. -/
def unlines (rows : List (List Char)) : List Char := ['\n'].intercalate rows ++ ['\n']

theorem stripCarriageReturn_of_notMem {line : List Char} (h : '\r' ∉ line) :
    stripCarriageReturn line = line := by
  unfold stripCarriageReturn
  rw [if_neg]
  intro last
  exact h (mem_of_getLast? last)

theorem intercalate_concat_nil {sep : List Char} {rows : List (List Char)} (h : rows ≠ []) :
    sep.intercalate (rows ++ [[]]) = sep.intercalate rows ++ sep := by
  induction rows with
  | nil => exact absurd rfl h
  | cons row rows ih =>
    cases rows with
    | nil => simp [List.intercalate]
    | cons next rows =>
      have rest := ih (by simp)
      simp only [cons_append, intercalate_cons_cons] at rest ⊢
      rw [rest]
      simp only [append_assoc]

theorem lines_unlines {rows : List (List Char)} (nonempty : rows ≠ [])
    (plain : ∀ row ∈ rows, '\n' ∉ row ∧ '\r' ∉ row) : lines (unlines rows) = rows := by
  have pieces : (unlines rows).splitOn '\n' = rows ++ [[]] := by
    rw [unlines, ← intercalate_concat_nil nonempty, splitOn_intercalate]
    · intro row mem
      rcases mem_append.mp mem with mem | mem
      · exact (plain row mem).1
      · rw [mem_singleton.mp mem]
        exact not_mem_nil
    · simp
  have stripped : rows.map stripCarriageReturn = rows.map id :=
    map_congr_left fun row mem => stripCarriageReturn_of_notMem (plain row mem).2
  simp [lines, pieces, stripped]

/-! ## Fields -/

theorem splitOn_intercalate_fields {sep : Char} {fields : List (List Char)}
    (nonempty : fields ≠ []) (plain : ∀ field ∈ fields, sep ∉ field) :
    ([sep].intercalate fields).splitOn sep = fields :=
  splitOn_intercalate sep plain nonempty

theorem notMem_intercalate {c : Char} {sep : List Char} {fields : List (List Char)}
    (separator : c ∉ sep) (plain : ∀ field ∈ fields, c ∉ field) : c ∉ sep.intercalate fields := by
  induction fields with
  | nil => simp [List.intercalate]
  | cons field fields ih =>
    have first := plain field mem_cons_self
    have others := ih fun field mem => plain field (mem_cons_of_mem _ mem)
    cases fields with
    | nil => simpa [List.intercalate] using first
    | cons next fields =>
      rw [intercalate_cons_cons]
      simp only [mem_append, not_or]
      exact ⟨⟨first, separator⟩, others⟩

/-! ## Decimal numbers -/

inductive ParseIntError where
  | empty
  | invalidDigit
  | posOverflow
  | negOverflow
deriving DecidableEq

/-- The digits from the left; a number above the limit stops at the digit that makes it so. -/
def parseDigits (limit : Nat) (overflow : ParseIntError) :
    Nat → List Char → Except ParseIntError Nat
  | n, [] => .ok n
  | n, c :: cs =>
    if c.isDigit then
      if 10 * n + (c.toNat - '0'.toNat) ≤ limit then
        parseDigits limit overflow (10 * n + (c.toNat - '0'.toNat)) cs
      else .error overflow
    else .error .invalidDigit

/-- `text.parse::<u64>()`. -/
def parseU64 (text : List Char) : Except ParseIntError UInt64 :=
  UInt64.ofNat <$>
    match text with
    | [] => .error .empty
    | ['+'] => .error .invalidDigit
    | '+' :: digits => parseDigits u64Max .posOverflow 0 digits
    | digits => parseDigits u64Max .posOverflow 0 digits

/-- `text.parse::<i64>()`. -/
def parseI64 (text : List Char) : Except ParseIntError Int64 :=
  Int64.ofInt <$>
    match text with
    | [] => .error .empty
    | ['+'] | ['-'] => .error .invalidDigit
    | '+' :: digits => Nat.cast <$> parseDigits (2 ^ 63 - 1) .posOverflow 0 digits
    | '-' :: digits => (fun n : Nat => -(n : Int)) <$> parseDigits (2 ^ 63) .negOverflow 0 digits
    | digits => Nat.cast <$> parseDigits (2 ^ 63 - 1) .posOverflow 0 digits

def displayU64 (n : UInt64) : List Char := Nat.toDigits 10 n.toNat

def displayI64 (n : Int64) : List Char :=
  if n.toInt < 0 then '-' :: Nat.toDigits 10 n.toInt.natAbs
  else Nat.toDigits 10 n.toInt.natAbs

theorem le_ofDigitChars (cs : List Char) (n : Nat) : n ≤ Nat.ofDigitChars 10 cs n := by
  induction cs generalizing n with
  | nil => simp
  | cons c cs ih =>
    rw [Nat.ofDigitChars_cons]
    have := ih (10 * n + (c.toNat - '0'.toNat))
    omega

theorem parseDigits_of_digits {limit : Nat} {overflow : ParseIntError} {cs : List Char} {n : Nat}
    (digits : ∀ c ∈ cs, c.isDigit) (fits : Nat.ofDigitChars 10 cs n ≤ limit) :
    parseDigits limit overflow n cs = .ok (Nat.ofDigitChars 10 cs n) := by
  induction cs generalizing n with
  | nil => simp [parseDigits]
  | cons c cs ih =>
    rw [Nat.ofDigitChars_cons] at fits ⊢
    have step := le_ofDigitChars cs (10 * n + (c.toNat - '0'.toNat))
    rw [parseDigits, if_pos (digits c mem_cons_self), if_pos (by omega),
      ih (fun c mem => digits c (mem_cons_of_mem _ mem)) fits]

theorem parseDigits_toDigits {limit : Nat} {overflow : ParseIntError} {n : Nat}
    (fits : n ≤ limit) : parseDigits limit overflow 0 (Nat.toDigits 10 n) = .ok n := by
  have value := Nat.ofDigitChars_ten_toDigits (n := n)
  have digits (c : Char) (mem : c ∈ Nat.toDigits 10 n) : c.isDigit :=
    Nat.isDigit_of_mem_toDigits (by omega) (by omega) mem
  rw [parseDigits_of_digits digits (by omega), value]

/-- A printed number starts with a digit, so it has no sign. -/
theorem toDigits_cons (n : Nat) :
    ∃ c cs, Nat.toDigits 10 n = c :: cs ∧ c.isDigit ∧ c ≠ '+' ∧ c ≠ '-' := by
  cases printed : Nat.toDigits 10 n with
  | nil => exact absurd printed Nat.toDigits_ne_nil
  | cons c cs =>
    have digit : c.isDigit :=
      Nat.isDigit_of_mem_toDigits (n := n) (by omega) (by omega) (printed ▸ mem_cons_self)
    refine ⟨c, cs, rfl, digit, ?_, ?_⟩ <;> rintro rfl <;> exact absurd digit (by decide)

theorem parseU64_displayU64 (n : UInt64) : parseU64 (displayU64 n) = .ok n := by
  have fits : n.toNat ≤ u64Max := by
    have := n.toNat_lt
    unfold u64Max
    omega
  have parsed : parseDigits u64Max .posOverflow 0 (Nat.toDigits 10 n.toNat) = .ok n.toNat :=
    parseDigits_toDigits fits
  obtain ⟨c, cs, printed, -, notPlus, -⟩ := toDigits_cons n.toNat
  rw [displayU64]
  rw [printed] at parsed ⊢
  unfold parseU64
  split
  next h => cases h
  next h => cases h; exact absurd rfl notPlus
  next h => cases h; exact absurd rfl notPlus
  next =>
    rw [parsed]
    exact congrArg Except.ok UInt64.ofNat_toNat

theorem parseI64_displayI64 (n : Int64) : parseI64 (displayI64 n) = .ok n := by
  have low := n.le_toInt
  have high := n.toInt_lt
  obtain ⟨c, cs, printed, -, notPlus, notMinus⟩ := toDigits_cons n.toInt.natAbs
  unfold displayI64
  by_cases negative : n.toInt < 0
  · have parsed : parseDigits (2 ^ 63) .negOverflow 0 (c :: cs) = .ok n.toInt.natAbs :=
      printed ▸ parseDigits_toDigits (by omega)
    have value : -(n.toInt.natAbs : Int) = n.toInt := by omega
    rw [if_pos negative, printed]
    change Int64.ofInt <$> ((fun n : Nat => -(n : Int)) <$> parseDigits (2 ^ 63) .negOverflow 0 (c :: cs)) = _
    rw [parsed]
    change Except.ok (Int64.ofInt (-(n.toInt.natAbs : Int))) = _
    rw [value, Int64.ofInt_toInt]
  · have parsed : parseDigits (2 ^ 63 - 1) .posOverflow 0 (c :: cs) = .ok n.toInt.natAbs :=
      printed ▸ parseDigits_toDigits (by omega)
    have value : (n.toInt.natAbs : Int) = n.toInt := by omega
    rw [if_neg negative, printed]
    unfold parseI64
    split
    next h => cases h
    next h => cases h; exact absurd rfl notPlus
    next h => cases h; exact absurd rfl notMinus
    next h => cases h; exact absurd rfl notPlus
    next h => cases h; exact absurd rfl notMinus
    next =>
      rw [parsed]
      change Except.ok (Int64.ofInt ((n.toInt.natAbs : Int))) = _
      rw [value, Int64.ofInt_toInt]

/-- What a printed number is made of. -/
theorem isDigit_of_mem_displayU64 {n : UInt64} {c : Char} (h : c ∈ displayU64 n) : c.isDigit :=
  Nat.isDigit_of_mem_toDigits (by omega) (by omega) h

theorem isDigit_or_of_mem_displayI64 {n : Int64} {c : Char} (h : c ∈ displayI64 n) :
    c = '-' ∨ c.isDigit := by
  have digit {m : Nat} (mem : c ∈ Nat.toDigits 10 m) : c.isDigit :=
    Nat.isDigit_of_mem_toDigits (by omega) (by omega) mem
  unfold displayI64 at h
  split at h
  next => exact (mem_cons.mp h).imp_right digit
  next => exact .inr (digit h)

end Terlan.Lib
