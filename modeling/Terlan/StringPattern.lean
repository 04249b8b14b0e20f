/-
  String patterns: literals and captures matched against a whole text, without going back.

  * `capture_spec`: a capture that succeeds spells the text, with the shortest part before each
    inner literal; patterns of string captures match all that fits exactly when no capture is
    followed by two literals.

  A text is its characters, and the cursor is the text behind it: the source's byte offsets
  only ever stand on character boundaries. What `f64::from_str` reads is a parameter, as bits.
-/
import Mathlib.Data.List.Chain
import Terlan.Lib.Checked
import Terlan.Lib.Fields

namespace Terlan.StringPattern

open Terlan.Lib List

/-! ## Segments -/

inductive Kind where
  | string
  | int
  | float
  | bool
deriving DecidableEq

inductive Segment where
  | literal (text : List Char)
  | capture (kind : Kind)

inductive Captured where
  | string (value : List Char)
  | int (value : Int64)
  | float (bits : UInt64)
  | bool (value : Bool)

inductive ManagedMemoryError where
  | invalidManagedOperation
deriving DecidableEq

def headerBytes : UInt64 := 12
def maxSegments : Nat := 256
def maxEncodedBytes : UInt64 := 65536
def maxIntegerParseBytes : Nat := 128

/-- `text.len()`. -/
def byteLength (text : List Char) : Nat := text.foldr (fun c bytes => c.utf8Size + bytes) 0

structure Scan where
  previousCapture : Bool
  bytes : UInt64

/-- One turn of the loop of `validate`, before the bytes are compared with their limit. -/
def countSegment (scan : Scan) : Segment → Except ManagedMemoryError Scan
  | .literal text =>
    if text = [] then .error .invalidManagedOperation
    else
      match (checkedAdd scan.bytes 5).bind (checkedAdd · (.ofNat (byteLength text))) with
      | some bytes => .ok ⟨false, bytes⟩
      | none => .error .invalidManagedOperation
  | .capture _ =>
    if scan.previousCapture then .error .invalidManagedOperation
    else .ok ⟨true, scan.bytes + 1⟩

def validateSegment (scan : Scan) (segment : Segment) : Except ManagedMemoryError Scan := do
  let next ← countSegment scan segment
  failIf (next.bytes > maxEncodedBytes) .invalidManagedOperation
  return next

def validate (segments : List Segment) : Except ManagedMemoryError Unit := do
  failIf (segments = [] ∨ segments.length > maxSegments) .invalidManagedOperation
  let _ ← segments.foldlM validateSegment ⟨false, headerBytes⟩

/-! ## Matching -/

def stripPrefix (literal rest : List Char) : Option (List Char) :=
  if literal.isPrefixOf rest then some (rest.drop literal.length) else none

def stripSuffix (literal rest : List Char) : Option (List Char) :=
  if literal.isSuffixOf rest then some (rest.take (rest.length - literal.length)) else none

/-- Where the literal first occurs. -/
def find (literal : List Char) : List Char → Option Nat
  | [] => if literal.isPrefixOf [] then some 0 else none
  | c :: rest =>
    if literal.isPrefixOf (c :: rest) then some 0 else (find literal rest).map (· + 1)

def parseIntegerText (text : List Char) : Option Int64 :=
  if text = [] ∨ byteLength text > maxIntegerParseBytes then none else (parseI64 text).toOption

/-- The exponent of infinities and of what is not a number is all ones. -/
def isFinite (bits : UInt64) : Bool := bits >>> 52 &&& 0x7ff != 0x7ff

section Capture

variable (parseF64 : List Char → Option UInt64)

def parseFloatText (text : List Char) : Option UInt64 := (parseF64 text).filter isFinite

def Kind.captured : Kind → List Char → Option Captured
  | .string, value => some (.string value)
  | .int, value => (parseIntegerText value).map .int
  | .float, value => (parseFloatText parseF64 value).map .float
  | .bool, value =>
    if value = "true".toList then some (.bool true)
    else if value = "false".toList then some (.bool false)
    else none

/-- How much a capture takes, by the segments behind it. -/
def captureLength (rest : List Char) : List Segment → Option Nat
  | [] => some rest.length
  | .literal literal :: more =>
    if more.isEmpty then (stripSuffix literal rest).map List.length else find literal rest
  | .capture _ :: _ => none

def captureFrom : List Segment → List Char → Option (List Captured)
  | [], rest => if rest.isEmpty then some [] else none
  | .literal literal :: segments, rest => do captureFrom segments (← stripPrefix literal rest)
  | .capture kind :: segments, rest => do
    let length ← captureLength rest segments
    let value ← kind.captured parseF64 (rest.take length)
    return value :: (← captureFrom segments (rest.drop length))

def capture (text : List Char) (segments : List Segment) : Option (List Captured) :=
  captureFrom parseF64 segments text

end Capture

/-! ## What a match is -/

def captureKinds (segments : List Segment) : List Kind :=
  segments.filterMap fun segment =>
    match segment with
    | .literal _ => none
    | .capture kind => some kind

/-- The text that a pattern spells with these parts for its captures. -/
def interleave : List Segment → List (List Char) → List Char
  | [], _ => []
  | .literal literal :: segments, parts => literal ++ interleave segments parts
  | .capture _ :: segments, part :: parts => part ++ interleave segments parts
  | .capture _ :: _, [] => []

/-- The text can be split to fit the segments. -/
def Fits (segments : List Segment) (text : List Char) : Prop :=
  ∃ parts, parts.length = (captureKinds segments).length ∧ interleave segments parts = text

/-- No part in front of an inner literal reaches over an earlier place of that literal. -/
def Shortest : List Segment → List (List Char) → Prop
  | .capture _ :: segments, part :: parts =>
    (∀ literal next rest, segments = .literal literal :: next :: rest →
      ∀ other, other ++ literal <+: part ++ interleave segments parts →
        part.length ≤ other.length) ∧
    Shortest segments parts
  | .literal _ :: segments, parts => Shortest segments parts
  | _, _ => True

structure Spells (parseF64 : List Char → Option UInt64) (segments : List Segment)
    (text : List Char) (values : List Captured) (parts : List (List Char)) : Prop where
  count : parts.length = (captureKinds segments).length
  spelled : interleave segments parts = text
  read : values.map some = List.zipWith (Kind.captured parseF64) (captureKinds segments) parts
  shortest : Shortest segments parts

def OnlyStrings (segments : List Segment) : Prop := ∀ kind ∈ captureKinds segments, kind = .string

/-- No capture is followed by two literals. -/
def LiteralsApart (segments : List Segment) : Prop :=
  ∀ before kind first second after,
    segments ≠ before ++ .capture kind :: .literal first :: .literal second :: after

/-! ## Validated patterns -/

/-- What `validate` promises to the matcher. -/
structure Valid (segments : List Segment) : Prop where
  literals : ∀ literal, .literal literal ∈ segments → literal ≠ []
  captures : segments.IsChain fun a b => ∀ kind kind', a = .capture kind → b ≠ .capture kind'

variable {segment : Segment}

theorem validateSegment_ok {scan next : Scan} (h : validateSegment scan segment = .ok next) :
    (∀ literal, segment = .literal literal → literal ≠ []) ∧
      (∀ kind, segment = .capture kind → scan.previousCapture = false ∧
        next.previousCapture = true) := by
  obtain ⟨next', step, bound⟩ := except_bind_ok_iff.mp h
  cases (check_bind_ok_iff.mp bound).2
  cases segment with
  | literal literal =>
    refine ⟨fun other eq => ?_, fun kind eq => by cases eq⟩
    cases eq
    rintro rfl
    cases step
  | capture kind =>
    refine ⟨fun literal eq => (by cases eq), fun kind' _ => ?_⟩
    cases previous : scan.previousCapture with
    | true =>
      rw [countSegment, if_pos previous] at step
      cases step
    | false =>
      rw [countSegment, if_neg (by rw [previous]; decide)] at step
      cases step
      exact ⟨rfl, rfl⟩

variable {segments : List Segment}

theorem valid_of_scan {scan last : Scan} (h : segments.foldlM validateSegment scan = .ok last) :
    Valid segments ∧
      (scan.previousCapture = true → ∀ kind, segments.head? ≠ some (.capture kind)) := by
  induction segments generalizing scan with
  | nil => exact ⟨⟨fun _ member => (by cases member), .nil⟩, fun _ kind eq => (by cases eq)⟩
  | cons segment segments ih =>
    rw [foldlM_cons] at h
    obtain ⟨next, step, rest⟩ := except_bind_ok_iff.mp h
    obtain ⟨valid, head⟩ := ih rest
    obtain ⟨nonempty, captured⟩ := validateSegment_ok step
    refine ⟨⟨fun literal member => ?_, ?_⟩, fun previous kind eq => ?_⟩
    · rcases mem_cons.mp member with eq | member
      · exact nonempty literal eq.symm
      · exact valid.literals literal member
    · refine isChain_cons.mpr ⟨fun b isHead kind kind' eq eq' => ?_, valid.captures⟩
      exact head (captured kind eq).2 kind' (by rw [← eq']; exact isHead)
    · rw [(captured kind (Option.some.inj eq)).1] at previous
      cases previous

theorem valid_of_validate (h : validate segments = .ok ()) : Valid segments := by
  obtain ⟨_, scanned⟩ := check_bind_ok_iff.mp h
  obtain ⟨last, scanned, _⟩ := except_bind_ok_iff.mp scanned
  exact (valid_of_scan scanned).1

theorem Valid.tail (h : Valid (segment :: segments)) : Valid segments :=
  ⟨fun literal member => h.literals literal (mem_cons_of_mem _ member), h.captures.tail⟩

theorem Valid.not_captures {kind kind' : Kind}
    (h : Valid (.capture kind :: .capture kind' :: segments)) : False :=
  (isChain_cons_cons.mp h.captures).1 kind kind' rfl rfl

theorem LiteralsApart.tail (h : LiteralsApart (segment :: segments)) : LiteralsApart segments :=
  fun before kind first second after eq =>
    h (segment :: before) kind first second after (congrArg (segment :: ·) eq)

/-! ## Finding a literal -/

theorem stripPrefix_append (literal rest : List Char) :
    stripPrefix literal (literal ++ rest) = some rest := by
  unfold stripPrefix
  rw [if_pos ( isPrefixOf_iff_prefix.mpr (prefix_append literal rest)), drop_left]

theorem stripPrefix_some {literal rest after : List Char}
    (h : stripPrefix literal rest = some after) : rest = literal ++ after := by
  unfold stripPrefix at h
  split at h
  next found =>
    obtain ⟨tail, rfl⟩ := isPrefixOf_iff_prefix.mp found
    rw [drop_left] at h
    rw [Option.some.inj h]
  next => cases h

theorem stripSuffix_append (before literal : List Char) :
    stripSuffix literal (before ++ literal) = some before := by
  unfold stripSuffix
  rw [if_pos (isSuffixOf_iff_suffix.mpr (suffix_append before literal)),
    length_append, Nat.add_sub_cancel, take_left]

/-- No place of the literal is in front of the one that is found. -/
theorem find_first {literal rest : List Char} {n : Nat} (h : find literal rest = some n)
    {other : List Char} (occurs : other ++ literal <+: rest) : n ≤ other.length := by
  induction rest generalizing n other with
  | nil =>
    unfold find at h
    split at h
    next => cases h; exact Nat.zero_le _
    next => cases h
  | cons c rest ih =>
    unfold find at h
    split at h
    next => cases h; exact Nat.zero_le _
    next absent =>
      obtain ⟨m, later, rfl⟩ := Option.map_eq_some_iff.mp h
      cases other with
      | nil => exact absurd ( isPrefixOf_iff_prefix.mpr occurs) absent
      | cons d other =>
        rw [cons_append] at occurs
        exact Nat.succ_le_succ (ih later (cons_prefix_cons.mp occurs).2)

/-- A literal that occurs is found. -/
theorem find_of_occurs {literal other rest : List Char} (occurs : other ++ literal <+: rest) :
    ∃ n, find literal rest = some n ∧ literal <+: rest.drop n := by
  induction rest generalizing other with
  | nil =>
    obtain ⟨-, rfl⟩ := append_eq_nil_iff.mp (prefix_nil.mp occurs)
    exact ⟨0, rfl, prefix_rfl⟩
  | cons c rest ih =>
    by_cases here : literal.isPrefixOf (c :: rest) = true
    · exact ⟨0, by rw [find, if_pos here], isPrefixOf_iff_prefix.mp here⟩
    cases other with
    | nil => exact absurd ( isPrefixOf_iff_prefix.mpr occurs) here
    | cons d other =>
      rw [cons_append] at occurs
      obtain ⟨n, found, behind⟩ := ih (cons_prefix_cons.mp occurs).2
      exact ⟨n + 1, by rw [find, if_neg here, found]; rfl, behind⟩

/-! ## A match spells the text -/

variable {parseF64 : List Char → Option UInt64}

theorem captureFrom_spells {rest : List Char} {values : List Captured}
    (h : captureFrom parseF64 segments rest = some values) :
    ∃ parts, Spells parseF64 segments rest values parts := by
  induction segments generalizing rest values with
  | nil =>
    unfold captureFrom at h
    split at h
    next empty =>
      cases h
      exact ⟨[], rfl, (List.isEmpty_iff.mp empty).symm, rfl, trivial⟩
    next => cases h
  | cons segment segments ih =>
    cases segment with
    | literal literal =>
      obtain ⟨after, stripped, rest'⟩ := Option.bind_eq_some_iff.mp h
      obtain ⟨parts, spells⟩ := ih rest'
      refine ⟨parts, spells.count, ?_, spells.read, spells.shortest⟩
      rw [interleave, spells.spelled, stripPrefix_some stripped]
    | capture kind =>
      obtain ⟨length, measured, h⟩ := Option.bind_eq_some_iff.mp h
      obtain ⟨value, valued, h⟩ := Option.bind_eq_some_iff.mp h
      obtain ⟨values', others, h⟩ := Option.bind_eq_some_iff.mp h
      cases h
      obtain ⟨parts, spells⟩ := ih others
      refine ⟨rest.take length :: parts, ?_, ?_, ?_, ?_, spells.shortest⟩
      · exact congrArg (· + 1) spells.count
      · rw [interleave, spells.spelled, take_append_drop]
      · rw [map_cons, spells.read, ← valued]
        rfl
      · rintro literal next more rfl other occurs
        rw [spells.spelled, take_append_drop] at occurs
        exact (length_take_le _ _).trans (find_first measured occurs)

/-! ## What fits is matched -/

variable {text : List Char} {kind : Kind}

theorem fits_prepend (more : List Char) (fits : Fits (.capture kind :: segments) text) :
    Fits (.capture kind :: segments) (more ++ text) := by
  obtain ⟨parts, count, rfl⟩ := fits
  cases parts with
  | nil => cases count
  | cons part parts =>
    exact ⟨(more ++ part) :: parts, count, append_assoc more part _⟩

theorem fits_literal {literal text : List Char}
    (fits : Fits segments text) : Fits (.literal literal :: segments) (literal ++ text) := by
  obtain ⟨parts, count, rfl⟩ := fits
  exact ⟨parts, count, rfl⟩

/-- The captures in front give the rest of the text to the later ones: taking less, up to the
first place of the delimiter, still leaves a text that fits. -/
theorem captureFrom_of_fits (valid : Valid segments)
    (strings : OnlyStrings segments) (apart : LiteralsApart segments)
    (fits : Fits segments text) : (captureFrom parseF64 segments text).isSome := by
  induction segments generalizing text with
  | nil =>
    obtain ⟨parts, _, rfl⟩ := fits
    rfl
  | cons segment segments ih =>
    cases segment with
    | literal literal =>
      obtain ⟨parts, count, rfl⟩ := fits
      rw [interleave, captureFrom, stripPrefix_append]
      exact ih valid.tail strings apart.tail ⟨parts, count, rfl⟩
    | capture kind =>
      cases strings kind mem_cons_self
      have others : OnlyStrings segments :=
        fun kind member => strings kind (mem_cons_of_mem _ member)
      -- Enough: a length after which the rest fits.
      suffices h : ∃ n, captureLength text segments = some n ∧ Fits segments (text.drop n) by
        obtain ⟨n, measured, fits⟩ := h
        obtain ⟨values, matched⟩ :=
          Option.isSome_iff_exists.mp (ih valid.tail others apart.tail fits)
        rw [captureFrom, measured, Option.bind_eq_bind, Option.bind_some, Kind.captured,
          Option.bind_eq_bind, Option.bind_some, matched]
        rfl
      obtain ⟨parts, count, rfl⟩ := fits
      cases parts with
      | nil => cases count
      | cons part parts =>
        have count := Nat.succ.inj count
        rw [interleave]
        match segments, valid, apart, count with
        | [], _, _, _ =>
          refine ⟨_, rfl, [], rfl, ?_⟩
          rw [drop_length]
          rfl
        | .capture kind' :: _, valid, _, _ => exact valid.not_captures.elim
        | [.literal literal], _, _, count =>
          refine ⟨part.length, ?_, parts, count, ?_⟩
          · change (stripSuffix literal (part ++ (literal ++ []))).map List.length = _
            rw [append_nil, stripSuffix_append]
            rfl
          · rw [drop_left]
        | .literal literal :: .literal second :: after, _, apart, _ =>
          exact absurd rfl (apart [] .string literal second after)
        | .literal literal :: .capture kind' :: after, _, _, count =>
          have occurs : part ++ literal <+: part ++ interleave
              (.literal literal :: .capture kind' :: after) parts := by
            rw [interleave, ← append_assoc]
            exact prefix_append _ _
          obtain ⟨n, found, behind⟩ := find_of_occurs occurs
          have le := find_first found occurs
          obtain ⟨extra, eq⟩ := behind
          refine ⟨n, found, ?_⟩
          rw [← eq]
          refine fits_literal ?_
          -- What is left has the text behind the later place as its end.
          have left : extra = (part ++ literal).drop (n + literal.length) ++
              interleave (.capture kind' :: after) parts := by
            have behind := congrArg (List.drop literal.length) eq
            rw [drop_left, drop_drop] at behind
            rw [behind, interleave, ← append_assoc, drop_append_of_le_length]
            rw [length_append]
            omega
          rw [left]
          exact fits_prepend _ ⟨parts, count, rfl⟩

/-! ## What is missed -/

/-- The text of a pattern whose captures are all empty. -/
def literalsOf (segments : List Segment) : List Char :=
  segments.flatMap fun segment =>
    match segment with
    | .literal literal => literal
    | .capture _ => []

theorem fits_front {rest : List Segment} (before : List Segment)
    (fits : Fits rest text) : Fits (before ++ rest) (literalsOf before ++ text) := by
  induction before with
  | nil => exact fits
  | cons segment before ih =>
    cases segment with
    | literal literal =>
      rw [literalsOf, flatMap_cons, append_assoc]
      exact fits_literal ih
    | capture kind =>
      obtain ⟨parts, count, spelled⟩ := ih
      exact ⟨[] :: parts, congrArg (· + 1) count, spelled⟩

theorem fits_literalsOf (segments : List Segment) : Fits segments (literalsOf segments) := by
  have fits := fits_front segments (⟨[], rfl, rfl⟩ : Fits [] [])
  rw [append_nil, append_nil] at fits
  exact fits

theorem find_here (literal rest : List Char) : find literal (literal ++ rest) = some 0 := by
  have occurs : [] ++ literal <+: literal ++ rest := prefix_append literal rest
  obtain ⟨n, found, _⟩ := find_of_occurs occurs
  rw [found, Nat.le_zero.mp (find_first found occurs)]

/-- A capture in front of a literal that comes at once takes nothing. -/
theorem captureFrom_at_once {literal rest : List Char} {next : Segment}
    (missed : captureFrom parseF64 (.literal literal :: next :: segments) (literal ++ rest) = none) :
    captureFrom parseF64 (.capture kind :: .literal literal :: next :: segments)
      (literal ++ rest) = none := by
  have length : captureLength (literal ++ rest) (.literal literal :: next :: segments) = some 0 :=
    find_here literal rest
  rw [captureFrom, length, Option.bind_eq_bind, Option.bind_some, drop_zero, missed]
  cases kind.captured parseF64 ((literal ++ rest).take 0) with
  | none | some => rfl

theorem captureFrom_front {before rest : List Segment}
    (valid : Valid (before ++ .capture kind :: rest))
    (missed : captureFrom parseF64 (.capture kind :: rest) text = none) :
    captureFrom parseF64 (before ++ .capture kind :: rest) (literalsOf before ++ text) = none := by
  induction before with
  | nil => exact missed
  | cons segment before ih =>
    have later := ih valid.tail
    cases segment with
    | literal literal =>
      rw [cons_append, literalsOf, flatMap_cons, captureFrom, append_assoc,
        stripPrefix_append]
      exact later
    | capture kind' =>
      match before, valid, later with
      | [], valid, _ => exact valid.not_captures.elim
      | .capture _ :: _, valid, _ => exact valid.not_captures.elim
      | .literal literal :: before, _, later =>
        have split : literalsOf (.capture kind' :: .literal literal :: before) ++ text =
            literal ++ (literalsOf before ++ text) :=
          append_assoc literal (literalsOf before) text
        have split' : literalsOf (.literal literal :: before) ++ text =
            literal ++ (literalsOf before ++ text) :=
          append_assoc literal (literalsOf before) text
        rw [split'] at later
        rw [split]
        obtain ⟨next, more, eq⟩ : ∃ next more, before ++ .capture kind :: rest = next :: more :=
          exists_cons_of_ne_nil (by simp)
        rw [cons_append, eq] at later
        rw [cons_append, cons_append, eq]
        exact captureFrom_at_once later

/-- Two literals behind a capture: a first literal that is not followed by the second one hides
the place where both come. -/
theorem captureFrom_hidden {first second : List Char} {after : List Segment}
    (nonempty : second ≠ []) : ∃ text,
      captureFrom parseF64 (.capture kind :: .literal first :: .literal second :: after) text = none ∧
        Fits (.capture kind :: .literal first :: .literal second :: after) text := by
  obtain ⟨d, second', rfl⟩ := exists_cons_of_ne_nil nonempty
  obtain ⟨c, other⟩ : ∃ c : Char, c ≠ d := by
    by_cases same : d = 'a'
    · exact ⟨'b', by rw [same]; decide⟩
    · exact ⟨'a', Ne.symm same⟩
  refine ⟨first ++ (c :: (first ++ (d :: second' ++ literalsOf after))), ?_, ?_⟩
  · refine captureFrom_at_once ?_
    rw [captureFrom, stripPrefix_append, Option.bind_eq_bind, Option.bind_some, captureFrom]
    have absent : (d :: second').isPrefixOf
        (c :: (first ++ (d :: second' ++ literalsOf after))) = false := by
      rw [List.isPrefixOf, beq_eq_false_iff_ne.mpr (Ne.symm other), Bool.false_and]
    rw [stripPrefix, absent]
    rfl
  · obtain ⟨parts, count, spelled⟩ := fits_literalsOf after
    refine ⟨(first ++ [c]) :: parts, congrArg (· + 1) count, ?_⟩
    rw [interleave, interleave, interleave, spelled, append_assoc]
    rfl

/-! ## The claim of the pattern -/

section Spec

variable (parseF64 : List Char → Option UInt64)

def Sound (segments : List Segment) : Prop :=
  ∀ text values, capture parseF64 text segments = some values →
    ∃ parts, Spells parseF64 segments text values parts

def Complete (segments : List Segment) : Prop :=
  ∀ text, (capture parseF64 text segments).isSome ↔ Fits segments text

/-- Every match is sound. Patterns of string captures match all that fits exactly when their
literals are apart. -/
theorem capture_spec {segments : List Segment} (validated : validate segments = .ok ()) :
    Sound parseF64 segments ∧ (OnlyStrings segments → Complete parseF64 segments) ↔
      (OnlyStrings segments → LiteralsApart segments) := by
  have valid := valid_of_validate validated
  constructor
  · rintro ⟨_, complete⟩ strings before kind first second after rfl
    have nonempty : second ≠ [] := valid.literals second (by simp)
    obtain ⟨text, missed, fits⟩ :=
      @captureFrom_hidden parseF64 kind first second after nonempty
    have matched := (complete strings _).mpr (fits_front before fits)
    rw [capture, captureFrom_front valid missed] at matched
    cases matched
  · intro apart
    refine ⟨fun text values matched => captureFrom_spells matched, fun strings text => ?_⟩
    constructor
    · intro matched
      obtain ⟨values, matched⟩ := Option.isSome_iff_exists.mp matched
      obtain ⟨parts, spells⟩ := captureFrom_spells matched
      exact ⟨parts, spells.count, spells.spelled⟩
    · exact captureFrom_of_fits valid strings (apart strings)

end Spec

/-- A path with two captures. -/
theorem capture_spec_path :
    Complete (fun _ => none)
      [.literal ['/'], .capture .string, .literal ['/'], .capture .string] :=
  ((capture_spec (fun _ => none) (by decide)).mpr fun _ before kind first second after eq => by
    match before, eq with
    | [], eq => cases eq
    | [_], eq => cases eq
    | [_, _], eq => cases eq
    | [_, _, _], eq => cases eq
    | _ :: _ :: _ :: _ :: before, eq =>
      have short := congrArg List.length eq
      simp at short).2 (by unfold OnlyStrings; decide)

/-- `aab` is `a`, `a`, `b`, but the capture stops in front of the first `a`. -/
theorem capture_misses_second_place :
    validate [.capture .string, .literal ['a'], .literal ['b']] = .ok () ∧
      OnlyStrings [.capture .string, .literal ['a'], .literal ['b']] ∧
      Fits [.capture .string, .literal ['a'], .literal ['b']] ['a', 'a', 'b'] ∧
      capture (fun _ => none) ['a', 'a', 'b']
        [.capture .string, .literal ['a'], .literal ['b']] = none :=
  ⟨by decide, by unfold OnlyStrings; decide, ⟨[['a']], rfl, rfl⟩, by decide⟩

end Terlan.StringPattern
