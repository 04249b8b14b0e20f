/-
  Buffered HTTP/1: one request from the front of a buffer, or the answer that more is needed.

  The head is read by `httparse`, which is not part of the repository: `parse` is its answer for
  a buffer, with room for 32 headers, and `Httparse` what its documentation says of it. The
  `http` crate builds the request: `build`. The texts of UTF-8 errors are a parameter too.

  Before the head is parsed the end of it is looked for, as the first CRLF CRLF. The two do not
  always agree: `httparse` passes over empty lines in front of a request, and ends lines at a
  bare LF. `Agrees` is the exact condition on a buffer and what follows it in the stream, and
  `http1_reads` what holds of every stream under it.
-/
import Terlan.Lib.Checked
import Terlan.Lib.Incremental
import Terlan.Lib.Machine
import Terlan.Lib.Text

namespace Terlan.Http1

open Terlan.Lib List

/-! ## Failures -/

inductive RequestReadFailureKind where
  | clientClosed
  | timeout
  | io
  | headerLimit
  | bodyLimit
  | malformed
deriving DecidableEq

structure RequestReadFailure where
  kind : RequestReadFailureKind
  message : String
deriving DecidableEq

def httpHeaderLimit : Nat := 64 * 1024

def httpBodyLimit : Nat := 1024 * 1024

def malformed (message : String) : RequestReadFailure where
  kind := .malformed
  message := message

def headerLimit : RequestReadFailure where
  kind := .headerLimit
  message := "VM HTTP request exceeded 64 KiB header limit"

def bodyLimit : RequestReadFailure where
  kind := .bodyLimit
  message := "VM HTTP request exceeded 1 MiB body limit"

/-! ## What is outside the repository -/

/-- `httparse::Request` after a parse. -/
structure ParsedRequest where
  method : Option String
  path : Option String
  version : Option Nat
  headers : List (String × List UInt8)
deriving DecidableEq

/-- The answer of `httparse::Request::parse`. -/
inductive ParseStatus where
  | complete (request : ParsedRequest) (length : Nat)
  /-- `Status::Partial`. -/
  | unfinished
  | error (text : String)
deriving DecidableEq

/-- `httparse` reads a buffer from its front: a head or an error that it has found does not
change with what follows, and it asks for more exactly where a head may still come. -/
structure Httparse (parse : List UInt8 → ParseStatus) : Prop where
  within : ∀ buffer request length, parse buffer = .complete request length →
    0 < length ∧ length ≤ buffer.length
  complete : ∀ buffer request length, parse buffer = .complete request length →
    ∀ rest, parse (buffer ++ rest) = .complete request length
  error : ∀ buffer text, parse buffer = .error text → ∀ rest, parse (buffer ++ rest) = .error text
  unfinished : ∀ buffer, parse buffer = .unfinished ↔
    ∃ rest request, rest ≠ [] ∧
      parse (buffer ++ rest) = .complete request (buffer ++ rest).length

inductive HttpVersion where
  | http10
  | http11

section Parse

variable {P : Type} (parse : List UInt8 → ParseStatus)
  (build : String → String → HttpVersion → List (String × String) → Except String P)
  (utf8Error : List UInt8 → String)

/-! ## Heads -/

structure RequestHead (P : Type) where
  parts : P
  contentLength : Nat
  headLength : Nat

/-- Where the first CRLF CRLF begins. -/
def findHeaderEnd : List UInt8 → Option Nat
  | [] => none
  | byte :: bytes =>
    if [13, 10, 13, 10].isPrefixOf (byte :: bytes) then some 0
    else (findHeaderEnd bytes).map (· + 1)

def eqIgnoreAsciiCase (a b : String) : Bool :=
  a.toList.map Char.toLower = b.toList.map Char.toLower

/-- `value.parse::<usize>()` of digits. -/
def parseUsize (value : String) : Except String Nat :=
  let number := Nat.ofDigitChars 10 value.toList 0
  if number ≤ u64Max then .ok number else .error "number too large to fit in target type"

def contentLengthOf (value : String) : Except RequestReadFailure Nat :=
  if value.toList = [] ∨ ¬ value.toList.all Char.isDigit then
    .error (malformed s!"VM HTTP Content-Length `{value}` is invalid")
  else
    match parseUsize value with
    | .ok length => .ok length
    | .error text => .error (malformed s!"VM HTTP Content-Length `{value}` is invalid: {text}")

/-- One header: its value as a text, and the content length if it says one. -/
def readHeader (contentLength : Option Nat) (header : String × List UInt8) :
    Except RequestReadFailure (Option Nat × (String × String)) :=
  match fromUtf8 header.2 with
  | none =>
    .error (malformed s!"VM HTTP header `{header.1}` is not UTF-8: {utf8Error header.2}")
  | some value =>
    if eqIgnoreAsciiCase header.1 "transfer-encoding" then
      .error (malformed "VM HTTP buffered request does not support Transfer-Encoding")
    else if eqIgnoreAsciiCase header.1 "content-length" then
      if contentLength.isSome then
        .error (malformed "VM HTTP request has multiple Content-Length headers")
      else do
        let length ← contentLengthOf value
        return (some length, (header.1, value))
    else .ok (contentLength, (header.1, value))

def readHeaders :
    Option Nat → List (String × List UInt8) →
      Except RequestReadFailure (Option Nat × List (String × String))
  | contentLength, [] => .ok (contentLength, [])
  | contentLength, header :: headers => do
    let (contentLength, first) ← readHeader utf8Error contentLength header
    let (contentLength, others) ← readHeaders contentLength headers
    return (contentLength, first :: others)

def versionOf (version : Option Nat) : Except RequestReadFailure HttpVersion :=
  match version with
  | some 0 => .ok .http10
  | some 1 => .ok .http11
  | _ => .error (malformed "VM HTTP request has unsupported version")

/-- What is made of a head that `httparse` has read to its end. -/
def requestHead (request : ParsedRequest) (length : Nat) :
    Except RequestReadFailure (RequestHead P) := do
  failIf (length > httpHeaderLimit) headerLimit
  let method ← request.method.elim (.error (malformed "VM HTTP request missing method")) .ok
  let uri ← request.path.elim (.error (malformed "VM HTTP request missing path")) .ok
  let version ← versionOf request.version
  let (contentLength, headers) ← readHeaders utf8Error none request.headers
  let contentLength := contentLength.getD 0
  failIf (contentLength > httpBodyLimit) bodyLimit
  match build method uri version headers with
  | .error text => throw (malformed s!"failed to build parsed VM HTTP request: {text}")
  | .ok parts =>
    return { parts := parts, contentLength := contentLength, headLength := length }

def parseHead (bytes : List UInt8) : Except RequestReadFailure (RequestHead P) :=
  if ((findHeaderEnd bytes).map (· + 4)).getD bytes.length > httpHeaderLimit then
    .error headerLimit
  else
    match parse bytes with
    | .error text => .error (malformed s!"failed to parse VM HTTP request: {text}")
    | .unfinished => .error (malformed "VM HTTP parser reported partial headers")
    | .complete request length => requestHead build utf8Error request length

/-! ## Requests -/

def attachBody (head : RequestHead P) (body : List UInt8) :
    Except RequestReadFailure (P × String) :=
  match fromUtf8 body with
  | some text => .ok (head.parts, text)
  | none => .error (malformed s!"VM HTTP request body must be UTF-8: {utf8Error body}")

/-- The request that a head announces, once its body is there. -/
def takeBody (buffer : List UInt8) (head : RequestHead P) :
    Except RequestReadFailure (Option ((P × String) × Nat)) :=
  let completeLen := head.headLength + head.contentLength
  if buffer.length < completeLen then .ok none
  else do
    let request ← attachBody utf8Error head ((buffer.take completeLen).drop head.headLength)
    return some (request, completeLen)

def tryParseHttp1RequestBuffer (buffer : List UInt8) :
    Except RequestReadFailure (Option ((P × String) × Nat)) :=
  match findHeaderEnd buffer with
  | none => if buffer.length > httpHeaderLimit then .error headerLimit else .ok none
  | some _ => do takeBody utf8Error buffer (← parseHead parse build utf8Error buffer)

/-- The parser as a reader of a stream calls it. -/
def progress (buffer : List UInt8) : Progress (P × String) RequestReadFailure :=
  match tryParseHttp1RequestBuffer parse build utf8Error buffer with
  | .ok (some (request, consumed)) => .done request consumed
  | .ok none => .more
  | .error failure => .failed failure

/-- The buffer begins with a whole request that is within the limits. -/
def holdsRequest (buffer : List UInt8) : Bool :=
  match parse buffer with
  | .complete request length =>
    match requestHead build utf8Error request length with
    | .ok head => head.headLength + head.contentLength ≤ buffer.length
    | .error _ => false
  | _ => false

/-- The scanner for the end of the head and `httparse` agree on a buffer and what follows it. -/
structure Agrees (buffer rest : List UInt8) : Prop where
  /-- A head that the scanner sees the end of, and `httparse` does not, stays that way. -/
  ends : ∀ stop ∈ findHeaderEnd buffer, stop + 4 ≤ httpHeaderLimit →
    parse buffer = .unfinished → parse (buffer ++ rest) = .unfinished
  /-- A whole request has a CRLF CRLF in it, or after it. -/
  found : holdsRequest parse build utf8Error buffer = true →
    findHeaderEnd buffer ≠ none ∨ httpHeaderLimit < buffer.length

instance (buffer rest : List UInt8) : Decidable (Agrees parse build utf8Error buffer rest) :=
  decidable_of_iff
    ((∀ stop ∈ findHeaderEnd buffer, stop + 4 ≤ httpHeaderLimit →
        parse buffer = .unfinished → parse (buffer ++ rest) = .unfinished) ∧
      (holdsRequest parse build utf8Error buffer = true →
        findHeaderEnd buffer ≠ none ∨ httpHeaderLimit < buffer.length))
    ⟨fun both => ⟨both.1, both.2⟩, fun agrees => ⟨agrees.ends, agrees.found⟩⟩

end Parse

/-! ## The end of the head -/

/-- The four bytes are there. -/
theorem length_of_findHeaderEnd {buffer : List UInt8} {stop : Nat}
    (found : findHeaderEnd buffer = some stop) : stop + 4 ≤ buffer.length := by
  induction buffer generalizing stop with
  | nil => cases found
  | cons byte bytes ih =>
    rw [findHeaderEnd] at found
    split at found
    next here =>
      cases found
      exact ( isPrefixOf_iff_prefix.mp here).length_le
    next =>
      obtain ⟨later, more, rfl⟩ := Option.map_eq_some_iff.mp found
      have enough := ih more
      show later + 1 + 4 ≤ bytes.length + 1
      omega

/-- A CRLF CRLF that is there is still the first one when more has come. -/
theorem findHeaderEnd_append {buffer rest : List UInt8} {stop : Nat}
    (found : findHeaderEnd buffer = some stop) : findHeaderEnd (buffer ++ rest) = some stop := by
  induction buffer generalizing stop with
  | nil => cases found
  | cons byte bytes ih =>
    rw [findHeaderEnd] at found
    rw [cons_append, findHeaderEnd]
    split at found
    next here =>
      have there : [13, 10, 13, 10].isPrefixOf (byte :: (bytes ++ rest)) = true :=
        isPrefixOf_iff_prefix.mpr
          (( isPrefixOf_iff_prefix.mp here).trans (prefix_append _ rest))
      rw [if_pos there]
      exact found
    next notHere =>
      obtain ⟨later, more, rfl⟩ := Option.map_eq_some_iff.mp found
      have still : ¬ [13, 10, 13, 10].isPrefixOf (byte :: (bytes ++ rest)) = true := by
        intro there
        apply notHere
        apply isPrefixOf_iff_prefix.mpr
        refine prefix_of_prefix_length_le ( isPrefixOf_iff_prefix.mp there)
          (prefix_append (byte :: bytes) rest) ?_
        have enough := length_of_findHeaderEnd more
        show 4 ≤ bytes.length + 1
        omega
      rw [if_neg still, ih more]
      rfl

/-- A CRLF CRLF that comes with what is read later ends after all that was there. -/
theorem findHeaderEnd_beyond {buffer rest : List UInt8} {stop : Nat}
    (missing : findHeaderEnd buffer = none) (found : findHeaderEnd (buffer ++ rest) = some stop) :
    buffer.length < stop + 4 := by
  induction buffer generalizing stop with
  | nil => exact Nat.zero_lt_of_lt (Nat.lt_add_of_pos_right (by decide))
  | cons byte bytes ih =>
    rw [findHeaderEnd] at missing
    rw [cons_append, findHeaderEnd] at found
    split at missing
    next => cases missing
    next notHere =>
      split at found
      next here =>
        cases found
        by_contra long
        apply notHere
        apply isPrefixOf_iff_prefix.mpr
        refine prefix_of_prefix_length_le ( isPrefixOf_iff_prefix.mp here)
          (prefix_append (byte :: bytes) rest) ?_
        show 4 ≤ bytes.length + 1
        have length : (byte :: bytes).length = bytes.length + 1 := rfl
        omega
      next =>
        obtain ⟨later, more, rfl⟩ := Option.map_eq_some_iff.mp found
        have beyond := ih (Option.map_eq_none_iff.mp missing) more
        show bytes.length + 1 < later + 1 + 4
        omega

/-! ## What a buffer is answered -/

section Answers

variable {P : Type} {parse : List UInt8 → ParseStatus}
  {build : String → String → HttpVersion → List (String × String) → Except String P}
  {utf8Error : List UInt8 → String} {buffer rest : List UInt8}

theorem try_of_none (missing : findHeaderEnd buffer = none) :
    tryParseHttp1RequestBuffer parse build utf8Error buffer =
      if buffer.length > httpHeaderLimit then .error headerLimit else .ok none := by
  rw [tryParseHttp1RequestBuffer, missing]

theorem try_of_some {stop : Nat} (found : findHeaderEnd buffer = some stop) :
    tryParseHttp1RequestBuffer parse build utf8Error buffer =
      if stop + 4 > httpHeaderLimit then .error headerLimit
      else
        match parse buffer with
        | .error text => .error (malformed s!"failed to parse VM HTTP request: {text}")
        | .unfinished => .error (malformed "VM HTTP parser reported partial headers")
        | .complete request length =>
          requestHead build utf8Error request length >>= takeBody utf8Error buffer := by
  rw [tryParseHttp1RequestBuffer, found]
  show parseHead parse build utf8Error buffer >>= _ = _
  rw [parseHead, found]
  show (if stop + 4 > httpHeaderLimit then _ else _) >>= _ = _
  split
  next => rfl
  next => cases parse buffer <;> rfl

variable {head : RequestHead P}

/-- The head of a request is as long as `httparse` says. -/
theorem requestHead_ok {request : ParsedRequest} {length : Nat}
    (ok : requestHead build utf8Error request length = .ok head) : head.headLength = length := by
  unfold requestHead at ok
  obtain ⟨-, -, ok⟩ := except_bind_ok_iff.mp ok
  obtain ⟨method, -, ok⟩ := except_bind_ok_iff.mp ok
  obtain ⟨uri, -, ok⟩ := except_bind_ok_iff.mp ok
  obtain ⟨version, -, ok⟩ := except_bind_ok_iff.mp ok
  obtain ⟨⟨contentLength, headers⟩, -, ok⟩ := except_bind_ok_iff.mp ok
  obtain ⟨-, -, ok⟩ := except_bind_ok_iff.mp ok
  split at ok
  · cases ok
  cases ok
  rfl

theorem takeBody_waits (short : buffer.length < head.headLength + head.contentLength) :
    takeBody utf8Error buffer head = .ok none := if_pos short

/-- A body that is there is taken whatever follows it. -/
theorem takeBody_append (whole : head.headLength + head.contentLength ≤ buffer.length) :
    takeBody utf8Error (buffer ++ rest) head = takeBody utf8Error buffer head := by
  have longer : head.headLength + head.contentLength ≤ (buffer ++ rest).length := by
    rw [length_append]
    omega
  unfold takeBody
  rw [if_neg (Nat.not_lt.mpr longer), if_neg (Nat.not_lt.mpr whole),
    take_append_of_le_length whole]

theorem takeBody_some {request : P × String} {consumed : Nat}
    (taken : takeBody utf8Error buffer head = .ok (some (request, consumed))) :
    consumed = head.headLength + head.contentLength ∧ consumed ≤ buffer.length := by
  unfold takeBody at taken
  dsimp only at taken
  split at taken
  next => cases taken
  next whole =>
    obtain ⟨request, -, eq⟩ := except_bind_ok_iff.mp taken
    cases eq
    exact ⟨rfl, Nat.not_lt.mp whole⟩

theorem takeBody_ne_none (whole : head.headLength + head.contentLength ≤ buffer.length) :
    takeBody utf8Error buffer head ≠ .ok none := by
  intro waits
  unfold takeBody at waits
  rw [if_neg (Nat.not_lt.mpr whole)] at waits
  obtain ⟨request, -, eq⟩ := except_bind_ok_iff.mp waits
  cases eq

/-- A request takes something, and nothing that is not there. -/
theorem try_consumes (contract : Httparse parse) {request : P × String} {consumed : Nat}
    (found : tryParseHttp1RequestBuffer parse build utf8Error buffer =
      .ok (some (request, consumed))) : 0 < consumed ∧ consumed ≤ buffer.length := by
  cases stop : findHeaderEnd buffer with
  | none =>
    rw [try_of_none stop] at found
    split at found <;> cases found
  | some stop =>
    rw [try_of_some ‹_›] at found
    split at found
    · cases found
    split at found
    next => cases found
    next => cases found
    next parsed length complete =>
      obtain ⟨head, ok, taken⟩ := except_bind_ok_iff.mp found
      obtain ⟨rfl, within⟩ := takeBody_some taken
      have positive := (contract.within _ _ _ complete).1
      rw [requestHead_ok ok] at within ⊢
      exact ⟨Nat.lt_add_right _ positive, within⟩

/-- An answer that is not a request for more is the answer for the longer buffer too. -/
theorem try_append (contract : Httparse parse) (agrees : Agrees parse build utf8Error buffer rest) :
    tryParseHttp1RequestBuffer parse build utf8Error buffer = .ok none ∨
      tryParseHttp1RequestBuffer parse build utf8Error (buffer ++ rest) =
        tryParseHttp1RequestBuffer parse build utf8Error buffer := by
  cases here : findHeaderEnd buffer with
  | none =>
    rw [try_of_none here]
    by_cases long : buffer.length > httpHeaderLimit
    · right
      rw [if_pos long]
      cases later : findHeaderEnd (buffer ++ rest) with
      | none =>
        rw [try_of_none later, if_pos]
        rw [length_append]
        omega
      | some stop =>
        have beyond := findHeaderEnd_beyond here later
        rw [try_of_some later, if_pos (by omega)]
    · left
      rw [if_neg long]
  | some stop =>
    rw [try_of_some here, try_of_some (findHeaderEnd_append here)]
    by_cases long : stop + 4 > httpHeaderLimit
    · right
      rw [if_pos long, if_pos long]
    rw [if_neg long, if_neg long]
    cases answer : parse buffer with
    | error text =>
      right
      rw [contract.error _ _ answer]
    | unfinished =>
      right
      rw [agrees.ends stop here (Nat.not_lt.mp long) answer]
    | complete request length =>
      rw [contract.complete _ _ _ answer]
      show requestHead build utf8Error request length >>= _ = _ ∨
        requestHead build utf8Error request length >>= _ =
          requestHead build utf8Error request length >>= _
      cases requestHead build utf8Error request length with
      | error failure =>
        right
        rfl
      | ok head =>
        rcases Nat.lt_or_ge buffer.length (head.headLength + head.contentLength) with
          short | whole
        · exact .inl (takeBody_waits short)
        · exact .inr (takeBody_append whole)

/-- A whole request is answered, with itself or with a failure. -/
theorem try_holdsRequest (agrees : Agrees parse build utf8Error buffer rest)
    (holds : holdsRequest parse build utf8Error buffer = true) :
    tryParseHttp1RequestBuffer parse build utf8Error buffer ≠ .ok none := by
  have found := agrees.found holds
  unfold holdsRequest at holds
  cases here : findHeaderEnd buffer with
  | none =>
    rw [try_of_none here, if_pos (found.resolve_left (absurd here))]
    exact fun same => by cases same
  | some stop =>
    rw [try_of_some here]
    split
    · exact fun same => by cases same
    split at holds
    next request length answer =>
      rw [answer]
      split at holds
      next head ok =>
        show requestHead build utf8Error request length >>= _ ≠ _
        rw [ok]
        exact takeBody_ne_none (of_decide_eq_true holds)
      next => cases holds
    next => cases holds

/-! ## Streams -/

theorem progress_productive (contract : Httparse parse) :
    Incremental.Productive (progress parse build utf8Error) where
  consumes buffer item consumed done := by
    unfold progress at done
    split at done
    next request length found =>
      cases done
      exact try_consumes contract found
    next => cases done
    next => cases done
  waits := rfl

theorem staysDecided_of_agrees (contract : Httparse parse)
    (agrees : Agrees parse build utf8Error buffer rest) :
    Incremental.StaysDecided (progress parse build utf8Error) buffer rest := by
  rcases try_append contract agrees with waits | same
  · left
    rw [progress, waits]
  · right
    rw [progress, progress, same]

/-- Of every stream and every way of cutting it into reads: where the scanner and `httparse`
agree on the buffers that are looked at, the requests and the ending are those of the whole
stream; no buffer gives more than it has, and none that holds a whole request is kept waiting. -/
theorem http1_reads (contract : Httparse parse) (reads : List (List UInt8))
    (agrees : ∀ look ∈ Incremental.looks (progress parse build utf8Error) (.pending []) reads,
      Agrees parse build utf8Error look.1 look.2) :
    Incremental.feedAll (progress parse build utf8Error) reads =
        Incremental.drain (progress parse build utf8Error) reads.flatten ∧
      ∀ look ∈ Incremental.looks (progress parse build utf8Error) (.pending []) reads,
        (∀ request consumed, tryParseHttp1RequestBuffer parse build utf8Error look.1 =
            .ok (some (request, consumed)) → consumed ≤ look.1.length) ∧
        (holdsRequest parse build utf8Error look.1 = true →
          tryParseHttp1RequestBuffer parse build utf8Error look.1 ≠ .ok none) := by
  constructor
  · apply Incremental.feedAll_eq_drain (progress_productive contract)
    exact fun look mem => staysDecided_of_agrees contract (agrees look mem)
  · intro look mem
    exact ⟨fun request consumed found => (try_consumes contract found).2,
      try_holdsRequest (agrees look mem)⟩

end Answers

/-! ## Where the scanner and the parser disagree -/

/-- The bytes of `GET / HTTP/1.1`, CRLF, CRLF. -/
def sampleRequest : List UInt8 :=
  [71, 69, 84, 32, 47, 32, 72, 84, 84, 80, 47, 49, 46, 49, 13, 10, 13, 10]

/-- The request as it is, and with two empty lines in front. -/
def sampleHeads : List (List UInt8) := [sampleRequest, [13, 10, 13, 10] ++ sampleRequest]

/-- What `httparse` makes of the sample heads, and of what they begin with. -/
def sampleParse (bytes : List UInt8) : ParseStatus :=
  match sampleHeads.find? (·.isPrefixOf bytes) with
  | some head => .complete ⟨some "GET", some "/", some 1, []⟩ head.length
  | none => if sampleHeads.any (bytes.isPrefixOf ·) then .unfinished else .error "invalid token"

theorem sampleHeads_unique {head other bytes : List UInt8} (mem : head ∈ sampleHeads)
    (mem' : other ∈ sampleHeads) (begins : head <+: bytes) (begins' : other <+: bytes) :
    head = other := by
  have apart : ∀ head ∈ sampleHeads, ∀ other ∈ sampleHeads, head.isPrefixOf other = true →
      head = other := by decide
  rcases Nat.le_total head.length other.length with shorter | longer
  · apply apart head mem other mem'
    exact isPrefixOf_iff_prefix.mpr (prefix_of_prefix_length_le begins begins' shorter)
  · symm
    apply apart other mem' head mem
    exact isPrefixOf_iff_prefix.mpr (prefix_of_prefix_length_le begins' begins longer)

theorem sampleParse_head {head bytes : List UInt8} (mem : head ∈ sampleHeads)
    (begins : head <+: bytes) :
    sampleParse bytes = .complete ⟨some "GET", some "/", some 1, []⟩ head.length := by
  cases found : sampleHeads.find? (·.isPrefixOf bytes) with
  | none =>
    exact absurd ( isPrefixOf_iff_prefix.mpr begins) (find?_eq_none.mp found head mem)
  | some other =>
    have begins' : other <+: bytes := by
      have found := find?_some found
      exact isPrefixOf_iff_prefix.mp found
    have same := sampleHeads_unique mem (mem_of_find?_eq_some found) begins begins'
    rw [sampleParse, found, same]

theorem sampleParse_complete {bytes : List UInt8} {request : ParsedRequest} {length : Nat}
    (complete : sampleParse bytes = .complete request length) :
    ∃ head ∈ sampleHeads, head <+: bytes ∧ length = head.length := by
  unfold sampleParse at complete
  split at complete
  next head found =>
    cases complete
    have begins := find?_some found
    exact ⟨head, mem_of_find?_eq_some found, isPrefixOf_iff_prefix.mp begins, rfl⟩
  next => split at complete <;> cases complete

theorem sampleParse_open {bytes : List UInt8} (missing : ∀ head ∈ sampleHeads, ¬ head <+: bytes) :
    sampleParse bytes =
      if ∃ head ∈ sampleHeads, bytes <+: head then .unfinished else .error "invalid token" := by
  have found : sampleHeads.find? (·.isPrefixOf bytes) = none :=
    find?_eq_none.mpr fun head mem begins =>
      missing head mem ( isPrefixOf_iff_prefix.mp begins)
  rw [sampleParse, found]
  dsimp only
  congr 1
  rw [any_eq_true]
  simp only [ isPrefixOf_iff_prefix]

/-- Which of its answers a buffer gets. -/
theorem sampleParse_cases (bytes : List UInt8) :
    (∃ head ∈ sampleHeads, head <+: bytes) ∨ ∀ head ∈ sampleHeads, ¬ head <+: bytes := by
  by_cases begins : ∃ head ∈ sampleHeads, head <+: bytes
  · exact .inl begins
  · exact .inr fun head mem prefixed => begins ⟨head, mem, prefixed⟩

theorem sampleParse_httparse : Httparse sampleParse where
  within buffer request length complete := by
    obtain ⟨head, mem, begins, rfl⟩ := sampleParse_complete complete
    have positive : ∀ head ∈ sampleHeads, 0 < head.length := by decide
    exact ⟨positive head mem, begins.length_le⟩
  complete buffer request length complete rest := by
    obtain ⟨head, mem, begins, rfl⟩ := sampleParse_complete complete
    rw [← complete, sampleParse_head mem begins,
      sampleParse_head mem (begins.trans (prefix_append buffer rest))]
  error buffer text error rest := by
    rcases sampleParse_cases buffer with ⟨head, mem, begins⟩ | missing
    · rw [sampleParse_head mem begins] at error
      cases error
    rw [sampleParse_open missing] at error
    split at error
    next => cases error
    next apart =>
      have later : ∀ head ∈ sampleHeads, ¬ head <+: buffer ++ rest := by
        intro head mem begins
        rcases prefix_or_prefix_of_prefix begins (prefix_append buffer rest) with
          inside | longer
        · exact missing head mem inside
        · exact apart ⟨head, mem, longer⟩
      rw [sampleParse_open later, if_neg]
      · exact error
      · rintro ⟨head, mem, begins⟩
        exact apart ⟨head, mem, (prefix_append buffer rest).trans begins⟩
  unfinished buffer := by
    rcases sampleParse_cases buffer with ⟨head, mem, begins⟩ | missing
    · rw [sampleParse_head mem begins]
      refine iff_of_false (fun same => by cases same) ?_
      rintro ⟨rest, request, more, complete⟩
      rw [sampleParse_head mem (begins.trans (prefix_append buffer rest))] at complete
      have within := begins.length_le
      have same := (ParseStatus.complete.inj complete).2
      rw [length_append] at same
      exact more (eq_nil_of_length_eq_zero (by omega))
    · rw [sampleParse_open missing]
      constructor
      · intro answer
        split at answer
        next goesOn =>
          obtain ⟨head, mem, rest, rfl⟩ := goesOn
          refine ⟨rest, ⟨some "GET", some "/", some 1, []⟩, ?_,
            sampleParse_head mem prefix_rfl⟩
          rintro rfl
          rw [append_nil] at mem
          exact missing buffer mem prefix_rfl
        next => cases answer
      · rintro ⟨rest, request, more, complete⟩
        obtain ⟨head, mem, begins, length⟩ := sampleParse_complete complete
        rw [if_pos]
        have same := begins.eq_of_length length.symm
        exact ⟨head, mem, same ▸ prefix_append buffer rest⟩

/-- A request as its method and target. -/
def sampleBuild (method uri : String) (_version : HttpVersion)
    (_headers : List (String × String)) : Except String (String × String) := .ok (method, uri)

/-- Two empty lines, and then a request. In one read the request is found. In two reads the
scanner takes the empty lines for the end of a head, which `httparse` has not begun to read. -/
theorem empty_lines_cut : Httparse sampleParse ∧
      Incremental.feedAll (progress sampleParse sampleBuild fun _ => "")
          [[13, 10, 13, 10], sampleRequest] =
        ([], .failed (malformed "VM HTTP parser reported partial headers")) ∧
      Incremental.drain (progress sampleParse sampleBuild fun _ => "")
          [[13, 10, 13, 10], sampleRequest].flatten = ([(("GET", "/"), "")], .pending []) :=
  ⟨sampleParse_httparse, by decide +kernel, by decide +kernel⟩

/-- A request may be cut in the middle of the end of its head. -/
theorem http1_reads_head_cut : Incremental.feedAll (progress sampleParse sampleBuild fun _ => "")
        [sampleRequest.take 16, sampleRequest.drop 16 ++ sampleRequest] =
      Incremental.drain (progress sampleParse sampleBuild fun _ => "")
        [sampleRequest.take 16, sampleRequest.drop 16 ++ sampleRequest].flatten :=
  (http1_reads sampleParse_httparse [sampleRequest.take 16, sampleRequest.drop 16 ++ sampleRequest]
    (by decide +kernel)).1

end Terlan.Http1
