/-
  Route patterns of the HTTP router: which patterns are valid, the shape that two patterns are
  compared by when they are registered, and the match of a pattern with a request path. A match
  has a score, and the score depends on the pattern alone.

  Percent decoding is a third-party function: `decode` gives the text of a segment, or nothing
  when the decoded bytes are not UTF-8.
-/
import Mathlib.Data.List.DropRight
import Mathlib.Data.Prod.Lex
import Terlan.Lib.Checked
import Terlan.Lib.Fields

namespace Terlan.Http

open Terlan.Lib

structure WebRouteError where
  message : String
deriving DecidableEq

def quote (text : List Char) : String := "`" ++ String.ofList text ++ "`"

/-! ## Texts -/

def isIdentifierChar (c : Char) : Bool := c.isAlphanum || c = '_'

/-- `text.trim_start_matches(c)`. -/
def trimStart (c : Char) (text : List Char) : List Char := text.dropWhile (· == c)

/-- `text.trim_end_matches(c)`. -/
def trimEnd (c : Char) (text : List Char) : List Char := text.rdropWhile (· == c)

/-- `text.trim_matches(c)`. -/
def trimMatches (c : Char) (text : List Char) : List Char := trimEnd c (trimStart c text)

/-- `text.strip_suffix(suffix)`. -/
def stripSuffix (suffix text : List Char) : Option (List Char) :=
  if suffix <:+ text then some (text.take (text.length - suffix.length)) else none

/-- `text.split_once(c)`. -/
def splitOnce (c : Char) (text : List Char) : Option (List Char × List Char) :=
  if c ∈ text then some (text.takeWhile (· != c), (text.dropWhile (· != c)).tail) else none

/-! ## Patterns -/

def isIdentifier : List Char → Bool
  | [] => false
  | first :: rest => (first.isAlpha || first = '_') && rest.all isIdentifierChar

def isRouteParamName : List Char → Bool
  | [] => false
  | first :: rest => first.isLower && rest.all isIdentifierChar

def isSupportedRouteParamType (typeName : List Char) : Bool :=
  typeName = "String".toList || typeName = "Int".toList || typeName = "Bool".toList

/-- `:name` or `:name.suffix`. -/
def colonRouteParamSegment : List Char → Option (List Char × List Char)
  | ':' :: value =>
    let name := value.takeWhile isIdentifierChar
    let suffix := value.dropWhile isIdentifierChar
    if !isRouteParamName name || suffix.any (fun c => c ∈ [':', '*', '\x7b', '\x7d', '/']) ||
        (suffix ≠ [] && suffix.head? ≠ some '.') ||
        suffix.any (fun c => !(c.isAlphanum || c ∈ ['.', '_', '-'])) then none
    else some (name, suffix)
  | _ => none

/-- A name and a type in braces with a colon between them. -/
def typedRouteParamSegment : List Char → Option (List Char × List Char)
  | '\x7b' :: rest => do
    let inner ← stripSuffix ['\x7d'] rest
    if '\x7b' ∈ inner ∨ '\x7d' ∈ inner then none
    else
      let (name, typeName) ← splitOnce ':' inner
      if name = [] ∨ typeName = [] ∨ ':' ∈ typeName then none else some (name, typeName)
  | _ => none

def routeSegments (path : List Char) : List (List Char) :=
  ((trimMatches '/' path).splitOn '/').filter (· ≠ [])

def validateSegment (route segment : List Char) (final : Bool) : Except WebRouteError Unit :=
  if segment = [] then
    .error ⟨"error[serve_package]: handler route " ++ quote route ++ " contains an empty segment"⟩
  else if segment = ['*'] then
    failIf (!final) ⟨"error[serve_package]: wildcard in handler route " ++ quote route ++
      " must be the final segment"⟩
  else if segment.head? = some ':' then
    match colonRouteParamSegment segment with
    | none => .error ⟨"error[serve_package]: invalid route parameter " ++ quote segment ++ " in " ++
        quote route⟩
    | some (name, _) =>
      failIf (!isRouteParamName name) ⟨"error[serve_package]: invalid route parameter " ++
        quote segment ++ " in " ++ quote route⟩
  else
    match typedRouteParamSegment segment with
    | some (name, typeName) =>
      if !isRouteParamName name || !isIdentifier typeName then
        .error ⟨"error[serve_package]: invalid typed route parameter " ++ quote segment ++
          " in " ++ quote route⟩
      else
        failIf (!isSupportedRouteParamType typeName)
          ⟨"error[serve_package]: unsupported route parameter type " ++ quote typeName ++ " in " ++
            quote route⟩
    | none =>
      if segment.head? = some '\x7b' || segment.getLast? = some '\x7d' then
        .error ⟨"error[serve_package]: invalid typed route parameter " ++ quote segment ++
          " in " ++ quote route⟩
      else
        failIf ('*' ∈ segment ∨ ':' ∈ segment)
          ⟨"error[serve_package]: invalid handler route segment " ++ quote segment ++ " in " ++
            quote route⟩

def validateSegments (route : List Char) : List (List Char) → Except WebRouteError Unit
  | [] => .ok ()
  | segment :: rest => do
    validateSegment route segment rest.isEmpty
    validateSegments route rest

/-- Path components are the parts between slashes; `..` is the parent directory. -/
def validateRoutePattern (route : List Char) : Except WebRouteError Unit := do
  if route = ['*'] then return
  if route = ['/'] then return
  failIf (['.', '.'] ∈ (trimStart '/' route).splitOn '/')
    ⟨"error[serve_package]: unsafe handler route " ++ quote route⟩
  validateSegments route ((trimMatches '/' route).splitOn '/')

/-- What is left of a segment when the names in it are erased. -/
def segmentShape (segment : List Char) : List Char :=
  match colonRouteParamSegment segment with
  | some (_, suffix) => if suffix = [] then [':'] else ':' :: suffix
  | none =>
    match typedRouteParamSegment segment with
    | some _ => [':']
    | none => segment

def routeAmbiguityKey (route : List Char) : Except WebRouteError (List Char) := do
  validateRoutePattern route
  if route = ['*'] ∨ route = ['/', '*'] then return ['*']
  if route = ['/'] then return ['/']
  return '/' :: ['/'].intercalate ((routeSegments route).map segmentShape)

/-! ## Matching -/

/-- Precedence: exact routes over parameters over wildcards over the fallback, then the number of
exact segments, then the number of segments. -/
structure RouteScore where
  routeClass : Nat
  staticSegments : Nat
  totalSegments : Nat
deriving DecidableEq

structure RoutePatternMatch where
  params : List (List Char × List Char)
  score : RouteScore

section Matching

variable (decode : List Char → Option (List Char))

def routeParamSegmentMatchesType (segment typeName : List Char) : Bool :=
  match decode segment with
  | none => false
  | some decoded =>
    if typeName = "String".toList then true
    else if typeName = "Int".toList then (parseI64 decoded).isOk
    else if typeName = "Bool".toList then
      decoded = "true".toList || decoded = "false".toList
    else false

/-- What the final `*` captures. -/
def decodeWildcardRouteParam (segments : List (List Char)) : Option (List Char) :=
  (segments.mapM decode).map fun decoded => ['/'].intercalate decoded

/-- The loop over the segments of a pattern: `index`, the captures, the exact segments so far,
and whether there was a parameter. -/
def matchSegments (total : Nat) (index : Nat) (params : List (List Char × List Char))
    (staticSegments : Nat) (hasParam : Bool) :
    List (List Char) → List (List Char) → Option RoutePatternMatch
  | [], _ =>
    some { params, score := ⟨if hasParam then 2 else 3, staticSegments, total⟩ }
  | pattern :: patterns, requests =>
    if pattern = ['*'] then do
      let wildcard ← decodeWildcardRouteParam decode requests
      return { params := params ++ [(['*'], wildcard)]
               score := ⟨if index = 0 then 0 else 1, staticSegments, total⟩ }
    else
      match requests with
      | [] => none
      | request :: requests =>
        match colonRouteParamSegment pattern with
        | some (name, suffix) => do
          let captured ← if suffix = [] then some request else stripSuffix suffix request
          if captured = [] then none
          else
            let value ← decode captured
            matchSegments total (index + 1) (params ++ [(name, value)]) staticSegments true
              patterns requests
        | none =>
          match typedRouteParamSegment pattern with
          | some (name, typeName) =>
            if !routeParamSegmentMatchesType decode request typeName then none
            else do
              let value ← decode request
              matchSegments total (index + 1) (params ++ [(name, value)]) staticSegments
                true patterns requests
          | none =>
            if pattern = request then
              matchSegments total (index + 1) params (staticSegments + 1) hasParam patterns
                requests
            else none

def matchRoutePattern (pattern requestPath : List Char) : Option RoutePatternMatch :=
  let patternSegments := routeSegments pattern
  let requestSegments := routeSegments requestPath
  if pattern = ['*'] then some ⟨[], ⟨0, 0, 0⟩⟩
  else if pattern = ['/'] then
    if requestSegments = [] then some ⟨[], ⟨3, 0, 0⟩⟩ else none
  else
    let hasWildcard : Bool := patternSegments.getLast? = some ['*']
    if !hasWildcard && patternSegments.length ≠ requestSegments.length then none
    else if hasWildcard && requestSegments.length < patternSegments.length - 1 then none
    else
      matchSegments decode patternSegments.length 0 [] 0 false patternSegments requestSegments

end Matching

end Terlan.Http
