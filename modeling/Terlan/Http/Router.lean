/-
  The HTTP router. Registration normalizes a path, checks its pattern and refuses a pattern whose
  shape a route of the same method has already; dispatch takes the match with the highest score,
  and the last registered of several.

  * `registerAll_ok_iff`: what a list of registrations needs to be accepted. The order of the
    list does not matter.
  * `dispatch_order`: dispatch selects the last of the best matches, and it selects the same
    route in every order of registration if and only if there is one best match.
-/
import Mathlib.Data.List.Infix
import Mathlib.Data.List.Pairwise
import Mathlib.Data.List.Perm.Basic
import Terlan.Http.RoutePattern
import Terlan.Lib.Order

namespace Terlan.Http

open Terlan.Lib List

/-! ## Routes -/

inductive RouteMethod where
  | get
  | post
  | put
  | patch
  | delete
  | head
  | options
deriving DecidableEq

def RouteMethod.asStr : RouteMethod → String
  | .get => "GET"
  | .post => "POST"
  | .put => "PUT"
  | .patch => "PATCH"
  | .delete => "DELETE"
  | .head => "HEAD"
  | .options => "OPTIONS"

section

-- callbacks, and the plans of the two kinds of endpoints
variable (C Sse Ws : Type)

inductive RouteTarget where
  | handler (callback : C)
  | sseEndpoint (plan : Sse)
  | webSocketEndpoint (plan : Ws)
deriving DecidableEq

structure Route where
  method : RouteMethod
  path : List Char
  target : RouteTarget C Sse Ws
  middleware : List C
  responseMiddleware : List C
deriving DecidableEq

structure Fallback where
  handler : C
  middleware : List C
  responseMiddleware : List C
deriving DecidableEq

structure RouteDispatch where
  method : RouteMethod
  path : List Char
  routePattern : List Char
  routeParams : List (List Char × List Char)
  target : RouteTarget C Sse Ws
  middleware : List C
  responseMiddleware : List C
deriving DecidableEq

/-- What dispatch without middleware comes to. -/
inductive RouterOutcome where
  | matched (dispatch : RouteDispatch C Sse Ws)
  | notFound
deriving DecidableEq

structure Router where
  routes : List (Route C Sse Ws)
  fallback : Option (Fallback C)
deriving DecidableEq

/-- The arguments of one registration: a route whose path is as the source wrote it. -/
abbrev Registration := Route C Sse Ws

end

inductive RouteAmbiguityReason where
  | exactPath
  | parameterizedShape

structure RouteAmbiguityDiagnostic where
  method : RouteMethod
  candidatePath : List Char
  existingPath : List Char
  normalizedShape : List Char
  reason : RouteAmbiguityReason

def RouteAmbiguityDiagnostic.renderText (diagnostic : RouteAmbiguityDiagnostic) : String :=
  "duplicate VM HTTP route " ++ diagnostic.method.asStr ++ " " ++
    String.ofList diagnostic.candidatePath

/-- Lexicographic, as the fields are listed. -/
instance : LinearOrder RouteScore :=
  LinearOrder.lift'
    (fun score => toLex (score.routeClass, toLex (score.staticSegments, score.totalSegments)))
    (fun a b h => by
      cases a
      cases b
      simp only [toLex_inj, Prod.mk.injEq] at h
      rw [h.1, h.2.1, h.2.2])

def normalizeRouterPath (path : List Char) : Except WebRouteError (List Char) :=
  if path = ['/'] then .ok ['/']
  else if path.head? ≠ some '/' then
    .error ⟨"VM HTTP route path " ++ quote path ++ " must start with " ++ quote ['/']⟩
  else if ['/', '/'] <:+: path ∨ ['.', '.'] <:+: path then
    .error ⟨"VM HTTP route path " ++ quote path ++ " is not safe"⟩
  else .ok (trimEnd '/' path)

/-- The global fallback route is not a path. -/
def admitPath (path : List Char) : Except WebRouteError (List Char) :=
  if path = ['*'] then .ok path else normalizeRouterPath path

namespace Router

variable {C Sse Ws : Type}

def routeAmbiguityDiagnostic (router : Router C Sse Ws) (method : RouteMethod)
    (path : List Char) : Except WebRouteError (Option RouteAmbiguityDiagnostic) := do
  let candidatePath ← admitPath path
  let normalizedShape ← routeAmbiguityKey candidatePath
  let existing := (router.routes.filter fun route => route.method = method).find? fun route =>
    routeAmbiguityKey route.path = .ok normalizedShape
  return existing.map fun route =>
    { method
      candidatePath
      existingPath := route.path
      normalizedShape
      reason := if route.path = candidatePath then .exactPath else .parameterizedShape }

def scopedTarget (router : Router C Sse Ws) (registration : Registration C Sse Ws) :
    Except WebRouteError (Router C Sse Ws) := do
  let path ← admitPath registration.path
  validateRoutePattern path
  match ← router.routeAmbiguityDiagnostic registration.method path with
  | some diagnostic => throw ⟨diagnostic.renderText⟩
  | none => return { router with routes := router.routes ++ [{ registration with path }] }

/-- One registration after the other; the first refusal ends it. -/
def registerAll (router : Router C Sse Ws) (registrations : List (Registration C Sse Ws)) :
    Except WebRouteError (Router C Sse Ws) :=
  registrations.foldlM scopedTarget router

section Dispatch

variable (decode : List Char → Option (List Char))

/-- The routes of the method that match, in the order of their registration. -/
def candidates (router : Router C Sse Ws) (method : RouteMethod) (path : List Char) :
    List (Route C Sse Ws × RoutePatternMatch) :=
  (router.routes.filter fun route => route.method = method).filterMap fun route =>
    (matchRoutePattern decode route.path path).map fun matched => (route, matched)

def dispatch (router : Router C Sse Ws) (method : RouteMethod) (path : List Char) :
    Except WebRouteError (RouterOutcome C Sse Ws) := do
  let path ← normalizeRouterPath path
  match maxByKey (fun candidate => candidate.2.score) (router.candidates decode method path) with
  | some (route, matched) =>
    return .matched
      { method
        path
        routePattern := route.path
        routeParams := matched.params
        target := route.target
        middleware := route.middleware
        responseMiddleware := route.responseMiddleware }
  | none =>
    match router.fallback with
    | some fallback =>
      return .matched
        { method
          path
          routePattern := ['*']
          routeParams := []
          target := .handler fallback.handler
          middleware := fallback.middleware
          responseMiddleware := fallback.responseMiddleware }
    | none => return .notFound

end Dispatch

end Router

/-! ## Normalized paths -/

theorem trimEnd_isPrefixOf (c : Char) (text : List Char) : trimEnd c text <+: text :=
  rdropWhile_prefix _ _

theorem trimEnd_idempotent (c : Char) (text : List Char) :
    trimEnd c (trimEnd c text) = trimEnd c text :=
  rdropWhile_idempotent _ _

/-- What is left of a safe path keeps its first slash and loses a last one. -/
theorem trimEnd_of_safe {path : List Char} (notRoot : path ≠ ['/'])
    (rooted : path.head? = some '/') (safe : ¬ ['/', '/'] <:+: path) :
    (trimEnd '/' path).head? = some '/' ∧ trimEnd '/' path ≠ ['/'] := by
  cases path with
  | nil => cases rooted
  | cons first tail =>
    simp only [head?_cons, Option.some.injEq] at rooted
    subst rooted
    cases tail with
    | nil => exact absurd rfl notRoot
    | cons second rest =>
      have different : second ≠ '/' := by
        rintro rfl
        exact safe ⟨[], rest, rfl⟩
      have nonempty : trimEnd '/' ('/' :: second :: rest) ≠ [] := by
        intro empty
        have all := rdropWhile_eq_nil_iff.mp empty second (by simp)
        exact different (by simpa using all)
      constructor
      · obtain ⟨dropped, kept⟩ := trimEnd_isPrefixOf '/' ('/' :: second :: rest)
        cases trimmed : trimEnd '/' ('/' :: second :: rest) with
        | nil => exact absurd trimmed nonempty
        | cons c cs =>
          rw [trimmed, cons_append] at kept
          rw [head?_cons, (List.cons.inj kept).1]
      · intro root
        have last := rdropWhile_last_not (· == '/') ('/' :: second :: rest) nonempty
        have ends : (trimEnd '/' ('/' :: second :: rest)).getLast nonempty = '/' := by
          simp only [root, getLast_singleton]
        exact last (by simpa [trimEnd] using ends)

/-- A path is normalized once and for all. -/
theorem normalizeRouterPath_idempotent {path path' : List Char}
    (h : normalizeRouterPath path = .ok path') : normalizeRouterPath path' = .ok path' := by
  unfold normalizeRouterPath at h
  split at h
  next => cases h; rfl
  next notRoot =>
    split at h
    next => cases h
    next rooted =>
      split at h
      next => cases h
      next safe =>
        cases h
        have whole := (trimEnd_isPrefixOf '/' path).isInfix
        obtain ⟨head, notSlash⟩ := trimEnd_of_safe notRoot (not_not.mp rooted)
          fun slashes => safe (.inl slashes)
        have safe' : ¬ (['/', '/'] <:+: trimEnd '/' path ∨ ['.', '.'] <:+: trimEnd '/' path) :=
          fun either => safe (either.imp (·.trans whole) (·.trans whole))
        unfold normalizeRouterPath
        rw [if_neg notSlash, if_neg (not_not.mpr head), if_neg safe', trimEnd_idempotent]

theorem admitPath_idempotent {path path' : List Char} (h : admitPath path = .ok path') :
    admitPath path' = .ok path' := by
  unfold admitPath at h ⊢
  split at h
  next star => cases h; rw [if_pos star]
  next =>
    have again := normalizeRouterPath_idempotent h
    split
    next => rfl
    next => exact again

/-! ## What registration accepts -/

namespace Router

variable {C Sse Ws : Type}

/-- The route that a registration becomes, if its path is admitted. -/
def admittedRoute (registration : Registration C Sse Ws) :
    Except WebRouteError (Route C Sse Ws) := do
  let path ← admitPath registration.path
  validateRoutePattern path
  return { registration with path }

/-- Routes of different methods or of different shapes. -/
def Apart (a b : Route C Sse Ws) : Prop :=
  a.method = b.method → routeAmbiguityKey a.path ≠ routeAmbiguityKey b.path

theorem apart_symm {a b : Route C Sse Ws} (h : Apart a b) : Apart b a :=
  fun method key => h method.symm key.symm

instance : Std.Symm (@Apart C Sse Ws) := ⟨fun _ _ => apart_symm⟩

variable {path : List Char}

theorem exists_key (valid : validateRoutePattern path = .ok ()) :
    ∃ key, routeAmbiguityKey path = .ok key := by
  unfold routeAmbiguityKey
  rw [valid]
  change ∃ key, (if path = ['*'] ∨ path = ['/', '*'] then (.ok ['*'] : Except WebRouteError _)
    else if path = ['/'] then .ok ['/'] else .ok _) = .ok key
  split
  · exact ⟨_, rfl⟩
  split
  next => exact ⟨_, rfl⟩
  next => exact ⟨_, rfl⟩

/-- The diagnostic of an admitted path names a route of the same shape, if there is one. -/
theorem routeAmbiguityDiagnostic_ok (router : Router C Sse Ws) (method : RouteMethod)
    (admitted : admitPath path = .ok path) (valid : validateRoutePattern path = .ok ()) :
    ∃ found, router.routeAmbiguityDiagnostic method path = .ok found ∧
      (found = none ↔ ∀ old ∈ router.routes, old.method = method →
        routeAmbiguityKey old.path ≠ routeAmbiguityKey path) := by
  obtain ⟨key, shape⟩ := exists_key valid
  have run : router.routeAmbiguityDiagnostic method path =
      .ok (((router.routes.filter fun route => route.method = method).find? fun route =>
        routeAmbiguityKey route.path = .ok key).map fun route =>
          { method
            candidatePath := path
            existingPath := route.path
            normalizedShape := key
            reason := if route.path = path then .exactPath else .parameterizedShape }) := by
    rw [routeAmbiguityDiagnostic, admitted]
    change (routeAmbiguityKey path >>= fun normalizedShape => _) = _
    rw [shape]
    rfl
  refine ⟨_, run, ?_⟩
  rw [Option.map_eq_none_iff, find?_eq_none]
  simp only [mem_filter, decide_eq_true_eq, shape]
  exact ⟨fun none_ old mem same => none_ old ⟨mem, same⟩, fun all old both => all old both.1 both.2⟩

theorem scopedTarget_ok_iff {router router' : Router C Sse Ws}
    {registration : Registration C Sse Ws} : router.scopedTarget registration = .ok router' ↔
      ∃ route, admittedRoute registration = .ok route ∧ (∀ old ∈ router.routes, Apart old route) ∧
        router' = { router with routes := router.routes ++ [route] } := by
  constructor
  · intro h
    obtain ⟨path, admitted, rest⟩ := except_bind_ok_iff.mp h
    obtain ⟨⟨⟩, valid, rest⟩ := except_bind_ok_iff.mp rest
    obtain ⟨found, diagnosed, none_⟩ :=
      routeAmbiguityDiagnostic_ok router registration.method (admitPath_idempotent admitted) valid
    rw [diagnosed] at rest
    cases found with
    | some diagnostic => cases rest
    | none =>
      cases rest
      exact ⟨{ registration with path },
        except_bind_ok_iff.mpr ⟨path, admitted, except_bind_ok_iff.mpr ⟨(), valid, rfl⟩⟩,
        none_.mp rfl, rfl⟩
  · rintro ⟨route, h, apart, rfl⟩
    obtain ⟨path, admitted, rest⟩ := except_bind_ok_iff.mp h
    obtain ⟨⟨⟩, valid, eq⟩ := except_bind_ok_iff.mp rest
    cases eq
    obtain ⟨found, diagnosed, none_⟩ :=
      routeAmbiguityDiagnostic_ok router registration.method (admitPath_idempotent admitted) valid
    obtain rfl := none_.mpr apart
    refine except_bind_ok_iff.mpr ⟨path, admitted, except_bind_ok_iff.mpr ⟨(), valid, ?_⟩⟩
    rw [diagnosed]
    rfl

variable {registrations : List (Registration C Sse Ws)}

/-- A list of registrations is accepted when each path is admitted and no two routes have one
method and one shape. -/
theorem registerAll_ok_iff {router router' : Router C Sse Ws}
    (apart : router.routes.Pairwise Apart) : router.registerAll registrations = .ok router' ↔
      ∃ routes, List.Forall₂ (fun registration route => admittedRoute registration = .ok route)
          registrations routes ∧ (router.routes ++ routes).Pairwise Apart ∧
        router' = { router with routes := router.routes ++ routes } := by
  induction registrations generalizing router with
  | nil =>
    constructor
    · intro h
      cases h
      exact ⟨[], .nil, by simpa using apart, by simp⟩
    · rintro ⟨routes, none_, -, rfl⟩
      cases none_
      simp [registerAll]
      rfl
  | cons registration registrations ih =>
    rw [registerAll, foldlM_cons, except_bind_ok_iff]
    constructor
    · rintro ⟨next, first, rest⟩
      obtain ⟨route, admitted, away, rfl⟩ := scopedTarget_ok_iff.mp first
      have apart' : (router.routes ++ [route]).Pairwise Apart :=
        pairwise_append.mpr ⟨apart, pairwise_singleton _ _, by simpa using away⟩
      obtain ⟨routes, others, pairwise, rfl⟩ := (ih apart').mp rest
      exact ⟨route :: routes, .cons admitted others, by simpa using pairwise, by simp⟩
    · rintro ⟨routes, all, pairwise, rfl⟩
      cases all with
      | @cons _ route _ routes admitted others =>
        have split : router.routes ++ route :: routes = (router.routes ++ [route]) ++ routes := by
          simp
        rw [split] at pairwise
        have apart' := (pairwise_append.mp pairwise).1
        have away : ∀ old ∈ router.routes, Apart old route := fun old mem =>
          (pairwise_append.mp apart').2.2 old mem route (by simp)
        refine ⟨_, scopedTarget_ok_iff.mpr ⟨route, admitted, away, rfl⟩, ?_⟩
        exact (ih apart').mpr ⟨routes, others, pairwise, by rw [split]⟩

variable {router : Router C Sse Ws} {fallback : Option (Fallback C)}

/-- Registrations in another order become the same routes in another order. -/
theorem registerAll_perm {registrations registrations' : List (Registration C Sse Ws)}
    (accepted : registerAll ⟨[], fallback⟩ registrations = .ok router)
    (same : registrations'.Perm registrations) : ∃ routes, routes.Perm router.routes ∧
      registerAll ⟨[], fallback⟩ registrations' = .ok ⟨routes, fallback⟩ := by
  obtain ⟨routes, admitted, pairwise, rfl⟩ := (registerAll_ok_iff List.Pairwise.nil).mp accepted
  obtain ⟨routes', admitted', order⟩ := List.perm_comp_forall₂ same admitted
  refine ⟨routes', order, (registerAll_ok_iff List.Pairwise.nil).mpr ⟨routes', admitted', ?_, rfl⟩⟩
  exact (order.pairwise_iff apart_symm).mpr pairwise

/-- And every order of the routes comes from an order of the registrations. -/
theorem registerAll_reorder {routes : List (Route C Sse Ws)}
    (accepted : registerAll ⟨[], fallback⟩ registrations = .ok router)
    (same : routes.Perm router.routes) : ∃ registrations', registrations'.Perm registrations ∧
      registerAll ⟨[], fallback⟩ registrations' = .ok ⟨routes, fallback⟩ := by
  obtain ⟨routes', admitted, pairwise, rfl⟩ := (registerAll_ok_iff List.Pairwise.nil).mp accepted
  have both : Relation.Comp (List.Forall₂ fun registration route =>
      admittedRoute registration = .ok route) List.Perm registrations routes :=
    ⟨routes', admitted, same.symm⟩
  rw [List.forall₂_comp_perm_eq_perm_comp_forall₂] at both
  obtain ⟨registrations', order, admitted'⟩ := both
  refine ⟨registrations', order.symm,
    (registerAll_ok_iff List.Pairwise.nil).mpr ⟨routes, admitted', ?_, rfl⟩⟩
  exact (same.pairwise_iff apart_symm).mpr pairwise

theorem pairwise_of_registerAll (accepted : registerAll ⟨[], fallback⟩ registrations = .ok router) :
    router.routes.Pairwise Apart ∧ router.fallback = fallback := by
  obtain ⟨routes, -, pairwise, rfl⟩ := (registerAll_ok_iff List.Pairwise.nil).mp accepted
  exact ⟨pairwise, rfl⟩

/-! ## What dispatch selects -/

section Selection

variable (decode : List Char → Option (List Char))

/-- The route matches the path with the highest score of all routes of the method. -/
def Best (router : Router C Sse Ws) (method : RouteMethod) (path : List Char)
    (route : Route C Sse Ws) : Prop :=
  ∃ matched, IsTop (fun candidate => candidate.2.score) (router.candidates decode method path)
    (route, matched)

variable {decode}

/-- The dispatch of a selected route. -/
def selectedDispatch (method : RouteMethod) (path : List Char) (route : Route C Sse Ws)
    (matched : RoutePatternMatch) : RouteDispatch C Sse Ws :=
  { method
    path
    routePattern := route.path
    routeParams := matched.params
    target := route.target
    middleware := route.middleware
    responseMiddleware := route.responseMiddleware }

/-- What dispatch answers when no route matches. -/
def unmatched (router : Router C Sse Ws) (method : RouteMethod) (path : List Char) :
    RouterOutcome C Sse Ws :=
  match router.fallback with
  | some fallback =>
    .matched
      { method
        path
        routePattern := ['*']
        routeParams := []
        target := .handler fallback.handler
        middleware := fallback.middleware
        responseMiddleware := fallback.responseMiddleware }
  | none => .notFound

variable {method : RouteMethod} {router : Router C Sse Ws} {path path' : List Char}

theorem dispatch_eq (normalized : normalizeRouterPath path = .ok path') :
    router.dispatch decode method path =
      match maxByKey (fun candidate => candidate.2.score)
          (router.candidates decode method path') with
      | some (route, matched) => .ok (.matched (selectedDispatch method path' route matched))
      | none => .ok (router.unmatched method path') := by
  rw [dispatch, normalized]
  change (match maxByKey (fun candidate => candidate.2.score)
    (router.candidates decode method path') with
    | some (route, matched) => _
    | none => _) = _
  cases maxByKey (fun candidate => candidate.2.score) (router.candidates decode method path') with
  | some selected => rfl
  | none =>
    rw [unmatched]
    cases router.fallback <;> rfl

variable {route : Route C Sse Ws}

theorem mem_candidates {path : List Char} {matched : RoutePatternMatch} :
    (route, matched) ∈ router.candidates decode method path ↔
      route ∈ router.routes ∧ route.method = method ∧
        matchRoutePattern decode route.path path = some matched := by
  simp only [candidates, mem_filterMap, mem_filter, decide_eq_true_eq,
    Option.map_eq_some_iff, Prod.mk.injEq]
  constructor
  · rintro ⟨_, ⟨mem, same⟩, _, found, rfl, rfl⟩
    exact ⟨mem, same, found⟩
  · rintro ⟨mem, same, found⟩
    exact ⟨route, ⟨mem, same⟩, matched, found, rfl, rfl⟩

theorem candidates_perm {router router' : Router C Sse Ws} (same : router'.routes.Perm router.routes)
    (method : RouteMethod) (path : List Char) :
    (router'.candidates decode method path).Perm (router.candidates decode method path) :=
  (same.filter _).filterMap _

theorem best_perm {router router' : Router C Sse Ws} (same : router'.routes.Perm router.routes)
    {path : List Char} :
    Best decode router' method path route ↔ Best decode router method path route :=
  exists_congr fun _ => isTop_perm (candidates_perm same method path)

/-- Dispatch selects the last registered of the best routes. -/
theorem dispatch_selects_last (normalized : normalizeRouterPath path = .ok path')
    {best : Route C Sse Ws} (exists_ : Best decode router method path' best) :
    ∃ front route back matched, router.routes = front ++ route :: back ∧
      Best decode router method path' route ∧
      (∀ later ∈ back, ¬ Best decode router method path' later) ∧
      router.dispatch decode method path =
        .ok (.matched (selectedDispatch method path' route matched)) := by
  obtain ⟨bestMatched, top⟩ := exists_
  rw [dispatch_eq normalized]
  cases max : maxByKey (fun candidate => candidate.2.score)
      (router.candidates decode method path') with
  | none =>
    rw [maxByKey_eq_none_iff.mp max] at top
    cases top.1
  | some selected =>
    obtain ⟨route, matched⟩ := selected
    have selectedTop := isTop_of_maxByKey max
    obtain ⟨front, back, split, below, above⟩ := maxByKey_split max
    rw [candidates, filterMap_filter] at split
    obtain ⟨frontRoutes, rest, routes, -, restSplit⟩ := filterMap_eq_append_iff.mp split
    obtain ⟨skipped, chosen, backRoutes, rfl, -, found, backSplit⟩ :=
      filterMap_eq_cons_iff.mp restSplit
    have same : chosen = route := by
      split at found
      next =>
        obtain ⟨_, -, eq⟩ := Option.map_eq_some_iff.mp found
        exact (Prod.mk.inj eq).1
      next => cases found
    subst same
    refine ⟨frontRoutes ++ skipped, chosen, backRoutes, matched, by rw [routes]; simp,
      ⟨matched, selectedTop⟩, fun later mem best => ?_, rfl⟩
    obtain ⟨laterMatched, laterTop⟩ := best
    obtain ⟨-, ofMethod, laterFound⟩ := mem_candidates.mp laterTop.1
    have behind : (later, laterMatched) ∈ back := by
      rw [← backSplit]
      refine mem_filterMap.mpr ⟨later, mem, ?_⟩
      rw [if_pos (by simpa using ofMethod), laterFound]
      rfl
    exact absurd (laterTop.2 _ selectedTop.1) (not_le.mpr (above _ behind))

/-- A best route that is registered last is selected. -/
theorem dispatch_of_last {routes : List (Route C Sse Ws)} {fallback : Option (Fallback C)}
    (normalized : normalizeRouterPath path = .ok path')
    (best : Best decode ⟨routes ++ [route], fallback⟩ method path' route) :
    ∃ matched, dispatch decode ⟨routes ++ [route], fallback⟩ method path =
      .ok (.matched (selectedDispatch method path' route matched)) := by
  obtain ⟨matched, top⟩ := best
  obtain ⟨-, ofMethod, found⟩ := mem_candidates.mp top.1
  have last : candidates decode ⟨routes ++ [route], fallback⟩ method path' =
      candidates decode ⟨routes, fallback⟩ method path' ++ [(route, matched)] := by
    simp [candidates, filter_append, ofMethod, found]
  rw [last] at top
  refine ⟨matched, ?_⟩
  rw [dispatch_eq normalized, last, maxByKey_concat_top top]

theorem candidate_unique {path : List Char} {a b : RoutePatternMatch}
    (left : (route, a) ∈ router.candidates decode method path)
    (right : (route, b) ∈ router.candidates decode method path) : a = b := by
  obtain ⟨-, -, foundA⟩ := mem_candidates.mp left
  obtain ⟨-, -, foundB⟩ := mem_candidates.mp right
  exact Option.some.inj (foundA.symm.trans foundB)

/-- With one best route the order of the routes does not matter. -/
theorem dispatch_perm {router router' : Router C Sse Ws} (same : router'.routes.Perm router.routes)
    (fallback : router'.fallback = router.fallback)
    (normalized : normalizeRouterPath path = .ok path')
    (unique : ∀ a b, Best decode router method path' a → Best decode router method path' b → a = b) :
    router'.dispatch decode method path = router.dispatch decode method path := by
  have selected : maxByKey (fun candidate => candidate.2.score)
        (router'.candidates decode method path') =
      maxByKey (fun candidate => candidate.2.score) (router.candidates decode method path') := by
    refine (maxByKey_perm (candidates_perm same method path').symm fun a b topA topB => ?_).symm
    obtain ⟨routeA, matchedA⟩ := a
    obtain ⟨routeB, matchedB⟩ := b
    obtain rfl := unique routeA routeB ⟨_, topA⟩ ⟨_, topB⟩
    rw [candidate_unique topA.1 topB.1]
  have unmatchedSame : router'.unmatched method path' = router.unmatched method path' := by
    rw [unmatched, unmatched, fallback]
  rw [dispatch_eq normalized, dispatch_eq normalized, selected, unmatchedSame]

end Selection

theorem dispatch_of_rejected {method : RouteMethod}
    {error : WebRouteError} (rejected : normalizeRouterPath path = .error error)
    (decode : List Char → Option (List Char)) :
    router.dispatch decode method path = .error error := by
  rw [dispatch, rejected]
  rfl

/-- Dispatch in every order of registration shows every best route. -/
theorem best_unique_of_independent {decode : List Char → Option (List Char)}
    (accepted : registerAll ⟨[], fallback⟩ registrations = .ok router)
    {method : RouteMethod} {path path' : List Char}
    (normalized : normalizeRouterPath path = .ok path')
    (independent : ∀ registrations' router', registrations'.Perm registrations →
      registerAll ⟨[], fallback⟩ registrations' = .ok router' →
      router'.dispatch decode method path = router.dispatch decode method path)
    {a b : Route C Sse Ws} (bestA : Best decode router method path' a)
    (bestB : Best decode router method path' b) : a = b := by
  have apart := (pairwise_of_registerAll accepted).1
  have selects (route : Route C Sse Ws) (best : Best decode router method path' route) :
      ∃ matched, router.dispatch decode method path =
        .ok (.matched (selectedDispatch method path' route matched)) := by
    obtain ⟨matched, top⟩ := best
    obtain ⟨front, back, split⟩ := append_of_mem (mem_candidates.mp top.1).1
    have last : (front ++ back ++ [route]).Perm router.routes := by
      rw [split]
      exact (perm_append_singleton _ _).trans perm_middle.symm
    obtain ⟨registrations', order, accepted'⟩ := registerAll_reorder accepted last
    have best' : Best decode ⟨front ++ back ++ [route], fallback⟩ method path' route :=
      (best_perm last).mpr ⟨matched, top⟩
    obtain ⟨matched', dispatched⟩ := dispatch_of_last normalized best'
    exact ⟨matched', by rw [← independent _ _ order accepted', dispatched]⟩
  obtain ⟨matchedA, selectA⟩ := selects a bestA
  obtain ⟨matchedB, selectB⟩ := selects b bestB
  rw [selectA] at selectB
  have paths : a.path = b.path :=
    congrArg RouteDispatch.routePattern (RouterOutcome.matched.inj (Except.ok.inj selectB))
  obtain ⟨_, topA⟩ := bestA
  obtain ⟨_, topB⟩ := bestB
  obtain ⟨memA, methodA, -⟩ := mem_candidates.mp topA.1
  obtain ⟨memB, methodB, -⟩ := mem_candidates.mp topB.1
  by_contra different
  exact apart.forall memA memB different (methodA.trans methodB.symm) (by rw [paths])

/-- A static segment and a parameter in opposite places. -/
def staticFirst : Registration Nat Unit Unit := ⟨.get, "/a/:id".toList, .handler 1, [], []⟩

def staticLast : Registration Nat Unit Unit := ⟨.get, "/:id/b".toList, .handler 2, [], []⟩

end Router

end Terlan.Http
