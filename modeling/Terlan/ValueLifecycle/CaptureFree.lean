/-
  Substitution of constants keeps the meaning of an expression exactly where it captures no
  name: the substitution that follows scopes keeps it everywhere, and the traversal agrees
  with that substitution if and only if no occurrence it comes to is bound, called, or inside
  HTML.
-/
import Terlan.ValueLifecycle.Scope

namespace Terlan.ValueLifecycle

open Terlan.Syntax SyntaxExprParts SyntaxExprOutput List

section captureFree

variable {formatFloat : UInt64 → String} {values : ConstValues}

/-! ## Written values -/

/-- Expressions that spell a value: no names, no calls, no patterns. -/
inductive Rendered : SyntaxExprOutput → Prop
  | intro {e : SyntaxExprOutput} : e.kind ≠ .var → e.kind ≠ .fieldAccess → e.kind ≠ .call →
      e.patterns = [] → e.clauses = [] → e.catchClauses = [] →
      (∀ site c, e.subexprs.At site c → Rendered c) → Rendered e

theorem literalExpr_rendered {kind : SyntaxExprKind} (text : Option String)
    {children : List SyntaxExprOutput} {fields : List (SyntaxExprFieldOutput SyntaxExprOutput)}
    (notVar : kind ≠ .var) (notField : kind ≠ .fieldAccess) (notCall : kind ≠ .call)
    (isChildren : ∀ c ∈ children, Rendered c) (isFields : ∀ field ∈ fields, Rendered field.value) :
    Rendered (literalExpr kind text children fields) := by
  refine .intro notVar notField notCall rfl rfl rfl fun site c stands => ?_
  cases stands with
  | child found => exact isChildren _ (mem_of_getElem? found)
  | letGuard found => exact absurd found (by simp [literalExpr, subexprs])
  | field mem => exact isFields _ mem
  | guard mem | body mem => exact absurd mem (by simp [literalExpr, subexprs])
  | trigger isAfter | after isAfter => cases isAfter
  | html mem => exact absurd mem not_mem_nil

variable {e : SyntaxExprOutput}

theorem Rendered.withRaw (rendered : Rendered e) (raw : String) : Rendered (withRaw raw e) := by
  cases e with
  | node =>
    cases rendered with
    | intro notVar notField notCall patterns clauses catchClauses inside =>
      exact .intro notVar notField notCall patterns clauses catchClauses inside

mutual

theorem valueToExpr_rendered (value : ConstValue) : Rendered (valueToExpr formatFloat value) := by
  cases value with
  | int value | float bits | bool value | atom value | binary value =>
    rw [valueToExpr]
    exact literalExpr_rendered _ nofun nofun nofun nofun nofun
  | tuple values | list values | array values =>
    rw [valueToExpr]
    exact literalExpr_rendered _ nofun nofun nofun (valuesToExprs_rendered values) nofun
  | map entries | record name entries =>
    rw [valueToExpr]
    exact literalExpr_rendered _ nofun nofun nofun nofun (entriesToFields_rendered entries)
  | union name arm representation =>
    rw [valueToExpr]
    exact (valueToExpr_rendered representation).withRaw _

theorem valuesToExprs_rendered (values : List ConstValue) :
    ∀ c ∈ valuesToExprs formatFloat values, Rendered c := by
  cases values with
  | nil => exact nofun
  | cons value values =>
    rw [valuesToExprs]
    exact forall_mem_cons.mpr ⟨valueToExpr_rendered value, valuesToExprs_rendered values⟩

theorem entriesToFields_rendered (entries : List (ConstEntry ConstValue)) :
    ∀ field ∈ entriesToFields formatFloat entries, Rendered field.value := by
  cases entries with
  | nil => exact nofun
  | cons entry entries =>
    obtain ⟨key, value⟩ := entry
    rw [entriesToFields]
    exact forall_mem_cons.mpr ⟨valueToExpr_rendered value, entriesToFields_rendered entries⟩

end

/-! ## One step of each function -/

theorem substituteExpr_eq (e : SyntaxExprOutput) (receiver : Option ConstValue) :
    substituteExpr formatFloat values e receiver =
      match constantAt values (asMethodOf formatFloat receiver e) with
      | some value => valueToExpr formatFloat value
      | none =>
        let expr := asMethodOf formatFloat receiver e
        let parts := (e.subexprs.mapPatterns (substitutePattern formatFloat values)).mapSites
          fun site c => substituteExpr formatFloat values c
            (siteReceiver (unionReceiver values expr) site)
        { parts.withChildren (receiver.map fun value => [valueToExpr formatFloat value]) with
          htmlExprs := expr.htmlExprs }.rebuild
            (substituteHead formatFloat values (unionReceiver values expr) expr.head) := by
  conv_lhs => rw [substituteExpr, SyntaxExprOutput.fold_eq]
  simp only [SyntaxExprParts.mapPatterns_mapSites]
  rfl

theorem captureFree_eq (e : SyntaxExprOutput) (bound : String → Bool) (place : Place) :
    captureFree formatFloat values e bound place =
      match freeConstantAt values bound place e with
      | some value => valueToExpr formatFloat value
      | none =>
        let expr := asMethodOf formatFloat place.receiver e
        let receiver := freeReceiver values bound expr
        let head := substituteHead formatFloat values receiver expr.head
        let parts := (e.subexprs.mapPatterns (substitutePattern formatFloat values)).mapSites
          fun site c => captureFree formatFloat values c (extend (siteNames head site) bound)
            (sitePlace head receiver site)
        (parts.withChildren (place.receiver.map fun value => [valueToExpr formatFloat value])).rebuild
          head := by
  conv_lhs => rw [captureFree, SyntaxExprOutput.fold_eq]
  simp only [SyntaxExprParts.mapPatterns_mapSites]
  rfl

variable {ν δ : Type} {runtime : Runtime ν δ}

theorem evaluate_eq (e : SyntaxExprOutput) (env : String → Option ν) :
    evaluate runtime e env =
      match e.kind, e.text with
      | .var, some name => runtime.nameMeaning env name
      | _, _ =>
        runtime.node e.head (e.subexprs.mapSites fun site c bindings =>
          evaluate runtime c (bindNames (siteNames e.head site) bindings env)) := by
  conv_lhs => rw [evaluate, SyntaxExprOutput.fold_eq]
  simp only [SyntaxExprParts.map, SyntaxExprParts.mapSites_mapSites]
  rfl

theorem evaluateWith_eq (e : SyntaxExprOutput) (env : String → Option ν) (place : Place) :
    evaluateWith runtime formatFloat values e env place =
      match freeConstantAt values (fun name => (env name).isSome) place e with
      | some value => constMeaning runtime formatFloat value
      | none =>
        let expr := asMethodOf formatFloat place.receiver e
        match expr.kind, expr.text with
        | .var, some name => runtime.nameMeaning env name
        | _, _ =>
          let receiver := freeReceiver values (fun name => (env name).isSome) expr
          let head := substituteHead formatFloat values receiver expr.head
          let parts := (e.subexprs.mapPatterns (substitutePattern formatFloat values)).mapSites
            fun site c bindings => evaluateWith runtime formatFloat values c
              (bindNames (siteNames head site) bindings env) (sitePlace head receiver site)
          runtime.node head (parts.withChildren
            (place.receiver.map fun value => [fun _ => constMeaning runtime formatFloat value])) := by
  conv_lhs => rw [evaluateWith, SyntaxExprOutput.fold_eq]
  simp only [SyntaxExprParts.mapPatterns_mapSites]
  rfl

/-! ## Written values stay as they are -/

@[simp] theorem asMethodOf_none (e : SyntaxExprOutput) : asMethodOf formatFloat none e = e := rfl

@[simp] theorem siteReceiver_none (site : Site) : siteReceiver none site = none := by
  unfold siteReceiver
  split <;> rfl

theorem sitePlace_receiver {head : SyntaxExprHead} {receiver : Option ConstValue}
    (ofCall : head.kind ≠ .call → receiver = none) (site : Site) :
    (sitePlace head receiver site).receiver = siteReceiver receiver site := by
  unfold sitePlace siteReceiver
  cases site with
  | child index =>
    cases index with
    | zero =>
      by_cases isCall : head.kind = .call
      · cases receiver <;> simp [isCall, Place.receiver]
      · simp only [ofCall isCall]
        split <;> simp_all [Place.receiver]
    | succ index => rfl
  | letGuard | field | clause | after | html => rfl

theorem substituteHead_none_eq_self_iff {head : SyntaxExprHead} :
    substituteHead formatFloat values none head = head ↔
      ∀ pattern ∈ head.patterns, substitutePattern formatFloat values pattern = pattern := by
  obtain ⟨kind, arity, text, raw, operator, remote, patterns, argNames, typeArgs⟩ := head
  simp [substituteHead, map_eq_self_iff]

/-- The meaning of a value that is written in does not depend on what is bound around it. -/
theorem Rendered.evaluate_eq_evaluate {ν δ : Type} {runtime : Runtime ν δ}
    (rendered : Rendered e) (env other : String → Option ν) :
    evaluate runtime e env = evaluate runtime e other := by
  induction rendered generalizing env other with
  | @intro e notVar notField notCall patterns clauses catchClauses inside ih =>
    have step : ∀ env : String → Option ν, evaluate runtime e env =
        runtime.node e.head (e.subexprs.mapSites fun site c bindings =>
          evaluate runtime c (bindNames (siteNames e.head site) bindings env)) := by
      intro env
      rw [evaluate_eq]
      split
      · rename_i isVar _
        exact absurd isVar notVar
      · rfl
    rw [step env, step other]
    refine congrArg _ (mapSites_eq_mapSites_iff.mpr fun site c stands => ?_)
    funext bindings
    exact ih site c stands _ _

/-! ## Meaning under the substitution that follows scopes -/

theorem extend_isSome {ν : Type} (names : List String) (bindings : String → ν)
    (env : String → Option ν) : extend names (fun name => (env name).isSome) =
      fun name => (bindNames names bindings env name).isSome := by
  funext name
  unfold extend bindNames
  cases names.contains name <;> simp

theorem evaluate_valueToExpr {ν δ : Type} {runtime : Runtime ν δ} (value : ConstValue)
    (env : String → Option ν) :
    evaluate runtime (valueToExpr formatFloat value) env = constMeaning runtime formatFloat value :=
  (valueToExpr_rendered value).evaluate_eq_evaluate _ _

/-- Substituting the free occurrences of constants keeps the meaning of every expression. -/
theorem evaluate_captureFree {ν δ : Type} (runtime : Runtime ν δ) (e : SyntaxExprOutput)
    (env : String → Option ν) (place : Place) :
    evaluate runtime (captureFree formatFloat values e (fun name => (env name).isSome) place) env =
      evaluateWith runtime formatFloat values e env place := by
  induction e using induction generalizing env place with
  | step e ih =>
    rw [captureFree_eq, evaluateWith_eq]
    cases freeConstantAt values (fun name => (env name).isSome) place e with
    | some value => exact evaluate_valueToExpr value env
    | none =>
      have parts : ∀ (head : SyntaxExprHead) (receiver : Option ConstValue),
          ((e.subexprs.mapPatterns (substitutePattern formatFloat values)).mapSites
            fun site c => captureFree formatFloat values c
              (extend (siteNames head site) fun name => (env name).isSome)
              (sitePlace head receiver site)).mapSites
            (fun site c bindings => evaluate runtime c (bindNames (siteNames head site) bindings env)) =
          (e.subexprs.mapPatterns (substitutePattern formatFloat values)).mapSites
            fun site c bindings => evaluateWith runtime formatFloat values c
              (bindNames (siteNames head site) bindings env) (sitePlace head receiver site) := by
        intro head receiver
        rw [mapSites_mapSites]
        refine mapSites_eq_mapSites_iff.mpr fun site c stands => ?_
        obtain ⟨origin, stands⟩ := stands.of_mapPatterns
        funext bindings
        rw [extend_isSome _ bindings]
        exact ih c stands.mem_parts _ _
      have written : ∀ head : SyntaxExprHead,
          (place.receiver.map fun value => [valueToExpr formatFloat value]).map
            (fun children => children.mapIdx fun index c (bindings : String → ν) =>
              evaluate runtime c (bindNames (siteNames head (.child index)) bindings env)) =
          place.receiver.map fun value => [fun _ => constMeaning runtime formatFloat value] := by
        intro head
        cases place.receiver <;> simp [evaluate_valueToExpr]
      rw [evaluate_eq]
      simp only [subexprs_rebuild, head_rebuild,
        mapSites_withChildren, parts, written]
      rfl

/-! ## Expressions that mention no constant -/

variable {value : ConstValue}

theorem kind_of_constantAt
    (found : constantAt values e = some value) : e.kind = .var ∨ e.kind = .fieldAccess := by
  unfold constantAt at found
  split at found
  · exact .inl ‹_›
  · exact .inr ‹_›
  · exact absurd found nofun

variable {bound : String → Bool}

theorem constantAt_of_freeConstantAt {place : Place}
    (found : freeConstantAt values bound place e = some value) :
    place = .value ∧ (referencedNames e).any bound = false ∧ constantAt values e = some value := by
  cases place with
  | value =>
    unfold freeConstantAt at found
    cases any : (referencedNames e).any bound with
    | true => simp [any] at found
    | false => exact ⟨rfl, rfl, by simpa [any] using found⟩
  | callee | method receiver => exact absurd found nofun

theorem unionReceiver_of_freeReceiver (found : freeReceiver values bound e = some value) :
    (e.remote.toList.flatMap pathRoots).any bound = false ∧ unionReceiver values e = some value := by
  unfold freeReceiver at found
  cases any : (e.remote.toList.flatMap pathRoots).any bound with
  | true => simp [any] at found
  | false => exact ⟨rfl, by simpa [any] using found⟩

theorem remote_of_unionReceiver
    (found : unionReceiver values e = some value) : e.kind = .call ∧ e.remote ≠ none := by
  unfold unionReceiver at found
  split at found
  · exact absurd found nofun
  · rename_i isCall
    refine ⟨not_not.mp isCall, fun noRemote => ?_⟩
    simp [noRemote] at found

theorem valueToExpr_ne (kind : e.kind = .var ∨ e.kind = .fieldAccess)
    (value : ConstValue) : valueToExpr formatFloat value ≠ e := by
  rintro rfl
  cases @valueToExpr_rendered formatFloat value with
  | intro notVar notField => exact kind.elim notVar notField

/-- The substitution that follows scopes leaves exactly the expressions alone that mention no
constant. -/
theorem captureFree_eq_self_iff (e : SyntaxExprOutput) (bound : String → Bool) {place : Place}
    (noReceiver : place.receiver = none) :
    captureFree formatFloat values e bound place = e ↔ ¬ Mentions formatFloat values bound place e := by
  induction e using induction generalizing bound place with
  | step e ih =>
    rw [captureFree_eq]
    simp only [noReceiver, asMethodOf_none, Option.map_none]
    cases constant : freeConstantAt values bound place e with
    | some value =>
      have kind := kind_of_constantAt (constantAt_of_freeConstantAt constant).2.2
      exact iff_of_false (valueToExpr_ne kind value) (not_not.mpr (.constant constant))
    | none =>
      have inside : ∀ site c, e.subexprs.At site c →
          (captureFree formatFloat values c (extend (siteNames e.head site) bound)
            (sitePlace e.head none site) = c ↔
          ¬ Mentions formatFloat values (extend (siteNames e.head site) bound)
            (sitePlace e.head none site) c) := fun site c stands =>
        ih c stands.mem_parts _ (by rw [sitePlace_receiver fun _ => rfl, siteReceiver_none])
      rw [SyntaxExprOutput.ext_iff]
      constructor
      · rintro ⟨head, parts⟩ mentions
        have head : substituteHead formatFloat values (freeReceiver values bound e) e.head = e.head :=
          head
        have noFree : freeReceiver values bound e = none := by
          cases found : freeReceiver values bound e with
          | none => rfl
          | some value =>
            rw [found] at head
            have noRemote : none = e.remote := congrArg SyntaxExprHead.remote head
            exact absurd noRemote.symm
              (remote_of_unionReceiver (unionReceiver_of_freeReceiver found).2).2
        rw [noFree] at head parts
        have patternsFixed := substituteHead_none_eq_self_iff.mp head
        have parts : ((e.subexprs.mapPatterns (substitutePattern formatFloat values)).mapSites
            fun site c => captureFree formatFloat values c
              (extend (siteNames (substituteHead formatFloat values none e.head) site) bound)
              (sitePlace (substituteHead formatFloat values none e.head) none site)) = e.subexprs :=
          parts
        have clausesFixed := mapPatterns_eq_of_mapSites_eq parts
        rw [clausesFixed, head] at parts
        have fixed := mapSites_eq_mapSites_iff.mp
          (parts.trans e.subexprs.mapSites_id.symm)
        cases mentions with
        | constant found => exact absurd (constant.symm.trans found) nofun
        | receiver found => exact absurd (noFree.symm.trans found) nofun
        | pattern mem changes => exact changes (patternsFixed _ mem)
        | clausePattern mem inClause changes =>
          refine changes (mapPatterns_eq_self_iff.mp clausesFixed _ ?_ _ inClause)
          cases e with
          | node => exact mem
        | inside stands mentions => exact (inside _ _ stands).mp (fixed _ _ stands) mentions
      · intro unmentioned
        have noFree : freeReceiver values bound e = none :=
          Option.eq_none_iff_forall_ne_some.mpr fun value found => unmentioned (.receiver found)
        have head : substituteHead formatFloat values none e.head = e.head :=
          substituteHead_none_eq_self_iff.mpr fun pattern mem =>
            not_not.mp fun changes => unmentioned (.pattern mem changes)
        have clausesFixed : e.subexprs.mapPatterns (substitutePattern formatFloat values) =
            e.subexprs := by
          refine mapPatterns_eq_self_iff.mpr fun clause mem pattern inClause => ?_
          refine not_not.mp fun changes => unmentioned (.clausePattern ?_ inClause changes)
          cases e with
          | node => exact mem
        refine ⟨by rw [noFree]; exact head, ?_⟩
        rw [noFree, head, clausesFixed]
        refine Eq.trans ?_ e.subexprs.mapSites_id
        exact mapSites_eq_mapSites_iff.mpr fun site c stands =>
          (inside site c stands).mpr fun mentions => unmentioned (.inside stands mentions)

/-! ## The traversal -/

theorem noCapture_iff {place : Place} : NoCapture formatFloat values bound place e ↔
      Clear formatFloat values bound place e ∧
        (constantAt values (asMethodOf formatFloat place.receiver e) = none →
          ∀ site c, ((e.subexprs.mapPatterns (substitutePattern formatFloat values)).dropChildren
            place.receiver.isSome).At site c → site ≠ .html →
          NoCapture formatFloat values (extend (siteNames (substituteHead formatFloat values none
              (asMethodOf formatFloat place.receiver e).head) site) bound)
            (sitePlace (asMethodOf formatFloat place.receiver e).head
              (unionReceiver values (asMethodOf formatFloat place.receiver e)) site) c) := by
  constructor
  · intro clear
    exact ⟨clear _ _ _ .here, fun unreplaced site c stands visited after target d reaches =>
      clear _ _ _ (.inside unreplaced stands visited reaches)⟩
  · rintro ⟨here, inside⟩ after target c reaches
    cases reaches with
    | here => exact here
    | inside unreplaced stands visited reaches =>
      exact inside unreplaced _ _ stands visited _ _ _ reaches

theorem freeReceiver_eq_iff : freeReceiver values bound e = unionReceiver values e ↔
      ∀ value, unionReceiver values e = some value →
        ∀ name ∈ e.remote.toList.flatMap pathRoots, bound name = false := by
  constructor
  · intro same value found name mem
    have unbound := (unionReceiver_of_freeReceiver (same.trans found)).1
    exact Bool.eq_false_iff.mpr (any_eq_false.mp unbound name mem)
  · intro unbound
    cases found : unionReceiver values e with
    | none =>
      unfold freeReceiver
      split
      · rfl
      · exact found
    | some value =>
      have any : (e.remote.toList.flatMap pathRoots).any bound = false :=
        any_eq_false.mpr fun name mem => Bool.eq_false_iff.mp (unbound value found name mem)
      unfold freeReceiver
      rw [any]
      exact found

/-- Rebuilding that leaves the expressions in HTML nodes as they are. -/
def unlessHtml (f : Site → SyntaxExprOutput → SyntaxExprOutput) : Site → SyntaxExprOutput → SyntaxExprOutput
  | .html, c => c
  | site, c => f site c

theorem unlessHtml_of_ne {f : Site → SyntaxExprOutput → SyntaxExprOutput} {site : Site}
    (visited : site ≠ .html) (c : SyntaxExprOutput) : unlessHtml f site c = f site c := by
  cases site with
  | html => exact absurd rfl visited
  | child | letGuard | field | clause | after => rfl

theorem withChildren_keepHtml (parts : SyntaxExprParts SyntaxExprOutput)
    (f : Site → SyntaxExprOutput → SyntaxExprOutput) (children : Option (List SyntaxExprOutput)) :
    { (parts.mapSites f).withChildren children with htmlExprs := parts.htmlExprs } =
      (parts.mapSites (unlessHtml f)).withChildren children := by
  simp only [withChildren, mapSites, mk.injEq]
  exact ⟨rfl, rfl, rfl, rfl, rfl, rfl, (List.map_id _).symm⟩

theorem visited_mem_parts {e c : SyntaxExprOutput} {s : SyntaxPatternOutput → SyntaxPatternOutput}
    {drop : Bool} {site : Site} (stands : ((e.subexprs.mapPatterns s).dropChildren drop).At site c) :
    c ∈ e.parts :=
  stands.of_dropChildren.of_mapPatterns.elim fun _ stands => stands.mem_parts

/-- The traversal agrees with the substitution that follows scopes exactly where it captures no
name. -/
theorem substituteExpr_eq_captureFree_iff (e : SyntaxExprOutput) (bound : String → Bool)
    (place : Place) :
    substituteExpr formatFloat values e place.receiver = captureFree formatFloat values e bound place ↔
      NoCapture formatFloat values bound place e := by
  induction e using induction generalizing bound place with
  | step e ih =>
    rw [substituteExpr_eq, captureFree_eq, noCapture_iff]
    cases constant : constantAt values (asMethodOf formatFloat place.receiver e) with
    | some value =>
      have kind := kind_of_constantAt constant
      cases free : freeConstantAt values bound place e with
      | some other =>
        obtain ⟨rfl, unbound, found⟩ := constantAt_of_freeConstantAt free
        have same : value = other := Option.some.inj (constant.symm.trans found)
        refine iff_of_true (congrArg _ same) ⟨⟨fun _ _ => ⟨rfl, fun name mem => ?_⟩, ?_, ?_⟩, nofun⟩
        · exact Bool.eq_false_iff.mpr (any_eq_false.mp unbound name mem)
        · intro receiver isReceiver
          exact absurd (remote_of_unionReceiver isReceiver).1 (by cases kind <;> simp_all)
        · exact fun replaced => absurd (constant.symm.trans replaced) nofun
      | none =>
        refine iff_of_false (fun same => valueToExpr_ne ?_ value same) fun ⟨clear, _⟩ => ?_
        · exact kind
        obtain ⟨rfl, unbound⟩ := clear.constant value constant
        have any : (referencedNames e).any bound = false :=
          any_eq_false.mpr fun name mem => Bool.eq_false_iff.mp (unbound name mem)
        unfold freeConstantAt at free
        simp only [any] at free
        exact absurd (free.symm.trans constant) nofun
    | none =>
      have free : freeConstantAt values bound place e = none := by
        refine Option.eq_none_iff_forall_ne_some.mpr fun value found => ?_
        obtain ⟨rfl, _, found⟩ := constantAt_of_freeConstantAt found
        exact absurd (constant.symm.trans found) nofun
      rw [free]
      have remote : (asMethodOf formatFloat place.receiver e).remote = e.remote := by
        cases place.receiver <;> [rfl; (cases e; rfl)]
      have htmlSite : ∀ {c}, ((e.subexprs.mapPatterns
          (substitutePattern formatFloat values)).dropChildren place.receiver.isSome).At .html c ↔
            c ∈ e.htmlExprs := by
        intro c
        cases e
        refine ⟨fun stands => ?_, fun mem => ?_⟩
        · cases stands.of_dropChildren with
          | html mem => exact mem
        · refine .html ?_
          cases place.receiver <;> exact mem
      by_cases receivers : freeReceiver values bound (asMethodOf formatFloat place.receiver e) =
          unionReceiver values (asMethodOf formatFloat place.receiver e)
      · have clearReceiver := freeReceiver_eq_iff.mp receivers
        have html : (asMethodOf formatFloat place.receiver e).htmlExprs =
            (e.subexprs.mapPatterns (substitutePattern formatFloat values)).htmlExprs := by
          cases e
          cases place.receiver <;> rfl
        have calls : (asMethodOf formatFloat place.receiver e).kind ≠ .call →
            unionReceiver values (asMethodOf formatFloat place.receiver e) = none :=
          fun notCall => if_pos notCall
        have inside := fun site c
            (stands : ((e.subexprs.mapPatterns (substitutePattern formatFloat values)).dropChildren
              place.receiver.isSome).At site c) => ih c (visited_mem_parts stands)
          (extend (siteNames (substituteHead formatFloat values none
            (asMethodOf formatFloat place.receiver e).head) site) bound)
          (sitePlace (asMethodOf formatFloat place.receiver e).head
            (unionReceiver values (asMethodOf formatFloat place.receiver e)) site)
        simp only [sitePlace_receiver calls] at inside
        simp only [receivers, html, withChildren_keepHtml]
        rw [rebuild_eq_rebuild_iff, withChildren_mapSites_eq_iff,
          Option.isSome_map]
        constructor
        · rintro ⟨_, agree⟩
          refine ⟨⟨fun _ found => absurd (constant.symm.trans found) nofun,
            fun value found => remote ▸ clearReceiver value found, fun _ c mem => ?_⟩,
            fun _ site c stands visited => ?_⟩
          · exact (captureFree_eq_self_iff c bound rfl).mp (agree .html c (htmlSite.mpr mem)).symm
          · exact (inside site c stands).mp ((unlessHtml_of_ne visited c).symm.trans (agree site c stands))
        · rintro ⟨clear, captures⟩
          refine ⟨rfl, fun site c stands => ?_⟩
          by_cases visited : site = .html
          · subst visited
            exact ((captureFree_eq_self_iff c bound rfl).mpr
              (clear.html constant c (htmlSite.mp stands))).symm
          · rw [unlessHtml_of_ne visited]
            exact (inside site c stands).mpr (captures trivial site c stands visited)
      · refine iff_of_false (fun same => receivers ?_) fun ⟨clear, _⟩ =>
          receivers (freeReceiver_eq_iff.mpr fun value found => remote.symm ▸ clear.receiver value found)
        have remotes : (substituteHead formatFloat values
            (unionReceiver values (asMethodOf formatFloat place.receiver e))
            (asMethodOf formatFloat place.receiver e).head).remote = (substituteHead formatFloat
            values (freeReceiver values bound (asMethodOf formatFloat place.receiver e))
            (asMethodOf formatFloat place.receiver e).head).remote :=
          congrArg SyntaxExprOutput.remote same
        cases bare : freeReceiver values bound (asMethodOf formatFloat place.receiver e) with
        | some value => exact (unionReceiver_of_freeReceiver bare).2.symm
        | none =>
          cases found : unionReceiver values (asMethodOf formatFloat place.receiver e) with
          | none => rfl
          | some value =>
            rw [bare, found] at remotes
            exact absurd remotes.symm (remote_of_unionReceiver found).2

end captureFree

/-! ## Bodies -/

/-- In a body with names bound by parameters, the traversal replaces exactly the free occurrences
of constants, and the body means the same whatever values the parameters hold. -/
def SubstitutionIsCaptureFree (formatFloat : UInt64 → String) (values : ConstValues)
    (params : List String) (body : SyntaxExprOutput) : Prop :=
  substituteExpr formatFloat values body none =
      captureFree formatFloat values body (fun name => params.contains name) .value ∧
    ∀ (ν δ : Type) (runtime : Runtime ν δ) (env : String → Option ν),
      (∀ name, (env name).isSome = params.contains name) →
      evaluate runtime (substituteExpr formatFloat values body none) env =
        evaluateWith runtime formatFloat values body env .value

theorem substitutionIsCaptureFree_iff (formatFloat : UInt64 → String) (values : ConstValues)
    (params : List String) (body : SyntaxExprOutput) :
    SubstitutionIsCaptureFree formatFloat values params body ↔
      NoCapture formatFloat values (fun name => params.contains name) .value body := by
  refine Iff.trans ⟨fun captureFree => captureFree.1, fun same => ⟨same, ?_⟩⟩
    (substituteExpr_eq_captureFree_iff body _ .value)
  intro ν δ runtime env dom
  have bound : (fun name => params.contains name) = fun name => (env name).isSome :=
    funext fun name => (dom name).symm
  rw [show substituteExpr formatFloat values body none = _ from same, bound]
  exact evaluate_captureFree runtime body env .value

/-! ## A parameter with the name of a constant -/

namespace Captured

/-- `const MAX: Int = 3.` -/
def values : ConstValues := fun name => if name = "MAX" then some (.int 3) else none

/-- Body of `run(MAX: Int): Int -> MAX.` -/
def body : SyntaxExprOutput :=
  .node ⟨.var, 0, some "MAX", none, none, none, [], [], []⟩ [] [] [] [] [] none []

/-- Runtime whose values are numbers; forms other than names are of no account. -/
def runtime : Runtime Int Int where
  held := id
  global := fun _ => 0
  node := fun _ _ => 0

def env : String → Option Int := fun name => if name = "MAX" then some 7 else none

end Captured

/-- The parameter holds 7, and the substituted body no longer refers to it. -/
theorem substitution_captures_parameter :
    ¬ SubstitutionIsCaptureFree (fun _ => "") Captured.values ["MAX"] Captured.body := by
  rintro ⟨_, keeps⟩
  have dom : ∀ name, (Captured.env name).isSome = ["MAX"].contains name := by
    intro name
    by_cases isMax : name = "MAX" <;> simp [Captured.env, isMax]
  have same := keeps Int Int Captured.runtime Captured.env dom
  have replaced : evaluate Captured.runtime
      (substituteExpr (fun _ => "") Captured.values Captured.body none) Captured.env = 0 := rfl
  have meant : evaluateWith Captured.runtime (fun _ => "") Captured.values Captured.body
      Captured.env .value = 7 := rfl
  exact absurd (replaced.symm.trans (same.trans meant)) (by decide)

end Terlan.ValueLifecycle
