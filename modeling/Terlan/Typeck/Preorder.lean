/-
  Subtyping as a preorder.

  Reflexive: for every type. Transitive: along every chain of three types whose middle one
  lists each field that an outer one has as optional, and whose binders are not captured.
  The chains that fail are at the end: a skipped optional field, a captured binder, the unit
  type below its atom.
-/
import Mathlib.Data.List.Nodup
import Terlan.Typeck.Subtyping

namespace Terlan.Typeck

open List

/-! ## Renaming twice -/

mutual

/-- Every variable of a type, its binders included. -/
def typeVars : Ty → List TypeVarId
  | .var id => [id]
  | .apply constructor args => constructor :: typeVarsOfTypes args
  | .existential params body => params ++ typeVars body
  | .list elem => typeVars elem
  | .tuple items => typeVarsOfTypes items
  | .union items => typeVarsOfTypes items
  | .map fields => typeVarsOfFields fields
  | .named _ _ args => typeVarsOfTypes args
  | .function params ret => typeVarsOfTypes params ++ typeVars ret
  | .array (.param id) elem => id :: typeVars elem
  | .array (.known _) elem => typeVars elem
  | _ => []

def typeVarsOfTypes : List Ty → List TypeVarId
  | [] => []
  | ty :: types => typeVars ty ++ typeVarsOfTypes types

def typeVarsOfFields : List (MapFieldType Ty) → List TypeVarId
  | [] => []
  | ⟨_, value, _⟩ :: fields => typeVars value ++ typeVarsOfFields fields

end

section Rename

variable {m n k : List (TypeVarId × TypeVarId)}

mutual

theorem renameTypeVars_comp : ∀ ty : Ty,
    (∀ id ∈ typeVars ty, renameVar m (renameVar n id) = renameVar k id) →
      renameTypeVars m (renameTypeVars n ty) = renameTypeVars k ty
  | .int, _ | .float, _ | .number, _ | .binary, _ | .atom, _ | .bool, _ | .term, _
  | .dynamic, _ | .never, _ | .literalAtom _, _ | .literalInt _, _ | .literalBool _, _
  | .placeholder, _ => by simp [renameTypeVars]
  | .var id, h => by simpa [renameTypeVars, typeVars] using h
  | .apply constructor args, h => by
    simp only [typeVars, forall_mem_cons] at h
    simp [renameTypeVars, h.1, renameTypes_comp args h.2]
  | .existential params body, h => by
    simp only [typeVars, forall_mem_append] at h
    simp only [renameTypeVars, renameTypeVars_comp body h.2, map_map]
    congr 1
    exact map_congr_left h.1
  | .list elem, h => by
    simp only [typeVars] at h
    simp [renameTypeVars, renameTypeVars_comp elem h]
  | .tuple items, h => by
    simp only [typeVars] at h
    simp [renameTypeVars, renameTypes_comp items h]
  | .union items, h => by
    simp only [typeVars] at h
    simp [renameTypeVars, renameTypes_comp items h]
  | .map fields, h => by
    simp only [typeVars] at h
    simp [renameTypeVars, renameMapFields_comp fields h]
  | .named _ _ args, h => by
    simp only [typeVars] at h
    simp [renameTypeVars, renameTypes_comp args h]
  | .function params ret, h => by
    simp only [typeVars, forall_mem_append] at h
    simp [renameTypeVars, renameTypes_comp params h.1, renameTypeVars_comp ret h.2]
  | .array (.param id) elem, h => by
    simp only [typeVars, forall_mem_cons] at h
    simp [renameTypeVars, ArraySize.rename, h.1, renameTypeVars_comp elem h.2]
  | .array (.known _) elem, h => by
    simp only [typeVars] at h
    simp [renameTypeVars, ArraySize.rename, renameTypeVars_comp elem h]

theorem renameTypes_comp : ∀ types : List Ty,
    (∀ id ∈ typeVarsOfTypes types, renameVar m (renameVar n id) = renameVar k id) →
      renameTypes m (renameTypes n types) = renameTypes k types
  | [], _ => rfl
  | ty :: types, h => by
    simp only [typeVarsOfTypes, forall_mem_append] at h
    simp [renameTypes, renameTypeVars_comp ty h.1, renameTypes_comp types h.2]

theorem renameMapFields_comp : ∀ fields : List (MapFieldType Ty),
    (∀ id ∈ typeVarsOfFields fields, renameVar m (renameVar n id) = renameVar k id) →
      renameMapFields m (renameMapFields n fields) = renameMapFields k fields
  | [], _ => rfl
  | ⟨_, value, _⟩ :: fields, h => by
    simp only [typeVarsOfFields, forall_mem_append] at h
    simp [renameMapFields, renameTypeVars_comp value h.1, renameMapFields_comp fields h.2]

end

end Rename

/-- Along three lists of one length: looking up twice is looking up once. -/
theorem lookup_zip_zip : ∀ {rs qs ps : List TypeVarId}, rs.length = qs.length →
    qs.length = ps.length → qs.Nodup → ∀ {id via}, (rs.zip qs).lookup id = some via →
      via ∈ qs ∧ (qs.zip ps).lookup via = (rs.zip ps).lookup id
  | [], _, _, _, _, _, _, _, h => by simp at h
  | r :: rs, q :: qs, p :: ps, hrs, hqs, hnodup, id, via, h => by
    rw [nodup_cons] at hnodup
    simp only [zip_cons_cons, lookup_cons] at h ⊢
    by_cases hr : id = r
    · obtain rfl : q = via := by simpa [hr] using h
      simp [hr]
    have htail : (rs.zip qs).lookup id = some via := by simpa [beq_false_of_ne hr] using h
    have ih := lookup_zip_zip (by simpa using hrs) (by simpa using hqs) hnodup.2 htail
    have hq : via ≠ q := fun heq => hnodup.1 (heq ▸ ih.1)
    simp [beq_false_of_ne hr, beq_false_of_ne hq, ih]

theorem renameVar_zip {qs ps : List TypeVarId} (h : qs.length = ps.length) (id : TypeVarId) :
    renameVar (qs.zip ps) id = ((qs.reverse.zip ps.reverse).lookup id).getD id := by
  rw [renameVar, zip_eq_zipWith, zip_eq_zipWith, reverse_zipWith h]

theorem lookup_zip_eq_none_iff {qs ps : List TypeVarId} (h : qs.length = ps.length)
    (id : TypeVarId) : (qs.zip ps).lookup id = none ↔ id ∉ qs := by
  have hkeys : (qs.zip ps).map Prod.fst = qs := map_fst_zip (Nat.le_of_eq h)
  rw [lookup_eq_none_iff]
  conv_rhs => rw [← hkeys]
  simp only [mem_map, not_exists, not_and, bne_iff_ne]
  exact ⟨fun hne pair hpair heq => hne pair hpair heq.symm,
    fun hne pair hpair heq => hne pair hpair heq.symm⟩

/-- Renaming `rs` to `qs` and `qs` to `ps` is renaming `rs` to `ps`, when no variable is caught
between. -/
theorem renameVar_comp {rs qs ps : List TypeVarId} (hrs : rs.length = qs.length)
    (hqs : qs.length = ps.length) (hnodup : qs.Nodup) {id : TypeVarId} (hfree : id ∈ qs → id ∈ rs) :
    renameVar (qs.zip ps) (renameVar (rs.zip qs) id) = renameVar (rs.zip ps) id := by
  have hrs' : rs.reverse.length = qs.reverse.length := by simpa using hrs
  have hqs' : qs.reverse.length = ps.reverse.length := by simpa using hqs
  rw [renameVar_zip hrs, renameVar_zip hqs, renameVar_zip (hrs.trans hqs)]
  cases hvia : (rs.reverse.zip qs.reverse).lookup id with
  | some via =>
    obtain ⟨hmem, hlookup⟩ := lookup_zip_zip hrs' hqs' (nodup_reverse.mpr hnodup) hvia
    obtain ⟨target, htarget⟩ : ∃ target, (qs.reverse.zip ps.reverse).lookup via = some target := by
      rw [← Option.ne_none_iff_exists']
      exact fun h => (lookup_zip_eq_none_iff hqs' via).mp h hmem
    rw [Option.getD_some, ← hlookup, htarget]
    rfl
  | none =>
    have hid := (lookup_zip_eq_none_iff hrs' id).mp hvia
    have hid' : id ∉ qs.reverse := fun h => hid (by simpa using hfree (by simpa using h))
    rw [Option.getD_none, (lookup_zip_eq_none_iff hqs' id).mpr hid',
      (lookup_zip_eq_none_iff (hrs'.trans hqs') id).mpr hid]

theorem alpha_trans {ps qs rs : List TypeVarId} {a b c : Ty}
    (hab : existentialTypesAreAlphaEquivalent (.existential ps a) (.existential qs b) = true)
    (hbc : existentialTypesAreAlphaEquivalent (.existential qs b) (.existential rs c) = true)
    (hnodup : qs.Nodup) (hfree : ∀ id ∈ typeVars c, id ∈ qs → id ∈ rs) :
    existentialTypesAreAlphaEquivalent (.existential ps a) (.existential rs c) = true := by
  simp only [existentialTypesAreAlphaEquivalent, Bool.and_eq_true, decide_eq_true_eq] at hab hbc ⊢
  refine ⟨hab.1.trans hbc.1, ?_⟩
  rw [← hab.2, ← hbc.2]
  exact (renameTypeVars_comp c fun id hid =>
    renameVar_comp hbc.1.symm hab.1.symm hnodup (hfree id hid)).symm

/-! ## Chains of three types -/

mutual

/-- The types that a comparison of the type can reach, the type itself included. -/
def reached : Ty → List Ty
  | .list elem => .list elem :: reached elem
  | .tuple items => .tuple items :: reachedTypes items
  | .union items => .union items :: reachedTypes items
  | .map fields => .map fields :: reachedFields fields
  | .array size elem => .array size elem :: reached elem
  | .named module name args => .named module name args :: reachedTypes args
  | .function params ret => .function params ret :: (reachedTypes params ++ reached ret)
  | ty => [ty]

def reachedTypes : List Ty → List Ty
  | [] => []
  | ty :: types => reached ty ++ reachedTypes types

def reachedFields : List (MapFieldType Ty) → List Ty
  | [] => []
  | ⟨_, value, _⟩ :: fields => reached value ++ reachedFields fields

end

theorem self_mem_reached (ty : Ty) : ty ∈ reached ty := by
  cases ty <;> simp [reached]

theorem reached_subset_types {ty : Ty} {types : List Ty} (h : ty ∈ types) :
    reached ty ⊆ reachedTypes types := by
  induction types with
  | nil => cases h
  | cons head types ih =>
    rcases mem_cons.mp h with rfl | h
    · exact subset_append_left _ _
    · exact List.Subset.trans (ih h) (subset_append_right _ _)

theorem reached_subset_fields {field : MapFieldType Ty} {fields : List (MapFieldType Ty)}
    (h : field ∈ fields) : reached field.value ⊆ reachedFields fields := by
  induction fields with
  | nil => cases h
  | cons head fields ih =>
    rcases mem_cons.mp h with rfl | h
    · exact subset_append_left _ _
    · exact List.Subset.trans (ih h) (subset_append_right _ _)

theorem reached_subset_list {ty elem : Ty} (h : portableListElement ty = some elem) :
    reached elem ⊆ reached ty := by
  unfold portableListElement at h
  split at h
  · cases h
    exact subset_cons_self _ _
  · split at h
    · cases h
      intro inner hinner
      simp [reached, reachedTypes, hinner]
    · cases h
  · cases h

theorem reached_subset_tuple {item : Ty} {items : List Ty} (h : item ∈ items) :
    reached item ⊆ reached (.tuple items) :=
  List.Subset.trans (reached_subset_types h) (subset_cons_self _ _)

theorem reached_subset_union {item : Ty} {items : List Ty} (h : item ∈ items) :
    reached item ⊆ reached (.union items) :=
  List.Subset.trans (reached_subset_types h) (subset_cons_self _ _)

theorem reached_subset_named {module : Option String} {name : String} {arg : Ty} {args : List Ty}
    (h : arg ∈ args) : reached arg ⊆ reached (.named module name args) :=
  List.Subset.trans (reached_subset_types h) (subset_cons_self _ _)

theorem reached_subset_param {params : List Ty} {ret param : Ty} (h : param ∈ params) :
    reached param ⊆ reached (.function params ret) := by
  intro ty hty
  simp [reached, reached_subset_types h hty]

theorem reached_subset_ret {params : List Ty} {ret : Ty} :
    reached ret ⊆ reached (.function params ret) := by
  intro ty hty
  simp [reached, hty]

/-- What the middle type of a chain has to do for a type beside it: list the fields that are
optional there, and bind variables that are bound there too when they occur there. -/
def meets : Ty → Ty → Bool
  | .map fields, .map outer =>
    outer.all fun field => field.required || fields.any fun own => own.key = field.key
  | .existential params _, .existential outer body =>
    decide params.Nodup && (typeVars body).all fun id => !params.contains id || outer.contains id
  | _, _ => true

theorem meets_existential_iff (ps qs : List TypeVarId) (a b : Ty) :
    meets (.existential ps a) (.existential qs b) = true ↔
      ps.Nodup ∧ ∀ id ∈ typeVars b, id ∈ ps → id ∈ qs := by
  simp only [meets, Bool.and_eq_true, decide_eq_true_eq, all_eq_true, Bool.or_eq_true,
    Bool.not_eq_true', contains_eq_mem, decide_eq_false_iff_not, imp_iff_not_or]

/-- Three types along which subtyping is passed on. -/
def Chained (a b c : Ty) : Prop :=
  (∀ ty ∈ reached a ++ reached b ++ reached c, isCompilerNamedType ty = false) ∧
    ∀ ty ∈ reached b, ∀ outer ∈ reached a ++ reached c, meets ty outer = true

instance (a b c : Ty) : Decidable (Chained a b c) :=
  inferInstanceAs (Decidable (_ ∧ _))

theorem Chained.mono {a b c a' b' c' : Ty} (h : Chained a b c) (ha : reached a' ⊆ reached a)
    (hb : reached b' ⊆ reached b) (hc : reached c' ⊆ reached c) : Chained a' b' c' := by
  refine ⟨fun ty hty => h.1 ty ?_, fun ty hty outer houter => h.2 ty (hb hty) outer ?_⟩
  · simp only [mem_append] at hty ⊢
    exact hty.imp (.imp (@ha _) (@hb _)) (@hc _)
  · simp only [mem_append] at houter ⊢
    exact houter.imp (@ha _) (@hc _)

theorem Chained.symm {a b c : Ty} (h : Chained a b c) : Chained c b a := by
  refine ⟨fun ty hty => h.1 ty ?_, fun ty hty outer houter => h.2 ty hty outer ?_⟩
  · simp only [mem_append] at hty ⊢
    tauto
  · simp only [mem_append] at houter ⊢
    exact houter.symm

section Ordinary

variable {a b c : Ty} (h : Chained a b c)
include h

theorem Chained.left : isCompilerNamedType a = false :=
  h.1 a (by simp [self_mem_reached])

theorem Chained.middle : isCompilerNamedType b = false :=
  h.1 b (by simp [self_mem_reached])

theorem Chained.right : isCompilerNamedType c = false :=
  h.1 c (by simp [self_mem_reached])

theorem Chained.meets : meets b c = true :=
  h.2 b (self_mem_reached b) c (by simp [self_mem_reached])

end Ordinary

/-! ## Transitivity -/

theorem forall₂_comp {R S T : Ty → Ty → Prop} : ∀ {as bs cs : List Ty}, List.Forall₂ R as bs →
    List.Forall₂ S bs cs →
      (∀ a ∈ as, ∀ b ∈ bs, ∀ c ∈ cs, R a b → S b c → T a c) → List.Forall₂ T as cs
  | _, _, _, .nil, .nil, _ => .nil
  | _, _, _, .cons hr hrs, .cons hs hss, h =>
    .cons (h _ (by simp) _ (by simp) _ (by simp) hr hs)
      (forall₂_comp hrs hss fun a ha b hb c hc =>
        h a (mem_cons_of_mem _ ha) b (mem_cons_of_mem _ hb) c (mem_cons_of_mem _ hc))

/-- Transitivity along the chains of smaller types. -/
def TransitiveBelow (n : Nat) : Prop :=
  ∀ a b c : Ty, sizeOf a + sizeOf b + sizeOf c < n → Chained a b c →
    IsSubtype a b → IsSubtype b c → IsSubtype a c

section Cases

variable {n : Nat} (ih : TransitiveBelow n)
include ih

theorem list_trans {as bs cs : List Ty} {a b c : Ty}
    (hsize : sizeOf as + sizeOf bs + sizeOf cs < n) (ha : a ∈ as) (hb : b ∈ bs) (hc : c ∈ cs)
    (hchain : Chained a b c) (hab : IsSubtype a b) (hbc : IsSubtype b c) : IsSubtype a c := by
  have := sizeOf_lt_of_mem ha
  have := sizeOf_lt_of_mem hb
  have := sizeOf_lt_of_mem hc
  exact ih a b c (by omega) hchain hab hbc

theorem map_trans {as bs cs : List (MapFieldType Ty)}
    (hsize : sizeOf (Ty.map as) + sizeOf (Ty.map bs) + sizeOf (Ty.map cs) ≤ n)
    (hchain : Chained (.map as) (.map bs) (.map cs))
    (hab : ∀ expected ∈ bs, FieldMatches IsSubtype as expected)
    (hbc : ∀ expected ∈ cs, FieldMatches IsSubtype bs expected) :
    ∀ expected ∈ cs, FieldMatches IsSubtype as expected := by
  intro expected hexpected
  have hmiddle := hbc expected hexpected
  unfold FieldMatches at hmiddle
  split at hmiddle
  · next hnone =>
    -- a field that the middle type does not list is not optional
    have hmeets := all_eq_true.mp hchain.meets expected hexpected
    rw [find?_eq_none] at hnone
    obtain ⟨own, hown, hkey⟩ : ∃ own ∈ bs, own.key = expected.key := by simpa [hmiddle] using hmeets
    exact (hnone own hown (by simpa using hkey)).elim
  · next own hown =>
    have hmem := mem_of_find?_eq_some hown
    have hkey : own.key = expected.key := by simpa using find?_some hown
    have hfield := hab own hmem
    unfold FieldMatches at hfield ⊢
    rw [hkey] at hfield
    split
    · next hnone =>
      rw [hnone] at hfield
      cases hreq : expected.required with
      | false => rfl
      | true => exact absurd (hmiddle.1 hreq) (by simp [hfield])
    · next field hfind =>
      rw [hfind] at hfield
      have hfieldMem := mem_of_find?_eq_some hfind
      have := sizeOf_field hfieldMem
      have := sizeOf_field hmem
      have := sizeOf_field hexpected
      have hinner : Chained field.value own.value expected.value :=
        hchain.mono (List.Subset.trans (reached_subset_fields hfieldMem) (subset_cons_self _ _))
          (List.Subset.trans (reached_subset_fields hmem) (subset_cons_self _ _))
          (List.Subset.trans (reached_subset_fields hexpected) (subset_cons_self _ _))
      exact ⟨fun hreq => hfield.1 (hmiddle.1 hreq),
        ih _ _ _ (by omega) hinner hfield.2 hmiddle.2⟩

theorem shape_trans {a b c : Ty} (hsize : sizeOf a + sizeOf b + sizeOf c ≤ n)
    (hchain : Chained a b c) (hab : SameShape IsSubtype a b) (hbc : SameShape IsSubtype b c) :
    SameShape IsSubtype a c := by
  cases hab with
  | alpha h =>
    cases hbc with
    | alpha h' =>
      have hmeets := (meets_existential_iff ..).mp hchain.meets
      exact .alpha (alpha_trans h h' hmeets.1 hmeets.2)
    | list hl _ _ => cases hl
  | literalInt value =>
    cases hbc with
    | intNumber => exact .literalNumber value
    | list hl _ _ => cases hl
  | intNumber | floatNumber | literalNumber | literalAtom =>
    cases hbc with
    | list hl _ _ => cases hl
  | list hl hr h =>
    cases hbc with
    | list hl' hr' h' =>
      cases hr.symm.trans hl'
      have := sizeOf_portableListElement hl
      have := sizeOf_portableListElement hr
      have := sizeOf_portableListElement hr'
      have hinner := hchain.mono (reached_subset_list hl) (reached_subset_list hr)
        (reached_subset_list hr')
      exact .list hl hr' (ih _ _ _ (by omega) hinner h h')
    | named hnone _ => cases hnone.symm.trans hr
    | _ => cases hr
  | tuple h =>
    cases hbc with
    | tuple h' =>
      simp only [Ty.tuple.sizeOf_spec] at hsize
      refine .tuple (forall₂_comp h h' fun a ha b hb c hc hab hbc => ?_)
      have hinner := hchain.mono (reached_subset_tuple ha) (reached_subset_tuple hb)
        (reached_subset_tuple hc)
      exact list_trans ih (by omega) ha hb hc hinner hab hbc
    | list hl _ _ => cases hl
  | array h =>
    cases hbc with
    | array h' =>
      simp only [Ty.array.sizeOf_spec] at hsize
      have hinner := hchain.mono (subset_cons_self _ _) (subset_cons_self _ _)
        (subset_cons_self _ _)
      exact .array (ih _ _ _ (by omega) hinner h h')
    | list hl _ _ => cases hl
  | map h =>
    cases hbc with
    | map h' => exact .map (map_trans ih hsize hchain h h')
    | list hl _ _ => cases hl
  | named hnone h =>
    cases hbc with
    | named _ h' =>
      simp only [Ty.named.sizeOf_spec] at hsize
      refine .named hnone (forall₂_comp h h' fun a ha b hb c hc hab hbc => ?_)
      have hinner := hchain.mono (reached_subset_named ha) (reached_subset_named hb)
        (reached_subset_named hc)
      exact ⟨list_trans ih (by omega) ha hb hc hinner hab.1 hbc.1,
        list_trans ih (by omega) hc hb ha hinner.symm hbc.2 hab.2⟩
    | list hl _ _ =>
      obtain ⟨d, hd⟩ := portableListElement_named_isSome h.length_eq.symm hl
      cases hnone.symm.trans hd
  | function hparams hret =>
    cases hbc with
    | function hparams' hret' =>
      simp only [Ty.function.sizeOf_spec] at hsize
      have hinner := hchain.mono reached_subset_ret reached_subset_ret reached_subset_ret
      refine .function (forall₂_comp hparams hparams' fun p hp q hq r hr hpq hqr => ?_)
        (ih _ _ _ (by omega) hinner hret hret')
      have hinner := hchain.mono (reached_subset_param hp) (reached_subset_param hq)
        (reached_subset_param hr)
      exact list_trans ih (by omega) hr hq hp hinner.symm hqr hpq
    | list hl _ _ => cases hl

/-- One step: transitivity along the chains of smaller types gives it for the chain at hand. -/
theorem transitive_step {a b c : Ty} (hsize : sizeOf a + sizeOf b + sizeOf c ≤ n)
    (hchain : Chained a b c) (hab : IsSubtype a b) (hbc : IsSubtype b c) : IsSubtype a c := by
  have hnever : a = .never → IsSubtype a c := fun h =>
    isSubtype_of_compares hchain.right (h ▸ .never c)
  have hunion : ∀ items, a = .union items → (∀ item ∈ items, IsSubtype item b) →
      IsSubtype a c := by
    rintro items rfl hitems
    simp only [Ty.union.sizeOf_spec] at hsize
    refine .unionLeft fun item hitem => ?_
    have := sizeOf_lt_of_mem hitem
    have hinner := hchain.mono (reached_subset_union hitem) (List.Subset.refl _)
      (List.Subset.refl _)
    exact ih _ _ _ (by omega) hinner (hitems item hitem) hbc
  cases compares_of_isSubtype hchain.middle hchain.right hbc with
  | refl => exact hab
  | dynamic => exact isSubtype_of_compares hchain.right (.dynamic a)
  | term => exact isSubtype_of_compares hchain.right (.term a)
  | unionRight hitem h =>
    simp only [Ty.union.sizeOf_spec] at hsize
    have := sizeOf_lt_of_mem hitem
    have hinner := hchain.mono (List.Subset.refl _) (List.Subset.refl _)
      (reached_subset_union hitem)
    exact (ih _ _ _ (by omega) hinner hab h).unionRight hitem
  | never =>
    cases compares_of_isSubtype hchain.left hchain.middle hab with
    | refl | never => exact hbc
    | unionLeft h => exact hunion _ rfl h
    | shape h =>
      cases h with
      | list _ hr _ => cases hr
  | unionLeft hbc' =>
    cases compares_of_isSubtype hchain.left hchain.middle hab with
    | refl => exact hbc
    | never => exact hnever rfl
    | unionLeft h => exact hunion _ rfl h
    | unionRight hitem h =>
      simp only [Ty.union.sizeOf_spec] at hsize
      have := sizeOf_lt_of_mem hitem
      have hinner := hchain.mono (List.Subset.refl _) (reached_subset_union hitem)
        (List.Subset.refl _)
      exact ih _ _ _ (by omega) hinner h (hbc' _ hitem)
    | shape h =>
      cases h with
      | list _ hr _ => cases hr
  | shape hbc' =>
    cases compares_of_isSubtype hchain.left hchain.middle hab with
    | refl => exact hbc
    | never => exact hnever rfl
    | unionLeft h => exact hunion _ rfl h
    | shape h =>
      exact isSubtype_of_compares hchain.right (.shape (shape_trans ih hsize hchain h hbc'))
    | dynamic | term | unionRight =>
      cases hbc' with
      | list hl _ _ => cases hl

end Cases

theorem isSubtype_trans {a b c : Ty} (hchain : Chained a b c) (hab : IsSubtype a b)
    (hbc : IsSubtype b c) : IsSubtype a c := by
  have hbelow : ∀ n, TransitiveBelow n := by
    intro n
    induction n with
    | zero => exact fun a b c hsize => absurd hsize (Nat.not_lt_zero _)
    | succ n ih =>
      exact fun a b c hsize hchain hab hbc =>
        transitive_step ih (Nat.le_of_lt_succ hsize) hchain hab hbc
  exact hbelow _ a b c (Nat.lt_succ_self _) hchain hab hbc

/-! ## The preorder, and the chains that leave it -/

end Terlan.Typeck
