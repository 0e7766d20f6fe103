/- module: Group/Refinement
   source: crates/group/src/evaluation.rs
   digest: Decisions survive more evidence and do not depend on the order of children. -/

import Mathlib.Algebra.BigOperators.Group.List.Basic
import RssMdm.Group.Admission

set_option autoImplicit false

namespace RssMdm.Group

open Lib Lib.Fallible Lib.Kleene Lib.Outcome
open List (map_append map_cons)

variable {TenantId Timepoint Number : Type} [LinearOrder TenantId] [LinearOrder Timepoint]
  [Floating Number]

def FactState.absent : FactState Timepoint Number → Prop
  | .missing | .deleted | .conflict | .unsupported => True
  | _ => False

def FactState.settled : FactState Timepoint Number → Prop
  | .known _ | .null => True
  | _ => False

/-- An absent value may be settled; everything else that is evaluated stays. -/
def FactRefines (f f' : Fact Timepoint Number) : Prop :=
  f.state = f'.state ∨ (f.state.absent ∧ f'.state.settled)

def OutcomeRefines (o o' : Outcome) : Prop :=
  o = o' ∨ ((∃ reason, o = .unknown reason) ∧ (o' = .isMatch ∨ o' = .noMatch))

def FactsRefine (facts facts' : Facts Timepoint Number) : Prop :=
  ∀ key, Option.Rel FactRefines (facts.get? key) (facts'.get? key)

/-- More evidence about one object. Contexts may be added, and the enumeration completed, where the
first object quantifies over contexts that were not completely enumerated. -/
structure ObjectRefines (o o' : ObjectSnapshot TenantId Timepoint Number) : Prop where
  key : o'.key = o.key
  quantifier : o'.quantifier = o.quantifier
  memberships : ∀ group,
    Option.Rel OutcomeRefines (o.memberships.get? group) (o'.memberships.get? group)
  contexts : ∀ id facts, o.contexts.get? id = some facts →
    ∃ facts', o'.contexts.get? id = some facts' ∧ FactsRefine facts facts'
  added : (o.quantifier ≠ .one ∧ o.complete = false) ∨
    (o'.complete = o.complete ∧ ∀ id, o.contexts.get? id = none → o'.contexts.get? id = none)

variable {f : Fact Timepoint Number}

theorem predicate_congr {f' : Fact Timepoint Number} (h : f.state = f'.state) (op : Op)
    (operand : Option (Value Timepoint Number)) :
    predicate (some f) op operand = predicate (some f') op operand := by
  simp only [predicate, h]

theorem predicate_absent (h : f.state.absent) (op : Op)
    (operand : Option (Value Timepoint Number)) :
    ∃ reason, predicate (some f) op operand = .ok (.unknown reason) := by
  simp only [predicate]
  cases state : f.state with
  | known | null | denied =>
    rw [state] at h
    exact absurd h id
  | _ => exact ⟨_, rfl⟩

/-- Leaf by leaf, the second valuation settles the first. -/
structure Valuation.Refines (v v' : Valuation Timepoint Number) : Prop where
  predicate : ∀ p, Truth.Refines (v.predicate p) (v'.predicate p)
  membership : ∀ group, Truth.Refines (v.membership group) (v'.membership group)

theorem valuation_refines {facts facts' : Facts Timepoint Number}
    {memberships memberships' : OrdMap String Outcome} (evidence : FactsRefine facts facts')
    (groups : ∀ group,
      Option.Rel OutcomeRefines (memberships.get? group) (memberships'.get? group)) :
    (valuation facts memberships).Refines (valuation facts' memberships') := by
  constructor
  · intro p
    have related := evidence p.field
    simp only [valuation]
    generalize facts.get? p.field = fact at related ⊢
    generalize facts'.get? p.field = fact' at related ⊢
    cases related with
    | none => exact .self
    | some refines =>
      rcases refines with same | ⟨absent, -⟩
      · rw [predicate_congr same]
        exact .self
      · obtain ⟨reason, unknown⟩ := predicate_absent absent p.op (p.operand.map Operand.value)
        rw [unknown]
        exact .inl rfl
  · intro group
    have related := groups group
    simp only [valuation]
    generalize memberships.get? group = outcome at related ⊢
    generalize memberships'.get? group = outcome' at related ⊢
    cases related with
    | none => exact .self
    | some refines =>
      rcases refines with rfl | ⟨⟨reason, rfl⟩, -⟩
      · exact .self
      · exact .inl rfl

mutual

theorem meaning_refines {v v' : Valuation Timepoint Number} (h : v.Refines v')
    (c : Criteria Timepoint Number) : Truth.Refines (c.meaning v) (c.meaning v') := by
  match c with
  | .predicate p =>
    exact h.predicate p
  | .membership group negated =>
    simp only [Criteria.meaning]
    split
    · exact (h.membership group).not
    · exact h.membership group
  | .and children =>
    exact .allOf (meanings_refine h children)
  | .or children =>
    exact .anyOf (meanings_refine h children)

theorem meanings_refine {v v' : Valuation Timepoint Number} (h : v.Refines v')
    (cs : List (Criteria Timepoint Number)) :
    List.Forall₂ Truth.Refines (Criteria.meanings v cs) (Criteria.meanings v' cs) := by
  match cs with
  | [] =>
    exact .nil
  | c :: rest =>
    exact .cons (meaning_refines h c) (meanings_refine h rest)

end

section

/-- What the checks of an object establish about it. -/
structure Admitted (r : Rule Timepoint Number TenantId)
    (o : ObjectSnapshot TenantId Timepoint Number) : Prop where
  named : ∀ group, r.criteria.Names group → group ∈ o.memberships.keys
  one : o.quantifier = .one → o.contexts.size = 1 ∧ o.complete = true
  fit : ∀ id facts, o.contexts.get? id = some facts → FactsFit r.fields facts

variable {r : Rule Timepoint Number TenantId} {o : ObjectSnapshot TenantId Timepoint Number}

theorem admitObject_admitted {tenant : TenantId} {coverage : OrdSet String} {p p' : Progress}
    (h : admitObject r tenant coverage p o = .ok p') : Admitted r o := by
  obtain ⟨p₁, header, h⟩ := of_bind h
  obtain ⟨b, contexts, -⟩ := of_bind h
  obtain ⟨named, one⟩ := admitHeader_covers header
  refine ⟨named, one, ?_⟩
  intro id facts found
  exact foldlM_ok_each (P := fun context : String × Facts Timepoint Number =>
    FactsFit r.fields context.2) (fun _ _ _ h => admitContext_fit h) _ contexts (id, facts)
    (OrdMap.get?_eq_some.mp found)

theorem admission_objects {s : PageInput TenantId Timepoint Number} (h : admission r s = .ok ()) :
    ∀ o ∈ s.objects, Admitted r o := by
  obtain ⟨-, h⟩ := of_check h
  obtain ⟨b, -, h⟩ := of_bind h
  obtain ⟨p, objects, -⟩ := of_bind h
  exact foldlM_ok_each (fun _ _ _ h => admitObject_admitted h) _ objects

omit [LinearOrder TenantId] in
theorem contextEvaluation_truth (admitted : Admitted r o) {id : String}
    {facts : Facts Timepoint Number} (found : o.contexts.get? id = some facts) :
    (contextEvaluation r o.memberships facts).decision.truth =
      r.criteria.meaning (valuation facts o.memberships) := by
  obtain ⟨decision, explanations, returned, truth⟩ := evaluateNode_returns
    (admitted.fit id facts found) r.criteria r.typed admitted.named [] []
  rw [contextEvaluation, returned]
  exact truth

def decisionAt (r : Rule Timepoint Number TenantId) (o : ObjectSnapshot TenantId Timepoint Number)
    (id : String) : Option Decision :=
  ((contextEvaluations r o).get? id).map ContextEvaluation.decision

omit [LinearOrder TenantId] in
theorem decisionAt_eq (r : Rule Timepoint Number TenantId)
    (o : ObjectSnapshot TenantId Timepoint Number) (id : String) :
    decisionAt r o id =
      (o.contexts.get? id).map (fun facts => (contextEvaluation r o.memberships facts).decision) := by
  rw [decisionAt, contextEvaluations, OrdMap.get?_mapValues, Option.map_map]
  rfl

omit [LinearOrder TenantId] in
theorem any_decision (r : Rule Timepoint Number TenantId)
    (o : ObjectSnapshot TenantId Timepoint Number) (d : Decision) :
    (contextEvaluations r o).values.any (fun c => c.decision = d) = true ↔
      ∃ id, decisionAt r o id = some d := by
  rw [OrdMap.any_values]
  simp only [decisionAt, Option.map_eq_some_iff, decide_eq_true_eq]

omit [LinearOrder TenantId] in
theorem no_context (r : Rule Timepoint Number TenantId)
    (o : ObjectSnapshot TenantId Timepoint Number) :
    (contextEvaluations r o).entries.isEmpty = true ↔ ∀ id, decisionAt r o id = none := by
  rw [List.isEmpty_iff, OrdMap.entries_eq_nil]
  simp only [decisionAt, Option.map_eq_none_iff]

/-- A decision other than unknown rests on one deciding context, or on all contexts of a complete
enumeration when the quantifier needs every one of them. -/
def Settled (r : Rule Timepoint Number TenantId) (o : ObjectSnapshot TenantId Timepoint Number)
    (d : Decision) : Prop :=
  if (o.quantifier = .any ∧ d = .noMatch) ∨ (o.quantifier = .all ∧ d = .isMatch) then
    o.complete = true ∧ (∃ id, decisionAt r o id ≠ none) ∧
      ∀ id d', decisionAt r o id = some d' → d' = d
  else ∃ id, decisionAt r o id = some d

omit [LinearOrder TenantId] in
theorem decision_one (quantifier : o.quantifier = .one) (size : o.contexts.size = 1)
    (d : Decision) :
    (objectEvaluation r o).decision = d ↔ ∃ id, decisionAt r o id = some d := by
  have length : (contextEvaluations r o).entries.length = 1 := by
    simpa [contextEvaluations, OrdMap.mapValues, OrdMap.size] using size
  obtain ⟨⟨id, c⟩, entries⟩ := List.length_eq_one_iff.mp length
  have decision : (objectEvaluation r o).decision = c.decision := by
    simp [objectEvaluation, quantified, quantifier, OrdMap.values, entries, Except.toOption]
  rw [decision]
  simp only [decisionAt, Option.map_eq_some_iff, OrdMap.get?_eq_some, entries]
  constructor
  · intro same
    exact ⟨id, c, List.mem_singleton.mpr rfl, same⟩
  · rintro ⟨id', c', member, same⟩
    cases List.mem_singleton.mp member
    exact same

/-- The enumeration is incomplete or empty, or a context is undecided. -/
def undecided (r : Rule Timepoint Number TenantId)
    (o : ObjectSnapshot TenantId Timepoint Number) : Bool :=
  !o.complete || (contextEvaluations r o).entries.isEmpty ||
    (contextEvaluations r o).values.any (fun c => c.decision = .unknown)

variable {d : Decision}

omit [LinearOrder TenantId] in
/-- Without a context of the one decision, everything is decided exactly when every context of a
complete enumeration has the other. -/
theorem undecided_eq_false {d' : Decision} (other : ∀ e, e = d ∨ e = d' ∨ e = .unknown)
    (definite : d' ≠ .unknown) (differ : d ≠ d') :
    (¬(∃ id, decisionAt r o id = some d) ∧ undecided r o = false) ↔
      o.complete = true ∧ (∃ id, decisionAt r o id ≠ none) ∧
        ∀ id e, decisionAt r o id = some e → e = d' := by
  rw [undecided, Bool.or_eq_false_iff, Bool.or_eq_false_iff, Bool.not_eq_false', ← Bool.not_eq_true,
    no_context, ← Bool.not_eq_true, any_decision]
  constructor
  · rintro ⟨without, ⟨complete, present⟩, known⟩
    refine ⟨complete, not_forall.mp present, ?_⟩
    intro id e found
    rcases other e with rfl | rfl | rfl
    · exact absurd ⟨id, found⟩ without
    · rfl
    · exact absurd ⟨id, found⟩ known
  · rintro ⟨complete, ⟨id, present⟩, all⟩
    refine ⟨?_, ⟨complete, not_forall.mpr ⟨id, present⟩⟩, ?_⟩
    · rintro ⟨id', found⟩
      exact differ (all id' d found)
    · rintro ⟨id', found⟩
      exact definite (all id' .unknown found).symm

omit [LinearOrder TenantId] in
theorem decision_iff_settled (admitted : Admitted r o) (definite : d ≠ .unknown) :
    (objectEvaluation r o).decision = d ↔ Settled r o d := by
  unfold Settled
  cases quantifier : o.quantifier with
  | one =>
    exact decision_one quantifier (admitted.one quantifier).1 d
  | any =>
    have decision : (objectEvaluation r o).decision =
        if (contextEvaluations r o).values.any (fun c => c.decision = .isMatch) then .isMatch
        else if undecided r o then .unknown else .noMatch := by
      simp [objectEvaluation, quantified, quantifier, undecided, Except.toOption]
    cases d with
    | isMatch =>
      rw [if_neg (by simp), ← any_decision, decision]
      generalize (contextEvaluations r o).values.any _ = found
      cases found <;> cases undecided r o <;> simp
    | noMatch =>
      rw [if_pos (by simp), ← undecided_eq_false (d := .isMatch) (by rintro ⟨⟩ <;> simp)
        (by simp) (by simp), ← any_decision, decision]
      generalize (contextEvaluations r o).values.any _ = found
      cases found <;> cases undecided r o <;> simp
    | unknown => exact absurd rfl definite
  | all =>
    have decision : (objectEvaluation r o).decision =
        if (contextEvaluations r o).values.any (fun c => c.decision = .noMatch) then .noMatch
        else if undecided r o then .unknown else .isMatch := by
      simp [objectEvaluation, quantified, quantifier, undecided, Except.toOption]
    cases d with
    | noMatch =>
      rw [if_neg (by simp), ← any_decision, decision]
      generalize (contextEvaluations r o).values.any _ = found
      cases found <;> cases undecided r o <;> simp
    | isMatch =>
      rw [if_pos (by simp), ← undecided_eq_false (d := .noMatch) (by rintro ⟨⟩ <;> simp)
        (by simp) (by simp), ← any_decision, decision]
      generalize (contextEvaluations r o).values.any _ = found
      cases found <;> cases undecided r o <;> simp
    | unknown => exact absurd rfl definite

omit [LinearOrder TenantId] in
theorem decisionAt_refines {o' : ObjectSnapshot TenantId Timepoint Number} (admitted : Admitted r o)
    (admitted' : Admitted r o') (refines : ObjectRefines o o') {id : String}
    (definite : d ≠ .unknown) (found : decisionAt r o id = some d) :
    decisionAt r o' id = some d := by
  rw [decisionAt_eq, Option.map_eq_some_iff] at found
  obtain ⟨facts, found, rfl⟩ := found
  obtain ⟨facts', found', evidence⟩ := refines.contexts id facts found
  rw [decisionAt_eq, found', Option.map_some, Option.some.injEq]
  apply Decision.truth_injective
  have monotone := meaning_refines (valuation_refines evidence refines.memberships) r.criteria
  rw [← contextEvaluation_truth admitted found, ← contextEvaluation_truth admitted' found'] at monotone
  rcases monotone with unknown | same
  · exact absurd (Decision.truth_injective (unknown.trans (show Truth.unknown =
      Decision.unknown.truth from rfl))) definite
  · exact same.symm

omit [LinearOrder TenantId] in
theorem Settled.refines {r : Rule Timepoint Number TenantId}
    {o o' : ObjectSnapshot TenantId Timepoint Number} (admitted : Admitted r o)
    (admitted' : Admitted r o') (refines : ObjectRefines o o') {d : Decision}
    (definite : d ≠ .unknown) (settled : Settled r o d) : Settled r o' d := by
  unfold Settled at settled ⊢
  rw [refines.quantifier]
  split_ifs at settled ⊢
  · obtain ⟨complete, ⟨id, present⟩, every⟩ := settled
    have same : o'.complete = o.complete ∧
        ∀ id, o.contexts.get? id = none → o'.contexts.get? id = none := by
      rcases refines.added with ⟨-, incomplete⟩ | same
      · cases complete.symm.trans incomplete
      · exact same
    refine ⟨same.1.trans complete, ?_, ?_⟩
    · obtain ⟨e, found⟩ := Option.ne_none_iff_exists'.mp present
      obtain rfl := every id e found
      refine ⟨id, ?_⟩
      rw [decisionAt_refines admitted admitted' refines definite found]
      exact Option.some_ne_none _
    · intro id' d' found'
      have before : decisionAt r o id' ≠ none := by
        intro none
        rw [decisionAt_eq, Option.map_eq_none_iff] at none
        rw [decisionAt_eq, same.2 id' none] at found'
        cases found'
      obtain ⟨e, found⟩ := Option.ne_none_iff_exists'.mp before
      obtain rfl := every id' e found
      have after := decisionAt_refines admitted admitted' refines definite found
      exact Option.some.inj (found'.symm.trans after)
  · obtain ⟨id, found⟩ := settled
    exact ⟨id, decisionAt_refines admitted admitted' refines definite found⟩

end

/-- The same tree with the children of some nodes in another order. -/
inductive Rearranged : Criteria Timepoint Number → Criteria Timepoint Number → Prop where
  | refl (c : Criteria Timepoint Number) : Rearranged c c
  | trans {a b c : Criteria Timepoint Number} : Rearranged a b → Rearranged b c → Rearranged a c
  | and {cs ds : List (Criteria Timepoint Number)} (perm : cs.Perm ds) :
      Rearranged (.and cs) (.and ds)
  | or {cs ds : List (Criteria Timepoint Number)} (perm : cs.Perm ds) : Rearranged (.or cs) (.or ds)
  | andChild {before after : List (Criteria Timepoint Number)} {c d : Criteria Timepoint Number} :
      Rearranged c d → Rearranged (.and (before ++ c :: after)) (.and (before ++ d :: after))
  | orChild {before after : List (Criteria Timepoint Number)} {c d : Criteria Timepoint Number} :
      Rearranged c d → Rearranged (.or (before ++ c :: after)) (.or (before ++ d :: after))

variable {c d : Criteria Timepoint Number}

theorem Rearranged.attribute {β : Type} {a : Criteria Timepoint Number → β} {F G : List β → β}
    (hand : ∀ cs, a (.and cs) = F (cs.map a)) (hor : ∀ cs, a (.or cs) = G (cs.map a))
    (hF : ∀ l l', l.Perm l' → F l = F l') (hG : ∀ l l', l.Perm l' → G l = G l')
    (h : Rearranged c d) :
    a c = a d := by
  induction h with
  | refl => rfl
  | trans _ _ ih ih' => exact ih.trans ih'
  | and perm => rw [hand, hand, hF _ _ (perm.map a)]
  | or perm => rw [hor, hor, hG _ _ (perm.map a)]
  | andChild _ ih => rw [hand, hand, map_append, map_append, map_cons, map_cons, ih]
  | orChild _ ih => rw [hor, hor, map_append, map_append, map_cons, map_cons, ih]

theorem meanings_eq_map (v : Valuation Timepoint Number) (cs : List (Criteria Timepoint Number)) :
    Criteria.meanings v cs = cs.map (Criteria.meaning v) := by
  induction cs with
  | nil => simp [Criteria.meanings]
  | cons _ _ ih => simp [Criteria.meanings, ih]

theorem Rearranged.meaning (h : Rearranged c d) (v : Valuation Timepoint Number) :
    c.meaning v = d.meaning v := by
  refine h.attribute (F := .allOf) (G := .anyOf) ?_ ?_
    (fun _ _ => Truth.allOf_perm) (fun _ _ => Truth.anyOf_perm)
  · intro cs
    rw [Criteria.meaning, meanings_eq_map]
  · intro cs
    rw [Criteria.meaning, meanings_eq_map]

theorem Rearranged.count (h : Rearranged c d) :
    c.count = d.count := by
  have all : ∀ cs : List (Criteria Timepoint Number),
      Criteria.countAll cs = (cs.map Criteria.count).sum := by
    intro cs
    induction cs with
    | nil => simp [Criteria.countAll]
    | cons _ _ ih => simp [Criteria.countAll, ih]
  refine h.attribute (F := fun l => 1 + l.sum) (G := fun l => 1 + l.sum) ?_ ?_
    (fun _ _ perm => by rw [perm.sum_eq]) (fun _ _ perm => by rw [perm.sum_eq])
  · intro cs
    rw [Criteria.count, all]
  · intro cs
    rw [Criteria.count, all]

theorem Rearranged.leafCount (h : Rearranged c d) :
    leafCount c = leafCount d := by
  have all : ∀ cs : List (Criteria Timepoint Number),
      leafCountAll cs = (cs.map Group.leafCount).sum := by
    intro cs
    induction cs with
    | nil => simp [leafCountAll]
    | cons _ _ ih => simp [leafCountAll, ih]
  refine h.attribute (F := List.sum) (G := List.sum) ?_ ?_
    (fun _ _ perm => perm.sum_eq) (fun _ _ perm => perm.sum_eq)
  · intro cs
    rw [Group.leafCount, all]
  · intro cs
    rw [Group.leafCount, all]

theorem or_perm {l l' : List Prop} (perm : l.Perm l') : l.foldr Or False = l'.foldr Or False := by
  induction perm with
  | nil => rfl
  | cons p _ ih => exact congrArg (Or p) ih
  | swap => exact propext or_left_comm
  | trans _ _ ih ih' => exact ih.trans ih'

theorem Rearranged.names (h : Rearranged c d) (group : String) :
    c.Names group ↔ d.Names group := by
  have any : ∀ cs : List (Criteria Timepoint Number),
      Criteria.NamesAny group cs = (cs.map (Criteria.Names group)).foldr Or False := by
    intro cs
    induction cs with
    | nil => simp [Criteria.NamesAny]
    | cons _ _ ih => simp [Criteria.NamesAny, ih]
  refine iff_of_eq (h.attribute (F := List.foldr Or False) (G := List.foldr Or False) ?_ ?_
    (fun _ _ => or_perm) (fun _ _ => or_perm))
  · intro cs
    rw [Criteria.Names, any]
  · intro cs
    rw [Criteria.Names, any]

theorem Rearranged.reads (h : Rearranged c d) (key : String) :
    c.Reads key ↔ d.Reads key := by
  have any : ∀ cs : List (Criteria Timepoint Number),
      Criteria.ReadsAny key cs = (cs.map (Criteria.Reads key)).foldr Or False := by
    intro cs
    induction cs with
    | nil => simp [Criteria.ReadsAny]
    | cons _ _ ih => simp [Criteria.ReadsAny, ih]
  refine iff_of_eq (h.attribute (F := List.foldr Or False) (G := List.foldr Or False) ?_ ?_
    (fun _ _ => or_perm) (fun _ _ => or_perm))
  · intro cs
    rw [Criteria.Reads, any]
  · intro cs
    rw [Criteria.Reads, any]

structure SameRule (r r' : Rule Timepoint Number TenantId) : Prop where
  tenant : r'.tenant = r.tenant
  version : r'.version = r.version
  dictionaryVersion : r'.dictionaryVersion = r.dictionaryVersion
  fields : r'.fields = r.fields
  criteria : Rearranged r.criteria r'.criteria

variable {r' r : Rule Timepoint Number TenantId}

theorem SameRule.admission (h : SameRule r r') (s : PageInput TenantId Timepoint Number) :
    admission r' s = admission r s := by
  have groups : r'.groups = r.groups := by
    apply OrdSet.ext_keys
    intro group
    rw [Rule.groups, Rule.groups, mem_collectGroups, mem_collectGroups, h.criteria.names]
  have required : r'.required = r.required := by
    apply OrdSet.ext_keys
    intro key
    rw [r'.reads, r.reads, h.criteria.reads]
  have page : admitPage r' s = admitPage r s := by
    simp only [admitPage, required, h.tenant]
  have input : ∀ b, admitInput r' s b = admitInput r s b := by
    intro b
    simp only [admitInput, h.tenant, h.dictionaryVersion, h.fields]
  have header : ∀ p o, admitHeader r' s.tenant p o = admitHeader r s.tenant p o := by
    intro p o
    simp only [admitHeader, groups, h.criteria.count, h.criteria.leafCount]
  have context : admitContext r' s.coverage = admitContext r s.coverage := by
    funext b context
    simp only [admitContext, h.fields]
  have object : admitObject r' s.tenant s.coverage = admitObject r s.tenant s.coverage := by
    funext p o
    simp only [admitObject, header, context]
  simp only [Group.admission, page, input, object]

variable {o : ObjectSnapshot TenantId Timepoint Number}

omit [LinearOrder TenantId] in
theorem decision_congr (same : ∀ v, r'.criteria.meaning v = r.criteria.meaning v)
    (admitted : Admitted r o) (admitted' : Admitted r' o) :
    (objectEvaluation r' o).decision = (objectEvaluation r o).decision := by
  have contexts : ∀ id, decisionAt r' o id = decisionAt r o id := by
    intro id
    rw [decisionAt_eq, decisionAt_eq]
    cases found : o.contexts.get? id with
    | none => rfl
    | some =>
      rw [Option.map_some, Option.map_some, Option.some.injEq]
      apply Decision.truth_injective
      rw [contextEvaluation_truth admitted' found, contextEvaluation_truth admitted found,
        same]
  have settled : ∀ d, Settled r' o d ↔ Settled r o d := by
    intro d
    simp only [Settled, contexts]
  have definite : ∀ d, d ≠ .unknown →
      ((objectEvaluation r' o).decision = d ↔ (objectEvaluation r o).decision = d) := by
    intro d hd
    rw [decision_iff_settled admitted' hd, decision_iff_settled admitted hd, settled]
  have isMatch := definite .isMatch (by simp)
  have noMatch := definite .noMatch (by simp)
  cases first : (objectEvaluation r o).decision with
  | isMatch => exact isMatch.mpr first
  | noMatch => exact noMatch.mpr first
  | unknown =>
    cases second : (objectEvaluation r' o).decision with
    | isMatch => cases first.symm.trans (isMatch.mp second)
    | noMatch => cases first.symm.trans (noMatch.mp second)
    | unknown => rfl

omit [LinearOrder TenantId] in
theorem SameRule.decision (h : SameRule r r') (admitted : Admitted r o)
    (admitted' : Admitted r' o) :
    (objectEvaluation r' o).decision = (objectEvaluation r o).decision :=
  decision_congr (fun v => (h.criteria.meaning v).symm) admitted admitted'

/-- Evaluation is sound three-valued logic: more evidence keeps every decision, and the order of
children decides nothing. -/
theorem evaluatePage_sound (r : Rule Timepoint Number TenantId) :
    (∀ (s s' : PageInput TenantId Timepoint Number) (asOf asOf' : Timepoint)
      (e e' : PageEvaluation TenantId Timepoint), evaluatePage r s asOf = .ok e →
      evaluatePage r s' asOf' = .ok e' → List.Forall₂ ObjectRefines s.objects s'.objects →
      List.Forall₂ (fun o o' => o'.key = o.key ∧
        (o.decision = .isMatch → o'.decision = .isMatch) ∧
        (o.decision = .noMatch → o'.decision = .noMatch)) e.objects e'.objects) ∧
    ∀ (r' : Rule Timepoint Number TenantId), SameRule r r' →
      ∀ (s : PageInput TenantId Timepoint Number) (asOf : Timepoint),
        (∃ e e', evaluatePage r s asOf = .ok e ∧ evaluatePage r' s asOf = .ok e' ∧
          e.objects.map (fun o => (o.key, o.decision)) =
            e'.objects.map (fun o => (o.key, o.decision))) ∨
        ∃ e, evaluatePage r s asOf = .error (.error e) ∧ evaluatePage r' s asOf = .error (.error e) := by
  constructor
  · intro s s' asOf asOf' e e' first second refine
    obtain ⟨admitted, rfl⟩ := evaluatePage_eq_ok.mp first
    obtain ⟨admitted', rfl⟩ := evaluatePage_eq_ok.mp second
    have objects := admission_objects admitted
    have objects' := admission_objects admitted'
    simp only [pageEvaluation]
    generalize s.objects = os at refine objects ⊢
    generalize s'.objects = os' at refine objects' ⊢
    rw [List.forall₂_map_left_iff, List.forall₂_map_right_iff]
    induction refine with
    | nil => exact .nil
    | @cons o o' _ _ head _ ih =>
      have here := objects o List.mem_cons_self
      have here' := objects' o' List.mem_cons_self
      have keeps : ∀ d, d ≠ .unknown → (objectEvaluation r o).decision = d →
          (objectEvaluation r o').decision = d := by
        intro d definite decided
        rw [decision_iff_settled here definite] at decided
        rw [decision_iff_settled here' definite]
        exact decided.refines here here' head definite
      refine .cons ⟨head.key, keeps .isMatch (by simp), keeps .noMatch (by simp)⟩ ?_
      exact ih (fun x hx => objects x (List.mem_cons_of_mem _ hx))
        (fun x hx => objects' x (List.mem_cons_of_mem _ hx))
  · intro r' same s asOf
    cases admitted : admission r s with
    | error e =>
      right
      refine ⟨e, ?_, ?_⟩
      · rw [evaluatePage_eq, admitted]
        rfl
      · rw [evaluatePage_eq, same.admission, admitted]
        rfl
    | ok =>
      left
      have admitted' := (same.admission s).trans admitted
      refine ⟨_, _, evaluatePage_eq_ok.mpr ⟨admitted, rfl⟩,
        evaluatePage_eq_ok.mpr ⟨admitted', rfl⟩, ?_⟩
      simp only [pageEvaluation, List.map_map]
      apply List.map_congr_left
      intro o ho
      have decision := same.decision (admission_objects admitted o ho) (admission_objects admitted' o ho)
      simp only [Function.comp_apply, decision]
      rfl

end RssMdm.Group
