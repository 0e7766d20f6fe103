/- module: Group/Splicing
   source: crates/group/src/rule.rs, crates/group/src/evaluation.rs
   digest: Nested conjunctions and disjunctions spliced into their parents decide every object alike. -/

import RssMdm.Group.Pages
import RssMdm.Group.Refinement

set_option autoImplicit false

namespace RssMdm.Group

open Lib Lib.Fallible Lib.Kleene

variable {TenantId Timepoint Number : Type} [LinearOrder TenantId] [LinearOrder Timepoint]
  [Floating Number]

namespace Criteria

mutual

/-- What a child of an And adds to its children once every And inside it is spliced. -/
def conjunctsOf : Criteria Timepoint Number → List (Criteria Timepoint Number)
  | .predicate p => [.predicate p]
  | .membership group negated => [.membership group negated]
  | .and children => conjuncts children
  | .or children => [.or (disjuncts children)]

def disjunctsOf : Criteria Timepoint Number → List (Criteria Timepoint Number)
  | .predicate p => [.predicate p]
  | .membership group negated => [.membership group negated]
  | .and children => [.and (conjuncts children)]
  | .or children => disjuncts children

def conjuncts : List (Criteria Timepoint Number) → List (Criteria Timepoint Number)
  | [] => []
  | c :: rest => conjunctsOf c ++ conjuncts rest

def disjuncts : List (Criteria Timepoint Number) → List (Criteria Timepoint Number)
  | [] => []
  | c :: rest => disjunctsOf c ++ disjuncts rest

end

/-- Every And directly inside an And and every Or directly inside an Or spliced into its parent. -/
def spliced : Criteria Timepoint Number → Criteria Timepoint Number
  | .predicate p => .predicate p
  | .membership group negated => .membership group negated
  | .and children => .and (conjuncts children)
  | .or children => .or (disjuncts children)

end Criteria

section

theorem countAll_append (xs ys : List (Criteria Timepoint Number)) :
    Criteria.countAll (xs ++ ys) = Criteria.countAll xs + Criteria.countAll ys := by
  induction xs with
  | nil => simp [Criteria.countAll]
  | cons _ _ ih => simp [Criteria.countAll, ih, Nat.add_assoc]

theorem leafCountAll_append (xs ys : List (Criteria Timepoint Number)) :
    leafCountAll (xs ++ ys) = leafCountAll xs + leafCountAll ys := by
  induction xs with
  | nil => simp [leafCountAll]
  | cons _ _ ih => simp [leafCountAll, ih, Nat.add_assoc]

theorem depthAll_append (xs ys : List (Criteria Timepoint Number)) :
    Criteria.depthAll (xs ++ ys) = max (Criteria.depthAll xs) (Criteria.depthAll ys) := by
  induction xs with
  | nil => simp [Criteria.depthAll]
  | cons _ _ ih => simp [Criteria.depthAll, ih, Nat.max_assoc]

theorem meanings_append (v : Valuation Timepoint Number) (xs ys : List (Criteria Timepoint Number)) :
    Criteria.meanings v (xs ++ ys) = Criteria.meanings v xs ++ Criteria.meanings v ys := by
  induction xs with
  | nil => rfl
  | cons _ _ ih => rw [List.cons_append, Criteria.meanings, ih, Criteria.meanings, List.cons_append]

theorem validateAll_append (fields : OrdMap String Field) (v : Validation)
    (xs ys : List (Criteria Timepoint Number)) :
    validateAll fields v (xs ++ ys) = validateAll fields v xs >>= fun v => validateAll fields v ys := by
  induction xs generalizing v with
  | nil => rfl
  | cons c _ ih =>
    rw [List.cons_append, validateAll, validateAll]
    cases validate fields v c with
    | error => rfl
    | ok v' => exact ih v'

theorem collectGroupsAll_append (out : OrdSet String) (xs ys : List (Criteria Timepoint Number)) :
    Criteria.collectGroupsAll out (xs ++ ys) =
      Criteria.collectGroupsAll (Criteria.collectGroupsAll out xs) ys := by
  induction xs generalizing out with
  | nil => rfl
  | cons _ _ ih => rw [List.cons_append, Criteria.collectGroupsAll, ih, Criteria.collectGroupsAll]

/-- A list of children that stands for another one below an operator of the given meaning. -/
structure StandsFor (F : List Truth → Truth) (old new : List (Criteria Timepoint Number)) : Prop where
  meaning (v : Valuation Timepoint Number) :
    F (Criteria.meanings v new) = F (Criteria.meanings v old)
  count : Criteria.countAll new ≤ Criteria.countAll old
  leaves : leafCountAll new = leafCountAll old
  depth : Criteria.depthAll new ≤ Criteria.depthAll old
  validate (fields : OrdMap String Field) (v : Validation) :
    validateAll fields v new = validateAll fields v old
  groups (out : OrdSet String) :
    Criteria.collectGroupsAll out new = Criteria.collectGroupsAll out old
  length : old.length ≤ new.length

theorem StandsFor.refl (F : List Truth → Truth) (children : List (Criteria Timepoint Number)) :
    StandsFor F children children where
  meaning _ := rfl
  count := le_rfl
  leaves := rfl
  depth := le_rfl
  validate _ _ := rfl
  groups _ := rfl
  length := le_rfl

variable {old new : List (Criteria Timepoint Number)} {F : List Truth → Truth}

theorem StandsFor.append {combine : Truth → Truth → Truth}
    (appends : ∀ xs ys, F (xs ++ ys) = combine (F xs) (F ys))
    {old' new' : List (Criteria Timepoint Number)} (h : StandsFor F old new)
    (h' : StandsFor F old' new') : StandsFor F (old ++ old') (new ++ new') where
  meaning v := by
    rw [meanings_append, meanings_append, appends, appends, h.meaning, h'.meaning]
  count := by
    rw [countAll_append, countAll_append]
    exact Nat.add_le_add h.count h'.count
  leaves := by rw [leafCountAll_append, leafCountAll_append, h.leaves, h'.leaves]
  depth := by
    rw [depthAll_append, depthAll_append]
    exact Nat.max_le.mpr ⟨Nat.le_trans h.depth (Nat.le_max_left _ _),
      Nat.le_trans h'.depth (Nat.le_max_right _ _)⟩
  validate fields v := by
    rw [validateAll_append, validateAll_append, h.validate]
    cases validateAll fields v old with
    | error => rfl
    | ok v' => exact h'.validate fields v'
  groups out := by
    rw [collectGroupsAll_append, collectGroupsAll_append, h.groups, h'.groups]
  length := by
    rw [List.length_append, List.length_append]
    exact Nat.add_le_add h.length h'.length

theorem validateAll_singleton (fields : OrdMap String Field) (v : Validation)
    (c : Criteria Timepoint Number) : validateAll fields v [c] = validate fields v c := by
  rw [validateAll]
  cases validate fields v c <;> rfl

/-- What an operator node is depends on the list of its children alone. -/
structure Joins (G : List Truth → Truth)
    (join : List (Criteria Timepoint Number) → Criteria Timepoint Number) : Prop where
  meaning : ∀ v cs, (join cs).meaning v = G (Criteria.meanings v cs)
  count : ∀ cs, (join cs).count = 1 + Criteria.countAll cs
  leaves : ∀ cs, leafCount (join cs) = leafCountAll cs
  depth : ∀ cs, (join cs).depth = 1 + Criteria.depthAll cs
  validate : ∀ fields v cs, validate fields v (join cs) = validateAll fields v cs
  groups : ∀ out cs, (join cs).collectGroups out = Criteria.collectGroupsAll out cs

theorem joins_and : Joins Truth.allOf (@Criteria.and Timepoint Number _ _) := by
  constructor <;> intros <;> rfl

theorem joins_or : Joins Truth.anyOf (@Criteria.or Timepoint Number _ _) := by
  constructor <;> intros <;> rfl

variable {G : List Truth → Truth} {join : List (Criteria Timepoint Number) → Criteria Timepoint Number}

theorem StandsFor.node (joins : Joins G join) (single : ∀ t, F [t] = t) (h : StandsFor G old new) :
    StandsFor F [join old] [join new] where
  meaning v := by
    simp only [Criteria.meanings, single, joins.meaning, h.meaning]
  count := by
    simp only [Criteria.countAll, joins.count]
    have := h.count
    omega
  leaves := by simp only [leafCountAll, joins.leaves, h.leaves]
  depth := by
    simp only [Criteria.depthAll, joins.depth]
    have := h.depth
    omega
  validate fields v := by
    rw [validateAll_singleton, validateAll_singleton, joins.validate, joins.validate]
    exact h.validate fields v
  groups out := by
    simp only [Criteria.collectGroupsAll, joins.groups]
    exact h.groups out
  length := Nat.le_refl 1

theorem StandsFor.inner (joins : Joins G join) (single : ∀ t, G [t] = t) (one : 1 ≤ old.length)
    (h : StandsFor G old new) : StandsFor G [join old] new where
  meaning v := by
    simp only [h.meaning, Criteria.meanings, single, joins.meaning]
  count := by
    simp only [Criteria.countAll, joins.count]
    have := h.count
    omega
  leaves := by simp only [leafCountAll, joins.leaves, h.leaves, Nat.add_zero]
  depth := by
    simp only [Criteria.depthAll, joins.depth]
    have := h.depth
    omega
  validate fields v := by
    rw [validateAll_singleton, joins.validate]
    exact h.validate fields v
  groups out := by
    simp only [Criteria.collectGroupsAll, joins.groups]
    exact h.groups out
  length := one.trans h.length

mutual

def Criteria.Full : Criteria Timepoint Number → Prop
  | .predicate _ => True
  | .membership _ _ => True
  | .and children => 1 ≤ children.length ∧ Criteria.FullAll children
  | .or children => 1 ≤ children.length ∧ Criteria.FullAll children

def Criteria.FullAll : List (Criteria Timepoint Number) → Prop
  | [] => True
  | c :: rest => c.Full ∧ Criteria.FullAll rest

end

mutual

theorem standsFor_operands : ∀ c : Criteria Timepoint Number, c.Full →
    StandsFor Truth.allOf [c] c.conjunctsOf ∧ StandsFor Truth.anyOf [c] c.disjunctsOf
  | .predicate _, _ | .membership _ _, _ => ⟨.refl _ _, .refl _ _⟩
  | .and children, ⟨one, full⟩ => by
      obtain ⟨inside, -⟩ := standsFor_children children full
      exact ⟨.inner joins_and Truth.allOf_singleton one inside, .node joins_and Truth.anyOf_singleton inside⟩
  | .or children, ⟨one, full⟩ => by
      obtain ⟨-, inside⟩ := standsFor_children children full
      exact ⟨.node joins_or Truth.allOf_singleton inside,
        .inner joins_or Truth.anyOf_singleton one inside⟩

theorem standsFor_children : ∀ cs : List (Criteria Timepoint Number), Criteria.FullAll cs →
    StandsFor Truth.allOf cs (Criteria.conjuncts cs) ∧
      StandsFor Truth.anyOf cs (Criteria.disjuncts cs)
  | [], _ => ⟨.refl _ _, .refl _ _⟩
  | c :: rest, ⟨first, more⟩ => by
      obtain ⟨one, one'⟩ := standsFor_operands c first
      obtain ⟨all, all'⟩ := standsFor_children rest more
      exact ⟨one.append Truth.allOf_append all, one'.append Truth.anyOf_append all'⟩

end

theorem standsFor_spliced (single : ∀ t, F [t] = t) (c : Criteria Timepoint Number)
    (full : c.Full) :
    StandsFor F [c] [c.spliced] := by
  cases c with
  | predicate | membership => exact .refl _ _
  | and children => exact .node joins_and single (standsFor_children children full.2).1
  | or children => exact .node joins_or single (standsFor_children children full.2).2

end

variable {r : Rule Timepoint Number TenantId} {dictionaryVersion version : String}
  {fields : List Field}

omit [LinearOrder TenantId] in
theorem Rule.new_eq_ok {tenant : TenantId} {criteria : Criteria Timepoint Number} :
    Rule.new tenant version dictionaryVersion fields criteria = .ok r ↔
      compile version dictionaryVersion fields criteria = .ok (r.fields, r.required) ∧
        r.tenant = tenant ∧ r.version = version ∧ r.dictionaryVersion = dictionaryVersion ∧
        r.criteria = criteria := by
  unfold Rule.new
  split
  · rename_i e failed
    rw [failed]
    simp
  rename_i dictionary required compiled
  constructor
  · intro h
    cases h
    exact ⟨compiled, rfl, rfl, rfl, rfl⟩
  · obtain ⟨tenant', version', dictionaryVersion', fields', criteria', required', typed, reads⟩ := r
    rintro ⟨again, rfl, rfl, rfl, rfl⟩
    cases compiled.symm.trans again
    rfl

variable {c : Criteria Timepoint Number}

theorem compile_congr {c' : Criteria Timepoint Number}
    (same : ∀ fields v, validate fields v c' = validate fields v c) :
    compile version dictionaryVersion fields c' = compile version dictionaryVersion fields c := by
  unfold compile
  simp only [same]

/-- What a rule costs and says does not exceed another one. -/
structure Lighter (r r' : Rule Timepoint Number TenantId) : Prop where
  tenant : r'.tenant = r.tenant
  version : r'.version = r.version
  dictionaryVersion : r'.dictionaryVersion = r.dictionaryVersion
  fields : r'.fields = r.fields
  required : r'.required = r.required
  groups : r'.groups = r.groups
  count : r'.criteria.count ≤ r.criteria.count
  leaves : leafCount r'.criteria = leafCount r.criteria
  meaning : ∀ v, r'.criteria.meaning v = r.criteria.meaning v

theorem LimitKind.product_le {kind : LimitKind} {a m n : Nat} (le : m ≤ n)
    (h : kind.product a n = .ok ()) : kind.product a m = .ok () := by
  have swap : ∀ b, kind.product a b = kind.product b a := by
    intro b
    rw [LimitKind.product, LimitKind.product, Nat.mul_comm]
  rw [swap] at h ⊢
  exact LimitKind.product_mono le h

variable {r' : Rule Timepoint Number TenantId} {s : PageInput TenantId Timepoint Number}

theorem Lighter.admission (h : Lighter r r') (admitted : admission r s = .ok ()) :
    admission r' s = .ok () := by
  have page : admitPage r' s = admitPage r s := by
    simp only [admitPage, h.required, h.tenant]
  have input : ∀ b, admitInput r' s b = admitInput r s b := by
    intro b
    simp only [admitInput, h.tenant, h.dictionaryVersion, h.fields]
  have context : admitContext r' s.coverage = admitContext r s.coverage := by
    funext b context
    simp only [admitContext, h.fields]
  have object : ∀ p o p', admitObject r s.tenant s.coverage p o = .ok p' →
      admitObject r' s.tenant s.coverage p o = .ok p' := by
    intro p o p' fits
    obtain ⟨p₁, header, rest⟩ := of_bind fits
    obtain ⟨⟨tenant, groups, one⟩, spent, contexts, small, visits, explanations⟩ :=
      admitHeader_eq_ok.mp header
    have header' : admitHeader r' s.tenant p o = .ok p₁ :=
      admitHeader_eq_ok.mpr ⟨⟨tenant, h.groups ▸ groups, one⟩, spent, contexts, small,
        LimitKind.product_le h.count visits, h.leaves ▸ explanations⟩
    refine bind_eq_ok.mpr ⟨p₁, header', ?_⟩
    rw [context]
    exact rest
  unfold Group.admission at admitted ⊢
  obtain ⟨shaped, admitted⟩ := of_check admitted
  obtain ⟨b, given, admitted⟩ := of_bind admitted
  obtain ⟨p, objects, -⟩ := of_bind admitted
  rw [page, input]
  exact check_bind_eq_ok.mpr ⟨shaped, bind_eq_ok.mpr ⟨b, given, bind_eq_ok.mpr
    ⟨p, foldlM_ok_imp object objects, rfl⟩⟩⟩

theorem Lighter.evaluatePage (h : Lighter r r') {asOf : Timepoint}
    {e : PageEvaluation TenantId Timepoint} (evaluated : evaluatePage r s asOf = .ok e) :
    ∃ e', evaluatePage r' s asOf = .ok e' ∧
      e'.objects.map (fun o => (o.key, o.decision)) = e.objects.map (fun o => (o.key, o.decision)) := by
  obtain ⟨admitted, rfl⟩ := evaluatePage_eq_ok.mp evaluated
  have admitted' := h.admission admitted
  refine ⟨_, evaluatePage_eq_ok.mpr ⟨admitted', rfl⟩, ?_⟩
  have objects := admission_objects admitted
  have objects' := admission_objects admitted'
  show (s.objects.map (objectEvaluation r')).map _ = (s.objects.map (objectEvaluation r)).map _
  rw [List.map_map, List.map_map]
  refine List.map_congr_left ?_
  intro o mem
  have same := decision_congr h.meaning (objects o mem) (objects' o mem)
  show ((objectEvaluation r' o).key, (objectEvaluation r' o).decision) =
    ((objectEvaluation r o).key, (objectEvaluation r o).decision)
  rw [same]
  rfl

omit [LinearOrder TenantId] in
theorem Rule.new_spliced {tenant : TenantId} (full : c.Full)
    (h : Rule.new tenant version dictionaryVersion fields c = .ok r) :
    ∃ r', Rule.new tenant version dictionaryVersion fields c.spliced = .ok r' ∧ Lighter r r' := by
  obtain ⟨compiled, rfl, rfl, rfl, rfl⟩ := Rule.new_eq_ok.mp h
  have stands := standsFor_spliced Truth.allOf_singleton r.criteria full
  have valid : ∀ fields v, validate fields v r.criteria.spliced = validate fields v r.criteria := by
    intro fields v
    have same := stands.validate fields v
    rwa [validateAll_singleton, validateAll_singleton] at same
  have compiled' : compile r.version r.dictionaryVersion fields r.criteria.spliced =
      .ok (r.fields, r.required) := (compile_congr valid).trans compiled
  let r' : Rule Timepoint Number TenantId :=
    { r with
      criteria := r.criteria.spliced
      typed := (compile_eq_ok compiled').1
      reads := (compile_eq_ok compiled').2 }
  refine ⟨r', Rule.new_eq_ok.mpr ⟨compiled', rfl, rfl, rfl, rfl⟩, rfl, rfl, rfl, rfl, rfl, ?_, ?_, ?_, ?_⟩
  · exact stands.groups .empty
  · exact stands.count
  · exact stands.leaves
  · intro v
    have same := stands.meaning v
    simpa only [Criteria.meanings, Truth.allOf_singleton] using same

end RssMdm.Group
