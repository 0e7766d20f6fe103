/- module: Group/Admission
   source: crates/group/src/evaluation.rs
   digest: A page is admitted by checks alone and then evaluated object by object; no admitted page
   reaches a panic. -/

import RssMdm.Group.Evaluation
import RssMdm.Lib.Kleene

set_option autoImplicit false

namespace RssMdm.Group

open Lib Lib.Fallible Lib.Kleene Lib.Outcome

variable {TenantId Timepoint Number : Type} [LinearOrder TenantId] [LinearOrder Timepoint]
  [Floating Number]

def Decision.truth : Decision → Truth
  | .isMatch => .yes
  | .noMatch => .no
  | .unknown => .unknown

theorem Decision.truth_injective : Function.Injective Decision.truth := by
  rintro ⟨⟩ ⟨⟩ h <;> first | rfl | cases h

/-- The truth of each leaf of a tree. -/
structure Valuation (Timepoint Number : Type) [LinearOrder Timepoint] [Floating Number] where
  predicate : Predicate Timepoint Number → Truth
  membership : String → Truth

mutual

/-- The three-valued meaning of a tree. -/
def Criteria.meaning (v : Valuation Timepoint Number) : Criteria Timepoint Number → Truth
  | .predicate p => v.predicate p
  | .membership group negated => if negated then (v.membership group).not else v.membership group
  | .and children => Truth.allOf (Criteria.meanings v children)
  | .or children => Truth.anyOf (Criteria.meanings v children)

def Criteria.meanings (v : Valuation Timepoint Number) :
    List (Criteria Timepoint Number) → List Truth
  | [] => []
  | c :: rest => c.meaning v :: Criteria.meanings v rest

end

/-- What a context and the memberships of its object say about the leaves. -/
def valuation (facts : Facts Timepoint Number) (memberships : OrdMap String Outcome) :
    Valuation Timepoint Number where
  predicate p := ((predicate (facts.get? p.field) p.op
    (p.operand.map Operand.value)).toOption.getD (.unknown .missing)).decision.truth
  membership group := ((memberships.get? group).getD (.unknown .missing)).decision.truth

theorem combine_and (result value : Decision) :
    (combine .noMatch result value).truth = result.truth.conj value.truth := by
  cases result <;> cases value <;> rfl

theorem combine_or (result value : Decision) :
    (combine .isMatch result value).truth = result.truth.disj value.truth := by
  cases result <;> cases value <;> rfl

theorem membershipOutcome_truth (value : Outcome) (negated : Bool) :
    (membershipOutcome value negated).decision.truth =
      if negated then value.decision.truth.not else value.decision.truth := by
  cases value <;> cases negated <;> rfl

def FactFits (field : Field) (fact : Fact Timepoint Number) : Prop :=
  match fact.state with
  | .known value => value.kind = field.kind
  | .denied => False
  | _ => True

def FactsFit (fields : OrdMap String Field) (facts : Facts Timepoint Number) : Prop :=
  ∀ key fact, facts.get? key = some fact → ∃ field, fields.get? key = some field ∧ FactFits field fact

theorem compareValues_returns {field : Field} {op : Op} {value operand : Value Timepoint Number}
    (allowed : allows field op = true) (fits : value.kind = field.kind)
    (expected : operand.kind = expectedType op field.kind) (notNull : op ≠ .isNull)
    (notNotNull : op ≠ .isNotNull) : ∃ b, compareValues value operand op = .ok b := by
  rw [← fits] at expected
  have kind : field.kind = value.kind := fits.symm
  unfold allows at allowed
  rw [kind] at allowed
  cases op <;> cases value <;> cases operand <;>
    simp_all [Value.kind, expectedType, compareValues]
  case ne.scalar.scalar a b => exact Classical.em (a = b)
  case contains.scalar.scalar a b =>
    cases a <;> simp_all [Scalar.kind]
    cases b <;> simp_all
  case notContains.scalar.scalar a b =>
    cases a <;> simp_all [Scalar.kind]
    cases b <;> simp_all

theorem predicate_returns {p : Predicate Timepoint Number} {field : Field} (typed : p.Typed field)
    {fact : Option (Fact Timepoint Number)} (fits : ∀ f, fact = some f → FactFits field f) :
    ∃ outcome, predicate fact p.op (p.operand.map Operand.value) = .ok outcome := by
  have tests : ∀ value : Option (Value Timepoint Number),
      (∀ v, value = some v → v.kind = field.kind) →
      ∃ outcome, test value p.op (p.operand.map Operand.value) = .ok outcome := by
    intro value kinds
    unfold test
    split
    · exact ⟨_, rfl⟩
    rename_i notNull
    split
    · exact ⟨_, rfl⟩
    rename_i notNotNull
    cases value with
    | none => exact ⟨_, rfl⟩
    | some v =>
      obtain ⟨operand, given, expected⟩ := typed.operand notNull notNotNull
      obtain ⟨b, compared⟩ := compareValues_returns typed.allowed (kinds v rfl) expected
        notNull notNotNull
      rw [given]
      exact ⟨.fromBool b, by simp [compared]⟩
  cases fact with
  | none => exact ⟨_, rfl⟩
  | some f =>
    have fits := fits f rfl
    simp only [predicate]
    cases state : f.state with
    | known value =>
      simp only [FactFits, state] at fits
      exact tests (some value) (fun v h => Option.some.inj h ▸ fits)
    | null => exact tests none (fun v h => by cases h)
    | denied => simp only [FactFits, state] at fits
    | _ => exact ⟨_, rfl⟩

mutual

def Criteria.Names (group : String) : Criteria Timepoint Number → Prop
  | .predicate _ => False
  | .membership g _ => g = group
  | .and children => Criteria.NamesAny group children
  | .or children => Criteria.NamesAny group children

def Criteria.NamesAny (group : String) : List (Criteria Timepoint Number) → Prop
  | [] => False
  | c :: rest => c.Names group ∨ Criteria.NamesAny group rest

end

mutual

theorem mem_collectGroups {group : String} {out : OrdSet String} (c : Criteria Timepoint Number) :
    group ∈ (c.collectGroups out).keys ↔ group ∈ out.keys ∨ c.Names group := by
  match c with
  | .predicate p => simp [Criteria.collectGroups, Criteria.Names]
  | .membership g negated =>
    rw [Criteria.collectGroups, OrdSet.mem_keys_insert, Criteria.Names, or_comm, eq_comm]
  | .and children | .or children =>
    rw [Criteria.collectGroups, Criteria.Names]
    exact mem_collectGroupsAll children

theorem mem_collectGroupsAll {group : String} {out : OrdSet String}
    (cs : List (Criteria Timepoint Number)) :
    group ∈ (Criteria.collectGroupsAll out cs).keys ↔
      group ∈ out.keys ∨ Criteria.NamesAny group cs := by
  match cs with
  | [] => simp [Criteria.collectGroupsAll, Criteria.NamesAny]
  | c :: rest =>
    rw [Criteria.collectGroupsAll, mem_collectGroupsAll rest, mem_collectGroups c,
      Criteria.NamesAny, or_assoc]

end

mutual

theorem evaluateNode_returns {fields : OrdMap String Field} {facts : Facts Timepoint Number}
    {memberships : OrdMap String Outcome} (fit : FactsFit fields facts)
    (c : Criteria Timepoint Number) (typed : c.Typed fields)
    (named : ∀ group, c.Names group → group ∈ memberships.keys) (path : List Nat)
    (out : List Explanation) : ∃ decision explanations,
      evaluateNode facts memberships path out c = .ok (decision, explanations) ∧
        decision.truth = c.meaning (valuation facts memberships) := by
  match c with
  | .predicate p =>
    obtain ⟨field, found, typed⟩ := typed
    have fits : ∀ f, facts.get? p.field = some f → FactFits field f := by
      intro f hf
      obtain ⟨field', found', fits⟩ := fit p.field f hf
      rw [found] at found'
      cases Option.some.inj found'
      exact fits
    obtain ⟨outcome, returned⟩ := predicate_returns typed fits
    refine ⟨outcome.decision, out ++ [⟨path, outcome⟩], ?_, ?_⟩
    · rw [evaluateNode, returned]
      rfl
    · simp only [Criteria.meaning, valuation, returned]
      rfl
  | .membership group negated =>
    obtain ⟨value, found⟩ := OrdMap.mem_keys.mp (named group rfl)
    refine ⟨_, _, by rw [evaluateNode, found], ?_⟩
    simp only [membershipOutcome_truth, Criteria.meaning, valuation, found, Option.getD_some]
  | .and children =>
    obtain ⟨decision, explanations, returned, truth⟩ := evaluateChildren_returns fit children typed
      named path .noMatch Truth.conj combine_and 0 .isMatch out
    refine ⟨decision, explanations, by rw [evaluateNode, returned], ?_⟩
    rw [truth, Truth.foldl_conj, Criteria.meaning]
    rfl
  | .or children =>
    obtain ⟨decision, explanations, returned, truth⟩ := evaluateChildren_returns fit children typed
      named path .isMatch Truth.disj combine_or 0 .noMatch out
    refine ⟨decision, explanations, by rw [evaluateNode, returned], ?_⟩
    rw [truth, Truth.foldl_disj, Criteria.meaning]
    rfl

theorem evaluateChildren_returns {fields : OrdMap String Field} {facts : Facts Timepoint Number}
    {memberships : OrdMap String Outcome} (fit : FactsFit fields facts)
    (cs : List (Criteria Timepoint Number)) (typed : Criteria.TypedAll fields cs)
    (named : ∀ group, Criteria.NamesAny group cs → group ∈ memberships.keys) (path : List Nat)
    (decisive : Decision) (op : Truth → Truth → Truth)
    (combines : ∀ result value, (combine decisive result value).truth = op result.truth value.truth)
    (i : Nat) (result : Decision) (out : List Explanation) : ∃ decision explanations,
      evaluateChildren facts memberships path decisive i result out cs =
          .ok (decision, explanations) ∧
        decision.truth =
          (Criteria.meanings (valuation facts memberships) cs).foldl op result.truth := by
  match cs with
  | [] => exact ⟨result, out, by rw [evaluateChildren], rfl⟩
  | c :: rest =>
    obtain ⟨value, out', first, truth⟩ := evaluateNode_returns fit c typed.1
      (fun group h => named group (.inl h)) (path ++ [i]) out
    obtain ⟨decision, explanations, later, total⟩ := evaluateChildren_returns fit rest typed.2
      (fun group h => named group (.inr h)) path decisive op combines (i + 1)
      (combine decisive result value) out'
    refine ⟨decision, explanations, ?_, ?_⟩
    · rw [evaluateChildren, first]
      exact later
    · rw [total, combines, truth, Criteria.meanings, List.foldl_cons]

end

variable {coverage : OrdSet String}

theorem checkFact_fits {fields : OrdMap String Field} {b b' : Budget}
    {entry : String × Fact Timepoint Number} (h : checkFact fields coverage b entry = .ok b') :
    ∃ field, fields.get? entry.1 = some field ∧ FactFits field entry.2 := by
  obtain ⟨b₁, -, h⟩ := of_bind h
  split at h
  · cases h
  rename_i field found
  obtain ⟨-, h⟩ := of_guard h
  obtain ⟨b₂, -, h⟩ := of_bind h
  obtain ⟨b₃, -, h⟩ := of_bind h
  refine ⟨field, found, ?_⟩
  unfold FactFits
  split at h
  · rename_i value state
    obtain ⟨b₄, -, h⟩ := of_bind h
    rw [state]
    exact not_not.mp (of_guard h).1
  · rename_i state
    rw [state]
    trivial
  · cases h
  · rename_i notKnown notNull notDenied
    split
    · exact absurd ‹_› (notKnown _)
    · exact notDenied ‹_›
    · trivial

variable {r : Rule Timepoint Number TenantId}

omit [LinearOrder TenantId] in
theorem admitContext_fit {b b' : Budget} {context : String × Facts Timepoint Number}
    (h : admitContext r coverage b context = .ok b') : FactsFit r.fields context.2 := by
  obtain ⟨b₁, -, h⟩ := of_bind h
  obtain ⟨-, h⟩ := of_check h
  obtain ⟨b₂, checked, -⟩ := of_bind h
  intro key fact found
  exact foldlM_ok_each (fun _ _ _ h => checkFact_fits h) _ checked (key, fact)
    (OrdMap.get?_eq_some.mp found)

/-- The evidence of one context, once its checks have passed. -/
def contextEvaluation (r : Rule Timepoint Number TenantId) (memberships : OrdMap String Outcome)
    (facts : Facts Timepoint Number) : ContextEvaluation Timepoint :=
  let result := (evaluateNode facts memberships [] [] r.criteria).toOption.getD (.unknown, [])
  ⟨result.1, result.2, provenance r.required facts⟩

def contextEvaluations (r : Rule Timepoint Number TenantId)
    (object : ObjectSnapshot TenantId Timepoint Number) :
    OrdMap String (ContextEvaluation Timepoint) :=
  object.contexts.mapValues (fun _ facts => contextEvaluation r object.memberships facts)

def objectEvaluation (r : Rule Timepoint Number TenantId)
    (object : ObjectSnapshot TenantId Timepoint Number) : ObjectEvaluation TenantId Timepoint where
  key := object.key
  decision := (quantified object.quantifier object.complete
    (contextEvaluations r object)).toOption.getD .unknown
  contexts := contextEvaluations r object

def admitObject (r : Rule Timepoint Number TenantId) (tenant : TenantId) (coverage : OrdSet String)
    (p : Progress) (object : ObjectSnapshot TenantId Timepoint Number) : Except Error Progress := do
  let p ← admitHeader r tenant p object
  let b ← object.contexts.entries.foldlM (admitContext r coverage) p.budget
  .ok { p with budget := b }

@[simp] theorem lift_ok {α : Type} (a : α) : lift (.ok a : Except Error α) = .ok a := rfl

@[simp] theorem lift_error {α : Type} (e : Error) :
    lift (.error e : Except Error α) = .error (.error e) := rfl

variable {memberships : OrdMap String Outcome}

omit [LinearOrder TenantId] in
theorem evaluateContext_eq (named : ∀ group, r.criteria.Names group → group ∈ memberships.keys)
    (acc : Budget × OrdMap String (ContextEvaluation Timepoint))
    (context : String × Facts Timepoint Number) :
    evaluateContext r coverage memberships acc context =
      lift (admitContext r coverage acc.1 context) >>= fun b =>
        .ok (b, acc.2.insert context.1 (contextEvaluation r memberships context.2)) := by
  unfold evaluateContext
  cases admitted : admitContext r coverage acc.1 context with
  | error => rfl
  | ok =>
    obtain ⟨decision, explanations, returned, -⟩ := evaluateNode_returns
      (admitContext_fit admitted) r.criteria r.typed named [] []
    simp only [lift_ok, ok_bind, returned, contextEvaluation]
    rfl

omit [LinearOrder TenantId] in
theorem foldlM_evaluateContext (named : ∀ group, r.criteria.Names group → group ∈ memberships.keys)
    (entries : List (String × Facts Timepoint Number)) (b : Budget)
    (out : OrdMap String (ContextEvaluation Timepoint)) :
    entries.foldlM (evaluateContext r coverage memberships) (b, out) =
      lift (entries.foldlM (admitContext r coverage) b) >>= fun b' => .ok (b',
        entries.foldl (fun out e => out.insert e.1 (contextEvaluation r memberships e.2)) out) := by
  induction entries generalizing b out with
  | nil => rfl
  | cons e _ ih =>
    rw [List.foldlM_cons, List.foldlM_cons, evaluateContext_eq named]
    cases admitContext r coverage b e with
    | error => rfl
    | ok b' =>
      simp only [lift_ok, ok_bind, List.foldl_cons]
      exact ih b' _

theorem admitHeader_covers {tenant : TenantId} {p p' : Progress}
    {object : ObjectSnapshot TenantId Timepoint Number}
    (h : admitHeader r tenant p object = .ok p') :
    (∀ group, r.criteria.Names group → group ∈ object.memberships.keys) ∧
      (object.quantifier = .one → object.contexts.size = 1 ∧ object.complete = true) := by
  obtain ⟨-, h⟩ := of_guard h
  obtain ⟨b₁, -, h⟩ := of_bind h
  obtain ⟨groups, h⟩ := of_guard h
  obtain ⟨b₂, -, h⟩ := of_bind h
  obtain ⟨one, -⟩ := of_guard h
  constructor
  · intro group names
    rw [not_not.mp groups, Rule.groups, mem_collectGroups]
    exact .inr names
  · intro quantifier
    simpa [quantifier] using one

variable {s : PageInput TenantId Timepoint Number}

theorem evaluateObject_eq (acc : Progress × List (ObjectEvaluation TenantId Timepoint))
    (object : ObjectSnapshot TenantId Timepoint Number) :
    evaluateObject r s acc object = lift (admitObject r s.tenant s.coverage acc.1 object) >>= fun p =>
      .ok (p, acc.2 ++ [objectEvaluation r object]) := by
  unfold evaluateObject admitObject
  cases header : admitHeader r s.tenant acc.1 object with
  | error => rfl
  | ok p =>
    obtain ⟨named, one⟩ := admitHeader_covers header
    simp only [lift_ok, ok_bind]
    rw [foldlM_evaluateContext named, OrdMap.foldl_insert_entries object.contexts
      (fun _ facts => contextEvaluation r object.memberships facts)]
    cases object.contexts.entries.foldlM (admitContext r s.coverage) p.budget with
    | error => rfl
    | ok =>
      have decided : ∃ d, quantified object.quantifier object.complete
          (contextEvaluations r object) = .ok d := by
        unfold quantified
        cases quantifier : object.quantifier with
        | one =>
          have size := (one quantifier).1
          simp only [contextEvaluations, OrdMap.values, OrdMap.mapValues, OrdMap.size] at size ⊢
          obtain ⟨e, single⟩ := List.length_eq_one_iff.mp size
          rw [single]
          exact ⟨_, rfl⟩
        | any | all => exact ⟨_, rfl⟩
      obtain ⟨d, decided⟩ := decided
      have decision : (objectEvaluation r object).decision = d := by
        rw [objectEvaluation, decided]
        rfl
      simp only [lift_ok, ok_bind]
      change (lift (quantified object.quantifier object.complete (contextEvaluations r object)) >>=
        _) = _
      rw [decided, ← decision]
      rfl

theorem foldlM_evaluateObject (objects : List (ObjectSnapshot TenantId Timepoint Number))
    (p : Progress) (out : List (ObjectEvaluation TenantId Timepoint)) :
    objects.foldlM (evaluateObject r s) (p, out) =
      lift (objects.foldlM (admitObject r s.tenant s.coverage) p) >>= fun p' =>
        .ok (p', out ++ objects.map (objectEvaluation r)) := by
  induction objects generalizing p out with
  | nil =>
    simp [pure, Except.pure]
  | cons o _ ih =>
    rw [List.foldlM_cons, List.foldlM_cons, evaluateObject_eq]
    cases admitObject r s.tenant s.coverage p o with
    | error => rfl
    | ok =>
      simp only [lift_ok, ok_bind, List.map_cons]
      rw [ih]
      simp

def admission (r : Rule Timepoint Number TenantId) (s : PageInput TenantId Timepoint Number) :
    Except Error Unit := do
  admitPage r s
  let b ← admitInput r s (Budget.new .batchBytes)
  let _ ← s.objects.foldlM (admitObject r s.tenant s.coverage) ⟨b, 0⟩
  .ok ()

def pageEvaluation (r : Rule Timepoint Number TenantId) (s : PageInput TenantId Timepoint Number)
    (asOf : Timepoint) : PageEvaluation TenantId Timepoint where
  coverage := s.coverage
  tenant := s.tenant
  ruleVersion := r.version
  dictionaryVersion := r.dictionaryVersion
  snapshotId := s.id
  snapshotVersion := s.version
  asOf := asOf
  objects := s.objects.map (objectEvaluation r)

theorem evaluatePage_eq (r : Rule Timepoint Number TenantId)
    (s : PageInput TenantId Timepoint Number) (asOf : Timepoint) :
    evaluatePage r s asOf = lift (admission r s) >>= fun _ => .ok (pageEvaluation r s asOf) := by
  unfold evaluatePage evaluateInput admission
  cases admitPage r s with
  | error => rfl
  | ok =>
    cases admitInput r s (.new .batchBytes) with
    | error => rfl
    | ok b =>
      simp only [lift_ok, ok_bind]
      rw [foldlM_evaluateObject]
      cases s.objects.foldlM (admitObject r s.tenant s.coverage) ⟨b, 0⟩ with
      | error => rfl
      | ok =>
        simp only [lift_ok, ok_bind, List.nil_append]
        rfl

theorem evaluatePage_eq_ok {asOf : Timepoint} {e : PageEvaluation TenantId Timepoint} :
    evaluatePage r s asOf = .ok e ↔ admission r s = .ok () ∧ e = pageEvaluation r s asOf := by
  rw [evaluatePage_eq]
  cases admission r s with
  | error => simp
  | ok => simp [eq_comm]

/-- Evaluation returns a page or an error for every rule and every page: no panic is reached. -/
theorem evaluatePage_returns (r : Rule Timepoint Number TenantId)
    (s : PageInput TenantId Timepoint Number) (asOf : Timepoint) :
    (∃ e, evaluatePage r s asOf = .ok e) ∨ ∃ e, evaluatePage r s asOf = .error (.error e) := by
  rw [evaluatePage_eq]
  cases admission r s with
  | error e => exact .inr ⟨e, rfl⟩
  | ok => exact .inl ⟨_, rfl⟩

mutual

theorem evaluateNode_length {facts : Facts Timepoint Number} {memberships : OrdMap String Outcome}
    (c : Criteria Timepoint Number) {path : List Nat} {out out' : List Explanation}
    {decision : Decision} (h : evaluateNode facts memberships path out c = .ok (decision, out')) :
    out'.length = out.length + leafCount c := by
  match c with
  | .predicate p =>
    rw [evaluateNode] at h
    obtain ⟨outcome, -, h⟩ := of_bind h
    cases h
    rw [List.length_append, leafCount]
    rfl
  | .membership group negated =>
    rw [evaluateNode] at h
    split at h
    · cases h
    · cases h
      rw [List.length_append, leafCount]
      rfl
  | .and children | .or children =>
    rw [evaluateNode] at h
    exact evaluateChildren_length children h

theorem evaluateChildren_length {facts : Facts Timepoint Number}
    {memberships : OrdMap String Outcome} (cs : List (Criteria Timepoint Number))
    {path : List Nat} {decisive result decision : Decision} {i : Nat} {out out' : List Explanation}
    (h : evaluateChildren facts memberships path decisive i result out cs = .ok (decision, out')) :
    out'.length = out.length + leafCountAll cs := by
  match cs with
  | [] =>
    rw [evaluateChildren] at h
    cases h
    rfl
  | c :: rest =>
    rw [evaluateChildren] at h
    obtain ⟨⟨value, between⟩, first, h⟩ := of_bind h
    have head := evaluateNode_length c first
    have tail := evaluateChildren_length rest h
    rw [leafCountAll]
    omega

end

variable {facts : Facts Timepoint Number}

theorem foldl_provenance {keys : List String} (held : ∀ key ∈ keys, key ∈ facts.keys)
    (found : OrdMap String (Provenance Timepoint)) (key : String) :
    key ∈ (keys.foldl (fun found key =>
      match facts.get? key with
      | some f => found.insert key ⟨f.source, f.snapshotId, f.observedAt⟩
      | none => found) found).keys ↔ key ∈ found.keys ∨ key ∈ keys := by
  induction keys generalizing found with
  | nil => simp
  | cons first _ ih =>
    obtain ⟨fact, present⟩ := OrdMap.mem_keys.mp (held first (.head _))
    rw [List.foldl_cons, ih (fun k mem => held k (.tail _ mem)), present,
      List.mem_cons, OrdMap.mem_keys, OrdMap.mem_keys]
    simp only [OrdMap.get?_insert]
    by_cases same : key = first
    · simp [same]
    · simp [same]

theorem provenance_keys {required : OrdSet String}
    (held : ∀ key ∈ required.keys, key ∈ facts.keys) :
    (provenance required facts).keys.Perm required.keys := by
  refine (List.perm_ext_iff_of_nodup (OrdMap.nodup_keys _) (OrdMap.nodup_keys _)).mpr ?_
  intro key
  have nothing : key ∉ (.empty : OrdMap String (Provenance Timepoint)).keys := List.not_mem_nil
  exact (foldl_provenance held .empty key).trans (or_iff_right nothing)

omit [LinearOrder TenantId] in
theorem contextEvaluation_counts (fit : FactsFit r.fields facts)
    (named : ∀ group, r.criteria.Names group → group ∈ memberships.keys)
    (held : ∀ key ∈ r.required.keys, key ∈ facts.keys) :
    (contextEvaluation r memberships facts).explanations.length = leafCount r.criteria ∧
      (contextEvaluation r memberships facts).provenance.keys.Perm r.required.keys := by
  obtain ⟨decision, explanations, returned, -⟩ := evaluateNode_returns fit r.criteria r.typed named
    [] []
  have length := evaluateNode_length r.criteria returned
  constructor
  · simp only [contextEvaluation, returned]
    simpa [Except.toOption] using length
  · exact provenance_keys held

end RssMdm.Group
