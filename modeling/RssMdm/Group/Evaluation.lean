/- module: Group/Evaluation
   source: crates/group/src/evaluation.rs
   digest: Evaluation of a rule over one page of objects, with the places where the code panics. -/

import RssMdm.Group.Rule

set_option autoImplicit false

namespace RssMdm.Group

open Lib Lib.Outcome

structure Explanation where
  path : List Nat
  outcome : Outcome
deriving DecidableEq

structure Provenance (Timepoint : Type) where
  source : String
  snapshotId : String
  observedAt : Timepoint

structure ContextEvaluation (Timepoint : Type) where
  decision : Decision
  explanations : List Explanation
  provenance : OrdMap String (Provenance Timepoint)

structure ObjectEvaluation (TenantId Timepoint : Type) where
  key : ObjectKey TenantId
  decision : Decision
  contexts : OrdMap String (ContextEvaluation Timepoint)

structure PageEvaluation (TenantId Timepoint : Type) where
  coverage : OrdSet String
  tenant : TenantId
  ruleVersion : String
  dictionaryVersion : String
  snapshotId : String
  snapshotVersion : String
  asOf : Timepoint
  objects : List (ObjectEvaluation TenantId Timepoint)

variable {TenantId Timepoint Number : Type} [LinearOrder TenantId] [LinearOrder Timepoint]
  [Floating Number]

def disjoint (a b : OrdSet (Scalar Timepoint Number)) : Bool := !a.keys.any b.contains

def subset (a b : OrdSet (Scalar Timepoint Number)) : Bool := a.keys.all b.contains

/-- The comparison of a known value; combinations outside the table are unreachable in the source. -/
def compareValues (value operand : Value Timepoint Number) (op : Op) : Run Error Bool :=
  match value, operand, op with
  | .scalar a, .scalar b, .eq => .ok (decide (a = b))
  | .scalar a, .scalar b, .ne => .ok (decide (a ≠ b))
  | .scalar a, .scalar b, .lt => .ok (decide (a < b))
  | .scalar a, .scalar b, .le => .ok (decide (a ≤ b))
  | .scalar a, .scalar b, .gt => .ok (decide (b < a))
  | .scalar a, .scalar b, .ge => .ok (decide (b ≤ a))
  | .scalar a, .set _ values, .isIn => .ok (values.contains a)
  | .scalar a, .set _ values, .notIn => .ok (!values.contains a)
  | .scalar (.string a), .scalar (.string b), .contains => .ok (Text.contains a b)
  | .scalar (.string a), .scalar (.string b), .notContains => .ok (!Text.contains a b)
  | .set _ a, .set _ b, .containsAny => .ok (!disjoint a b)
  | .set _ a, .set _ b, .containsAll => .ok (subset b a)
  | _, _, _ => .error .panic

def test (value : Option (Value Timepoint Number)) (op : Op)
    (operand : Option (Value Timepoint Number)) : Run Error Outcome :=
  if op = .isNull then .ok (.fromBool value.isNone)
  else if op = .isNotNull then .ok (.fromBool value.isSome)
  else match value with
  | none => .ok (.unknown .null)
  | some value =>
      match operand with
      | none => .error .panic
      | some operand => do
          let result ← compareValues value operand op
          .ok (.fromBool result)

def predicate (fact : Option (Fact Timepoint Number)) (op : Op)
    (operand : Option (Value Timepoint Number)) : Run Error Outcome :=
  match fact with
  | none => .ok (.unknown .missing)
  | some fact =>
      match fact.state with
      | .missing => .ok (.unknown .missing)
      | .deleted => .ok (.unknown .deleted)
      | .conflict => .ok (.unknown .conflict)
      | .unsupported => .ok (.unknown .unsupported)
      | .denied => .error .panic
      | .null => test none op operand
      | .known value => test (some value) op operand

def membershipOutcome (value : Outcome) (negated : Bool) : Outcome :=
  match value, negated with
  | .isMatch, true => .noMatch
  | .noMatch, true => .isMatch
  | value, _ => value

/-- How one child changes the result of its node. -/
def combine (decisive result value : Decision) : Decision :=
  if value = decisive ∨ (value = .unknown ∧ result ≠ decisive) then value else result

mutual

def evaluateNode (facts : Facts Timepoint Number) (memberships : OrdMap String Outcome)
    (path : List Nat) (out : List Explanation) :
    Criteria Timepoint Number → Run Error (Decision × List Explanation)
  | .membership group negated =>
      match memberships.get? group with
      | none => .error .panic
      | some value =>
          let outcome := membershipOutcome value negated
          .ok (outcome.decision, out ++ [⟨path, outcome⟩])
  | .predicate p => do
      let outcome ← predicate (facts.get? p.field) p.op (p.operand.map Operand.value)
      .ok (outcome.decision, out ++ [⟨path, outcome⟩])
  | .and children => evaluateChildren facts memberships path .noMatch 0 .isMatch out children
  | .or children => evaluateChildren facts memberships path .isMatch 0 .noMatch out children

def evaluateChildren (facts : Facts Timepoint Number) (memberships : OrdMap String Outcome)
    (path : List Nat) (decisive : Decision) (i : Nat) (result : Decision) (out : List Explanation) :
    List (Criteria Timepoint Number) → Run Error (Decision × List Explanation)
  | [] => .ok (result, out)
  | child :: rest => do
      let (value, out) ← evaluateNode facts memberships (path ++ [i]) out child
      evaluateChildren facts memberships path decisive (i + 1) (combine decisive result value) out rest

end

mutual

def leafCount : Criteria Timepoint Number → Nat
  | .predicate _ => 1
  | .membership _ _ => 1
  | .and children => leafCountAll children
  | .or children => leafCountAll children

def leafCountAll : List (Criteria Timepoint Number) → Nat
  | [] => 0
  | c :: rest => leafCount c + leafCountAll rest

end

/-- An ordinary result inside a computation that may panic. -/
def lift {α : Type} (x : Except Error α) : Run Error α := x.mapError Fault.error

/-- One pass of the loop over the facts of a context. -/
def checkFact (fields : OrdMap String Field) (coverage : OrdSet String) (b : Budget)
    (entry : String × Fact Timepoint Number) : Except Error Budget := do
  let b ← b.identity entry.1
  match fields.get? entry.1 with
  | none => .error .unknownField
  | some field =>
      if !coverage.contains entry.1 then .error .invalidStructure
      else do
        let b ← b.identity entry.2.source
        let b ← b.identity entry.2.snapshotId
        match entry.2.state with
        | .known value => do
            let b ← value.validate b
            if value.kind ≠ field.kind then .error .invalidType else .ok b
        | .null => if !field.nullable then .error .invalidType else .ok b
        | .denied => .error .permissionDenied
        | _ => .ok b

/-- The sources of the fields that the rule reads. -/
def provenance (required : OrdSet String) (facts : Facts Timepoint Number) :
    OrdMap String (Provenance Timepoint) :=
  required.keys.foldl (fun found key =>
    match facts.get? key with
    | some f => found.insert key ⟨f.source, f.snapshotId, f.observedAt⟩
    | none => found) .empty

def admitContext (r : Rule Timepoint Number TenantId) (coverage : OrdSet String) (b : Budget)
    (context : String × Facts Timepoint Number) : Except Error Budget := do
  let b ← b.identity context.1
  LimitKind.fields.check context.2.size
  let b ← context.2.entries.foldlM (checkFact r.fields coverage) b
  if !coverage.keys.all context.2.contains then .error .incompleteSnapshot else .ok b

/-- One pass of the loop over the contexts of an object. -/
def evaluateContext (r : Rule Timepoint Number TenantId) (coverage : OrdSet String)
    (memberships : OrdMap String Outcome)
    (acc : Budget × OrdMap String (ContextEvaluation Timepoint))
    (context : String × Facts Timepoint Number) :
    Run Error (Budget × OrdMap String (ContextEvaluation Timepoint)) := do
  let b ← lift (admitContext r coverage acc.1 context)
  let (decision, explanations) ← evaluateNode context.2 memberships [] [] r.criteria
  .ok (b, acc.2.insert context.1
    { decision, explanations, provenance := provenance r.required context.2 })

def quantified (quantifier : Quantifier) (complete : Bool)
    (contexts : OrdMap String (ContextEvaluation Timepoint)) : Except Error Decision :=
  let any := contexts.values.any (fun c => c.decision = .isMatch)
  let no := contexts.values.any (fun c => c.decision = .noMatch)
  let unknown := !complete || contexts.entries.isEmpty ||
    contexts.values.any (fun c => c.decision = .unknown)
  match quantifier with
  | .one =>
      match contexts.values with
      | [] => .error .invalidStructure
      | c :: _ => .ok c.decision
  | .any => .ok (if any then .isMatch else if unknown then .unknown else .noMatch)
  | .all => .ok (if no then .noMatch else if unknown then .unknown else .isMatch)

structure Progress where
  budget : Budget
  contexts : Nat

def admitHeader (r : Rule Timepoint Number TenantId) (tenant : TenantId) (p : Progress)
    (object : ObjectSnapshot TenantId Timepoint Number) : Except Error Progress :=
  if object.key.tenant ≠ tenant then .error .tenantMismatch
  else do
    let b ← p.budget.text object.key.id
    if object.memberships.keys ≠ r.groups.keys then .error .incompleteSnapshot
    else do
      let b ← object.memberships.keys.foldlM Budget.identity b
      if object.quantifier = .one ∧ (object.contexts.size ≠ 1 ∨ object.complete = false) then
        .error .invalidStructure
      else if p.contexts + object.contexts.size < 2 ^ 64 then do
        LimitKind.visits.product (p.contexts + object.contexts.size) r.criteria.count
        LimitKind.explanations.product (p.contexts + object.contexts.size) (leafCount r.criteria)
        .ok ⟨b, p.contexts + object.contexts.size⟩
      else .error (.limitExceeded .visits)

def evaluateObject (r : Rule Timepoint Number TenantId) (s : PageInput TenantId Timepoint Number)
    (acc : Progress × List (ObjectEvaluation TenantId Timepoint))
    (object : ObjectSnapshot TenantId Timepoint Number) :
    Run Error (Progress × List (ObjectEvaluation TenantId Timepoint)) := do
  let p ← lift (admitHeader r s.tenant acc.1 object)
  let (b, contexts) ← object.contexts.entries.foldlM
    (evaluateContext r s.coverage object.memberships) (p.budget, .empty)
  let decision ← lift (quantified object.quantifier object.complete contexts)
  .ok ({ p with budget := b }, acc.2 ++ [{ key := object.key, decision, contexts }])

/-- One pass of the loop over the coverage. -/
def checkCovered (fields : OrdMap String Field) (b : Budget) (key : String) : Except Error Budget := do
  let b ← b.identity key
  if !fields.contains key then .error .unknownField else .ok b

def admitInput (r : Rule Timepoint Number TenantId) (s : PageInput TenantId Timepoint Number)
    (b : Budget) : Except Error Budget :=
  if r.tenant ≠ s.tenant then .error .tenantMismatch
  else do
    let b ← b.identity s.id
    let b ← b.inputVersion s.version
    let b ← b.identity s.dictionaryVersion
    if s.dictionaryVersion ≠ r.dictionaryVersion then .error .versionMismatch
    else do
      LimitKind.fields.check s.coverage.size
      let b ← s.coverage.keys.foldlM (checkCovered r.fields) b
      LimitKind.objects.check s.objects.length
      .ok b

def evaluateInput (r : Rule Timepoint Number TenantId) (s : PageInput TenantId Timepoint Number)
    (asOf : Timepoint) (b : Budget) : Run Error (PageEvaluation TenantId Timepoint) := do
  let b ← lift (admitInput r s b)
  let (_, objects) ← s.objects.foldlM (evaluateObject r s) (⟨b, 0⟩, [])
  .ok { coverage := s.coverage, tenant := s.tenant, ruleVersion := r.version
        dictionaryVersion := r.dictionaryVersion, snapshotId := s.id
        snapshotVersion := s.version, asOf, objects }

/-- Each key is greater than the one before it, starting from the cursor. -/
def ordered (previous : Option (ObjectKey TenantId)) :
    List (ObjectSnapshot TenantId Timepoint Number) → Bool
  | [] => true
  | o :: rest => !previous.any (fun key => o.key ≤ key) && ordered (some o.key) rest

def admitPage (r : Rule Timepoint Number TenantId) (s : PageInput TenantId Timepoint Number) :
    Except Error Unit := do
  LimitKind.objects.check s.objects.length
  if !r.required.keys.all s.coverage.contains then .error .incompleteSnapshot
  else if s.after.any (fun key => key.tenant ≠ r.tenant) then .error .tenantMismatch
  else if !ordered s.after s.objects then .error .invalidStructure
  else .ok ()

def evaluatePage (r : Rule Timepoint Number TenantId) (s : PageInput TenantId Timepoint Number)
    (asOf : Timepoint) : Run Error (PageEvaluation TenantId Timepoint) := do
  lift (admitPage r s)
  evaluateInput r s asOf (Budget.new .batchBytes)

end RssMdm.Group
