/- module: Group/Rule
   source: crates/group/src/rule.rs
   digest: Bounded criteria trees and their validation against a field dictionary. -/

import RssMdm.Group.Model

set_option autoImplicit false

namespace RssMdm.Group

open Lib Lib.Fallible

variable (Timepoint Number : Type) [LinearOrder Timepoint] [Floating Number]

inductive Criteria where
  | predicate (p : Predicate Timepoint Number)
  | membership (group : String) (negated : Bool)
  | and (children : List Criteria)
  | or (children : List Criteria)

variable {Timepoint Number}

namespace Criteria

mutual

def count : Criteria Timepoint Number → Nat
  | .predicate _ => 1
  | .membership _ _ => 1
  | .and children => 1 + countAll children
  | .or children => 1 + countAll children

def countAll : List (Criteria Timepoint Number) → Nat
  | [] => 0
  | c :: rest => c.count + countAll rest

end

mutual

def depth : Criteria Timepoint Number → Nat
  | .predicate _ => 1
  | .membership _ _ => 1
  | .and children => 1 + depthAll children
  | .or children => 1 + depthAll children

def depthAll : List (Criteria Timepoint Number) → Nat
  | [] => 0
  | c :: rest => max c.depth (depthAll rest)

end

def newMembership (group : String) (negated : Bool) : Except Error (Criteria Timepoint Number) := do
  let _ ← (Budget.new .ruleBytes).identity group
  .ok (.membership group negated)

def unitIdentity (b : Budget) : Option String → Except Error Budget
  | some unit => b.identity unit
  | none => .ok b

def newPredicate (p : Predicate Timepoint Number) : Except Error (Criteria Timepoint Number) := do
  let b ← (Budget.new .ruleBytes).identity p.field
  match p.operand with
  | none => .ok (.predicate p)
  | some operand => do
      let b ← operand.value.validate b
      let _ ← unitIdentity b operand.unit
      .ok (.predicate p)

def group (children : List (Criteria Timepoint Number)) (conjunction : Bool) :
    Except Error (Criteria Timepoint Number) :=
  if children.isEmpty then .error .invalidStructure
  else do
    LimitKind.nodes.check children.length
    let _ ← children.foldlM (fun count c => LimitKind.nodes.add count c.count) 1
    LimitKind.depth.check (1 + depthAll children)
    .ok (if conjunction then .and children else .or children)

mutual

def collectGroups (out : OrdSet String) : Criteria Timepoint Number → OrdSet String
  | .predicate _ => out
  | .membership group _ => OrdMap.insert out group ()
  | .and children => collectGroupsAll out children
  | .or children => collectGroupsAll out children

def collectGroupsAll (out : OrdSet String) : List (Criteria Timepoint Number) → OrdSet String
  | [] => out
  | c :: rest => collectGroupsAll (collectGroups out c) rest

end

end Criteria

def allows (field : Field) (op : Op) : Bool :=
  match op with
  | .isNull | .isNotNull => field.nullable
  | .eq | .ne | .isIn | .notIn =>
      match field.kind with
      | .scalar _ => true
      | .set _ => false
  | .lt | .le | .gt | .ge =>
      match field.kind with
      | .scalar .integer | .scalar .number | .scalar .time => true
      | _ => false
  | .contains | .notContains => field.kind = .scalar .string
  | .containsAny | .containsAll =>
      match field.kind with
      | .set _ => true
      | .scalar _ => false

abbrev Validation := OrdSet String × Budget

def expectedType (op : Op) (kind : FieldType) : FieldType :=
  match op, kind with
  | .isIn, .scalar t | .notIn, .scalar t => .set t
  | _, kind => kind

def validateOperand (field : Field) (p : Predicate Timepoint Number) (b : Budget) :
    Except Error Budget :=
  if p.op = .isNull ∨ p.op = .isNotNull then
    if p.operand.isSome then .error .invalidOperation else .ok b
  else match p.operand with
  | none => .error .invalidOperation
  | some operand => do
      let b ← operand.value.validate b
      let b ← Criteria.unitIdentity b operand.unit
      if operand.unit ≠ field.unit then .error .invalidUnit
      else if operand.value.kind ≠ expectedType p.op field.kind then .error .invalidType
      else .ok b

def validatePredicate (fields : OrdMap String Field) (p : Predicate Timepoint Number)
    (v : Validation) : Except Error Validation := do
  let b ← v.2.identity p.field
  match fields.get? p.field with
  | none => .error .unknownField
  | some field =>
      if !field.operations.contains p.op then .error .invalidOperation
      else do
        let b ← validateOperand field p b
        .ok (OrdMap.insert v.1 p.field (), b)

mutual

def validate (fields : OrdMap String Field) (v : Validation) :
    Criteria Timepoint Number → Except Error Validation
  | .predicate p => validatePredicate fields p v
  | .membership group _ => do
      let b ← v.2.identity group
      .ok (v.1, b)
  | .and children => validateAll fields v children
  | .or children => validateAll fields v children

def validateAll (fields : OrdMap String Field) (v : Validation) :
    List (Criteria Timepoint Number) → Except Error Validation
  | [] => .ok v
  | c :: rest => do
      let v ← validate fields v c
      validateAll fields v rest

end

/-- One pass of the loop over the supplied fields. -/
def addField (acc : OrdMap String Field × Budget) (field : Field) :
    Except Error (OrdMap String Field × Budget) := do
  let b ← acc.2.identity field.key
  let b ← Criteria.unitIdentity b field.unit
  if field.operations.isEmpty || field.operations.any (fun op => !allows field op) then
    .error .invalidOperation
  else if acc.1.contains field.key then .error .invalidStructure
  else .ok (acc.1.insert field.key field, b)

/-- All the checks of `Rule::new`: the dictionary and the fields that the criteria read. -/
def compile (version dictionaryVersion : String) (fields : List Field)
    (criteria : Criteria Timepoint Number) : Except Error (OrdMap String Field × OrdSet String) := do
  let b ← (Budget.new .ruleBytes).identity version
  let b ← b.identity dictionaryVersion
  LimitKind.fields.check fields.length
  let (dictionary, b) ← fields.foldlM addField (.empty, b)
  let (required, _) ← validate dictionary (.empty, b) criteria
  .ok (dictionary, required)

/-- The operator fits the field and the operand fits the operator. -/
structure Predicate.Typed (p : Predicate Timepoint Number) (field : Field) : Prop where
  allowed : allows field p.op = true
  operand : p.op ≠ .isNull → p.op ≠ .isNotNull →
    ∃ operand, p.operand = some operand ∧ operand.value.kind = expectedType p.op field.kind

mutual

/-- Every predicate of the tree names a field of the dictionary that it fits. -/
def Criteria.Typed (fields : OrdMap String Field) : Criteria Timepoint Number → Prop
  | .predicate p => ∃ field, fields.get? p.field = some field ∧ p.Typed field
  | .membership _ _ => True
  | .and children => Criteria.TypedAll fields children
  | .or children => Criteria.TypedAll fields children

def Criteria.TypedAll (fields : OrdMap String Field) : List (Criteria Timepoint Number) → Prop
  | [] => True
  | c :: rest => c.Typed fields ∧ Criteria.TypedAll fields rest

end

mutual

def Criteria.Reads (key : String) : Criteria Timepoint Number → Prop
  | .predicate p => p.field = key
  | .membership _ _ => False
  | .and children => Criteria.ReadsAny key children
  | .or children => Criteria.ReadsAny key children

def Criteria.ReadsAny (key : String) : List (Criteria Timepoint Number) → Prop
  | [] => False
  | c :: rest => c.Reads key ∨ Criteria.ReadsAny key rest

end

/-- Every operation of every entry fits the entry. -/
def Compatible (fields : OrdMap String Field) : Prop :=
  ∀ key field, fields.get? key = some field → ∀ op ∈ field.operations, allows field op = true

theorem validatePredicate_eq_ok {fields : OrdMap String Field} (compatible : Compatible fields)
    {p : Predicate Timepoint Number} {v v' : Validation}
    (h : validatePredicate fields p v = .ok v') :
    (∃ field, fields.get? p.field = some field ∧ p.Typed field) ∧
      ∀ key, key ∈ v'.1.keys ↔ key ∈ v.1.keys ∨ p.field = key := by
  obtain ⟨b, -, h⟩ := of_bind h
  split at h
  · cases h
  rename_i field found
  obtain ⟨member, h⟩ := of_guard h
  obtain ⟨b', operand, h⟩ := of_bind h
  cases Except.ok.inj h
  have listed : p.op ∈ field.operations := by simpa using member
  refine ⟨⟨field, found, compatible _ field found _ listed, ?_⟩, ?_⟩
  · intro notNull notNotNull
    unfold validateOperand at operand
    rw [if_neg (not_or.mpr ⟨notNull, notNotNull⟩)] at operand
    split at operand
    · cases operand
    rename_i operand' given
    obtain ⟨b₁, -, operand⟩ := of_bind operand
    obtain ⟨b₂, -, operand⟩ := of_bind operand
    obtain ⟨-, operand⟩ := of_guard operand
    obtain ⟨type, -⟩ := of_guard operand
    exact ⟨operand', given, not_not.mp type⟩
  · intro key
    rw [OrdSet.mem_keys_insert, or_comm, eq_comm]

mutual

theorem validate_eq_ok {fields : OrdMap String Field} (compatible : Compatible fields)
    {v v' : Validation} (c : Criteria Timepoint Number) (h : validate fields v c = .ok v') :
    c.Typed fields ∧ ∀ key, key ∈ v'.1.keys ↔ key ∈ v.1.keys ∨ c.Reads key := by
  match c with
  | .predicate p =>
    rw [validate] at h
    simpa only [Criteria.Typed, Criteria.Reads] using validatePredicate_eq_ok compatible h
  | .membership group negated =>
    rw [validate] at h
    obtain ⟨b, -, h⟩ := of_bind h
    cases Except.ok.inj h
    simp [Criteria.Typed, Criteria.Reads]
  | .and children | .or children =>
    rw [validate] at h
    simpa only [Criteria.Typed, Criteria.Reads] using validateAll_eq_ok compatible children h

theorem validateAll_eq_ok {fields : OrdMap String Field} (compatible : Compatible fields)
    {v v' : Validation} (cs : List (Criteria Timepoint Number))
    (h : validateAll fields v cs = .ok v') :
    Criteria.TypedAll fields cs ∧
      ∀ key, key ∈ v'.1.keys ↔ key ∈ v.1.keys ∨ Criteria.ReadsAny key cs := by
  match cs with
  | [] =>
    rw [validateAll] at h
    cases Except.ok.inj h
    simp [Criteria.TypedAll, Criteria.ReadsAny]
  | c :: rest =>
    rw [validateAll] at h
    obtain ⟨v₁, first, later⟩ := of_bind h
    obtain ⟨typed, reads⟩ := validate_eq_ok compatible c first
    obtain ⟨typed', reads'⟩ := validateAll_eq_ok compatible rest later
    refine ⟨⟨typed, typed'⟩, ?_⟩
    intro key
    rw [reads', reads, Criteria.ReadsAny, or_assoc]

end

variable {acc' acc : OrdMap String Field × Budget}

theorem addField_compatible {field : Field} (compatible : Compatible acc.1)
    (h : addField acc field = .ok acc') : Compatible acc'.1 := by
  obtain ⟨b₁, -, h⟩ := of_bind h
  obtain ⟨b₂, -, h⟩ := of_bind h
  obtain ⟨operations, h⟩ := of_guard h
  obtain ⟨-, h⟩ := of_guard h
  cases Except.ok.inj h
  intro key field' found op member
  rw [OrdMap.get?_insert] at found
  by_cases own : key = field.key
  · rw [if_pos own] at found
    cases Option.some.inj found
    simp only [Bool.or_eq_true, not_or, Bool.not_eq_true, List.any_eq_false] at operations
    simpa using operations.2 op member
  · rw [if_neg own] at found
    exact compatible key field' found op member

theorem foldlM_addField_compatible (fields : List Field) (compatible : Compatible acc.1)
    (h : fields.foldlM addField acc = .ok acc') : Compatible acc'.1 := by
  induction fields generalizing acc with
  | nil =>
    cases Except.ok.inj h
    exact compatible
  | cons _ _ ih =>
    rw [List.foldlM_cons] at h
    obtain ⟨acc₁, first, later⟩ := of_bind h
    exact ih (addField_compatible compatible first) later

theorem compile_eq_ok {version dictionaryVersion : String} {fields : List Field}
    {criteria : Criteria Timepoint Number} {dictionary : OrdMap String Field}
    {required : OrdSet String}
    (h : compile version dictionaryVersion fields criteria = .ok (dictionary, required)) :
    criteria.Typed dictionary ∧ ∀ key, key ∈ required.keys ↔ criteria.Reads key := by
  obtain ⟨b₁, -, h⟩ := of_bind h
  obtain ⟨b₂, -, h⟩ := of_bind h
  obtain ⟨-, h⟩ := of_check h
  obtain ⟨⟨dictionary', b₃⟩, gathered, h⟩ := of_bind h
  obtain ⟨⟨required', b₄⟩, validated, h⟩ := of_bind h
  cases Except.ok.inj h
  have compatible : Compatible dictionary := by
    apply foldlM_addField_compatible fields _ gathered
    intro key field found
    cases found
  obtain ⟨typed, reads⟩ := validate_eq_ok compatible criteria validated
  refine ⟨typed, ?_⟩
  intro key
  simpa [OrdMap.empty, OrdMap.keys] using reads key

variable (Timepoint Number) in
/-- A validated rule: its criteria fit its dictionary, and it knows the fields they read. -/
structure Rule (TenantId : Type) where
  tenant : TenantId
  version : String
  dictionaryVersion : String
  fields : OrdMap String Field
  criteria : Criteria Timepoint Number
  required : OrdSet String
  typed : criteria.Typed fields
  reads : ∀ key, key ∈ required.keys ↔ criteria.Reads key

def Rule.new {TenantId : Type} (tenant : TenantId) (version dictionaryVersion : String)
    (fields : List Field) (criteria : Criteria Timepoint Number) :
    Except Error (Rule Timepoint Number TenantId) :=
  match h : compile version dictionaryVersion fields criteria with
  | .error e => .error e
  | .ok (dictionary, required) =>
      .ok { tenant, version, dictionaryVersion, fields := dictionary, criteria, required
            typed := (compile_eq_ok h).1
            reads := (compile_eq_ok h).2 }

def Rule.groups {TenantId : Type} (r : Rule Timepoint Number TenantId) : OrdSet String :=
  r.criteria.collectGroups .empty

end RssMdm.Group
