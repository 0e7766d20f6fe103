/- module: Assets/Criteria
   source: crates/inventory-service/src/assets/model.rs, crates/inventory-service/src/assets/filter.rs
   digest: Conditions over inventory fields and the rules they compile to. -/

import RssMdm.Group.Rule
import RssMdm.Inventory.Collection
import RssMdm.Inventory.Paths

set_option autoImplicit false

namespace RssMdm.Assets

open Inventory Lib Lib.Int64

inductive Failure where
  | planningStorage
  | assetSourceLimit
deriving DecidableEq, Repr

inductive Error where
  | malformed
  | conflict
  | forbidden
  | unavailable (failure : Failure)
deriving DecidableEq, Repr

variable {ε α : Type}

/-- A refusal of what the caller supplied. -/
def checkedInput (x : Except ε α) : Except Error α := x.mapError (fun _ => .malformed)

/-- A refusal of what this service stored itself. -/
def stored (x : Except ε α) : Except Error α := x.mapError (fun _ => .unavailable .planningStorage)

section

/-- Collection selection, independent of caller authorization. -/
inductive ScopeSelector where
  | device
  | exact (scope : CollectionScope)
  | localUser (platform : Platform) (identity : String)
  | allAuthorized

inductive ScopeQuantifier where
  | one
  | any
  | all
deriving DecidableEq, Repr

inductive Criteria where
  | predicate (field : FieldKey) (op : Operator) (value : Option Scalar)
      (values : Option (List Scalar))
  | and (children : List Criteria)
  | or (children : List Criteria)

structure InventoryCondition where
  selector : ScopeSelector
  quantifier : ScopeQuantifier
  criteria : Criteria

variable [Inventory.Environment]

/-- `u32` in canonical decimal form, and not zero. -/
def properUid (identity : String) : Bool :=
  (Text.canonicalDecimal (2 ^ 32) identity).any (0 < ·)

def properIdentity (platform : Platform) (identity : String) : Bool :=
  match platform with
  | .windows => (LocalAccountIdentity.windows identity).validate
  | .macos => properUid identity

def InventoryCondition.validate (c : InventoryCondition) : Except Error Unit :=
  match c.selector with
  | .device => if c.quantifier ≠ .one then .error .malformed else .ok ()
  | .exact scope => do
      checkedInput scope.validateExecutable
      if c.quantifier ≠ .one then .error .malformed else .ok ()
  | .localUser platform identity =>
      if !properIdentity platform identity ∨ c.quantifier = .one then .error .malformed else .ok ()
  | .allAuthorized => if c.quantifier = .one then .error .malformed else .ok ()

end

/-- The values that the rule engine compares: time points and ordered numbers. -/
class Conversion (Timepoint Number : Type) where
  timepoint : I64 → Option Timepoint
  number : NotNan → Number

variable {Timepoint Number : Type} [LinearOrder Timepoint] [Group.Floating Number]
  [Inventory.Environment] [Conversion Timepoint Number]

def scalar (value : Scalar) : Except Error (Group.Scalar Timepoint Number) := do
  checkedInput value.validate
  match value with
  | .string v => .ok (.string v)
  | .integer v => .ok (.integer v)
  | .number v => .ok (.number (Conversion.number Timepoint v))
  | .array _ => .error .malformed
  | .object _ => .error .malformed
  | .boolean v => .ok (.boolean v)
  | .time v =>
      match Conversion.timepoint Number v with
      | some t => .ok (.time t)
      | none => .error .malformed

def op : Operator → Group.Op
  | .eq => .eq
  | .ne => .ne
  | .isIn => .isIn
  | .notIn => .notIn
  | .lt => .lt
  | .le => .le
  | .gt => .gt
  | .ge => .ge
  | .contains => .contains
  | .notContains => .notContains
  | .containsAny => .containsAny
  | .containsAll => .containsAll
  | .isNull => .isNull
  | .isNotNull => .isNotNull

def kind : Kind → Except Error Group.ScalarType
  | .string => .ok .string
  | .integer => .ok .integer
  | .number => .ok .number
  | .array => .error .malformed
  | .object => .error .malformed
  | .boolean => .ok .boolean
  | .time => .ok .time

def typeOperations (path : FieldPath) : List Group.Op :=
  if path.many then [.containsAny, .containsAll]
  else [.eq, .ne, .isIn, .notIn] ++
    match path.valueType with
    | .string _ _ => [.contains, .notContains]
    | .integer | .number | .time => [.lt, .le, .gt, .ge]
    | _ => []

def dictionaryField (key : FieldKey) (path : FieldPath) : Except Error Group.Field :=
  if !path.root.searchable then .error .malformed
  else do
    let element ← kind path.valueType.kind
    .ok {
      key := key.asStr
      kind := if path.many then .set element else .scalar element
      unit := if key = path.root.key then path.root.unit else none
      operations := typeOperations path ++
        if path.root.nullable then [.isNull, .isNotNull] else []
      nullable := path.root.nullable }

def operandOf (path : FieldPath) (operation : Operator) (value : Option Scalar)
    (values : Option (List Scalar)) : Except Error (Option (Group.Value Timepoint Number)) :=
  match operation, value, values with
  | .isNull, none, none | .isNotNull, none, none => .ok none
  | .isIn, none, some values | .notIn, none, some values
  | .containsAny, none, some values | .containsAll, none, some values =>
      if values.length > Group.LimitKind.setItems.maximum then .error .malformed
      else do
        let element ← kind path.valueType.kind
        let values ← values.mapM scalar
        .ok (some (.set element (OrdSet.ofList values)))
  | .isNull, _, _ | .isNotNull, _, _ | .isIn, _, _ | .notIn, _, _
  | .containsAny, _, _ | .containsAll, _, _ => .error .malformed
  | _, some value, none => do
      let value ← scalar value
      .ok (some (.scalar value))
  | _, _, _ => .error .malformed

/-- The dictionary entries collected so far and the nodes counted. -/
structure Compiling where
  fields : OrdMap String Group.Field
  nodes : Nat

/-- The node and depth budgets at one more node. -/
def Compiling.enter (s : Compiling) (depth : Nat) : Except Error Compiling :=
  if depth > Group.LimitKind.depth.maximum ∨ s.nodes + 1 > Group.LimitKind.nodes.maximum then
    .error .malformed
  else .ok { s with nodes := s.nodes + 1 }

def compilePredicate (catalog : Catalog) (s : Compiling) (field : FieldKey) (operation : Operator)
    (value : Option Scalar) (values : Option (List Scalar)) :
    Except Error (Group.Criteria Timepoint Number × Compiling) := do
  let path ← checkedInput (catalog.path field)
  let definition ← dictionaryField field path
  let operand ← operandOf path operation value values
  let node ← checkedInput (Group.Criteria.newPredicate
    ⟨field.asStr, op operation, operand.map (fun value => ⟨value, definition.unit⟩)⟩)
  .ok (node, { s with fields := s.fields.insert field.asStr definition })

mutual

def criteria (catalog : Catalog) (depth : Nat) (s : Compiling) :
    Criteria → Except Error (Group.Criteria Timepoint Number × Compiling)
  | .and children => do
      let s ← s.enter depth
      let (children, s) ← criteriaAll catalog (depth + 1) s children
      let node ← checkedInput (Group.Criteria.group children true)
      .ok (node, s)
  | .or children => do
      let s ← s.enter depth
      let (children, s) ← criteriaAll catalog (depth + 1) s children
      let node ← checkedInput (Group.Criteria.group children false)
      .ok (node, s)
  | .predicate field operation value values => do
      let s ← s.enter depth
      compilePredicate catalog s field operation value values

def criteriaAll (catalog : Catalog) (depth : Nat) (s : Compiling) :
    List Criteria → Except Error (List (Group.Criteria Timepoint Number) × Compiling)
  | [] => .ok ([], s)
  | c :: rest => do
      let (node, s) ← criteria catalog depth s c
      let (nodes, s) ← criteriaAll catalog depth s rest
      .ok (node :: nodes, s)

end

/-- `inventory::DICTIONARY`. -/
def dictionary : String := "assets-v1"

def rule {TenantId : Type} (tenant : TenantId) (id : Text.Uuid) (c : Criteria) (catalog : Catalog) :
    Except Error (Group.Rule Timepoint Number TenantId) := do
  let (node, s) ← criteria catalog 1 ⟨.empty, 0⟩ c
  checkedInput (Group.Rule.new tenant id.text dictionary s.fields.values node)

end RssMdm.Assets
