/- module: Group/Model
   source: crates/group/src/lib.rs, crates/group/src/model.rs
   digest: Budgets with fixed limits, typed scalars and sets, facts, objects and input pages. -/

import Mathlib.Data.Prod.Lex
import Mathlib.Data.String.Basic
import Mathlib.Data.Sum.Order
import RssMdm.Lib.Int64
import RssMdm.Lib.OrdMap
import RssMdm.Lib.Text

set_option autoImplicit false

namespace RssMdm.Group

open Lib Lib.Int64
open Lib.Text (blank isControl)

inductive LimitKind where
  | depth
  | nodes
  | fields
  | setItems
  | factSetItems
  | factStringBytes
  | stringBytes
  | inputVersionBytes
  | ruleBytes
  | objects
  | batchBytes
  | items
  | visits
  | explanations
deriving DecidableEq, Repr

/-- Closed diagnostics without fact values or caller-supplied strings. -/
inductive Error where
  | invalidIdentity
  | invalidStructure
  | unknownField
  | invalidType
  | invalidUnit
  | invalidOperation
  | permissionDenied
  | tenantMismatch
  | incompleteSnapshot
  | versionMismatch
  | conflictingObject
  | limitExceeded (kind : LimitKind)
deriving DecidableEq, Repr

def LimitKind.maximum : LimitKind → Nat
  | .depth => 16
  | .nodes => 256
  | .fields => 128
  | .setItems => 256
  | .factSetItems => 100000
  | .factStringBytes => 65536
  | .stringBytes => 4096
  | .inputVersionBytes => 100000
  | .ruleBytes => 64 * 1024
  | .objects => 1000
  | .batchBytes => 16 * 1024 * 1024
  | .items => 1000000
  | .visits => 1000000
  | .explanations => 65536

def LimitKind.check (kind : LimitKind) (n : Nat) : Except Error Unit :=
  if n > kind.maximum then .error (.limitExceeded kind) else .ok ()

/-- `usize::checked_add`, then the limit; the new total. -/
def LimitKind.add (kind : LimitKind) (total n : Nat) : Except Error Nat :=
  if total + n < 2 ^ 64 then do
    kind.check (total + n)
    .ok (total + n)
  else .error (.limitExceeded kind)

def LimitKind.product (kind : LimitKind) (a b : Nat) : Except Error Unit :=
  if a * b < 2 ^ 64 then kind.check (a * b) else .error (.limitExceeded kind)

/-- Shared by a whole rule or input batch. -/
structure Budget where
  bytes : Nat
  byteKind : LimitKind
  items : Nat

namespace Budget

def new (byteKind : LimitKind) : Budget := ⟨0, byteKind, 0⟩

def addItems (b : Budget) (n : Nat) : Except Error Budget := do
  let items ← LimitKind.items.add b.items n
  .ok { b with items }

def addBytes (b : Budget) (n : Nat) : Except Error Budget := do
  let bytes ← b.byteKind.add b.bytes n
  .ok { b with bytes }

def set (b : Budget) (n : Nat) : Except Error Unit :=
  if b.byteKind = .ruleBytes then LimitKind.setItems.check n else LimitKind.factSetItems.check n

def scalarText (b : Budget) (s : String) : Except Error Budget := do
  (if b.byteKind = .ruleBytes then LimitKind.stringBytes else .factStringBytes).check s.utf8ByteSize
  b.addBytes s.utf8ByteSize

def text (b : Budget) (s : String) : Except Error Budget := do
  LimitKind.stringBytes.check s.utf8ByteSize
  b.addBytes s.utf8ByteSize

/-- Blank text and control characters are no identity. -/
def named (s : String) : Except Error Unit :=
  if blank s || s.toList.any isControl then .error .invalidIdentity else .ok ()

def inputVersion (b : Budget) (s : String) : Except Error Budget := do
  LimitKind.inputVersionBytes.check s.utf8ByteSize
  let b ← b.addBytes s.utf8ByteSize
  named s
  .ok b

def identity (b : Budget) (s : String) : Except Error Budget := do
  let b ← b.text s
  named s
  .ok b

end Budget

section

inductive ScalarType where
  | string
  | boolean
  | integer
  | number
  | time
deriving DecidableEq, Repr

inductive FieldType where
  | scalar (type : ScalarType)
  | set (element : ScalarType)
deriving DecidableEq, Repr

/-- The ordered floating-point numbers that are not NaN, up to equality. -/
class Floating (Number : Type) extends LinearOrder Number where
  isFinite : Number → Bool

instance : LinearOrder I64 := LinearOrder.lift' I64.val (fun _ _ h => I64.ext h)

variable (Timepoint Number : Type)

inductive Scalar where
  | string (value : String)
  | boolean (value : Bool)
  | integer (value : I64)
  | number (value : Number)
  | time (value : Timepoint)

variable {Timepoint Number}

/-- Literals compare by their type first. -/
def Scalar.order : Scalar Timepoint Number → String ⊕ₗ Bool ⊕ₗ I64 ⊕ₗ Number ⊕ₗ Timepoint
  | .string v => toLex (.inl v)
  | .boolean v => toLex (.inr (toLex (.inl v)))
  | .integer v => toLex (.inr (toLex (.inr (toLex (.inl v)))))
  | .number v => toLex (.inr (toLex (.inr (toLex (.inr (toLex (.inl v)))))))
  | .time v => toLex (.inr (toLex (.inr (toLex (.inr (toLex (.inr v)))))))

theorem Scalar.order_injective :
    Function.Injective (Scalar.order : Scalar Timepoint Number → _) := by
  intro a b h
  cases a <;> cases b <;> simp_all [Scalar.order]

instance [LinearOrder Timepoint] [Floating Number] : LinearOrder (Scalar Timepoint Number) :=
  LinearOrder.lift' Scalar.order Scalar.order_injective

def Scalar.kind : Scalar Timepoint Number → ScalarType
  | .string _ => .string
  | .boolean _ => .boolean
  | .integer _ => .integer
  | .number _ => .number
  | .time _ => .time

variable [LinearOrder Timepoint] [Floating Number]

def Scalar.validate (v : Scalar Timepoint Number) (b : Budget) : Except Error Budget :=
  match v with
  | .number n => if !Floating.isFinite n then .error .invalidType else .ok b
  | .string s => b.scalarText s
  | _ => .ok b

variable (Timepoint Number) in
/-- A scalar, or a set that keeps its declared element type when empty. -/
inductive Value where
  | scalar (value : Scalar Timepoint Number)
  | set (element : ScalarType) (values : OrdSet (Scalar Timepoint Number))

def Value.kind : Value Timepoint Number → FieldType
  | .scalar v => .scalar v.kind
  | .set element _ => .set element

/-- One pass of the loop over the members of a set. -/
def validateMember (element : ScalarType) (b : Budget) (v : Scalar Timepoint Number) :
    Except Error Budget :=
  if v.kind ≠ element then .error .invalidType else v.validate b

def Value.validate (value : Value Timepoint Number) (b : Budget) : Except Error Budget :=
  match value with
  | .scalar v => do
      let b ← b.addItems 1
      v.validate b
  | .set element values => do
      b.set values.size
      let b ← b.addItems values.size
      values.keys.foldlM (validateMember element) b

end

section

/-- Field operators in declaration order. -/
inductive Op where
  | eq
  | ne
  | isIn
  | notIn
  | lt
  | le
  | gt
  | ge
  | contains
  | notContains
  | containsAny
  | containsAll
  | isNull
  | isNotNull
deriving DecidableEq, Repr

/-- A dictionary entry; the operations are a set. -/
structure Field where
  key : String
  kind : FieldType
  unit : Option String
  operations : List Op
  nullable : Bool
deriving DecidableEq

variable (Timepoint Number : Type) [LinearOrder Timepoint] [Floating Number]

structure Operand where
  value : Value Timepoint Number
  unit : Option String

structure Predicate where
  field : String
  op : Op
  operand : Option (Operand Timepoint Number)

end

/-- Three-valued result of a rule; `match` is a keyword of the language. -/
inductive Decision where
  | isMatch
  | noMatch
  | unknown
deriving DecidableEq, Repr

inductive UnknownReason where
  | null
  | missing
  | deleted
  | unsupported
  | conflict
deriving DecidableEq, Repr

/-- A leaf result with its reason when unknown. -/
inductive Outcome where
  | isMatch
  | noMatch
  | unknown (reason : UnknownReason)
deriving DecidableEq, Repr

def Outcome.decision : Outcome → Decision
  | .isMatch => .isMatch
  | .noMatch => .noMatch
  | .unknown _ => .unknown

def Outcome.fromBool (value : Bool) : Outcome := if value then .isMatch else .noMatch

inductive Quantifier where
  | one
  | any
  | all
deriving DecidableEq, Repr

variable (TenantId Timepoint Number : Type)

/-- A tenant with a validated identifier; tenants compare by their octets. -/
structure ObjectKey where
  tenant : TenantId
  id : String
  valid : ∃ b, (Budget.new .batchBytes).identity id = .ok b

variable {TenantId} in
def ObjectKey.order (k : ObjectKey TenantId) : TenantId ×ₗ String := toLex (k.tenant, k.id)

variable {TenantId} in
theorem ObjectKey.order_injective :
    Function.Injective (ObjectKey.order : ObjectKey TenantId → _) := by
  rintro ⟨t, i, _⟩ ⟨t', i', _⟩ h
  obtain ⟨rfl, rfl⟩ := Prod.mk.inj (toLex.injective h)
  rfl

instance [LinearOrder TenantId] : LinearOrder (ObjectKey TenantId) :=
  LinearOrder.lift' ObjectKey.order ObjectKey.order_injective

variable [LinearOrder Timepoint] [Floating Number]

inductive FactState where
  | known (value : Value Timepoint Number)
  | null
  | deleted
  | conflict
  | missing
  | unsupported
  | denied

structure Fact where
  state : FactState Timepoint Number
  source : String
  snapshotId : String
  observedAt : Timepoint

abbrev Facts := OrdMap String (Fact Timepoint Number)

structure ObjectSnapshot where
  key : ObjectKey TenantId
  memberships : OrdMap String Outcome
  quantifier : Quantifier
  complete : Bool
  contexts : OrdMap String (Facts Timepoint Number)

/-- One bounded range of a frozen input. -/
structure PageInput where
  tenant : TenantId
  id : String
  version : String
  dictionaryVersion : String
  coverage : OrdSet String
  objects : List (ObjectSnapshot TenantId Timepoint Number)
  after : Option (ObjectKey TenantId)

end RssMdm.Group
