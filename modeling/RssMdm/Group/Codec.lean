/- module: Group/Codec
   source: crates/group-postgres/src/codec.rs
   digest: A stored rule is a list of nodes with the places of their children; it restores the rule, and
   what is restored is one tree. -/

import Mathlib.Data.List.Sort
import RssMdm.Group.Splicing
import RssMdm.Lib.Slots

set_option autoImplicit false

namespace RssMdm.Group.Codec

open RssMdm.Lib RssMdm.Lib.Fallible RssMdm.Lib.Int64 RssMdm.Lib.Meter RssMdm.Lib.Slots
open List (foldlM_append foldlM_cons length_append length_map nil_append)

section

structure Invalid

/-- A literal as it is stored; an instant by its seconds. -/
inductive Literal (Number : Type) where
  | string (value : String)
  | boolean (value : Bool)
  | integer (value : I64)
  | number (value : Number)
  | time (value : I64)
deriving DecidableEq

inductive Kind where
  | string
  | boolean
  | integer
  | number
  | time
deriving DecidableEq

inductive Val (Number : Type) where
  | scalar (value : Literal Number)
  | set (element : Kind) (values : List (Literal Number))
deriving DecidableEq

structure FieldDoc where
  key : String
  element : Kind
  set : Bool
  unit : Option String
  operations : List String
  nullable : Bool
deriving DecidableEq

structure OperandDoc (Number : Type) where
  value : Val Number
  unit : Option String
deriving DecidableEq

/-- A node names its children by their places in the list of nodes. -/
inductive NodeDoc (Number : Type) where
  | membership (group : String) (negated : Bool)
  | predicate (field op : String) (operand : Option (OperandDoc Number))
  | and (children : List Nat)
  | or (children : List Nat)
deriving DecidableEq

structure RuleDoc (Number : Type) where
  v : Nat
  tenant : String
  version : String
  dictionaryVersion : String
  fields : List FieldDoc
  nodes : List (NodeDoc Number)
deriving DecidableEq

variable {Number : Type}

def NodeDoc.children : NodeDoc Number → List Nat
  | .and children | .or children => children
  | _ => []

def Literal.Finite [Floating Number] : Literal Number → Prop
  | .number n => Floating.isFinite n = true
  | _ => True

def Val.Finite [Floating Number] : Val Number → Prop
  | .scalar value => value.Finite
  | .set _ values => ∀ value ∈ values, value.Finite

def NodeDoc.Finite [Floating Number] : NodeDoc Number → Prop
  | .predicate _ _ (some o) => o.value.Finite
  | _ => True

end

structure Storage (TenantId Timepoint Number : Type) where
  unixSeconds : Timepoint → I64
  ofSeconds : I64 → Option Timepoint
  printTenant : TenantId → String
  parseTenant : String → Option TenantId
  toVec : RuleDoc Number → Option (List UInt8)
  fromSlice : List UInt8 → Option (RuleDoc Number)

variable {TenantId Timepoint Number : Type} [LinearOrder Timepoint] [Floating Number]

/-- Instants, tenants and finite documents are read back as they were written. -/
structure Storage.Lossless (S : Storage TenantId Timepoint Number) : Prop where
  instants : ∀ t, S.ofSeconds (S.unixSeconds t) = some t
  tenants : ∀ t, S.parseTenant (S.printTenant t) = some t
  documents : ∀ d bytes, (∀ n ∈ d.nodes, n.Finite) → S.toVec d = some bytes →
    S.fromSlice bytes = some d

variable (S : Storage TenantId Timepoint Number)

def maxDocument : Nat := 16 * 1024 * 1024

def check (ok : Prop) [Decidable ok] : Except Invalid Unit := if ok then .ok () else .error ⟨⟩

/-- `ok_or(Invalid)`. -/
def orInvalid {α : Type} : Option α → Except Invalid α
  | some a => .ok a
  | none => .error ⟨⟩

/-- `map_err(|_| Invalid)`. -/
def accepted {α : Type} (x : Except Error α) : Except Invalid α := x.mapError fun _ => ⟨⟩

def encode (v : RuleDoc Number) : Except Invalid (List UInt8) := do
  let bytes ← orInvalid (S.toVec v)
  check (bytes.length ≤ maxDocument)
  .ok bytes

def decode (bytes : List UInt8) : Except Invalid (RuleDoc Number) := do
  check (bytes.length ≤ maxDocument)
  orInvalid (S.fromSlice bytes)

def literal : Scalar Timepoint Number → Literal Number
  | .string s => .string s
  | .boolean b => .boolean b
  | .integer i => .integer i
  | .number n => .number n
  | .time t => .time (S.unixSeconds t)

def scalar : Literal Number → Except Invalid (Scalar Timepoint Number)
  | .string s => do
      check (s.utf8ByteSize ≤ LimitKind.stringBytes.maximum)
      .ok (.string s)
  | .boolean b => .ok (.boolean b)
  | .integer i => .ok (.integer i)
  | .number n => do
      check (Floating.isFinite n = true)
      .ok (.number n)
  | .time t => do
      let t ← orInvalid (S.ofSeconds t)
      .ok (.time t)

def kind : ScalarType → Kind
  | .string => .string
  | .boolean => .boolean
  | .integer => .integer
  | .number => .number
  | .time => .time

def scalarType : Kind → ScalarType
  | .string => .string
  | .boolean => .boolean
  | .integer => .integer
  | .number => .number
  | .time => .time

def val : Value Timepoint Number → Val Number
  | .scalar v => .scalar (literal S v)
  | .set element values => .set (kind element) (values.keys.map (literal S))

def value : Val Number → Except Invalid (Value Timepoint Number)
  | .scalar v => do
      let v ← scalar S v
      .ok (.scalar v)
  | .set element values => do
      check (values.length ≤ LimitKind.setItems.maximum)
      let scalars ← values.mapM (scalar S)
      let set := OrdSet.ofList scalars
      check (set.size = values.length ∧ set.keys.all (fun s => s.kind = scalarType element))
      .ok (.set (scalarType element) set)

def op : Op → String
  | .eq => "eq"
  | .ne => "ne"
  | .isIn => "in"
  | .notIn => "not_in"
  | .lt => "lt"
  | .le => "le"
  | .gt => "gt"
  | .ge => "ge"
  | .contains => "contains"
  | .notContains => "not_contains"
  | .containsAny => "contains_any"
  | .containsAll => "contains_all"
  | .isNull => "is_null"
  | .isNotNull => "is_not_null"

def operation : String → Except Invalid Op
  | "eq" => .ok .eq
  | "ne" => .ok .ne
  | "in" => .ok .isIn
  | "not_in" => .ok .notIn
  | "lt" => .ok .lt
  | "le" => .ok .le
  | "gt" => .ok .gt
  | "ge" => .ok .ge
  | "contains" => .ok .contains
  | "not_contains" => .ok .notContains
  | "contains_any" => .ok .containsAny
  | "contains_all" => .ok .containsAll
  | "is_null" => .ok .isNull
  | "is_not_null" => .ok .isNotNull
  | _ => .error ⟨⟩

def operandDoc (o : Operand Timepoint Number) : OperandDoc Number := ⟨val S o.value, o.unit⟩

mutual

/-- The nodes of a tree, each after its children, and the place of its root. -/
def nodes (out : List (NodeDoc Number)) :
    Criteria Timepoint Number → List (NodeDoc Number) × Nat
  | .membership group negated => (out ++ [.membership group negated], out.length)
  | .predicate p =>
      (out ++ [.predicate p.field (op p.op) (p.operand.map (operandDoc S))], out.length)
  | .and children =>
      let r := nodesAll out children
      (r.1 ++ [.and r.2], r.1.length)
  | .or children =>
      let r := nodesAll out children
      (r.1 ++ [.or r.2], r.1.length)

def nodesAll (out : List (NodeDoc Number)) :
    List (Criteria Timepoint Number) → List (NodeDoc Number) × List Nat
  | [] => (out, [])
  | c :: rest =>
      let first := nodes out c
      let later := nodesAll first.1 rest
      (later.1, first.2 :: later.2)

end

def fieldDoc (f : Field) : FieldDoc :=
  let (element, set) := match f.kind with
    | .scalar t => (kind t, false)
    | .set t => (kind t, true)
  { key := f.key, element, set, unit := f.unit, operations := f.operations.map op
    nullable := f.nullable }

def ruleDoc (rule : Rule Timepoint Number TenantId) : RuleDoc Number where
  v := 1
  tenant := S.printTenant rule.tenant
  version := rule.version
  dictionaryVersion := rule.dictionaryVersion
  fields := rule.fields.values.map fieldDoc
  nodes := (nodes S [] rule.criteria).1

def encodeRule (rule : Rule Timepoint Number TenantId) : Except Invalid (List UInt8) :=
  encode S (ruleDoc S rule)

theorem ctorIdx_injective : Function.Injective Op.ctorIdx := by
  intro a b h
  cases a <;> cases b <;> first | rfl | cases h

instance : LinearOrder Op := LinearOrder.lift' Op.ctorIdx ctorIdx_injective

def field (f : FieldDoc) : Except Invalid Field := do
  let kind := if f.set then .set (scalarType f.element) else .scalar (scalarType f.element)
  let operations ← f.operations.mapM operation
  .ok { key := f.key, kind, unit := f.unit, operations := (OrdSet.ofList operations).keys
        nullable := f.nullable }

def operand (o : OperandDoc Number) : Except Invalid (Operand Timepoint Number) := do
  let value ← value S o.value
  .ok { value, unit := o.unit }

def operandOf : Option (OperandDoc Number) → Except Invalid (Option (Operand Timepoint Number))
  | none => .ok none
  | some o => do
      let o ← operand S o
      .ok (some o)

/-- The trees built so far; the slot of a tree that became a child is empty. -/
abbrev Forest (Timepoint Number : Type) [LinearOrder Timepoint] [Floating Number] :=
  List (Option (Criteria Timepoint Number))

def takeChildren (indices : List Nat) (built : Forest Timepoint Number) :
    Except Invalid (List (Criteria Timepoint Number) × Forest Timepoint Number) := do
  check (indices.length ≤ LimitKind.nodes.maximum)
  orInvalid (takeAll built indices)

/-- The tree of a node, from the trees of its children. -/
def tree (built : Forest Timepoint Number) :
    NodeDoc Number → Except Invalid (Criteria Timepoint Number × Forest Timepoint Number)
  | .membership group negated => do
      let c ← accepted (Criteria.newMembership group negated)
      .ok (c, built)
  | .predicate field op value => do
      let op ← operation op
      let operand ← operandOf S value
      let c ← accepted (Criteria.newPredicate { field, op, operand })
      .ok (c, built)
  | .and children => do
      let (children, built) ← takeChildren children built
      let c ← accepted (Criteria.group children true)
      .ok (c, built)
  | .or children => do
      let (children, built) ← takeChildren children built
      let c ← accepted (Criteria.group children false)
      .ok (c, built)

/-- One pass of the loop over the nodes. -/
def build (built : Forest Timepoint Number) (n : NodeDoc Number) :
    Except Invalid (Forest Timepoint Number) := do
  let (c, built) ← tree S built n
  .ok (built ++ [some c])

def root (built : Forest Timepoint Number) : Except Invalid (Criteria Timepoint Number) := do
  let root ← orInvalid built.getLast?.join
  check (built.dropLast.all Option.isNone = true)
  .ok root

def ruleOf (d : RuleDoc Number) : Except Invalid (Rule Timepoint Number TenantId) := do
  check (d.v = 1 ∧ d.fields.length ≤ LimitKind.fields.maximum ∧ d.nodes ≠ [] ∧
    d.nodes.length ≤ LimitKind.nodes.maximum)
  let fields ← d.fields.mapM field
  let built ← d.nodes.foldlM (build S) []
  let root ← root built
  let tenant ← orInvalid (S.parseTenant d.tenant)
  accepted (Rule.new tenant d.version d.dictionaryVersion fields root)

def decodeRule (bytes : List UInt8) : Except Invalid (Rule Timepoint Number TenantId) := do
  let d ← decode S bytes
  ruleOf S d

variable {S} {b b' : Budget} {α : Type}

theorem foldlM_perm {ε σ : Type} {f : σ → α → Except ε σ} {as bs : List α}
    (comm : ∀ s t a b, [a, b].foldlM f s = .ok t → [b, a].foldlM f s = .ok t) (perm : as.Perm bs)
    {s t : σ} (h : as.foldlM f s = .ok t) : bs.foldlM f s = .ok t := by
  induction perm generalizing s with
  | nil => exact h
  | cons _ _ ih =>
    obtain ⟨s₁, first, later⟩ := of_bind h
    exact bind_eq_ok.mpr ⟨s₁, first, ih later⟩
  | swap _ _ rest =>
    have split : ∀ x y : α, x :: y :: rest = [x, y] ++ rest := fun _ _ => rfl
    rw [split, foldlM_append] at h ⊢
    obtain ⟨s₁, first, later⟩ := of_bind h
    exact bind_eq_ok.mpr ⟨s₁, comm _ _ _ _ first, later⟩
  | trans _ _ ih ih' => exact ih' (ih h)

theorem check_eq_ok {ok : Prop} [Decidable ok] : check ok = .ok () ↔ ok := by
  unfold check
  split <;> simp [*]

theorem orInvalid_eq_ok {x : Option α} {a : α} : orInvalid x = .ok a ↔ x = some a := by
  cases x <;> simp [orInvalid]

theorem accepted_eq_ok {x : Except Error α} {a : α} : accepted x = .ok a ↔ x = .ok a :=
  mapError_eq_ok

theorem scalarType_kind (t : ScalarType) : scalarType (kind t) = t := by cases t <;> rfl

theorem operation_op (o : Op) : operation (op o) = .ok o := by cases o <;> rfl

omit [LinearOrder Timepoint] in
theorem scalar_literal (lossless : S.Lossless) (rule : b.byteKind = .ruleBytes)
    {v : Scalar Timepoint Number} (h : v.validate b = .ok b') :
    scalar S (literal S v) = .ok v ∧ (literal S v).Finite := by
  cases v with
  | string =>
    rw [Scalar.validate, Budget.scalarText, if_pos rule] at h
    obtain ⟨short, -⟩ := of_check h
    rw [literal, scalar, check_eq_ok.mpr (LimitKind.check_eq_ok.mp short)]
    exact ⟨rfl, trivial⟩
  | boolean | integer => exact ⟨rfl, trivial⟩
  | number n =>
    obtain ⟨finite, -⟩ := of_guard h
    have finite : Floating.isFinite n = true := by simpa using finite
    rw [literal, scalar, check_eq_ok.mpr finite]
    exact ⟨rfl, finite⟩
  | time t =>
    rw [literal, scalar, orInvalid_eq_ok.mpr (lossless.instants t)]
    exact ⟨rfl, trivial⟩

omit [LinearOrder Timepoint] in
theorem members_literal (lossless : S.Lossless) {element : ScalarType}
    (vs : List (Scalar Timepoint Number)) (rule : b.byteKind = .ruleBytes)
    (h : vs.foldlM (validateMember element) b = .ok b') :
    ∀ v ∈ vs, v.kind = element ∧ scalar S (literal S v) = .ok v ∧ (literal S v).Finite := by
  induction vs generalizing b with
  | nil => simp
  | cons v _ ih =>
    obtain ⟨b₁, first, later⟩ := of_bind h
    obtain ⟨fits, first⟩ := of_guard first
    have rule' : b₁.byteKind = .ruleBytes := (v.validate_metered.grows first).1.symm.trans rule
    intro w mem
    rcases List.mem_cons.mp mem with rfl | mem
    · exact ⟨not_not.mp fits, scalar_literal lossless rule first⟩
    · exact ih rule' later w mem

theorem value_val (lossless : S.Lossless) (rule : b.byteKind = .ruleBytes)
    {v : Value Timepoint Number} (h : v.validate b = .ok b') :
    value S (val S v) = .ok v ∧ (val S v).Finite := by
  cases v with
  | scalar =>
    obtain ⟨b₁, added, h⟩ := of_bind h
    obtain ⟨restored, finite⟩ :=
      scalar_literal lossless (((Budget.addItems_metered 1).grows added).1.symm.trans rule) h
    rw [val, value, restored]
    exact ⟨rfl, finite⟩
  | set element values =>
    obtain ⟨few, h⟩ := of_check h
    rw [Budget.set, if_pos rule, LimitKind.check_eq_ok] at few
    obtain ⟨b₁, added, h⟩ := of_bind h
    have members := members_literal lossless values.keys
      (((Budget.addItems_metered _).grows added).1.symm.trans rule) h
    have length : (values.keys.map (literal S)).length = values.size := by
      rw [length_map, OrdMap.keys, length_map, OrdMap.size]
    have scalars : (values.keys.map (literal S)).mapM (scalar S) = .ok values.keys := by
      rw [mapM_eq_ok, List.forall₂_map_left_iff, List.forall₂_same]
      exact fun v mem => (members v mem).2.1
    have whole : OrdSet.ofList values.keys = values := OrdSet.ext_keys fun _ => OrdSet.mem_ofList
    have typed : values.keys.all (fun s => s.kind = scalarType (kind element)) = true := by
      rw [List.all_eq_true, scalarType_kind]
      exact fun v mem => by simpa using (members v mem).1
    constructor
    · rw [val, value, check_eq_ok.mpr (length ▸ few), ok_bind, scalars, ok_bind]
      dsimp only
      rw [whole, check_eq_ok.mpr ⟨length.symm, typed⟩, scalarType_kind]
      rfl
    · intro stored mem
      obtain ⟨v, member, rfl⟩ := List.mem_map.mp mem
      exact (members v member).2.2

variable {p : Predicate Timepoint Number}

theorem operandOf_operandDoc (lossless : S.Lossless) {c : Criteria Timepoint Number}
    (h : Criteria.newPredicate p = .ok c) :
    operandOf S (p.operand.map (operandDoc S)) = .ok p.operand ∧
      ∀ o, p.operand = some o → (val S o.value).Finite := by
  obtain ⟨b, named, h⟩ := of_bind h
  cases given : p.operand with
  | none => exact ⟨rfl, fun o same => by cases same⟩
  | some =>
    rw [given] at h
    obtain ⟨b', valid, h⟩ := of_bind h
    have rule : (Budget.new .ruleBytes).byteKind = b.byteKind :=
      ((Budget.identity_metered p.field).grows named).1
    obtain ⟨restored, finite⟩ := value_val lossless rule.symm valid
    constructor
    · rw [Option.map_some, operandOf, operand, operandDoc, restored]
      rfl
    · intro o' same
      exact Option.some.inj same ▸ finite

/-- A tree of the builders; the source can make no other. -/
inductive Bounded : Criteria Timepoint Number → Prop
  | membership {group : String} {negated : Bool} {c : Criteria Timepoint Number} :
      Criteria.newMembership group negated = .ok c → Bounded c
  | predicate {p : Predicate Timepoint Number} {c : Criteria Timepoint Number} :
      Criteria.newPredicate p = .ok c → Bounded c
  | group {children : List (Criteria Timepoint Number)} {conjunction : Bool}
      {c : Criteria Timepoint Number} : (∀ child ∈ children, Bounded child) →
      Criteria.group children conjunction = .ok c → Bounded c

variable {c : Criteria Timepoint Number} {children : List (Criteria Timepoint Number)}
  {out added : List (NodeDoc Number)}

theorem newMembership_eq_ok {group : String} {negated : Bool}
    (h : Criteria.newMembership group negated = .ok c) : c = .membership group negated := by
  obtain ⟨b, -, h⟩ := of_bind h
  exact (Except.ok.inj h).symm

theorem newPredicate_eq_ok (h : Criteria.newPredicate p = .ok c) : c = .predicate p := by
  obtain ⟨b, -, h⟩ := of_bind h
  split at h
  · exact (Except.ok.inj h).symm
  · obtain ⟨b, -, h⟩ := of_bind h
    obtain ⟨b, -, h⟩ := of_bind h
    exact (Except.ok.inj h).symm

theorem foldlM_count {n m : Nat}
    (h : children.foldlM (fun count c => LimitKind.nodes.add count c.count) n = .ok m)
    (within : n ≤ LimitKind.nodes.maximum) :
    m = n + Criteria.countAll children ∧ m ≤ LimitKind.nodes.maximum := by
  induction children generalizing n with
  | nil =>
    cases h
    exact ⟨rfl, within⟩
  | cons _ _ ih =>
    obtain ⟨n', first, later⟩ := of_bind h
    obtain ⟨-, within, rfl⟩ := LimitKind.add_eq_ok.mp first
    obtain ⟨total, within⟩ := ih later within
    exact ⟨by rw [total, Criteria.countAll, Nat.add_assoc], within⟩

theorem group_eq_ok {conjunction : Bool} (h : Criteria.group children conjunction = .ok c) :
    c = (if conjunction then .and children else .or children) ∧
      children.length ≤ LimitKind.nodes.maximum ∧
      1 + Criteria.countAll children ≤ LimitKind.nodes.maximum := by
  obtain ⟨-, h⟩ := of_guard h
  obtain ⟨few, h⟩ := of_check h
  obtain ⟨n, counted, h⟩ := of_bind h
  obtain ⟨-, h⟩ := of_check h
  obtain ⟨rfl, within⟩ := foldlM_count counted (by decide)
  exact ⟨(Except.ok.inj h).symm, LimitKind.check_eq_ok.mp few, within⟩

theorem count_pos (c : Criteria Timepoint Number) : c.count - 1 + 1 = c.count := by
  cases c <;> rw [Criteria.count] <;> omega

theorem Bounded.count_le (bounded : Bounded c) : c.count ≤ LimitKind.nodes.maximum := by
  cases bounded with
  | membership made =>
    rw [newMembership_eq_ok made, Criteria.count]
    decide
  | predicate made =>
    rw [newPredicate_eq_ok made, Criteria.count]
    decide
  | @group _ conjunction _ _ made =>
    obtain ⟨rfl, -, within⟩ := group_eq_ok made
    cases conjunction <;> exact within

/-- Slots of which the last holds a tree, one for each node of the tree. -/
def slot (c : Criteria Timepoint Number) : Nat × Criteria Timepoint Number := (c.count - 1, c)

theorem length_slots (cs : List (Criteria Timepoint Number)) :
    ((cs.map slot).flatMap block).length = Criteria.countAll cs := by
  induction cs with
  | nil => rfl
  | cons _ _ ih =>
    rw [List.map_cons, List.flatMap_cons, length_append, ih, length_block, slot, count_pos,
      Criteria.countAll]

theorem length_ends (start : Nat) (slots : List (Nat × α)) :
    (ends start slots).length = slots.length := by
  induction slots generalizing start with
  | nil => rfl
  | cons _ _ ih => rw [ends, List.length_cons, ih, List.length_cons]

/-- The nodes that flattening appends to `out`: rebuilding them adds the slots of the trees. -/
structure Rebuilds (S : Storage TenantId Timepoint Number) (out : List (NodeDoc Number))
    (slots : List (Nat × Criteria Timepoint Number)) (added : List (NodeDoc Number)) : Prop where
  length : added.length = (slots.flatMap block).length
  finite : ∀ n ∈ added, n.Finite
  run : ∀ forest, forest.length = out.length →
    added.foldlM (build S) forest = .ok (forest ++ slots.flatMap block)

variable {n : NodeDoc Number}

/-- A node after the nodes of its children. -/
theorem Rebuilds.snoc (rebuilds : Rebuilds S out (children.map slot) added)
    (count : c.count = 1 + Criteria.countAll children) (finite : n.Finite)
    (step : ∀ forest, forest.length = out.length →
      tree S (forest ++ (children.map slot).flatMap block) n =
        .ok (c, forest ++ List.replicate (Criteria.countAll children) none)) :
    Rebuilds S out [slot c] (added ++ [n]) where
  length := by
    have length := rebuilds.length
    rw [length_slots] at length
    simp [slot, length, count]
  finite m mem := by
    rcases List.mem_append.mp mem with mem | mem
    · exact rebuilds.finite m mem
    · exact List.mem_singleton.mp mem ▸ finite
  run forest same := by
    rw [foldlM_append, rebuilds.run forest same, ok_bind, foldlM_cons, build,
      step forest same, ok_bind]
    have own : c.count - 1 = Criteria.countAll children := by omega
    simp [slot, block, own, pure, Except.pure]

theorem nodesAll_eq (cs : List (Criteria Timepoint Number))
    (each : ∀ c ∈ cs, ∀ out, ∃ added, nodes S out c = (out ++ added, out.length + (c.count - 1)) ∧
      Rebuilds S out [slot c] added) (out : List (NodeDoc Number)) :
    ∃ added, nodesAll S out cs = (out ++ added, ends out.length (cs.map slot)) ∧
      Rebuilds S out (cs.map slot) added := by
  induction cs generalizing out with
  | nil =>
    exact ⟨[], by simp [nodesAll, ends], rfl, by simp, fun forest _ => by simp [pure, Except.pure]⟩
  | cons c _ ih =>
    obtain ⟨added, flat, rebuilds⟩ := each c (.head _) out
    have length : added.length = c.count := by
      rw [rebuilds.length, List.flatMap_singleton, length_block, slot, count_pos]
    obtain ⟨later, flat', rebuilds'⟩ :=
      ih (fun c mem => each c (.tail _ mem)) (out ++ added)
    refine ⟨added ++ later, ?_, ?_, ?_, ?_⟩
    · have start : (out ++ added).length = out.length + (c.count - 1) + 1 := by
        rw [length_append, length, ← count_pos c]
        omega
      simp only [nodesAll, flat]
      rw [flat', start, List.map_cons, ends, List.append_assoc, slot]
    · rw [length_append, rebuilds.length, rebuilds'.length]
      simp
    · intro n mem
      rcases List.mem_append.mp mem with mem | mem
      · exact rebuilds.finite n mem
      · exact rebuilds'.finite n mem
    · intro forest same
      rw [foldlM_append, rebuilds.run forest same, ok_bind, rebuilds'.run]
      · simp
      · rw [length_append, ← rebuilds.length, length_append, same]

theorem takeChildren_slots (forest : Forest Timepoint Number)
    (few : children.length ≤ LimitKind.nodes.maximum) :
    takeChildren (ends forest.length (children.map slot))
        (forest ++ (children.map slot).flatMap block) =
      .ok (children, forest ++ List.replicate (Criteria.countAll children) none) := by
  have fits : (ends forest.length (children.map slot)).length ≤ LimitKind.nodes.maximum := by
    rw [length_ends, length_map]
    exact few
  have own : (children.map slot).map Prod.snd = children := by simp [slot, Function.comp_def]
  rw [takeChildren, check_eq_ok.mpr fits, ok_bind, takeAll_blocks, own, length_slots, orInvalid]

/-- Flattening and rebuilding a tree, by the way it was built. -/
theorem nodes_eq (lossless : S.Lossless) (bounded : Bounded c) (out : List (NodeDoc Number)) :
    ∃ added, nodes S out c = (out ++ added, out.length + (c.count - 1)) ∧
      Rebuilds S out [slot c] added := by
  have start : ∀ out : List (NodeDoc Number),
      Rebuilds S out (([] : List (Criteria Timepoint Number)).map slot) [] :=
    fun out => ⟨rfl, by simp, fun forest _ => by simp [pure, Except.pure]⟩
  induction bounded generalizing out with
  | @membership _ _ _ made =>
    obtain rfl := newMembership_eq_ok made
    refine ⟨_, by rw [nodes, Criteria.count]; rfl, (start out).snoc (by rfl) ?_ ?_⟩
    · trivial
    · intro forest _
      simp [tree, accepted_eq_ok.mpr made, Criteria.countAll]
  | @predicate p _ made =>
    obtain rfl := newPredicate_eq_ok made
    obtain ⟨restored, finite⟩ := operandOf_operandDoc lossless made
    refine ⟨_, by rw [nodes, Criteria.count]; rfl, (start out).snoc (by rfl) ?_ ?_⟩
    · cases given : p.operand with
      | none => trivial
      | some o => exact finite o given
    · intro forest _
      simp [tree, operation_op, restored, accepted_eq_ok.mpr made, Criteria.countAll]
  | @group children conjunction c _ made ih =>
    obtain ⟨added, flat, rebuilds⟩ := nodesAll_eq children (fun c mem out => ih c mem out) out
    obtain ⟨rfl, few, -⟩ := group_eq_ok made
    have place : (out ++ added).length = out.length + Criteria.countAll children := by
      rw [length_append, rebuilds.length, length_slots]
    cases conjunction with
    | true =>
      refine ⟨added ++ [.and (ends out.length (children.map slot))], ?_,
        rebuilds.snoc (by rfl) ?_ ?_⟩
      · simpa [nodes, flat, Criteria.count] using place
      · trivial
      · intro forest same
        rw [tree, ← same, takeChildren_slots forest few, ok_bind]
        dsimp only
        rw [accepted_eq_ok.mpr made]
        rfl
    | false =>
      refine ⟨added ++ [.or (ends out.length (children.map slot))], ?_,
        rebuilds.snoc (by rfl) ?_ ?_⟩
      · simpa [nodes, flat, Criteria.count] using place
      · trivial
      · intro forest same
        rw [tree, ← same, takeChildren_slots forest few, ok_bind]
        dsimp only
        rw [accepted_eq_ok.mpr made]
        rfl

theorem identity_eq_ok {s : String} :
    b.identity s = .ok b' ↔ LimitKind.stringBytes.check s.utf8ByteSize = .ok () ∧
      Budget.named s = .ok () ∧ b.bytes + s.utf8ByteSize < 2 ^ 64 ∧
      b.bytes + s.utf8ByteSize ≤ b.byteKind.maximum ∧
      b' = { b with bytes := b.bytes + s.utf8ByteSize } := by
  constructor
  · intro h
    obtain ⟨b₁, text, h⟩ := of_bind h
    obtain ⟨short, text⟩ := of_check text
    obtain ⟨bytes, added, text⟩ := of_bind text
    obtain ⟨fits, within, rfl⟩ := LimitKind.add_eq_ok.mp added
    obtain ⟨named, h⟩ := of_check h
    cases text
    exact ⟨short, named, fits, within, (Except.ok.inj h).symm⟩
  · rintro ⟨short, named, fits, within, rfl⟩
    rw [Budget.identity, Budget.text, short, ok_bind, Budget.addBytes,
      LimitKind.add_eq_ok.mpr ⟨fits, within, rfl⟩, ok_bind, ok_bind, named, ok_bind]

theorem identity_comm (b b' : Budget) (s t : String) (h : [s, t].foldlM Budget.identity b = .ok b') :
    [t, s].foldlM Budget.identity b = .ok b' := by
  obtain ⟨b₁, first, h⟩ := of_bind h
  obtain ⟨b₂, second, h⟩ := of_bind h
  cases h
  obtain ⟨short, named, -, -, rfl⟩ := identity_eq_ok.mp first
  obtain ⟨short', named', fits', within', rfl⟩ := identity_eq_ok.mp second
  dsimp only at fits' within'
  have first' : b.identity t = .ok { b with bytes := b.bytes + t.utf8ByteSize } :=
    identity_eq_ok.mpr ⟨short', named', by omega, by omega, rfl⟩
  rw [foldlM_cons, first', ok_bind, foldlM_cons, identity_eq_ok.mpr
    ⟨short, named, by dsimp only; omega, by dsimp only; omega, rfl⟩]
  simp [pure, Except.pure, Nat.add_right_comm]

def texts (f : Field) : List String := f.key :: f.unit.toList

variable {f : Field}

theorem texts_eq_ok {b₂ : Budget} :
    (texts f).foldlM Budget.identity b = .ok b₂ ↔
      ∃ b₁, b.identity f.key = .ok b₁ ∧ Criteria.unitIdentity b₁ f.unit = .ok b₂ := by
  rw [texts, foldlM_cons, bind_eq_ok]
  cases f.unit with
  | none => rfl
  | some => simp [Criteria.unitIdentity]

variable {acc : OrdMap String Field × Budget} {m : OrdMap String Field}

theorem addField_eq_ok :
    addField (m, b) f = .ok acc ↔ ∃ b', (texts f).foldlM Budget.identity b = .ok b' ∧
      ¬(f.operations.isEmpty || f.operations.any (fun op => !allows f op)) = true ∧
      f.key ∉ m.keys ∧ acc = (m.insert f.key f, b') := by
  have fresh : m.contains f.key = false ↔ f.key ∉ m.keys := by
    rw [← OrdMap.get?_eq_none, OrdMap.contains, Option.isSome_eq_false_iff, Option.isNone_iff_eq_none]
  constructor
  · intro h
    obtain ⟨b₁, key, h⟩ := of_bind h
    obtain ⟨b₂, unit, h⟩ := of_bind h
    obtain ⟨sound, h⟩ := of_guard h
    obtain ⟨new, h⟩ := of_guard h
    exact ⟨b₂, texts_eq_ok.mpr ⟨b₁, key, unit⟩, sound, fresh.mp (by simpa using new),
      (Except.ok.inj h).symm⟩
  · rintro ⟨b₂, passed, sound, new, rfl⟩
    obtain ⟨b₁, key, unit⟩ := texts_eq_ok.mp passed
    unfold addField
    rw [key, ok_bind, unit, ok_bind, if_neg sound, if_neg (by simpa using fresh.mpr new)]

theorem mem_keys_insert {k j : String} : k ∈ (m.insert j f).keys ↔ k = j ∨ k ∈ m.keys := by
  rw [OrdMap.mem_keys, OrdMap.mem_keys, OrdMap.get?_insert]
  split <;> simp [*]

theorem addField_comm (acc acc' : OrdMap String Field × Budget) (f g : Field)
    (h : [f, g].foldlM addField acc = .ok acc') : [g, f].foldlM addField acc = .ok acc' := by
  obtain ⟨m, b⟩ := acc
  obtain ⟨acc₁, first, h⟩ := of_bind h
  obtain ⟨acc₂, second, h⟩ := of_bind h
  cases h
  obtain ⟨b₁, charged, sound, fresh, rfl⟩ := addField_eq_ok.mp first
  obtain ⟨b₂, charged', sound', fresh', rfl⟩ := addField_eq_ok.mp second
  have both : (texts f ++ texts g).foldlM Budget.identity b = .ok b₂ := by
    rw [foldlM_append, charged, ok_bind, charged']
  have both := foldlM_perm identity_comm List.perm_append_comm both
  rw [foldlM_append] at both
  obtain ⟨b₃, charged, charged'⟩ := of_bind both
  rw [mem_keys_insert, not_or] at fresh'
  have swap : (m.insert g.key g).insert f.key f = (m.insert f.key f).insert g.key g := by
    apply OrdMap.ext
    intro k
    simp only [OrdMap.get?_insert]
    by_cases own : k = f.key
    · simp [own, Ne.symm fresh'.1]
    · simp [own]
  rw [foldlM_cons, addField_eq_ok.mpr ⟨b₃, charged, sound', fresh'.2, rfl⟩, ok_bind,
    foldlM_cons, addField_eq_ok.mpr ⟨b₂, charged', sound, ?_, rfl⟩, ok_bind, swap]
  · rfl
  · rw [mem_keys_insert, not_or]
    exact ⟨Ne.symm fresh'.1, fresh⟩

theorem entries_of_foldlM {fields : List Field} (h : fields.foldlM addField (m, b) = .ok acc) :
    acc.1.entries.Perm (fields.map (fun f => (f.key, f)) ++ m.entries) := by
  induction fields generalizing m b with
  | nil =>
    cases h
    exact .refl _
  | cons f _ ih =>
    obtain ⟨acc₁, first, later⟩ := of_bind h
    obtain ⟨b₁, -, -, fresh, rfl⟩ := addField_eq_ok.mp first
    exact (ih later).trans (((OrdMap.perm_insert fresh f).append_left _).trans List.perm_middle)

/-- A dictionary read back in the order of its keys compiles to the same rule. -/
theorem compile_values {version dictionaryVersion : String} {fields : List Field}
    {criteria : Criteria Timepoint Number} {dictionary : OrdMap String Field}
    {required : OrdSet String}
    (h : compile version dictionaryVersion fields criteria = .ok (dictionary, required)) :
    dictionary.values.Perm fields ∧
      compile version dictionaryVersion dictionary.values criteria = .ok (dictionary, required) := by
  obtain ⟨b₁, named, h⟩ := of_bind h
  obtain ⟨b₂, named', h⟩ := of_bind h
  obtain ⟨few, h⟩ := of_check h
  obtain ⟨⟨d, b₃⟩, gathered, h⟩ := of_bind h
  obtain ⟨⟨required', b₄⟩, valid, h⟩ := of_bind h
  cases h
  have values : dictionary.values.Perm fields := by
    have perm := (entries_of_foldlM gathered).map Prod.snd
    rwa [OrdMap.empty, List.append_nil, List.map_map,
      show (Prod.snd ∘ fun f : Field => (f.key, f)) = id from rfl, List.map_id] at perm
  have stored := foldlM_perm addField_comm values.symm gathered
  refine ⟨values, ?_⟩
  rw [compile, named, ok_bind, named', ok_bind, values.length_eq, few, ok_bind, stored, ok_bind]
  dsimp only
  rw [valid, ok_bind]

theorem field_fieldDoc (ordered : f.operations.Pairwise (· < ·)) : field (fieldDoc f) = .ok f := by
  have operations : (f.operations.map op).mapM operation = .ok f.operations := by
    rw [mapM_eq_ok, List.forall₂_map_left_iff, List.forall₂_same]
    exact fun o _ => operation_op o
  have whole : (OrdSet.ofList f.operations).keys = f.operations :=
    (OrdSet.pairwise_keys _).eq_of_mem_iff ordered fun _ => OrdSet.mem_ofList
  obtain ⟨key, kind, unit, ops, nullable⟩ := f
  cases kind <;> simp_all [field, fieldDoc, scalarType_kind]

variable {tenant : TenantId} {version dictionaryVersion : String} {fields : List Field}
  {criteria : Criteria Timepoint Number} {rule : Rule Timepoint Number TenantId}
  {bytes : List UInt8}

theorem root_block (c : Criteria Timepoint Number) : root (block (slot c)) = .ok c := by
  rw [root, block, List.getLast?_concat, List.dropLast_concat,
    Option.join_some, orInvalid, ok_bind, check_eq_ok.mpr (by simp)]
  rfl

theorem ruleOf_ruleDoc (lossless : S.Lossless) (bounded : Bounded criteria)
    (ordered : ∀ f ∈ fields, f.operations.Pairwise (· < ·))
    (made : Rule.new tenant version dictionaryVersion fields criteria = .ok rule) :
    ruleOf S (ruleDoc S rule) = .ok rule ∧ ∀ n ∈ (ruleDoc S rule).nodes, n.Finite := by
  obtain ⟨compiled, rfl, rfl, rfl, rfl⟩ := Rule.new_eq_ok.mp made
  obtain ⟨values, again⟩ := compile_values compiled
  obtain ⟨added, flat, rebuilds⟩ := nodes_eq lossless bounded []
  rw [nil_append] at flat
  have few : rule.fields.values.length ≤ LimitKind.fields.maximum := by
    rw [values.length_eq]
    obtain ⟨b₁, -, compiled⟩ := of_bind compiled
    obtain ⟨b₂, -, compiled⟩ := of_bind compiled
    exact LimitKind.check_eq_ok.mp (of_check compiled).1
  have length : added.length = rule.criteria.count := by
    rw [rebuilds.length, List.flatMap_singleton, length_block, slot, count_pos]
  have inhabited : added ≠ [] := by
    intro empty
    have pos := count_pos rule.criteria
    rw [empty, List.length_nil] at length
    omega
  have restored : (rule.fields.values.map fieldDoc).mapM field = .ok rule.fields.values := by
    rw [mapM_eq_ok, List.forall₂_map_left_iff, List.forall₂_same]
    exact fun f mem => field_fieldDoc (ordered f (values.mem_iff.mp mem))
  have built := rebuilds.run [] rfl
  rw [nil_append, List.flatMap_singleton] at built
  simp only [ruleDoc, flat]
  refine ⟨?_, rebuilds.finite⟩
  rw [ruleOf, check_eq_ok.mpr ⟨rfl, by rwa [length_map], inhabited, length ▸ bounded.count_le⟩,
    ok_bind]
  rw [restored, ok_bind, built, ok_bind, root_block, ok_bind,
    orInvalid_eq_ok.mpr (lossless.tenants _), ok_bind, accepted_eq_ok, Rule.new_eq_ok]
  exact ⟨again, rfl, rfl, rfl, rfl⟩

theorem rule_restored (lossless : S.Lossless) (bounded : Bounded criteria)
    (ordered : ∀ f ∈ fields, f.operations.Pairwise (· < ·))
    (made : Rule.new tenant version dictionaryVersion fields criteria = .ok rule)
    (stored : encodeRule S rule = .ok bytes) : decodeRule S bytes = .ok rule := by
  obtain ⟨restored, finite⟩ := ruleOf_ruleDoc lossless bounded ordered made
  obtain ⟨bytes', printed, stored⟩ := of_bind stored
  obtain ⟨short, stored⟩ := of_check stored
  cases stored
  rw [decodeRule, decode, short, ok_bind,
    orInvalid_eq_ok.mpr (lossless.documents _ _ finite (orInvalid_eq_ok.mp printed)), ok_bind, restored]

/-- Every node but the last is once a child, and of a later node; nothing else is a child. -/
structure OneTree (ns : List (NodeDoc Number)) : Prop where
  inhabited : ns ≠ []
  later : ∀ (i : Nat) (n : NodeDoc Number), ns[i]? = some n → ∀ k ∈ n.children, k < i
  once : (ns.flatMap NodeDoc.children).Perm (List.range (ns.length - 1))

variable (S) in
/-- The tree of a node over the trees of its children. -/
inductive Labelled : NodeDoc Number → List (Criteria Timepoint Number) →
    Criteria Timepoint Number → Prop
  | membership {group : String} {negated : Bool} :
      Labelled (.membership group negated) [] (.membership group negated)
  | predicate {p : Predicate Timepoint Number} {op : String} {o : Option (OperandDoc Number)} :
      operation op = .ok p.op → operandOf S o = .ok p.operand →
      Labelled (.predicate p.field op o) [] (.predicate p)
  | and {places : List Nat} {children : List (Criteria Timepoint Number)} :
      Labelled (.and places) children (.and children)
  | or {places : List Nat} {children : List (Criteria Timepoint Number)} :
      Labelled (.or places) children (.or children)

variable (S) in
inductive Describes (ns : List (NodeDoc Number)) : Nat → Criteria Timepoint Number → Prop
  | node {i : Nat} {n : NodeDoc Number} {children : List (Criteria Timepoint Number)}
      {c : Criteria Timepoint Number} : ns[i]? = some n →
      List.Forall₂ (Describes ns) n.children children → Labelled S n children c → Describes ns i c

variable {forest' forest : Forest Timepoint Number}

theorem takeChildren_eq_ok {places : List Nat}
    (h : takeChildren places forest = .ok (children, forest')) :
    Takes forest places children forest' :=
  takes_of_takeAll (orInvalid_eq_ok.mp (of_check h).2)

theorem tree_eq_ok (h : tree S forest n = .ok (c, forest')) :
    ∃ children, Takes forest n.children children forest' ∧ Labelled S n children c := by
  have kept : Takes forest [] [] forest := takes_of_takeAll rfl
  cases n with
  | membership =>
    obtain ⟨c, made, h⟩ := of_bind h
    cases h
    obtain rfl := newMembership_eq_ok (accepted_eq_ok.mp made)
    exact ⟨[], kept, .membership⟩
  | predicate field op =>
    obtain ⟨op, operator, h⟩ := of_bind h
    obtain ⟨operand, given, h⟩ := of_bind h
    obtain ⟨c, made, h⟩ := of_bind h
    cases h
    obtain rfl := newPredicate_eq_ok (accepted_eq_ok.mp made)
    exact ⟨[], kept, .predicate (p := ⟨field, op, operand⟩) operator given⟩
  | and =>
    obtain ⟨⟨children, forest₁⟩, taken, h⟩ := of_bind h
    obtain ⟨c, made, h⟩ := of_bind h
    cases h
    obtain ⟨rfl, -⟩ := group_eq_ok (accepted_eq_ok.mp made)
    exact ⟨children, takeChildren_eq_ok taken, .and⟩
  | or =>
    obtain ⟨⟨children, forest₁⟩, taken, h⟩ := of_bind h
    obtain ⟨c, made, h⟩ := of_bind h
    cases h
    obtain ⟨rfl, -⟩ := group_eq_ok (accepted_eq_ok.mp made)
    exact ⟨children, takeChildren_eq_ok taken, .or⟩

/-- What holds after the loop passed some of the nodes: each of them is a tree or a child. -/
structure Passed (S : Storage TenantId Timepoint Number) (all passed : List (NodeDoc Number))
    (forest : Forest Timepoint Number) : Prop where
  length : forest.length = passed.length
  later : ∀ (i : Nat) (n : NodeDoc Number), passed[i]? = some n → ∀ k ∈ n.children, k < i
  conserved : ∀ k, (passed.flatMap NodeDoc.children).count k + held forest k =
    if k < passed.length then 1 else 0
  describes : ∀ (k : Nat) c, forest[k]? = some (some c) → Describes S all k c

variable {passed : List (NodeDoc Number)} {rest all : List (NodeDoc Number)}

theorem Passed.step (whole : all = passed ++ n :: rest) (before : Passed S all passed forest)
    (h : build S forest n = .ok forest') : Passed S all (passed ++ [n]) forest' := by
  obtain ⟨⟨c, left⟩, planted, h⟩ := of_bind h
  cases h
  obtain ⟨children, takes, labelled⟩ := tree_eq_ok planted
  have length : left.length = passed.length := takes.length.trans before.length
  have place : all[passed.length]? = some n := by rw [whole]; simp
  constructor
  · simp [length]
  · intro i m found k mem
    rcases Nat.lt_or_ge i passed.length with early | late
    · rw [List.getElem?_append_left early] at found
      exact before.later i m found k mem
    have inside := (List.getElem?_eq_some_iff.mp found).1
    rw [length_append, List.length_singleton] at inside
    obtain rfl : i = passed.length := by omega
    rw [List.getElem?_concat_length] at found
    cases found
    obtain ⟨c, -, held⟩ := exists_right_of_mem takes.found mem
    exact before.length ▸ (List.getElem?_eq_some_iff.mp held).1
  · intro k
    have taken := takes.conserved k
    have conserved := before.conserved k
    rw [List.flatMap_append, List.count_append, List.flatMap_singleton, held_concat, length,
      length_append, List.length_singleton]
    split at conserved <;> split <;> split <;> omega
  · intro k d found
    rcases Nat.lt_or_ge k left.length with early | late
    · rw [List.getElem?_append_left early] at found
      exact before.describes k d (takes.left k d found)
    have inside := (List.getElem?_eq_some_iff.mp found).1
    rw [length_append, List.length_singleton] at inside
    obtain rfl : k = left.length := by omega
    rw [List.getElem?_concat_length] at found
    cases found
    exact .node (length ▸ place) (takes.found.imp before.describes) labelled

theorem Passed.run (whole : all = passed ++ rest) (before : Passed S all passed forest)
    (h : rest.foldlM (build S) forest = .ok forest') : Passed S all all forest' := by
  induction rest generalizing passed forest with
  | nil =>
    cases h
    rw [List.append_nil] at whole
    exact whole ▸ before
  | cons _ _ ih =>
    obtain ⟨forest₁, first, later⟩ := of_bind h
    exact ih (by rw [whole, List.append_assoc, List.singleton_append]) (before.step whole first) later

theorem root_eq_ok (h : root forest = .ok c) :
    ∃ spent, forest = spent ++ [some c] ∧ ∀ slot ∈ spent, slot = none := by
  obtain ⟨c', last, h⟩ := of_bind h
  obtain ⟨empty, h⟩ := of_check h
  cases h
  have last : forest.getLast? = some (some c) := by
    rw [orInvalid_eq_ok] at last
    cases found : forest.getLast? with
    | none => rw [found] at last; cases last
    | some =>
      rw [found, Option.join_some] at last
      rw [last]
  refine ⟨forest.dropLast, (List.dropLast_append_getLast? _ last).symm, ?_⟩
  rw [check_eq_ok, List.all_eq_true] at empty
  exact fun slot mem => Option.isNone_iff_eq_none.mp (empty slot mem)

theorem oneTree_of_ruleOf {d : RuleDoc Number} (h : ruleOf S d = .ok rule) :
    OneTree d.nodes ∧ Describes S d.nodes (d.nodes.length - 1) rule.criteria := by
  obtain ⟨limits, h⟩ := of_check h
  obtain ⟨-, -, inhabited, -⟩ := check_eq_ok.mp limits
  obtain ⟨fields, -, h⟩ := of_bind h
  obtain ⟨forest, built, h⟩ := of_bind h
  obtain ⟨c, rooted, h⟩ := of_bind h
  obtain ⟨tenant, -, h⟩ := of_bind h
  obtain ⟨-, -, -, -, criteria⟩ := Rule.new_eq_ok.mp (accepted_eq_ok.mp h)
  have start : Passed S d.nodes [] [] := ⟨rfl, by simp, by simp [held], by simp⟩
  have passed : Passed S d.nodes d.nodes forest :=
    .run (nil_append _).symm start built
  obtain ⟨spent, rfl, empty⟩ := root_eq_ok rooted
  have length : d.nodes.length - 1 = spent.length := by simp [← passed.length]
  refine ⟨⟨inhabited, passed.later, ?_⟩, ?_⟩
  · rw [List.perm_iff_count]
    intro k
    have conserved := passed.conserved k
    have nodes : d.nodes.length = spent.length + 1 := by simp [← passed.length]
    have range : (List.range spent.length).count k = if k < spent.length then 1 else 0 := by
      simp [List.nodup_range.count]
    rw [length, range]
    rcases Nat.lt_trichotomy k spent.length with early | rfl | late
    · have none : held (spent ++ [some c]) k = 0 := by
        rw [held, List.getElem?_append_left early, List.getElem?_eq_getElem early,
          empty _ (List.getElem_mem early)]
        rfl
      rw [if_pos early]
      rw [none, if_pos (by omega)] at conserved
      exact conserved
    · have one : held (spent ++ [some c]) spent.length = 1 := by simp [held]
      rw [if_neg (lt_irrefl _)]
      rw [one, if_pos (by omega)] at conserved
      omega
    · rw [if_neg (by omega)]
      rw [if_neg (by omega)] at conserved
      omega
  · rw [length, criteria]
    exact passed.describes _ _ List.getElem?_concat_length

/-- A stored rule is read back as it was, and whatever is read back is the one tree that the stored
nodes describe: each node but the last is once a child of a later one. -/
theorem rule_codec (lossless : S.Lossless) :
    (∀ (tenant : TenantId) (version dictionaryVersion : String) (fields : List Field)
        (criteria : Criteria Timepoint Number) (rule : Rule Timepoint Number TenantId)
        (bytes : List UInt8), Bounded criteria →
        (∀ f ∈ fields, f.operations.Pairwise (· < ·)) →
        Rule.new tenant version dictionaryVersion fields criteria = .ok rule →
        encodeRule S rule = .ok bytes → decodeRule S bytes = .ok rule) ∧
      ∀ (bytes : List UInt8) (rule : Rule Timepoint Number TenantId),
        decodeRule S bytes = .ok rule → ∃ d, decode S bytes = .ok d ∧ OneTree d.nodes ∧
          Describes S d.nodes (d.nodes.length - 1) rule.criteria := by
  constructor
  · intro tenant version dictionaryVersion fields criteria rule bytes bounded ordered made stored
    exact rule_restored lossless bounded ordered made stored
  · intro bytes rule restored
    obtain ⟨d, read, restored⟩ := of_bind restored
    exact ⟨d, read, oneTree_of_ruleOf restored⟩

namespace Sample

scoped instance : Floating Nat where
  isFinite _ := true

def model14 : Predicate I64 Nat := ⟨"model", .eq, some ⟨.scalar (.string "T14"), none⟩⟩

def conditions : List (Criteria I64 Nat) := [.membership "pilot" false, .predicate model14]

def laptops : Criteria I64 Nat := .and conditions

def model : Field := ⟨"model", .scalar .string, none, [.eq], false⟩

def document : RuleDoc Nat where
  v := 1
  tenant := "t"
  version := "r1"
  dictionaryVersion := "d1"
  fields := [⟨"model", .string, false, none, ["eq"], false⟩]
  nodes := [.membership "pilot" false,
    .predicate "model" "eq" (some ⟨.scalar (.string "T14"), none⟩), .and [0, 1]]

def json : List UInt8 := Text.asBytes ("\x7b\"v\":1,\"tenant\":\"t\",\"version\":\"r1\"," ++
  "\"dictionary_version\":\"d1\",\"fields\":[\x7b\"key\":\"model\",\"element\":\"string\"," ++
  "\"set\":false,\"unit\":null,\"operations\":[\"eq\"],\"nullable\":false\x7d],\"nodes\":[" ++
  "\x7b\"kind\":\"membership\",\"group\":\"pilot\",\"negated\":false\x7d," ++
  "\x7b\"kind\":\"predicate\",\"field\":\"model\",\"op\":\"eq\",\"operand\":\x7b\"value\":" ++
  "\x7b\"kind\":\"scalar\",\"value\":\x7b\"kind\":\"string\",\"value\":\"T14\"\x7d\x7d," ++
  "\"unit\":null\x7d\x7d,\x7b\"kind\":\"and\",\"children\":[0,1]\x7d]\x7d")

def storage : Storage String I64 Nat where
  unixSeconds t := t
  ofSeconds := some
  printTenant := id
  parseTenant := some
  toVec d := if d = document then some json else none
  fromSlice bytes := if bytes = json then some document else none

theorem storage_lossless : storage.Lossless where
  instants _ := rfl
  tenants _ := rfl
  documents d bytes _ printed := by
    by_cases own : d = document
    · simp only [storage, own, if_true, Option.some.injEq] at printed ⊢
      rw [if_pos printed.symm]
    · simp [storage, own] at printed

theorem bounded_laptops : Bounded laptops := by
  have gathered : Criteria.group conditions true = .ok laptops := rfl
  have pilot : Criteria.newMembership "pilot" false =
      .ok (.membership "pilot" false : Criteria I64 Nat) := rfl
  have leaf : Criteria.newPredicate model14 = .ok (.predicate model14) := rfl
  refine .group ?_ gathered
  simp only [conditions, List.forall_mem_cons]
  exact ⟨.membership pilot, .predicate leaf, by simp⟩

end Sample

open Sample in
set_option maxRecDepth 8000 in
theorem laptops_restored : ∃ rule, Rule.new "t" "r1" "d1" [model] laptops = .ok rule ∧
    encodeRule storage rule = .ok json ∧ decodeRule storage json = .ok rule := by
  have compiled : compile "r1" "d1" [model] laptops =
      .ok (⟨[("model", model)], by simp⟩, ⟨[("model", ())], by simp⟩) := by
    rfl
  obtain ⟨typed, reads⟩ := compile_eq_ok compiled
  let rule : Rule I64 Nat String := ⟨"t", "r1", "d1", _, laptops, _, typed, reads⟩
  have made : Rule.new "t" "r1" "d1" [model] laptops = .ok rule :=
    Rule.new_eq_ok.mpr ⟨compiled, rfl, rfl, rfl, rfl⟩
  have printed : storage.toVec (ruleDoc storage rule) = some json := by
    rw [show ruleDoc storage rule = document from rfl]
    simp [storage]
  have short : json.length ≤ maxDocument := by
    rw [json, Text.asBytes_length]
    decide
  have stored : encodeRule storage rule = .ok json := by
    rw [encodeRule, encode, orInvalid_eq_ok.mpr printed, ok_bind, check_eq_ok.mpr short, ok_bind]
  exact ⟨rule, made, stored, (rule_codec storage_lossless).1 "t" "r1" "d1" [model] laptops rule json
    bounded_laptops (by decide) made stored⟩

end RssMdm.Group.Codec
