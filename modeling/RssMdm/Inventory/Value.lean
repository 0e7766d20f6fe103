/- module: Inventory/Value
   source: crates/inventory/src/lib.rs, crates/inventory/src/assets.rs, crates/inventory/src/collected.rs
   digest: Typed asset scalars with their order, budget and JSON form. -/

import RssMdm.Lib.Int64
import RssMdm.Lib.Json

set_option autoImplicit false

namespace RssMdm.Inventory

open Lib.Fallible Lib.Int64 Lib.Json
open Lib.Text (Uuid)

/-- Closed value-free validation categories. -/
inductive Invalid where
  | duplicateField
  | unknownField
  | unknownSource
  | typeMismatch
  | value
  | time
  | state
  | evidence
  | sourceNotAllowed
  | duplicateSource
  | sourceLimit
  | encoding
deriving DecidableEq, Repr

/-- The bits of a double that is a number. -/
structure NotNan where
  bits : BitVec 64
  number : bits.toNat % 2 ^ 63 ≤ 0x7ff0000000000000
deriving DecidableEq

namespace NotNan

def magnitude (n : NotNan) : Nat := n.bits.toNat % 2 ^ 63

/-- Doubles compare as their signed magnitudes; both zeros are equal. -/
def order (n : NotNan) : Int :=
  if 2 ^ 63 ≤ n.bits.toNat then -(n.magnitude : Int) else n.magnitude

def isFinite (n : NotNan) : Bool := n.magnitude < 0x7ff0000000000000

end NotNan

/-- Explicitly typed asset scalar; the properties are listed by increasing name. -/
inductive Scalar where
  | string (value : String)
  | integer (value : I64)
  | number (value : NotNan)
  | array (values : List Scalar)
  | object (properties : List (String × Scalar))
  | boolean (value : Bool)
  | time (value : I64)

def Scalar.rank : Scalar → Nat
  | .string _ => 0
  | .integer _ => 1
  | .number _ => 2
  | .array _ => 3
  | .object _ => 4
  | .boolean _ => 5
  | .time _ => 6

mutual

def Scalar.cmp : Scalar → Scalar → Ordering
  | .string a, .string b => compare a b
  | .integer a, .integer b => compare a.val b.val
  | .number a, .number b => compare a.order b.order
  | .array a, .array b => Scalar.cmpAll a b
  | .object a, .object b => Scalar.cmpProperties a b
  | .boolean a, .boolean b => compare a b
  | .time a, .time b => compare a.val b.val
  | a, b => compare a.rank b.rank

def Scalar.cmpAll : List Scalar → List Scalar → Ordering
  | [], [] => .eq
  | [], _ :: _ => .lt
  | _ :: _, [] => .gt
  | a :: as, b :: bs => (Scalar.cmp a b).then (Scalar.cmpAll as bs)

def Scalar.cmpProperties : List (String × Scalar) → List (String × Scalar) → Ordering
  | [], [] => .eq
  | [], _ :: _ => .lt
  | _ :: _, [] => .gt
  | (k, a) :: as, (k', b) :: bs =>
      (compare k k').then ((Scalar.cmp a b).then (Scalar.cmpProperties as bs))

end

/-- The derived equality: the two zeros are the same number. -/
def Scalar.same (a b : Scalar) : Bool := Scalar.cmp a b = .eq

mutual

theorem Scalar.cmp_self (a : Scalar) : Scalar.cmp a a = .eq := by
  match a with
  | .string v | .integer v | .number v => simp [Scalar.cmp]
  | .array values =>
    rw [Scalar.cmp]
    exact Scalar.cmpAll_self values
  | .object properties =>
    rw [Scalar.cmp]
    exact Scalar.cmpProperties_self properties
  | .boolean v | .time v => simp [Scalar.cmp]

theorem Scalar.cmpAll_self (as : List Scalar) : Scalar.cmpAll as as = .eq := by
  match as with
  | [] => rfl
  | a :: as =>
    rw [Scalar.cmpAll, Scalar.cmp_self a, Scalar.cmpAll_self as]
    rfl

theorem Scalar.cmpProperties_self (as : List (String × Scalar)) :
    Scalar.cmpProperties as as = .eq := by
  match as with
  | [] => rfl
  | (k, a) :: as =>
    have names : compare k k = .eq := by simp
    rw [Scalar.cmpProperties, names, Scalar.cmp_self a, Scalar.cmpProperties_self as]
    rfl

end

/-- The number with the sign of a zero left out. -/
def NotNan.unsigned (n : NotNan) : NotNan := if n.magnitude = 0 then ⟨0, by decide⟩ else n

theorem NotNan.order_eq_iff {m n : NotNan} : m.order = n.order ↔ m.unsigned = n.unsigned := by
  obtain ⟨a, ha⟩ := m
  obtain ⟨b, hb⟩ := n
  have boundA := a.isLt
  have boundB := b.isLt
  have zero : (0 : BitVec 64).toNat = 0 := rfl
  unfold order unsigned magnitude
  simp only
  by_cases noneA : a.toNat % 2 ^ 63 = 0
  · by_cases noneB : b.toNat % 2 ^ 63 = 0
    · rw [if_pos noneA, if_pos noneB, noneA, noneB]
      simp
    · rw [if_pos noneA, if_neg noneB, NotNan.mk.injEq, ← BitVec.toNat_inj, zero]
      split <;> split <;> omega
  · by_cases noneB : b.toNat % 2 ^ 63 = 0
    · rw [if_neg noneA, if_pos noneB, NotNan.mk.injEq, ← BitVec.toNat_inj, zero]
      split <;> split <;> omega
    · rw [if_neg noneA, if_neg noneB, NotNan.mk.injEq, ← BitVec.toNat_inj]
      split <;> split <;> omega

mutual

/-- The value with the sign of every zero left out. -/
def Scalar.unsigned : Scalar → Scalar
  | .number n => .number n.unsigned
  | .array values => .array (Scalar.unsignedAll values)
  | .object properties => .object (Scalar.unsignedProperties properties)
  | v => v

def Scalar.unsignedAll : List Scalar → List Scalar
  | [] => []
  | v :: rest => v.unsigned :: Scalar.unsignedAll rest

def Scalar.unsignedProperties : List (String × Scalar) → List (String × Scalar)
  | [] => []
  | (key, v) :: rest => (key, v.unsigned) :: Scalar.unsignedProperties rest

end

mutual

theorem Scalar.cmp_eq_iff (a b : Scalar) : Scalar.cmp a b = .eq ↔ a.unsigned = b.unsigned := by
  match a with
  | .string s => cases b <;> simp [Scalar.cmp, Scalar.unsigned, Scalar.rank]
  | .integer n =>
    cases b <;> simp [Scalar.cmp, Scalar.unsigned, Scalar.rank, I64.ext_iff]
  | .number n =>
    cases b <;> simp [Scalar.cmp, Scalar.unsigned, Scalar.rank, NotNan.order_eq_iff]
  | .array values =>
    cases b with
    | array values' =>
      rw [Scalar.cmp, Scalar.unsigned, Scalar.unsigned, Scalar.array.injEq]
      exact Scalar.cmpAll_eq_iff values values'
    | _ => simp [Scalar.cmp, Scalar.unsigned, Scalar.rank]
  | .object properties =>
    cases b with
    | object properties' =>
      rw [Scalar.cmp, Scalar.unsigned, Scalar.unsigned, Scalar.object.injEq]
      exact Scalar.cmpProperties_eq_iff properties properties'
    | _ => simp [Scalar.cmp, Scalar.unsigned, Scalar.rank]
  | .boolean v => cases b <;> simp [Scalar.cmp, Scalar.unsigned, Scalar.rank]
  | .time t =>
    cases b <;> simp [Scalar.cmp, Scalar.unsigned, Scalar.rank, I64.ext_iff]

theorem Scalar.cmpAll_eq_iff (as bs : List Scalar) :
    Scalar.cmpAll as bs = .eq ↔ Scalar.unsignedAll as = Scalar.unsignedAll bs := by
  match as, bs with
  | [], [] | [], b :: bs | a :: as, [] => simp [Scalar.cmpAll, Scalar.unsignedAll]
  | a :: as, b :: bs =>
    rw [Scalar.cmpAll, Ordering.then_eq_eq, Scalar.cmp_eq_iff a b, Scalar.cmpAll_eq_iff as bs,
      Scalar.unsignedAll, Scalar.unsignedAll, List.cons.injEq]

theorem Scalar.cmpProperties_eq_iff (as bs : List (String × Scalar)) :
    Scalar.cmpProperties as bs = .eq ↔
      Scalar.unsignedProperties as = Scalar.unsignedProperties bs := by
  match as, bs with
  | [], [] | [], b :: bs | a :: as, [] => simp [Scalar.cmpProperties, Scalar.unsignedProperties]
  | (k, a) :: as, (k', b) :: bs =>
    have names : compare k k' = .eq ↔ k = k' := by simp
    rw [Scalar.cmpProperties, Ordering.then_eq_eq, Ordering.then_eq_eq, Scalar.cmp_eq_iff a b,
      Scalar.cmpProperties_eq_iff as bs, Scalar.unsignedProperties, Scalar.unsignedProperties,
      List.cons.injEq, Prod.mk.injEq, names, and_assoc]

end

theorem Scalar.same_iff {a b : Scalar} : a.same b = true ↔ a.unsigned = b.unsigned := by
  rw [Scalar.same, decide_eq_true_eq, Scalar.cmp_eq_iff]

/-- Why a received native observation cannot establish a current fact. -/
inductive UnknownReason where
  | unorderedConflict
  | incomplete
  | nativeStatus
  | evidenceLimit
deriving DecidableEq, Repr

/-- Definitive per-field outcome. -/
inductive CollectedValue where
  | unknown (reason : UnknownReason)
  | value (value : Scalar)
  | null
  | deleted
  | unsupported

/-- What the code takes from other crates and from the Unicode tables: time points, upper case,
UUIDs, identifiers of observations and time series, the text of a double and the JSON reader. -/
class Environment where
  timepoint : I64 → Bool
  toUppercase : String → String
  parseUuid : String → Option Uuid
  observationId : String → Bool
  seriesId : String → Bool
  numberText : NotNan → List Char
  fromSlice : List UInt8 → Option CollectedValue

variable [Environment]

def checkedAdd (a b : Nat) : Except Invalid Nat :=
  if a + b < 2 ^ 64 then .ok (a + b) else .error .value

structure ScalarBudget where
  nodes : Nat
  bytes : Nat

namespace ScalarBudget

def enter (depth : Nat) (b : ScalarBudget) : Except Invalid ScalarBudget := do
  let nodes ← checkedAdd b.nodes 1
  if depth > 6 ∨ nodes > 200000 then .error .value else .ok { b with nodes }

def addBytes (b : ScalarBudget) (n : Nat) : Except Invalid ScalarBudget := do
  let bytes ← checkedAdd b.bytes n
  .ok { b with bytes }

mutual

/-- Only text is checked against the byte limit; property names count and are not checked. -/
def visit (depth : Nat) : Scalar → ScalarBudget → Except Invalid ScalarBudget
  | .string s, b => do
      let b ← b.enter depth
      let b ← b.addBytes s.utf8ByteSize
      if s.toList.any (· = '\x00') ∨ b.bytes > 16 * 1024 * 1024 then .error .value else .ok b
  | .number n, b => do
      let b ← b.enter depth
      if !n.isFinite then .error .value else .ok b
  | .time t, b => do
      let b ← b.enter depth
      if !Environment.timepoint t then .error .time else .ok b
  | .array values, b => do
      let b ← b.enter depth
      visitAll (depth + 1) values b
  | .object properties, b => do
      let b ← b.enter depth
      visitProperties (depth + 1) properties b
  | .integer _, b => b.enter depth
  | .boolean _, b => b.enter depth

def visitAll (depth : Nat) : List Scalar → ScalarBudget → Except Invalid ScalarBudget
  | [], b => .ok b
  | v :: rest, b => do
      let b ← visit depth v b
      visitAll depth rest b

def visitProperties (depth : Nat) :
    List (String × Scalar) → ScalarBudget → Except Invalid ScalarBudget
  | [], b => .ok b
  | (key, v) :: rest, b => do
      let b ← b.addBytes key.utf8ByteSize
      let b ← visit depth v b
      visitProperties depth rest b

end

end ScalarBudget

/-- Bounded text and the canonical time range. -/
def Scalar.validate (v : Scalar) : Except Invalid Unit := do
  let _ ← ScalarBudget.visit 0 v ⟨0, 0⟩
  .ok ()

mutual

def Scalar.Finite : Scalar → Prop
  | .number n => n.isFinite = true
  | .array values => Scalar.FiniteAll values
  | .object properties => Scalar.FiniteProperties properties
  | _ => True

def Scalar.FiniteAll : List Scalar → Prop
  | [] => True
  | v :: rest => v.Finite ∧ Scalar.FiniteAll rest

def Scalar.FiniteProperties : List (String × Scalar) → Prop
  | [] => True
  | (_, v) :: rest => v.Finite ∧ Scalar.FiniteProperties rest

end

mutual

theorem ScalarBudget.visit_finite {depth : Nat} (v : Scalar) {b b' : ScalarBudget}
    (h : ScalarBudget.visit depth v b = .ok b') : v.Finite := by
  match v with
  | .string s | .integer n | .boolean n | .time t => trivial
  | .number n =>
    rw [ScalarBudget.visit] at h
    obtain ⟨b₁, -, h⟩ := of_bind h
    simpa [Scalar.Finite] using (of_guard h).1
  | .array values =>
    rw [ScalarBudget.visit] at h
    obtain ⟨b₁, -, h⟩ := of_bind h
    exact ScalarBudget.visitAll_finite values h
  | .object properties =>
    rw [ScalarBudget.visit] at h
    obtain ⟨b₁, -, h⟩ := of_bind h
    exact ScalarBudget.visitProperties_finite properties h

theorem ScalarBudget.visitAll_finite {depth : Nat} (vs : List Scalar) {b b' : ScalarBudget}
    (h : ScalarBudget.visitAll depth vs b = .ok b') : Scalar.FiniteAll vs := by
  match vs with
  | [] => trivial
  | v :: rest =>
    rw [ScalarBudget.visitAll] at h
    obtain ⟨b₁, first, later⟩ := of_bind h
    exact ⟨ScalarBudget.visit_finite v first, ScalarBudget.visitAll_finite rest later⟩

theorem ScalarBudget.visitProperties_finite {depth : Nat} (ps : List (String × Scalar))
    {b b' : ScalarBudget} (h : ScalarBudget.visitProperties depth ps b = .ok b') :
    Scalar.FiniteProperties ps := by
  match ps with
  | [] => trivial
  | (key, v) :: rest =>
    rw [ScalarBudget.visitProperties] at h
    obtain ⟨b₁, -, h⟩ := of_bind h
    obtain ⟨b₂, first, later⟩ := of_bind h
    exact ⟨ScalarBudget.visit_finite v first, ScalarBudget.visitProperties_finite rest later⟩

end

theorem Scalar.validate_finite {v : Scalar} (h : v.validate = .ok ()) : v.Finite := by
  obtain ⟨b, visited, -⟩ := of_bind h
  exact ScalarBudget.visit_finite v visited

def tagged (kind : String) (content : Json) : Json :=
  .object [("kind", .string kind), ("value", content)]

mutual

def Scalar.json : Scalar → Json
  | .string s => tagged "string" (.string s)
  | .integer n => tagged "integer" (.number (decimal n.val))
  | .number n => tagged "number" (if n.isFinite then .number (Environment.numberText n) else .null)
  | .array values => tagged "array" (.array (Scalar.jsonAll values))
  | .object properties => tagged "object" (.object (Scalar.jsonProperties properties))
  | .boolean b => tagged "boolean" (.bool b)
  | .time t => tagged "time" (.number (decimal t.val))

def Scalar.jsonAll : List Scalar → List Json
  | [] => []
  | v :: rest => v.json :: Scalar.jsonAll rest

def Scalar.jsonProperties : List (String × Scalar) → List (String × Json)
  | [] => []
  | (key, v) :: rest => (key, v.json) :: Scalar.jsonProperties rest

end

def UnknownReason.text : UnknownReason → String
  | .unorderedConflict => "unordered_conflict"
  | .incomplete => "incomplete"
  | .nativeStatus => "native_status"
  | .evidenceLimit => "evidence_limit"

def CollectedValue.json : CollectedValue → Json
  | .unknown reason => tagged "unknown" (.object [("reason", .string reason.text)])
  | .value v => tagged "value" v.json
  | .null => .object [("kind", .string "null")]
  | .deleted => .object [("kind", .string "deleted")]
  | .unsupported => .object [("kind", .string "unsupported")]

/-- The documented text of a double: it reads back as the same double. -/
structure LawfulNumbers : Prop where
  numeric : ∀ n : NotNan, n.isFinite = true → Environment.numberText n ≠ [] ∧
    ∀ c ∈ Environment.numberText n, numeric c = true
  injective : ∀ m n : NotNan, m.isFinite = true → n.isFinite = true →
    Environment.numberText m = Environment.numberText n → m = n

mutual

theorem Scalar.json_plain (lawful : LawfulNumbers) (v : Scalar) : Plain v.json := by
  match v with
  | .string s => exact ⟨trivial, trivial, trivial⟩
  | .integer n => exact ⟨trivial, decimal_numeric n.val, trivial⟩
  | .number n =>
    refine ⟨trivial, ?_, trivial⟩
    by_cases finite : n.isFinite = true
    · rw [if_pos finite]
      exact lawful.numeric n finite
    · rw [if_neg finite]
      trivial
  | .array values => exact ⟨trivial, Scalar.jsonAll_plain lawful values, trivial⟩
  | .object properties => exact ⟨trivial, Scalar.jsonProperties_plain lawful properties, trivial⟩
  | .boolean b => exact ⟨trivial, trivial, trivial⟩
  | .time t => exact ⟨trivial, decimal_numeric t.val, trivial⟩

theorem Scalar.jsonAll_plain (lawful : LawfulNumbers) (vs : List Scalar) :
    PlainItems (Scalar.jsonAll vs) := by
  match vs with
  | [] => trivial
  | v :: rest => exact ⟨Scalar.json_plain lawful v, Scalar.jsonAll_plain lawful rest⟩

theorem Scalar.jsonProperties_plain (lawful : LawfulNumbers) (ps : List (String × Scalar)) :
    PlainMembers (Scalar.jsonProperties ps) := by
  match ps with
  | [] => trivial
  | (key, v) :: rest => exact ⟨Scalar.json_plain lawful v, Scalar.jsonProperties_plain lawful rest⟩

end

theorem CollectedValue.json_plain (lawful : LawfulNumbers) (v : CollectedValue) : Plain v.json := by
  cases v with
  | unknown => exact ⟨trivial, ⟨trivial, trivial⟩, trivial⟩
  | value v => exact ⟨trivial, v.json_plain lawful, trivial⟩
  | null | deleted | unsupported => exact ⟨trivial, trivial⟩

attribute [local simp] tagged CollectedValue.json

omit [Environment] in
theorem tagged_inj {k k' : String} {c c' : Json} (h : tagged k c = tagged k' c') :
    k = k' ∧ c = c' := by
  simpa using h

theorem Scalar.json_rank {a b : Scalar} (h : a.json = b.json) : a.rank = b.rank := by
  cases a <;> cases b <;> first | rfl | exact absurd (tagged_inj h).1 (by decide)

mutual

theorem Scalar.json_injective (lawful : LawfulNumbers) (a b : Scalar) (finite : a.Finite)
    (h : a.json = b.json) : a = b := by
  have rank := Scalar.json_rank h
  match a with
  | .string v =>
    cases b with
    | string => rw [Json.string.inj (tagged_inj h).2]
    | _ => cases rank
  | .integer m =>
    cases b with
    | integer => rw [I64.ext (decimal_injective (Json.number.inj (tagged_inj h).2))]
    | _ => cases rank
  | .time m =>
    cases b with
    | time => rw [I64.ext (decimal_injective (Json.number.inj (tagged_inj h).2))]
    | _ => cases rank
  | .boolean v =>
    cases b with
    | boolean => rw [Json.bool.inj (tagged_inj h).2]
    | _ => cases rank
  | .number m =>
    cases b with
    | number n =>
      have finite : m.isFinite = true := finite
      have same := (tagged_inj h).2
      rw [if_pos finite] at same
      by_cases finite' : n.isFinite = true
      · rw [if_pos finite'] at same
        rw [lawful.injective m n finite finite' (Json.number.inj same)]
      · rw [if_neg finite'] at same
        cases same
    | _ => cases rank
  | .array as =>
    cases b with
    | array bs =>
      rw [Scalar.jsonAll_injective lawful as bs finite (Json.array.inj (tagged_inj h).2)]
    | _ => cases rank
  | .object as =>
    cases b with
    | object bs =>
      rw [Scalar.jsonProperties_injective lawful as bs finite (Json.object.inj (tagged_inj h).2)]
    | _ => cases rank

theorem Scalar.jsonAll_injective (lawful : LawfulNumbers) (as bs : List Scalar)
    (finite : Scalar.FiniteAll as) (h : Scalar.jsonAll as = Scalar.jsonAll bs) : as = bs := by
  match as with
  | [] =>
    cases bs with
    | nil => rfl
    | cons => cases h
  | a :: as =>
    cases bs with
    | nil => cases h
    | cons b bs =>
      obtain ⟨first, later⟩ := List.cons.inj h
      rw [Scalar.json_injective lawful a b finite.1 first,
        Scalar.jsonAll_injective lawful as bs finite.2 later]

theorem Scalar.jsonProperties_injective (lawful : LawfulNumbers) (as bs : List (String × Scalar))
    (finite : Scalar.FiniteProperties as)
    (h : Scalar.jsonProperties as = Scalar.jsonProperties bs) : as = bs := by
  match as with
  | [] =>
    cases bs with
    | nil => rfl
    | cons => cases h
  | (k, a) :: as =>
    cases bs with
    | nil => cases h
    | cons b bs =>
      obtain ⟨first, later⟩ := List.cons.inj h
      obtain ⟨name, value⟩ := Prod.mk.inj first
      obtain ⟨k', b⟩ := b
      cases name
      rw [Scalar.json_injective lawful a b finite.1 value,
        Scalar.jsonProperties_injective lawful as bs finite.2 later]

end

def CollectedValue.Finite : CollectedValue → Prop
  | .value v => v.Finite
  | _ => True

theorem CollectedValue.json_injective (lawful : LawfulNumbers) {a b : CollectedValue}
    (finite : a.Finite) (h : a.json = b.json) : a = b := by
  cases a with
  | unknown r =>
    cases b with
    | unknown r' =>
      have same : r.text = r'.text := by simpa using h
      cases r <;> cases r' <;> first | rfl | exact absurd same (by decide)
    | _ => simp at h
  | value v =>
    cases b with
    | value w => rw [Scalar.json_injective lawful v w finite (tagged_inj h).2]
    | _ => simp at h
  | null =>
    cases b with
    | null => rfl
    | _ => simp at h
  | deleted =>
    cases b with
    | deleted => rfl
    | _ => simp at h
  | unsupported =>
    cases b with
    | unsupported => rfl
    | _ => simp at h

/-- `serde_json::to_vec`. -/
def CollectedValue.toVec (v : CollectedValue) : List UInt8 := bytes v.json

def Scalar.toVec (v : Scalar) : List UInt8 := bytes v.json

theorem CollectedValue.toVec_injective (lawful : LawfulNumbers) {a b : CollectedValue}
    (finite : a.Finite) (h : a.toVec = b.toVec) : a = b :=
  CollectedValue.json_injective lawful finite
    (bytes_injective (a.json_plain lawful) (b.json_plain lawful) h)

theorem Scalar.toVec_injective (lawful : LawfulNumbers) {a b : Scalar} (finite : a.Finite)
    (h : a.toVec = b.toVec) : a = b :=
  Scalar.json_injective lawful a b finite
    (bytes_injective (a.json_plain lawful) (b.json_plain lawful) h)

end RssMdm.Inventory
