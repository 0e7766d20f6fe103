/- module: Inventory/Arrays
   source: crates/inventory/src/array.rs
   digest: Array summaries and the same source policy on summaries. -/

import RssMdm.Inventory.Assets

set_option autoImplicit false

namespace RssMdm.Inventory

open Lib Lib.Fallible Lib.Int64 Lib.KeySort

structure ArrayValue where
  version : String
  count : Nat
  bytes : Nat
  digest : String

/-- Equality compares canonical values, not storage locations. -/
def ArrayValue.same (a b : ArrayValue) : Bool :=
  (a.count, a.bytes, a.digest) = (b.count, b.bytes, b.digest)

/-- Field state whose known value is metadata. -/
inductive ArrayState where
  | unknown (reason : UnknownReason)
  | known (value : ArrayValue)
  | null
  | missing
  | unsupported
  | deleted
  | conflict

/-- The derived equality. -/
def ArrayState.same : ArrayState → ArrayState → Bool
  | .unknown a, .unknown b => a = b
  | .known a, .known b => a.same b
  | .null, .null => true
  | .missing, .missing => true
  | .unsupported, .unsupported => true
  | .deleted, .deleted => true
  | .conflict, .conflict => true
  | _, _ => false

def ArrayState.isUnknown : ArrayState → Bool
  | .unknown _ => true
  | _ => false

def ArrayState.isUnordered : ArrayState → Bool
  | .unknown .unorderedConflict => true
  | _ => false

def ArrayState.selectable : ArrayState → Bool
  | .known _ => true
  | .null => true
  | .unknown _ => true
  | _ => false

structure ArrayKnownValue where
  value : ArrayValue
  evidence : Evidence

/-- A current array observation, without its item bytes. -/
structure ArrayFact where
  state : ArrayState
  lastKnown : Option ArrayKnownValue
  evidence : Evidence

def ArrayFact.key (fact : ArrayFact) : Source ×ₗ WithBot String := fact.evidence.key

structure EndpointArrayFact where
  endpoint : String
  fact : ArrayFact

def EndpointArrayFact.key (s : EndpointArrayFact) : String ×ₗ (Source ×ₗ WithBot String) :=
  toLex (s.endpoint, s.fact.key)

structure ResolvedArray where
  field : FieldKey
  state : ArrayState
  sources : List ArrayFact

structure ResolvedDeviceArray where
  field : FieldKey
  state : ArrayState
  sources : List EndpointArrayFact

def isHash (text : String) : Bool :=
  text.utf8ByteSize = 64 && text.toList.all (fun c => c.isDigit || ('a' ≤ c && c ≤ 'f'))

/-- An empty array is written in 27 bytes, any other one in more. -/
def validateArrayValue (d : FieldDefinition) (value : ArrayValue) : Except Invalid Unit :=
  match d.valueType with
  | .array _ maxItems =>
      if value.count > maxItems.toNat ∨ value.bytes < 27 ∨ !isHash value.version ∨
          !isHash value.digest ∨ (value.count = 0 ∧ value.bytes ≠ 27) then .error .value
      else .ok ()
  | _ => .error .value

variable [Environment]

def checkArrayState (d : FieldDefinition) (fact : ArrayFact) : Except Invalid Unit :=
  match fact.state with
  | .known value => validateArrayValue d value
  | .null => if !d.nullable then .error .state else .ok ()
  | .missing => .error .state
  | .conflict => .error .state
  | .unsupported => if fact.evidence.source = .manual then .error .state else .ok ()
  | _ => .ok ()

def checkArrayLastKnown (d : FieldDefinition) (fact : ArrayFact) : Except Invalid Unit :=
  match fact.lastKnown with
  | none => .ok ()
  | some old => do
      validateArrayValue d old.value
      validateEvidence d old.evidence
      let e := fact.evidence
      let previous := old.evidence
      if (e.scope, e.source, e.registration, e.registrationGeneration, e.epoch, e.dataset) ≠
          (previous.scope, previous.source, previous.registration, previous.registrationGeneration,
            previous.epoch, previous.dataset) then .error .evidence
      else .ok ()

/-- One pass of the loop over the sources. -/
def checkArrayFact (d : FieldDefinition) (first : Option ArrayFact) (fact : ArrayFact) :
    Except Invalid Unit := do
  validateEvidence d fact.evidence
  if first.any (fun first => first.evidence.scope ≠ fact.evidence.scope) then .error .evidence
  else do
    checkArrayState d fact
    checkArrayLastKnown d fact

def isArray : ValueType → Bool
  | .array _ _ => true
  | _ => false

def arrayPriority (d : FieldDefinition) (sources : List ArrayFact) : Option UInt16 :=
  ((sources.filter (fun s => s.state.selectable)).filterMap
    (fun s => d.sources.get? s.evidence.source)).min?

def arrayValuesOf (d : FieldDefinition) (sources : List ArrayFact) : List ArrayState :=
  ((sources.filter (fun s => s.state.selectable)).filter
    (fun s => d.sources.get? s.evidence.source = arrayPriority d sources)).map ArrayFact.state

def settleArray (sources : List ArrayFact) (values : List ArrayState) : ArrayState :=
  match values with
  | first :: _ =>
      if values.any ArrayState.isUnknown then
        .unknown (if values.any ArrayState.isUnordered then .unorderedConflict else .nativeStatus)
      else if values.any (fun v => !v.same first) then .conflict
      else first
  | [] =>
      if sources.any (fun s => s.state.same .deleted) then .deleted
      else if sources.any (fun s => s.state.same .unsupported) then .unsupported
      else .missing

def arrayState (d : FieldDefinition) (sources : List ArrayFact) : Except Invalid ArrayState := do
  d.validate
  if !isArray d.valueType then .error .value
  else do
    each (checkArrayFact d sources.head?) sources
    .ok (settleArray sources (arrayValuesOf d sources))

/-- Apply the source priority and the unknown and conflict policy to metadata. -/
def resolveArray (d : FieldDefinition) (sources : List ArrayFact) : Except Invalid ResolvedArray :=
  if sources.length > 128 then .error .sourceLimit
  else
    let sources := sources.insertionSort (fun a b => a.key ≤ b.key)
    if adjacentEqual ArrayFact.key sources then .error .duplicateSource
    else do
      let state ← arrayState d sources
      .ok { field := d.key, state, sources }

def resolveDeviceArray (d : FieldDefinition) (sources : List EndpointArrayFact) :
    Except Invalid ResolvedDeviceArray :=
  if sources.length > 256 then .error .sourceLimit
  else if sources.any (fun s => !bounded s.endpoint) then .error .evidence
  else
    let sources := sources.insertionSort (fun a b => a.key ≤ b.key)
    if adjacentEqual EndpointArrayFact.key sources then .error .duplicateSource
    else do
      let state ← arrayState d (sources.map EndpointArrayFact.fact)
      .ok { field := d.key, state, sources }

end RssMdm.Inventory
