/- module: Inventory/Assets
   source: crates/inventory/src/assets.rs
   digest: Source facts of one field and the policy that resolves them to one state. -/

import RssMdm.Inventory.Collection
import Mathlib.Data.Prod.Lex
import Mathlib.Order.WithBot

set_option autoImplicit false

namespace RssMdm.Inventory

open Lib Lib.Fallible Lib.Int64 Lib.KeySort
open Lib.Text (isControl)

/-- Field state; none of these states is inferred from elapsed time. -/
inductive State where
  | unknown (reason : UnknownReason)
  | known (value : Scalar)
  | null
  | missing
  | unsupported
  | deleted
  | conflict

/-- The derived equality. -/
def State.same : State → State → Bool
  | .unknown a, .unknown b => a = b
  | .known a, .known b => a.same b
  | .null, .null => true
  | .missing, .missing => true
  | .unsupported, .unsupported => true
  | .deleted, .deleted => true
  | .conflict, .conflict => true
  | _, _ => false

def State.isUnknown : State → Bool
  | .unknown _ => true
  | _ => false

def State.isUnordered : State → Bool
  | .unknown .unorderedConflict => true
  | _ => false

/-- A state that takes part in the choice of a current value. -/
def State.selectable : State → Bool
  | .known _ => true
  | .null => true
  | .unknown _ => true
  | _ => false

/-- Provenance supplied by the trusted product boundary. -/
structure Evidence where
  scope : CollectionScope
  source : Source
  dataset : Option String
  registration : Option String
  registrationGeneration : Option UInt64
  epoch : Option String
  snapshotId : String
  observedAt : I64
  receivedAt : I64
  actor : Option String

def Evidence.key (e : Evidence) : Source ×ₗ WithBot String := toLex (e.source, e.dataset)

structure KnownValue where
  value : Scalar
  evidence : Evidence

structure SourceFact where
  state : State
  lastKnown : Option KnownValue
  evidence : Evidence

def SourceFact.key (fact : SourceFact) : Source ×ₗ WithBot String := fact.evidence.key

structure ResolvedField where
  field : FieldKey
  state : State
  sources : List SourceFact

structure EndpointSourceFact where
  endpoint : String
  fact : SourceFact

def EndpointSourceFact.key (s : EndpointSourceFact) : String ×ₗ (Source ×ₗ WithBot String) :=
  toLex (s.endpoint, s.fact.key)

structure ResolvedDeviceField where
  field : FieldKey
  state : State
  sources : List EndpointSourceFact

variable [Environment]

def bounded (s : String) : Bool := !s.isEmpty && s.utf8ByteSize ≤ 256 && !s.toList.any isControl

/-- The namespace of an assignment is the device; any other source must be entitled to its own. -/
def validateScope (e : Evidence) : Except Invalid Unit :=
  if e.source = .manual then
    if e.scope ≠ .device then .error .evidence else .ok ()
  else e.scope.validateSource e.source

/-- The identities that a source of this kind must carry, and those it must not. -/
def Evidence.identified (e : Evidence) : Bool :=
  if e.source = .manual then
    e.dataset.isNone && e.registration.isNone && e.registrationGeneration.isNone &&
      e.epoch.isNone && e.actor.any bounded
  else
    e.dataset.any bounded && e.registration.any bounded && e.epoch.any bounded && e.actor.isNone &&
      e.registrationGeneration ≠ some 0

def validateEvidence (d : FieldDefinition) (e : Evidence) : Except Invalid Unit := do
  validateScope e
  if !d.sources.contains e.source then .error .sourceNotAllowed
  else if !bounded e.snapshotId ∨ !Environment.timepoint e.observedAt ∨
      !Environment.timepoint e.receivedAt ∨ !e.identified then .error .evidence
  else .ok ()

def checkState (d : FieldDefinition) (fact : SourceFact) : Except Invalid Unit :=
  match fact.state with
  | .known v => d.validateScalar v
  | .null => if !d.nullable then .error .state else .ok ()
  | .missing => .error .state
  | .conflict => .error .state
  | .unsupported => if fact.evidence.source = .manual then .error .state else .ok ()
  | _ => .ok ()

/-- The historical actor and operation must remain the original ones. -/
def checkLastKnown (d : FieldDefinition) (fact : SourceFact) : Except Invalid Unit :=
  match fact.lastKnown with
  | none => .ok ()
  | some v => do
      d.validateScalar v.value
      validateEvidence d v.evidence
      let e := fact.evidence
      let old := v.evidence
      if (e.scope, e.source.asStr, e.registration, e.registrationGeneration, e.epoch, e.dataset) ≠
          (old.scope, old.source.asStr, old.registration, old.registrationGeneration, old.epoch,
            old.dataset) then .error .evidence
      else .ok ()

/-- One pass of the loop over the sources. -/
def checkFact (d : FieldDefinition) (fact : SourceFact) : Except Invalid Unit := do
  fact.evidence.scope.validateExecutable
  validateEvidence d fact.evidence
  checkState d fact
  checkLastKnown d fact

/-- Some source has another namespace than the first one. -/
def mixedScopes (scopes : List CollectionScope) : Bool :=
  scopes.head?.any (fun first => scopes.any (fun scope => scope ≠ first))

/-- The best priority among the states that take part. -/
def selectedPriority (d : FieldDefinition) (sources : List SourceFact) : Option UInt16 :=
  ((sources.filter (fun s => s.state.selectable)).filterMap
    (fun s => d.sources.get? s.evidence.source)).min?

def competing (d : FieldDefinition) (sources : List SourceFact) : List SourceFact :=
  sources.filter (fun s =>
    s.state.selectable && d.sources.get? s.evidence.source = selectedPriority d sources)

def canonicalState (d : FieldDefinition) (fact : SourceFact) : Except Invalid State :=
  match fact.state with
  | .known value => (d.canonicalValue value).map State.known
  | state => .ok state

def settle (sources : List SourceFact) (values : List State) : State :=
  match values with
  | first :: _ =>
      if values.any State.isUnknown then
        .unknown (if values.any State.isUnordered then .unorderedConflict else .nativeStatus)
      else if values.any (fun v => !v.same first) then .conflict
      else first
  | [] =>
      if sources.any (fun s => s.state.same .deleted) then .deleted
      else if sources.any (fun s => s.state.same .unsupported) then .unsupported
      else .missing

def resolveState (d : FieldDefinition) (sources : List SourceFact) : Except Invalid State :=
  if sources.length > 256 then .error .sourceLimit
  else do
    d.validate
    if mixedScopes (sources.map (fun s => s.evidence.scope)) then .error .evidence
    else do
      each (checkFact d) sources
      let values ← (competing d sources).mapM (canonicalState d)
      .ok (settle sources values)

def resolve (d : FieldDefinition) (sources : List SourceFact) : Except Invalid ResolvedField :=
  if sources.length > 128 then .error .sourceLimit
  else
    let sources := sources.insertionSort (fun a b => a.key ≤ b.key)
    if adjacentEqual SourceFact.key sources then .error .duplicateSource
    else do
      let state ← resolveState d sources
      .ok { field := d.key, state, sources }

/-- The same field policy applied across explicitly selected endpoints. -/
def resolveDevice (d : FieldDefinition) (sources : List EndpointSourceFact) :
    Except Invalid ResolvedDeviceField :=
  if sources.any (fun s => !bounded s.endpoint) then .error .evidence
  else
    let sources := sources.insertionSort (fun a b => a.key ≤ b.key)
    if adjacentEqual EndpointSourceFact.key sources then .error .duplicateSource
    else do
      let state ← resolveState d (sources.map EndpointSourceFact.fact)
      .ok { field := d.key, state, sources }

end RssMdm.Inventory
