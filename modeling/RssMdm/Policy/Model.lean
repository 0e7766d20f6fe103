/- module: Policy/Model
   source: crates/policy/src/model.rs
   digest: The policy aggregate and its one configuration compare-and-swap. -/

import RssMdm.Policy.Definition

set_option autoImplicit false
set_option linter.dupNamespace false

namespace RssMdm.Policy

open Lib.Fallible Lib.Outcome Lib.Int64

variable {Login Windows Zone : Type}

abbrev Digest : Type := { octets : List UInt8 // octets.length = 32 }

def sha256 (message : List UInt8) : Digest :=
  ⟨RssMdm.Lib.Sha256.digest message, RssMdm.Lib.Sha256.digest_length message⟩

/-- The policy lifecycle; an archived policy cannot be edited or enabled. -/
inductive State where
  | enabled | disabled | archived
deriving DecidableEq

inductive Change (Login Windows : Type) where
  | put (definition : Definition Login Windows) (enabled : Bool)
  | enable
  | disable
  | archive

structure Policy (Login Windows : Type) where
  id : Uuid
  revision : I64
  version : Uuid
  number : I64
  state : State
  definition : Definition Login Windows
  executionBinding : Option Digest

structure Changed (Login Windows : Type) where
  policy : Policy Login Windows
  semanticChanged : Bool
  semantic : Digest

section

variable (env : Serializers Login Windows)

/-- Software serializes everything but its rollout, every other action the whole of itself. -/
def Action.semanticBytes : Action Login Windows → Decision (List UInt8)
  | .software channel delivery resource intent schedule runLifetimeSeconds _ =>
    orMalformed (env.software (resource, channel, delivery, intent, schedule, runLifetimeSeconds))
  | action => orMalformed (env.action action)

def Definition.semantic (d : Definition Login Windows) : Decision Digest := do
  let bytes ← d.action.semanticBytes env
  .ok (sha256 bytes)

def boundSemantic (d : Definition Login Windows) (binding : Option Digest) : Decision Digest := do
  let semantic ← d.semantic env
  match binding with
  | none => .ok semantic
  | some binding => .ok (sha256 ("software-policy-lifecycle/v1".toByteArray.data.toList ++
      (semantic.val ++ binding.val)))

def previousSemantic (old : Option (Policy Login Windows)) : Decision (Option Digest) :=
  match old with
  | none => .ok none
  | some p => do
    let semantic ← boundSemantic env p.definition p.executionBinding
    .ok (some semantic)

end

namespace Policy

variable (tz : TimeZones Zone) (env : Serializers Login Windows)

def checkRestored (old : Option (Policy Login Windows)) : Decision Unit :=
  match old with
  | none => .ok ()
  | some p => do
    reject (p.id.isNil || p.version.isNil || p.revision.val < 1 || p.number.val < 1 ||
      p.number.val > p.revision.val)
    p.definition.validate tz env

def currentRevision (old : Option (Policy Login Windows)) : Nat :=
  match old with
  | none => 0
  | some p => (p.revision.val % 2 ^ 64).toNat

def conflict {α : Type} : Decision α := .error (.error .conflict)

def orConflict {α : Type} : Option α → Decision α
  | some a => .ok a
  | none => conflict

def orNotFound {α : Type} : Option α → Decision α
  | some a => .ok a
  | none => .error (.error .notFound)

def nextRevision (expected : UInt64) : Decision I64 :=
  orConflict (if expected.toNat + 1 ≤ 2 ^ 63 - 1 then I64.ofInt (expected.toNat + 1) else none)

def requireDisabled (p : Policy Login Windows) : Decision Unit :=
  if p.state ≠ .disabled then conflict else .ok ()

def requested (old : Option (Policy Login Windows)) (input : Change Login Windows) :
    Decision (Definition Login Windows × State) :=
  match input with
  | .put definition enabled => .ok (definition, if enabled then .enabled else .disabled)
  | .enable => do
    let previous ← orNotFound old
    .ok (previous.definition, .enabled)
  | .disable => do
    let previous ← orNotFound old
    .ok (previous.definition, .disabled)
  | .archive => do
    let previous ← orNotFound old
    previous.requireDisabled
    .ok (previous.definition, .archived)

/-- Self-service defaults come from the previous definition. -/
def normalized (old : Option (Policy Login Windows)) (d : Definition Login Windows) :
    Definition Login Windows :=
  { d with
    selfService := d.selfService.map fun config =>
      config.normalize (old.bind fun p => p.definition.selfService) }

/-- Only a replacement takes the caller's binding. -/
def boundTo (old : Option (Policy Login Windows)) (input : Change Login Windows)
    (binding : Option Digest) : Option Digest :=
  match input with
  | .put _ _ => binding
  | _ => old.bind Policy.executionBinding

def nextNumber (old : Option (Policy Login Windows)) (changed : Bool) : Decision I64 :=
  if changed then
    orConflict (match old with
      | none => some ⟨1, I64.one_lo, I64.one_hi⟩
      | some p => p.number.checkedAdd ⟨1, I64.one_lo, I64.one_hi⟩)
  else do
    let previous ← orNotFound old
    .ok previous.number

def versionAfter (old : Option (Policy Login Windows)) (changed : Bool) (nextVersion : Uuid) :
    Decision Uuid :=
  if changed then .ok nextVersion
  else do
    let previous ← orNotFound old
    .ok previous.version

/-- The part of `apply` after the requested definition is known. -/
def commit (id : Uuid) (old : Option (Policy Login Windows)) (revision : I64) (nextVersion : Uuid)
    (definition : Definition Login Windows) (state : State) (binding : Option Digest) :
    Decision (Changed Login Windows) := do
  definition.validate tz env
  reject (definition.action.isEnsureAgentInstalled != binding.isSome)
  let semantic ← boundSemantic env definition binding
  let previous ← previousSemantic env old
  let changed := decide (previous ≠ some semantic)
  reject (changed && old.any fun p => p.version = nextVersion)
  let number ← nextNumber old changed
  let version ← versionAfter old changed nextVersion
  .ok
    { policy :=
        { id := id, revision := revision, version := version, number := number, state := state,
          definition := definition, executionBinding := binding }
      semanticChanged := changed
      semantic := semantic }

/-- Apply exactly one configuration compare-and-swap. -/
def apply (id : Uuid) (old : Option (Policy Login Windows)) (expected : UInt64)
    (input : Change Login Windows) (nextVersion : Uuid) (binding : Option Digest) :
    Decision (Changed Login Windows) := do
  reject (id.isNil || nextVersion.isNil)
  checkRestored tz env old
  if old.any (fun p => p.id ≠ id) || currentRevision old ≠ expected.toNat then conflict
  else if old.any fun p => p.state = .archived then conflict
  else do
    let revision ← nextRevision expected
    let (definition, state) ← requested old input
    commit tz env id old revision nextVersion (normalized old definition) state
      (boundTo old input binding)

end Policy

end RssMdm.Policy
