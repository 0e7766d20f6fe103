/- module: Compliance/Model
   source: crates/compliance/src/lib.rs, crates/compliance/src/model.rs,
     crates/compliance/src/presentation.rs
   digest: Rule definitions, frozen inputs and the assessments of devices. -/

import RssMdm.Lib.Fallible
import RssMdm.Lib.Json
import RssMdm.Lib.Kleene

set_option autoImplicit false

namespace RssMdm.Compliance

open Lib Lib.Kleene
open Lib.Json (Json)
open Lib.Text (Uuid blank isControl)

/-- Closed validation categories. -/
inductive Invalid where
  | definition
  | input
  | assessment
  | evidence
deriving DecidableEq, Repr

/-- Completed assessment, never a worker state. -/
inductive Status where
  | compliant
  | nonCompliant
  | unknown
  | notApplicable
deriving DecidableEq, Repr

/-- Host-mapped three-valued predicate or target decision. -/
inductive Decision where
  | isMatch
  | noMatch
  | unknown
deriving DecidableEq, Repr

def Decision.truth : Decision → Truth
  | .isMatch => .yes
  | .noMatch => .no
  | .unknown => .unknown

def assess (applicable condition : Decision) : Status :=
  match applicable with
  | .noMatch => .notApplicable
  | .unknown => .unknown
  | .isMatch =>
      match condition with
      | .isMatch => .compliant
      | .noMatch => .nonCompliant
      | .unknown => .unknown

def union : Decision → Decision → Decision
  | .isMatch, _ => .isMatch
  | _, .isMatch => .isMatch
  | .unknown, _ => .unknown
  | _, .unknown => .unknown
  | _, _ => .noMatch

def intersection : Decision → Decision → Decision
  | .noMatch, _ => .noMatch
  | _, .noMatch => .noMatch
  | .unknown, _ => .unknown
  | _, .unknown => .unknown
  | _, _ => .isMatch

@[simp] theorem union_truth (a b : Decision) : (union a b).truth = a.truth.disj b.truth := by
  cases a <;> cases b <;> rfl

def properKey (key : String) : Bool :=
  !key.isEmpty && key.utf8ByteSize ≤ 256 && !key.toList.any isControl

mutual

/-- The nodes counted so far, as long as the value stays within its depth and count. -/
def visit (depth nodes : Nat) : Json → Option Nat
  | .object members =>
      if depth > 16 ∨ nodes + 1 > 4096 then none else visitMembers (depth + 1) (nodes + 1) members
  | .array items =>
      if depth > 16 ∨ nodes + 1 > 4096 then none else visitItems (depth + 1) (nodes + 1) items
  | .string text =>
      if depth > 16 ∨ nodes + 1 > 4096 ∨ text.toList.any (· = '\x00') then none else some (nodes + 1)
  | _ => if depth > 16 ∨ nodes + 1 > 4096 then none else some (nodes + 1)

def visitItems (depth nodes : Nat) : List Json → Option Nat
  | [] => some nodes
  | item :: rest => (visit depth nodes item).bind (fun nodes => visitItems depth nodes rest)

def visitMembers (depth nodes : Nat) : List (String × Json) → Option Nat
  | [] => some nodes
  | (key, value) :: rest =>
      if !properKey key then none
      else (visit depth nodes value).bind (fun nodes => visitMembers depth nodes rest)

end

/-- Bounded descriptive data. -/
def presentable (members : List (String × Json)) (limit : Nat) : Bool :=
  (visitMembers 1 0 members).isSome && (Json.bytes (.object members)).length ≤ limit

inductive Severity where
  | low
  | medium
  | high
  | critical
deriving DecidableEq, Repr

inductive Platform where
  | all
  | windows
  | macos
deriving DecidableEq, Repr

inductive Target where
  | all
  | groups (ids : List Uuid)

def text (v : String) (max : Nat) : Bool :=
  !blank v && v.length ≤ max && !v.toList.any isControl

/-- One version owns metadata and one foreign predicate. -/
structure Definition (C : Type) where
  presentation : List (String × Json)
  severity : Severity
  enabled : Bool
  platform : Platform
  target : Target
  criteria : C

def Target.valid : Target → Bool
  | .all => true
  | .groups ids => !ids.isEmpty && ids.length ≤ 16 && ids.all (· ≠ 0) && decide ids.Nodup

def named (members : List (String × Json)) : Bool :=
  match members.find? (fun m => m.1 = "name") with
  | some (_, .string name) => text name 128
  | _ => false

namespace Definition

variable {C : Type}

def groups (d : Definition C) : List Uuid :=
  match d.target with
  | .all => []
  | .groups ids => ids

def validate (d : Definition C) : Except Invalid Unit :=
  if !presentable d.presentation 65536 ∨ !named d.presentation then .error .definition
  else if !d.target.valid then .error .definition
  else .ok ()

end Definition

structure GroupInput (F : Type) where
  id : Uuid
  revision : Int
  memberSet : Option Uuid
  memberVersion : Int
  assetCut : Option F
  ready : Bool

structure Input (C F : Type) where
  rule : Uuid
  revision : Int
  definition : Definition C
  assetCut : F
  evaluatedAt : Int
  groups : List (GroupInput F)

/-- The groups of the definition as a set, each frozen once. -/
def Input.validate {C F : Type} (input : Input C F) : Except Invalid Unit := do
  input.definition.validate
  if input.rule = 0 ∨ input.revision < 1 ∨ input.evaluatedAt < 0 then .error .input
  else if input.groups.length ≠ input.definition.groups.dedup.length ∨
      ¬(input.groups.map GroupInput.id).dedup.Perm input.definition.groups.dedup then .error .input
  else if input.groups.any (fun g => g.revision < 1 || g.memberVersion < 0) then .error .input
  else .ok ()

/-- Reference only; never carries a collected or manual field value. -/
structure FactReference where
  source : String
  dataset : Option String
  registration : Option String
  registrationGeneration : Option UInt64
  epoch : Option String
  snapshotId : String
  observedAt : Int
  receivedAt : Int
  actor : Option String

structure SourceReference where
  source : String
  registration : String
  generation : String
  epoch : String

structure FieldEvidence where
  context : String
  field : String
  sources : List FactReference

inductive Outcome where
  | isMatch
  | noMatch
  | null
  | missing
  | deleted
  | unsupported
  | conflict
deriving DecidableEq, Repr

structure Explanation where
  context : String
  path : List Nat
  outcome : Outcome
deriving DecidableEq

structure GroupEvidence where
  id : Uuid
  memberSet : Option Uuid
  decision : Decision

structure Applicability where
  platform : Platform
  platformDecision : Decision
  sources : List SourceReference
  groups : List GroupEvidence

namespace Applicability

def groupDecision (a : Applicability) : Decision :=
  if a.groups.isEmpty then .isMatch
  else a.groups.foldl (fun old g => union old g.decision) .noMatch

def decision (a : Applicability) : Decision := intersection a.platformDecision a.groupDecision

end Applicability

def platformDecision (platform : Platform) (sources : List SourceReference) : Decision :=
  if platform = .all then .isMatch
  else
    match sources.any (fun s => s.source = "mdm.windows"),
      sources.any (fun s => s.source = "mdm.apple") with
    | true, false => if platform = .windows then .isMatch else .noMatch
    | false, true => if platform = .macos then .isMatch else .noMatch
    | _, _ => .unknown

inductive Reason where
  | platformNotApplicable
  | groupNotApplicable
  | platformUnknown
  | groupUnknown
  | ruleSatisfied
  | ruleFailed
  | factsUnknown
deriving DecidableEq, Repr

def conclusion (a : Applicability) (condition : Decision) : Status × Reason :=
  let status := assess a.decision condition
  (status, match status with
    | .notApplicable =>
        if a.platformDecision = .noMatch then .platformNotApplicable else .groupNotApplicable
    | .unknown =>
        if a.platformDecision = .unknown then .platformUnknown
        else if a.groupDecision = .unknown then .groupUnknown
        else .factsUnknown
    | .compliant => .ruleSatisfied
    | .nonCompliant => .ruleFailed)

structure Assessment (F : Type) where
  ruleId : Uuid
  ruleVersion : Int
  dictionaryVersion : String
  assetCut : F
  evaluatedAt : Int
  groups : List (GroupInput F)
  status : Status
  reason : Reason
  condition : Decision
  applicability : Applicability
  explanations : List Explanation
  evidence : List FieldEvidence

namespace Assessment

variable {C F : Type}

def aligned (g : GroupInput F) (p : GroupEvidence) : Bool :=
  decide (g.id = p.id) && decide (g.memberSet = p.memberSet)

def provenanced (e : FieldEvidence) : Bool :=
  text e.field 256 && e.sources.length ≤ 2 &&
    e.sources.all (fun s => text s.source 128 && text s.snapshotId 1024)

def validate (a : Assessment F) : Except Invalid Unit :=
  if a.ruleId = 0 ∨ a.ruleVersion < 1 ∨ a.evaluatedAt < 0 ∨ !text a.dictionaryVersion 128 then
    .error .assessment
  else if a.groups.length > 16 ∨ a.groups.any (fun g => !g.ready) ∨
      a.groups.length ≠ a.applicability.groups.length then .error .assessment
  else if (a.groups.zip a.applicability.groups).any (fun p => !aligned p.1 p.2) then
    .error .assessment
  else if a.explanations.length > 1024 ∨ a.evidence.length > 256 then .error .assessment
  else if a.applicability.platformDecision ≠
      platformDecision a.applicability.platform a.applicability.sources ∨
      conclusion a.applicability a.condition ≠ (a.status, a.reason) then .error .assessment
  else if a.evidence.any (fun e => !provenanced e) then .error .evidence
  else .ok ()

def evaluate (input : Input C F) (dictionary : String) (condition : Decision)
    (applicability : Applicability) (explanations : List Explanation)
    (evidence : List FieldEvidence) : Except Invalid (Assessment F) := do
  input.validate
  let verdict := conclusion applicability condition
  let result : Assessment F := {
    ruleId := input.rule
    ruleVersion := input.revision
    dictionaryVersion := dictionary
    assetCut := input.assetCut
    evaluatedAt := input.evaluatedAt
    groups := input.groups
    status := verdict.1
    reason := verdict.2
    condition, applicability, explanations, evidence }
  result.validate
  .ok result

end Assessment

end RssMdm.Compliance
