/- module: Compliance/Evaluation
   source: crates/inventory-service/src/compliance/evaluation.rs,
     crates/inventory-service/src/compliance/model.rs, crates/compliance-postgres/src/lib.rs
   digest: One page of a rule's run: the evaluated devices become stored assessments. -/

import RssMdm.Assets.Facts
import RssMdm.Compliance.Model
import RssMdm.Group.Refinement

set_option autoImplicit false

namespace RssMdm.Compliance

open Assets (Answers Conversion DeviceSummary Error FactPage InventoryCondition Reading
  checkedInput conditionInputs stored)
open Inventory (Catalog Environment Evidence FieldKey)
open Lib Lib.Outcome
open Lib.Text (Uuid startsWith)

abbrev RuleDefinition : Type := Definition InventoryCondition

section

variable {TenantId : Type} (Timepoint Number : Type) [LinearOrder Timepoint]
  [Group.Floating Number] [Environment] [Conversion Timepoint Number]

/-- The root fields of an accepted definition; `size` is the length of its encoding. -/
def validateDefinition (d : RuleDefinition) (size : Nat) (tenant : TenantId) (id : Uuid)
    (catalog : Catalog) : Except Error (List String) := do
  checkedInput d.validate
  if size > 65536 then .error .malformed
  else do
    d.criteria.validate
    let rule : Group.Rule Timepoint Number TenantId ←
      Assets.rule tenant id d.criteria.criteria catalog
    rule.fields.keys.mapM (fun name => do
      let key ← checkedInput (FieldKey.parse name)
      let path ← checkedInput (catalog.path key)
      .ok path.root.key.asStr)

end

section

def decisionOf : Group.Decision → Decision
  | .isMatch => .isMatch
  | .noMatch => .noMatch
  | .unknown => .unknown

def outcomeOf : Group.Outcome → Outcome
  | .isMatch => .isMatch
  | .noMatch => .noMatch
  | .unknown .null => .null
  | .unknown .missing => .missing
  | .unknown .deleted => .deleted
  | .unknown .unsupported => .unsupported
  | .unknown .conflict => .conflict

def covers (key : FieldKey) (field : String) : Bool :=
  key.asStr = field || startsWith field (key.asStr ++ ".")

def evidenceOf (summary : DeviceSummary) (field : String) : Option (List Evidence) :=
  match summary.fields.entries.find? (fun entry => covers entry.1 field) with
  | some (_, found) => some (found.sources.map (fun s => s.evidence))
  | none => (summary.arrays.entries.find? (fun entry => covers entry.1 field)).map
      (fun entry => entry.2.sources.map (fun s => s.evidence))

def factReference (e : Evidence) : FactReference where
  source := e.source.asStr
  dataset := e.dataset
  registration := e.registration
  registrationGeneration := e.registrationGeneration
  epoch := e.epoch
  snapshotId := e.snapshotId
  observedAt := e.observedAt.val
  receivedAt := e.receivedAt.val
  actor := e.actor

variable {TenantId Timepoint : Type} [LinearOrder TenantId]

def explanationsOf (e : Group.ObjectEvaluation TenantId Timepoint) : List Explanation :=
  e.contexts.entries.flatMap (fun entry => entry.2.explanations.map (fun x =>
    ⟨entry.1, x.path, outcomeOf x.outcome⟩))

def provenanceKeys (e : Group.ObjectEvaluation TenantId Timepoint) : List (String × String) :=
  e.contexts.entries.flatMap (fun entry => entry.2.provenance.keys.map (fun field =>
    (entry.1, field)))

def fieldEvidence (contexts : OrdMap (String ×ₗ String) DeviceSummary) (device : String)
    (place : String × String) : Option FieldEvidence :=
  (contexts.get? (toLex (device, place.1))).bind (fun summary =>
    (evidenceOf summary place.2).map (fun found => ⟨place.1, place.2, found.map factReference⟩))

variable {F : Type}

def assessment (input : Input InventoryCondition F) (device : String)
    (contexts : OrdMap (String ×ₗ String) DeviceSummary)
    (e : Group.ObjectEvaluation TenantId Timepoint) (groups : List GroupEvidence)
    (sources : List SourceReference) : Except Error (Assessment F) :=
  stored (Assessment.evaluate input Assets.dictionary (decisionOf e.decision)
    { platform := input.definition.platform
      platformDecision := platformDecision input.definition.platform sources
      sources, groups }
    (explanationsOf e)
    ((provenanceKeys e).filterMap (fieldEvidence contexts device)))

end

section

/-- A stored decision of a group about one device. -/
structure DecisionRecord where
  device : String
  decision : Group.Decision

variable {C F : Type}

def mergeTarget (index : Nat) (decision : Decision) (target : List GroupEvidence) :
    List GroupEvidence :=
  target.modify index (fun g => { g with decision })

/-- The decisions of one group, read page by page. -/
def mergeTargets (index : Nat) (records : List DecisionRecord)
    (targets : OrdMap String (List GroupEvidence)) : OrdMap String (List GroupEvidence) :=
  records.foldl (fun targets r => targets.modify r.device (mergeTarget index (decisionOf r.decision)))
    targets

def initialTarget (input : Input C F) : List GroupEvidence :=
  input.groups.map (fun g => ⟨g.id, g.memberSet, .noMatch⟩)

def groupTargets (input : Input C F) (devices : List String) (records : Uuid → List DecisionRecord) :
    OrdMap String (List GroupEvidence) :=
  input.groups.zipIdx.foldl (fun targets entry =>
    match entry.1.memberSet with
    | some set => mergeTargets entry.2 (records set) targets
    | none => targets)
    (devices.foldl (fun targets d => targets.insert d (initialTarget input)) .empty)

end

variable {TenantId Timepoint F : Type} [LinearOrder TenantId]

/-- What the page's step reads besides the facts: group decisions and device sources. -/
structure PageAnswers where
  records : Uuid → List DecisionRecord
  platforms : OrdMap String (List SourceReference)

def assessDevice (input : Input InventoryCondition F) (devices : List String) (answers : PageAnswers)
    (contexts : OrdMap (String ×ₗ String) DeviceSummary) (device : String)
    (e : Group.ObjectEvaluation TenantId Timepoint) : Except Error (Assessment F) :=
  assessment input device contexts e
    (((groupTargets input devices answers.records).get? device).getD [])
    ((answers.platforms.get? device).getD [])

/-- A document is assessed, and checked once more as it is inserted. -/
def storeDevice (input : Input InventoryCondition F) (devices : List String) (answers : PageAnswers)
    (contexts : OrdMap (String ×ₗ String) DeviceSummary)
    (p : String × Group.ObjectEvaluation TenantId Timepoint) :
    Except Error (String × Assessment F) := do
  let document ← assessDevice input devices answers contexts p.1 p.2
  stored document.validate
  .ok (p.1, document)

def storePage (input : Input InventoryCondition F) (devices : List String) (answers : PageAnswers)
    (contexts : OrdMap (String ×ₗ String) DeviceSummary)
    (objects : List (Group.ObjectEvaluation TenantId Timepoint)) :
    Except Error (List (String × Assessment F)) :=
  (devices.zip objects).mapM (storeDevice input devices answers contexts)

end RssMdm.Compliance
