/- module: Groups/Definition
   source: crates/inventory-service/src/groups/definition.rs, dependencies.rs, mutation.rs, tasks.rs,
     criteria.rs, crates/group-postgres/src/graph.rs, store.rs
   digest: Groups that refer to groups: authored changes, the graph clock and the definition tasks that
   walk the references a page at a time. -/

import Mathlib.Data.List.Dedup
import Mathlib.Data.List.Sort
import RssMdm.Lib.Rows
import RssMdm.Policy.Definition

set_option autoImplicit false

namespace RssMdm.Groups

open Lib.Rows
open Policy (Uuid)

inductive Fault where
  | malformed | conflict | missing | forbidden | unavailable
deriving DecidableEq

inductive AssetContext where
  | endpoint | associatedDevice
deriving DecidableEq

inductive GroupKind where
  | static | dynamic | system
deriving DecidableEq

/-- The criteria of a rule; a predicate on fields names no group. -/
inductive Criteria where
  | predicate (field : String)
  | group (id : Uuid) (negated : Bool)
  | and (children : List Criteria)
  | or (children : List Criteria)

mutual

def Criteria.groupIds : Criteria → List Uuid
  | .predicate _ => []
  | .group id _ => [id]
  | .and children => groupIdsAll children
  | .or children => groupIdsAll children

def groupIdsAll : List Criteria → List Uuid
  | [] => []
  | c :: cs => c.groupIds ++ groupIdsAll cs

end

/-- `rule.groups()`: the groups a rule refers to, as an ordered set. -/
def Criteria.references (c : Criteria) : List Uuid :=
  c.groupIds.dedup.insertionSort (fun a b => a.toNat ≤ b.toNat)

/-- A row of `groups`, with its current rule. -/
structure Group where
  id : Uuid
  kind : GroupKind
  context : AssetContext
  presentation : String
  revision : Nat
  rule : Option (Uuid × Criteria)
  deleted : Bool

def Group.references (g : Group) : List Uuid :=
  match g.rule with
  | some (_, criteria) => criteria.references
  | none => []

inductive GroupChange where
  | create (presentation : String) (context : AssetContext) (criteria : Option Criteria)
  | createSystem (presentation : String)
  | edit (presentation : String)
  | rule (criteria : Criteria)
  | delete

def GroupChange.authored : GroupChange → Bool
  | .create _ _ _ | .createSystem _ | .rule _ | .delete => true
  | .edit _ => false

structure Operation where
  operationId : Uuid
  expectedRevision : Nat
  input : GroupChange

structure DefinitionEdit where
  group : Uuid
  change : Operation

structure Cursor where
  graphRevision : Nat
  ready : Bool
deriving DecidableEq

/-- A row of `definition_walk`. -/
structure WalkRow where
  node : Uuid
  graphRevision : Nat
  visited : Bool
deriving DecidableEq

structure Task where
  id : Uuid
  edit : DefinitionEdit
  completed : Bool
  failure : Option String
  cursor : Option Cursor
  walk : List WalkRow

structure Answers where
  /-- Criteria, catalog and visibility of a definition. -/
  compiled : Except Fault Unit
  /-- The catalog and the visibility of a visited rule. -/
  visible : Uuid → Except Fault Unit
  /-- Fences, documents and the outbox of a command. -/
  executed : Except Fault Unit
  /-- References to a group from scopes and compliance rules. -/
  unused : Except Fault Unit
  /-- The fields, sources and calculations that follow a command. -/
  followed : Except Fault Unit

structure Store where
  groups : List Group
  clock : Nat
  operations : List (Uuid × Uuid)
  tasks : List Task

def Store.empty : Store := ⟨[], 0, [], []⟩

namespace Store

def find (s : Store) (id : Uuid) : Option Group := lookup Group.id s.groups id

def findTask (s : Store) (id : Uuid) : Option Task := lookup Task.id s.tasks id

def live (s : Store) (id : Uuid) : Except Fault Group :=
  match (s.find id).filter (fun g => !g.deleted) with
  | some g => .ok g
  | none => .error .missing

/-- `UPDATE groups … WHERE id`. -/
def saveGroup (s : Store) (g : Group) : Store :=
  { s with groups := replace Group.id s.groups g }

def saveTask (s : Store) (t : Task) : Store :=
  { s with tasks := replace Task.id s.tasks t }

def usedIn (s : Store) (id : Uuid) : Bool :=
  s.groups.any (fun g => !g.deleted && g.references.contains id)

def definitionReferences (s : Store) (id : Uuid) (op : Operation) (a : Answers) :
    Except Fault (AssetContext × List Uuid) := do
  let (context, criteria) ← (match op.input with
    | .create _ context (some criteria) =>
        if op.expectedRevision ≠ 0 then .error .conflict
        else if (s.find id).isSome then .error .conflict
        else .ok (context, criteria)
    | .rule criteria => do
        let g ← s.live id
        if g.revision ≠ op.expectedRevision then .error .conflict else .ok (g.context, criteria)
    | _ => .error .malformed : Except Fault (AssetContext × Criteria))
  a.compiled
  if criteria.references.contains id then .error .malformed else .ok (context, criteria.references)

def referenceEdges (s : Store) (id : Uuid) (context : AssetContext) (a : Answers) :
    Except Fault (List Uuid) := do
  let g ← s.live id
  if g.context ≠ context then .error .malformed
  else
    match g.rule with
    | none => .ok []
    | some (_, criteria) => do
        a.visible id
        .ok criteria.references

/-- The row that a command creates or changes; `none` where the command changes nothing. -/
def commandGroup (s : Store) (id : Uuid) (op : Operation) : Except Fault (Option Group) :=
  match op.input, s.find id with
  | .create presentation context criteria, none =>
      if op.expectedRevision ≠ 0 then .error .conflict
      else if context = .associatedDevice && criteria.isNone then .error .malformed
      else
        .ok (some ⟨id, if criteria.isNone then .static else .dynamic, context, presentation, 1,
          criteria.map (fun c => (op.operationId, c)), false⟩)
  | .createSystem presentation, none =>
      if op.expectedRevision ≠ 0 then .error .conflict
      else .ok (some ⟨id, .system, .endpoint, presentation, 1, none, false⟩)
  | .create _ _ _, some _ | .createSystem _, some _ => .error .conflict
  | _, none => .error .missing
  | input, some g =>
      if g.deleted then .error .missing
      else if g.revision ≠ op.expectedRevision then .error .conflict
      else
        match input with
        | .rule criteria =>
            if g.kind ≠ .dynamic then .error .malformed
            else if g.rule.map Prod.fst = some op.operationId then .ok none
            else .ok (some { g with rule := some (op.operationId, criteria), revision := g.revision + 1 })
        | .delete => .ok (some { g with deleted := true, revision := g.revision + 1 })
        | .edit presentation =>
            if g.presentation = presentation then .ok none
            else .ok (some { g with presentation, revision := g.revision + 1 })
        | _ => .error .conflict

/-- A new row, or an update of the one with the id. -/
def putGroup (s : Store) (g : Group) : Store :=
  if (s.find g.id).isSome then s.saveGroup g else { s with groups := s.groups ++ [g] }

def putChanged (s : Store) : Option Group → Store
  | some g => s.putGroup g
  | none => s

/-- `execute_in`: a repeated operation id is answered from its receipt, or refused. -/
def execute (s : Store) (id : Uuid) (op : Operation) (a : Answers) : Except Fault Store := do
  a.executed
  match s.operations.find? (fun row => row.1 = op.operationId) with
  | some row => if row.2 ≠ id then .error .conflict else .ok s
  | none => do
      let changed ← s.commandGroup id op
      .ok { s.putChanged changed with operations := (op.operationId, id) :: s.operations }

def advanceGraph (s : Store) : Store := { s with clock := s.clock + 1 }

def deletable (s : Store) (id : Uuid) (a : Answers) : GroupChange → Except Fault Unit
  | .delete => do
      let _ ← s.live id
      a.unused
      if s.usedIn id then .error .conflict else .ok ()
  | _ => .ok ()

def publishChange (s : Store) (id : Uuid) (op : Operation) (a : Answers) : Except Fault Store := do
  a.compiled
  s.deletable id a op.input
  let s ← s.execute id op a
  let s := if op.input.authored then s.advanceGraph else s
  a.followed
  .ok s

/-- `ON CONFLICT … DO UPDATE … WHERE graph_revision <> excluded.graph_revision`. -/
def seedNode (revision : Nat) (walk : List WalkRow) (node : Uuid) : List WalkRow :=
  if walk.any (fun row => row.node = node) then
    walk.map (fun row => if row.node = node && row.graphRevision ≠ revision then
      ⟨node, revision, false⟩ else row)
  else walk ++ [⟨node, revision, false⟩]

def seed (revision : Nat) (walk : List WalkRow) (nodes : List Uuid) : Except Fault (List WalkRow) :=
  if nodes.length > 256 then .error .malformed else .ok (nodes.foldl (seedNode revision) walk)

/-- At most sixteen nodes that were not visited, in order. -/
def page (revision : Nat) (walk : List WalkRow) : List Uuid :=
  (((walk.filter (fun row => row.graphRevision = revision && !row.visited)).map
    WalkRow.node).insertionSort (fun a b => a.toNat ≤ b.toNat)).take 16

def visit (revision : Nat) (walk : List WalkRow) (node : Uuid) : Except Fault (List WalkRow) :=
  if walk.any (fun row => row.node = node && row.graphRevision = revision) then
    .ok (walk.map (fun row => if row.node = node && row.graphRevision = revision then
      { row with visited := true } else row))
  else .error .conflict

/-- One node of a page: neither it nor what it refers to may be the edited group. -/
def step (s : Store) (edit : DefinitionEdit) (context : AssetContext) (revision : Nat) (a : Answers)
    (walk : List WalkRow) (node : Uuid) : Except Fault (List WalkRow) := do
  if node = edit.group then .error .malformed
  else do
    let children ← s.referenceEdges node context a
    if children.contains edit.group then .error .malformed
    else do
      let walk ← seed revision walk children
      visit revision walk node

def finishTask (s : Store) (t : Task) (failure : Option String) : Store :=
  s.saveTask { t with completed := true, failure, walk := [] }

/-- The walk goes on for a page, from its roots if the graph has moved since. -/
def advanceWalk (s : Store) (t : Task) (context : AssetContext) (roots : List Uuid) (a : Answers) :
    Except Fault Store := do
  let restart := t.cursor.all (fun c => c.graphRevision ≠ s.clock)
  let walk ← (if restart then seed s.clock [] roots else .ok t.walk)
  let walk ← (page s.clock walk).foldlM (s.step t.edit context s.clock a) walk
  let pending := !(page s.clock walk).isEmpty
  .ok (s.saveTask { t with walk, cursor := some ⟨s.clock, !pending⟩ })

/-- `advance_group_definition_in`, under the graph lock. -/
def advanceDefinition (s : Store) (t : Task) (a : Answers) : Except Fault Store :=
  match s.definitionReferences t.edit.group t.edit.change a with
  | .error .conflict => .ok (s.finishTask t (some "owner_conflict"))
  | .error e => .error e
  | .ok (context, roots) =>
      if t.cursor = some ⟨s.clock, true⟩ then do
        let s ← s.publishChange t.edit.group t.edit.change a
        .ok (s.finishTask t none)
      else s.advanceWalk t context roots a

/-- A definition waits for its task; any other change is published at once. -/
def groupChange (s : Store) (id : Uuid) (op : Operation) (a : Answers) : Except Fault Store :=
  let define : Except Fault Store := do
    let _ ← s.definitionReferences id op a
    if op.operationId.isNil || id.isNil then .error .malformed
    else if (s.findTask op.operationId).isSome then .error .unavailable
    else .ok { s with tasks := s.tasks ++ [⟨op.operationId, ⟨id, op⟩, false, none, none, []⟩] }
  match op.input with
  | .create _ _ (some _) => define
  | .rule _ => define
  | _ => s.publishChange id op a

end Store

/-- One transaction; a worker that cannot go on rejects its task. -/
inductive Call where
  | groupChange (id : Uuid) (op : Operation) (answers : Answers)
  | advance (task : Uuid) (answers : Answers)
  | reject (task : Uuid) (reason : String)

namespace Store

/-- Completed tasks are left alone. -/
def onTask (s : Store) (id : Uuid) (f : Task → Except Fault Store) : Except Fault Store :=
  match s.findTask id with
  | none => .error .missing
  | some t => if t.completed then .ok s else f t

def perform (s : Store) : Call → Except Fault Store
  | .groupChange id op answers => s.groupChange id op answers
  | .advance task answers => s.onTask task (fun t => s.advanceDefinition t answers)
  | .reject task reason => s.onTask task (fun t => .ok (s.finishTask t (some reason)))

/-- A transaction that fails leaves the store as it was. -/
def apply (s : Store) (call : Call) : Store :=
  match s.perform call with
  | .ok s' => s'
  | .error _ => s

def after (s : Store) (calls : List Call) : Store := calls.foldl apply s

end Store

end RssMdm.Groups
