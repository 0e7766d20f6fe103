/- module: WindowsMdm/Native/Request
   source: crates/windows-mdm/src/native/request.rs, crates/windows-mdm/src/native/resolved.rs
   digest: Native operation trees, their resolution into leaves, claims and authorization targets,
   and the lowering of the tree to a command. -/

import RssMdm.Lib.Outcome
import RssMdm.WindowsMdm.Native.Schema

set_option autoImplicit false

namespace RssMdm.WindowsMdm.Native

open Lib.Fallible Lib.Outcome
open Lib.Text
open WindowsMdm.Syncml

inductive Request where
  | node (node : String) (instances : List String) (operation : Verb) (value : Option Value)
  | atomic (operations : List Request)
  | sequence (operations : List Request)

structure DocumentIdentity where
  id : Uuid
  scope : Scope
  checksum : String
  scenario : String
deriving DecidableEq

structure ResourceValue where
  format : Option String
  value : String
deriving DecidableEq

/-- Parsed declared-configuration document; the resources are in key order. -/
structure Document where
  identity : DocumentIdentity
  resources : List (String × ResourceValue)
  dsc : Bool
deriving DecidableEq

/-- What the request compiler uses of the rest of the crate and of its libraries: the generated
schema table, the value checks, GUID parsing, and the document grammar with the requests that a
document embeds. -/
structure Natives where
  nodes : List Node
  values : ValueCompiler
  parseUuid : String → Option Uuid
  parseDocument : String → Except Error Document
  requests : Document → Verb → Except Error (List Request)
  decoders : Decoders

/-- Exact native claim key. -/
inductive Object where
  | csp (scope : Scope) (uri : String)
  | mi (scope : Scope) (className : String)
deriving DecidableEq

/-- The constructor and scope of an object, in declaration order. -/
def Object.rank : Object → Nat
  | .csp .device _ => 0
  | .csp .user _ => 1
  | .mi .device _ => 2
  | .mi .user _ => 3

def Object.key : Object → String
  | .csp _ uri => uri
  | .mi _ className => className

def Object.order : Object → Object → Ordering :=
  compareLex (compareOn Object.rank) (compareOn Object.key)

instance : Std.TransCmp Object.order := by
  unfold Object.order
  infer_instance

instance : Std.LawfulEqCmp Object.order where
  eq_of_compare {a b} h := by
    simp only [Object.order, compareLex_eq_eq, compareOn, Std.LawfulEqOrd.compare_eq_iff_eq] at h
    obtain ⟨rank, key⟩ := h
    cases a with
    | csp s =>
        cases b with
        | csp s' => cases s <;> cases s' <;> simp_all [Object.rank, Object.key]
        | mi s' => cases s <;> cases s' <;> simp [Object.rank] at rank
    | mi s =>
        cases b with
        | csp s' => cases s <;> cases s' <;> simp [Object.rank] at rank
        | mi s' => cases s <;> cases s' <;> simp_all [Object.rank, Object.key]

abbrev ObjectSet : Type := Std.TreeSet Object Object.order

/-- Schema-owned authorization facts. -/
inductive AuthorizationTarget where
  | csp (node : String) (operation : Verb)
  | mi (className : String)
  | declaredInterval
  | declaredResult
deriving DecidableEq

structure Leaf where
  node : String
  instances : List String
  operation : Verb
  value : Option Value
  document : Option Document
  embedded : List Request

/-- Immutable resolution; documents are parsed once. -/
structure Resolved where
  request : Request
  leaves : List Leaf
  objects : List Object
  targets : List AuthorizationTarget

/-- Compiled protocol payload and the native objects it addresses. -/
structure Compiled where
  command : Command
  objects : List Object

mutual

/-- Number of command identifiers of a tree, groups included. -/
def Request.size : Request → Nat
  | .node _ _ _ _ => 1
  | .atomic operations => 1 + requestsSize operations
  | .sequence operations => 1 + requestsSize operations

def requestsSize : List Request → Nat
  | [] => 0
  | r :: rest => r.size + requestsSize rest

end

def Request.members : Request → Option (List Request)
  | .node _ _ _ _ => none
  | .atomic operations => some operations
  | .sequence operations => some operations

/-- The counting stack; the members of a group are pushed in order, so the last one is on top. -/
def countLoop : Nat → List (Request × Nat) → Nat → Except Error Nat
  | _, [], count => .ok count
  | 0, _ :: _, _ => .error .limit
  | fuel + 1, (request, depth) :: pending, count =>
      let count := count + 1
      if depth > 32 || count + pending.length > CodecLimits.default.commands then .error .limit
      else match request.members with
        | none => countLoop fuel pending count
        | some operations =>
            if operations.isEmpty then .error .value
            else if operations.length + pending.length + count > CodecLimits.default.commands then
              .error .limit
            else countLoop fuel ((operations.map (fun r => (r, depth + 1))).reverse ++ pending) count

/-- The bounded number of native command identifiers, including those of groups. -/
def Request.commandCount (r : Request) : Except Error Nat := countLoop r.size [(r, 0)] 0

def cspTargets (nodes : List Node) (node : String) (operation : Verb) :
    Except Error (List AuthorizationTarget) := do
  let selected ← schema nodes node
  if !permits selected operation then .error .operationNotAllowed
  else .ok (.csp node operation ::
    (if operation = .delete || (operation = .get && selected.format = .node) then
      (nodes.filter (fun n => startsWith n.path (node ++ "/"))).map
        (fun n => .csp n.path operation)
    else []))

structure Resolution where
  leaf : Leaf
  objects : List Object
  targets : List AuthorizationTarget

def declaredNode (node : String) : Bool := contains node "/DeclaredConfiguration/"

def refreshInterval : String :=
  "./Device/Vendor/MSFT/DeclaredConfiguration/ManagementServiceConfiguration/RefreshInterval"

/-- The classes of the resource keys before `/Key/`, sorted and distinct. -/
def miClasses (document : Document) : List String :=
  let classes := document.resources.filterMap (fun (key, _) =>
    let parts := key.toList.tails.zipIdx.filter (fun (rest, _) => "/Key/".toList.isPrefixOf rest)
    parts.head?.map (fun (_, i) => String.ofList (key.toList.take i)))
  (Std.TreeSet.ofList classes).toList

def embeddedVerb (operation : Verb) (inventory : Bool) : Verb :=
  if operation = .delete then .delete else if inventory then .get else .replace

/-- Claims and authorization of the requests a document embeds; each must be a single node. -/
def resolveEmbedded (env : Natives) : List Request →
    Except Error (List Object × List AuthorizationTarget)
  | [] => .ok ([], [])
  | .node node instances operation _ :: rest => do
      let uri ← identity node instances
      let targets ← cspTargets env.nodes node operation
      let (objects, others) ← resolveEmbedded env rest
      .ok (.csp (scopeOf node) uri :: objects, targets ++ others)
  | _ :: _ => .error .value

/-- What a document's resources contribute: class-wide MI claims, or its embedded requests. -/
def resolveResources (env : Natives) (document : Document) (operation : Verb) (inventory : Bool) :
    Except Error (List Request × List Object × List AuthorizationTarget) :=
  if document.dsc then
    .ok ([], (miClasses document).map (fun c => .mi .device c), (miClasses document).map .mi)
  else do
    let embedded ← env.requests document (embeddedVerb operation inventory)
    let (objects, targets) ← resolveEmbedded env embedded
    .ok (embedded, objects, targets)

/-- The GUID of a document address, from its first dynamic component. -/
def documentId (env : Natives) (instances : List String) : Except Error Uuid :=
  match instances.head?.bind env.parseUuid with
  | some id => .ok id
  | none => .error .identity

def resolveDocument (env : Natives) (node : String) (instances : List String) (operation : Verb)
    (value : Option Value) : Except Error Resolution :=
  match value with
  | some (.xml xml) => do
      let document ← env.parseDocument xml
      let id ← documentId env instances
      let inventory := contains node "/Host/Inventory/"
      if instances.length ≠ 1 || id ≠ document.identity.id || scopeOf node ≠ document.identity.scope
        then .error .identity
      else if (inventory ≠ endsWith document.identity.scenario "Inventory") && document.dsc then
        .error .value
      else if !contains node "/Host/Complete/" && !inventory then .error .unsupported
      else do
        -- the canonical GUID keeps case and brace variants from aliasing claims
        let canonical := [Uuid.text id]
        let uri ← identity node canonical
        let (embedded, objects, targets) ← resolveResources env document operation inventory
        .ok ⟨⟨node, canonical, operation, value, some document, embedded⟩,
          .csp (scopeOf node) uri :: objects, targets⟩
  | _ => .error .value

/-- A read of a declared-configuration result. -/
def resolveResult (env : Natives) (node : String) (instances : List String) (operation : Verb)
    (value : Option Value) : Except Error Resolution := do
  let id ← documentId env instances
  if id = 0 then .error .identity
  else do
    let uri ← identity node [Uuid.text id]
    .ok ⟨⟨node, [Uuid.text id], operation, value, none, []⟩, [.csp (scopeOf node) uri],
      [.declaredResult]⟩

def mutates (operation : Verb) : Bool :=
  operation = .add || operation = .replace || operation = .delete

def resolveNode (env : Natives) (node : String) (instances : List String) (operation : Verb)
    (value : Option Value) : Except Error Resolution := do
  let selected ← schema env.nodes node
  if !permits selected operation then .error .operationNotAllowed
  else do
    let uri ← identity node instances
    let leaf : Leaf := ⟨node, instances, operation, value, none, []⟩
    if declaredNode node then
      if endsWith node "/Documents/*/Document" && mutates operation then
        resolveDocument env node instances operation value
      else if node = refreshInterval then
        .ok ⟨leaf, [.csp (scopeOf node) uri], [.declaredInterval]⟩
      else if endsWith node "/Results/*/Document" && operation = .get && value.isNone then
        resolveResult env node instances operation value
      else .error .unsupported
    else do
      let targets ← cspTargets env.nodes node operation
      .ok ⟨leaf, [.csp (scopeOf node) uri], targets⟩

/-- The resolving stack; the members of a group are pushed in reverse, so the first is on top. -/
def resolveLoop (env : Natives) : Nat → List Request → List Resolution →
    Except Error (List Resolution)
  | _, [], done => .ok done
  | 0, _ :: _, _ => .error .limit
  | fuel + 1, request :: pending, done =>
      match request with
      | .atomic operations => resolveLoop env fuel (operations ++ pending) done
      | .sequence operations => resolveLoop env fuel (operations ++ pending) done
      | .node node instances operation value => do
          let resolution ← resolveNode env node instances operation value
          resolveLoop env fuel pending (done ++ [resolution])

def Request.resolve (env : Natives) (r : Request) : Except Error Resolved := do
  let _ ← r.commandCount
  let done ← resolveLoop env r.size [r] []
  let leaves := done.map Resolution.leaf
  if leaves.any (fun l => declaredNode l.node) && leaves.any (fun l => !declaredNode l.node) then
    .error .scope
  else
    let objects := (∅ : ObjectSet).insertMany (done.flatMap Resolution.objects)
    .ok ⟨r, leaves, objects.toList, done.flatMap Resolution.targets⟩

/-- The input a leaf is compiled with; the schema encodes a document as character data. -/
def Leaf.input (leaf : Leaf) : Except Error (Option Value) :=
  if leaf.document.isSome then
    if leaf.operation = .delete then .ok none
    else match leaf.value with
      | some (.xml xml) => .ok (some (.text xml))
      | _ => .error .value
  else .ok leaf.value

def Leaf.compile (env : Natives) (leaf : Leaf) (context : Context) : Except Error Operation := do
  let value ← leaf.input
  Operation.compile env.nodes env.values leaf.node leaf.instances leaf.operation value context

/-- Native evidence expected after a mutation. -/
inductive Evidence where
  | value (data : String)
  | present
  | absent
  | declared (document : Document) (operation : String)
deriving DecidableEq

/-- A native query and the evidence it is intended to observe, by canonical URI. -/
structure Verification where
  request : Request
  expected : List (String × Evidence)

inductive EffectPlan where
  | readOnly
  | readback (verification : Verification)
  | unverifiable (reason : String)

/-- The node to read back after a leaf and what it must show; `none` when nothing can be promised. -/
def Leaf.goal (leaf : Leaf) (op : Operation) : Option (String × Evidence) :=
  match leaf.document with
  | some document => some (replaceFirst leaf.node "/Documents/" "/Results/",
      .declared document (if leaf.operation = .delete then "Delete"
        else if contains leaf.node "/Inventory/" then "Get" else "Set"))
  | none =>
      if leaf.operation = .delete then
        if endsWith leaf.node
            "/DeclaredConfiguration/ManagementServiceConfiguration/RefreshInterval" then
          some (leaf.node, .value "240")
        else if contains leaf.node "/Policy/Config/" || op.node.lifetime ≠ "Dynamic" then none
        else some (leaf.node, .absent)
      else some (leaf.node, match op.data with
        | some data => .value data
        | none => .present)

def readbackPlan (queries : Std.TreeMap String (Request × Evidence)) : EffectPlan :=
  match queries.toList with
  | [] => .readOnly
  | [(uri, query, goal)] => .readback ⟨query, [(uri, goal)]⟩
  | all => .readback ⟨.sequence (all.map (fun x => x.2.1)), all.map (fun x => (x.1, x.2.2))⟩

def effectLoop (env : Natives) (context : Context) :
    Std.TreeMap String (Request × Evidence) → List Leaf → Except Error EffectPlan
  | queries, [] => .ok (readbackPlan queries)
  | queries, leaf :: rest =>
      if leaf.operation = .get then effectLoop env context queries rest
      else if leaf.operation = .exec then
        .ok (.unverifiable "operation_requires_family_effect_evidence")
      else leaf.compile env context >>= fun op =>
        match leaf.goal op with
        | none => .ok (.unverifiable "delete_restores_default_without_frozen_detector")
        | some (node, goal) =>
            match Operation.compile env.nodes env.values node leaf.instances .get none context with
            | .error _ => .ok (.unverifiable "native_object_is_not_queryable")
            | .ok query => effectLoop env context
                (queries.insert query.uri (.node node leaf.instances .get none, goal)) rest

def effect (env : Natives) (leaves : List Leaf) (context : Context) : Except Error EffectPlan :=
  effectLoop env context ∅ leaves

/-- Schema checked dispatch and effect contract. -/
structure Prepared where
  resolved : Resolved
  context : Context
  effect : EffectPlan

/-- Check every leaf, and every request a document embeds as one of an ordinary enrollment. The
source recurses into the documents without a bound of its own; the fuel bounds their nesting. -/
def Resolved.prepare (env : Natives) : Nat → Resolved → Context → Run Error Prepared
  | 0, _, _ => .error .fuel
  | fuel + 1, resolved, context => do
      each (fun leaf => do
        let _ ← (leaf.compile env context).mapError Fault.error
        each (fun embedded => do
          let inner ← (embedded.resolve env).mapError Fault.error
          let _ ← Resolved.prepare env fuel inner { context with enrollment := .primary }
          .ok ()) leaf.embedded) resolved.leaves
      let plan ← (effect env resolved.leaves context).mapError Fault.error
      .ok ⟨resolved, context, plan⟩

mutual

def lower (env : Natives) (context : Context) : Request → Nat → List Leaf → Bool →
    Except Error (Command × Nat × List Leaf)
  | .node _ _ _ _, next, leaves, atomic =>
      if next ≥ 2 ^ 32 then .error .identity
      else match leaves with
        | [] => .error .value
        | leaf :: leaves => do
            let op ← leaf.compile env context
            if op.node.atomic && !atomic && op.verb ≠ .get then .error .atomicRequired
            else .ok (op.command (UInt32.ofNat next), next + 1, leaves)
  | .atomic operations, next, leaves, atomic =>
      if next ≥ 2 ^ 32 then .error .identity
      else if atomic then .error .operationNotAllowed
      else do
        let (commands, after, leaves) ← lowerAll env context operations (next + 1) leaves true
        .ok (.atomic (UInt32.ofNat next) commands, after, leaves)
  | .sequence operations, next, leaves, atomic =>
      if next ≥ 2 ^ 32 then .error .identity
      else do
        let (commands, after, leaves) ← lowerAll env context operations (next + 1) leaves atomic
        .ok (.sequence (UInt32.ofNat next) commands, after, leaves)

def lowerAll (env : Natives) (context : Context) : List Request → Nat → List Leaf → Bool →
    Except Error (List Command × Nat × List Leaf)
  | [], next, leaves, _ => .ok ([], next, leaves)
  | r :: rest, next, leaves, atomic => do
      let (command, next, leaves) ← lower env context r next leaves atomic
      let (commands, next, leaves) ← lowerAll env context rest next leaves atomic
      .ok (command :: commands, next, leaves)

end

/-- Emit a validated tree after allocating identifiers. -/
def Prepared.command (env : Natives) (p : Prepared) (first : UInt32) : Except Error Compiled := do
  let count ← p.resolved.request.commandCount
  if first = 0 || first.toNat + (count - 1) ≥ 2 ^ 32 then .error .identity
  else do
    let (command, _, _) ←
      lower env p.context p.resolved.request first.toNat p.resolved.leaves false
    (validateBody env.decoders [command] true CodecLimits.default).mapError (fun _ => Error.value)
    .ok ⟨command, p.resolved.objects⟩

/-- Compile against authenticated platform evidence after the caller allocates identifiers. -/
def Request.compile (env : Natives) (fuel : Nat) (r : Request) (context : Context)
    (first : UInt32) : Run Error Compiled := do
  let resolved ← (r.resolve env).mapError Fault.error
  let prepared ← resolved.prepare env fuel context
  (prepared.command env first).mapError Fault.error

end RssMdm.WindowsMdm.Native
