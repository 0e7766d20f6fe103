/- module: WindowsMdm/Native/Schema
   source: crates/windows-mdm/src/native/mod.rs, crates/windows-mdm/src/native/admx.rs
   digest: Frozen schema nodes, canonical node identities and schema-checked operations. -/

import RssMdm.WindowsMdm.Syncml.Validate

set_option autoImplicit false

namespace RssMdm.WindowsMdm.Native

open Lib.Fallible
open Lib.Text
open WindowsMdm.Syncml

/-- Closed validation failures. -/
inductive Error where
  | unknownObject
  | identity
  | scope
  | missingEvidence
  | unsupported
  | operationNotAllowed
  | value
  | unresolvedConstraint
  | atomicRequired
  | limit
deriving DecidableEq

/-- Native Windows management scope. -/
inductive Scope where
  | device
  | user
deriving DecidableEq

/-- Enrollment identity bound by the registration owner. -/
inductive Enrollment where
  | primary
  | linkedCertificate
deriving DecidableEq

/-- OS major, minor, build and servicing revision. -/
structure Build where
  major : UInt32
  minor : UInt32
  build : UInt32
  revision : UInt32
deriving DecidableEq

/-- Authenticated target evidence; an absent member was not observed. -/
structure Context where
  build : Option Build
  edition : Option UInt32
  scope : Scope
  enrollment : Enrollment
deriving DecidableEq

inductive Verb where
  | get
  | add
  | replace
  | delete
  | exec
deriving DecidableEq

def Verb.mask : Verb → UInt8
  | .get => 1
  | .add => 2
  | .replace => 4
  | .delete => 8
  | .exec => 16

/-- Typed policy controls. -/
inductive AdmxData where
  | delete
  | text (value : String)
  | integer (value : UInt64)
  | boolean (value : Bool)
  | multiText (values : List String)
  | list (values : List (String × String))
deriving DecidableEq

structure PolicyValue where
  enabled : Bool
  elements : List (String × AdmxData)
deriving DecidableEq

inductive Value where
  | admx (value : PolicyValue)
  | text (value : String)
  | integer (value : Int64)
  | boolean (value : Bool)
  | bytes (value : List UInt8)
  | xml (value : String)
  | time (value : String)
deriving DecidableEq

inductive Format where
  | text
  | integer
  | boolean
  | base64
  | binary
  | xml
  | node
  | null
  | time
deriving DecidableEq

def Format.wire : Format → String
  | .text => "chr"
  | .integer => "int"
  | .boolean => "bool"
  | .base64 => "b64"
  | .binary => "bin"
  | .xml => "xml"
  | .node => "node"
  | .null => "null"
  | .time => "time"

structure Constraint where
  kind : String
  values : List String
  delimiter : Option String
  admx : Option (String × String)
deriving DecidableEq

/-- One node of the generated schema table. -/
structure Node where
  path : String
  preview : Bool
  boundedBranches : Bool
  certificateBuilds : List Build
  format : Format
  access : UInt8
  builds : List Build
  editions : Option (List String)
  mime : String
  lifetime : String
  atomic : Bool
  constraints : List Constraint
deriving DecidableEq

/-- The value checks of the schema, with their expression, policy and document engines: the text of
a typed value for a node, or the reason it has none. -/
abbrev ValueCompiler : Type :=
  Node → Verb → Option Value → Context → Except Error (Option String)

def permits (node : Node) (verb : Verb) : Bool := node.access &&& verb.mask ≠ 0

def scopeOf (node : String) : Scope := if startsWith node "./User/" then .user else .device

/-- The halving loop of `binary_search_by_key`; `size` shrinks by half in each round. -/
def searchBase (nodes : List Node) (path : String) : Nat → Nat → Nat → Nat
  | 0, base, _ => base
  | fuel + 1, base, size =>
      if size ≤ 1 then base
      else
        let half := size / 2
        let mid := base + half
        let base := if nodes[mid]?.any (fun n => compare n.path path = .gt) then base else mid
        searchBase nodes path fuel base (size - half)

/-- The node of a path, found by binary search over the sorted table. -/
def schema (nodes : List Node) (path : String) : Except Error Node :=
  match nodes[searchBase nodes path nodes.length 0 nodes.length]? with
  | some node => if node.path = path then .ok node else .error .unknownObject
  | none => .error .unknownObject

variable {nodes : List Node}

theorem schema_eq_ok {path : String} {node : Node} (h : schema nodes path = .ok node) :
    node ∈ nodes ∧ node.path = path := by
  unfold schema at h
  split at h
  · rename_i found hfound
    split at h
    · rename_i same
      cases h
      exact ⟨List.mem_of_getElem? hfound, same⟩
    · cases h
  · cases h

/-- Bytes that stand for themselves in a URI. -/
def unreserved (b : UInt8) : Bool :=
  let n := b.toNat
  (48 ≤ n && n ≤ 57) || (65 ≤ n && n ≤ 90) || (97 ≤ n && n ≤ 122) || n = 45 || n = 95 || n = 46 ||
    n = 126

def encodeByte (b : UInt8) : List Char :=
  if unreserved b then [Char.ofNat b.toNat] else '%' :: hexByte false b.toNat

/-- The check and the percent encoding of one dynamic component. -/
def identitySegment (value : String) : Except Error (List Char) :=
  if value.isEmpty || value = "." || value = ".." || value = "*" ||
      value.toList.any isControl then .error .identity
  else if value.utf8ByteSize > 2048 then .error .limit
  else .ok (value.toByteArray.data.toList.flatMap encodeByte)

/-- The template segments, with the URI so far and the components not yet used. -/
def identityLoop : List Char → List String → List String → Except Error (List Char × List String)
  | uri, values, [] => .ok (uri, values)
  | uri, values, segment :: rest =>
      let uri := if uri.isEmpty then uri else uri ++ ['/']
      if segment ≠ "*" then identityLoop (uri ++ segment.toList) values rest
      else match values with
        | [] => .error .identity
        | value :: values => do
            let encoded ← identitySegment value
            identityLoop (uri ++ encoded) values rest

def identity (template : String) (segments : List String) : Except Error String := do
  let (uri, unused) ← identityLoop [] segments (splitAt template '/')
  if !unused.isEmpty then .error .identity
  else if utf8Len uri > 2048 then .error .limit
  else .ok (String.ofList uri)

/-- `0x` and hexadecimal digits of a value below 2^32. -/
def parseEdition (raw : String) : Option UInt32 :=
  match raw.toList with
  | '0' :: 'x' :: digits =>
      let digits := if digits.head? = some '+' then digits.tail else digits
      if digits.isEmpty then none
      else ((hexValue digits).filter (fun n => n < 2 ^ 32)).map UInt32.ofNat
  | _ => none

/-- A servicing revision applies to its branch, not every numerically newer build. -/
def buildApplies (node : Node) (declared : Bool) (build b : Build) : Bool :=
  b.major = 10 && b.minor = 0 && build.major = b.major && build.minor = b.minor &&
    (if b.revision = 0 && !node.boundedBranches && !declared then b.build ≤ build.build
      else build.build = b.build && b.revision ≤ build.revision)

def Node.check (node : Node) (target : Context) : Except Error Unit :=
  let declared := contains node.path "/Vendor/MSFT/DeclaredConfiguration"
  if declared ≠ decide (target.enrollment = .linkedCertificate) then .error .scope
  else if node.preview && node.certificateBuilds.isEmpty then .error .unsupported
  else match target.build, target.edition with
    | none, _ => .error .missingEvidence
    | some _, none => .error .missingEvidence
    | some build, some edition =>
        let builds := if declared then node.certificateBuilds else node.builds
        if builds.isEmpty then .error .unresolvedConstraint
        else if !builds.any (buildApplies node declared build) then .error .unsupported
        else match node.editions with
          | none => .error .unresolvedConstraint
          | some editions =>
              if !editions.any (fun raw => parseEdition raw = some edition) then
                .error .unsupported
              else .ok ()

/-- An immutable schema-checked operation. -/
structure Operation where
  node : Node
  verb : Verb
  uri : String
  data : Option String
deriving DecidableEq

def Operation.compile (nodes : List Node) (values : ValueCompiler) (template : String)
    (segments : List String) (verb : Verb) (value : Option Value) (target : Context) :
    Except Error Operation := do
  let node ← schema nodes template
  if scopeOf template ≠ target.scope then .error .scope
  else do
    let uri ← identity template segments
    node.check target
    if !permits node verb then .error .operationNotAllowed
    else do
      let data ← values node verb value target
      .ok ⟨node, verb, uri, data⟩

def Operation.item (op : Operation) : Item where
  moreData := false
  source := none
  target := some op.uri
  metaInfo := op.data.map (fun _ => { Meta.empty with
    format := some op.node.format.wire
    mediaType := if op.node.mime.isEmpty then none else some op.node.mime })
  data := op.data

def Verb.command (verb : Verb) (id : UInt32) (items : List Item) : Command :=
  match verb with
  | .get => .get id none items
  | .add => .add id none items
  | .replace => .replace id none items
  | .delete => .delete id none items
  | .exec => .exec id none items

def Operation.command (op : Operation) (id : UInt32) : Command := op.verb.command id [op.item]

variable {values : ValueCompiler} {segments : List String}

theorem Operation.compile_eq_ok {template : String} {verb : Verb} {value : Option Value}
    {target : Context} {op : Operation}
    (h : Operation.compile nodes values template segments verb value target = .ok op) :
    op.verb = verb ∧ identity template segments = .ok op.uri ∧ schema nodes template = .ok op.node := by
  obtain ⟨node, hnode, h⟩ := of_bind h
  rw [guard_eq_ok] at h
  obtain ⟨uri, huri, h⟩ := of_bind h.2
  obtain ⟨-, h⟩ := of_check h
  rw [guard_eq_ok] at h
  obtain ⟨data, -, h⟩ := of_bind h.2
  cases h
  exact ⟨rfl, huri, hnode⟩

theorem Operation.compile_of {template uri : String} {verb : Verb} {value : Option Value}
    {target : Context} {node : Node} {data : Option String}
    (known : schema nodes template = .ok node) (channel : scopeOf template = target.scope)
    (identified : identity template segments = .ok uri) (checked : node.check target = .ok ())
    (allowed : permits node verb = true) (valued : values node verb value target = .ok data) :
    Operation.compile nodes values template segments verb value target =
      .ok ⟨node, verb, uri, data⟩ := by
  rw [Operation.compile, known, ok_bind, if_neg (not_not.mpr channel), identified, ok_bind, checked,
    ok_bind, allowed, Bool.not_true, if_neg Bool.false_ne_true, valued, ok_bind]

end RssMdm.WindowsMdm.Native
