/- module: Resource/Lifecycle
   source: crates/resource/src/lib.rs, crates/resource/src/presentation.rs
   digest: The resource aggregate: its mutators, its snapshot and the checks of a restore. -/

import RssMdm.Resource.Version

set_option autoImplicit false
set_option linter.dupNamespace false

namespace RssMdm.Resource

open Lib
open Lib.Text (isControl)

section

/-- A JSON value; `Number` stands for the number type of the JSON library. -/
inductive Json (Number : Type) where
  | null
  | bool (value : Bool)
  | number (value : Number)
  | string (text : String)
  | array (values : List (Json Number))
  | object (values : List (String × Json Number))

variable {Number : Type}

abbrev JsonMap (Number : Type) := List (String × Json Number)

def keyAllowed (key : String) : Bool :=
  !key.isEmpty && decide (key.utf8ByteSize ≤ 256) && !key.toList.any isControl

/-- Whether the walk may go on, and the nodes it has counted. -/
abbrev Walk := Bool × Nat

mutual

def visit (depth nodes : Nat) : Json Number → Walk
  | .object values =>
      if depth > 16 ∨ nodes + 1 > 4096 then (false, nodes + 1)
      else visitFields (depth + 1) (nodes + 1) values
  | .array values =>
      if depth > 16 ∨ nodes + 1 > 4096 then (false, nodes + 1)
      else visitItems (depth + 1) (nodes + 1) values
  | .string text =>
      if depth > 16 ∨ nodes + 1 > 4096 then (false, nodes + 1)
      else (!text.toList.contains '\x00', nodes + 1)
  | _ => if depth > 16 ∨ nodes + 1 > 4096 then (false, nodes + 1) else (true, nodes + 1)

def visitFields (depth nodes : Nat) : List (String × Json Number) → Walk
  | [] => (true, nodes)
  | (key, child) :: rest =>
      if keyAllowed key then
        match visit depth nodes child with
        | (true, nodes) => visitFields depth nodes rest
        | (false, nodes) => (false, nodes)
      else (false, nodes)

def visitItems (depth nodes : Nat) : List (Json Number) → Walk
  | [] => (true, nodes)
  | child :: rest =>
      match visit depth nodes child with
      | (true, nodes) => visitItems depth nodes rest
      | (false, nodes) => (false, nodes)

end

/-- The JSON library's writer. -/
structure Serializer (Number : Type) where
  toVec : JsonMap Number → Option (List UInt8)

/-- The empty object is written as two braces. -/
structure Serializer.Lawful (S : Serializer Number) : Prop where
  empty : S.toVec [] = some [0x7b, 0x7d]

/-- `presentation::valid`. -/
def presentationValid (S : Serializer Number) (value : JsonMap Number) (limit : Nat) : Bool :=
  (visitFields 1 0 value).1 && (S.toVec value).any (fun bytes => decide (bytes.length ≤ limit))

end

inductive State where
  | frozen
  | active
  | deprecated
  | archived
deriving DecidableEq, Repr

variable (D : Definitions) (Timepoint Number : Type)

structure Entry where
  version : Version D
  state : State

structure BlueprintOrigin where
  blueprint : String
  version : String
  digest : Digest
deriving DecidableEq

structure StoredVersion where
  version : Version D
  state : State

structure ResourceSnapshot where
  presentation : JsonMap Number
  origin : Option BlueprintOrigin
  tenant : D.TenantId
  key : Id
  kind : Kind
  changedAt : Option Timepoint
  versions : List (StoredVersion D)

/-- The in-memory aggregate. -/
structure Resource where
  presentation : JsonMap Number
  origin : Option BlueprintOrigin
  tenant : D.TenantId
  key : Id
  kind : Kind
  versions : OrdMap Id (Entry D)
  changedAt : Option Timepoint

structure References where
  tenant : D.TenantId
  resource : Id
  version : Id
  complete : Bool
  count : UInt64

variable {D Timepoint Number} [LinearOrder Timepoint]

namespace Resource

/-- What a mutating call returns and leaves behind. -/
abbrev Called (D : Definitions) (Timepoint Number α : Type) :=
  Except Error α × Resource D Timepoint Number

def new (tenant : D.TenantId) (key : Id) (kind : Kind) : Resource D Timepoint Number :=
  { presentation := [], origin := none, tenant, key, kind, versions := .empty, changedAt := none }

def setPresentation (S : Serializer Number) (r : Resource D Timepoint Number)
    (value : JsonMap Number) : Called D Timepoint Number Unit :=
  if !presentationValid S value 65536 then (.error .invalidInput, r)
  else (.ok (), { r with presentation := value })

def originTexts (o : BlueprintOrigin) : Bool :=
  !(o.blueprint.isEmpty || decide (o.blueprint.utf8ByteSize > 128) || o.version.isEmpty ||
    decide (o.version.utf8ByteSize > 128))

def setOrigin (r : Resource D Timepoint Number) (o : BlueprintOrigin) :
    Called D Timepoint Number Unit :=
  if r.origin.isSome || !r.versions.entries.isEmpty || !originTexts o then (.error .invalidInput, r)
  else (.ok (), { r with origin := some o })

def snapshot (r : Resource D Timepoint Number) : ResourceSnapshot D Timepoint Number where
  presentation := r.presentation
  origin := r.origin
  tenant := r.tenant
  key := r.key
  kind := r.kind
  changedAt := r.changedAt
  versions := r.versions.values.map (fun e => ⟨e.version, e.state⟩)

def restoreVersion (tenant : D.TenantId) (key : Id) (kind : Kind) (versions : OrdMap Id (Entry D))
    (item : StoredVersion D) : Except Error (OrdMap Id (Entry D)) :=
  let v := item.version
  if v.tenant ≠ tenant then .error .tenantMismatch
  else if v.resource ≠ key ∨ versions.contains v.label = true then .error .identityConflict
  else if v.kind ≠ kind then .error .kindMismatch
  else .ok (versions.insert v.label ⟨v, item.state⟩)

def originRestorable (versions : OrdMap Id (Entry D)) (o : BlueprintOrigin) : Bool :=
  originTexts o && (versions.entries.isEmpty ||
    versions.values.any (fun e => e.version.digest = o.digest))

def restore (S : Serializer Number) (s : ResourceSnapshot D Timepoint Number) :
    Except Error (Resource D Timepoint Number) := do
  if s.versions.isEmpty != s.changedAt.isNone ||
      decide ((s.versions.filter (fun v => v.state = .active)).length > 1) then .error .invalidInput
  else
    let versions ← s.versions.foldlM (restoreVersion s.tenant s.key s.kind) .empty
    let resource : Resource D Timepoint Number :=
      { (Resource.new s.tenant s.key s.kind) with versions }
    if s.origin.any (fun o => !originRestorable versions o) then .error .invalidInput
    else
      let (presented, resource) := setPresentation S { resource with origin := s.origin } s.presentation
      presented
      .ok { resource with changedAt := s.changedAt }

def time (r : Resource D Timepoint Number) (now : Timepoint) : Except Error Unit :=
  if r.changedAt.any (fun old => now < old) then .error .staleTime else .ok ()

def insert (r : Resource D Timepoint Number) (version : Version D) (now : Timepoint) :
    Called D Timepoint Number Bool :=
  match r.time now with
  | .error e => (.error e, r)
  | .ok () =>
      if version.tenant ≠ r.tenant then (.error .tenantMismatch, r)
      else if version.resource ≠ r.key then (.error .identityConflict, r)
      else if version.kind ≠ r.kind then (.error .kindMismatch, r)
      else match r.versions.get? version.label with
      | some old => if old.version = version then (.ok false, r) else (.error .identityConflict, r)
      | none => (.ok true, { r with
          versions := r.versions.insert version.label ⟨version, .frozen⟩
          changedAt := some now })

def version (r : Resource D Timepoint Number) (label : Id) : Except Error (Version D) :=
  match r.versions.get? label with
  | some e => .ok e.version
  | none => .error .missingVersion

def state (r : Resource D Timepoint Number) (label : Id) : Except Error State :=
  match r.versions.get? label with
  | some e => .ok e.state
  | none => .error .missingVersion

/-- The state of an entry while `label` is activated. -/
def activated (label key : Id) (e : Entry D) : Entry D :=
  if key = label then { e with state := .active }
  else if e.state = .active then { e with state := .deprecated }
  else e

def activate (r : Resource D Timepoint Number) (label : Id) (now : Timepoint) :
    Called D Timepoint Number Unit :=
  match r.time now with
  | .error e => (.error e, r)
  | .ok () =>
      match r.state label with
      | .error e => (.error e, r)
      | .ok .archived => (.error .invalidTransition, r)
      | .ok _ => (.ok (), { r with
          versions := r.versions.mapValues (activated label)
          changedAt := some now })

def setState (r : Resource D Timepoint Number) (label : Id) (state : State) (now : Timepoint) :
    Called D Timepoint Number Unit :=
  if r.versions.contains label then (.ok (), { r with
    versions := r.versions.modify label (fun e => { e with state })
    changedAt := some now })
  else (.error .missingVersion, r)

def deprecateVersion (r : Resource D Timepoint Number) (label : Id) (now : Timepoint) :
    Called D Timepoint Number Unit :=
  match r.time now with
  | .error e => (.error e, r)
  | .ok () =>
      match r.state label with
      | .error e => (.error e, r)
      | .ok .active => r.setState label .deprecated now
      | .ok .deprecated => r.setState label .deprecated now
      | .ok _ => (.error .invalidTransition, r)

def archive (r : Resource D Timepoint Number) (label : Id) (refs : References D) (now : Timepoint) :
    Called D Timepoint Number Unit :=
  match r.time now with
  | .error e => (.error e, r)
  | .ok () =>
      match r.state label with
      | .error e => (.error e, r)
      | .ok _ =>
          if refs.tenant ≠ r.tenant then (.error .tenantMismatch, r)
          else if refs.resource ≠ r.key ∨ refs.version ≠ label then (.error .identityConflict, r)
          else if !refs.complete then (.error .incompleteReferences, r)
          else if refs.count ≠ 0 then (.error .referenced, r)
          else r.setState label .archived now

end Resource

end RssMdm.Resource
