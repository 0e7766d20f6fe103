/- module: Authorization/Evaluate
   source: crates/authorization-service/src/evaluate.rs, crates/authorization-service/src/baseline.rs
   digest: What a proof may do: the subjects it matches, and the five places that decide on its grants. -/

import Mathlib.Data.Finset.Insert
import RssMdm.Authorization.Model
import RssMdm.Lib.Forest

set_option autoImplicit false

namespace RssMdm.Authorization

open Lib
open Lib.Text (Uuid)

structure Observation where
  snapshotId : Uuid
  observedAt : Int
  expiresAt : Int
  sourceRevision : Option String
deriving DecidableEq

structure EffectiveGrant where
  ruleId : Uuid
  ruleRevision : Nat
  subject : Subject
  grant : Grant
  observation : Option Observation
deriving DecidableEq

/-- The rules, groups and keys of a tenant, observed together. -/
structure Snapshot where
  rules : List (Revision Rule)
  groups : List (Revision UserGroup)
  keys : List KeyRecord
  installation : Option InstallationTenants

/-- The parent link of the first node of that name. -/
def DepartmentSnapshot.parent (snapshot : DepartmentSnapshot) (value : String) : Option String :=
  (snapshot.nodes.find? (fun node => node.id = value)).bind (·.parentId)

/-- The loop of one membership; none when it has not ended within the given rounds. -/
def DepartmentSnapshot.walk (snapshot : DepartmentSnapshot) (id : String) (matching : DepartmentMatch) :
    Nat → Option String → Option Bool
  | 0, _ => none
  | _ + 1, none => some false
  | n + 1, some value =>
      if value = id then some true
      else if matching = .exact then some false
      else snapshot.walk id matching n (snapshot.parent value)

/-- Rounds that every walk ends within. -/
def DepartmentSnapshot.rounds (snapshot : DepartmentSnapshot) : Nat := snapshot.nodes.length + 2

def departmentMatches (snapshot : DepartmentSnapshot) (id : String) (matching : DepartmentMatch) : Bool :=
  snapshot.memberships.any fun member =>
    snapshot.walk id matching snapshot.rounds (some member) = some true

/-- A group answers for its members while it is enabled. -/
def Snapshot.inGroup (s : Snapshot) (id : Uuid) (user : User) : Bool :=
  s.groups.any fun g => g.id = id && g.value.any fun group => group.enabled && group.members.contains user

def idpGroupFacts (source : Source) (id : String) (groups : AvailableGroups) :
    Except AuthorizationError (Option (Option Observation)) :=
  if !source.matches groups.providerId groups.issuer groups.providerConfigVersion then .ok none
  else match groups.values with
    | .error .snapshotExpired => .ok none
    | .error .proofExpired => .error .unauthorized
    | .ok values =>
        .ok (if values.contains id then
            some (some ⟨groups.snapshotId, groups.observedAt, groups.expiresAt, none⟩)
          else none)

def departmentFacts (source : Source) (id : String) (matching : DepartmentMatch)
    (department : AvailableDepartments) : Except AuthorizationError (Option (Option Observation)) :=
  if !source.matches department.providerId department.issuer department.providerConfigVersion then .ok none
  else match department.snapshot with
    | .error .snapshotExpired => .ok none
    | .error .proofExpired => .error .unauthorized
    | .ok snapshot =>
        .ok (if departmentMatches snapshot id matching then
            some (some ⟨department.snapshotId, department.observedAt, department.expiresAt,
              some snapshot.sourceRevision⟩)
          else none)

def Snapshot.matchesFacts (s : Snapshot) (proof : SubjectFacts) :
    Subject → Except AuthorizationError (Option (Option Observation))
  | .user user => .ok (if user = proof.user then some none else none)
  | .userGroup id => .ok (if s.inGroup id proof.user then some none else none)
  | .idpGroup source id =>
      match proof.groups with
      | .error _ => .error .unauthorized
      | .ok .unavailable => .ok none
      | .ok (.available groups) => idpGroupFacts source id groups
  | .department source id matching =>
      match proof.departmentSnapshot with
      | .error _ => .error .unauthorized
      | .ok .unavailable => .ok none
      | .ok (.available department) => departmentFacts source id matching department

def Snapshot.matches (s : Snapshot) (proof : AuthorizedPrincipal) (subject : Subject) :
    Except AuthorizationError (Option (Option Observation)) := do
  s.matchesFacts (← proof.session) subject

def KeyRecord.check (env : Environment) (tenant instanceId : String) (key : KeyRecord) :
    Except AuthorizationError Unit := do
  if key.id = 0 || key.revision = 0 || key.authorityRevision = 0 || key.credentialRevision = 0 then
    .error .corrupt
  else do
    (key.metadata.validate env).mapError fun _ => .corrupt
    (key.createdBy.validate env tenant instanceId).mapError fun _ => .corrupt

def Revision.check {α : Type} (validate : α → Except AuthorizationError Unit) (r : Revision α) :
    Except AuthorizationError Unit :=
  if r.id = 0 || r.revision = 0 then .error .corrupt
  else match r.value with
    | none => .ok ()
    | some value => (validate value).mapError fun _ => .corrupt

def Snapshot.validate (env : Environment) (tenant instanceId : String) (s : Snapshot) :
    Except AuthorizationError Unit := do
  if s.rules.length > 10000 || s.groups.length > 10000 || s.keys.length > 1000 then .error .corrupt
  else do
    Fallible.each (KeyRecord.check env tenant instanceId) s.keys
    Fallible.each (Revision.check (Rule.validate env tenant instanceId)) s.rules
    Fallible.each (Revision.check (UserGroup.validate env tenant instanceId)) s.groups

def baselinePermissions : List Permission :=
  [.groupRead, .groupWrite, .groupRecompute, .scopeRead, .scopeWrite, .policyRead, .policyWrite,
    .resourceRead, .resourceWrite, .inventoryRead, .inventorySensitiveRead, .inventoryCollect,
    .inventoryFieldsWrite]

def Authority.grants (a : Authority) (snapshot : Snapshot) : Except AuthorizationError (List Grant) :=
  match snapshot.rules.find? (fun r => r.id = a.rule.id && r.revision = a.rule.revision) with
  | none => .error .forbidden
  | some record =>
      match record.value with
      | none => .error .forbidden
      | some rule =>
          if rule.subject ≠ .user a.user then .error .forbidden
          else
            let grants := rule.grants.filter (fun g => baselinePermissions.contains g.operation)
            if baselinePermissions.all (fun p =>
                grants.contains ⟨p, if p.device then .allDevices else .tenant⟩) then
              .ok grants
            else .error .forbidden

def Authority.effective (a : Authority) (snapshot : Snapshot) :
    Except AuthorizationError (List EffectiveGrant) := do
  let grants ← a.grants snapshot
  .ok (grants.map fun grant => ⟨a.rule.id, a.rule.revision, .user a.user, grant, none⟩)

variable (s : Snapshot) (proof : AuthorizedPrincipal)

def Snapshot.key : Except AuthorizationError (Option KeyRecord) := do
  proof.checkLive.mapError fun _ => .unauthorized
  match proof.keyProof with
  | none => .ok none
  | some credential =>
      match s.keys.find? (fun key => key.id = credential.id) with
      | none => .error .unauthorized
      | some key =>
          if key.credentialRevision ≠ credential.credentialRevision ||
              key.authorityRevision ≠ credential.authorityRevision || key.revoked ||
              !key.metadata.enabled then
            .error .unauthorized
          else .ok (some key)

def Snapshot.collect (facts : SubjectFacts) :
    List (Revision Rule) → List EffectiveGrant → Except AuthorizationError (List EffectiveGrant)
  | [], grants => .ok grants
  | record :: rest, grants =>
      match record.value with
      | none => collect facts rest grants
      | some rule =>
          match s.matchesFacts facts rule.subject with
          | .error e => .error e
          | .ok none => collect facts rest grants
          | .ok (some observation) =>
              collect facts rest (grants ++ rule.grants.map fun grant =>
                ⟨record.id, record.revision, rule.subject, grant, observation⟩)

def Snapshot.effectiveFacts (facts : SubjectFacts) : Except AuthorizationError (List EffectiveGrant) := do
  facts.checkLive.mapError fun _ => .unauthorized
  let grants ← s.collect facts s.rules []
  facts.checkLive.mapError fun _ => .unauthorized
  .ok grants

def Snapshot.effective : Except AuthorizationError (List EffectiveGrant) := do
  proof.checkLive.mapError fun _ => .unauthorized
  match proof.initializationAuthority with
  | some authority => (authority.effective s).mapError fun _ => .forbidden
  | none => do
      let session ← proof.session.mapError fun _ => .forbidden
      s.effectiveFacts session

/-- The first rule that covers the operation and matches decides. -/
def Snapshot.requireRules (operation : Permission) (device : Option String) :
    List (Revision Rule) → Except AuthorizationError Unit
  | [] => .error .forbidden
  | record :: rest =>
      match record.value with
      | none => requireRules operation device rest
      | some rule =>
          if rule.grants.any (·.covers operation device) then
            match s.matches proof rule.subject with
            | .error e => .error e
            | .ok none => requireRules operation device rest
            | .ok (some _) => proof.checkLive.mapError fun _ => .unauthorized
          else requireRules operation device rest

def checkDevice (env : Environment) : Option String → Except AuthorizationError Unit
  | none => .ok ()
  | some device => if env.observationId device then .ok () else .error .malformed

def decideOn (covered : Bool) : Except AuthorizationError Unit :=
  if covered then .ok () else .error .forbidden

def Snapshot.requireTenant (operation : Permission) : Except AuthorizationError Unit :=
  match s.installation with
  | none => .error .corrupt
  | some tenants => (tenants.require proof operation).mapError fun _ => .forbidden

def Snapshot.require (env : Environment) (operation : Permission) (device : Option String) :
    Except AuthorizationError Unit := do
  s.requireTenant proof operation
  proof.checkLive.mapError fun _ => .unauthorized
  checkDevice env device
  match ← s.key proof with
  | some key => decideOn (key.metadata.grants.any (·.covers operation device))
  | none =>
      if proof.initializationAuthority.isSome then do
        let grants ← s.effective proof
        decideOn (grants.any (·.grant.covers operation device))
      else s.requireRules proof operation device s.rules

/-- The devices of the grants met so far, and whether one of them was for all. -/
structure Gathered where
  devices : Finset String
  all : Bool

def Gathered.extend (permission : Permission) : Gathered → List Grant → Except AuthorizationError Gathered
  | found, [] => .ok found
  | found, grant :: rest =>
      if grant.operation ≠ permission then found.extend permission rest
      else match grant.scope with
        | .allDevices => Gathered.extend permission { found with all := true } rest
        | .device id => Gathered.extend permission { found with devices := insert id found.devices } rest
        | .tenant => .error .forbidden

def Snapshot.gather (permission : Permission) :
    List (Revision Rule) → Gathered → Except AuthorizationError Gathered
  | [], found => .ok found
  | record :: rest, found =>
      match record.value with
      | none => gather permission rest found
      | some rule =>
          match s.matches proof rule.subject with
          | .error e => .error e
          | .ok none => gather permission rest found
          | .ok (some _) =>
              match found.extend permission rule.grants with
              | .error e => .error e
              | .ok found => gather permission rest found

def namedDevices (grants : List Grant) (permission : Permission) : Finset String :=
  ((grants.filter (fun g => g.operation = permission)).filterMap fun g =>
    match g.scope with
    | .device id => some id
    | _ => none).toFinset

def offer (all : Bool) (devices : Finset String) : Except AuthorizationError (Option (Finset String)) :=
  if all then .ok none else if devices = ∅ then .error .forbidden else .ok (some devices)

/-- The devices of an operation: none for all of them, and a denial where no grant is. -/
def Snapshot.devicesFor (permission : Permission) : Except AuthorizationError (Option (Finset String)) := do
  proof.checkLive.mapError fun _ => .unauthorized
  match ← s.key proof with
  | some key =>
      offer (key.metadata.grants.any fun g => g.operation = permission && g.scope = .allDevices)
        (namedDevices key.metadata.grants permission)
  | none =>
      if proof.initializationAuthority.isSome then do
        let grants ← s.effective proof
        if grants.any (fun g => g.grant.operation = permission && g.grant.scope = .allDevices) then .ok none
        else .error .forbidden
      else do
        let found ← s.gather proof permission s.rules ⟨∅, false⟩
        proof.checkLive.mapError fun _ => .unauthorized
        offer found.all found.devices

def Snapshot.requireAllDevices (permission : Permission) : Except AuthorizationError Unit := do
  match ← s.key proof with
  | some key =>
      decideOn (key.metadata.grants.any fun g => g.operation = permission && g.scope = .allDevices)
  | none => do
      let grants ← s.effective proof
      if grants.any (fun g => g.grant.operation = permission && g.grant.scope = .allDevices) then
        proof.checkLive
      else .error .forbidden

end RssMdm.Authorization
