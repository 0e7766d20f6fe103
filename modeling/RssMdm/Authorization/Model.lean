/- module: Authorization/Model
   source: crates/authorization-service/src/model.rs, crates/authorization-service/src/api_key.rs,
     crates/authorization-service/src/actor.rs, crates/authorization-service/src/context.rs,
     crates/authorization-service/src/tenancy.rs
   digest: Permissions, grants, subjects and the rules, groups and keys that hold them; the proofs of a request. -/

import RssMdm.Lib.Fallible
import RssMdm.Lib.Graph
import RssMdm.Lib.Text

set_option autoImplicit false

namespace RssMdm.Authorization

open Lib
open Lib.Text (Uuid)

inductive AuthorizationError where
  | malformed | unauthorized | forbidden | corrupt
deriving DecidableEq

/-- A parsed address: what the check of an issuer reads of it. -/
structure Url where
  scheme : String
  host : Option String
  username : String
  password : Option String
  query : Option String
  fragment : Option String

/-- The parsers of identifiers and addresses. -/
structure Environment where
  observationId : String → Bool
  parseUuid : String → Option Uuid
  parseUrl : String → Option Url

inductive Permission where
  | userAttributeDefinitionsRead | userAttributeDefinitionsWrite | userProfilesRead
  | webhookRead | webhookWrite | webhookReplay
  | tenantCreate | tenantRead | tenantUpdate | tenantDelete | tenantAdministratorCreate
  | identityAccountsManage | identityProvidersManage
  | enterpriseApplicationsRead | enterpriseApplicationsWrite
  | certificateArchiveRead | certificateArchiveWrite | certificateArchiveUnlock | certificateArchiveExport
  | runtimeDiagnosticsRead | storageConfigurationRead | storageConfigurationWrite
  | registrationConfigurationRead | registrationConfigurationWrite
  | auditRead | inventoryRead | inventorySensitiveRead | inventoryFieldsWrite
  | complianceRead | complianceRuleRead | complianceWrite | complianceRecompute
  | inventoryCollect | inventoryAssign | telemetryDelete | telemetryMaintain
  | enrollment | agentEnrollmentRead | agentEnrollmentWrite | credentials
  | deviceUnmanage | deviceWipe | configurationWrite | windowsMiExecute | deviceControl | deviceUpdate
  | deviceAssociationWrite | accountWrite | securityOperate | deviceDiagnostics | scriptExecute
  | softwareDeploy | operationRead | operationCancel
  | authorizationRead | authorizationWrite | userGroupRead | userGroupWrite | departmentRead
  | groupRead | groupWrite | groupRecompute | scopeRead | scopeWrite | policyRead | policyWrite
  | resourceRead | resourceWrite | softwareRead | softwareWrite | softwareWithdraw
  | releaseRead | releasePublish | releaseWithdraw | releaseRecover
deriving DecidableEq

def Permission.tenantManagement : Permission → Bool
  | .tenantCreate | .tenantRead | .tenantUpdate | .tenantDelete | .tenantAdministratorCreate => true
  | _ => false

def Permission.managementAllowed (p : Permission) : Bool :=
  p.tenantManagement || match p with
    | .authorizationRead | .authorizationWrite | .identityAccountsManage => true
    | _ => false

def Permission.device : Permission → Bool
  | .inventoryRead | .complianceRead | .inventoryCollect | .inventoryAssign | .telemetryDelete
  | .telemetryMaintain | .enrollment | .credentials | .deviceUnmanage | .deviceWipe | .deviceControl
  | .deviceAssociationWrite | .deviceUpdate | .accountWrite | .securityOperate | .deviceDiagnostics
  | .windowsMiExecute | .configurationWrite | .scriptExecute | .softwareDeploy | .operationRead
  | .operationCancel => true
  | _ => false

def Permission.apiKeyAllowed (p : Permission) : Bool :=
  !p.tenantManagement && !(match p with
    | .identityAccountsManage | .identityProvidersManage | .enterpriseApplicationsWrite
    | .authorizationRead | .authorizationWrite | .userGroupRead | .userGroupWrite
    | .departmentRead => true
    | _ => false)

theorem Permission.not_tenantManagement {p : Permission} (device : p.device = true) :
    p.tenantManagement = false := by
  cases p <;> first | rfl | cases device

inductive Scope where
  | tenant | allDevices | device (id : String)
deriving DecidableEq

structure Grant where
  operation : Permission
  scope : Scope
deriving DecidableEq

def Grant.validate (env : Environment) (g : Grant) : Except AuthorizationError Unit :=
  if g.operation.device = decide (g.scope = .tenant) then .error .malformed
  else match g.scope with
    | .device id => if env.observationId id then .ok () else .error .malformed
    | _ => .ok ()

def Grant.covers (g : Grant) (operation : Permission) (device : Option String) : Bool :=
  g.operation = operation && match g.scope, device with
    | .tenant, none => true
    | .allDevices, some _ => true
    | .device id, some target => id = target
    | _, _ => false

theorem Grant.covers_some {g : Grant} {p : Permission} {d : String} :
    g.covers p (some d) = true ↔ g = ⟨p, .allDevices⟩ ∨ g = ⟨p, .device d⟩ := by
  obtain ⟨operation, scope⟩ := g
  cases scope <;> simp [Grant.covers]

theorem Grant.scope_of_validate {env : Environment} {g : Grant} (valid : g.validate env = .ok ())
    (device : g.operation.device = true) :
    g.scope = .allDevices ∨ ∃ d, g.scope = .device d ∧ env.observationId d = true := by
  rw [Grant.validate, device] at valid
  cases named : g.scope with
  | tenant => simp [named] at valid
  | allDevices => exact .inl rfl
  | device id =>
    refine .inr ⟨id, rfl, ?_⟩
    by_contra bad
    simp [named, bad] at valid

structure User where
  instanceId : String
  tenantId : String
  principalId : String
deriving DecidableEq

def canonicalUuid (env : Environment) (value : String) : Except AuthorizationError Unit :=
  match env.parseUuid value with
  | none => .error .malformed
  | some id => if id = 0 || id.text ≠ value then .error .malformed else .ok ()

def exactId (value : String) : Except AuthorizationError Unit :=
  if value.isEmpty || value.utf8ByteSize > 256 || !Text.trimmed value ||
      value.toList.any Text.isControl then
    .error .malformed
  else .ok ()

def User.validate (env : Environment) (tenant instanceId : String) (u : User) :
    Except AuthorizationError Unit :=
  if u.tenantId ≠ tenant || u.instanceId ≠ instanceId then .error .malformed
  else canonicalUuid env u.principalId

structure Source where
  providerId : Uuid
  issuer : String
  configurationVersion : Int
deriving DecidableEq

def Source.validate (env : Environment) (s : Source) : Except AuthorizationError Unit :=
  if s.providerId = 0 || s.configurationVersion < 1 then .error .malformed
  else match env.parseUrl s.issuer with
    | none => .error .malformed
    | some url =>
        if url.scheme ≠ "https" || url.host.isNone || !url.username.isEmpty || url.password.isSome ||
            url.query.isSome || url.fragment.isSome then
          .error .malformed
        else if s.issuer.utf8ByteSize > 2048 then .error .malformed
        else .ok ()

def Source.matches (s : Source) (provider : Uuid) (issuer : String) (version : Int) : Bool :=
  s.providerId = provider && s.issuer = issuer && s.configurationVersion = version

inductive DepartmentMatch where
  | exact | subtree
deriving DecidableEq

inductive Subject where
  | user (user : User)
  | idpGroup (source : Source) (id : String)
  | department (source : Source) (id : String) (matching : DepartmentMatch)
  | userGroup (id : Uuid)
deriving DecidableEq

def Subject.validate (env : Environment) (tenant instanceId : String) :
    Subject → Except AuthorizationError Unit
  | .user named => named.validate env tenant instanceId
  | .idpGroup source id => do
      source.validate env
      exactId id
  | .department source id _ => do
      source.validate env
      exactId id
  | .userGroup id => if id = 0 then .error .malformed else .ok ()

structure Rule where
  subject : Subject
  grants : List Grant
deriving DecidableEq

def Rule.validate (env : Environment) (tenant instanceId : String) (r : Rule) :
    Except AuthorizationError Unit := do
  r.subject.validate env tenant instanceId
  if r.grants.isEmpty || r.grants.length > 256 then .error .malformed
  else Fallible.eachFresh (fun g => (g.validate env).map fun _ => g) .malformed (fun _ => .ok ()) [] r.grants

structure UserGroup where
  name : String
  enabled : Bool
  members : List User
deriving DecidableEq

def UserGroup.validate (env : Environment) (tenant instanceId : String) (g : UserGroup) :
    Except AuthorizationError Unit := do
  exactId g.name
  if g.members.length > 10000 then .error .malformed
  else
    Fallible.eachFresh (fun u => (u.validate env tenant instanceId).map fun _ => u) .malformed
      (fun _ => .ok ()) [] g.members

structure Revision (α : Type) where
  id : Uuid
  revision : Nat
  value : Option α
deriving DecidableEq

structure KeyMetadata where
  name : String
  enabled : Bool
  expiresAt : Option Int
  grants : List Grant
deriving DecidableEq

def keyGrant (env : Environment) (g : Grant) : Except AuthorizationError Grant := do
  g.validate env
  if g.operation.apiKeyAllowed then .ok g else .error .malformed

def KeyMetadata.validate (env : Environment) (m : KeyMetadata) : Except AuthorizationError Unit := do
  exactId m.name
  if m.expiresAt.any (· ≤ 0) || m.grants.isEmpty || m.grants.length > 256 then .error .malformed
  else Fallible.eachFresh (keyGrant env) .malformed (fun _ => .ok ()) [] m.grants

structure KeyRecord where
  id : Uuid
  revision : Nat
  authorityRevision : Nat
  credentialRevision : Nat
  metadata : KeyMetadata
  createdBy : User
  revoked : Bool
deriving DecidableEq

theorem Rule.grants_valid {env : Environment} {tenant instanceId : String} {r : Rule}
    (valid : r.validate env tenant instanceId = .ok ()) : ∀ g ∈ r.grants, g.validate env = .ok () := by
  obtain ⟨-, valid⟩ := Fallible.of_check valid
  obtain ⟨-, valid⟩ := Fallible.guard_eq_ok.mp valid
  obtain ⟨keys, each, -⟩ := Fallible.eachFresh_eq_ok.mp valid
  intro g mem
  obtain ⟨key, -, made, -⟩ := Fallible.exists_right_of_mem each mem
  obtain ⟨⟨⟩, checked, -⟩ := Fallible.map_eq_ok.mp made
  exact checked

theorem KeyMetadata.grants_valid {env : Environment} {m : KeyMetadata} (valid : m.validate env = .ok ()) :
    ∀ g ∈ m.grants, g.validate env = .ok () := by
  obtain ⟨-, valid⟩ := Fallible.of_check valid
  obtain ⟨-, valid⟩ := Fallible.guard_eq_ok.mp valid
  obtain ⟨keys, each, -⟩ := Fallible.eachFresh_eq_ok.mp valid
  intro g mem
  obtain ⟨key, -, made, -⟩ := Fallible.exists_right_of_mem each mem
  exact (Fallible.of_check made).1

inductive AccessError where
  | snapshotExpired | proofExpired
deriving DecidableEq

structure AvailableGroups where
  providerId : Uuid
  issuer : String
  providerConfigVersion : Int
  values : Except AccessError (List String)
  snapshotId : Uuid
  observedAt : Int
  expiresAt : Int

inductive VerifiedGroups where
  | available (groups : AvailableGroups)
  | unavailable

structure DepartmentNode where
  id : String
  parentId : Option String
deriving DecidableEq

def ParentOf (nodes : List DepartmentNode) (id parent : String) : Prop :=
  ∃ node ∈ nodes, node.id = id ∧ node.parentId = some parent

/-- Departments whose parent links form a forest; a parent need not be listed. -/
structure DepartmentSnapshot where
  nodes : List DepartmentNode
  memberships : List String
  sourceRevision : String
  unique : (nodes.map (·.id)).Nodup
  acyclic : Graph.Acyclic (ParentOf nodes)

structure AvailableDepartments where
  providerId : Uuid
  issuer : String
  providerConfigVersion : Int
  snapshot : Except AccessError DepartmentSnapshot
  snapshotId : Uuid
  observedAt : Int
  expiresAt : Int

inductive VerifiedDepartmentSnapshot where
  | available (department : AvailableDepartments)
  | unavailable

/-- A session of the identity component: what it answers while the calls run. -/
structure SubjectFacts where
  user : User
  checkLive : Except AuthorizationError Unit
  groups : Except AccessError VerifiedGroups
  departmentSnapshot : Except AccessError VerifiedDepartmentSnapshot

structure Receipt where
  id : Uuid
  revision : Nat
deriving DecidableEq

/-- Initialization evidence: a user and the rule that it was given. -/
structure Authority where
  user : User
  rule : Receipt
deriving DecidableEq

structure KeyProof where
  instanceId : String
  tenant : String
  id : Uuid
  credentialRevision : Nat
  authorityRevision : Nat
  checkLive : Except AuthorizationError Unit

/-- How a request was authenticated. -/
inductive AuthorizedPrincipal where
  | account (session : SubjectFacts)
  | apiKey (proof : KeyProof)
  | initialization (authority : Authority) (checkLive : Except AuthorizationError Unit)

namespace AuthorizedPrincipal

def checkLive : AuthorizedPrincipal → Except AuthorizationError Unit
  | .account session => session.checkLive
  | .apiKey proof => proof.checkLive
  | .initialization _ live => live

def instanceId : AuthorizedPrincipal → String
  | .account session => session.user.instanceId
  | .apiKey proof => proof.instanceId
  | .initialization authority _ => authority.user.instanceId

def tenantId : AuthorizedPrincipal → String
  | .account session => session.user.tenantId
  | .apiKey proof => proof.tenant
  | .initialization authority _ => authority.user.tenantId

def keyProof : AuthorizedPrincipal → Option KeyProof
  | .apiKey proof => some proof
  | _ => none

def initializationAuthority : AuthorizedPrincipal → Option Authority
  | .initialization authority _ => some authority
  | _ => none

def session : AuthorizedPrincipal → Except AuthorizationError SubjectFacts
  | .account session => .ok session
  | _ => .error .forbidden

end AuthorizedPrincipal

structure InstallationTenants where
  instanceId : String
  management : String

namespace InstallationTenants

def isManagement (t : InstallationTenants) (tenant : String) : Bool := tenant = t.management

def requireIdentity (t : InstallationTenants) (instanceId tenant : String) (permission : Permission) :
    Except AuthorizationError Unit :=
  if instanceId ≠ t.instanceId || (t.isManagement tenant && !permission.managementAllowed) ||
      (!t.isManagement tenant && permission.tenantManagement) then
    .error .forbidden
  else .ok ()

def require (t : InstallationTenants) (proof : AuthorizedPrincipal) (permission : Permission) :
    Except AuthorizationError Unit := do
  proof.checkLive
  t.requireIdentity proof.instanceId proof.tenantId permission

end InstallationTenants

end RssMdm.Authorization
