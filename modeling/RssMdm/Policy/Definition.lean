/- module: Policy/Definition
   source: crates/policy/src/assignment.rs, crates/policy/src/self_service.rs,
     crates/policy/src/presentation.rs, crates/policy/src/behavior.rs
   digest: Authored policy definitions and their closed checks. -/

import RssMdm.Lib.Text
import RssMdm.Policy.Schedule

set_option autoImplicit false

namespace RssMdm.Policy

open Lib.Outcome Lib.Int64 Lib.Text

abbrev Uuid : Type := BitVec 128

def Uuid.isNil (u : Uuid) : Bool := u = 0

/-- A JSON value; a number keeps its integer when it has one. -/
inductive Value where
  | null
  | bool (b : Bool)
  | number (integer : Option Int)
  | string (text : String)
  | array (values : List Value)
  | object (fields : List (String × Value))

inductive Platform where
  | windows | macos
deriving DecidableEq

inductive Architecture where
  | x86_64 | aarch64
deriving DecidableEq

structure ExactResourceBinding where
  id : String
  version : String
  platform : Platform
  architecture : Architecture
  variant : String

inductive SoftwareTarget where
  | windowsX86_64 | windowsAarch64 | macosX86_64 | macosAarch64
deriving DecidableEq

/-- Exact variants of one immutable version; the map is listed in key order. -/
structure SoftwareResourceBinding where
  id : String
  version : String
  variants : List (SoftwareTarget × String)

inductive Frequency where
  | oncePerVersion | oncePerEntry | everyTrigger
deriving DecidableEq

inductive Exit where
  | retain | remove
deriving DecidableEq

inductive SoftwareDelivery where
  | direct
  | native (target : String)

inductive SoftwareChannel where
  | agent | mdm
deriving DecidableEq

inductive SoftwareIntent where
  | requiredInstall | availableInstall | explicitUninstall
deriving DecidableEq

structure SoftwareRolloutStage where
  scope : Uuid
  opensAt : I64
  minimumVerifiedPercent : Option UInt8

structure SoftwareRollout where
  stages : List SoftwareRolloutStage

inductive AccessRole where
  | standard | administrator
deriving DecidableEq

inductive CredentialOperation where
  | rotateRssLogin (binding : Uuid) (bindingGeneration : I64) (sid : String)
  | verifyRssLogin (binding : Uuid) (bindingGeneration : I64) (sid : String)
  | collectBitlocker
  | verifyBitlocker (volume : String) (protector : Uuid)
  | rotateBitlocker (volume : String) (protector : Uuid)
  | rotateLocalAdministrator (sid : String)
  | verifyLocalAdministrator (sid : String)

inductive ParameterSource where
  | fixed (value : Value)
  | input

abbrev ParameterSources : Type := List (String × ParameterSource)

/-- Each action owns its inputs. `Login` and `Windows` are the device-access settings of the Agent
wire, which no check of this crate reads. -/
inductive Action (Login Windows : Type) where
  | deviceAccess (mac : Option Login) (windows : Windows) (selfEnrollment : Bool)
      (role : Option AccessRole)
  | telemetryProfile (resource : ExactResourceBinding)
  | credential (operation : CredentialOperation) (architecture : Architecture)
      (schedule : Schedule) (frequency : Frequency) (runLifetimeSeconds : UInt32)
  | execution (resource : ExactResourceBinding) (parameters : ParameterSources)
      (schedule : Schedule) (frequency : Frequency) (runLifetimeSeconds : UInt32)
  | agentCollection (resource : ExactResourceBinding) (schedule : Schedule)
      (frequency : Frequency) (runLifetimeSeconds : UInt32)
  | nativeCollection (resource : ExactResourceBinding) (schedule : Schedule)
      (frequency : Frequency) (runLifetimeSeconds : UInt32)
  | configuration (resource : ExactResourceBinding) (exit : Exit)
  | software (channel : SoftwareChannel) (delivery : SoftwareDelivery)
      (resource : SoftwareResourceBinding) (intent : SoftwareIntent) (schedule : Schedule)
      (runLifetimeSeconds : UInt32) (rollout : SoftwareRollout)
  | unmanageDevice (schedule : Schedule) (runLifetimeSeconds : UInt32)
  | ensureAgentInstalled (packages : List (SoftwareTarget × Uuid)) (schedule : Schedule)
      (runLifetimeSeconds : UInt32)
  | requestMdmEnrollment (organization : Uuid) (schedule : Schedule) (runLifetimeSeconds : UInt32)

inductive ScriptRisk where
  | direct | confirm
deriving DecidableEq

structure SelfServiceSource where
  providerId : Uuid
  issuer : String
  configurationVersion : I64
deriving DecidableEq

inductive SelfServiceDepartmentMatch where
  | exact | subtree
deriving DecidableEq

inductive SelfServiceSelector where
  | user (instanceId tenantId principalId : Uuid)
  | idpGroup (source : SelfServiceSource) (id : String)
  | department (source : SelfServiceSource) (id : String) (matching : SelfServiceDepartmentMatch)
  | userGroup (id : Uuid)
deriving DecidableEq

inductive SelfServiceAccess where
  | device
  | authenticatedUser
  | users (selectors : List SelfServiceSelector)

structure SelfService where
  access : Option SelfServiceAccess
  published : Bool
  presentation : List (String × Value)
  allowAi : Option Bool
  riskLevel : Option ScriptRisk

structure Definition (Login Windows : Type) where
  customEvent : Option String
  policyAlias : Option String
  scope : Uuid
  action : Action Login Windows
  selfService : Option SelfService

variable {Login Windows : Type}

/-- The serializers derived for the authored types, as octets or a failure. -/
structure Serializers (Login Windows : Type) where
  definition : Definition Login Windows → Option (List UInt8)
  action : Action Login Windows → Option (List UInt8)
  software : SoftwareResourceBinding × SoftwareChannel × SoftwareDelivery × SoftwareIntent ×
    Schedule × UInt32 → Option (List UInt8)
  parameters : ParameterSources → Option (List UInt8)
  presentation : List (String × Value) → Option (List UInt8)

def reject (c : Bool) : Decision Unit := if c then .error (.error .malformed) else .ok ()

def forAll {α : Type} (check : α → Decision Unit) : List α → Decision Unit
  | [] => .ok ()
  | a :: as => do
    check a
    forAll check as

def asciiAlphanumeric (b : UInt8) : Bool :=
  (0x30 ≤ b.toNat && b.toNat ≤ 0x39) || (0x41 ≤ b.toNat && b.toNat ≤ 0x5a) ||
    (0x61 ≤ b.toNat && b.toNat ≤ 0x7a)

def bytesAll (p : UInt8 → Bool) (s : String) : Bool := s.toByteArray.data.toList.all p

def validateId (id : String) : Decision Unit :=
  reject (id.utf8ByteSize = 0 || id.utf8ByteSize > 128 ||
    !bytesAll (fun b => asciiAlphanumeric b || ("._-/".toByteArray.data.toList.contains b)) id ||
    (id.toList.splitOn '/').any fun part => part = [] || part = ['.'] || part = ['.', '.'])

def validateIds (ids : List String) : Decision Unit := forAll validateId ids

namespace ExactResourceBinding

def validate (r : ExactResourceBinding) : Decision Unit := validateIds [r.id, r.version, r.variant]

end ExactResourceBinding

namespace SoftwareResourceBinding

def validate (r : SoftwareResourceBinding) : Decision Unit := do
  reject (r.variants.isEmpty || r.variants.length > 4)
  validateIds ([r.id, r.version] ++ r.variants.map Prod.snd)

end SoftwareResourceBinding

namespace CredentialOperation

def bounded (s : String) : Bool :=
  !(s.utf8ByteSize = 0) && s.utf8ByteSize ≤ 256 && !s.toList.any isControl

def validRssLogin (binding : Uuid) (bindingGeneration : I64) (sid : String) : Bool :=
  !binding.isNil && bindingGeneration.val > 0 && bounded sid &&
    "S-1-5-21-".toList.isPrefixOf sid.toList

def validBitlocker (volume : String) (protector : Uuid) : Bool := bounded volume && !protector.isNil

def validLocalAdministrator (sid : String) : Bool :=
  bounded sid && "S-1-5-".toList.isPrefixOf sid.toList &&
    ((sid.toList.splitOn '-').drop 1).all fun part => part ≠ [] && part.all Char.isDigit

def validate (operation : CredentialOperation) : Decision Unit :=
  reject (!match operation with
    | rotateRssLogin binding generation sid => validRssLogin binding generation sid
    | verifyRssLogin binding generation sid => validRssLogin binding generation sid
    | collectBitlocker => true
    | verifyBitlocker volume protector => validBitlocker volume protector
    | rotateBitlocker volume protector => validBitlocker volume protector
    | rotateLocalAdministrator sid => validLocalAdministrator sid
    | verifyLocalAdministrator sid => validLocalAdministrator sid)

end CredentialOperation

namespace ParameterSources

def hasInput (p : ParameterSources) : Bool :=
  p.any fun entry => match entry.2 with
    | .input => true
    | .fixed _ => false

/-- A literal is a string without NUL, a boolean or a 64-bit integer. -/
def literal : Value → Bool
  | .string s => !s.toList.contains '\x00'
  | .bool _ => true
  | .number (some n) => -2 ^ 63 ≤ n && n < 2 ^ 63
  | _ => false

def validateEntry (entry : String × ParameterSource) : Decision Unit := do
  reject (entry.1.utf8ByteSize = 0 || entry.1.utf8ByteSize > 64 ||
    !bytesAll (fun b => asciiAlphanumeric b || b = 0x5f) entry.1)
  match entry.2 with
  | .fixed value => reject (!literal value)
  | .input => .ok ()

def validate (env : Serializers Login Windows) (p : ParameterSources) : Decision Unit := do
  reject (p.length > 32)
  let bytes ← orMalformed (env.parameters p)
  reject (bytes.length > 65536)
  forAll validateEntry p

end ParameterSources

namespace SoftwareRollout

/-- The loop over stages: openings increase and scopes are distinct. -/
def validateStages : Option I64 → List Uuid → List SoftwareRolloutStage → Decision Unit
  | _, _, [] => .ok ()
  | previous, scopes, stage :: stages => do
    reject (stage.scope.isNil || stage.opensAt.val < 0 ||
      previous.any (fun v => stage.opensAt.val ≤ v.val) ||
      stage.minimumVerifiedPercent.any (fun v => v.toNat > 100) || scopes.contains stage.scope)
    validateStages (some stage.opensAt) (stage.scope :: scopes) stages

def validate (r : SoftwareRollout) : Decision Unit := do
  reject (r.stages.isEmpty || r.stages.length > 32)
  reject (r.stages.head?.any fun stage => stage.minimumVerifiedPercent.isSome)
  validateStages none [] r.stages

end SoftwareRollout

namespace SelfService

/-- Fill absent fields from the previous configuration or the first-use defaults. -/
def normalize (c : SelfService) (old : Option SelfService) : SelfService :=
  { c with
    allowAi := some ((c.allowAi.or (old.bind SelfService.allowAi)).getD true)
    riskLevel := some ((c.riskLevel.or (old.bind SelfService.riskLevel)).getD .confirm) }

def validKey (key : String) : Bool :=
  !(key.utf8ByteSize = 0) && key.utf8ByteSize ≤ 256 && !key.toList.any isControl

mutual

/-- `visit`: none when a bound is broken, else the nodes counted so far. -/
def visit (depth nodes : Nat) : Value → Option Nat
  | .object fields =>
    if depth > 16 || nodes + 1 > 4096 then none else visitFields (depth + 1) (nodes + 1) fields
  | .array values =>
    if depth > 16 || nodes + 1 > 4096 then none else visitAll (depth + 1) (nodes + 1) values
  | .string text =>
    if depth > 16 || nodes + 1 > 4096 || text.toList.contains '\x00' then none else some (nodes + 1)
  | .null => if depth > 16 || nodes + 1 > 4096 then none else some (nodes + 1)
  | .bool _ => if depth > 16 || nodes + 1 > 4096 then none else some (nodes + 1)
  | .number _ => if depth > 16 || nodes + 1 > 4096 then none else some (nodes + 1)

def visitAll (depth nodes : Nat) : List Value → Option Nat
  | [] => some nodes
  | v :: vs => (visit depth nodes v).bind fun n => visitAll depth n vs

def visitFields (depth nodes : Nat) : List (String × Value) → Option Nat
  | [] => some nodes
  | (key, v) :: fields =>
    if validKey key then (visit depth nodes v).bind fun n => visitFields depth n fields else none

end

def presentationValid (env : Serializers Login Windows) (fields : List (String × Value))
    (limit : Nat) : Bool :=
  (visitFields 1 0 fields).isSome && (env.presentation fields).any fun bytes => bytes.length ≤ limit

def validateText (fields : List (String × Value)) (entry : String × Nat × Bool) : Decision Unit :=
  match fields.lookup entry.1 with
  | some (.string value) =>
    reject (value.utf8ByteSize > entry.2.1 || (entry.2.2 && blank value))
  | _ => .error (.error .malformed)

def texts : List (String × Nat × Bool) :=
  [("displayName", 256, true), ("description", 4096, false), ("prerequisites", 4096, false),
    ("sideEffects", 4096, false), ("category", 128, true)]

def validKeyword : Value → Bool
  | .string s => !blank s && s.utf8ByteSize ≤ 128 && !s.toList.any isControl
  | _ => false

def validateKeywords (fields : List (String × Value)) : Decision Unit :=
  match fields.lookup "keywords" with
  | some (.array keywords) => reject (keywords.length > 32 || !keywords.all validKeyword)
  | _ => .error (.error .malformed)

def validSource (source : SelfServiceSource) (id : String) : Bool :=
  !(id.utf8ByteSize = 0) && id.utf8ByteSize ≤ 256 && trimmed id && !id.toList.any isControl &&
    !source.providerId.isNil && source.configurationVersion.val ≥ 1 &&
    !(source.issuer.utf8ByteSize = 0) && source.issuer.utf8ByteSize ≤ 2048 &&
    !source.issuer.toList.any isControl

def validSelector : SelfServiceSelector → Bool
  | .user instanceId tenantId principalId =>
    !instanceId.isNil && !tenantId.isNil && !principalId.isNil
  | .userGroup id => !id.isNil
  | .idpGroup source id => validSource source id
  | .department source id _ => validSource source id

def validateSelectors : List SelfServiceSelector → List SelfServiceSelector → Decision Unit
  | _, [] => .ok ()
  | seen, selector :: selectors => do
    reject (seen.contains selector)
    reject (!validSelector selector)
    validateSelectors (seen ++ [selector]) selectors

def validateAccess : SelfServiceAccess → Decision Unit
  | .users selectors => do
    reject (selectors.isEmpty || selectors.length > 256)
    validateSelectors [] selectors
  | _ => .ok ()

def validateOptionalAccess : Option SelfServiceAccess → Decision Unit
  | some access => validateAccess access
  | none => .ok ()

def validate (env : Serializers Login Windows) (c : SelfService) : Decision Unit := do
  reject (c.published && c.access.isNone)
  validateOptionalAccess c.access
  reject (!presentationValid env c.presentation 65536)
  forAll (validateText c.presentation) texts
  validateKeywords c.presentation

end SelfService

variable {Zone : Type} (tz : TimeZones Zone) (env : Serializers Login Windows)

namespace Action

def runLifetime (seconds : UInt32) : Bool := 60 ≤ seconds.toNat && seconds.toNat ≤ 604800

def validateArchitecture : Action Login Windows → Decision Unit
  | .credential (.rotateRssLogin _ _ _) architecture _ _ _ => reject (architecture ≠ .x86_64)
  | .credential (.verifyRssLogin _ _ _) architecture _ _ _ => reject (architecture ≠ .x86_64)
  | _ => .ok ()

def collectionSchedule (schedule : Schedule) (frequency : Frequency) : Bool :=
  (match schedule.trigger with
    | .interval _ _ => true
    | _ => false) &&
    frequency = .everyTrigger && schedule.misfire = .coalesceOne && schedule.till.isNone &&
    schedule.window.isNone

def validateCollection : Action Login Windows → Decision Unit
  | .agentCollection _ schedule frequency _ => reject (!collectionSchedule schedule frequency)
  | .nativeCollection _ schedule frequency _ => reject (!collectionSchedule schedule frequency)
  | _ => .ok ()

def validateResource : Action Login Windows → Decision Unit
  | .telemetryProfile resource => resource.validate
  | .execution resource _ _ _ _ => resource.validate
  | .agentCollection resource _ _ _ => resource.validate
  | .nativeCollection resource _ _ _ => resource.validate
  | .configuration resource _ => resource.validate
  | .software _ _ resource _ _ _ _ => resource.validate
  | .ensureAgentInstalled packages _ _ =>
    reject (packages.isEmpty || packages.length > 4 || packages.any fun entry => entry.2.isNil)
  | .credential operation _ _ _ _ => operation.validate
  | _ => .ok ()

def validateParameters : Action Login Windows → Decision Unit
  | .execution _ parameters schedule _ _ => do
    ParameterSources.validate env parameters
    reject (ParameterSources.hasInput parameters && schedule.trigger ≠ .manual)
  | _ => .ok ()

def validateScheduled (schedule : Schedule) (runLifetimeSeconds : UInt32) : Decision Unit := do
  schedule.validate tz
  reject (!runLifetime runLifetimeSeconds)

def nativeTarget : SoftwareDelivery → Bool
  | .direct => true
  | .native target => !(target.utf8ByteSize = 0) && target.utf8ByteSize ≤ 128 &&
      bytesAll (fun b => asciiAlphanumeric b || ("._-".toByteArray.data.toList.contains b)) target

def isDirect : SoftwareDelivery → Bool
  | .direct => true
  | .native _ => false

def validateBehavior : Action Login Windows → Decision Unit
  | .credential _ _ schedule _ lifetime => validateScheduled tz schedule lifetime
  | .execution _ _ schedule _ lifetime => validateScheduled tz schedule lifetime
  | .agentCollection _ schedule _ lifetime => validateScheduled tz schedule lifetime
  | .nativeCollection _ schedule _ lifetime => validateScheduled tz schedule lifetime
  | .ensureAgentInstalled _ schedule lifetime => validateScheduled tz schedule lifetime
  | .software channel delivery _ intent schedule lifetime rollout => do
    schedule.validate tz
    reject (channel = .mdm && (!isDirect delivery || intent ≠ .requiredInstall))
    reject (!nativeTarget delivery)
    reject (!runLifetime lifetime)
    rollout.validate
  | .unmanageDevice schedule lifetime => do
    schedule.validate tz
    reject ((match schedule.trigger with
      | .registration => true
      | .checkIn _ => true
      | _ => false) || !runLifetime lifetime)
  | .requestMdmEnrollment organization schedule lifetime => do
    schedule.validate tz
    reject (organization.isNil || !runLifetime lifetime)
  | _ => .ok ()

def validate (a : Action Login Windows) : Decision Unit := do
  validateArchitecture a
  validateCollection a
  validateResource a
  validateParameters env a
  validateBehavior tz a

def takesInput : Action Login Windows → Bool
  | .execution _ parameters _ _ _ => ParameterSources.hasInput parameters
  | _ => false

def isMdmSoftware : Action Login Windows → Bool
  | .software .mdm _ _ _ _ _ _ => true
  | _ => false

def allowsSelfService : Action Login Windows → Bool
  | .execution _ _ _ _ _ => true
  | .requestMdmEnrollment _ _ _ => true
  | .software _ _ _ .availableInstall _ _ _ => true
  | _ => false

def isEnsureAgentInstalled : Action Login Windows → Bool
  | .ensureAgentInstalled _ _ _ => true
  | _ => false

end Action

namespace Definition

def validateSelfService (d : Definition Login Windows) : Decision Unit :=
  match d.selfService with
  | some config => do
    reject (!d.action.allowsSelfService)
    config.validate env
  | none => .ok ()

def validate (d : Definition Login Windows) : Decision Unit := do
  let bytes ← orMalformed (env.definition d)
  reject (bytes.length > 4194304)
  reject d.scope.isNil
  d.action.validate tz env
  reject (d.customEvent.isSome && d.action.takesInput)
  reject (d.action.isMdmSoftware && d.selfService.isSome)
  d.validateSelfService env

end Definition

end RssMdm.Policy
