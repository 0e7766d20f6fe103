/- module: Resource/Version
   source: crates/resource/src/lib.rs
   digest: Identities, artifacts, declarations and the construction of an immutable version. -/

import Mathlib.Data.Prod.Lex
import Mathlib.Data.String.Basic
import RssMdm.Lib.KeySort
import RssMdm.Lib.OrdMap
import RssMdm.Lib.SelfDelimiting
import RssMdm.Lib.Sha256
import RssMdm.Lib.Text

set_option autoImplicit false

namespace RssMdm.Resource

open Lib Lib.KeySort Lib.SelfDelimiting
open Lib.Text (asBytes asBytes_injective asBytes_length)

inductive SoftwareValidationKind where
  | source
  | identity
  | artifact
  | dependency
  | bundle
  | command
  | detection
  | target
  | budget
deriving DecidableEq, Repr

/-- Closed validation and lifecycle failures. -/
inductive Error where
  | invalidInput
  | softwareValidation (kind : SoftwareValidationKind)
  | invalidDigest
  | identityConflict
  | tenantMismatch
  | kindMismatch
  | duplicateVariant
  | missingVariant
  | missingVersion
  | invalidTransition
  | incompleteReferences
  | referenced
  | staleTime
deriving DecidableEq, Repr

def idByte (b : UInt8) : Bool :=
  let c := Char.ofNat b.toNat
  c.isAlphanum || "._-/".toList.contains c

def validId (s : String) : Bool :=
  !(s.isEmpty || decide (s.utf8ByteSize > 128) || !(asBytes s).all idByte ||
    (s.toList.splitOn '/').any (fun p => p.isEmpty || p == ['.'] || p == ['.', '.']))

/-- Opaque bounded identity of restricted ASCII. -/
structure Id where
  value : String
  valid : validId value = true

def Id.new (value : String) : Except Error Id :=
  if h : validId value = true then .ok ⟨value, h⟩ else .error .invalidInput

theorem Id.value_injective : Function.Injective Id.value := by
  rintro ⟨a, _⟩ ⟨b, _⟩ h
  cases h
  rfl

instance : LinearOrder Id := LinearOrder.lift' Id.value Id.value_injective

theorem Id.size_le (i : Id) : i.value.utf8ByteSize ≤ 128 := by
  have h := i.valid
  simp only [validId, Bool.not_eq_true', Bool.or_eq_false_iff, decide_eq_false_iff_not,
    Nat.not_lt] at h
  exact h.1.1.2

structure Digest where
  bytes : List UInt8
  length : bytes.length = 32
deriving DecidableEq

def Digest.of (bytes : List UInt8) : Digest := ⟨Sha256.digest bytes, Sha256.digest_length bytes⟩

def Digest.verify (d : Digest) (bytes : List UInt8) : Except Error Unit :=
  if d = Digest.of bytes then .ok () else .error .invalidDigest

inductive Kind where
  | software
  | script
  | configuration
  | nativeCollection
  | agentCollection
  | telemetryProfile
deriving DecidableEq, Repr

inductive Platform where
  | windows
  | macOS
deriving Repr

inductive Architecture where
  | x86_64
  | aarch64
deriving Repr

def Platform.rank : Platform → Nat
  | .windows => 0
  | .macOS => 1

def Architecture.rank : Architecture → Nat
  | .x86_64 => 0
  | .aarch64 => 1

instance : LinearOrder Platform :=
  LinearOrder.lift' Platform.rank (by rintro ⟨⟩ ⟨⟩ h <;> first | rfl | cases h)

instance : LinearOrder Architecture :=
  LinearOrder.lift' Architecture.rank (by rintro ⟨⟩ ⟨⟩ h <;> first | rfl | cases h)

/-- Immutable artifact coordinates; the length is positive and fits the signed storage range. -/
structure Artifact where
  reference : Id
  length : UInt64
  digest : Digest
  range : 0 < length.toNat ∧ length.toNat < 2 ^ 63
deriving DecidableEq

def Artifact.new (reference : Id) (length : UInt64) (digest : Digest) : Except Error Artifact :=
  if h : 0 < length.toNat ∧ length.toNat < 2 ^ 63 then .ok ⟨reference, length, digest, h⟩
  else .error .invalidInput

def Artifact.verify (a : Artifact) (bytes : List UInt8) : Except Error Unit :=
  if UInt64.ofNat bytes.length ≠ a.length then .error .invalidDigest else a.digest.verify bytes

/-- What `Version::new` reads of a member of a software closure. -/
structure SoftwareArtifact where
  length : UInt64
  sha256 : Digest
deriving DecidableEq

structure SoftwareDependency where
  resource : String
  version : String
  sha256 : Digest
deriving DecidableEq

/-- The tenant type of the shared contract and the definition types of the sibling modules, with
what a version reads of them. -/
structure Definitions where
  TenantId : Type
  SoftwareDefinition : Type
  ScriptDefinition : Type
  NativeCollectionDefinition : Type
  AgentCollectionDefinition : Type
  TelemetryProfile : Type
  [tenantEq : DecidableEq TenantId]
  [softwareEq : DecidableEq SoftwareDefinition]
  [scriptEq : DecidableEq ScriptDefinition]
  [nativeEq : DecidableEq NativeCollectionDefinition]
  [agentEq : DecidableEq AgentCollectionDefinition]
  [telemetryEq : DecidableEq TelemetryProfile]
  octets : TenantId → List UInt8
  softwareCanonical : SoftwareDefinition → List UInt8
  scriptCanonical : ScriptDefinition → List UInt8
  nativeCanonical : NativeCollectionDefinition → List UInt8
  agentCanonical : AgentCollectionDefinition → List UInt8
  telemetryCanonical : TelemetryProfile → List UInt8
  primary : SoftwareDefinition → Artifact
  artifacts : SoftwareDefinition → List SoftwareArtifact
  dependencies : SoftwareDefinition → List SoftwareDependency
  templateResource : TelemetryProfile → String
  softwareTarget : SoftwareDefinition → Platform → Architecture → Except Error Unit
  telemetryTarget : TelemetryProfile → Platform → Architecture → Except Error Unit
  scriptPlatform : ScriptDefinition → Platform → Except Error Unit
  nativePlatform : NativeCollectionDefinition → Platform → Except Error Unit
  agentPlatform : AgentCollectionDefinition → Platform → Except Error Unit

attribute [instance] Definitions.tenantEq Definitions.softwareEq Definitions.scriptEq
  Definitions.nativeEq Definitions.agentEq Definitions.telemetryEq

/-- A tenant has sixteen octets that determine it, and so do the canonical bytes of a definition. -/
structure Definitions.Lawful (D : Definitions) : Prop where
  octets_length : ∀ tenant, (D.octets tenant).length = 16
  octets_injective : Function.Injective D.octets
  software_injective : Function.Injective D.softwareCanonical
  script_injective : Function.Injective D.scriptCanonical
  native_injective : Function.Injective D.nativeCanonical
  agent_injective : Function.Injective D.agentCanonical
  telemetry_injective : Function.Injective D.telemetryCanonical

/-- Data only; construction neither loads nor executes an artifact. -/
inductive Declaration (D : Definitions) where
  | software (definition : D.SoftwareDefinition)
  | script (artifact : Artifact) (definition : D.ScriptDefinition)
  | nativeCollection (artifact : Artifact) (definition : D.NativeCollectionDefinition)
  | agentCollection (artifact : Artifact) (definition : D.AgentCollectionDefinition)
  | telemetryProfile (artifact : Artifact) (definition : D.TelemetryProfile)
  | configuration (artifact : Artifact)
deriving DecidableEq

variable {D : Definitions}

def Declaration.kind : Declaration D → Kind
  | .software _ => .software
  | .script _ _ => .script
  | .configuration _ => .configuration
  | .nativeCollection _ _ => .nativeCollection
  | .agentCollection _ _ => .agentCollection
  | .telemetryProfile _ _ => .telemetryProfile

def Declaration.artifact : Declaration D → Artifact
  | .software definition => D.primary definition
  | .script artifact _ => artifact
  | .configuration artifact => artifact
  | .nativeCollection artifact _ => artifact
  | .agentCollection artifact _ => artifact
  | .telemetryProfile artifact _ => artifact

variable (D) in
/-- One platform, architecture and key bound to a declaration. -/
structure Variant where
  platform : Platform
  architecture : Architecture
  key : Id
  declaration : Declaration D
deriving DecidableEq

/-- The selection coordinates in the order they are compared. -/
def Variant.order (v : Variant D) : Platform ×ₗ Architecture ×ₗ Id :=
  toLex (v.platform, toLex (v.architecture, v.key))

/-- The bytes gathered so far. -/
abbrev Encoding := List UInt8

def Encoding.id (e : Encoding) (id : Id) : Encoding :=
  e ++ beBytes32 (asBytes id.value).length ++ asBytes id.value

/-- Length-prefixed canonical bytes of a definition; the length is cast to `u32`. -/
def Encoding.blob (e : Encoding) (bytes : List UInt8) : Encoding :=
  e ++ beBytes32 bytes.length ++ bytes

def domain : Kind → String
  | .software => "rss-mdm-resource-software-v1"
  | .telemetryProfile => "rss-mdm-resource-telemetry-profile-v1"
  | .script => "rss-mdm-resource-script-v1"
  | .agentCollection => "rss-mdm-resource-agent-collection-v1"
  | .nativeCollection => "rss-mdm-resource-native-collection-v1"
  | .configuration => "rss-mdm-resource-native-configuration-v1"

def Kind.code : Kind → UInt8
  | .software => 1
  | .script => 2
  | .configuration => 3
  | .nativeCollection => 4
  | .agentCollection => 5
  | .telemetryProfile => 6

def Platform.code : Platform → UInt8
  | .windows => 1
  | .macOS => 2

def Architecture.code : Architecture → UInt8
  | .x86_64 => 1
  | .aarch64 => 2

def Encoding.definition (e : Encoding) : Declaration D → Encoding
  | .software definition => e.blob (D.softwareCanonical definition)
  | .script _ definition => e.blob (D.scriptCanonical definition)
  | .nativeCollection _ definition => e.blob (D.nativeCanonical definition)
  | .agentCollection _ definition => e.blob (D.agentCanonical definition)
  | .telemetryProfile _ definition => e.blob (D.telemetryCanonical definition)
  | .configuration _ => e

def Encoding.variant (e : Encoding) (v : Variant D) : Encoding :=
  let e := (e ++ [v.platform.code] ++ [v.architecture.code]).id v.key
  let a := v.declaration.artifact
  let e := e.id a.reference ++ beBytes a.length.toNat ++ a.digest.bytes
  e.definition v.declaration

/-- Domain, tenant, length-prefixed identities, explicit tags and counts. -/
def canonicalOf (tenant : D.TenantId) (resource label : Id) (kind : Kind)
    (variants : List (Variant D)) : List UInt8 :=
  let e : Encoding := asBytes (domain kind) ++ [0] ++ D.octets tenant
  let e := (Encoding.id e resource).id label
  let e := e ++ [kind.code] ++ beBytes32 variants.length
  variants.foldl Encoding.variant e

variable (D) in
/-- A frozen version: variants of one kind in strict selection order, bounded canonical bytes and
their digest. -/
structure Version where
  tenant : D.TenantId
  resource : Id
  label : Id
  kind : Kind
  variants : List (Variant D)
  digest : Digest
  size : variants ≠ [] ∧ variants.length ≤ 64
  kinds : ∀ v ∈ variants, v.declaration.kind = kind
  sorted : variants.Pairwise (fun a b => a.order < b.order)
  bounded : (canonicalOf tenant resource label kind variants).length ≤ 8 * 1024 * 1024
  digest_eq : digest = Digest.of (canonicalOf tenant resource label kind variants)
deriving DecidableEq

def Version.canonical (v : Version D) : List UInt8 :=
  canonicalOf v.tenant v.resource v.label v.kind v.variants

/-- What the loop over the variants has gathered from software definitions. -/
structure Totals where
  artifacts : Finset (UInt64 × Digest)
  definitionBytes : Nat
  dependencies : OrdMap (String ×ₗ String) Digest

def Totals.zero : Totals := ⟨∅, 0, .empty⟩

def addDependency (dependencies : OrdMap (String ×ₗ String) Digest) (d : SoftwareDependency) :
    Except Error (OrdMap (String ×ₗ String) Digest) :=
  match dependencies.insertSame (toLex (d.resource, d.version)) d.sha256 with
  | some dependencies => .ok dependencies
  | none => .error .invalidInput

def checkedAdd (a b : Nat) : Except Error Nat :=
  if a + b < 2 ^ 64 then .ok (a + b) else .error .invalidInput

def admitSoftware (resource : Id) (t : Totals) (v : Variant D) (d : D.SoftwareDefinition) :
    Except Error Totals := do
  D.softwareTarget d v.platform v.architecture
  let definitionBytes ← checkedAdd t.definitionBytes (D.softwareCanonical d).length
  let artifacts := (D.artifacts d).foldl (fun s a => insert (a.length, a.sha256) s) t.artifacts
  let dependencies ← (D.dependencies d).foldlM addDependency t.dependencies
  if definitionBytes > 8 * 1024 * 1024 ∨ artifacts.card > 128 ∨ dependencies.size > 32 then
    .error .invalidInput
  else if (D.dependencies d).any (fun d => d.resource == resource.value) then .error .invalidInput
  else .ok ⟨artifacts, definitionBytes, dependencies⟩

def admitTelemetry (resource : Id) (v : Variant D) (artifact : Artifact) (d : D.TelemetryProfile) :
    Except Error Unit := do
  D.telemetryTarget d v.platform v.architecture
  if D.templateResource d = resource.value then .error .invalidInput
  else artifact.verify (D.telemetryCanonical d)

def admitAgent (v : Variant D) (artifact : Artifact) (d : D.AgentCollectionDefinition) :
    Except Error Unit := do
  D.agentPlatform d v.platform
  artifact.verify (D.agentCanonical d)

/-- A native query must be identical on both supported architectures. -/
def admitNative (variants : List (Variant D)) (v : Variant D) (artifact : Artifact)
    (d : D.NativeCollectionDefinition) : Except Error Unit := do
  D.nativePlatform d v.platform
  if !variants.any (fun other => other.platform = v.platform &&
      other.architecture ≠ v.architecture && other.declaration = v.declaration) then
    .error .invalidInput
  else if artifact.length ≠ UInt64.ofNat (D.nativeCanonical d).length ∨
      artifact.digest ≠ Digest.of (D.nativeCanonical d) then .error .invalidDigest
  else .ok ()

/-- One pass of the loop: each kind has its own checks, and only software adds to the totals. -/
def admitVariant (resource : Id) (variants : List (Variant D)) (t : Totals) (v : Variant D) :
    Except Error Totals :=
  match v.declaration with
  | .software d => admitSoftware resource t v d
  | .telemetryProfile artifact d => (admitTelemetry resource v artifact d).map (fun _ => t)
  | .script _ d => (D.scriptPlatform d v.platform).map (fun _ => t)
  | .agentCollection artifact d => (admitAgent v artifact d).map (fun _ => t)
  | .nativeCollection artifact d => (admitNative variants v artifact d).map (fun _ => t)
  | .configuration _ => .ok t

def Version.new (tenant : D.TenantId) (resource label : Id) (kind : Kind)
    (variants : List (Variant D)) : Except Error (Version D) :=
  if hsize : variants ≠ [] ∧ variants.length ≤ 64 then
    if hkinds : ∀ v ∈ variants, v.declaration.kind = kind then
      match variants.foldlM (admitVariant resource variants) Totals.zero with
      | .error e => .error e
      | .ok _ =>
          let sorted := variants.insertionSort (fun a b => a.order ≤ b.order)
          if hapart : adjacentEqual Variant.order sorted = false then
            if hbytes : (canonicalOf tenant resource label kind sorted).length ≤ 8 * 1024 * 1024 then
              .ok { tenant, resource, label, kind
                    variants := sorted
                    digest := Digest.of (canonicalOf tenant resource label kind sorted)
                    size := by
                      have perm := List.perm_insertionSort (fun a b => a.order ≤ b.order) variants
                      rw [Ne, ← List.length_eq_zero_iff, perm.length_eq, List.length_eq_zero_iff]
                      exact hsize
                    kinds := by
                      have perm := List.perm_insertionSort (fun a b => a.order ≤ b.order) variants
                      exact fun v hv => hkinds v (perm.mem_iff.mp hv)
                    sorted := pairwise_lt_of_sorted _ _ (pairwise_sort _ _) hapart
                    bounded := hbytes
                    digest_eq := rfl }
            else .error .invalidInput
          else .error .duplicateVariant
    else .error .kindMismatch
  else .error .invalidInput

def Version.resolve (v : Version D) (platform : Platform) (architecture : Architecture) (key : Id) :
    Except Error (Variant D) :=
  match v.variants.find? (fun w => w.platform = platform && w.architecture = architecture &&
      w.key = key) with
  | some w => .ok w
  | none => .error .missingVariant

end RssMdm.Resource
