/- module: Scope/Device
   source: crates/scope/src/identity.rs, crates/scope/src/model.rs, crates/scope/src/device.rs
   digest: Tenant-scoped sources, their memberships and the resolution of one device. -/

import Mathlib.Data.Prod.Lex
import Mathlib.Data.String.Basic
import Mathlib.Data.Sum.Order
import RssMdm.Lib.OrdMap
import RssMdm.Lib.Text

set_option autoImplicit false

namespace RssMdm.Scope

open Lib
open Lib.Text (asBytes isControl)

section

@[ext] structure Key (TenantId : Type) where
  tenant : TenantId
  value : String

variable {TenantId : Type}

def Key.order (k : Key TenantId) : TenantId ×ₗ String := toLex (k.tenant, k.value)

theorem Key.order_injective : Function.Injective (Key.order : Key TenantId → TenantId ×ₗ String) := by
  intro a b h
  have pair := Prod.mk.inj (toLex.injective h)
  exact Key.ext pair.1 pair.2

instance [LinearOrder TenantId] : LinearOrder (Key TenantId) :=
  LinearOrder.lift' Key.order Key.order_injective

def groupByte (b : UInt8) : Bool :=
  let c := Char.ofNat b.toNat
  c.isAlphanum || c == '.' || c == '_' || c == '-'

/-- 1–128 ASCII letters, digits, dots, underscores or hyphens. -/
def validGroup (value : String) : Bool :=
  !(value.isEmpty || decide (value.utf8ByteSize > 128) || !(asBytes value).all groupByte)

/-- 1–256 UTF-8 bytes without controls. -/
def validDevice (value : String) : Bool :=
  !(value.isEmpty || decide (value.utf8ByteSize > 256) || value.toList.any isControl)

variable (TenantId) in
abbrev GroupId := {k : Key TenantId // validGroup k.value = true}

variable (TenantId) in
abbrev DeviceId := {k : Key TenantId // validDevice k.value = true}

variable (TenantId) in
inductive SourceId where
  | direct (id : DeviceId TenantId)
  | group (id : GroupId TenantId)

def SourceId.tenant : SourceId TenantId → TenantId
  | .direct id => id.1.tenant
  | .group id => id.1.tenant

def SourceId.order : SourceId TenantId → DeviceId TenantId ⊕ₗ GroupId TenantId
  | .direct id => toLex (.inl id)
  | .group id => toLex (.inr id)

theorem SourceId.order_injective :
    Function.Injective (SourceId.order : SourceId TenantId → _) := by
  rintro (_ | _) (_ | _) h
  · rw [Sum.inl_injective (toLex.injective h)]
  · cases toLex.injective h
  · cases toLex.injective h
  · rw [Sum.inr_injective (toLex.injective h)]

variable [LinearOrder TenantId]

instance : LinearOrder (SourceId TenantId) := LinearOrder.lift' SourceId.order SourceId.order_injective

end

variable (TenantId Timepoint : Type)

/-- A source with its positive snapshot version and the time it was resolved at. -/
@[ext] structure SourceRef where
  id : SourceId TenantId
  version : UInt64
  resolvedAt : Timepoint
  positive : version ≠ 0

inductive ScopeError where
  | sourceLimit
  | invalidKey
  | invalidVersion
  | sourceTenantMismatch (source : SourceRef TenantId Timepoint) (expected : TenantId)
  | incompleteSource (source : SourceRef TenantId Timepoint)
  | sourceFailed (source : SourceRef TenantId Timepoint)
  | conflictingSource (source : SourceRef TenantId Timepoint)
  | invalidDirectSource (source : SourceRef TenantId Timepoint)

/-- One lookup, preserving confirmed absence versus missing evidence. -/
inductive Membership where
  | known (value : Bool)
  | unknown
  | incomplete
  | failed
deriving DecidableEq

structure SourceMembership where
  source : SourceRef TenantId Timepoint
  contains : Membership

structure DeviceInput where
  device : DeviceId TenantId
  targets : List (SourceMembership TenantId Timepoint)
  limitations : Option (List (SourceMembership TenantId Timepoint))
  exclusions : List (SourceMembership TenantId Timepoint)

inductive ExclusionReason where
  | missingLimitationMatch
  | explicitExclusion
  | unknownTarget
  | unknownLimitation
  | unknownExclusion
deriving DecidableEq

structure MemberExplanation where
  object : DeviceId TenantId
  targets : List (SourceRef TenantId Timepoint)
  limitations : List (SourceRef TenantId Timepoint)
  exclusions : List (SourceRef TenantId Timepoint)
  reasons : List ExclusionReason

variable {TenantId Timepoint}

def SourceRef.new (id : SourceId TenantId) (version : UInt64) (resolvedAt : Timepoint) :
    Except (ScopeError TenantId Timepoint) (SourceRef TenantId Timepoint) :=
  if h : version ≠ 0 then .ok ⟨id, version, resolvedAt, h⟩ else .error .invalidVersion

def DeviceId.new (tenant : TenantId) (value : String) :
    Except (ScopeError TenantId Timepoint) (DeviceId TenantId) :=
  if h : validDevice value = true then .ok ⟨⟨tenant, value⟩, h⟩ else .error .invalidKey

def GroupId.new (tenant : TenantId) (value : String) :
    Except (ScopeError TenantId Timepoint) (GroupId TenantId) :=
  if h : validGroup value = true then .ok ⟨⟨tenant, value⟩, h⟩ else .error .invalidKey

def SourceRef.order (s : SourceRef TenantId Timepoint) : SourceId TenantId ×ₗ Nat ×ₗ Timepoint :=
  toLex (s.id, toLex (s.version.toNat, s.resolvedAt))

theorem SourceRef.order_injective :
    Function.Injective (SourceRef.order : SourceRef TenantId Timepoint → _) := by
  intro a b h
  have outer := Prod.mk.inj (toLex.injective h)
  have inner := Prod.mk.inj (toLex.injective outer.2)
  exact SourceRef.ext outer.1 (UInt64.toNat_inj.mp inner.1) inner.2

variable [LinearOrder TenantId] [LinearOrder Timepoint]

instance : LinearOrder (SourceRef TenantId Timepoint) :=
  LinearOrder.lift' SourceRef.order SourceRef.order_injective

def SourceRef.snapshot (s : SourceRef TenantId Timepoint) : SourceId TenantId ×ₗ Nat :=
  toLex (s.id, s.version.toNat)

def saturatingAdd (a b : Nat) : Nat := min (a + b) (2 ^ 64 - 1)

def confirmed (m : SourceMembership TenantId Timepoint) :
    Except (ScopeError TenantId Timepoint) (Option Bool) :=
  match m.contains with
  | .known value => .ok (some value)
  | .unknown => .ok none
  | .incomplete => .error (.incompleteSource m.source)
  | .failed => .error (.sourceFailed m.source)

def directAgrees (device : DeviceId TenantId) (id : SourceId TenantId) (contains : Option Bool) :
    Bool :=
  match id with
  | .direct direct => contains == some (decide (direct = device))
  | .group _ => true

/-- One pass of the loop over every source of every role. -/
def checkSource (device : DeviceId TenantId) (seen : OrdMap (SourceId TenantId ×ₗ Nat) (Option Bool))
    (m : SourceMembership TenantId Timepoint) :
    Except (ScopeError TenantId Timepoint) (OrdMap (SourceId TenantId ×ₗ Nat) (Option Bool)) :=
  if m.source.id.tenant ≠ device.1.tenant then
    .error (.sourceTenantMismatch m.source device.1.tenant)
  else do
    let contains ← confirmed m
    if !directAgrees device m.source.id contains then .error (.invalidDirectSource m.source)
    else match seen.insertSame m.source.snapshot contains with
    | none => .error (.conflictingSource m.source)
    | some seen => .ok seen

def matching (sources : List (SourceMembership TenantId Timepoint)) :
    OrdSet (SourceRef TenantId Timepoint) :=
  OrdSet.ofList ((sources.filter (fun s => s.contains = .known true)).map SourceMembership.source)

def unknown (sources : List (SourceMembership TenantId Timepoint)) : Bool :=
  sources.any (fun s => s.contains = .unknown)

def explanation (object : DeviceId TenantId)
    (targets limitations exclusions : OrdSet (SourceRef TenantId Timepoint)) (restricted : Bool) :
    MemberExplanation TenantId Timepoint where
  object := object
  targets := targets.keys
  limitations := limitations.keys
  exclusions := exclusions.keys
  reasons :=
    (if restricted && limitations.entries.isEmpty then [.missingLimitationMatch] else []) ++
      (if !exclusions.entries.isEmpty then [.explicitExclusion] else [])

/-- The reasons that missing evidence adds or replaces. -/
def unknownReasons (input : DeviceInput TenantId Timepoint)
    (limits : List (SourceMembership TenantId Timepoint))
    (result : MemberExplanation TenantId Timepoint) : List ExclusionReason :=
  let reasons := result.reasons ++ (if result.targets.isEmpty then [.unknownTarget] else [])
  let reasons :=
    if reasons.contains .missingLimitationMatch && unknown limits then
      reasons.filter (fun r => r ≠ .missingLimitationMatch) ++ [.unknownLimitation]
    else reasons
  if result.exclusions.isEmpty && unknown input.exclusions then reasons ++ [.unknownExclusion]
  else reasons

def resolveDevice (input : DeviceInput TenantId Timepoint) :
    Except (ScopeError TenantId Timepoint) (Option (MemberExplanation TenantId Timepoint)) := do
  let limits := input.limitations.getD []
  if saturatingAdd (saturatingAdd input.targets.length limits.length) input.exclusions.length > 3000
  then .error .sourceLimit
  else
    let seen ← (input.targets ++ limits ++ input.exclusions).foldlM (checkSource input.device) .empty
    if seen.size > 1000 then .error .sourceLimit
    else
      let targets := matching input.targets
      if targets.entries.isEmpty && !unknown input.targets then .ok none
      else
        let result := explanation input.device targets (matching limits) (matching input.exclusions)
          input.limitations.isSome
        if !result.exclusions.isEmpty then .ok (some result)
        else .ok (some { result with reasons := unknownReasons input limits result })

end RssMdm.Scope
