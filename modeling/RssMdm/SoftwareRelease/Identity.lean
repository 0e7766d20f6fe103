/- module: SoftwareRelease/Identity
   source: crates/software-release/src/identity.rs, crates/software-release/src/lib.rs
   digest: Tenant-scoped identities, digests and the canonical byte encoding behind every digest. -/

import RssMdm.Lib.SelfDelimiting
import RssMdm.Lib.Text

set_option autoImplicit false

namespace RssMdm.SoftwareRelease

open Lib.SelfDelimiting
open Lib.Text (asBytes asBytes_injective asBytes_length)

/-- Stable rejection categories of the crate. -/
inductive Error where
  | invalidIdentity
  | invalidDigest
  | invalidArtifacts
  | tenantMismatch
  | identityMismatch
  | revisionConflict (expected actual : UInt64)
  | overflow
  | requestConflict
  | invalidSnapshot
  | invalidTime
  | invalidTransition
  | publicationClosed
  | reconciliationRequired
  | resultConflict
deriving DecidableEq, Repr

/-- SHA-256 bytes; a digest binds bytes and authenticates nothing. -/
structure Digest where
  bytes : List UInt8
  length : bytes.length = 32

instance : DecidableEq Digest := fun a b =>
  decidable_of_iff (a.bytes = b.bytes) (by cases a; cases b; simp)

def Digest.zero : Digest := ⟨List.replicate 32 0, by simp⟩

/-- What the crate uses of the shared contract crates and of SHA-256: the sixteen octets of a
tenant, the Unix second of a time point, and the hash of the bytes fed to an encoding. -/
structure Environment (TenantId Timepoint : Type) where
  octets : TenantId → List UInt8
  unixSeconds : Timepoint → Int64
  sha256 : List UInt8 → Digest

/-- The documented behaviour of the shared contract types. -/
structure Environment.Lawful {TenantId Timepoint : Type}
    (env : Environment TenantId Timepoint) : Prop where
  octets_length : ∀ tenant, (env.octets tenant).length = 16
  octets_injective : Function.Injective env.octets
  unixSeconds_injective : Function.Injective env.unixSeconds

def nameByte (b : UInt8) : Bool :=
  let c := Char.ofNat b.toNat
  c.isAlphanum || "._-/+@".toList.contains c

/-- One to 128 restricted ASCII bytes without empty, `.` or `..` path segments. -/
def validateName (value : String) : Except Error Unit :=
  if value.isEmpty || decide (value.utf8ByteSize > 128) || !(asBytes value).all nameByte ||
      (value.toList.splitOn '/').any (fun s => s.isEmpty || s == ['.'] || s == ['.', '.']) then
    .error .invalidIdentity
  else .ok ()

/-- The tenant-scoped references of the `identities!` macro. -/
structure NamedIdentity (TenantId : Type) where
  tenant : TenantId
  value : String
  valid : validateName value = .ok ()

instance {TenantId : Type} [DecidableEq TenantId] : DecidableEq (NamedIdentity TenantId) :=
  fun a b =>
    decidable_of_iff (a.tenant = b.tenant ∧ a.value = b.value) (by cases a; cases b; simp)

abbrev PublicationKey := NamedIdentity
abbrev TargetId := NamedIdentity
abbrev RequestId := NamedIdentity

variable {TenantId Timepoint : Type}

def NamedIdentity.new (tenant : TenantId) (value : String) :
    Except Error (NamedIdentity TenantId) :=
  match h : validateName value with
  | .ok () => .ok ⟨tenant, value, h⟩
  | .error e => .error e

/-- `char::is_control`: the Unicode general category Cc. -/
def isControl (c : Char) : Bool :=
  decide (c.toNat < 0x20) || (decide (0x7f ≤ c.toNat) && decide (c.toNat ≤ 0x9f))

def validActor (value : String) : Bool :=
  !value.isEmpty && decide (value.utf8ByteSize ≤ 2048) && !value.toList.any isControl

/-- Opaque tenant-scoped principal identity. -/
structure ActorId (TenantId : Type) where
  tenant : TenantId
  value : String
  valid : validActor value = true
deriving DecidableEq

def ActorId.new (tenant : TenantId) (value : String) : Except Error (ActorId TenantId) :=
  if h : validActor value = true then .ok ⟨tenant, value, h⟩ else .error .invalidIdentity

theorem NamedIdentity.value_size_le (i : NamedIdentity TenantId) : i.value.utf8ByteSize ≤ 128 := by
  have h := i.valid
  unfold validateName at h
  split at h
  · cases h
  · rename_i hok
    simp only [Bool.or_eq_true, decide_eq_true_eq, not_or, Nat.not_lt] at hok
    exact hok.1.1.2

theorem ActorId.value_size_le (a : ActorId TenantId) : a.value.utf8ByteSize ≤ 2048 := by
  have h := a.valid
  simp only [validActor, Bool.and_eq_true, decide_eq_true_eq] at h
  exact h.1.2

/-- Stable publication identity, independent of request, retry count and clock. -/
structure PublicationId where
  digest : Digest
deriving DecidableEq

abbrev Encoding := List UInt8

variable (env : Environment TenantId Timepoint)

def Encoding.number (e : Encoding) (n : UInt64) : Encoding := e ++ beBytes n.toNat

/-- Length-prefixed bytes; the length is cast to `u64`. -/
def Encoding.bytes (e : Encoding) (bytes : List UInt8) : Encoding :=
  e ++ (beBytes bytes.length ++ bytes)

def Encoding.object (e : Encoding) (tenant : TenantId) (value : String) : Encoding :=
  Encoding.bytes (e ++ env.octets tenant) (asBytes value)

def Encoding.digest (e : Encoding) (d : Digest) : Encoding := e ++ d.bytes

def Encoding.finish (e : Encoding) : Digest := env.sha256 e

def Encoding.new (domain : String) : Encoding := Encoding.bytes [] (asBytes domain)

/-! Each part of the encoding splits off the front of what follows it. -/

theorem isSelfDelimiting_number :
    IsSelfDelimiting Set.univ (fun n : UInt64 => beBytes n.toNat) := by
  intro a _ b _ r s h
  obtain ⟨hnat, hrest⟩ := isSelfDelimiting_beBytes a.toNat a.toNat_lt b.toNat b.toNat_lt r s h
  exact ⟨UInt64.toNat_inj.mp hnat, hrest⟩

theorem isSelfDelimiting_bytes :
    IsSelfDelimiting {w : List UInt8 | w.length < 2 ^ 64} (fun w => beBytes w.length ++ w) :=
  isSelfDelimiting_beBytes.length_prefixed

theorem isSelfDelimiting_digest : IsSelfDelimiting Set.univ Digest.bytes := by
  apply IsSelfDelimiting.of_fixed_length 32
  · intro d _
    exact d.length
  · intro a _ b _ h
    cases a
    cases b
    simp_all

theorem isSelfDelimiting_octets (law : env.Lawful) :
    IsSelfDelimiting Set.univ env.octets :=
  IsSelfDelimiting.of_fixed_length 16 (fun t _ => law.octets_length t)
    (law.octets_injective.injOn)

def objectBytes (tenant : TenantId) (value : String) : List UInt8 :=
  env.octets tenant ++ (beBytes (asBytes value).length ++ asBytes value)

theorem objectBytes_peel (law : env.Lawful) {t t' : TenantId} {v v' : String}
    (hv : v.utf8ByteSize < 2 ^ 64) (hv' : v'.utf8ByteSize < 2 ^ 64) {r s : List UInt8}
    (h : objectBytes env t v ++ r = objectBytes env t' v' ++ s) : t = t' ∧ v = v' ∧ r = s := by
  simp only [objectBytes, List.append_assoc] at h
  obtain ⟨ht, hrest⟩ := isSelfDelimiting_octets env law t trivial t' trivial _ _ h
  rw [← List.append_assoc, ← List.append_assoc] at hrest
  obtain ⟨hbytes, hend⟩ := isSelfDelimiting_bytes (asBytes v)
    (by simpa [asBytes_length] using hv) (asBytes v') (by simpa [asBytes_length] using hv')
    _ _ hrest
  exact ⟨ht, asBytes_injective hbytes, hend⟩

end RssMdm.SoftwareRelease
