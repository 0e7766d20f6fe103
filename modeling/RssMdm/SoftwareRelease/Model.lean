/- module: SoftwareRelease/Model
   source: crates/software-release/src/model.rs
   digest: Immutable export content, publication authority and the observed attempt state. -/

import Mathlib.Algebra.BigOperators.Group.List.Basic
import Mathlib.Data.Prod.Lex
import Mathlib.Data.String.Basic
import RssMdm.Lib.KeySort
import RssMdm.SoftwareRelease.Identity

set_option autoImplicit false

namespace RssMdm.SoftwareRelease

open Lib.KeySort
open Lib.Text (asBytes asBytes_injective asBytes_length)

structure SoftwareIdentity where
  source : String
  package : String
  version : String
  platform : String
  valid : ∀ value ∈ [source, package, version, platform], validateName value = .ok ()
deriving DecidableEq

def SoftwareIdentity.values (i : SoftwareIdentity) : List String :=
  [i.source, i.package, i.version, i.platform]

def SoftwareIdentity.new (source package version platform : String) :
    Except Error SoftwareIdentity :=
  if h : ∀ value ∈ [source, package, version, platform], validateName value = .ok () then
    .ok ⟨source, package, version, platform, h⟩
  else .error .invalidIdentity

/-- One named artifact digest in the caller-declared, complete content set. -/
structure Artifact where
  key : String
  digest : Digest
  valid : validateName key = .ok ()
deriving DecidableEq

def Artifact.new (key : String) (digest : Digest) : Except Error Artifact :=
  match h : validateName key with
  | .ok () => .ok ⟨key, digest, h⟩
  | .error e => .error e

/-- One architecture/variant and its complete artifact closure in key order. -/
structure VariantContent where
  architecture : String
  variant : String
  artifacts : List Artifact
  architecture_valid : validateName architecture = .ok ()
  variant_valid : validateName variant = .ok ()
  artifacts_size : artifacts ≠ [] ∧ artifacts.length ≤ 256
  artifacts_sorted : artifacts.Pairwise (fun a b => a.key < b.key)
deriving DecidableEq

def VariantContent.new (architecture variant : String) (artifacts : List Artifact) :
    Except Error VariantContent :=
  let sorted := artifacts.insertionSort (fun a b => a.key ≤ b.key)
  if ha : validateName architecture = .ok () then
    if hv : validateName variant = .ok () then
      if hsize : artifacts ≠ [] ∧ artifacts.length ≤ 256 then
        if hkeys : adjacentEqual Artifact.key sorted = false then
          .ok {
            architecture, variant
            artifacts := sorted
            architecture_valid := ha
            variant_valid := hv
            artifacts_size := by
              have hlen : sorted.length = artifacts.length := List.length_insertionSort _ _
              exact ⟨List.ne_nil_of_length_pos
                (by rw [hlen]; exact List.length_pos_iff.mpr hsize.1), hlen ▸ hsize.2⟩
            artifacts_sorted := by
              exact pairwise_lt_of_sorted Artifact.key sorted (pairwise_sort Artifact.key artifacts)
                hkeys }
        else .error .invalidArtifacts
      else .error .invalidArtifacts
    else .error .invalidIdentity
  else .error .invalidIdentity

def VariantContent.order (v : VariantContent) : String ×ₗ String :=
  toLex (v.architecture, v.variant)

/-- No artifact key is bound to two digests; `seen` is the key map of the insertion loop. -/
def sharedDigests (seen : List (String × Digest)) : List Artifact → Bool
  | [] => true
  | a :: rest =>
      ((seen.lookup a.key).all (fun old => old == a.digest)) &&
        sharedDigests ((a.key, a.digest) :: seen) rest

/-- Complete immutable platform package version. -/
structure Content where
  software : SoftwareIdentity
  description : Digest
  sourceSnapshot : Digest
  manifest : Digest
  variants : List VariantContent
  variants_size : variants ≠ [] ∧ variants.length ≤ 64 ∧
    (variants.map (fun v => v.artifacts.length)).sum ≤ 256
  variants_sorted : variants.Pairwise (fun a b => a.order < b.order)
  shared : sharedDigests [] (variants.flatMap VariantContent.artifacts) = true
deriving DecidableEq

def Content.new (software : SoftwareIdentity) (description sourceSnapshot manifest : Digest)
    (variants : List VariantContent) : Except Error Content :=
  let sorted := variants.insertionSort (fun a b => a.order ≤ b.order)
  if hsize : variants ≠ [] ∧ variants.length ≤ 64 ∧
      (variants.map (fun v => v.artifacts.length)).sum ≤ 256 then
    if hkeys : adjacentEqual VariantContent.order sorted = false then
      if hshared : sharedDigests [] (sorted.flatMap VariantContent.artifacts) = true then
        .ok {
          software, description, sourceSnapshot, manifest
          variants := sorted
          variants_size := by
            have hperm : sorted.Perm variants := List.perm_insertionSort _ variants
            refine ⟨?_, hperm.length_eq ▸ hsize.2.1, ?_⟩
            · intro hnil
              rw [hnil] at hperm
              exact hsize.1 hperm.nil_eq.symm
            · rw [(hperm.map (fun v => v.artifacts.length)).sum_eq]
              exact hsize.2.2
          variants_sorted := by
            exact pairwise_lt_of_sorted VariantContent.order sorted
              (pairwise_sort VariantContent.order variants) hkeys
          shared := hshared }
      else .error .invalidArtifacts
    else .error .invalidArtifacts
  else .error .invalidArtifacts

variable {TenantId Timepoint : Type} (env : Environment TenantId Timepoint)

def encodeArtifact (e : Encoding) (a : Artifact) : Encoding :=
  (e.bytes (asBytes a.key)).digest a.digest

def encodeVariant (e : Encoding) (v : VariantContent) : Encoding :=
  let e := (e.bytes (asBytes v.architecture)).bytes (asBytes v.variant)
  v.artifacts.foldl encodeArtifact (e.number (UInt64.ofNat v.artifacts.length))

/-- Canonical bytes of the complete immutable export content. -/
def Content.encoding (c : Content) : Encoding :=
  let e := Encoding.new "rss-mdm-software-release/content/v1"
  let e := c.software.values.foldl (fun e part => Encoding.bytes e (asBytes part)) e
  let e := ((e.digest c.description).digest c.sourceSnapshot).digest c.manifest
  c.variants.foldl encodeVariant (e.number (UInt64.ofNat c.variants.length))

def Content.digest (c : Content) : Digest := Encoding.finish env c.encoding

/-- Caller-attested source observation; the adapter authenticates it. -/
structure Evidence (TenantId Timepoint : Type) where
  actor : ActorId TenantId
  digest : Digest
  atTime : Timepoint
deriving DecidableEq

/-- Immutable authority for one actual target publication. -/
structure PublicationBinding (TenantId Timepoint : Type) where
  publication : PublicationKey TenantId
  content : Digest
  target : TargetId TenantId
  targetDigest : Digest
  evidence : Evidence TenantId Timepoint
  lifecycle : Digest
  actor : ActorId TenantId
  atTime : Timepoint
deriving DecidableEq

/-- Stable effect identity; retries and other targets cannot change it. -/
def PublicationBinding.publicationId (b : PublicationBinding TenantId Timepoint) :
    PublicationId :=
  let e := Encoding.new "rss-mdm-software-release/publication/v1"
  let e := e.object env b.publication.tenant b.publication.value
  let e := e.digest b.content
  let e := e.object env b.target.tenant b.target.value
  ⟨Encoding.finish env (e.digest b.targetDigest)⟩

/-- An observation; a missing source record alone does not prove non-application. -/
inductive PublicationResult (TenantId Timepoint : Type) where
  | unknown (evidence : Evidence TenantId Timepoint)
  | notApplied (evidence : Evidence TenantId Timepoint)
  | applied (evidence : Evidence TenantId Timepoint)
deriving DecidableEq

def PublicationResult.evidence : PublicationResult TenantId Timepoint →
    Evidence TenantId Timepoint
  | .unknown e => e
  | .notApplied e => e
  | .applied e => e

/-- Current attempt state, independent of withdrawal admission. -/
inductive PublicationOutcome (TenantId Timepoint : Type) where
  | pending
  | reported (result : PublicationResult TenantId Timepoint)
deriving DecidableEq

/-- Current source attempt; its authority is immutable across retries. -/
structure Attempt (TenantId Timepoint : Type) where
  binding : PublicationBinding TenantId Timepoint
  attempt : UInt64
  requestedAt : Timepoint
  outcome : PublicationOutcome TenantId Timepoint
deriving DecidableEq

def Attempt.id (a : Attempt TenantId Timepoint) : PublicationId :=
  a.binding.publicationId env

/-- `unix_seconds() as u64` keeps the two's complement bits. -/
def encodeTime (e : Encoding) (time : Timepoint) : Encoding :=
  e.number (env.unixSeconds time).toUInt64

def encodeEvidence (e : Encoding) (evidence : Evidence TenantId Timepoint) : Encoding :=
  encodeTime env ((e.object env evidence.actor.tenant evidence.actor.value).digest evidence.digest)
    evidence.atTime

end RssMdm.SoftwareRelease
