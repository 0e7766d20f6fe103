/- module: SoftwareRelease/Canonical
   source: crates/software-release/src/model.rs, crates/software-release/src/identity.rs,
   crates/software-release/src/fingerprint.rs
   digest: The bytes behind every digest determine their value and their domain, and content does not
   depend on the order it was supplied in. -/

import RssMdm.SoftwareRelease.Replay

set_option autoImplicit false

namespace RssMdm.SoftwareRelease

open Lib.Fallible Lib.KeySort Lib.SelfDelimiting
open Lib.Text (asBytes asBytes_injective asBytes_length)
open List (append_assoc mapM_cons)

def word (value : String) : List UInt8 := beBytes (asBytes value).length ++ asBytes value

theorem isSelfDelimiting_word :
    IsSelfDelimiting {value : String | value.utf8ByteSize < 2 ^ 64} word := by
  apply (isSelfDelimiting_bytes.comap asBytes_injective).mono
  intro value hvalue
  show (asBytes value).length < 2 ^ 64
  rw [asBytes_length]
  exact hvalue

theorem validateName_size {value : String} (h : validateName value = .ok ()) :
    value.utf8ByteSize < 2 ^ 64 := by
  have bounded : value.utf8ByteSize ≤ 128 :=
    NamedIdentity.value_size_le (⟨(), value, h⟩ : NamedIdentity Unit)
  omega

theorem foldl_encoding {α : Type} {add : Encoding → α → Encoding} {bytes : α → List UInt8}
    (hadd : ∀ e a, add e a = e ++ bytes a) (as : List α) (e : Encoding) :
    as.foldl add e = e ++ as.flatMap bytes := by
  induction as generalizing e with
  | nil => simp
  | cons _ _ ih => rw [List.foldl_cons, ih, hadd, List.flatMap_cons, append_assoc]

def artifactBytes (a : Artifact) : List UInt8 := word a.key ++ a.digest.bytes

def variantBytes (v : VariantContent) : List UInt8 :=
  word v.architecture ++ (word v.variant ++
    (beBytes v.artifacts.length ++ v.artifacts.flatMap artifactBytes))

def contentBytes (c : Content) : List UInt8 :=
  c.software.values.flatMap word ++ (c.description.bytes ++ (c.sourceSnapshot.bytes ++
    (c.manifest.bytes ++ (beBytes c.variants.length ++ c.variants.flatMap variantBytes))))

theorem isSelfDelimiting_artifact : IsSelfDelimiting Set.univ artifactBytes := by
  have fields : Function.Injective (fun a : Artifact => (a.key, a.digest)) := by
    rintro ⟨_, _, _⟩ ⟨_, _, _⟩ h
    simp_all
  apply ((isSelfDelimiting_word.pair isSelfDelimiting_digest).comap fields).mono
  intro a _
  exact ⟨validateName_size a.valid, trivial⟩

theorem isSelfDelimiting_variant : IsSelfDelimiting Set.univ variantBytes := by
  have fields : Function.Injective
      (fun v : VariantContent => (v.architecture, v.variant, v.artifacts)) := by
    rintro ⟨_, _, _, _, _, _, _⟩ ⟨_, _, _, _, _, _, _⟩ h
    simp_all
  have counted := isSelfDelimiting_beBytes.counted isSelfDelimiting_artifact
  apply ((isSelfDelimiting_word.pair (isSelfDelimiting_word.pair counted)).comap fields).mono
  intro v _
  have size := v.artifacts_size.2
  exact ⟨validateName_size v.architecture_valid, validateName_size v.variant_valid,
    by show v.artifacts.length < 2 ^ 64; omega, fun _ _ => trivial⟩

theorem encodeVariant_eq (e : Encoding) (v : VariantContent) :
    encodeVariant e v = e ++ variantBytes v := by
  have artifact : ∀ e a, encodeArtifact e a = e ++ artifactBytes a := by
    intro e a
    simp [encodeArtifact, artifactBytes, word, Encoding.bytes, Encoding.digest]
  have count : (UInt64.ofNat v.artifacts.length).toNat = v.artifacts.length := by
    have size := v.artifacts_size.2
    exact UInt64.toNat_ofNat_of_lt' (by show v.artifacts.length < 2 ^ 64; omega)
  rw [encodeVariant, foldl_encoding artifact]
  simp [variantBytes, word, Encoding.bytes, Encoding.number, count]

theorem Content.encoding_eq (c : Content) :
    c.encoding = Encoding.new "rss-mdm-software-release/content/v1" ++ contentBytes c := by
  have part : ∀ (e : Encoding) (value : String),
      .bytes e (asBytes value) = e ++ word value := fun _ _ => rfl
  have count : (UInt64.ofNat c.variants.length).toNat = c.variants.length := by
    have size := c.variants_size.2.1
    exact UInt64.toNat_ofNat_of_lt' (by show c.variants.length < 2 ^ 64; omega)
  rw [Content.encoding, foldl_encoding encodeVariant_eq, foldl_encoding part]
  simp [contentBytes, Encoding.digest, Encoding.number, count]

theorem contentBytes_injective {a b : Content} (h : contentBytes a = contentBytes b) : a = b := by
  have happ : contentBytes a ++ [] = contentBytes b ++ [] := by rw [h]
  simp only [contentBytes, append_assoc] at happ
  have named : ∀ c : Content, ∀ value ∈ c.software.values, value.utf8ByteSize < 2 ^ 64 :=
    fun c value hvalue => validateName_size (c.software.valid value hvalue)
  obtain ⟨hsoftware, h⟩ := isSelfDelimiting_word.flatMap (named a) (named b) rfl happ
  obtain ⟨hdescription, h⟩ := isSelfDelimiting_digest _ trivial _ trivial _ _ h
  obtain ⟨hsnapshot, h⟩ := isSelfDelimiting_digest _ trivial _ trivial _ _ h
  obtain ⟨hmanifest, h⟩ := isSelfDelimiting_digest _ trivial _ trivial _ _ h
  rw [← append_assoc, ← append_assoc] at h
  have small : ∀ c : Content, c.variants.length < 2 ^ 64 := by
    intro c
    have size := c.variants_size.2.1
    omega
  obtain ⟨hvariants, -⟩ := isSelfDelimiting_beBytes.counted isSelfDelimiting_variant _
    ⟨small a, fun _ _ => trivial⟩ _ ⟨small b, fun _ _ => trivial⟩ _ _ h
  obtain ⟨⟨_, _, _, _, _⟩, _, _, _, _, _, _, _⟩ := a
  obtain ⟨⟨_, _, _, _, _⟩, _, _, _, _, _, _, _⟩ := b
  simp_all [SoftwareIdentity.values]

theorem Content.new_perm {software : SoftwareIdentity} {description sourceSnapshot manifest : Digest}
    {variants variants' : List VariantContent} (perm : variants.Perm variants') :
    Content.new software description sourceSnapshot manifest variants =
      Content.new software description sourceSnapshot manifest variants' := by
  have size : (variants ≠ [] ∧ variants.length ≤ 64 ∧
      (variants.map (fun v => v.artifacts.length)).sum ≤ 256) ↔ (variants' ≠ [] ∧
        variants'.length ≤ 64 ∧ (variants'.map (fun v => v.artifacts.length)).sum ≤ 256) := by
    rw [perm.length_eq, (perm.map (fun v => v.artifacts.length)).sum_eq, Ne, Ne,
      ← List.length_eq_zero_iff, ← List.length_eq_zero_iff, perm.length_eq]
  obtain ⟨keys, sorted⟩ := sort_perm VariantContent.order perm
  unfold Content.new
  by_cases hsize : variants ≠ [] ∧ variants.length ≤ 64 ∧
      (variants.map (fun v => v.artifacts.length)).sum ≤ 256
  · have hsize' := size.mp hsize
    by_cases apart : adjacentEqual VariantContent.order
        (variants.insertionSort (fun a b => a.order ≤ b.order)) = false
    · have apart' := keys ▸ apart
      simp only [dif_pos hsize, dif_pos hsize', dif_pos apart', sorted apart]
    · have apart' := keys ▸ apart
      simp only [dif_pos hsize, dif_pos hsize', dif_neg apart, dif_neg apart']
  · have hsize' := fun h => hsize (size.mpr h)
    simp only [dif_neg hsize, dif_neg hsize']

theorem VariantContent.new_perm {architecture variant : String} {artifacts artifacts' : List Artifact}
    (perm : artifacts.Perm artifacts') :
    VariantContent.new architecture variant artifacts =
      VariantContent.new architecture variant artifacts' := by
  have size : (artifacts ≠ [] ∧ artifacts.length ≤ 256) ↔
      (artifacts' ≠ [] ∧ artifacts'.length ≤ 256) := by
    rw [perm.length_eq, Ne, Ne, ← List.length_eq_zero_iff, ← List.length_eq_zero_iff,
      perm.length_eq]
  obtain ⟨keys, sorted⟩ := sort_perm Artifact.key perm
  unfold VariantContent.new
  by_cases ha : validateName architecture = .ok ()
  · by_cases hv : validateName variant = .ok ()
    · by_cases hsize : artifacts ≠ [] ∧ artifacts.length ≤ 256
      · have hsize' := size.mp hsize
        by_cases apart : adjacentEqual Artifact.key
            (artifacts.insertionSort (fun a b => a.key ≤ b.key)) = false
        · have apart' := keys ▸ apart
          simp only [dif_pos hsize, dif_pos hsize', dif_pos apart', sorted apart]
        · have apart' := keys ▸ apart
          simp only [dif_pos hsize, dif_pos hsize', dif_neg apart, dif_neg apart']
      · have hsize' := fun h => hsize (size.mpr h)
        simp only [dif_neg hsize, dif_neg hsize']
    · simp only [dif_neg hv]
  · simp only [dif_neg ha]

structure VariantInput where
  architecture : String
  variant : String
  artifacts : List Artifact

def VariantInput.build (v : VariantInput) : Except Error VariantContent :=
  VariantContent.new v.architecture v.variant v.artifacts

/-- A content built from its inputs; none when any part is refused. -/
def Content.build (software : SoftwareIdentity) (description sourceSnapshot manifest : Digest)
    (inputs : List VariantInput) : Option Content :=
  (inputs.mapM (fun v : VariantInput => v.build.toOption)).bind (fun variants =>
    (Content.new software description sourceSnapshot manifest variants).toOption)

/-- The same variants in another order, each with its artifacts in another order. -/
def Rearranged (inputs inputs' : List VariantInput) : Prop :=
  ∃ middle : List VariantInput, inputs.Perm middle ∧
    List.Forall₂ (fun v w => v.architecture = w.architecture ∧ v.variant = w.variant ∧
      v.artifacts.Perm w.artifacts) middle inputs'

theorem mapM_perm {α β : Type} {f : α → Option β} {as bs : List α} (perm : as.Perm bs) :
    Option.Rel List.Perm (as.mapM f) (bs.mapM f) := by
  induction perm with
  | nil => exact .some (.refl [])
  | @cons a as bs _ ih =>
    simp only [mapM_cons]
    generalize as.mapM f = left at ih ⊢
    generalize bs.mapM f = right at ih ⊢
    cases f a with
    | none => exact .none
    | some x =>
      cases ih with
      | none => exact .none
      | some tail => exact .some (tail.cons x)
  | swap a b as =>
    simp only [mapM_cons]
    cases f a <;> cases f b <;> cases as.mapM f
    all_goals first | exact .none | exact .some (.swap _ _ _)
  | @trans as bs cs _ _ ihab ihbc =>
    generalize as.mapM f = left at ihab ⊢
    generalize bs.mapM f = middle at ihab ihbc
    generalize cs.mapM f = right at ihbc ⊢
    cases ihab with
    | none =>
      cases ihbc
      exact .none
    | some ab =>
      cases ihbc with
      | some bc => exact .some (ab.trans bc)

theorem Content.build_rearranged {software : SoftwareIdentity}
    {description sourceSnapshot manifest : Digest} {inputs inputs' : List VariantInput}
    (h : Rearranged inputs inputs') :
    Content.build software description sourceSnapshot manifest inputs =
      Content.build software description sourceSnapshot manifest inputs' := by
  obtain ⟨middle, perm, same⟩ := h
  have related := @mapM_perm _ _ (fun v : VariantInput => v.build.toOption) _ _ perm
  have built : middle.mapM (fun v : VariantInput => v.build.toOption) =
      inputs'.mapM (fun v : VariantInput => v.build.toOption) := by
    clear perm related
    induction same with
    | nil => rfl
    | @cons v w _ _ head _ ih =>
      have one : v.build = w.build := by
        rw [VariantInput.build, VariantInput.build, head.1, head.2.1,
          VariantContent.new_perm head.2.2]
      rw [mapM_cons, mapM_cons, one, ih]
  rw [built] at related
  rw [Content.build, Content.build]
  generalize inputs.mapM (fun v : VariantInput => v.build.toOption) = left at related ⊢
  generalize inputs'.mapM (fun v : VariantInput => v.build.toOption) = right at related ⊢
  cases related with
  | none => rfl
  | some variants =>
    simp only [Option.bind_some]
    rw [Content.new_perm variants]

variable {TenantId Timepoint : Type} (env : Environment TenantId Timepoint)

def PublicationBinding.encoding (b : PublicationBinding TenantId Timepoint) : Encoding :=
  let e := Encoding.new "rss-mdm-software-release/publication/v1"
  let e := e.object env b.publication.tenant b.publication.value
  let e := e.digest b.content
  let e := e.object env b.target.tenant b.target.value
  e.digest b.targetDigest

theorem PublicationBinding.encoding_eq (b : PublicationBinding TenantId Timepoint) :
    b.encoding env = Encoding.new "rss-mdm-software-release/publication/v1" ++
      (objectBytes env b.publication.tenant b.publication.value ++ (b.content.bytes ++
        (objectBytes env b.target.tenant b.target.value ++ b.targetDigest.bytes))) := by
  simp [PublicationBinding.encoding, objectBytes, Encoding.object, Encoding.bytes, Encoding.digest]

theorem PublicationBinding.encoding_injective (law : env.Lawful)
    {a b : PublicationBinding TenantId Timepoint} (h : a.encoding env = b.encoding env) :
    a.publication = b.publication ∧ a.content = b.content ∧ a.target = b.target ∧
      a.targetDigest = b.targetDigest := by
  rw [PublicationBinding.encoding_eq, PublicationBinding.encoding_eq] at h
  have h := List.append_cancel_left h
  obtain ⟨keyTenant, keyValue, h⟩ := objectBytes_peel env law
    (validateName_size a.publication.valid) (validateName_size b.publication.valid) h
  obtain ⟨content, h⟩ := isSelfDelimiting_digest _ trivial _ trivial _ _ h
  obtain ⟨targetTenant, targetValue, h⟩ := objectBytes_peel env law
    (validateName_size a.target.valid) (validateName_size b.target.valid) h
  have happ : a.targetDigest.bytes ++ [] = b.targetDigest.bytes ++ [] := by rw [h]
  obtain ⟨targetDigest, -⟩ := isSelfDelimiting_digest _ trivial _ trivial _ _ happ
  refine ⟨?_, content, ?_, targetDigest⟩
  · obtain ⟨⟨_, _, _⟩, _⟩ := a
    obtain ⟨⟨_, _, _⟩, _⟩ := b
    simp_all
  · obtain ⟨_, _, ⟨_, _, _⟩, _⟩ := a
    obtain ⟨_, _, ⟨_, _, _⟩, _⟩ := b
    simp_all

theorem domains_apart {d d' : String} (hd : d.utf8ByteSize < 2 ^ 64) (hd' : d'.utf8ByteSize < 2 ^ 64)
    (apart : d ≠ d') (r s : List UInt8) : Encoding.new d ++ r ≠ Encoding.new d' ++ s := by
  intro h
  exact apart (isSelfDelimiting_word d hd d' hd' r s h).1

/-- The three digests hash bytes that determine what they encode, no bytes of one domain are bytes of
another, and content is the same for every order of its variants and of their artifacts. -/
theorem canonical_encodings (law : env.Lawful) :
    ((∀ (key : PublicationKey TenantId) (r : Request TenantId Timepoint),
        fingerprint env key r = env.sha256 (requestEncoding env key r)) ∧
      (∀ c : Content, c.digest env = env.sha256 c.encoding) ∧
      ∀ b : PublicationBinding TenantId Timepoint,
        b.publicationId env = ⟨env.sha256 (b.encoding env)⟩) ∧
    ((∀ (key key' : PublicationKey TenantId) (r r' : Request TenantId Timepoint),
        requestEncoding env key r = requestEncoding env key' r' → key = key' ∧ r = r') ∧
      (∀ c c' : Content, c.encoding = c'.encoding → c = c') ∧
      ∀ b b' : PublicationBinding TenantId Timepoint, b.encoding env = b'.encoding env →
        b.publication = b'.publication ∧ b.content = b'.content ∧ b.target = b'.target ∧
          b.targetDigest = b'.targetDigest) ∧
    (∀ (key : PublicationKey TenantId) (r : Request TenantId Timepoint) (c : Content)
        (b : PublicationBinding TenantId Timepoint),
      requestEncoding env key r ≠ c.encoding ∧ requestEncoding env key r ≠ b.encoding env ∧
        c.encoding ≠ b.encoding env) ∧
    ∀ (software : SoftwareIdentity) (description sourceSnapshot manifest : Digest),
      (∀ variants variants' : List VariantContent, variants.Perm variants' →
        Content.new software description sourceSnapshot manifest variants =
          Content.new software description sourceSnapshot manifest variants') ∧
      ∀ inputs inputs' : List VariantInput, Rearranged inputs inputs' →
        Content.build software description sourceSnapshot manifest inputs =
          Content.build software description sourceSnapshot manifest inputs' := by
  refine ⟨⟨fun _ _ => rfl, fun _ => rfl, fun _ => rfl⟩, ⟨?_, ?_, ?_⟩, ?_, ?_⟩
  · intro key key' r r' h
    exact requestEncoding_determines env law h
  · intro c c' h
    rw [Content.encoding_eq, Content.encoding_eq] at h
    exact contentBytes_injective (List.append_cancel_left h)
  · intro b b' h
    exact PublicationBinding.encoding_injective env law h
  · intro key r c b
    rw [requestEncoding_eq, Content.encoding_eq, PublicationBinding.encoding_eq]
    exact ⟨domains_apart (by decide) (by decide) (by decide) _ _,
      domains_apart (by decide) (by decide) (by decide) _ _,
      domains_apart (by decide) (by decide) (by decide) _ _⟩
  · intro software description sourceSnapshot manifest
    exact ⟨fun _ _ perm => Content.new_perm perm, fun _ _ h => Content.build_rearranged h⟩

/-- The test publication: its content and its effect identity have different bytes. -/
theorem canonical_encodings_fixture :
    Fixture.environment.Lawful ∧
      Fixture.content.encoding ≠ Fixture.binding.encoding Fixture.environment :=
  ⟨Fixture.environment_lawful,
    ((canonical_encodings Fixture.environment Fixture.environment_lawful).2.2.1
      Fixture.binding.publication Fixture.close Fixture.content Fixture.binding).2.2⟩

end RssMdm.SoftwareRelease
