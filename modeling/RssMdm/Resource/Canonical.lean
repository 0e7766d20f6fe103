/- module: Resource/Canonical
   source: crates/resource/src/lib.rs
   digest: The canonical bytes of a version determine it, its variants may be supplied in any order,
   and selection coordinates name at most one variant. -/

import Mathlib.Algebra.BigOperators.Group.List.Basic
import RssMdm.Resource.Version

set_option autoImplicit false

namespace RssMdm.Resource

open Lib Lib.Fallible Lib.KeySort Lib.SelfDelimiting
open Lib.Text (asBytes asBytes_injective asBytes_length)
open List (append_assoc flatMap_append)

variable {D : Definitions}

def idBytes (i : Id) : List UInt8 := beBytes32 (asBytes i.value).length ++ asBytes i.value

def blobBytes (bytes : List UInt8) : List UInt8 := beBytes32 bytes.length ++ bytes

/-- The canonical bytes of the definition inside a declaration; a configuration has none. -/
def payload : Declaration D → List UInt8
  | .software d => D.softwareCanonical d
  | .script _ d => D.scriptCanonical d
  | .nativeCollection _ d => D.nativeCanonical d
  | .agentCollection _ d => D.agentCanonical d
  | .telemetryProfile _ d => D.telemetryCanonical d
  | .configuration _ => []

def definitionBytes (d : Declaration D) : List UInt8 :=
  if d.kind = .configuration then [] else blobBytes (payload d)

def artifactBytes (a : Artifact) : List UInt8 :=
  idBytes a.reference ++ (beBytes a.length.toNat ++ a.digest.bytes)

def variantBytes (v : Variant D) : List UInt8 :=
  [v.platform.code] ++ ([v.architecture.code] ++ (idBytes v.key ++
    (artifactBytes v.declaration.artifact ++ definitionBytes v.declaration)))

theorem Encoding.variant_eq (e : Encoding) (v : Variant D) :
    Encoding.variant e v = e ++ variantBytes v := by
  obtain ⟨platform, architecture, key, declaration⟩ := v
  cases declaration <;>
    simp [Encoding.variant, variantBytes, Encoding.definition, definitionBytes, artifactBytes,
      Encoding.id, Encoding.blob, idBytes, blobBytes, payload, Declaration.kind]

theorem foldl_variant (variants : List (Variant D)) (e : Encoding) :
    variants.foldl Encoding.variant e = e ++ variants.flatMap variantBytes := by
  induction variants generalizing e with
  | nil => simp
  | cons _ _ ih =>
    rw [List.foldl_cons, ih, Encoding.variant_eq, List.flatMap_cons, append_assoc]

theorem canonicalOf_eq (tenant : D.TenantId) (resource label : Id) (kind : Kind)
    (variants : List (Variant D)) :
    canonicalOf tenant resource label kind variants =
      (asBytes (domain kind) ++ [0]) ++ (D.octets tenant ++ (idBytes resource ++ (idBytes label ++
        ([kind.code] ++ (beBytes32 variants.length ++ variants.flatMap variantBytes))))) := by
  unfold canonicalOf
  rw [foldl_variant]
  simp [Encoding.id, idBytes]

theorem isSelfDelimiting_id : IsSelfDelimiting Set.univ idBytes := by
  have word := isSelfDelimiting_beBytes32.length_prefixed.comap
    (asBytes_injective.comp Id.value_injective)
  apply word.mono
  intro i _
  show (asBytes i.value).length < 2 ^ 32
  have size := i.size_le
  rw [asBytes_length]
  omega

theorem isSelfDelimiting_digest : IsSelfDelimiting Set.univ Digest.bytes := by
  apply IsSelfDelimiting.of_fixed_length 32
  · intro d _
    exact d.length
  · rintro ⟨a, _⟩ _ ⟨b, _⟩ _ h
    cases h
    rfl

theorem isSelfDelimiting_artifact : IsSelfDelimiting Set.univ artifactBytes := by
  have fields : Function.Injective
      (fun a : Artifact => (a.reference, a.length.toNat, a.digest)) := by
    rintro ⟨_, _, _, _⟩ ⟨_, _, _, _⟩ h
    simp_all [UInt64.toNat_inj]
  apply ((isSelfDelimiting_id.pair
    (isSelfDelimiting_beBytes.pair isSelfDelimiting_digest)).comap fields).mono
  intro a _
  exact ⟨trivial, a.length.toNat_lt, trivial⟩

theorem isSelfDelimiting_code {α : Type} {code : α → UInt8} (h : Function.Injective code) :
    IsSelfDelimiting Set.univ (fun a => [code a]) := by
  apply IsSelfDelimiting.of_fixed_length 1
  · intro a _
    rfl
  · intro a _ b _ same
    exact h (List.cons.inj same).1

theorem Platform.code_injective : Function.Injective Platform.code := by
  rintro ⟨⟩ ⟨⟩ h <;> first | rfl | cases h

theorem Architecture.code_injective : Function.Injective Architecture.code := by
  rintro ⟨⟩ ⟨⟩ h <;> first | rfl | cases h

theorem isSelfDelimiting_domain :
    IsSelfDelimiting Set.univ (fun k : Kind => asBytes (domain k) ++ [0]) := by
  have texts : Function.Injective domain := by
    rintro ⟨⟩ ⟨⟩ h <;> first | rfl | (revert h; decide)
  apply ((isSelfDelimiting_terminated (0 : UInt8)).comap (asBytes_injective.comp texts)).mono
  rintro ⟨⟩ _ <;> show (0 : UInt8) ∉ asBytes _ <;> decide

def Short (k : Kind) (d : Declaration D) : Prop := d.kind = k ∧ (payload d).length < 2 ^ 32

theorem blob_peel {a b r s : List UInt8} (ha : a.length < 2 ^ 32) (hb : b.length < 2 ^ 32)
    (h : blobBytes a ++ r = blobBytes b ++ s) : a = b ∧ r = s :=
  isSelfDelimiting_beBytes32.length_prefixed a ha b hb r s h

theorem declaration_peel (lawful : D.Lawful) {k : Kind} {a b : Declaration D} {r s : List UInt8}
    (ha : Short k a) (hb : Short k b) (artifact : a.artifact = b.artifact)
    (h : definitionBytes a ++ r = definitionBytes b ++ s) : a = b ∧ r = s := by
  obtain ⟨rfl, ha⟩ := ha
  obtain ⟨kind, hb⟩ := hb
  have same : definitionBytes a ++ r = definitionBytes b ++ s → a.kind ≠ .configuration →
      payload a = payload b ∧ r = s := by
    intro h other
    rw [definitionBytes, definitionBytes, if_neg other, if_neg (kind ▸ other)] at h
    exact blob_peel ha hb h
  -- the kinds agree, so only the diagonal of the two declarations is left
  cases a <;> cases b <;> cases kind
  case software.software d d' =>
    obtain ⟨bytes, rest⟩ := same h nofun
    exact ⟨congrArg _ (lawful.software_injective bytes), rest⟩
  case script.script _ d _ d' =>
    obtain ⟨bytes, rest⟩ := same h nofun
    exact ⟨congrArg₂ _ artifact (lawful.script_injective bytes), rest⟩
  case nativeCollection.nativeCollection _ d _ d' =>
    obtain ⟨bytes, rest⟩ := same h nofun
    exact ⟨congrArg₂ _ artifact (lawful.native_injective bytes), rest⟩
  case agentCollection.agentCollection _ d _ d' =>
    obtain ⟨bytes, rest⟩ := same h nofun
    exact ⟨congrArg₂ _ artifact (lawful.agent_injective bytes), rest⟩
  case telemetryProfile.telemetryProfile _ d _ d' =>
    obtain ⟨bytes, rest⟩ := same h nofun
    exact ⟨congrArg₂ _ artifact (lawful.telemetry_injective bytes), rest⟩
  case configuration.configuration _ _ =>
    exact ⟨congrArg _ artifact, h⟩

theorem isSelfDelimiting_variant (lawful : D.Lawful) (k : Kind) :
    IsSelfDelimiting {v : Variant D | Short k v.declaration} variantBytes := by
  rintro ⟨p, a, key, d⟩ hv ⟨p', a', key', d'⟩ hv' r s h
  simp only [variantBytes, append_assoc] at h
  obtain ⟨rfl, h₁⟩ := isSelfDelimiting_code Platform.code_injective _ trivial _ trivial _ _ h
  obtain ⟨rfl, h₂⟩ := isSelfDelimiting_code Architecture.code_injective _ trivial _ trivial _ _ h₁
  obtain ⟨rfl, h₃⟩ := isSelfDelimiting_id _ trivial _ trivial _ _ h₂
  obtain ⟨artifact, h₄⟩ := isSelfDelimiting_artifact _ trivial _ trivial _ _ h₃
  obtain ⟨rfl, h₅⟩ := declaration_peel lawful hv hv' artifact h₄
  exact ⟨rfl, h₅⟩

variable {v : Variant D}

theorem payload_length_le {variants : List (Variant D)} (mem : v ∈ variants) :
    (payload v.declaration).length ≤ (variants.flatMap variantBytes).length := by
  have own : (payload v.declaration).length ≤ (variantBytes v).length := by
    obtain ⟨_, _, _, d⟩ := v
    cases d <;>
      simp [variantBytes, definitionBytes, blobBytes, payload, Declaration.kind] <;> omega
  obtain ⟨before, after, rfl⟩ := List.append_of_mem mem
  simp only [flatMap_append, List.flatMap_cons, List.length_append]
  omega

theorem Version.short (v : Version D) : ∀ w ∈ v.variants, Short v.kind w.declaration := by
  intro w hw
  refine ⟨v.kinds w hw, ?_⟩
  have part := payload_length_le hw
  have bounded := v.bounded
  rw [canonicalOf_eq] at bounded
  simp only [List.length_append] at bounded
  omega

theorem Version.canonical_injective (lawful : D.Lawful) {a b : Version D}
    (h : a.canonical = b.canonical) : a = b := by
  have happ : a.canonical ++ [] = b.canonical ++ [] := by rw [h]
  simp only [Version.canonical, canonicalOf_eq] at happ
  rw [append_assoc (asBytes _ ++ [0]), append_assoc (asBytes _ ++ [0])] at happ
  obtain ⟨kind, happ⟩ := isSelfDelimiting_domain _ trivial _ trivial _ _ happ
  simp only [append_assoc] at happ
  have octets : IsSelfDelimiting Set.univ D.octets :=
    .of_fixed_length 16 (fun t _ => lawful.octets_length t) lawful.octets_injective.injOn
  obtain ⟨tenant, happ⟩ := octets _ trivial _ trivial _ _ happ
  obtain ⟨resource, happ⟩ := isSelfDelimiting_id _ trivial _ trivial _ _ happ
  obtain ⟨label, happ⟩ := isSelfDelimiting_id _ trivial _ trivial _ _ happ
  rw [kind] at happ
  have happ := List.append_cancel_left happ
  have small : ∀ v : Version D, v.variants.length < 2 ^ 32 := by
    intro v
    have size := v.size.2
    omega
  obtain ⟨variants, -⟩ := isSelfDelimiting_beBytes32.counted (isSelfDelimiting_variant lawful b.kind)
    _ ⟨small a, kind ▸ a.short⟩ _ ⟨small b, b.short⟩ _ _ happ
  have digest : a.digest = b.digest := by
    rw [a.digest_eq, b.digest_eq, tenant, resource, label, kind, variants]
  cases a
  simp_all

/-- What a variant adds to the totals of the loop. -/
def Variant.definitionLength (v : Variant D) : Nat :=
  match v.declaration with
  | .software d => (D.softwareCanonical d).length
  | _ => 0

def Variant.artifactFacts (v : Variant D) : List (UInt64 × Digest) :=
  match v.declaration with
  | .software d => (D.artifacts d).map (fun a => (a.length, a.sha256))
  | _ => []

def SoftwareDependency.entry (d : SoftwareDependency) : (String ×ₗ String) × Digest :=
  (toLex (d.resource, d.version), d.sha256)

def Variant.dependencyEntries (v : Variant D) : List ((String ×ₗ String) × Digest) :=
  match v.declaration with
  | .software d => (D.dependencies d).map SoftwareDependency.entry
  | _ => []

def Admitted (resource : Id) (variants : List (Variant D)) (v : Variant D) : Prop :=
  match v.declaration with
  | .software d => D.softwareTarget d v.platform v.architecture = .ok () ∧
      ∀ e ∈ D.dependencies d, e.resource ≠ resource.value
  | .telemetryProfile artifact d => admitTelemetry resource v artifact d = .ok ()
  | .script _ d => D.scriptPlatform d v.platform = .ok ()
  | .agentCollection artifact d => admitAgent v artifact d = .ok ()
  | .nativeCollection artifact d => admitNative variants v artifact d = .ok ()
  | .configuration _ => True

structure Within (variants : List (Variant D)) : Prop where
  bytes : (variants.map Variant.definitionLength).sum ≤ 8 * 1024 * 1024
  artifacts : (variants.flatMap Variant.artifactFacts).toFinset.card ≤ 128
  agree : OrdMap.Agree (variants.flatMap Variant.dependencyEntries)
  dependencies : ((variants.flatMap Variant.dependencyEntries).map Prod.fst).toFinset.card ≤ 32

theorem Within.perm {l l' : List (Variant D)} (perm : l.Perm l') (h : Within l) : Within l' := by
  have entries := perm.flatMap_right Variant.dependencyEntries
  have facts := perm.flatMap_right Variant.artifactFacts
  constructor
  · rw [← (perm.map Variant.definitionLength).sum_eq]
    exact h.bytes
  · rw [← List.toFinset_eq_of_perm _ _ facts]
    exact h.artifacts
  · intro a ha b hb
    exact h.agree a (entries.mem_iff.mpr ha) b (entries.mem_iff.mpr hb)
  · rw [← List.toFinset_eq_of_perm _ _ (entries.map Prod.fst)]
    exact h.dependencies

theorem Within.of_append {l l' : List (Variant D)} (h : Within (l ++ l')) : Within l := by
  have bytes := h.bytes
  have artifacts := h.artifacts
  have dependencies := h.dependencies
  simp only [List.map_append, List.sum_append] at bytes
  simp only [flatMap_append, List.toFinset_append] at artifacts
  simp only [flatMap_append, List.map_append, List.toFinset_append] at dependencies
  constructor
  · omega
  · exact (Finset.card_le_card Finset.subset_union_left).trans artifacts
  · intro a ha b hb
    apply h.agree <;> simp only [flatMap_append] <;> apply List.mem_append_left <;> assumption
  · exact (Finset.card_le_card Finset.subset_union_left).trans dependencies

theorem foldlM_addDependency (ds : List SoftwareDependency) {m : OrdMap (String ×ₗ String) Digest}
    {entries : List ((String ×ₗ String) × Digest)} (h : m.Holds entries) :
    (∀ m', ds.foldlM addDependency m = .ok m' →
      m'.Holds (entries ++ ds.map SoftwareDependency.entry)) ∧
    (OrdMap.Agree (entries ++ ds.map SoftwareDependency.entry) →
      ∃ m', ds.foldlM addDependency m = .ok m') := by
  have step : ∀ (m : OrdMap (String ×ₗ String) Digest) (d : SoftwareDependency) m',
      addDependency m d = .ok m' ↔ True ∧ m.insertSame d.entry.1 d.entry.2 = some m' := by
    intro m d m'
    unfold addDependency SoftwareDependency.entry
    cases m.insertSame (toLex (d.resource, d.version)) d.sha256 with
    | none | some => simp
  obtain ⟨holds, succeeds⟩ := OrdMap.Holds.foldlM step ds h
  exact ⟨fun m' ok => (holds m' ok).2, succeeds (fun _ _ => trivial)⟩

theorem foldl_artifacts (as : List SoftwareArtifact) (seen : Finset (UInt64 × Digest)) :
    as.foldl (fun s a => insert (a.length, a.sha256) s) seen =
      seen ∪ (as.map (fun a => (a.length, a.sha256))).toFinset := by
  induction as generalizing seen with
  | nil => simp
  | cons _ _ ih =>
    rw [List.foldl_cons, ih, List.map_cons, List.toFinset_cons]
    ext x
    simp only [Finset.mem_union, Finset.mem_insert]
    tauto

structure Gathered (t : Totals) (seen : List (Variant D)) : Prop where
  bytes : t.definitionBytes = (seen.map Variant.definitionLength).sum
  artifacts : t.artifacts = (seen.flatMap Variant.artifactFacts).toFinset
  dependencies : t.dependencies.Holds (seen.flatMap Variant.dependencyEntries)

theorem gathered_zero : Gathered Totals.zero ([] : List (Variant D)) := by
  constructor
  · rfl
  · rfl
  · exact OrdMap.holds_empty

theorem within_nil : Within ([] : List (Variant D)) := by
  constructor
  · simp
  · simp
  · intro a ha
    cases ha
  · simp

theorem Gathered.plain {t : Totals} {seen : List (Variant D)} (h : Gathered t seen)
    (within : Within seen) (bytes : v.definitionLength = 0) (facts : v.artifactFacts = [])
    (entries : v.dependencyEntries = []) : Gathered t (seen ++ [v]) ∧ Within (seen ++ [v]) := by
  have sum : ((seen ++ [v]).map Variant.definitionLength).sum =
      (seen.map Variant.definitionLength).sum := by simp [bytes]
  have artifacts : (seen ++ [v]).flatMap Variant.artifactFacts =
      seen.flatMap Variant.artifactFacts := by simp [facts]
  have dependencies : (seen ++ [v]).flatMap Variant.dependencyEntries =
      seen.flatMap Variant.dependencyEntries := by simp [entries]
  constructor
  · exact ⟨sum ▸ h.bytes, artifacts ▸ h.artifacts, dependencies ▸ h.dependencies⟩
  · exact ⟨sum ▸ within.bytes, artifacts ▸ within.artifacts, dependencies ▸ within.agree,
      dependencies ▸ within.dependencies⟩

variable {resource : Id}

theorem admitSoftware_spec {variants : List (Variant D)} {t : Totals} {seen : List (Variant D)}
    (h : Gathered t seen) {d : D.SoftwareDefinition} (hd : v.declaration = .software d) :
    (∀ t', admitSoftware resource t v d = .ok t' → Admitted resource variants v ∧
      Gathered t' (seen ++ [v]) ∧ Within (seen ++ [v])) ∧
    (Admitted resource variants v ∧ Within (seen ++ [v]) →
      ∃ t', admitSoftware resource t v d = .ok t') := by
  have length : v.definitionLength = (D.softwareCanonical d).length := by
    simp [Variant.definitionLength, hd]
  have facts : v.artifactFacts = (D.artifacts d).map (fun a => (a.length, a.sha256)) := by
    simp [Variant.artifactFacts, hd]
  have entries : v.dependencyEntries = (D.dependencies d).map SoftwareDependency.entry := by
    simp [Variant.dependencyEntries, hd]
  have admitted : Admitted resource variants v ↔ D.softwareTarget d v.platform v.architecture =
      .ok () ∧ ∀ e ∈ D.dependencies d, e.resource ≠ resource.value := by
    simp [Admitted, hd]
  have sum : ((seen ++ [v]).map Variant.definitionLength).sum =
      t.definitionBytes + (D.softwareCanonical d).length := by
    simp [h.bytes, length]
  have artifacts : ((seen ++ [v]).flatMap Variant.artifactFacts).toFinset =
      (D.artifacts d).foldl (fun s a => insert (a.length, a.sha256) s) t.artifacts := by
    rw [foldl_artifacts, h.artifacts]
    simp [facts]
  have dependencies : (seen ++ [v]).flatMap Variant.dependencyEntries =
      seen.flatMap Variant.dependencyEntries ++
        (D.dependencies d).map SoftwareDependency.entry := by
    simp [entries]
  obtain ⟨holds, succeeds⟩ := foldlM_addDependency (D.dependencies d) h.dependencies
  rw [← dependencies] at holds succeeds
  unfold admitSoftware
  rw [← artifacts]
  constructor
  · intro t' ok
    obtain ⟨target, ok⟩ := of_check ok
    obtain ⟨bytes, added, ok⟩ := of_bind ok
    obtain ⟨m, folded, ok⟩ := of_bind ok
    obtain ⟨bounds, ok⟩ := of_guard ok
    obtain ⟨other, ok⟩ := of_guard ok
    have total : bytes = ((seen ++ [v]).map Variant.definitionLength).sum := by
      unfold checkedAdd at added
      split at added
      · rw [sum, Except.ok.inj added]
      · cases added
    cases Except.ok.inj ok
    simp only [not_or, Nat.not_lt] at bounds
    refine ⟨admitted.mpr ⟨target, by simpa using other⟩, ⟨total, rfl, holds m folded⟩, ?_⟩
    exact ⟨total ▸ bounds.1, bounds.2.1, (holds m folded).agree,
      (holds m folded).size ▸ bounds.2.2⟩
  · rintro ⟨passed, within⟩
    obtain ⟨target, other⟩ := admitted.mp passed
    obtain ⟨m, folded⟩ := succeeds within.agree
    have bytes := sum ▸ within.bytes
    have added : checkedAdd t.definitionBytes (D.softwareCanonical d).length =
        .ok (t.definitionBytes + (D.softwareCanonical d).length) := by
      unfold checkedAdd
      exact if_pos (by omega)
    have size := (holds m folded).size ▸ within.dependencies
    have bounds : ¬(t.definitionBytes + (D.softwareCanonical d).length > 8 * 1024 * 1024 ∨
        ((seen ++ [v]).flatMap Variant.artifactFacts).toFinset.card > 128 ∨ m.size > 32) := by
      have card := within.artifacts
      omega
    have foreign : ¬(D.dependencies d).any (fun d => d.resource == resource.value) = true := by
      simpa using other
    rw [target, ok_bind, added, ok_bind, folded, ok_bind, if_neg bounds, if_neg foreign]
    exact ⟨_, rfl⟩

theorem check_map_eq_ok {α : Type} {x : Except Error Unit} {a b : α} :
    x.map (fun _ => a) = .ok b ↔ x = .ok () ∧ b = a := by
  cases x with
  | error => simp [Except.map]
  | ok => simp [Except.map, eq_comm]

theorem admitVariant_spec {variants : List (Variant D)} {t : Totals} {seen : List (Variant D)}
    (h : Gathered t seen) (within : Within seen) (v : Variant D) :
    (∀ t', admitVariant resource variants t v = .ok t' → Admitted resource variants v ∧
      Gathered t' (seen ++ [v]) ∧ Within (seen ++ [v])) ∧
    (Admitted resource variants v ∧ Within (seen ++ [v]) →
      ∃ t', admitVariant resource variants t v = .ok t') := by
  by_cases software : ∃ d, v.declaration = .software d
  · obtain ⟨d, hd⟩ := software
    have run : admitVariant resource variants t v = admitSoftware resource t v d := by
      simp [admitVariant, hd]
    rw [run]
    exact admitSoftware_spec h hd
  · have plain : Gathered t (seen ++ [v]) ∧ Within (seen ++ [v]) := by
      apply h.plain within
      · unfold Variant.definitionLength
        split
        · exact absurd ⟨_, ‹_›⟩ software
        · rfl
      · unfold Variant.artifactFacts
        split
        · exact absurd ⟨_, ‹_›⟩ software
        · rfl
      · unfold Variant.dependencyEntries
        split
        · exact absurd ⟨_, ‹_›⟩ software
        · rfl
    have same : ∀ t', admitVariant resource variants t v = .ok t' ↔
        Admitted resource variants v ∧ t' = t := by
      intro t'
      unfold admitVariant Admitted
      cases hd : v.declaration with
      | software d => exact absurd ⟨d, hd⟩ software
      | configuration => simp [eq_comm]
      | _ => exact check_map_eq_ok
    constructor
    · intro t' ok
      obtain ⟨passed, rfl⟩ := (same t').mp ok
      exact ⟨passed, plain⟩
    · rintro ⟨passed, -⟩
      exact ⟨t, (same t).mpr ⟨passed, rfl⟩⟩

/-- The loop passes exactly when every variant passes on its own and their closures together stay
within the limits. -/
theorem foldlM_admitVariant {variants : List (Variant D)} (l : List (Variant D)) {t : Totals}
    {seen : List (Variant D)} (h : Gathered t seen) (within : Within seen) :
    (∃ t', l.foldlM (admitVariant resource variants) t = .ok t') ↔
      (∀ v ∈ l, Admitted resource variants v) ∧ Within (seen ++ l) := by
  induction l generalizing t seen with
  | nil =>
    constructor
    · intro _
      exact ⟨by simp, by simpa using within⟩
    · intro _
      exact ⟨t, rfl⟩
  | cons v l ih =>
    obtain ⟨sound, complete⟩ := @admitVariant_spec D resource variants t seen h within v
    have split : seen ++ v :: l = (seen ++ [v]) ++ l := by simp
    rw [split]
    constructor
    · rintro ⟨t', ok⟩
      obtain ⟨t₁, first, later⟩ := of_bind ok
      obtain ⟨passed, gathered, within₁⟩ := sound t₁ first
      obtain ⟨others, total⟩ := (ih gathered within₁).mp ⟨t', later⟩
      refine ⟨?_, total⟩
      intro w hw
      rcases List.mem_cons.mp hw with rfl | hw
      · exact passed
      · exact others w hw
    · rintro ⟨passed, total⟩
      have within₁ := total.of_append
      obtain ⟨t₁, first⟩ := complete ⟨passed v (.head _), within₁⟩
      obtain ⟨-, gathered, -⟩ := sound t₁ first
      obtain ⟨t', later⟩ := (ih gathered within₁).mpr
        ⟨fun w hw => passed w (.tail _ hw), total⟩
      exact ⟨t', by rw [List.foldlM_cons, first, ok_bind, later]⟩

variable {variants' : List (Variant D)}

theorem Admitted.of_perm {variants : List (Variant D)} (perm : variants.Perm variants')
    (h : Admitted resource variants v) : Admitted resource variants' v := by
  have same : ∀ artifact d, admitNative variants v artifact d = admitNative variants' v artifact d := by
    intro artifact d
    unfold admitNative
    rw [perm.any_eq]
  unfold Admitted at h ⊢
  split at h
  case h_5 => exact same _ _ ▸ h
  all_goals exact h

theorem foldlM_admitVariant_perm {variants : List (Variant D)} (perm : variants.Perm variants')
    (h : ∃ t, variants.foldlM (admitVariant resource variants) Totals.zero = .ok t) :
    ∃ t, variants'.foldlM (admitVariant resource variants') Totals.zero = .ok t := by
  obtain ⟨admitted, within⟩ := (foldlM_admitVariant variants gathered_zero within_nil).mp h
  apply (foldlM_admitVariant variants' gathered_zero within_nil).mpr
  constructor
  · intro v hv
    exact (admitted v (perm.mem_iff.mpr hv)).of_perm perm
  · exact within.perm perm

theorem Version.new_of_perm {tenant : D.TenantId} {label : Id} {kind : Kind}
    {variants : List (Variant D)} (perm : variants.Perm variants') {v : Version D}
    (h : Version.new tenant resource label kind variants = .ok v) :
    Version.new tenant resource label kind variants' = .ok v := by
  unfold Version.new at h ⊢
  split at h
  case isFalse => cases h
  rename_i size
  split at h
  case isFalse => cases h
  rename_i kinds
  have size' : variants' ≠ [] ∧ variants'.length ≤ 64 := by
    rw [Ne, ← List.length_eq_zero_iff, ← perm.length_eq, List.length_eq_zero_iff]
    exact size
  have kinds' : ∀ v ∈ variants', v.declaration.kind = kind :=
    fun v hv => kinds v (perm.mem_iff.mpr hv)
  rw [dif_pos size', dif_pos kinds']
  cases gathered : variants.foldlM (admitVariant resource variants) Totals.zero with
  | error =>
    rw [gathered] at h
    cases h
  | ok t =>
    obtain ⟨t', gathered'⟩ := foldlM_admitVariant_perm perm ⟨t, gathered⟩
    rw [gathered] at h
    rw [gathered']
    obtain ⟨-, sorted⟩ := sort_perm Variant.order perm
    by_cases apart : adjacentEqual Variant.order
        (variants.insertionSort (fun a b => a.order ≤ b.order)) = false
    · simp only [dif_pos apart] at h
      simp only [← sorted apart, dif_pos apart]
      exact h
    · simp only [dif_neg apart] at h
      cases h

theorem Variant.order_inj {w : Variant D} : v.order = w.order ↔
    v.platform = w.platform ∧ v.architecture = w.architecture ∧ v.key = w.key := by
  simp [Variant.order]

theorem Version.resolve_eq_ok {v : Version D} {platform : Platform} {architecture : Architecture}
    {key : Id} {w : Variant D} : v.resolve platform architecture key = .ok w ↔
      w ∈ v.variants ∧ w.platform = platform ∧ w.architecture = architecture ∧ w.key = key := by
  unfold Version.resolve
  constructor
  · intro h
    split at h
    · rename_i found
      cases Except.ok.inj h
      refine ⟨List.mem_of_find?_eq_some found, ?_⟩
      simpa [and_assoc] using List.find?_some found
    · cases h
  · rintro ⟨member, hp, ha, hk⟩
    cases found : v.variants.find? (fun w => w.platform = platform &&
        w.architecture = architecture && w.key = key) with
    | none =>
      have missing := List.find?_eq_none.mp found w member
      simp [hp, ha, hk] at missing
    | some w' =>
      have coordinates := List.find?_some found
      have member' := List.mem_of_find?_eq_some found
      have same : w'.order = w.order := by
        rw [Variant.order_inj, hp, ha, hk]
        simpa [and_assoc] using coordinates
      -- the variants are in strict order, so equal coordinates are one variant
      have unique : (v.variants.map Variant.order).Nodup :=
        (List.pairwise_map.mpr v.sorted).imp ne_of_lt
      rw [List.inj_on_of_nodup_map unique member' member same]

/-- Canonical bytes determine a version of any kind, the supplied order of its variants does not
matter, and selection returns the one variant with the requested coordinates. -/
theorem version_identifies_content (lawful : D.Lawful) :
    (∀ a b : Version D, a.canonical = b.canonical → a.tenant = b.tenant ∧ a.resource = b.resource ∧
      a.label = b.label ∧ a.kind = b.kind ∧ a.variants = b.variants ∧ a = b) ∧
    (∀ (tenant : D.TenantId) (resource label : Id) (kind : Kind)
      (variants variants' : List (Variant D)), variants.Perm variants' →
      (∃ v, Version.new tenant resource label kind variants = .ok v ∧
        Version.new tenant resource label kind variants' = .ok v) ∨
      (∃ e e', Version.new tenant resource label kind variants = .error e ∧
        Version.new tenant resource label kind variants' = .error e')) ∧
    ∀ (v : Version D) (platform : Platform) (architecture : Architecture) (key : Id),
      (∃ w ∈ v.variants, v.resolve platform architecture key = .ok w ∧
        (w.platform = platform ∧ w.architecture = architecture ∧ w.key = key) ∧
        ∀ other ∈ v.variants, other.platform = platform ∧ other.architecture = architecture ∧
          other.key = key → other = w) ∨
      (v.resolve platform architecture key = .error .missingVariant ∧
        ∀ other ∈ v.variants, ¬(other.platform = platform ∧ other.architecture = architecture ∧
          other.key = key)) := by
  refine ⟨?_, ?_, ?_⟩
  · intro a b h
    cases Version.canonical_injective lawful h
    exact ⟨rfl, rfl, rfl, rfl, rfl, rfl⟩
  · intro tenant resource label kind variants variants' perm
    cases first : Version.new tenant resource label kind variants with
    | ok v => exact .inl ⟨v, rfl, Version.new_of_perm perm first⟩
    | error e =>
      cases second : Version.new tenant resource label kind variants' with
      | ok => cases first.symm.trans (Version.new_of_perm perm.symm second)
      | error e' => exact .inr ⟨e, e', rfl, rfl⟩
  · intro v platform architecture key
    cases found : v.resolve platform architecture key with
    | ok w =>
      obtain ⟨member, coordinates⟩ := Version.resolve_eq_ok.mp found
      refine .inl ⟨w, member, rfl, coordinates, ?_⟩
      intro other member' coordinates'
      have again := Version.resolve_eq_ok.mpr ⟨member', coordinates'⟩
      exact Except.ok.inj (again.symm.trans found)
    | error e =>
      have missing : e = .missingVariant := by
        unfold Version.resolve at found
        split at found
        · cases found
        · exact (Except.error.inj found).symm
      refine .inr ⟨by rw [missing], ?_⟩
      intro other member coordinates
      cases (Version.resolve_eq_ok.mpr ⟨member, coordinates⟩).symm.trans found

/-- Two parameterless script interfaces. -/
inductive SampleScript where
  | powerShell7
  | posixSh
deriving DecidableEq

def SampleScript.profile : SampleScript → String
  | .powerShell7 => "power_shell7"
  | .posixSh => "posix_sh"

def SampleScript.canonical (s : SampleScript) : List UInt8 :=
  asBytes ("\x7b\"profile\":\"" ++ s.profile ++ "\",\"sql\":null,\"runAs\":\"system\"," ++
    "\"encoding\":\"utf8\",\"parameters\":\x7b\"additionalProperties\":false,\"properties\":" ++
    "\x7b\x7d,\"required\":[],\"type\":\"object\"\x7d,\"bindings\":\x7b\x7d,\"output\":\x7b" ++
    "\"type\":\"object\"\x7d,\"purpose\":\x7b\"kind\":\"action\"\x7d,\"timeoutSeconds\":60," ++
    "\"outputBytes\":1024,\"maxRows\":1\x7d")

def SampleScript.validatePlatform : SampleScript → Platform → Except Error Unit
  | .powerShell7, .windows => .ok ()
  | .posixSh, .macOS => .ok ()
  | _, _ => .error .invalidInput

def sample : Definitions where
  TenantId := Unit
  SoftwareDefinition := Empty
  ScriptDefinition := SampleScript
  NativeCollectionDefinition := Empty
  AgentCollectionDefinition := Empty
  TelemetryProfile := Empty
  octets _ := List.replicate 16 7
  softwareCanonical := nofun
  scriptCanonical := SampleScript.canonical
  nativeCanonical := nofun
  agentCanonical := nofun
  telemetryCanonical := nofun
  primary := nofun
  artifacts := nofun
  dependencies := nofun
  templateResource := nofun
  softwareTarget := nofun
  telemetryTarget := nofun
  scriptPlatform := SampleScript.validatePlatform
  nativePlatform := nofun
  agentPlatform := nofun

theorem sample_lawful : sample.Lawful where
  octets_length _ := List.length_replicate
  octets_injective _ _ _ := rfl
  software_injective := nofun
  script_injective := by
    have distinct : SampleScript.canonical .powerShell7 ≠ SampleScript.canonical .posixSh := by
      decide
    rintro ⟨⟩ ⟨⟩ h
    · rfl
    · exact absurd h distinct
    · exact absurd h.symm distinct
    · rfl
  native_injective := nofun
  agent_injective := nofun
  telemetry_injective := nofun

def sampleId (value : String) (h : validId value = true) : Id := ⟨value, h⟩

def sampleArtifact : Artifact :=
  ⟨sampleId "script/main" (by decide), 12, Digest.of [], by decide⟩

def sampleVariant (platform : Platform) (script : SampleScript) : Variant sample :=
  ⟨platform, .x86_64, sampleId "default" (by decide), .script sampleArtifact script⟩

def sampleNew (variants : List (Variant sample)) : Except Error (Version sample) :=
  Version.new (D := sample) () (sampleId "tools/report" (by decide))
    (sampleId "1.0" (by decide)) .script variants

theorem version_identifies_content_sample :
    sample.Lawful ∧ ∃ v, sampleNew [sampleVariant .macOS .posixSh,
        sampleVariant .windows .powerShell7] = .ok v ∧
      sampleNew [sampleVariant .windows .powerShell7, sampleVariant .macOS .posixSh] = .ok v := by
  refine ⟨sample_lawful, ?_⟩
  rcases (version_identifies_content sample_lawful).2.1 () (sampleId "tools/report" (by decide))
    (sampleId "1.0" (by decide)) .script _ _ (List.Perm.swap
      (sampleVariant .windows .powerShell7) (sampleVariant .macOS .posixSh) []) with both | neither
  · exact both
  obtain ⟨e, -, failed, -⟩ := neither
  have accepted : (sampleNew [sampleVariant .macOS .posixSh,
      sampleVariant .windows .powerShell7]).toOption.isSome = true := by
    set_option maxRecDepth 4000 in
    decide
  rw [sampleNew, failed] at accepted
  cases accepted

end RssMdm.Resource
