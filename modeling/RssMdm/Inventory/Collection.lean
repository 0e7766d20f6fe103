/- module: Inventory/Collection
   source: crates/inventory/src/collection.rs, crates/inventory/src/collection_scope.rs,
     crates/inventory/src/collected.rs
   digest: Asset namespaces, frozen collection definitions and typed observation values. -/

import RssMdm.Inventory.Catalog
import RssMdm.Lib.Sha256

set_option autoImplicit false

namespace RssMdm.Inventory

open Lib Lib.Fallible Lib.KeySort
open Lib.Text (Uuid canonicalDecimal hexByte isControl splitAt startsWith)

section

inductive ApplicationRoot where
  | «local»
  | system
  | user
deriving DecidableEq, Repr

inductive BrewPackage where
  | formula
  | cask
deriving DecidableEq, Repr

/-- Stable platform account coordinates. -/
inductive LocalAccountIdentity where
  | windows (sid : String)
  | macos (uid : UInt32) (generatedUid : String)
deriving DecidableEq

/-- Exact namespace of one field. -/
inductive CollectionScope where
  | nativeCertificates (platform : Platform) (owner : Option LocalAccountIdentity) (store : String)
  | nativeAccounts (platform : Platform) (identities : OrdSet String)
  | nativeApplication (platform : Platform) (identity : String) (owner : Option LocalAccountIdentity)
  | nativeUser (owner : LocalAccountIdentity)
  | device
  | appleUser (identity : String)
  | macosApplications (root : ApplicationRoot) (uid : Option UInt32)
  | macosBrew (uid : UInt32) (directory : String) (package : BrewPackage) (taps : OrdSet String)
deriving DecidableEq

variable [Environment]

/-- A canonical UUID other than the nil one. -/
def properUuid (s : String) : Bool :=
  (Environment.parseUuid s).any (fun id => id ≠ 0 && Uuid.text id = s)

namespace LocalAccountIdentity

def validate : LocalAccountIdentity → Bool
  | .windows sid =>
      sid.utf8ByteSize ≤ 184 && startsWith sid "S-1-" && 2 ≤ ((splitAt sid '-').drop 2).length &&
        ((splitAt sid '-').drop 2).all (fun s => (canonicalDecimal (2 ^ 64) s).isSome)
  | .macos uid generatedUid => 0 < uid.toNat && properUuid generatedUid

def platform : LocalAccountIdentity → Platform
  | .windows _ => .windows
  | .macos _ _ => .macos

end LocalAccountIdentity

def ownerFits (platform : Platform) (owner : Option LocalAccountIdentity) : Bool :=
  owner.all (fun o => o.validate && o.platform = platform)

def stores : Platform → List String
  | .windows => ["my", "root", "ca", "trusted_publisher"]
  | .macos => ["system", "system_roots", "login"]

/-- The textual form of a nonzero lower-case UUID. -/
def appleIdentity (identity : String) : Bool :=
  identity.utf8ByteSize = 36 &&
    identity.toList.zipIdx.all (fun p =>
      if p.2 ∈ [8, 13, 18, 23] then p.1 = '-' else p.1.isDigit || ('a' ≤ p.1 && p.1 ≤ 'f')) &&
    identity ≠ "00000000-0000-0000-0000-000000000000"

def properPart (p : String) : Bool := !p.isEmpty && p ≠ "." && p ≠ ".."

def tapPart (p : String) : Bool :=
  properPart p && p.toList.all (fun c => ('a' ≤ c && c ≤ 'z') || c.isDigit || c = '.' || c = '_' || c = '-')

namespace CollectionScope

/-- The namespace is well formed. -/
def executable : CollectionScope → Bool
  | .nativeCertificates platform owner store =>
      (stores platform).contains store && ownerFits platform owner &&
        (platform ≠ .macos || decide (store = "login") = owner.isSome)
  | .nativeAccounts platform identities =>
      identities.size ≤ 256 && identities.keys.all (fun s =>
        match platform with
        | .windows => (LocalAccountIdentity.windows s).validate
        | .macos => properUuid s)
  | .nativeApplication platform identity owner =>
      !identity.isEmpty && identity.utf8ByteSize ≤ 4096 && !identity.toList.any isControl &&
        ownerFits platform owner
  | .nativeUser owner => owner.validate
  | .device => true
  | .appleUser identity => appleIdentity identity
  | .macosApplications .user (some uid) => 0 < uid.toNat
  | .macosApplications .local none => true
  | .macosApplications .system none => true
  | .macosApplications _ _ => false
  | .macosBrew uid directory _ taps =>
      0 < uid.toNat && directory.utf8ByteSize ≤ 4096 && startsWith directory "/" &&
        !directory.toList.any isControl &&
        (splitAt (String.ofList (directory.toList.drop 1)) '/').all properPart && taps.size ≤ 64 &&
        taps.keys.all (fun tap => tap.utf8ByteSize ≤ 255 && (splitAt tap '/').length = 2 &&
          (splitAt tap '/').all tapPart)

def validateExecutable (scope : CollectionScope) : Except Invalid Unit :=
  if scope.executable then .ok () else .error .value

/-- The producer may assert the namespace. -/
def asserts : CollectionScope → Source → Bool
  | .device, source => source ≠ .manual
  | .appleUser _, source => source = .mdmApple
  | _, source => source = .agentNative

def validateSource (scope : CollectionScope) (source : Source) : Except Invalid Unit := do
  scope.validateExecutable
  if scope.asserts source then .ok () else .error .sourceNotAllowed

end CollectionScope

end

section

structure CollectionField where
  definition : FieldDefinition
  scope : CollectionScope

def CollectionField.key (f : CollectionField) : FieldKey := f.definition.key

structure Definition where
  dataset : String
  version : String
  source : Source
  fields : List CollectionField

variable [Environment]

def Definition.new (dataset version : String) (source : Source) (fields : List CollectionField) :
    Except Invalid Definition :=
  if !Environment.observationId dataset then .error .value
  else if !Environment.observationId version then .error .value
  else if dataset.utf8ByteSize > 128 ∨ version.utf8ByteSize > 128 ∨ source = .manual ∨
      fields.isEmpty ∨ fields.length > 128 then .error .value
  else do
    let _ ← Catalog.new (fields.map CollectionField.definition)
    each (fun f => f.scope.validateSource source) fields
    if fields.any (fun f => !f.definition.sources.contains source ||
        f.definition.sensitivity = .secret) then .error .sourceNotAllowed
    else .ok { dataset, version, source
               fields := fields.insertionSort (fun a b => a.key ≤ b.key) }

structure CollectionDefinition extends Definition where
  built : ∃ supplied, Definition.new dataset version source supplied = .ok toDefinition

theorem Definition.new_eq_ok {dataset version : String} {source : Source}
    {fields : List CollectionField} {d : Definition}
    (h : Definition.new dataset version source fields = .ok d) :
    (∃ catalog, Catalog.new (fields.map CollectionField.definition) = .ok catalog) ∧
      d = { dataset, version, source, fields := fields.insertionSort (fun a b => a.key ≤ b.key) } := by
  obtain ⟨-, h⟩ := of_guard h
  obtain ⟨-, h⟩ := of_guard h
  obtain ⟨-, h⟩ := of_guard h
  obtain ⟨catalog, admitted, h⟩ := of_bind h
  obtain ⟨-, h⟩ := of_check h
  obtain ⟨-, h⟩ := of_guard h
  exact ⟨⟨catalog, admitted⟩, (Except.ok.inj h).symm⟩

namespace CollectionDefinition

/-- Resolve a field within the frozen coverage. -/
def field (d : CollectionDefinition) (key : FieldKey) : Except Invalid FieldDefinition :=
  match d.fields.find? (fun f => f.key = key) with
  | some f => .ok f.definition
  | none => .error .unknownField

theorem register_fresh (definitions : List FieldDefinition)
    {fields fields' : OrdMap FieldKey FieldDefinition}
    (h : definitions.foldlM register fields = .ok fields') :
    (definitions.map FieldDefinition.key).Nodup ∧
      ∀ d ∈ definitions, d.key ∉ fields.keys := by
  induction definitions generalizing fields with
  | nil => simp
  | cons d _ ih =>
    rw [List.foldlM_cons] at h
    obtain ⟨fields₁, first, later⟩ := of_bind h
    obtain ⟨-, first⟩ := of_check first
    obtain ⟨fresh, first⟩ := of_guard first
    cases first
    obtain ⟨nodup, apart⟩ := ih later
    have inserted : ∀ k, k ∈ (fields.insert d.key d).keys ↔ k = d.key ∨ k ∈ fields.keys := by
      intro k
      rw [OrdMap.mem_keys, OrdMap.mem_keys, OrdMap.get?_insert]
      by_cases same : k = d.key <;> simp [same, eq_comm]
    have unregistered : d.key ∉ fields.keys := by
      intro mem
      obtain ⟨v, found⟩ := OrdMap.mem_keys.mp mem
      simp [OrdMap.contains, found] at fresh
    refine ⟨?_, ?_⟩
    · refine List.nodup_cons.mpr ⟨?_, nodup⟩
      intro mem
      obtain ⟨d', mem, same⟩ := List.mem_map.mp mem
      exact apart d' mem ((inserted d'.key).mpr (.inl same))
    · intro d' mem
      rcases List.mem_cons.mp mem with rfl | mem
      · exact unregistered
      · exact fun old => apart d' mem ((inserted d'.key).mpr (.inr old))

theorem nodup_keys (d : CollectionDefinition) : (d.fields.map CollectionField.key).Nodup := by
  obtain ⟨supplied, built⟩ := d.built
  obtain ⟨⟨catalog, admitted⟩, sorted_eq⟩ := Definition.new_eq_ok built
  obtain ⟨-, admitted⟩ := of_guard admitted
  obtain ⟨fields, registered, -⟩ := of_bind admitted
  have distinct := (register_fresh _ registered).1
  rw [List.map_map] at distinct
  have sorted := List.perm_insertionSort (fun a b : CollectionField => a.key ≤ b.key) supplied
  rw [sorted_eq]
  exact (sorted.map CollectionField.key).nodup_iff.mpr distinct

theorem field_of_mem {d : CollectionDefinition} {f : CollectionField} (mem : f ∈ d.fields) :
    d.field f.key = .ok f.definition := by
  unfold field
  cases found : d.fields.find? (fun g => g.key = f.key) with
  | none =>
    have missing := List.find?_eq_none.mp found f mem
    simp at missing
  | some g =>
    have same : g.key = f.key := by simpa using List.find?_some found
    have identical : g = f :=
      List.inj_on_of_nodup_map d.nodup_keys (List.mem_of_find?_eq_some found) mem same
    rw [identical]

theorem mem_of_field {d : CollectionDefinition} {key : FieldKey} {definition : FieldDefinition}
    (h : d.field key = .ok definition) : key ∈ d.fields.map CollectionField.key := by
  unfold field at h
  split at h
  · rename_i f found
    have same : f.key = key := by simpa using List.find?_some found
    exact List.mem_map.mpr ⟨f, List.mem_of_find?_eq_some found, same⟩
  · cases h

end CollectionDefinition

end

variable [Environment]

namespace CollectedValue

def validate (v : CollectedValue) (definition : FieldDefinition) : Except Invalid Unit :=
  match v with
  | .value s => definition.validateScalar s
  | .null => if !definition.nullable then .error .typeMismatch else .ok ()
  | _ => .ok ()

def encode (v : CollectedValue) (definition : FieldDefinition) : Except Invalid (List UInt8) := do
  v.validate definition
  .ok v.toVec

def decode (definition : FieldDefinition) (bytes : List UInt8) : Except Invalid CollectedValue :=
  match Environment.fromSlice bytes with
  | none => .error .encoding
  | some v => do
      v.validate definition
      .ok v

end CollectedValue

def hexDigest (bytes : List UInt8) : String :=
  String.ofList ((Sha256.digest bytes).flatMap (fun b => hexByte true b.toNat))

omit [Environment] in
theorem hexDigest_text (bytes : List UInt8) : (hexDigest bytes).length = 64 ∧
    ∀ c ∈ (hexDigest bytes).toList, c.isDigit || ('a' ≤ c && c ≤ 'f') := by
  have table : ∀ k < 16, ("0123456789abcdef".toList.getD k '0').isDigit ||
      ('a' ≤ "0123456789abcdef".toList.getD k '0' && "0123456789abcdef".toList.getD k '0' ≤ 'f') := by
    decide
  have digits : ∀ n, ∀ c ∈ hexByte true n, c.isDigit || ('a' ≤ c && c ≤ 'f') := by
    intro n c mem
    rcases List.mem_pair.mp mem with rfl | rfl
    · exact table _ (Nat.mod_lt _ (by decide))
    · exact table _ (Nat.mod_lt _ (by decide))
  constructor
  · have pairs : ∀ l : List UInt8, (l.flatMap (fun b => hexByte true b.toNat)).length = 2 * l.length := by
      intro l
      induction l with
      | nil => rfl
      | cons _ _ ih =>
        rw [List.flatMap_cons, List.length_append, ih]
        simp only [hexByte, List.length_cons, List.length_nil]
        omega
    rw [hexDigest, String.length_ofList, pairs, Sha256.digest_length]
  · intro c mem
    rw [hexDigest, String.toList_ofList] at mem
    obtain ⟨b, -, mem⟩ := List.mem_flatMap.mp mem
    exact digits b.toNat c mem

end RssMdm.Inventory
