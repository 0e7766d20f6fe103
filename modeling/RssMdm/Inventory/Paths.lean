/- module: Inventory/Paths
   source: crates/inventory/src/catalog.rs
   digest: Declared paths into the registered fields of a catalog. -/

import RssMdm.Inventory.Catalog
import RssMdm.Lib.Joined

set_option autoImplicit false

namespace RssMdm.Inventory

open Lib Lib.Fallible
open Lib.Text (splitAt startsWith)

inductive Kind where
  | string
  | integer
  | number
  | boolean
  | time
  | array
  | object
deriving DecidableEq, Repr

inductive Operator where
  | eq
  | ne
  | isIn
  | notIn
  | lt
  | le
  | gt
  | ge
  | contains
  | notContains
  | containsAny
  | containsAll
  | isNull
  | isNotNull
deriving DecidableEq, Repr

namespace ValueType

def kind : ValueType → Kind
  | .string _ _ => .string
  | .enum _ => .string
  | .integer => .integer
  | .number => .number
  | .boolean => .boolean
  | .time => .time
  | .array _ _ => .array
  | .object _ => .object
  | .record _ => .object

/-- The items below nested arrays; the flag records that an array was passed. -/
def items (many : Bool) : ValueType → Bool × ValueType
  | .array inner _ => items true inner
  | ty => (many, ty)

/-- Each segment names a declared property of the items reached so far. -/
def descend (many : Bool) (ty : ValueType) : List String → Except Invalid (Bool × ValueType)
  | [] => .ok (ty.items many)
  | part :: rest =>
      match (ty.items many).2.properties.find? (fun p => p.1 = part) with
      | none => .error .unknownField
      | some (_, inner, _) => descend (ty.items many).1 inner rest

end ValueType

structure FieldPath where
  root : FieldDefinition
  valueType : ValueType
  many : Bool
  segments : List String

abbrev Catalog : Type := OrdMap FieldKey FieldDefinition

namespace Catalog

def suffixOf (root key : FieldKey) : Option String :=
  if startsWith key.value (root.value ++ ".") then
    some (String.ofList (key.value.toList.drop (root.value.length + 1)))
  else none

def longest (candidates : List (FieldDefinition × String)) : Option (FieldDefinition × String) :=
  candidates.foldl (fun best candidate =>
    match best with
    | none => some candidate
    | some kept =>
        if kept.1.key.value.utf8ByteSize ≤ candidate.1.key.value.utf8ByteSize then some candidate
        else some kept) none

def rootOf (fields : Catalog) (key : FieldKey) : Option (FieldDefinition × String) :=
  match fields.get? key with
  | some root => some (root, "")
  | none => longest (fields.values.filterMap (fun f => (suffixOf f.key key).map (fun s => (f, s))))

/-- Only paths that a schema declares are resolved. -/
def path (fields : Catalog) (key : FieldKey) : Except Invalid FieldPath :=
  match fields.rootOf key with
  | none => .error .unknownField
  | some (root, suffix) => do
      let segments := if suffix.isEmpty then [] else splitAt suffix '.'
      let (many, valueType) ← root.valueType.descend false segments
      .ok { root, valueType, many, segments }

end Catalog

def keyChar (c : Char) : Bool := ('a' ≤ c && c ≤ 'z') || c.isDigit || c = '_' || c = '.'

theorem keyChar_of_identifier {s : String} (h : identifier s = true) {c : Char}
    (mem : c ∈ s.toList) : keyChar c = true := by
  obtain ⟨-, all⟩ := Bool.and_eq_true_iff.mp h
  have allowed := List.all_eq_true.mp all c mem
  simp only [keyChar]
  rw [allowed, Bool.true_or]

theorem FieldKey.parse_eq_ok {value : String} {key : FieldKey} (h : FieldKey.parse value = .ok key) :
    key.value = value ∧ value.toList ≠ [] ∧ value.utf8ByteSize ≤ 128 ∧
      ∀ c ∈ value.toList, keyChar c = true := by
  unfold FieldKey.parse at h
  split at h
  · cases h
  rename_i first parts divided
  obtain ⟨bounds, h⟩ := of_guard h
  obtain ⟨identifiers, h⟩ := of_guard h
  obtain ⟨-, h⟩ := of_guard h
  cases h
  obtain ⟨short, head⟩ := not_or.mp bounds
  have joined : ['.'].intercalate (value.toList.splitOn '.') = value.toList :=
    List.intercalate_splitOn '.'
  have pieces : ∀ piece ∈ value.toList.splitOn '.', ∀ c ∈ piece, keyChar c = true := by
    intro piece mem c inside
    have part : String.ofList piece ∈ first :: parts := by
      rw [← divided]
      exact List.mem_map_of_mem mem
    have inside' : c ∈ (String.ofList piece).toList := by rwa [String.toList_ofList]
    rcases List.mem_cons.mp part with same | later
    · rw [same] at inside'
      have known : first ∈ ["device", "custom", "channel"] := not_not.mp head
      have words : ["device", "custom", "channel"].all (fun word => word.toList.all keyChar) = true :=
        rfl
      exact List.all_eq_true.mp (List.all_eq_true.mp words first known) c inside'
    · have lower : identifier (String.ofList piece) = true := by
        have all : parts.all identifier = true := by simpa using identifiers
        exact List.all_eq_true.mp all _ later
      exact keyChar_of_identifier lower inside'
  refine ⟨rfl, ?_, Nat.not_lt.mp short, ?_⟩
  · intro nothing
    have single : value.toList.splitOn '.' = [[]] := by rw [nothing]; rfl
    rw [splitAt, single] at divided
    obtain ⟨rfl, -⟩ := List.cons.inj divided
    exact head (by decide)
  · intro c mem
    rw [← joined] at mem
    rcases Lib.Joined.mem_intercalate mem with dot | ⟨piece, among, inside⟩
    · rw [List.mem_singleton.mp dot]
      decide
    · exact pieces piece among c inside

variable [Environment] {definitions : List FieldDefinition}

theorem Catalog.new_key {catalog : Catalog} (h : Catalog.new definitions = .ok catalog)
    {key : FieldKey} {d : FieldDefinition} (found : catalog.get? key = some d) : d.key = key := by
  unfold Catalog.new at h
  split at h
  · cases h
  obtain ⟨fields, registered, h⟩ := of_bind h
  split at h
  · cases h
  cases h
  have kept : ∀ (ds : List FieldDefinition) (fields fields' : Catalog),
      (∀ k e, fields.get? k = some e → e.key = k) →
      ds.foldlM register fields = .ok fields' → ∀ k e, fields'.get? k = some e → e.key = k := by
    intro ds
    induction ds with
    | nil =>
      intro fields fields' own h
      cases h
      exact own
    | cons e ds ih =>
      intro fields fields' own h
      rw [List.foldlM_cons] at h
      obtain ⟨next, first, h⟩ := of_bind h
      obtain ⟨-, first⟩ := of_check first
      obtain ⟨-, first⟩ := of_guard first
      cases first
      refine ih _ _ ?_ h
      intro k e' found
      rw [OrdMap.get?_insert] at found
      split at found
      · rename_i same
        rw [same, Option.some.inj found]
      · exact own k e' found
  exact kept definitions .empty catalog (fun k e absurd => by cases absurd) registered key d found

omit [Environment] in
theorem mem_longest {candidates : List (FieldDefinition × String)} {c : FieldDefinition × String}
    (h : Catalog.longest candidates = some c) : c ∈ candidates := by
  have kept : ∀ (cs : List (FieldDefinition × String)) (best : Option (FieldDefinition × String)),
      cs.foldl (fun best candidate =>
        match best with
        | none => some candidate
        | some kept =>
          if kept.1.key.value.utf8ByteSize ≤ candidate.1.key.value.utf8ByteSize then some candidate
          else some kept) best = some c → best = some c ∨ c ∈ cs := by
    intro cs
    induction cs with
    | nil => exact fun best h => .inl h
    | cons d _ ih =>
      intro best h
      rw [List.foldl_cons] at h
      rcases ih _ h with chosen | later
      · cases best with
        | none => exact .inr (by simp [Option.some.inj chosen])
        | some =>
          simp only at chosen
          split at chosen
          · exact .inr (by simp [Option.some.inj chosen])
          · exact .inl chosen
      · exact .inr (List.mem_cons_of_mem d later)
  rcases kept candidates none h with none | mem
  · cases none
  · exact mem

theorem Catalog.path_root {catalog : Catalog} (registered : Catalog.new definitions = .ok catalog)
    {key : FieldKey} {path : FieldPath} (h : catalog.path key = .ok path) :
    path.root.key = key ∨ startsWith key.value (path.root.key.value ++ ".") = true := by
  unfold Catalog.path at h
  split at h
  · cases h
  rename_i root suffix rooted
  obtain ⟨descended, -, h⟩ := of_bind h
  cases h
  unfold Catalog.rootOf at rooted
  split at rooted
  · rename_i d found
    cases rooted
    exact .inl (Catalog.new_key registered found)
  obtain ⟨d, -, named⟩ := List.mem_filterMap.mp (mem_longest rooted)
  obtain ⟨rest, extending, same⟩ := Option.map_eq_some_iff.mp named
  cases same
  unfold Catalog.suffixOf at extending
  split at extending
  · rename_i starts
    exact .inr starts
  · cases extending

end RssMdm.Inventory
