/- module: Inventory/Evolution
   source: crates/inventory/src/catalog.rs
   digest: Which types a published field version may take on, and that stored values stay valid. -/

import RssMdm.Inventory.Catalog

set_option autoImplicit false

namespace RssMdm.Inventory

open Lib Lib.Fallible
open List (all_cons all_eq_true all_nil mem_cons)
open Bool (and_eq_true)

namespace ValueType

def optionalBeyond (names : List String) (new : List (String × ValueType × Bool)) : Bool :=
  new.all (fun p => names.contains p.1 || !p.2.2)

mutual

/-- The last arms are where the source compares for equality: different variants are never equal. -/
def extendsType : ValueType → ValueType → Bool
  | .enum new, .enum old => old.keys.all new.contains
  | .string new empty, .string old oldEmpty => decide (old.toNat ≤ new.toNat) && (!oldEmpty || empty)
  | .array new count, .array old oldCount => decide (oldCount.toNat ≤ count.toNat) && extendsType new old
  | .object new, .object old => decide (new.length = old.length) && extendsObject new old
  | .record new, .record old => extendsRecord new old && optionalBeyond (old.map Prod.fst) new
  | .record new, .object old => extendsWidened new old && optionalBeyond (old.map Prod.fst) new
  | .integer, .integer => true
  | .number, .number => true
  | .boolean, .boolean => true
  | .time, .time => true
  | _, _ => false
termination_by structural _ old => old

def extendsObject : List (String × ValueType) → List (String × ValueType) → Bool
  | _, [] => true
  | new, (key, ty) :: rest =>
      (match new.lookup key with
        | some v => extendsType v ty
        | none => false) && extendsObject new rest
termination_by structural _ old => old

def extendsRecord : List (String × ValueType × Bool) → List (String × ValueType × Bool) → Bool
  | _, [] => true
  | new, (key, ty, required) :: rest =>
      (match new.lookup key with
        | some v => (!v.2 || required) && extendsType v.1 ty
        | none => false) && extendsRecord new rest
termination_by structural _ old => old

def extendsWidened : List (String × ValueType × Bool) → List (String × ValueType) → Bool
  | _, [] => true
  | new, (key, ty) :: rest =>
      (match new.lookup key with
        | some v => extendsType v.1 ty
        | none => false) && extendsWidened new rest
termination_by structural _ old => old

end

/-- The properties of every level are listed by increasing name, as the maps of the source list them. -/
inductive Ordered : ValueType → Prop where
  | record {properties : List (String × ValueType × Bool)}
      (keys : (properties.map Prod.fst).Pairwise (· < ·))
      (parts : ∀ p ∈ properties, Ordered p.2.1) : Ordered (.record properties)
  | object {properties : List (String × ValueType)}
      (keys : (properties.map Prod.fst).Pairwise (· < ·))
      (parts : ∀ p ∈ properties, Ordered p.2) : Ordered (.object properties)
  | array {items : ValueType} {maxItems : UInt32} (inner : Ordered items) :
      Ordered (.array items maxItems)
  | string (maxLength : UInt32) (allowEmpty : Bool) : Ordered (.string maxLength allowEmpty)
  | enum (values : OrdSet String) : Ordered (.enum values)
  | integer : Ordered .integer
  | number : Ordered .number
  | boolean : Ordered .boolean
  | time : Ordered .time

end ValueType

/-- A type as the code can hold it. -/
structure Schema where
  type : ValueType
  ordered : type.Ordered

section

variable {α : Type} {properties : List (String × α)} {key : String}

theorem mem_names : key ∈ properties.map Prod.fst ↔ ∃ a, (key, a) ∈ properties := by
  rw [List.mem_map]
  constructor
  · rintro ⟨⟨name, a⟩, mem, rfl⟩
    exact ⟨a, mem⟩
  · rintro ⟨a, mem⟩
    exact ⟨(key, a), mem, rfl⟩

theorem lookup_of_mem (distinct : (properties.map Prod.fst).Nodup) {a : α}
    (mem : (key, a) ∈ properties) : properties.lookup key = some a := by
  induction properties with
  | nil => cases mem
  | cons p _ ih =>
    obtain ⟨fresh, distinct⟩ := List.nodup_cons.mp distinct
    rcases mem_cons.mp mem with rfl | inside
    · exact List.lookup_cons_self
    have other : (key == p.1) = false := by
      rw [beq_eq_false_iff_ne]
      rintro rfl
      exact fresh (mem_names.mpr ⟨a, inside⟩)
    rw [List.lookup_cons, other]
    exact ih distinct inside

theorem mem_of_lookup {a : α} (found : properties.lookup key = some a) : (key, a) ∈ properties := by
  obtain ⟨before, after, rfl, -⟩ := List.lookup_eq_some_iff.mp found
  exact List.mem_append_right _ (.head _)

theorem nodup_names (keys : (properties.map Prod.fst).Pairwise (· < ·)) :
    (properties.map Prod.fst).Nodup :=
  keys.imp ne_of_lt

theorem names_perm {β : Type} {new : List (String × β)} {old : List (String × α)}
    (distinct : (old.map Prod.fst).Nodup) (size : new.length = old.length)
    (covers : ∀ key a, (key, a) ∈ old → ∃ b, new.lookup key = some b) :
    (old.map Prod.fst).Perm (new.map Prod.fst) := by
  have inside : old.map Prod.fst ⊆ new.map Prod.fst := by
    intro key mem
    obtain ⟨a, mem⟩ := mem_names.mp mem
    obtain ⟨b, found⟩ := covers key a mem
    exact mem_names.mpr ⟨b, mem_of_lookup found⟩
  have length : (new.map Prod.fst).length ≤ (old.map Prod.fst).length := by
    rw [List.length_map, List.length_map, size]
  exact (List.subperm_of_subset distinct inside).perm_of_length_le length

end

namespace ValueType

theorem extendsObject_eq (new old : List (String × ValueType)) : extendsObject new old =
    old.all (fun p => (new.lookup p.1).any (fun v => extendsType v p.2)) := by
  induction old with
  | nil => rw [extendsObject, all_nil]
  | cons p _ ih =>
    obtain ⟨key, ty⟩ := p
    rw [extendsObject, ih, all_cons]
    cases new.lookup key <;> rfl

theorem extendsWidened_eq (new : List (String × ValueType × Bool)) (old : List (String × ValueType)) :
    extendsWidened new old =
      old.all (fun p => (new.lookup p.1).any (fun v => extendsType v.1 p.2)) := by
  induction old with
  | nil => rw [extendsWidened, all_nil]
  | cons p _ ih =>
    obtain ⟨key, ty⟩ := p
    rw [extendsWidened, ih, all_cons]
    cases new.lookup key <;> rfl

theorem extendsRecord_eq (new old : List (String × ValueType × Bool)) : extendsRecord new old =
    old.all (fun p => (new.lookup p.1).any (fun v => (!v.2 || p.2.2) && extendsType v.1 p.2.1)) := by
  induction old with
  | nil => rw [extendsRecord, all_nil]
  | cons p _ ih =>
    obtain ⟨key, ty, required⟩ := p
    rw [extendsRecord, ih, all_cons]
    cases new.lookup key <;> rfl

theorem all_lookup_iff {α β : Type} {new : List (String × α)} {old : List (String × β)}
    {fits : String × β → α → Bool} :
    old.all (fun p => (new.lookup p.1).any (fits p)) = true ↔
      ∀ key b, (key, b) ∈ old → ∃ a, new.lookup key = some a ∧ fits (key, b) a = true := by
  simp only [all_eq_true, Option.any_eq_true, Prod.forall]

variable {old : List (String × ValueType)}

theorem extendsObject_iff {new : List (String × ValueType)} : extendsObject new old = true ↔
    ∀ key ty, (key, ty) ∈ old → ∃ v, new.lookup key = some v ∧ extendsType v ty = true := by
  rw [extendsObject_eq]
  exact all_lookup_iff

variable {new : List (String × ValueType × Bool)}

theorem extendsWidened_iff :
    extendsWidened new old = true ↔
      ∀ key ty, (key, ty) ∈ old → ∃ v, new.lookup key = some v ∧ extendsType v.1 ty = true := by
  rw [extendsWidened_eq]
  exact all_lookup_iff

theorem extendsRecord_iff {old : List (String × ValueType × Bool)} :
    extendsRecord new old = true ↔ ∀ key p, (key, p) ∈ old →
      ∃ v, new.lookup key = some v ∧ (v.2 = true → p.2 = true) ∧ extendsType v.1 p.1 = true := by
  have presence : ∀ a b : Bool, (!a || b) = true ↔ (a = true → b = true) := by decide
  rw [extendsRecord_eq, all_lookup_iff]
  simp only [and_eq_true, presence]

theorem optionalBeyond_iff {names : List String} :
    optionalBeyond names new = true ↔
      ∀ key ty, (key, ty, true) ∈ new → key ∈ names := by
  rw [optionalBeyond, all_eq_true]
  constructor
  · intro all key ty mem
    simpa using all (key, ty, true) mem
  · rintro all ⟨key, ty, required⟩ mem
    cases required with
    | false => simp
    | true => simpa using all key ty mem

theorem extendsType_refl {a : ValueType} (ordered : a.Ordered) : extendsType a a = true := by
  induction ordered with
  | record keys _ ih =>
    rw [extendsType, and_eq_true, extendsRecord_iff, optionalBeyond_iff]
    refine ⟨fun key p mem => ?_, fun key ty mem => mem_names.mpr ⟨_, mem⟩⟩
    exact ⟨p, lookup_of_mem (nodup_names keys) mem, id, ih (key, p) mem⟩
  | object keys _ ih =>
    rw [extendsType, and_eq_true, extendsObject_iff, decide_eq_true_eq]
    refine ⟨rfl, fun key ty mem => ?_⟩
    exact ⟨ty, lookup_of_mem (nodup_names keys) mem, ih (key, ty) mem⟩
  | array _ ih => simp [extendsType, ih]
  | string _ allowEmpty => cases allowEmpty <;> simp [extendsType]
  | enum =>
    rw [extendsType, all_eq_true]
    intro v mem
    obtain ⟨u, found⟩ := OrdMap.mem_keys.mp mem
    rw [OrdMap.contains, found]
    rfl
  | integer | number | boolean | time => rfl

theorem extendsType_trans {a b c : ValueType} (oa : a.Ordered) (ob : b.Ordered) (oc : c.Ordered)
    (first : extendsType a b = true) (second : extendsType b c = true) : extendsType a c = true := by
  induction oc generalizing a b with
  | @record _ _ _ ih =>
    cases ob with
    | @record _ _ parts' =>
      cases oa with
      | @record _ keys'' parts'' =>
        rw [extendsType, and_eq_true, extendsRecord_iff, optionalBeyond_iff] at first second ⊢
        refine ⟨fun key p mem => ?_, fun key ty mem => ?_⟩
        · obtain ⟨v, found, presence, fits⟩ := second.1 key p mem
          obtain ⟨w, found', presence', fits'⟩ := first.1 key v (mem_of_lookup found)
          exact ⟨w, found', fun needed => presence (presence' needed),
            ih (key, p) mem (parts'' _ (mem_of_lookup found')) (parts' _ (mem_of_lookup found))
              fits' fits⟩
        · obtain ⟨v, inside⟩ := mem_names.mp (first.2 key ty mem)
          obtain ⟨w, found, presence, -⟩ := first.1 key v inside
          cases (lookup_of_mem (nodup_names keys'') mem).symm.trans found
          exact second.2 key v.1 ((Prod.ext rfl (presence rfl) : v = (v.1, true)) ▸ inside)
      | _ => simp [extendsType] at first
    | _ => simp [extendsType] at second
  | @object old keys _ ih =>
    cases ob with
    | @object middle _ parts' =>
      cases oa with
      | @object _ _ parts'' =>
        rw [extendsType, and_eq_true, extendsObject_iff, decide_eq_true_eq] at first second ⊢
        refine ⟨first.1.trans second.1, fun key ty mem => ?_⟩
        obtain ⟨v, found, fits⟩ := second.2 key ty mem
        obtain ⟨w, found', fits'⟩ := first.2 key v (mem_of_lookup found)
        exact ⟨w, found', ih (key, ty) mem (parts'' _ (mem_of_lookup found'))
          (parts' _ (mem_of_lookup found)) fits' fits⟩
      | @record _ _ parts'' =>
        -- The middle type lists the same names as the old one, all of them required.
        rw [extendsType, and_eq_true, extendsObject_iff, decide_eq_true_eq] at second
        rw [extendsType, and_eq_true, extendsWidened_iff, optionalBeyond_iff] at first ⊢
        refine ⟨fun key ty mem => ?_, fun key ty mem => ?_⟩
        · obtain ⟨v, found, fits⟩ := second.2 key ty mem
          obtain ⟨w, found', fits'⟩ := first.1 key v (mem_of_lookup found)
          exact ⟨w, found', ih (key, ty) mem (parts'' _ (mem_of_lookup found'))
            (parts' _ (mem_of_lookup found)) fits' fits⟩
        · have inside := first.2 key ty mem
          exact (names_perm (nodup_names keys) second.1 (fun key ty mem =>
            (second.2 key ty mem).imp (fun v h => h.1))).mem_iff.mpr inside
      | _ => simp [extendsType] at first
    | @record _ _ parts' =>
      cases oa with
      | @record _ keys'' parts'' =>
        rw [extendsType, and_eq_true, extendsRecord_iff, optionalBeyond_iff] at first
        rw [extendsType, and_eq_true, extendsWidened_iff, optionalBeyond_iff] at second ⊢
        refine ⟨fun key ty mem => ?_, fun key ty mem => ?_⟩
        · obtain ⟨v, found, fits⟩ := second.1 key ty mem
          obtain ⟨w, found', -, fits'⟩ := first.1 key v (mem_of_lookup found)
          exact ⟨w, found', ih (key, ty) mem (parts'' _ (mem_of_lookup found'))
            (parts' _ (mem_of_lookup found)) fits' fits⟩
        · obtain ⟨v, inside⟩ := mem_names.mp (first.2 key ty mem)
          obtain ⟨w, found, presence, -⟩ := first.1 key v inside
          cases (lookup_of_mem (nodup_names keys'') mem).symm.trans found
          exact second.2 key v.1 ((Prod.ext rfl (presence rfl) : v = (v.1, true)) ▸ inside)
      | _ => simp [extendsType] at first
    | _ => simp [extendsType] at second
  | array _ ih =>
    cases ob with
    | array inner' =>
      cases oa with
      | array inner'' =>
        rw [extendsType, and_eq_true, decide_eq_true_eq] at first second ⊢
        exact ⟨second.1.trans first.1, ih inner'' inner' first.2 second.2⟩
      | _ => simp [extendsType] at first
    | _ => simp [extendsType] at second
  | string _ allowEmpty =>
    cases ob with
    | string _ allowEmpty' =>
      cases oa with
      | string _ allowEmpty'' =>
        rw [extendsType, and_eq_true, decide_eq_true_eq] at first second ⊢
        refine ⟨second.1.trans first.1, ?_⟩
        have empties := And.intro first.2 second.2
        revert empties
        cases allowEmpty <;> cases allowEmpty' <;> cases allowEmpty'' <;> decide
      | _ => simp [extendsType] at first
    | _ => simp [extendsType] at second
  | enum =>
    cases ob with
    | enum values' =>
      cases oa with
      | enum =>
        rw [extendsType, all_eq_true] at first second ⊢
        intro v mem
        have inside : v ∈ values'.keys := by
          have held := second v mem
          rw [OrdMap.contains, Option.isSome_iff_exists] at held
          exact OrdMap.mem_keys.mpr held
        exact first v inside
      | _ => simp [extendsType] at first
    | _ => simp [extendsType] at second
  | integer | number | boolean | time => cases b <;> first | exact first | simp [extendsType] at second

end ValueType

section

variable [Environment]

namespace ValueType

variable {values : List (String × Scalar)}

omit [Environment] in
theorem undeclared_iff {names : List String} :
    ¬ undeclared names values = true ↔ ∀ key v, (key, v) ∈ values → key ∈ names := by
  rw [undeclared, List.any_eq_true]
  constructor
  · intro none key v mem
    by_contra out
    exact none ⟨(key, v), mem, by simpa using out⟩
  · rintro all ⟨⟨key, v⟩, mem, out⟩
    simp [all key v mem] at out

theorem validateObject_iff {properties : List (String × ValueType)} :
    validateObject properties values = .ok () ↔ ∀ key ty, (key, ty) ∈ properties →
      ∃ v, values.lookup key = some v ∧ ty.validateValue v = .ok () := by
  induction properties with
  | nil => exact ⟨fun _ key ty mem => absurd mem List.not_mem_nil, fun _ => rfl⟩
  | cons p _ ih =>
    obtain ⟨key, ty⟩ := p
    rw [validateObject, check_bind_eq_ok, ih]
    constructor
    · rintro ⟨here, there⟩ k t mem
      rcases mem_cons.mp mem with same | inside
      · cases same
        cases found : values.lookup key with
        | none =>
          rw [found] at here
          cases here
        | some v =>
          rw [found] at here
          exact ⟨v, rfl, here⟩
      · exact there k t inside
    · intro all
      obtain ⟨v, found, fits⟩ := all key ty (.head _)
      refine ⟨?_, fun k t inside => all k t (.tail _ inside)⟩
      rw [found]
      exact fits

variable {properties : List (String × ValueType × Bool)}

theorem validateRecord_iff :
    validateRecord properties values = .ok () ↔
      ∀ key p, (key, p) ∈ properties →
        (∀ v, values.lookup key = some v → p.1.validateValue v = .ok ()) ∧
          (values.lookup key = none → p.2 = false) := by
  induction properties with
  | nil => exact ⟨fun _ key p mem => absurd mem List.not_mem_nil, fun _ => rfl⟩
  | cons p _ ih =>
    obtain ⟨key, ty, required⟩ := p
    have here : member (fun v => validateValue ty v) required (values.lookup key) = .ok () ↔
        (∀ v, values.lookup key = some v → ty.validateValue v = .ok ()) ∧
          (values.lookup key = none → required = false) := by
      cases found : values.lookup key with
      | none => cases required <;> simp [member]
      | some => simp [member]
    rw [validateRecord, check_bind_eq_ok, ih, here]
    constructor
    · rintro ⟨first, later⟩ k p mem
      rcases mem_cons.mp mem with same | inside
      · cases same
        exact first
      · exact later k p inside
    · intro all
      exact ⟨all key (ty, required) (.head _),
        fun k p inside => all k p (.tail _ inside)⟩

variable {value : Scalar}

attribute [local simp] validateValue check_bind_eq_ok

theorem validateValue_object {properties : List (String × ValueType)} :
    (ValueType.object properties).validateValue value = .ok () ↔ value.validate = .ok () ∧
      ∃ values, value = .object values ∧
        (∀ key v, (key, v) ∈ values → key ∈ properties.map Prod.fst) ∧
        ∀ key ty, (key, ty) ∈ properties →
          ∃ v, values.lookup key = some v ∧ ty.validateValue v = .ok () := by
  cases value with
  | object values =>
    rw [validateValue, check_bind_eq_ok, guard_eq_ok, undeclared_iff, validateObject_iff]
    refine and_congr_right (fun _ => ?_)
    exact ⟨fun h => ⟨values, rfl, h⟩, fun ⟨_, same, h⟩ => (Scalar.object.inj same) ▸ h⟩
  | _ => simp

theorem validateValue_record :
    (ValueType.record properties).validateValue value = .ok () ↔ value.validate = .ok () ∧
      ∃ values, value = .object values ∧
        (∀ key v, (key, v) ∈ values → key ∈ properties.map Prod.fst) ∧
        ∀ key p, (key, p) ∈ properties →
          (∀ v, values.lookup key = some v → p.1.validateValue v = .ok ()) ∧
            (values.lookup key = none → p.2 = false) := by
  cases value with
  | object values =>
    rw [validateValue, check_bind_eq_ok, guard_eq_ok, undeclared_iff, validateRecord_iff]
    refine and_congr_right (fun _ => ?_)
    exact ⟨fun h => ⟨values, rfl, h⟩, fun ⟨_, same, h⟩ => (Scalar.object.inj same) ▸ h⟩
  | _ => simp

theorem validateValue_list {items : ValueType} {maxItems : UInt32} :
    (ValueType.array items maxItems).validateValue value = .ok () ↔ value.validate = .ok () ∧
      ∃ values, value = .array values ∧ values.length ≤ maxItems.toNat ∧
        ∀ v ∈ values, items.validateValue v = .ok () := by
  cases value with
  | array values =>
    rw [validateValue, check_bind_eq_ok]
    refine and_congr_right (fun _ => ?_)
    by_cases few : values.length ≤ maxItems.toNat
    · rw [if_pos few, each_eq_ok]
      exact ⟨fun h => ⟨values, rfl, few, h⟩, fun ⟨_, same, _, h⟩ => (Scalar.array.inj same) ▸ h⟩
    rw [if_neg few]
    constructor
    · intro h
      cases h
    · rintro ⟨_, same, few', -⟩
      exact absurd ((Scalar.array.inj same) ▸ few') few
  | _ => simp

theorem validateValue_string {maxLength : UInt32} {allowEmpty : Bool} :
    (ValueType.string maxLength allowEmpty).validateValue value = .ok () ↔ value.validate = .ok () ∧
      ∃ s, value = .string s ∧ (allowEmpty || !s.isEmpty) = true ∧ s.length ≤ maxLength.toNat := by
  cases value with
  | string s =>
    rw [validateValue, check_bind_eq_ok]
    refine and_congr_right (fun _ => ?_)
    by_cases fits : ((allowEmpty || !s.isEmpty) && decide (s.length ≤ maxLength.toNat)) = true
    · rw [if_pos fits]
      rw [and_eq_true, decide_eq_true_eq] at fits
      exact ⟨fun _ => ⟨s, rfl, fits⟩, fun _ => rfl⟩
    rw [if_neg fits]
    rw [and_eq_true, decide_eq_true_eq] at fits
    constructor
    · intro h
      cases h
    · rintro ⟨_, same, h⟩
      exact absurd ((Scalar.string.inj same) ▸ h) fits
  | _ => simp

theorem validateValue_enum {names : OrdSet String} :
    (ValueType.enum names).validateValue value = .ok () ↔ value.validate = .ok () ∧
      ∃ s, value = .string s ∧ s ∈ names.keys := by
  cases value with
  | string s =>
    have contains : names.contains s = true ↔ s ∈ names.keys := by
      rw [OrdMap.contains, Option.isSome_iff_exists, OrdMap.mem_keys]
    rw [validateValue, check_bind_eq_ok]
    refine and_congr_right (fun _ => ?_)
    by_cases known : names.contains s = true
    · rw [if_pos known]
      exact ⟨fun _ => ⟨s, rfl, contains.mp known⟩, fun _ => rfl⟩
    rw [if_neg known]
    constructor
    · intro h
      cases h
    · rintro ⟨_, same, h⟩
      exact absurd (contains.mpr ((Scalar.string.inj same) ▸ h)) known
  | _ => simp

theorem extendsType_sound {new old : ValueType} (on : new.Ordered) (oo : old.Ordered)
    (h : extendsType new old = true) (fits : old.validateValue value = .ok ()) :
    new.validateValue value = .ok () := by
  induction oo generalizing new value with
  | @record old _ _ ih =>
    cases on with
    | @record new keys' parts' =>
      rw [extendsType, and_eq_true, extendsRecord_iff, optionalBeyond_iff] at h
      rw [validateValue_record] at fits ⊢
      obtain ⟨valid, values, rfl, declared, members⟩ := fits
      refine ⟨valid, values, rfl, fun key v mem => ?_, fun key p mem => ?_⟩
      · obtain ⟨p, inside⟩ := mem_names.mp (declared key v mem)
        obtain ⟨w, found, -⟩ := h.1 key p inside
        exact mem_names.mpr ⟨w, mem_of_lookup found⟩
      · constructor
        · intro v held
          obtain ⟨q, inside⟩ := mem_names.mp (declared key v (mem_of_lookup held))
          obtain ⟨w, found, -, wider⟩ := h.1 key q inside
          cases (lookup_of_mem (nodup_names keys') mem).symm.trans found
          exact ih (key, q) inside (parts' _ mem) wider ((members key q inside).1 v held)
        · intro missing
          -- A required property of the new type is a required one of the old type.
          by_contra needed
          have needed : p = (p.1, true) := Prod.ext rfl (by simpa using needed)
          obtain ⟨q, inside⟩ := mem_names.mp (h.2 key p.1 (needed ▸ mem))
          obtain ⟨w, found, presence, -⟩ := h.1 key q inside
          cases (lookup_of_mem (nodup_names keys') mem).symm.trans found
          have optional := (members key q inside).2 missing
          rw [presence (congrArg Prod.snd needed)] at optional
          cases optional
    | _ => simp [extendsType] at h
  | @object _ keys _ ih =>
    cases on with
    | @object _ keys' parts' =>
      rw [extendsType, and_eq_true, extendsObject_iff, decide_eq_true_eq] at h
      rw [validateValue_object] at fits ⊢
      obtain ⟨valid, values, rfl, declared, members⟩ := fits
      have names := names_perm (nodup_names keys) h.1
        (fun key ty mem => (h.2 key ty mem).imp (fun v h => h.1))
      refine ⟨valid, values, rfl, fun key v mem => names.mem_iff.mp (declared key v mem), ?_⟩
      intro key ty mem
      obtain ⟨t, inside⟩ := mem_names.mp (names.mem_iff.mpr (mem_names.mpr ⟨ty, mem⟩))
      obtain ⟨w, found, wider⟩ := h.2 key t inside
      cases (lookup_of_mem (nodup_names keys') mem).symm.trans found
      obtain ⟨v, held, fits⟩ := members key t inside
      exact ⟨v, held, ih (key, t) inside (parts' _ mem) wider fits⟩
    | @record _ keys' parts' =>
      rw [extendsType, and_eq_true, extendsWidened_iff, optionalBeyond_iff] at h
      rw [validateValue_object] at fits
      rw [validateValue_record]
      obtain ⟨valid, values, rfl, declared, members⟩ := fits
      refine ⟨valid, values, rfl, fun key v mem => ?_, fun key p mem => ?_⟩
      · obtain ⟨ty, inside⟩ := mem_names.mp (declared key v mem)
        obtain ⟨w, found, -⟩ := h.1 key ty inside
        exact mem_names.mpr ⟨w, mem_of_lookup found⟩
      · constructor
        · intro v held
          obtain ⟨ty, inside⟩ := mem_names.mp (declared key v (mem_of_lookup held))
          obtain ⟨w, found, wider⟩ := h.1 key ty inside
          cases (lookup_of_mem (nodup_names keys') mem).symm.trans found
          obtain ⟨v', held', fits⟩ := members key ty inside
          cases held.symm.trans held'
          exact ih (key, ty) inside (parts' _ mem) wider fits
        · intro missing
          by_contra needed
          have needed : p = (p.1, true) := Prod.ext rfl (by simpa using needed)
          obtain ⟨ty, inside⟩ := mem_names.mp (h.2 key p.1 (needed ▸ mem))
          obtain ⟨v, held, -⟩ := members key ty inside
          cases missing.symm.trans held
    | _ => simp [extendsType] at h
  | array _ ih =>
    cases on with
    | array inner' =>
      rw [extendsType, and_eq_true, decide_eq_true_eq] at h
      rw [validateValue_list] at fits ⊢
      obtain ⟨valid, values, rfl, few, each⟩ := fits
      exact ⟨valid, values, rfl, few.trans h.1, fun v mem => ih inner' h.2 (each v mem)⟩
    | _ => simp [extendsType] at h
  | string _ allowEmpty =>
    cases on with
    | string _ allowEmpty' =>
      rw [extendsType, and_eq_true, decide_eq_true_eq] at h
      rw [validateValue_string] at fits ⊢
      obtain ⟨valid, s, rfl, text, short⟩ := fits
      refine ⟨valid, s, rfl, ?_, short.trans h.1⟩
      have empties := And.intro h.2 text
      revert empties
      cases allowEmpty <;> cases allowEmpty' <;> cases s.isEmpty <;> decide
    | _ => simp [extendsType] at h
  | enum =>
    cases on with
    | enum =>
      rw [extendsType, all_eq_true] at h
      rw [validateValue_enum] at fits ⊢
      obtain ⟨valid, s, rfl, known⟩ := fits
      have held := h s known
      rw [OrdMap.contains, Option.isSome_iff_exists] at held
      exact ⟨valid, s, rfl, OrdMap.mem_keys.mpr held⟩
    | _ => simp [extendsType] at h
  | integer | number | boolean | time => cases new <;> first | exact fits | simp [extendsType] at h

end ValueType

/-- Extension is reflexive and transitive, and keeps every stored value valid. -/
theorem evolution_sound (a b c : Schema) :
    a.type.extendsType a.type = true ∧
      (a.type.extendsType b.type = true → b.type.extendsType c.type = true →
        a.type.extendsType c.type = true) ∧
      ∀ value, a.type.extendsType b.type = true → b.type.validateValue value = .ok () →
        a.type.validateValue value = .ok () :=
  ⟨ValueType.extendsType_refl a.ordered, ValueType.extendsType_trans a.ordered b.ordered c.ordered,
    fun _ h fits => ValueType.extendsType_sound a.ordered b.ordered h fits⟩

end

namespace Widening

/-- Plain parameters: no identifiers or numbers are read here. -/
scoped instance environment : Environment where
  timepoint time := 0 ≤ time.val
  toUppercase := String.toUpper
  parseUuid _ := none
  observationId _ := true
  seriesId _ := true
  numberText _ := []
  fromSlice _ := none

def named : Schema where
  type := .object [("name", .string 8 false)]
  ordered := .object (by simp) (by
    intro p mem
    cases List.mem_singleton.mp mem
    exact .string 8 false)

def noted : Schema where
  type := .record [("name", .string 16 false, true), ("note", .string 16 true, false)]
  ordered := .record (by simpa using String.lt_iff_toList_lt.mpr (by decide)) (by
    intro p mem
    rcases mem_cons.mp mem with rfl | mem
    · exact .string 16 false
    · cases List.mem_singleton.mp mem
      exact .string 16 true)

/-- An object becomes a record, and its values stay valid. -/
theorem named_noted : noted.type.extendsType named.type = true ∧
    noted.type.validateValue (.object [("name", .string "host")]) = .ok () := by
  obtain ⟨-, -, sound⟩ := evolution_sound noted named named
  have wider : noted.type.extendsType named.type = true := by decide
  exact ⟨wider, sound _ wider (by decide)⟩

end Widening

end RssMdm.Inventory
