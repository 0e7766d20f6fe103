/- module: Inventory/Leaves
   source: crates/inventory/src/catalog.rs
   digest: A declared path has one root, and the leaves it reads have the type it declares. -/

import RssMdm.Inventory.Evolution
import RssMdm.Inventory.Paths

set_option autoImplicit false

namespace RssMdm.Inventory

open Lib Lib.Fallible
open Lib.Text (startsWith)
open List (mem_map)

section

mutual

/-- The leaves below a value, in the order of the value; an absent property has none. -/
def collect : Scalar → List String → Except Invalid (List Scalar)
  | .array values, parts => collectAll values parts
  | .object values, part :: rest => collectProperty values part rest
  | value, [] => .ok [value]
  | _, _ :: _ => .error .typeMismatch

def collectAll : List Scalar → List String → Except Invalid (List Scalar)
  | [], _ => .ok []
  | value :: rest, parts => do
      let first ← collect value parts
      let later ← collectAll rest parts
      .ok (first ++ later)

def collectProperty : List (String × Scalar) → String → List String → Except Invalid (List Scalar)
  | [], _, _ => .ok []
  | (key, value) :: rest, part, parts =>
      if key = part then collect value parts else collectProperty rest part parts

end

variable [Environment]

namespace FieldPath

def leaves (p : FieldPath) (value : Scalar) : Except Invalid (List Scalar) := collect value p.segments

def values (p : FieldPath) (value : Scalar) : Except Invalid (List Scalar) := do
  p.root.validateScalar value
  p.leaves value

/-- Read the leaves of one stored item. -/
def itemValues (p : FieldPath) (value : Scalar) : Except Invalid (List Scalar) := do
  p.root.validateItem value
  p.leaves value

end FieldPath

end

/-- A definition as the code can hold it: its key came out of the parser, its properties are maps. -/
structure RegisteredField extends FieldDefinition where
  parsed : FieldKey.parse key.asStr = .ok key
  ordered : valueType.Ordered

section

theorem collectProperty_eq (values : List (String × Scalar)) (part : String) (parts : List String) :
    collectProperty values part parts =
      match values.lookup part with
      | some value => collect value parts
      | none => .ok [] := by
  induction values with
  | nil => rfl
  | cons p _ ih =>
    obtain ⟨key, value⟩ := p
    rw [collectProperty, List.lookup_cons]
    by_cases same : key = part
    · subst same
      rw [if_pos rfl, beq_self_eq_true]
    · rw [if_neg same, ih, beq_eq_false_iff_ne.mpr (Ne.symm same)]

theorem collectAll_eq (values : List Scalar) (parts : List String) :
    collectAll values parts = (values.mapM (fun value => collect value parts)).map List.flatten := by
  induction values with
  | nil => rfl
  | cons value rest ih =>
    rw [collectAll, List.mapM_cons, ih]
    cases collect value parts with
    | error => rfl
    | ok => cases rest.mapM (fun value => collect value parts) <;> rfl

theorem descend_array (many : Bool) (items : ValueType) (maxItems : UInt32) (parts : List String) :
    (ValueType.array items maxItems).descend many parts = items.descend true parts := by
  cases parts with
  | nil | cons => rfl

theorem items_many : ∀ ty : ValueType, (ty.items true).1 = true
  | .array inner _ => items_many inner
  | .record _ | .string _ _ | .enum _ | .integer | .number | .boolean | .time | .object _ => rfl

theorem descend_many {parts : List String} : ∀ {ty leaf : ValueType} {many : Bool},
    ty.descend true parts = .ok (many, leaf) → many = true := by
  induction parts with
  | nil =>
    intro ty leaf many h
    have same : ty.items true = (many, leaf) := Except.ok.inj h
    have kept := items_many ty
    rw [same] at kept
    exact kept
  | cons _ _ ih =>
    intro ty leaf many h
    rw [ValueType.descend, items_many] at h
    split at h
    · cases h
    · exact ih h

variable [Environment]

structure Reads (leaf : ValueType) (many : Bool) (value : Scalar) (parts : List String)
    (read : List Scalar) : Prop where
  collected : collect value parts = .ok read
  typed : ∀ l ∈ read, leaf.validateValue l = .ok ()
  single : many = false → read.length ≤ 1

variable {ty : ValueType} {many : Bool}

theorem Reads.leaf {value : Scalar} (collected : collect value [] = .ok [value])
    (fits : ty.validateValue value = .ok ()) : Reads ty many value [] [value] where
  collected := collected
  typed l mem := by
    cases List.mem_singleton.mp mem
    exact fits
  single _ := le_rfl

variable {leaf : ValueType}

theorem reads_property {values : List (String × Scalar)} {part : String} {rest : List String}
    (below : ∀ v, values.lookup part = some v → ∃ read, Reads leaf many v rest read) :
    ∃ read, Reads leaf many (.object values) (part :: rest) read := by
  have property : collect (.object values) (part :: rest) = collectProperty values part rest := rfl
  rw [collectProperty_eq] at property
  cases found : values.lookup part with
  | none =>
    rw [found] at property
    exact ⟨[], property, List.forall_mem_nil _, fun _ => Nat.zero_le _⟩
  | some v =>
    rw [found] at property
    obtain ⟨read, collected, typed, single⟩ := below v found
    exact ⟨read, property.trans collected, typed, single⟩

theorem reads_plain {many' : Bool} {parts : List String} {value : Scalar}
    (plain : ∀ many, ty.items many = (many, ty)) (bare : ty.properties = [])
    (way : ty.descend many parts = .ok (many', leaf)) (collected : collect value [] = .ok [value])
    (fits : ty.validateValue value = .ok ()) : ∃ read, Reads leaf many' value parts read := by
  cases parts with
  | nil =>
    rw [ValueType.descend, plain] at way
    cases way
    exact ⟨_, Reads.leaf collected fits⟩
  | cons =>
    rw [ValueType.descend, plain, bare] at way
    cases way

attribute [local simp] ValueType.validateValue check_bind_eq_ok

theorem collect_typed (ordered : ty.Ordered) :
    ∀ {many many' : Bool} {parts : List String} {value : Scalar},
      ty.descend many parts = .ok (many', leaf) → ty.validateValue value = .ok () →
        ∃ read, Reads leaf many' value parts read := by
  induction ordered with
  | @array _ _ _ ih =>
    intro many many' parts value way fits
    rw [descend_array] at way
    have passed := descend_many way
    obtain ⟨-, values, rfl, -, each_fits⟩ := ValueType.validateValue_list.mp fits
    have reads : ∀ v ∈ values, ∃ read, Reads leaf many' v parts read :=
      fun v mem => ih way (each_fits v mem)
    obtain ⟨lists, pairs⟩ := forall₂_exists reads
    refine ⟨lists.flatten, ?_, ?_, fun one => ?_⟩
    · have mapped : values.mapM (fun value => collect value parts) = .ok lists :=
        mapM_eq_ok.mpr (pairs.imp (fun _ _ h => h.collected))
      show collectAll values parts = _
      rw [collectAll_eq, mapped]
      rfl
    · intro l mem
      obtain ⟨list, among, inside⟩ := List.mem_flatten.mp mem
      obtain ⟨v, -, read⟩ := exists_left_of_mem pairs among
      exact read.typed l inside
    · rw [passed] at one
      cases one
  | @object properties keys members ih =>
    intro many many' parts value way fits
    obtain ⟨-, values, rfl, -, present⟩ := ValueType.validateValue_object.mp fits
    cases parts with
    | nil =>
      cases way
      exact ⟨_, Reads.leaf rfl fits⟩
    | cons part rest =>
      rw [ValueType.descend] at way
      split at way
      · cases way
      rename_i name inner required found
      have mem := List.mem_of_find?_eq_some found
      have same : name = part := by simpa using List.find?_some found
      subst same
      obtain ⟨⟨key, t⟩, inside, same⟩ := mem_map.mp mem
      cases same
      apply reads_property
      intro v held
      obtain ⟨v', held', fits'⟩ := present key t inside
      cases held.symm.trans held'
      exact ih (key, t) inside way fits'
  | @record properties keys members ih =>
    intro many many' parts value way fits
    obtain ⟨-, values, rfl, -, present⟩ := ValueType.validateValue_record.mp fits
    cases parts with
    | nil =>
      cases way
      exact ⟨_, Reads.leaf rfl fits⟩
    | cons part rest =>
      rw [ValueType.descend] at way
      split at way
      · cases way
      rename_i name inner required found
      have inside : (name, inner, required) ∈ properties := List.mem_of_find?_eq_some found
      have same : name = part := by simpa using List.find?_some found
      subst same
      apply reads_property
      intro v held
      exact ih (name, inner, required) inside way ((present name (inner, required) inside).1 v held)
  | string =>
    intro many many' parts value way fits
    obtain ⟨-, s, rfl, -⟩ := ValueType.validateValue_string.mp fits
    exact reads_plain (fun _ => rfl) rfl way rfl fits
  | enum =>
    intro many many' parts value way fits
    obtain ⟨-, s, rfl, -⟩ := ValueType.validateValue_enum.mp fits
    exact reads_plain (fun _ => rfl) rfl way rfl fits
  | integer =>
    intro many many' parts value way fits
    cases value with
    | integer => exact reads_plain (fun _ => rfl) rfl way rfl fits
    | _ => simp at fits
  | number =>
    intro many many' parts value way fits
    cases value with
    | number => exact reads_plain (fun _ => rfl) rfl way rfl fits
    | _ => simp at fits
  | boolean =>
    intro many many' parts value way fits
    cases value with
    | boolean => exact reads_plain (fun _ => rfl) rfl way rfl fits
    | _ => simp at fits
  | time =>
    intro many many' parts value way fits
    cases value with
    | time => exact reads_plain (fun _ => rfl) rfl way rfl fits
    | _ => simp at fits

end

section

variable [Environment]

def Leads (field key : FieldKey) : Prop :=
  field = key ∨ startsWith key.value (field.value ++ ".") = true

theorem foldlM_register_mem (definitions : List FieldDefinition) :
    ∀ {fields fields' : Catalog}, definitions.foldlM register fields = .ok fields' →
      ∀ {key : FieldKey} {d : FieldDefinition}, fields'.get? key = some d →
        fields.get? key = some d ∨ d ∈ definitions := by
  induction definitions with
  | nil =>
    intro fields fields' h key d found
    cases h
    exact .inl found
  | cons e rest ih =>
    intro fields fields' h key d found
    rw [List.foldlM_cons] at h
    obtain ⟨next, first, later⟩ := of_bind h
    obtain ⟨-, first⟩ := of_check first
    obtain ⟨-, first⟩ := of_guard first
    cases first
    rcases ih later found with old | inside
    · rcases OrdMap.get?_insert_cases old with ⟨-, rfl⟩ | ⟨-, old⟩
      · exact .inr (.head _)
      · exact .inl old
    · exact .inr (.tail _ inside)

variable {catalog : Catalog} {definitions : List FieldDefinition}

theorem Catalog.new_eq_ok (h : Catalog.new definitions = .ok catalog) :
    (∀ key d, catalog.get? key = some d → d ∈ definitions) ∧
      ∀ key d, catalog.get? key = some d → shadowed catalog key = false := by
  obtain ⟨-, h⟩ := of_guard h
  obtain ⟨fields, registered, h⟩ := of_bind h
  obtain ⟨apart, h⟩ := of_guard h
  cases h
  refine ⟨fun key d found => ?_, fun key d found => ?_⟩
  · rcases foldlM_register_mem definitions registered found with old | inside
    · cases old
    · exact inside
  · rw [Bool.not_eq_true, List.any_eq_false] at apart
    exact Bool.eq_false_iff.mpr (apart key (OrdMap.mem_keys.mpr ⟨d, found⟩))

variable {key : FieldKey}

omit [Environment] in
theorem mem_parents {before after : List Char} (split : key.value.toList = before ++ '.' :: after) :
    String.ofList before ∈ parents key := by
  rw [parents, mem_map]
  refine ⟨before.length, ?_, ?_⟩
  · have length : key.value.length = before.length + (after.length + 1) := by
      rw [← String.length_toList, split, List.length_append, List.length_cons]
    rw [List.mem_filter, List.mem_range, decide_eq_true_eq]
    refine ⟨by omega, ?_⟩
    rw [split, List.getElem?_append_right (le_refl _), Nat.sub_self]
    rfl
  · rw [split, List.take_left]

omit [Environment] in
theorem Leads.starts {field key : FieldKey} (leads : Leads field key) :
    field.value.toList <+: key.value.toList := by
  rcases leads with rfl | starts
  · exact List.prefix_rfl
  · rw [startsWith, String.toList_append, List.isPrefixOf_iff_prefix] at starts
    exact (List.prefix_append _ _).trans starts

omit [Environment] in
theorem Leads.continues {f g : FieldKey} (hf : Leads f key) (hg : Leads g key)
    (shorter : f.value.toList.length < g.value.toList.length) :
    ∃ after, g.value.toList = f.value.toList ++ '.' :: after := by
  have outer := hg.starts
  rcases hf with rfl | starts
  · exact absurd outer.length_le (Nat.not_le.mpr shorter)
  rw [startsWith, String.toList_append, List.isPrefixOf_iff_prefix] at starts
  have length : (f.value.toList ++ ".".toList).length ≤ g.value.toList.length := by
    rw [List.length_append]
    exact shorter
  obtain ⟨after, same⟩ := List.prefix_of_prefix_length_le starts outer length
  exact ⟨after, by rw [← same, List.append_assoc]; rfl⟩

theorem leads_unique {definitions : List RegisteredField}
    (registered : Catalog.new (definitions.map RegisteredField.toFieldDefinition) = .ok catalog)
    {f g : FieldDefinition} (inf : catalog.get? f.key = some f) (ing : catalog.get? g.key = some g)
    (hf : Leads f.key key) (hg : Leads g.key key) : f = g := by
  obtain ⟨supplied, apart⟩ := Catalog.new_eq_ok registered
  have never : ∀ {f g : FieldDefinition}, catalog.get? f.key = some f → catalog.get? g.key = some g →
      Leads f.key key → Leads g.key key →
        ¬ f.key.value.toList.length < g.key.value.toList.length := by
    intro f g inf ing hf hg shorter
    obtain ⟨after, split⟩ := hf.continues hg shorter
    obtain ⟨d, -, same⟩ := mem_map.mp (supplied f.key f inf)
    have parsed : FieldKey.parse (String.ofList f.key.value.toList) = .ok f.key := by
      rw [String.ofList_toList, ← same]
      exact d.parsed
    have within : catalog.contains f.key = true := by
      rw [OrdMap.contains, inf]
      rfl
    have shadow : shadowed catalog g.key = true := by
      rw [shadowed, List.any_eq_true]
      refine ⟨_, mem_parents split, ?_⟩
      rw [parsed]
      exact within
    rw [apart g.key g ing] at shadow
    cases shadow
  have length : f.key.value.toList.length = g.key.value.toList.length :=
    le_antisymm (not_lt.mp (never ing inf hg hf)) (not_lt.mp (never inf ing hf hg))
  have text : f.key.value.toList = g.key.value.toList :=
    (List.prefix_of_prefix_length_le hf.starts hg.starts length.le).eq_of_length length
  have keys : f.key = g.key := congrArg FieldKey.mk (String.toList_inj.mp text)
  rw [keys, ing] at inf
  exact (Option.some.inj inf).symm

theorem Catalog.root_mem (registered : Catalog.new definitions = .ok catalog) {p : FieldPath}
    (h : catalog.path key = .ok p) : catalog.get? p.root.key = some p.root := by
  unfold Catalog.path at h
  split at h
  · cases h
  rename_i root suffix rooted
  obtain ⟨descended, -, h⟩ := of_bind h
  cases h
  unfold Catalog.rootOf at rooted
  split at rooted
  · rename_i d found
    cases rooted
    rw [Catalog.new_key registered found]
    exact found
  · obtain ⟨d, among, named⟩ := List.mem_filterMap.mp (mem_longest rooted)
    obtain ⟨rest, -, same⟩ := Option.map_eq_some_iff.mp named
    cases same
    obtain ⟨⟨k, d'⟩, entry, same⟩ := mem_map.mp among
    cases same
    have found := OrdMap.get?_eq_some.mpr entry
    rw [Catalog.new_key registered found]
    exact found

omit [Environment] in
theorem Catalog.path_way {p : FieldPath} (h : catalog.path key = .ok p) :
    p.root.valueType.descend false p.segments = .ok (p.many, p.valueType) := by
  unfold Catalog.path at h
  split at h
  · cases h
  · obtain ⟨⟨many, leaf⟩, way, h⟩ := of_bind h
    cases h
    exact way

/-- A path has one root among the registered fields, reads leaves of the declared type from every
value of the root, at most one unless it passes a list, and reads a list item by item. -/
theorem paths_typed (definitions : List RegisteredField) (catalog : Catalog)
    (registered : Catalog.new (definitions.map RegisteredField.toFieldDefinition) = .ok catalog)
    (key : FieldKey) (p : FieldPath) (resolved : catalog.path key = .ok p) :
    (catalog.get? p.root.key = some p.root ∧ Leads p.root.key key ∧
      ∀ f, catalog.get? f.key = some f → Leads f.key key → f = p.root) ∧
    (∀ value, p.root.validateScalar value = .ok () → ∃ leaves, p.values value = .ok leaves ∧
      (∀ leaf ∈ leaves, p.valueType.validateValue leaf = .ok ()) ∧
      (p.many = false → leaves.length ≤ 1)) ∧
    ∀ items, p.root.validateScalar (.array items) = .ok () → ∃ lists,
      items.mapM p.itemValues = .ok lists ∧ p.values (.array items) = .ok lists.flatten := by
  have rooted := Catalog.root_mem registered resolved
  have leads : Leads p.root.key key := Catalog.path_root registered resolved
  obtain ⟨supplied, -⟩ := Catalog.new_eq_ok registered
  obtain ⟨d, -, same⟩ := mem_map.mp (supplied _ _ rooted)
  have ordered : p.root.valueType.Ordered := same ▸ d.ordered
  have way := Catalog.path_way resolved
  have typed : ∀ value, p.root.validateScalar value = .ok () →
      p.root.valueType.validateValue value = .ok () := by
    intro value valid
    obtain ⟨-, valid⟩ := of_guard valid
    exact (of_check valid).1
  refine ⟨⟨rooted, leads, fun f found reaches => leads_unique registered found rooted reaches leads⟩, ?_, ?_⟩
  · intro value valid
    obtain ⟨leaves, collected, fits, single⟩ := collect_typed ordered way (typed value valid)
    refine ⟨leaves, ?_, fits, single⟩
    rw [FieldPath.values, valid, ok_bind]
    exact collected
  · intro items valid
    obtain ⟨leaves, collected, -, -⟩ := collect_typed ordered way (typed _ valid)
    have all : collectAll items p.segments = .ok leaves := collected
    rw [collectAll_eq] at all
    obtain ⟨lists, mapped, rfl⟩ := map_eq_ok.mp all
    have items_valid : ∀ item ∈ items, p.root.validateItem item = .ok () := by
      obtain ⟨-, valid⟩ := of_guard valid
      obtain ⟨-, valid⟩ := of_check valid
      obtain ⟨-, -, valid⟩ := of_bind valid
      exact each_eq_ok.mp (of_check valid).1
    refine ⟨lists, ?_, ?_⟩
    · have both := (List.forall₂_and_left _ _).mpr ⟨items_valid, mapM_eq_ok.mp mapped⟩
      refine mapM_eq_ok.mpr (both.imp (fun item list h => ?_))
      rw [FieldPath.itemValues, h.1, ok_bind]
      exact h.2
    · rw [FieldPath.values, valid, ok_bind]
      exact collected

end

namespace Widening

def disks : RegisteredField where
  timeSeries := none
  key := ⟨"custom.disks"⟩
  version := 1
  valueType := .array (.object [("model", .string 16 false)]) 8
  nullable := false
  manual := false
  sources := OrdMap.empty.insert .agentBuiltin 1
  platforms := [.windows]
  sensitivity := .standard
  unit := none
  searchable := true
  itemKey := none
  parsed := by decide
  ordered := .array (.object (by simp) (by
    intro p mem
    cases List.mem_singleton.mp mem
    exact .string 16 false))

def inventory : Catalog := OrdMap.empty.insert disks.key disks.toFieldDefinition

def models : FieldPath := ⟨disks.toFieldDefinition, .string 16 false, true, ["model"]⟩

def twoDisks : List Scalar := [.object [("model", .string "a")], .object [("model", .string "b")]]

/-- The models of two disks are those of the one and those of the other. -/
theorem disk_models : ∃ lists, twoDisks.mapM models.itemValues = .ok lists ∧
    models.values (.array twoDisks) = .ok lists.flatten := by
  have registered : Catalog.new ([disks].map RegisteredField.toFieldDefinition) = .ok inventory := by
    rfl
  obtain ⟨-, -, items⟩ := paths_typed [disks] inventory registered ⟨"custom.disks.model"⟩ models (by rfl)
  exact items twoDisks (by decide)

end Widening

end RssMdm.Inventory
