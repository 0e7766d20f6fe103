/- module: Resource/Script
   source: crates/resource/src/script.rs
   digest: The arguments and the environment of a script hold every parameter at its own place. -/

import RssMdm.Lib.Json
import RssMdm.Resource.Version

set_option autoImplicit false

namespace RssMdm.Resource

open Lib Lib.Fallible Lib.Json
open Lib.Text (asBytes parseI64 startsWith contains)
open List (mem_append mem_cons mem_map mem_range)

inductive ScriptProfile where
  | powerShell7 | posixSh | bash | osquery
deriving DecidableEq

inductive RunAs where
  | system | loggedInUser
deriving DecidableEq

inductive ScriptEncoding where
  | utf8

inductive ParameterBinding where
  | named (name : String)
  | positional (index : UInt16)
  | environment (name : String)
deriving DecidableEq

inductive TemplateScope where
  | device
  | user (identity : String)
  | source (identity : String)
  | volume (identity : String)
  | pathPrefix (path : String)

/-- What the checks of a definition use from elsewhere: the schema validator, and the checks of SQL
templates, prerequisites and value mappings. -/
structure ScriptLibrary where
  Sql : Type
  Applicability : Type
  Mapping : Type
  compiles : Json.Json → Bool
  isValid : Json.Json → Json.Json → Bool
  sqlParameters : Sql → Except Error (OrdSet String)
  validApplicability : Applicability → Bool
  validMapping : Mapping → Bool

variable (L : ScriptLibrary)

inductive ScriptPurpose where
  | action
  | collection (scope : TemplateScope) (applicability : L.Applicability)
      (mappings : OrdMap String L.Mapping)

structure ScriptSpec where
  profile : ScriptProfile
  sql : Option L.Sql
  runAs : RunAs
  encoding : ScriptEncoding
  parameters : Json.Json
  bindings : OrdMap String ParameterBinding
  output : Json.Json
  purpose : ScriptPurpose L
  timeoutSeconds : UInt32
  outputBytes : UInt32
  maxRows : UInt16

def member (members : List (String × Json.Json)) (key : String) : Option Json.Json :=
  (members.find? (fun m => m.1 = key)).map Prod.snd

def asStr : Json.Json → Option String
  | .string s => some s
  | _ => none

def schemaTypes : List String := ["object", "array", "string", "integer", "boolean", "null"]

def plainKeywords : List String := ["required", "enum", "const", "minItems", "maxItems", "minLength",
  "maxLength", "minimum", "maximum", "title", "description"]

mutual

/-- Returns the number of schemas so far. -/
def boundedSchema (depth nodes : Nat) : Json.Json → Except Error Nat
  | .object members =>
      if depth > 16 ∨ nodes + 1 > 1024 then .error .invalidInput
      else boundedKeywords depth (nodes + 1) members
  | _ => .error .invalidInput

def boundedKeywords (depth nodes : Nat) : List (String × Json.Json) → Except Error Nat
  | [] => .ok nodes
  | (key, value) :: rest =>
      if key = "type" then
        if (asStr value).any (schemaTypes.contains ·) then boundedKeywords depth nodes rest
        else .error .invalidInput
      else if key = "properties" then
        match value with
        | .object members => do
            let nodes ← boundedProperties (depth + 1) nodes members
            boundedKeywords depth nodes rest
        | _ => .error .invalidInput
      else if key = "items" then do
        let nodes ← boundedSchema (depth + 1) nodes value
        boundedKeywords depth nodes rest
      else if key = "additionalProperties" then
        match value with
        | .bool false => boundedKeywords depth nodes rest
        | _ => .error .invalidInput
      else if plainKeywords.contains key then boundedKeywords depth nodes rest
      else .error .invalidInput

def boundedProperties (depth nodes : Nat) : List (String × Json.Json) → Except Error Nat
  | [] => .ok nodes
  | (name, child) :: rest =>
      if name.isEmpty ∨ name.utf8ByteSize > 128 then .error .invalidInput
      else do
        let nodes ← boundedSchema depth nodes child
        boundedProperties depth nodes rest

end

def schema (value : Json.Json) : Except Error Unit :=
  if (bytes value).length > 16384 then .error .invalidInput
  else do
    let _ ← boundedSchema 0 0 value
    if !L.compiles value then .error .invalidInput else .ok ()

def validate (schema value : Json.Json) (limit : Nat) : Except Error Unit :=
  if (bytes value).length > limit then .error .invalidInput
  else if !L.compiles schema then .error .invalidInput
  else if L.isValid schema value then .ok ()
  else .error .invalidInput

def identifier (name : String) : Bool :=
  !name.isEmpty && name.utf8ByteSize ≤ 64 &&
    name.toList.head?.any (fun c => c.isAlpha || c = '_') &&
    name.toList.all (fun c => c.isAlphanum || c = '_')

def ParameterBinding.fits (profile : ScriptProfile) : ParameterBinding → Bool
  | .named name => profile = .powerShell7 && identifier name
  | .positional _ => profile = .posixSh || profile = .bash
  | .environment name => startsWith name "RSS_PARAM_" && 10 < name.utf8ByteSize && identifier name

/-- Where a parameter goes, up to ASCII case. -/
def ParameterBinding.destination : ParameterBinding → String
  | .named name => "named:" ++ name.toLower
  | .positional index => "position:" ++ toString index.toNat
  | .environment name => "env:" ++ name.toUpper

abbrev Destinations := OrdSet String × OrdSet Nat

def addBinding (profile : ScriptProfile) (props : List String) (acc : Destinations)
    (entry : String × ParameterBinding) : Except Error Destinations :=
  if !identifier entry.1 || !props.contains entry.1 || !entry.2.fits profile then .error .invalidInput
  else if acc.1.contains entry.2.destination then .error .invalidInput
  else .ok (OrdMap.insert acc.1 entry.2.destination (), match entry.2 with
    | .positional index => OrdMap.insert acc.2 index.toNat ()
    | _ => acc.2)

def bindings (spec : ScriptSpec L) : Except Error Unit :=
  match spec.parameters with
  | .object params =>
      match member params "properties", member params "required" with
      | some (.object props), some (.array required) =>
          let names := props.map Prod.fst
          if !(member params "type").any (fun v => asStr v = some "object") ||
              !(member params "additionalProperties").any (fun v => v matches .bool false) ||
              props.length > 32 ||
              (spec.profile ≠ .osquery && props.length ≠ spec.bindings.size) ||
              required.length ≠ props.length ||
              (OrdSet.ofList (required.filterMap asStr)).keys ≠ (OrdSet.ofList names).keys then
            .error .invalidInput
          else if spec.profile = .osquery then
            match spec.sql with
            | none => .error .invalidInput
            | some sql => do
                let wanted ← L.sqlParameters sql
                if !spec.bindings.entries.isEmpty || wanted.keys ≠ (OrdSet.ofList names).keys then
                  .error .invalidInput
                else .ok ()
          else do
            let (_, positions) ←
              spec.bindings.entries.foldlM (addBinding spec.profile names) (.empty, .empty)
            if positions.keys ≠ List.range (positions.size % 65536) then .error .invalidInput
            else .ok ()
      | _, _ => .error .invalidInput
  | _ => .error .invalidInput

def fieldIdentity (key : String) : Bool :=
  let parts := key.toList.splitOn '.'
  key.utf8ByteSize ≤ 128 &&
    ["device", "custom", "channel"].contains (String.ofList (parts.headD [])) &&
    key.toList.contains '.' &&
    parts.tail.all (fun p => p.head?.any Char.isLower &&
      p.all (fun c => c.isLower || c.isDigit || c = '_'))

def purpose (spec : ScriptSpec L) : Except Error Unit :=
  let malformed : Bool := match spec.purpose with
    | .action => false
    | .collection scope applicability mappings =>
        !L.validApplicability applicability || spec.runAs ≠ .system || !(scope matches .device) ||
          mappings.entries.isEmpty || mappings.size > 128 || mappings.keys.any (!fieldIdentity ·) ||
          mappings.values.any (!L.validMapping ·)
  if malformed then .error .invalidInput
  else if spec.profile = .osquery then
    if (spec.purpose matches .action) || spec.sql.isNone || spec.runAs ≠ .system then
      .error .invalidInput
    else .ok ()
  else if spec.sql.isSome then .error .invalidInput
  else .ok ()

/-- All the checks of `ScriptDefinition::new`. -/
def checkScript (spec : ScriptSpec L) : Except Error Unit :=
  if !(1 ≤ spec.timeoutSeconds && spec.timeoutSeconds ≤ 3600) ||
      !(1 ≤ spec.outputBytes && spec.outputBytes ≤ 16777216) || spec.maxRows = 0 then
    .error .invalidInput
  else do
    schema L spec.parameters
    schema L spec.output
    bindings L spec
    purpose L spec

structure ScriptDefinition where
  spec : ScriptSpec L
  checked : checkScript L spec = .ok ()

def ScriptDefinition.new (spec : ScriptSpec L) : Except Error (ScriptDefinition L) :=
  match h : checkScript L spec with
  | .error e => .error e
  | .ok () => .ok ⟨spec, h⟩

section

/-- A string without NUL, a boolean or a 64-bit integer. -/
def literalInput : Json.Json → Bool
  | .string s => !contains s "\x00"
  | .bool _ => true
  | .number text => (parseI64 (String.ofList text)).isSome
  | _ => false

variable {L}

def ScriptDefinition.validateParameters (d : ScriptDefinition L) (value : Json.Json) :
    Except Error Unit := do
  validate L d.spec.parameters value 65536
  match value with
  | .object members => if members.all (fun m => literalInput m.2) then .ok () else .error .invalidInput
  | _ => .error .invalidInput

def literal : Json.Json → Option String
  | .string s => some s
  | .bool b => some (if b then "true" else "false")
  | .number text => some (String.ofList text)
  | _ => none

/-- The positional arguments, the other arguments and the environment so far. -/
structure Delivery where
  positional : OrdMap Nat String
  arguments : List String
  environment : OrdMap String String

def Delivery.add (d : Delivery) (text : String) : ParameterBinding → Delivery
  | .positional index => { d with positional := d.positional.insert index.toNat text }
  | .named name => { d with arguments := d.arguments ++ ["-" ++ name, text] }
  | .environment name => { d with environment := d.environment.insert name text }

def deliver (parameters : OrdMap String Json.Json) (d : Delivery)
    (entry : String × ParameterBinding) :
    Except Error Delivery :=
  match (parameters.get? entry.1).bind literal with
  | none => .error .invalidInput
  | some text => .ok (d.add text entry.2)

def ScriptDefinition.prepareParameters (d : ScriptDefinition L)
    (parameters : OrdMap String Json.Json) :
    Except Error (List String × OrdMap String String) := do
  d.validateParameters (.object parameters.entries)
  let delivery ← d.spec.bindings.entries.foldlM (deliver parameters) ⟨.empty, [], .empty⟩
  .ok (delivery.arguments ++ delivery.positional.values, delivery.environment)

end

section

variable {L}

/-- What the validator is relied on for: the required members are there, and no other than the
declared ones are, where nothing but the properties declares them. -/
structure ScriptLibrary.Enforces (L : ScriptLibrary) : Prop where
  required : ∀ params value names, L.compiles (.object params) = true →
    L.isValid (.object params) (.object value) = true → member params "required" = some (.array names) →
    ∀ name, .string name ∈ names → name ∈ value.map Prod.fst
  closed : ∀ params value props, L.compiles (.object params) = true →
    L.isValid (.object params) (.object value) = true → "patternProperties" ∉ params.map Prod.fst →
    member params "additionalProperties" = some (.bool false) →
    member params "properties" = some (.object props) →
    ∀ name ∈ value.map Prod.fst, name ∈ props.map Prod.fst

theorem boundedKeywords_known {depth nodes n : Nat} {members : List (String × Json.Json)}
    (h : boundedKeywords depth nodes members = .ok n) : "patternProperties" ∉ members.map Prod.fst := by
  induction members generalizing nodes with
  | nil => simp
  | cons m rest ih =>
    obtain ⟨key, value⟩ := m
    have later : key ≠ "patternProperties" ∧ ∃ nodes', boundedKeywords depth nodes' rest = .ok n := by
      unfold boundedKeywords at h
      by_cases pattern : key = "patternProperties"
      · subst pattern
        simp [plainKeywords] at h
      refine ⟨pattern, ?_⟩
      split at h
      · split at h
        · exact ⟨_, h⟩
        · cases h
      split at h
      · split at h
        · obtain ⟨nodes', -, h⟩ := of_bind h
          exact ⟨_, h⟩
        · cases h
      · split at h
        · obtain ⟨nodes', -, h⟩ := of_bind h
          exact ⟨_, h⟩
        · split at h
          · split at h
            · exact ⟨_, h⟩
            · cases h
          · split at h
            · exact ⟨_, h⟩
            · cases h
    obtain ⟨other, nodes', h⟩ := later
    simpa [Ne.symm other] using ih h

def Positioned (e : String × ParameterBinding) (k : Nat) : Prop :=
  ∃ index, e.2 = .positional index ∧ index.toNat = k

/-- Entries that go to different places. -/
def Apart (a b : String × ParameterBinding) : Prop := a.2.destination ≠ b.2.destination

/-- What the pass over the bindings has established. -/
structure Destined (props : List String) (acc acc' : Destinations)
    (entries : List (String × ParameterBinding)) : Prop where
  declared : ∀ e ∈ entries, e.1 ∈ props
  fresh : ∀ e ∈ entries, e.2.destination ∉ acc.1.keys
  apart : entries.Pairwise Apart
  positions : ∀ k, k ∈ acc'.2.keys ↔ k ∈ acc.2.keys ∨ ∃ e ∈ entries, Positioned e k

theorem destined_of_foldlM {profile : ScriptProfile} {props : List String}
    {entries : List (String × ParameterBinding)} {acc acc' : Destinations}
    (h : entries.foldlM (addBinding profile props) acc = .ok acc') :
    Destined props acc acc' entries := by
  induction entries generalizing acc with
  | nil =>
    cases h
    exact ⟨by simp, by simp, .nil, by simp⟩
  | cons e _ ih =>
    obtain ⟨acc₁, first, h⟩ := of_bind h
    obtain ⟨named, first⟩ := of_guard first
    obtain ⟨unused, first⟩ := of_guard first
    cases first
    obtain ⟨declared, fresh, apart, positions⟩ := ih h
    simp only [OrdSet.mem_keys_insert, not_or] at fresh
    refine ⟨?_, ?_, List.pairwise_cons.mpr ⟨fun e' mem => Ne.symm (fresh e' mem).1, apart⟩, ?_⟩
    · intro e' mem
      rcases mem_cons.mp mem with rfl | mem
      · simp only [Bool.or_eq_true, not_or, Bool.not_eq_true', Bool.not_eq_false,
          List.contains_iff_mem] at named
        exact named.1.2
      · exact declared e' mem
    · intro e' mem
      rcases mem_cons.mp mem with rfl | mem
      · rw [OrdMap.mem_keys]
        rintro ⟨_, found⟩
        exact unused (by simp [OrdMap.contains, found])
      · exact (fresh e' mem).2
    · intro k
      rw [positions]
      cases e with
      | mk _ binding =>
        cases binding <;>
          simp [Positioned, OrdSet.mem_keys_insert, or_assoc, eq_comm, or_left_comm]

end

section

variable {L} {parameters : OrdMap String Json.Json}
  {entries : List (String × ParameterBinding)}

def supplied (parameters : OrdMap String Json.Json) (key : String) : Option String :=
  (parameters.get? key).bind literal

def namedPair (parameters : OrdMap String Json.Json) (e : String × ParameterBinding) :
    List String :=
  match e.2 with
  | .named name => ["-" ++ name, (supplied parameters e.1).getD ""]
  | _ => []

/-- Every entry is delivered at its place, and nothing else is. -/
structure Delivery.Holds (d : Delivery) (parameters : OrdMap String Json.Json)
    (entries : List (String × ParameterBinding)) : Prop where
  given : ∀ e ∈ entries, ∃ text, supplied parameters e.1 = some text
  positional : ∀ k text, d.positional.get? k = some text ↔ ∃ e ∈ entries,
    Positioned e k ∧ supplied parameters e.1 = some text
  arguments : d.arguments = entries.flatMap (namedPair parameters)
  environment : ∀ name text, d.environment.get? name = some text ↔ ∃ e ∈ entries,
    e.2 = .environment name ∧ supplied parameters e.1 = some text

theorem get?_insert_entry {κ : Type} [LinearOrder κ] {m : OrdMap κ String}
    {P : String × ParameterBinding → κ → Prop}
    (holds : ∀ k text, m.get? k = some text ↔ ∃ e ∈ entries, P e k ∧ supplied parameters e.1 = some text)
    {e : String × ParameterBinding} {key : κ} {text : String} (own : ∀ k, P e k ↔ k = key)
    (given : supplied parameters e.1 = some text) (fresh : ∀ e' ∈ entries, ¬P e' key) (k : κ)
    (text' : String) : (m.insert key text).get? k = some text' ↔
      ∃ e' ∈ entries ++ [e], P e' k ∧ supplied parameters e'.1 = some text' := by
  rw [OrdMap.get?_insert]
  by_cases here : k = key
  · subst here
    rw [if_pos rfl]
    constructor
    · intro same
      exact ⟨e, by simp, (own k).mpr rfl, same ▸ given⟩
    · rintro ⟨e', mem, place, given'⟩
      rcases mem_append.mp mem with mem | mem
      · exact absurd place (fresh e' mem)
      · cases List.mem_singleton.mp mem
        exact given.symm.trans given'
  · rw [if_neg here, holds]
    constructor
    · rintro ⟨e', mem, rest⟩
      exact ⟨e', List.mem_append_left _ mem, rest⟩
    · rintro ⟨e', mem, place, rest⟩
      rcases mem_append.mp mem with mem | mem
      · exact ⟨e', mem, place, rest⟩
      · cases List.mem_singleton.mp mem
        exact absurd ((own k).mp place) here

attribute [local simp] Delivery.add or_and_right exists_or

theorem Delivery.Holds.add {d : Delivery} (holds : d.Holds parameters entries)
    {e : String × ParameterBinding} {text : String} (given : supplied parameters e.1 = some text)
    (apart : ∀ e' ∈ entries, Apart e' e) :
    (d.add text e.2).Holds parameters (entries ++ [e]) := by
  -- No earlier entry has the binding of this one: they would go to one place.
  have fresh : ∀ e' ∈ entries, e'.2 ≠ e.2 := by
    intro e' mem same
    exact apart e' mem (congrArg _ same)
  obtain ⟨all, positional, arguments, environment⟩ := holds
  have all : ∀ e' ∈ entries ++ [e], ∃ text, supplied parameters e'.1 = some text := by
    intro e' mem
    rcases mem_append.mp mem with mem | mem
    · exact all e' mem
    · cases List.mem_singleton.mp mem
      exact ⟨text, given⟩
  obtain ⟨key, binding⟩ := e
  cases binding with
  | positional index =>
    refine ⟨all, ?_, by simp [arguments, namedPair], ?_⟩
    · apply get?_insert_entry positional _ given
      · rintro e' mem ⟨index', bound, same⟩
        exact fresh e' mem (bound.trans (congrArg _ (UInt16.toNat_inj.mp same)))
      · intro k
        constructor
        · rintro ⟨_, ⟨⟩, same⟩
          exact same.symm
        · exact fun same => ⟨index, rfl, same.symm⟩
    · intro name text'
      simp [environment]
  | named name =>
    refine ⟨all, ?_, by simp [arguments, namedPair, given], ?_⟩
    · intro k text'
      simp [positional, Positioned]
    · intro name text'
      simp [environment]
  | environment name =>
    refine ⟨all, ?_, by simp [arguments, namedPair], ?_⟩
    · intro k text'
      simp [positional, Positioned]
    · apply get?_insert_entry (P := fun e name => e.2 = .environment name) environment _ given
      · exact fun e' mem same => fresh e' mem same
      · intro k
        simp [eq_comm]

theorem holds_of_foldlM {rest : List (String × ParameterBinding)} {d d' : Delivery}
    (h : rest.foldlM (deliver parameters) d = .ok d') (holds : d.Holds parameters entries)
    (apart : (entries ++ rest).Pairwise Apart) : d'.Holds parameters (entries ++ rest) := by
  induction rest generalizing d entries with
  | nil =>
    cases h
    simpa using holds
  | cons e rest ih =>
    obtain ⟨d₁, first, h⟩ := of_bind h
    unfold deliver at first
    split at first
    · cases first
    rename_i text given
    cases first
    have split : entries ++ e :: rest = (entries ++ [e]) ++ rest := by simp
    have before : ∀ e' ∈ entries, Apart e' e :=
      fun e' mem => (List.pairwise_append.mp apart).2.2 e' mem e List.mem_cons_self
    rw [split] at apart ⊢
    exact ih h (holds.add given before) apart

/-- What the arguments and the environment of a script hold: each declared parameter at the place of
its binding, the named ones before the positional ones, and nothing else. -/
structure Delivered (bindings : OrdMap String ParameterBinding)
    (parameters : OrdMap String Json.Json) (argv : List String) (environment : OrdMap String String) : Prop where
  declared : parameters.keys = bindings.keys
  given : ∀ key ∈ bindings.keys, ∃ text, supplied parameters key = some text
  arguments : ∃ last, argv = bindings.entries.flatMap (namedPair parameters) ++ last ∧
    last.length = bindings.entries.countP (fun e => e.2 matches .positional _) ∧
    ∀ k text, last[k]? = some text ↔ ∃ e ∈ bindings.entries,
      Positioned e k ∧ supplied parameters e.1 = some text
  environment : ∀ name text, environment.get? name = some text ↔ ∃ e ∈ bindings.entries,
    e.2 = .environment name ∧ supplied parameters e.1 = some text

/-- The names of one kind differ, whatever the case of their letters. -/
def NamesApart (bindings : OrdMap String ParameterBinding) : Prop :=
  bindings.entries.Pairwise (fun a b => ∀ m n,
    (a.2 = .named m → b.2 = .named n → m.toLower ≠ n.toLower) ∧
    (a.2 = .environment m → b.2 = .environment n → m.toUpper ≠ n.toUpper))

theorem namesApart {bindings : OrdMap String ParameterBinding}
    (apart : bindings.entries.Pairwise Apart) : NamesApart bindings := by
  refine apart.imp ?_
  intro a b apart m n
  constructor <;>
  · intro bound bound' same
    exact apart (by rw [bound, bound', ParameterBinding.destination, same, ParameterBinding.destination])

/-- The bindings of an accepted definition, with the properties they are declared by. -/
structure Bound (spec : ScriptSpec L) (params props : List (String × Json.Json))
    (names : List Json.Json) :
    Prop where
  parameters : spec.parameters = .object params
  properties : member params "properties" = some (.object props)
  required : member params "required" = some (.array names)
  closed : member params "additionalProperties" = some (.bool false)
  count : props.length = spec.bindings.size
  demanded : ∀ name, Json.Json.string name ∈ names ↔ name ∈ props.map Prod.fst
  apart : spec.bindings.entries.Pairwise Apart
  declared : ∀ key ∈ spec.bindings.keys, key ∈ props.map Prod.fst
  positions : ∃ n, ∀ k, k < n ↔ ∃ e ∈ spec.bindings.entries, Positioned e k

theorem bound_of_bindings {spec : ScriptSpec L} (shell : spec.profile ≠ .osquery)
    (h : bindings L spec = .ok ()) : ∃ params props names, Bound spec params props names := by
  unfold bindings at h
  split at h
  · rename_i params object
    split at h
    · rename_i props required properties demanded
      obtain ⟨shape, h⟩ := of_guard h
      rw [if_neg shell] at h
      obtain ⟨⟨places, positions⟩, passed, h⟩ := of_bind h
      obtain ⟨contiguous, -⟩ := of_guard h
      obtain ⟨declared, -, apart, indexed⟩ := destined_of_foldlM passed
      simp only [Bool.or_eq_true, not_or, Bool.and_eq_true, decide_eq_true_eq, not_and, not_not,
        Bool.not_eq_true', Bool.not_eq_false] at shape
      obtain ⟨⟨⟨⟨⟨-, closed⟩, -⟩, count⟩, -⟩, same⟩ := shape
      refine ⟨params, props, required, object, properties, demanded, ?_, count shell, ?_, apart, ?_,
        positions.size % 65536, ?_⟩
      · cases given : member params "additionalProperties" with
        | none => simp [given] at closed
        | some v =>
          rw [given] at closed
          cases v with
          | bool b => cases b <;> first | rfl | cases closed
          | _ => cases closed
      · intro name
        rw [← OrdSet.mem_ofList (l := props.map Prod.fst), ← same, OrdSet.mem_ofList, List.mem_filterMap]
        constructor
        · exact fun mem => ⟨_, mem, rfl⟩
        · rintro ⟨v, mem, text⟩
          cases v <;> cases text
          exact mem
      · intro key mem
        obtain ⟨e, there, rfl⟩ := mem_map.mp mem
        exact declared e there
      · intro k
        have indexed := indexed k
        rw [not_not.mp contiguous, mem_range] at indexed
        simpa [OrdMap.empty, OrdMap.keys] using indexed
    · cases h
  · cases h

theorem values_getElem? {ν : Type} {m : OrdMap Nat ν} {n : Nat} (dense : m.keys = List.range n) (k : Nat)
    (v : ν) : m.values[k]? = some v ↔ m.get? k = some v := by
  have key : ∀ i : Nat, ∀ e, m.entries[i]? = some e → e.1 = i := by
    intro i e there
    have same := congrArg (·[i]?) dense
    simp only [OrdMap.keys, List.getElem?_map, there, Option.map_some] at same
    obtain ⟨bound, same⟩ := List.getElem?_eq_some_iff.mp same.symm
    rw [← same, List.getElem_range]
  rw [OrdMap.get?_eq_some, OrdMap.values, List.getElem?_map, Option.map_eq_some_iff]
  constructor
  · rintro ⟨e, there, rfl⟩
    rw [← key k e there]
    exact List.mem_of_getElem? there
  · intro mem
    obtain ⟨i, there⟩ := List.getElem?_of_mem mem
    cases key i _ there
    exact ⟨_, there, rfl⟩

theorem countP_positional {n : Nat} (apart : entries.Pairwise Apart)
    (positions : ∀ k, k < n ↔ ∃ e ∈ entries, Positioned e k) :
    entries.countP (fun e => e.2 matches .positional _) = n := by
  let position : String × ParameterBinding → Option Nat := fun e =>
    match e.2 with
    | .positional index => some index.toNat
    | _ => none
  have positioned : ∀ e k, position e = some k ↔ Positioned e k := by
    rintro ⟨key, binding⟩ k
    cases binding <;> simp [position, Positioned]
  have distinct : (entries.filterMap position).Nodup := by
    rw [List.Nodup, List.pairwise_filterMap]
    refine apart.imp ?_
    rintro a b apart i first j second rfl
    obtain ⟨index, bound, here⟩ := (positioned a i).mp first
    obtain ⟨index', bound', here'⟩ := (positioned b i).mp second
    exact apart (by rw [bound, bound', UInt16.toNat_inj.mp (here.trans here'.symm)])
  have perm : (entries.filterMap position).Perm (List.range n) := by
    rw [List.perm_ext_iff_of_nodup distinct List.nodup_range]
    intro k
    rw [List.mem_filterMap, mem_range, positions]
    simp only [positioned]
  have counted := perm.length_eq
  rw [List.length_filterMap_eq_countP, List.length_range] at counted
  rw [← counted]
  apply List.countP_congr
  rintro ⟨key, binding⟩ -
  cases binding <;> simp [position]

variable {environment : OrdMap String String}

theorem delivered (enforces : L.Enforces) {d : ScriptDefinition L}
    (shell : d.spec.profile ≠ .osquery) {argv : List String}
    (prepared : d.prepareParameters parameters = .ok (argv, environment)) :
    Delivered d.spec.bindings parameters argv environment ∧ NamesApart d.spec.bindings := by
  obtain ⟨-, checked⟩ := of_guard d.checked
  obtain ⟨schema, checked⟩ := of_check checked
  obtain ⟨-, checked⟩ := of_check checked
  obtain ⟨checked, -⟩ := of_check checked
  obtain ⟨params, props, names, bound⟩ := bound_of_bindings shell checked
  obtain ⟨n, positions⟩ := bound.positions
  obtain ⟨valid, prepared⟩ := of_check prepared
  obtain ⟨delivery, passed, prepared⟩ := of_bind prepared
  cases prepared
  have start : Delivery.Holds ⟨.empty, [], .empty⟩ parameters [] := ⟨by simp, by simp, rfl, by simp⟩
  have holds := holds_of_foldlM passed start bound.apart
  rw [List.nil_append] at holds
  obtain ⟨valid, -⟩ := of_check valid
  rw [bound.parameters] at valid schema
  obtain ⟨-, valid⟩ := of_guard valid
  obtain ⟨compiles, valid⟩ := of_guard valid
  have compiles : L.compiles (.object params) = true := by simpa using compiles
  have valid : L.isValid (.object params) (.object parameters.entries) = true := by
    by_contra invalid
    rw [if_neg invalid] at valid
    cases valid
  have known : "patternProperties" ∉ params.map Prod.fst := by
    obtain ⟨-, schema⟩ := of_guard schema
    obtain ⟨n, schema, -⟩ := of_bind schema
    exact boundedKeywords_known schema
  -- The bindings are as many as the properties and among them: the names are the same.
  have same : d.spec.bindings.keys.Perm (props.map Prod.fst) := by
    apply (d.spec.bindings.nodup_keys.subperm bound.declared).perm_of_length_le
    rw [List.length_map, bound.count, OrdMap.keys, List.length_map, OrdMap.size]
  have declared : parameters.keys = d.spec.bindings.keys := by
    apply OrdMap.keys_ext
    intro key
    rw [same.mem_iff]
    constructor
    · exact enforces.closed params _ props compiles valid known bound.closed bound.properties key
    · intro mem
      exact enforces.required params _ names compiles valid bound.required key ((bound.demanded key).mpr mem)
  have dense : delivery.positional.keys = List.range n := by
    have perm : delivery.positional.keys.Perm (List.range n) := by
      rw [List.perm_ext_iff_of_nodup delivery.positional.nodup_keys List.nodup_range]
      intro k
      rw [OrdMap.mem_keys, mem_range, positions]
      constructor
      · rintro ⟨text, found⟩
        obtain ⟨e, mem, place, -⟩ := (holds.positional k text).mp found
        exact ⟨e, mem, place⟩
      · rintro ⟨e, mem, place⟩
        obtain ⟨text, given⟩ := holds.given e mem
        exact ⟨text, (holds.positional k text).mpr ⟨e, mem, place, given⟩⟩
    have ordered : delivery.positional.keys.Pairwise (· < ·) :=
      List.pairwise_map.mpr delivery.positional.sorted
    exact perm.eq_of_pairwise (fun a b _ _ less more => absurd more (lt_asymm less)) ordered
      List.pairwise_lt_range
  have length : delivery.positional.values.length = n := by
    have counted := congrArg List.length dense
    simpa [OrdMap.keys, OrdMap.values] using counted
  refine ⟨⟨declared, ?_, ⟨delivery.positional.values, ?_, ?_, ?_⟩, holds.environment⟩,
    namesApart bound.apart⟩
  · intro key mem
    obtain ⟨e, there, rfl⟩ := mem_map.mp mem
    exact holds.given e there
  · rw [holds.arguments]
  · rw [length, countP_positional bound.apart positions]
  · intro k text
    rw [values_getElem? dense, holds.positional]

variable {parameters' : OrdMap String Json.Json}

theorem namedPair_eq
    (same : entries.flatMap (namedPair parameters) = entries.flatMap (namedPair parameters')) :
    ∀ e ∈ entries, namedPair parameters e = namedPair parameters' e := by
  induction entries with
  | nil => simp
  | cons e _ ih =>
    have length : (namedPair parameters e).length = (namedPair parameters' e).length := by
      unfold namedPair
      cases e.2 <;> rfl
    obtain ⟨head, tail⟩ := List.append_inj same length
    intro e' mem
    rcases mem_cons.mp mem with rfl | mem
    · exact head
    · exact ih tail e' mem

theorem Delivered.determines {bindings : OrdMap String ParameterBinding} {argv : List String}
    (first : Delivered bindings parameters argv environment)
    (second : Delivered bindings parameters' argv environment) (key : String) :
    supplied parameters key = supplied parameters' key := by
  by_cases bound : key ∈ bindings.keys
  · obtain ⟨text, given⟩ := first.given key bound
    obtain ⟨text', given'⟩ := second.given key bound
    obtain ⟨last, split, length, positions⟩ := first.arguments
    obtain ⟨last', split', length', positions'⟩ := second.arguments
    obtain ⟨named, rfl⟩ := List.append_inj' (split.symm.trans split') (length.trans length'.symm)
    obtain ⟨⟨_, binding⟩, mem, rfl⟩ := mem_map.mp bound
    rw [given, given']
    cases binding with
    | positional index =>
      have here := (positions index.toNat text).mpr ⟨_, mem, ⟨index, rfl, rfl⟩, given⟩
      have here' := (positions' index.toNat text').mpr ⟨_, mem, ⟨index, rfl, rfl⟩, given'⟩
      exact here.symm.trans here'
    | named =>
      have same := namedPair_eq named _ mem
      simp only [namedPair] at same given given'
      simpa [given, given'] using same
    | environment name =>
      have here := (first.environment name text).mpr ⟨_, mem, rfl, given⟩
      have here' := (second.environment name text').mpr ⟨_, mem, rfl, given'⟩
      exact here.symm.trans here'
  · have none : ∀ {p : OrdMap String Json.Json}, Delivered bindings p argv environment →
        supplied p key = none := by
      intro p delivered
      rw [← delivered.declared] at bound
      rw [supplied, OrdMap.get?_eq_none.mpr bound, Option.bind_none]
    rw [none first, none second]

/-- A script gets each declared parameter at its own place, and its arguments and its environment tell
what the parameters were. -/
theorem parameters_delivered (enforces : L.Enforces) {d : ScriptDefinition L}
    (shell : d.spec.profile ≠ .osquery) {argv : List String} {environment : OrdMap String String}
    (prepared : d.prepareParameters parameters = .ok (argv, environment)) :
    Delivered d.spec.bindings parameters argv environment ∧ NamesApart d.spec.bindings ∧
      ∀ parameters', d.prepareParameters parameters' = .ok (argv, environment) →
        ∀ key, supplied parameters key = supplied parameters' key := by
  obtain ⟨placed, apart⟩ := delivered enforces shell prepared
  refine ⟨placed, apart, ?_⟩
  intro parameters' prepared'
  exact placed.determines (delivered enforces shell prepared').1

end

def membersOnly : ScriptLibrary where
  Sql := Empty
  Applicability := Empty
  Mapping := Empty
  compiles _ := true
  isValid
    | .object params, .object value =>
        (match member params "required" with
          | some (.array names) => names.all (fun n => (asStr n).all ((value.map Prod.fst).contains ·))
          | _ => true) &&
        match member params "properties" with
        | some (.object props) => value.all (fun m => (props.map Prod.fst).contains m.1)
        | _ => true
    | _, _ => false
  sqlParameters := nofun
  validApplicability := nofun
  validMapping := nofun

theorem membersOnly_enforces : membersOnly.Enforces where
  required params value names _ valid given name mem := by
    simp only [membersOnly, given, Bool.and_eq_true, List.all_eq_true] at valid
    simpa [asStr] using valid.1 _ mem
  closed params value props _ valid _ _ given name mem := by
    simp only [membersOnly, given, Bool.and_eq_true, List.all_eq_true] at valid
    obtain ⟨m, there, rfl⟩ := mem_map.mp mem
    simpa using valid.2 m there

/-- A shell script with one argument and one variable. -/
def backupSpec : ScriptSpec membersOnly where
  profile := .posixSh
  sql := none
  runAs := .system
  encoding := .utf8
  parameters := .object [("additionalProperties", .bool false), ("properties", .object
    [("disk", .object [("type", .string "string")]), ("full", .object [("type", .string "boolean")])]),
    ("required", .array [.string "disk", .string "full"]), ("type", .string "object")]
  bindings := ⟨[("disk", .positional 0), ("full", .environment "RSS_PARAM_FULL")], by decide⟩
  output := .object []
  purpose := .action
  timeoutSeconds := 60
  outputBytes := 1024
  maxRows := 1

set_option maxRecDepth 8000 in
theorem backup_checked : checkScript membersOnly backupSpec = .ok () := by decide

def backup : ScriptDefinition membersOnly := ⟨backupSpec, backup_checked⟩

def backupParameters : OrdMap String Json.Json :=
  ⟨[("disk", .string "x y"), ("full", .bool true)], by decide⟩

set_option maxRecDepth 8000 in
theorem backup_prepared : backup.prepareParameters backupParameters =
    .ok (["x y"], ⟨[("RSS_PARAM_FULL", "true")], by decide⟩) := by rfl

theorem backup_delivered : Delivered backupSpec.bindings backupParameters ["x y"]
    ⟨[("RSS_PARAM_FULL", "true")], by decide⟩ :=
  (parameters_delivered membersOnly_enforces (by decide) backup_prepared).1

end RssMdm.Resource
