/- module: Query/Binding
   source: crates/query/src/cursor.rs, crates/query/src/directory.rs
   digest: The binding of a continuation to its query and authority, and what an authenticated
   continuation says about where it was issued. -/

import RssMdm.Lib.Json
import RssMdm.Query.Paging

set_option autoImplicit false
set_option linter.dupNamespace false

namespace RssMdm.Query

open Lib.Fallible Lib.Text
open Lib.Json (decimal decimal_injective decimal_numeric bytes bytes_injective Plain
  PlainItems)
open Option (bind_eq_bind bind_eq_some_iff)

/-- A serialized value; a number is the text that is written for it. -/
abbrev Tree : Type := Lib.Json.Json

/-- The values of filters and positions: texts, integers, flags and null. -/
def Json.scalar : Json → Option Tree
  | .null => some .null
  | .bool b => some (.bool b)
  | .number (some n) => some (.number (decimal n))
  | .string s => some (.string s)
  | _ => none

def scalarTrees : List Json → Option (List Tree)
  | [] => some []
  | v :: rest => do
      let t ← v.scalar
      let ts ← scalarTrees rest
      some (t :: ts)

def Operator.name : Operator → String
  | .eq => "Eq"
  | .ne => "Ne"
  | .lt => "Lt"
  | .le => "Le"
  | .gt => "Gt"
  | .ge => "Ge"
  | .isIn => "In"
  | .out => "Out"
  | .icontains => "Icontains"
  | .contains => "Contains"
  | .notContains => "NotContains"
  | .containsAny => "ContainsAny"
  | .containsAll => "ContainsAll"
  | .isNull => "IsNull"
  | .isNotNull => "IsNotNull"

mutual

def expressionTree : Expression String Json → Option Tree
  | .compare field operator vs => do
      let ts ← scalarTrees vs
      some (.object [("Compare", .object [("field", .string field),
        ("operator", .string operator.name), ("values", .array ts)])])
  | .and children => do
      let ts ← expressionTrees children
      some (.object [("And", .array ts)])
  | .or children => do
      let ts ← expressionTrees children
      some (.object [("Or", .array ts)])

def expressionTrees : List (Expression String Json) → Option (List Tree)
  | [] => some []
  | e :: rest => do
      let t ← expressionTree e
      let ts ← expressionTrees rest
      some (t :: ts)

end

def filterTree : Option (Expression String Json) → Option Tree
  | none => some .null
  | some e => expressionTree e

def hex (octets : List UInt8) : String :=
  String.ofList (octets.flatMap (fun b => hexByte true b.toNat))

def fingerprint (digest : List UInt8 → List UInt8) (value : Tree) : String :=
  hex (digest (bytes value))

variable {t : Tree}

theorem scalar_injective {a b : Json} (ha : a.scalar = some t) (hb : b.scalar = some t) :
    a = b := by
  rcases a with _ | a | (_ | m) | a | a | a <;> rcases b with _ | b | (_ | n) | b | b | b <;>
    simp only [Json.scalar, Option.some.injEq, reduceCtorEq] at ha hb <;>
    subst ha <;> simp_all
  exact decimal_injective hb.symm

theorem scalar_plain {a : Json} (h : a.scalar = some t) : Plain t := by
  rcases a with _ | a | (_ | n) | a | a | a <;> simp only [Json.scalar, Option.some.injEq,
    reduceCtorEq] at h <;> subst h
  · trivial
  · trivial
  · exact decimal_numeric n
  · trivial

theorem scalarTrees_injective {as bs : List Json} {ts : List Tree}
    (ha : scalarTrees as = some ts) (hb : scalarTrees bs = some ts) : as = bs := by
  induction as generalizing bs ts with
  | nil =>
    cases ha
    cases bs with
    | nil => rfl
    | cons =>
      simp only [scalarTrees, bind_eq_bind, bind_eq_some_iff] at hb
      obtain ⟨_, -, _, -, hb⟩ := hb
      cases hb
  | cons _ _ ih =>
    simp only [scalarTrees, bind_eq_bind, bind_eq_some_iff] at ha
    obtain ⟨t, first, rest, others, ha⟩ := ha
    cases ha
    cases bs with
    | nil => cases hb
    | cons =>
      simp only [scalarTrees, bind_eq_bind, bind_eq_some_iff] at hb
      obtain ⟨t', first', rest', others', hb⟩ := hb
      cases hb
      rw [scalar_injective first first', ih others others']

theorem scalarTrees_plain {as : List Json} {ts : List Tree} (h : scalarTrees as = some ts) :
    PlainItems ts := by
  induction as generalizing ts with
  | nil =>
    cases h
    trivial
  | cons _ _ ih =>
    simp only [scalarTrees, bind_eq_bind, bind_eq_some_iff] at h
    obtain ⟨t, first, rest, others, h⟩ := h
    cases h
    exact ⟨scalar_plain first, ih others⟩

def operatorNames : List Operator :=
  [.eq, .ne, .lt, .le, .gt, .ge, .isIn, .out, .icontains, .contains, .notContains, .containsAny,
    .containsAll, .isNull, .isNotNull]

theorem name_injective {a b : Operator} (h : a.name = b.name) : a = b := by
  have distinct : (operatorNames.map Operator.name).Nodup := by decide
  have listed : ∀ o : Operator, o ∈ operatorNames := by
    intro o
    cases o <;> decide
  exact List.inj_on_of_nodup_map distinct (listed a) (listed b) h

mutual

theorem expressionTree_injective : ∀ {a b : Expression String Json} {t : Tree},
    expressionTree a = some t → expressionTree b = some t → a = b
  | .compare field operator vs, b, t, ha, hb => by
      simp only [expressionTree, bind_eq_bind, bind_eq_some_iff] at ha
      obtain ⟨ts, values, ha⟩ := ha
      cases ha
      cases b with
      | compare =>
        simp only [expressionTree, bind_eq_bind, bind_eq_some_iff] at hb
        obtain ⟨ts', values', hb⟩ := hb
        simp only [Option.some.injEq, Lib.Json.Json.object.injEq, List.cons.injEq, Prod.mk.injEq,
          Lib.Json.Json.string.injEq, Lib.Json.Json.array.injEq, true_and, and_true] at hb
        obtain ⟨rfl, named, rfl⟩ := hb
        rw [name_injective named, scalarTrees_injective values values']
      | and | or =>
        simp only [expressionTree, bind_eq_bind, bind_eq_some_iff] at hb
        simp at hb
  | .and children, b, t, ha, hb => by
      simp only [expressionTree, bind_eq_bind, bind_eq_some_iff] at ha
      obtain ⟨ts, trees, ha⟩ := ha
      cases ha
      cases b with
      | compare =>
        simp only [expressionTree, bind_eq_bind, bind_eq_some_iff] at hb
        simp at hb
      | and =>
        simp only [expressionTree, bind_eq_bind, bind_eq_some_iff] at hb
        obtain ⟨ts', trees', hb⟩ := hb
        simp only [Option.some.injEq, Lib.Json.Json.object.injEq, List.cons.injEq, Prod.mk.injEq,
          Lib.Json.Json.array.injEq, true_and, and_true] at hb
        rw [hb] at trees'
        rw [expressionTrees_injective trees trees']
      | or =>
        simp only [expressionTree, bind_eq_bind, bind_eq_some_iff] at hb
        simp at hb
  | .or children, b, t, ha, hb => by
      simp only [expressionTree, bind_eq_bind, bind_eq_some_iff] at ha
      obtain ⟨ts, trees, ha⟩ := ha
      cases ha
      cases b with
      | compare | and =>
        simp only [expressionTree, bind_eq_bind, bind_eq_some_iff] at hb
        simp at hb
      | or =>
        simp only [expressionTree, bind_eq_bind, bind_eq_some_iff] at hb
        obtain ⟨ts', trees', hb⟩ := hb
        simp only [Option.some.injEq, Lib.Json.Json.object.injEq, List.cons.injEq, Prod.mk.injEq,
          Lib.Json.Json.array.injEq, true_and, and_true] at hb
        rw [hb] at trees'
        rw [expressionTrees_injective trees trees']

theorem expressionTrees_injective : ∀ {as bs : List (Expression String Json)} {ts : List Tree},
    expressionTrees as = some ts → expressionTrees bs = some ts → as = bs
  | [], [], _, _, _ => rfl
  | [], b :: bs, ts, ha, hb => by
      cases ha
      simp only [expressionTrees, bind_eq_bind, bind_eq_some_iff] at hb
      obtain ⟨_, -, _, -, hb⟩ := hb
      cases hb
  | a :: as, bs, ts, ha, hb => by
      simp only [expressionTrees, bind_eq_bind, bind_eq_some_iff] at ha
      obtain ⟨t, first, rest, others, ha⟩ := ha
      cases ha
      cases bs with
      | nil => cases hb
      | cons =>
        simp only [expressionTrees, bind_eq_bind, bind_eq_some_iff] at hb
        obtain ⟨t', first', rest', others', hb⟩ := hb
        cases hb
        rw [expressionTree_injective first first', expressionTrees_injective others others']

end

mutual

theorem expressionTree_plain : ∀ {e : Expression String Json} {t : Tree},
    expressionTree e = some t → Plain t
  | .compare field operator vs, t, h => by
      simp only [expressionTree, bind_eq_bind, bind_eq_some_iff] at h
      obtain ⟨ts, values, h⟩ := h
      cases h
      exact ⟨⟨trivial, trivial, scalarTrees_plain values, trivial⟩, trivial⟩
  | .and children, t, h | .or children, t, h => by
      simp only [expressionTree, bind_eq_bind, bind_eq_some_iff] at h
      obtain ⟨ts, trees, h⟩ := h
      cases h
      exact ⟨expressionTrees_plain trees, trivial⟩

theorem expressionTrees_plain : ∀ {es : List (Expression String Json)} {ts : List Tree},
    expressionTrees es = some ts → PlainItems ts
  | [], ts, h => by
      cases h
      trivial
  | e :: es, ts, h => by
      simp only [expressionTrees, bind_eq_bind, bind_eq_some_iff] at h
      obtain ⟨t, first, rest, others, h⟩ := h
      cases h
      exact ⟨expressionTree_plain first, expressionTrees_plain others⟩

end

variable {a : Option (Expression String Json)}

theorem filterTree_injective {b : Option (Expression String Json)} (ha : filterTree a = some t)
    (hb : filterTree b = some t) : a = b := by
  have object : ∀ e : Expression String Json, expressionTree e ≠ some .null := by
    intro e h
    cases e <;>
      · simp only [expressionTree, bind_eq_bind, bind_eq_some_iff] at h
        obtain ⟨_, -, h⟩ := h
        cases h
  cases a with
  | none =>
    cases ha
    cases b with
    | none => rfl
    | some b => exact absurd hb (object b)
  | some a =>
    cases b with
    | none =>
      cases hb
      exact absurd ha (object a)
    | some => rw [expressionTree_injective ha hb]

theorem filterTree_plain (h : filterTree a = some t) : Plain t := by
  cases a with
  | none =>
    cases h
    trivial
  | some => exact expressionTree_plain h

theorem hexByte_injective {a b : UInt8} (h : hexByte true a.toNat = hexByte true b.toNat) :
    a = b := by
  have codes : ∀ m < 16, ∀ n < 16, "0123456789abcdef".toList.getD m '0' =
      "0123456789abcdef".toList.getD n '0' → m = n := by decide
  simp only [hexByte, if_true, List.cons.injEq, and_true] at h
  have high := codes _ (Nat.mod_lt _ (by decide)) _ (Nat.mod_lt _ (by decide)) h.1
  have low := codes _ (Nat.mod_lt _ (by decide)) _ (Nat.mod_lt _ (by decide)) h.2
  have ha := a.toNat_lt
  have hb := b.toNat_lt
  exact UInt8.toNat_inj.mp (by omega)

theorem hex_injective {a b : List UInt8} (h : hex a = hex b) : a = b := by
  replace h := String.ofList_injective h
  induction a generalizing b with
  | nil =>
    cases b with
    | nil => rfl
    | cons => cases h
  | cons _ _ ih =>
    cases b with
    | nil => cases h
    | cons =>
      obtain ⟨first, others⟩ := List.append_inj h rfl
      rw [hexByte_injective first, ih others]

theorem fingerprint_injective {digest : List UInt8 → List UInt8}
    (injective : Function.Injective digest) {s : Tree} (hs : Plain s) (ht : Plain t)
    (h : fingerprint digest s = fingerprint digest t) : s = t :=
  bytes_injective hs ht (injective (hex_injective h))

namespace CursorCodec

variable (c : CursorCodec)

def token (context : String) (position : Position) : String :=
  c.base64 (c.message context position ++ c.sign (c.message context position))

/-- What holds where the holder of the key has issued some continuations, of scalars as validated
positions are: tags are not forged, the alphabet accepts canonical texts only, JSON comes back. -/
structure Ideal (issued : String → Position → Prop) : Prop where
  tag_length : ∀ bytes, (c.sign bytes).length = 32
  verifies : ∀ {context position}, issued context position →
    c.verify (c.message context position) (c.sign (c.message context position)) = true
  unforgeable : ∀ {bytes tag}, c.verify bytes tag = true → tag = c.sign bytes ∧
    ∃ context position, issued context position ∧ bytes = c.message context position
  decodes : ∀ bytes, c.unbase64 (c.base64 bytes) = some bytes
  canonical : ∀ {text bytes}, c.unbase64 text = some bytes → c.base64 bytes = text
  empty : c.unbase64 "" = some []
  scalars : ∀ {context position}, issued context position →
    ∀ v ∈ position, ∃ t, Json.scalar v = some t
  json : ∀ {context position}, issued context position →
    (∀ v ∈ position, ∃ t, Json.scalar v = some t) →
      c.fromJson (c.toJson ⟨1, context, position⟩) = some ⟨1, context, position⟩

variable {c} {context : String} {issued : String → Position → Prop} {position : Position}

theorem Ideal.faithful (ideal : c.Ideal issued) (made : issued context position) :
    c.Faithful context position where
  tag_length := ideal.tag_length _
  verifies := ideal.verifies made
  base64 := ideal.decodes _
  nonempty := by
    intro none
    have decoded := ideal.decodes (c.message context position ++
      c.sign (c.message context position))
    rw [none, ideal.empty, Option.some.injEq] at decoded
    have length := congrArg List.length decoded
    rw [List.length_append, ideal.tag_length, List.length_nil] at length
    omega
  json := ideal.json made (ideal.scalars made)

variable {text : String}

theorem encode_eq_ok (h : c.encode context position = .ok text) :
    text = c.token context position ∧ text.utf8ByteSize ≤ 4096 := by
  obtain ⟨text', bounded, h⟩ := of_bind h
  rw [guard_eq_ok] at h
  cases h.2
  simp only [encodeBounded, guard_eq_ok] at bounded
  obtain ⟨fits, same⟩ := bounded
  cases same
  exact ⟨rfl, Nat.le_of_not_gt fits⟩

theorem openPayload_other (ideal : c.Ideal issued) {other : String} (made : issued context position)
    (differs : other ≠ context) :
    c.openPayload (c.message context position ++ c.sign (c.message context position)) other =
      .error .cursorInvalidated := by
  have length : (c.message context position ++ c.sign (c.message context position)).length - 32 =
      (c.message context position).length := by
    rw [List.length_append, ideal.tag_length, Nat.add_sub_cancel]
  have long : ¬(c.message context position ++ c.sign (c.message context position)).length < 32 := by
    rw [List.length_append, ideal.tag_length]
    omega
  have read := ideal.json made (ideal.scalars made)
  rw [openPayload, if_neg long]
  simp only [length, List.take_left', List.drop_left', ideal.verifies made]
  simp [message, read, Ne.symm differs]

theorem decode_other (ideal : c.Ideal issued) {other : String} (made : issued context position)
    (encoded : c.encode context position = .ok text) (differs : other ≠ context) :
    c.decode text other = .error .cursorInvalidated := by
  obtain ⟨rfl, fits⟩ := encode_eq_ok encoded
  have faithful := ideal.faithful made
  have accepted : c.validateToken (c.token context position) 4096 = .ok () := by
    have nonempty : c.token context position ≠ "" := faithful.nonempty
    have decoded : c.unbase64 (c.token context position) = _ := faithful.base64
    simp [validateToken, Nat.not_lt.mpr fits, nonempty, decoded]
  have decoded : c.unbase64 (c.token context position) = _ := faithful.base64
  rw [decode, decodeBounded, accepted, ok_bind, decoded]
  exact openPayload_other ideal made differs

theorem openPayload_eq_ok {bytes : List UInt8} (h : c.openPayload bytes context = .ok position) :
    c.verify (bytes.take (bytes.length - 32)) (bytes.drop (bytes.length - 32)) = true ∧
      c.fromJson ((bytes.take (bytes.length - 32)).drop domain.length) =
        some ⟨1, context, position⟩ := by
  rw [openPayload, guard_eq_ok] at h
  obtain ⟨-, h⟩ := h
  rw [guard_eq_ok, guard_eq_ok] at h
  obtain ⟨verified, -, h⟩ := h
  refine ⟨by simpa using verified, ?_⟩
  split at h
  · cases h
  rename_i data read
  rw [guard_eq_ok] at h
  obtain ⟨bound, h⟩ := h
  cases h
  obtain ⟨version, context', position⟩ := data
  simp only [Bool.or_eq_true, decide_eq_true_eq, not_or, not_not] at bound
  obtain ⟨rfl, rfl⟩ := bound
  exact read

theorem decode_eq_ok (ideal : c.Ideal issued) (h : c.decode text context = .ok position) :
    issued context position ∧ text = c.token context position := by
  rw [decode, decodeBounded, check_bind_eq_ok] at h
  obtain ⟨-, h⟩ := h
  split at h
  · cases h
  rename_i bytes decoded
  obtain ⟨verified, read⟩ := openPayload_eq_ok h
  obtain ⟨tag, context', position', made, payload⟩ := ideal.unforgeable verified
  have reads := ideal.json made (ideal.scalars made)
  rw [payload, message, List.drop_left', reads, Option.some.injEq, Payload.mk.injEq] at read
  · obtain ⟨-, rfl, rfl⟩ := read
    refine ⟨made, ?_⟩
    have whole := List.take_append_drop (bytes.length - 32) bytes
    rw [tag, payload] at whole
    rw [← ideal.canonical decoded, token, whole]
  · rfl

end CursorCodec

namespace Directory

variable (digest : List UInt8 → List UInt8) (parseUuid : ParseUuid)

def sortTree (s : SortKey) : Tree :=
  .object [("field", .string s.field), ("descending", .bool s.descending)]

def bindingTree (q : Query) (authority : Tree) : Option Tree := do
  let filter ← filterTree q.filter
  some (.array [.string q.schema.id, authority, filter, .array (q.sort.map sortTree),
    .array (q.fields.map .string)])

def Query.binding (q : Query) (authority : Tree) : Except QueryError String :=
  match bindingTree q authority with
  | none => .error .invalid
  | some t => .ok (fingerprint digest t)

mutual

def walkFilter (name : String) : Expression String Json → Bool
  | .compare field _ _ => field = name
  | .and children => walkFilters name children
  | .or children => walkFilters name children

def walkFilters (name : String) : List (Expression String Json) → Bool
  | [] => false
  | e :: rest => walkFilter name e || walkFilters name rest

end

def Query.mentions (q : Query) (name : String) : Bool := q.filter.any (walkFilter name)

def Query.defaultFilter (q : Query) (name value : String) : Except QueryError Query :=
  if q.mentions name then .ok q
  else do
    let expr ← bindFilter parseUuid q.schema (.compare name .eq [value])
    .ok { q with filter := some (match q.filter with
      | some e => .and [e, expr]
      | none => expr) }

/-- The queries that a directory makes: constructed, then defaulted any number of times. -/
inductive Effective : Query → Prop where
  | new {schema : Schema} {params : Parameters} {q : Query}
      (h : Query.new parseUuid schema params = .ok q) : Effective q
  | defaults {q q' : Query} {name value : String} (earlier : Effective q)
      (h : q.defaultFilter parseUuid name value = .ok q') : Effective q'

theorem scalar_of_value {v : Json} {x : Scalar} (h : value v = .ok x) :
    ∃ t, Json.scalar v = some t := by
  rcases v with _ | b | (_ | n) | s | items | members
  · exact ⟨_, rfl⟩
  · exact ⟨_, rfl⟩
  · cases h
  · exact ⟨_, rfl⟩
  · exact ⟨_, rfl⟩
  · cases h
  · cases h

theorem scalars_trees {kind : Kind} {ss : List String} {vs : List Json}
    (h : scalars parseUuid kind ss = .ok vs) : ∃ ts, scalarTrees vs = some ts := by
  induction ss generalizing vs with
  | nil =>
    cases h
    exact ⟨[], rfl⟩
  | cons _ _ ih =>
    obtain ⟨v, first, h⟩ := of_bind h
    obtain ⟨rest, others, h⟩ := of_bind h
    cases h
    obtain ⟨x, bound⟩ := valid_bindable parseUuid (scalar_valid parseUuid first)
    obtain ⟨t, tree⟩ := scalar_of_value bound
    obtain ⟨ts, trees⟩ := ih others
    exact ⟨t :: ts, by simp [scalarTrees, tree, trees]⟩

mutual

theorem bindFilter_tree {schema : Schema} : ∀ {e : Expr} {bound : Expression String Json},
    bindFilter parseUuid schema e = .ok bound → ∃ t, expressionTree bound = some t
  | .compare field operator ss, bound, h => by
      obtain ⟨spec, -, h⟩ := of_bind h
      rw [guard_eq_ok] at h
      obtain ⟨vs, typed, h⟩ := of_bind h.2
      cases h
      obtain ⟨ts, trees⟩ := scalars_trees parseUuid typed
      exact ⟨_, by rw [expressionTree, trees]; rfl⟩
  | .and children, bound, h | .or children, bound, h => by
      obtain ⟨es, made, h⟩ := of_bind h
      cases h
      obtain ⟨ts, trees⟩ := bindFilters_trees made
      exact ⟨_, by rw [expressionTree, trees]; rfl⟩

theorem bindFilters_trees {schema : Schema} : ∀ {es : List Expr}
    {bounds : List (Expression String Json)},
    bindFilters parseUuid schema es = .ok bounds → ∃ ts, expressionTrees bounds = some ts
  | [], bounds, h => by
      cases h
      exact ⟨[], rfl⟩
  | e :: es, bounds, h => by
      obtain ⟨bound, first, h⟩ := of_bind h
      obtain ⟨others, made, h⟩ := of_bind h
      cases h
      obtain ⟨t, tree⟩ := bindFilter_tree first
      obtain ⟨ts, trees⟩ := bindFilters_trees made
      exact ⟨t :: ts, by simp [expressionTrees, tree, trees]⟩

end

variable {params : Parameters} {q : Query} {schema : Schema}

theorem new_eq_ok (h : Query.new parseUuid schema params = .ok q) :
    newFilter parseUuid schema params.filter = .ok q.filter ∧
      appendKeys schema params.sort schema.keys = .ok q.sort ∧ q.schema = schema ∧
      q.fields = (outputs schema params.fields).insertionSort (fun a b => a ≤ b) := by
  rw [Query.new, guard_eq_ok] at h
  obtain ⟨-, h⟩ := h
  obtain ⟨filter, made, h⟩ := of_bind h
  obtain ⟨_, -, h⟩ := of_bind h
  obtain ⟨sort, sorted, h⟩ := of_bind h
  obtain ⟨_, -, h⟩ := of_bind h
  rw [guard_eq_ok] at h
  rw [mapError_eq_ok] at sorted
  cases h.2
  exact ⟨made, sorted, rfl, rfl⟩

theorem newFilter_tree {text : Option String} {filter : Option (Expression String Json)}
    (h : newFilter parseUuid schema text = .ok filter) : ∃ t, filterTree filter = some t := by
  cases text with
  | none =>
    cases h
    exact ⟨_, rfl⟩
  | some =>
    obtain ⟨bound, parsed, h⟩ := of_bind h
    cases h
    obtain ⟨e, -, made⟩ := of_bind parsed
    rw [mapError_eq_ok] at made
    exact bindFilter_tree parseUuid made

theorem Effective.tree (made : Effective parseUuid q) :
    ∃ t, filterTree q.filter = some t := by
  induction made with
  | new h => exact newFilter_tree parseUuid (new_eq_ok parseUuid h).1
  | @defaults q _ _ _ _ h ih =>
    rw [Query.defaultFilter] at h
    split at h
    · cases h
      exact ih
    obtain ⟨expr, bound, h⟩ := of_bind h
    cases h
    obtain ⟨added, tree⟩ := bindFilter_tree parseUuid bound
    obtain ⟨t, before⟩ := ih
    cases own : q.filter with
    | none => exact ⟨added, by simpa [filterTree] using tree⟩
    | some e =>
      rw [own] at before
      have first : expressionTree e = some t := before
      exact ⟨.object [("And", .array [t, added])],
        by simp [filterTree, expressionTree, expressionTrees, first, tree]⟩

theorem sortTree_injective : Function.Injective sortTree := by
  rintro ⟨field, descending⟩ ⟨field', descending'⟩ h
  simp only [sortTree, Lib.Json.Json.object.injEq, List.cons.injEq, Prod.mk.injEq,
    Lib.Json.Json.string.injEq, Lib.Json.Json.bool.injEq, true_and, and_true] at h
  rw [h.1, h.2]

theorem plainItems_map {α : Type} {f : α → Tree} (plain : ∀ a, Plain (f a)) (as : List α) :
    PlainItems (as.map f) := by
  induction as with
  | nil => trivial
  | cons a _ ih => exact ⟨plain a, ih⟩

theorem bindingTree_plain {authority : Tree} (plain : Plain authority)
    (h : bindingTree q authority = some t) : Plain t := by
  simp only [bindingTree, bind_eq_bind, bind_eq_some_iff] at h
  obtain ⟨filter, tree, h⟩ := h
  cases h
  have sorts : PlainItems (q.sort.map sortTree) :=
    plainItems_map (f := sortTree) (fun _ => ⟨trivial, trivial, trivial⟩) q.sort
  have fields : PlainItems (q.fields.map Lib.Json.Json.string) :=
    plainItems_map (f := Lib.Json.Json.string) (fun _ => trivial) q.fields
  exact ⟨trivial, plain, filterTree_plain tree, sorts, fields, trivial⟩

variable {q' : Query}

theorem bindingTree_injective {a a' : Tree} (h : bindingTree q a = some t)
    (h' : bindingTree q' a' = some t) : q.schema.id = q'.schema.id ∧ a = a' ∧
      q.filter = q'.filter ∧ q.sort = q'.sort ∧ q.fields = q'.fields := by
  simp only [bindingTree, bind_eq_bind, bind_eq_some_iff] at h h'
  obtain ⟨filter, tree, h⟩ := h
  obtain ⟨filter', tree', h'⟩ := h'
  cases h
  simp only [Option.some.injEq, Lib.Json.Json.array.injEq, List.cons.injEq,
    Lib.Json.Json.string.injEq, and_true] at h'
  obtain ⟨id, rfl, rfl, sort, fields⟩ := h'
  have strings : Function.Injective Lib.Json.Json.string := fun _ _ h =>
    Lib.Json.Json.string.inj h
  exact ⟨id.symm, rfl, filterTree_injective tree tree',
    (sortTree_injective.list_map sort).symm, (strings.list_map fields).symm⟩

theorem binding_eq_iff (injective : Function.Injective digest) (made : Effective parseUuid q)
    (made' : Effective parseUuid q') {a a' : Tree} (plain : Plain a) (plain' : Plain a') :
    ∃ b b', q.binding digest a = .ok b ∧ q'.binding digest a' = .ok b' ∧
      (b = b' ↔ q.schema.id = q'.schema.id ∧ a = a' ∧ q.filter = q'.filter ∧ q.sort = q'.sort ∧
        q.fields = q'.fields) := by
  obtain ⟨filter, tree⟩ := made.tree
  obtain ⟨filter', tree'⟩ := made'.tree
  obtain ⟨t, whole⟩ : ∃ t, bindingTree q a = some t := ⟨_, by rw [bindingTree, tree]; rfl⟩
  obtain ⟨t', whole'⟩ : ∃ t, bindingTree q' a' = some t := ⟨_, by rw [bindingTree, tree']; rfl⟩
  refine ⟨fingerprint digest t, fingerprint digest t', by rw [Query.binding, whole],
    by rw [Query.binding, whole'], ?_, ?_⟩
  · intro same
    have trees := fingerprint_injective injective (bindingTree_plain plain whole)
      (bindingTree_plain plain' whole') same
    rw [← trees] at whole'
    exact bindingTree_injective whole whole'
  · rintro ⟨id, rfl, filters, sorts, fields⟩
    have same : bindingTree q a = bindingTree q' a := by
      rw [bindingTree, bindingTree, id, filters, sorts, fields]
    rw [same, whole', Option.some.injEq] at whole
    rw [whole]

theorem fields_sorted (made : Query.new parseUuid schema params = .ok q) :
    q.fields.Pairwise (fun a b => a ≤ b) := by
  rw [(new_eq_ok parseUuid made).2.2.2]
  exact List.pairwise_insertionSort _ _

theorem eq_of_sorted {xs ys : List String} (hx : xs.Pairwise (fun a b => a ≤ b))
    (hy : ys.Pairwise (fun a b => a ≤ b)) (perm : xs.Perm ys) : xs = ys :=
  perm.eq_of_pairwise (fun _ _ _ _ => String.le_antisymm) hx hy

theorem binding_of_perm {params' : Parameters} (made : Query.new parseUuid schema params = .ok q)
    (made' : Query.new parseUuid schema params' = .ok q') (filters : params.filter = params'.filter)
    (sorts : params.sort = params'.sort)
    (fields : (outputs schema params.fields).Perm (outputs schema params'.fields)) (a : Tree) :
    q.binding digest a = q'.binding digest a := by
  obtain ⟨filter, sort, is, field⟩ := new_eq_ok parseUuid made
  obtain ⟨filter', sort', is', field'⟩ := new_eq_ok parseUuid made'
  rw [filters, filter'] at filter
  rw [sorts, sort'] at sort
  have ordered : q.fields = q'.fields := by
    refine eq_of_sorted (fields_sorted parseUuid made) (fields_sorted parseUuid made') ?_
    rw [field, field']
    exact (List.perm_insertionSort _ _).trans (fields.trans (List.perm_insertionSort _ _).symm)
  have tree : bindingTree q a = bindingTree q' a := by
    rw [bindingTree, bindingTree, is, is', Except.ok.inj filter, Except.ok.inj sort, ordered]
  rw [Query.binding, Query.binding, tree]

/-- A continuation opens under its own binding only and by its own token only; and the binding says
exactly for which schema, authority, filter, ordering and fields it was issued. -/
theorem continuation_bound (injective : Function.Injective digest) {codec : CursorCodec}
    {issued : String → Position → Prop} (ideal : codec.Ideal issued) :
    (∀ {context token : String} {p : Position}, issued context p →
      codec.encode context p = .ok token →
        codec.decode token context = .ok p ∧
        (∀ other, other ≠ context → codec.decode token other = .error .cursorInvalidated) ∧
        ∀ modified, modified ≠ token →
          (∀ p', issued context p' → p' ≠ p → modified ≠ codec.token context p') →
            ∃ e, codec.decode modified context = .error e) ∧
    (∀ {context token : String} {p : Position}, codec.decode token context = .ok p →
      issued context p ∧ token = codec.token context p) ∧
    (∀ {q q' : Query}, Effective parseUuid q → Effective parseUuid q' → ∀ {a a' : Tree},
      Plain a → Plain a' → ∃ b b', q.binding digest a = .ok b ∧ q'.binding digest a' = .ok b' ∧
        (b = b' ↔ q.schema.id = q'.schema.id ∧ a = a' ∧ q.filter = q'.filter ∧
          q.sort = q'.sort ∧ q.fields = q'.fields)) ∧
    (∀ {schema : Schema} {params params' : Parameters} {q q' : Query},
      Query.new parseUuid schema params = .ok q → Query.new parseUuid schema params' = .ok q' →
      params.filter = params'.filter → params.sort = params'.sort →
      (outputs schema params.fields).Perm (outputs schema params'.fields) →
        ∀ a, q.binding digest a = q'.binding digest a) ∧
    ∀ {q q' : Query}, Effective parseUuid q → Effective parseUuid q' → ∀ {a a' : Tree},
      Plain a → Plain a' → ∀ {b b' token : String} {p p' : Position}, q.binding digest a = .ok b →
      q'.binding digest a' = .ok b' → issued b p → codec.encode b p = .ok token →
      q'.cursor = some token → q'.after parseUuid codec b' = .ok (some p') →
        p' = p ∧ q.schema.id = q'.schema.id ∧ a = a' ∧ q.filter = q'.filter ∧ q.sort = q'.sort ∧
          q.fields = q'.fields := by
  refine ⟨?_, fun h => CursorCodec.decode_eq_ok ideal h,
    fun made made' _ _ plain plain' => binding_eq_iff digest parseUuid injective made made' plain
      plain', fun made made' filters sorts fields a =>
      binding_of_perm digest parseUuid made made' filters sorts fields a, ?_⟩
  · intro context token p made encoded
    refine ⟨codec.decode_encode (ideal.faithful made) encoded,
      fun other differs => CursorCodec.decode_other ideal made encoded differs, ?_⟩
    intro modified differs others
    cases decoded : codec.decode modified context with
    | error e => exact ⟨e, rfl⟩
    | ok p' =>
      obtain ⟨made', is⟩ := CursorCodec.decode_eq_ok ideal decoded
      by_cases same : p' = p
      · rw [same, ← (CursorCodec.encode_eq_ok encoded).1] at is
        exact absurd is differs
      · exact absurd is (others p' made' same)
  · intro q q' made made' a a' plain plain' b b' token p p' bound bound' issue encoded cursor taken
    obtain ⟨c, c', is, is', iff⟩ :=
      binding_eq_iff digest parseUuid injective made made' plain plain'
    rw [bound] at is
    rw [bound'] at is'
    cases is
    cases is'
    rw [Query.after, cursor] at taken
    obtain ⟨position, decoded, taken⟩ := of_bind taken
    rw [check_bind_eq_ok] at taken
    cases taken.2
    by_cases same : b = b'
    · subst same
      have back := codec.decode_encode (ideal.faithful issue) encoded
      rw [back] at decoded
      cases decoded
      exact ⟨rfl, iff.mp rfl⟩
    · have refused := CursorCodec.decode_other ideal issue encoded (Ne.symm same)
      rw [refused] at decoded
      cases decoded

/-- The position of a row whose name is missing. -/
def unnamedPosition : Position := [.null, .string "a"]

def issuedOnce (context : String) (p : Position) : Prop := context = "org" ∧ p = unnamedPosition

/-- The codec of the samples, whose only tag is the one of that continuation. -/
def onceCodec : CursorCodec :=
  { sampleCodec with
    verify := fun message tag => message = sampleCodec.message "org" unnamedPosition &&
      tag = sampleCodec.sign message }

theorem onceCodec_ideal : onceCodec.Ideal issuedOnce where
  tag_length := fun _ => Lib.Sha256.digest_length _
  verifies := by
    rintro context position ⟨rfl, rfl⟩
    have same : onceCodec.message "org" unnamedPosition =
        sampleCodec.message "org" unnamedPosition := rfl
    rw [same]
    simp [onceCodec]
  unforgeable := by
    intro bytes tag verified
    rw [onceCodec, Bool.and_eq_true, decide_eq_true_eq, decide_eq_true_eq] at verified
    exact ⟨verified.2, "org", unnamedPosition, ⟨rfl, rfl⟩, verified.1⟩
  decodes := by
    intro bytes
    simp [onceCodec, sampleCodec, Lib.Base64.decode_encode]
  canonical := by
    intro text bytes decoded
    have back : Lib.Base64.encode bytes = text.toList := Lib.Base64.encode_of_decode decoded
    change String.ofList (Lib.Base64.encode bytes) = text
    rw [back, String.ofList_toList]
  empty := rfl
  scalars := by
    rintro context position ⟨rfl, rfl⟩ v member
    simp only [unnamedPosition, List.mem_cons, List.not_mem_nil, or_false] at member
    rcases member with rfl | rfl
    · exact ⟨_, rfl⟩
    · exact ⟨_, rfl⟩
  json := by
    rintro context position ⟨rfl, rfl⟩ -
    rfl

theorem utf8Len_eq_length {cs : List Char} (one : ∀ c ∈ cs, c.utf8Size = 1) :
    utf8Len cs = cs.length := by
  induction cs with
  | nil => rfl
  | cons c _ ih =>
    have others := ih fun d mem => one d (List.mem_cons_of_mem c mem)
    rw [utf8Len_cons, one c List.mem_cons_self, others, List.length_cons, Nat.add_comm]

theorem onceCodec_encodes : ∃ token, onceCodec.encode "org" unnamedPosition = .ok token := by
  have short : (onceCodec.message "org" unnamedPosition).length ≤ 100 := by decide
  have fits : (onceCodec.token "org" unnamedPosition).utf8ByteSize ≤ 4096 := by
    have text : (onceCodec.token "org" unnamedPosition).toList = Lib.Base64.encode
        (onceCodec.message "org" unnamedPosition ++
          onceCodec.sign (onceCodec.message "org" unnamedPosition)) := String.toList_ofList
    have length := Lib.Base64.length_encode_le (onceCodec.message "org" unnamedPosition ++
      onceCodec.sign (onceCodec.message "org" unnamedPosition))
    rw [List.length_append, onceCodec_ideal.tag_length] at length
    rw [utf8ByteSize_eq, text, utf8Len_eq_length (Lib.Base64.encode_utf8Size _)]
    omega
  have made : issuedOnce "org" unnamedPosition := ⟨rfl, rfl⟩
  have nonempty := (onceCodec_ideal.faithful made).nonempty
  refine ⟨onceCodec.token "org" unnamedPosition, ?_⟩
  have bounded : onceCodec.encodeBounded "org" unnamedPosition 4096 =
      .ok (onceCodec.token "org" unnamedPosition) := by
    rw [CursorCodec.encodeBounded]
    exact if_neg (Nat.not_lt.mpr fits)
  have typed : onceCodec.pageCursor (onceCodec.token "org" unnamedPosition) = true := by
    have empty : (onceCodec.token "org" unnamedPosition).isEmpty = false := by
      rw [← Bool.not_eq_true, String.isEmpty_iff]
      exact nonempty
    have page : ∀ text, onceCodec.pageCursor text = (!text.isEmpty && text.utf8ByteSize ≤ 4096) :=
      fun _ => rfl
    rw [page, empty, decide_eq_true fits]
    rfl
  rw [CursorCodec.encode, bounded, ok_bind, if_neg (by rw [typed]; decide)]

/-- The continuation of the sample opens under its own context and no other. -/
theorem continuation_bound_once : ∃ token, onceCodec.encode "org" unnamedPosition = .ok token ∧
    onceCodec.decode token "org" = .ok unnamedPosition ∧
    onceCodec.decode token "other" = .error .cursorInvalidated := by
  obtain ⟨token, encoded⟩ := onceCodec_encodes
  have bound := continuation_bound id (fun _ => none) Function.injective_id onceCodec_ideal
  obtain ⟨opens, refused, -⟩ := bound.1 ⟨rfl, rfl⟩ encoded
  exact ⟨token, encoded, opens, refused "other" (by decide)⟩

end Directory

end RssMdm.Query
