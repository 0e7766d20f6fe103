/- module: Query/Directory
   source: crates/query/src/directory.rs, crates/query/src/parameters.rs
   digest: Checked directory queries, continuation positions and pages. -/

import Mathlib.Data.List.Sort
import RssMdm.Query.Cursor

set_option autoImplicit false
set_option linter.dupNamespace false

namespace RssMdm.Query

def Operator.range : Operator → Bool
  | .lt | .le | .gt | .ge => true
  | _ => false

def Operator.directory : Operator → Bool
  | .eq | .ne | .lt | .le | .gt | .ge | .isIn | .out | .icontains => true
  | _ => false

def Json.isNull : Json → Bool
  | .null => true
  | _ => false

def Json.asStr : Json → Option String
  | .string s => some s
  | _ => none

def Json.asI64 : Json → Option Int
  | .number n => n
  | _ => none

def Json.isBoolean : Json → Bool
  | .bool _ => true
  | _ => false

namespace Directory

open Lib.Fallible Lib.Outcome Lib.Text

inductive Kind where
  | text
  | uuid
  | integer
  | boolean
  | enum (values : List String)
  | enumSet (values : List String)
  | uuidSet
  | object
deriving DecidableEq

structure Field where
  name : String
  kind : Kind
  filter : Bool
  sort : Bool
  output : Bool
deriving DecidableEq

/-- The field catalog of a directory; `keys` is the unique identity of its rows. -/
structure Schema where
  id : String
  fields : List Field
  keys : List String
  defaultLimit : UInt16
  maxLimit : UInt16
deriving DecidableEq

structure SortKey where
  field : String
  descending : Bool
deriving DecidableEq

/-- Decoded URL query parameters. -/
structure Parameters where
  filter : Option String
  sort : List SortKey
  fields : Option (List String)
  limit : Option UInt16
  cursor : Option String

structure Query where
  schema : Schema
  filter : Option (Expression String Json)
  sort : List SortKey
  fields : List String
  limit : UInt16
  cursor : Option String

def Schema.field (schema : Schema) (name : String) : Except QueryError Field :=
  match schema.fields.find? (fun f => f.name = name) with
  | some f => .ok f
  | none => .error .invalid

/-- GUID parsing is a library function. -/
abbrev ParseUuid : Type := String → Option Uuid

def valid (parseUuid : ParseUuid) (kind : Kind) (value : Json) : Bool :=
  match kind with
  | .text => value.asStr.any (fun s => s.utf8ByteSize ≤ 4096 && !s.toList.any isControl)
  | .uuid | .uuidSet =>
      value.asStr.any (fun s => (parseUuid s).any (fun v => v ≠ 0 && Uuid.text v = s))
  | .integer => value.asI64.isSome
  | .boolean => value.isBoolean
  | .enum values | .enumSet values => value.asStr.any (fun s => values.contains s)
  | .object => false

def checked (parseUuid : ParseUuid) (kind : Kind) (value : Json) : Except QueryError Json :=
  if valid parseUuid kind value then .ok value else .error .invalid

def scalar (parseUuid : ParseUuid) (kind : Kind) (input : String) : Except QueryError Json :=
  match kind with
  | .integer =>
      match parseI64 input with
      | some n => checked parseUuid kind (.number (some n))
      | none => .error .invalid
  | .boolean =>
      if input = "true" then checked parseUuid kind (.bool true)
      else if input = "false" then checked parseUuid kind (.bool false)
      else .error .invalid
  | .uuid | .uuidSet =>
      match parseUuid input with
      | some v => checked parseUuid kind (.string (Uuid.text v))
      | none => .error .invalid
  | _ => checked parseUuid kind (.string input)

def scalars (parseUuid : ParseUuid) (kind : Kind) : List String → Except QueryError (List Json)
  | [] => .ok []
  | s :: rest => do
      let v ← scalar parseUuid kind s
      let vs ← scalars parseUuid kind rest
      .ok (v :: vs)

def Kind.unordered : Kind → Bool
  | .boolean | .enum _ | .enumSet _ | .uuidSet => true
  | _ => false

mutual

/-- Type the values of a filter by the catalog. -/
def bindFilter (parseUuid : ParseUuid) (schema : Schema) :
    Expr → Except QueryError (Expression String Json)
  | .compare field operator values => do
      let spec ← schema.field field
      if !operator.directory || !spec.filter || spec.kind = .object ||
          (operator.range && spec.kind.unordered) ||
          (operator = .icontains && spec.kind ≠ .text) then .error .invalid
      else do
        let values ← scalars parseUuid spec.kind values
        .ok (.compare field operator values)
  | .and children => do
      let children ← bindFilters parseUuid schema children
      .ok (.and children)
  | .or children => do
      let children ← bindFilters parseUuid schema children
      .ok (.or children)

def bindFilters (parseUuid : ParseUuid) (schema : Schema) :
    List Expr → Except QueryError (List (Expression String Json))
  | [] => .ok []
  | e :: rest => do
      let e ← bindFilter parseUuid schema e
      let rest ← bindFilters parseUuid schema rest
      .ok (e :: rest)

end

def parseFilter (parseUuid : ParseUuid) (schema : Schema) (s : String) :
    Run QueryError (Expression String Json) := do
  let e ← Filter.parse s
  (bindFilter parseUuid schema e).mapError Fault.error

def newFilter (parseUuid : ParseUuid) (schema : Schema) :
    Option String → Run QueryError (Option (Expression String Json))
  | none => .ok none
  | some s => do
      let e ← parseFilter parseUuid schema s
      .ok (some e)

def sortable (schema : Schema) (name : String) : Except QueryError String := do
  let f ← schema.field name
  if !f.sort then .error .invalid else .ok name

/-- Append the identity columns that the ordering does not have yet. -/
def appendKeys (schema : Schema) : List SortKey → List String → Except QueryError (List SortKey)
  | sort, [] => .ok sort
  | sort, key :: rest => do
      let _ ← sortable schema key
      if sort.any (fun s => s.field = key) then appendKeys schema sort rest
      else appendKeys schema (sort ++ [⟨key, false⟩]) rest

def outputs (schema : Schema) (fields : Option (List String)) : List String :=
  match fields with
  | some fields => fields
  | none => (schema.fields.filter Field.output).map Field.name

def Query.new (parseUuid : ParseUuid) (schema : Schema) (p : Parameters) : Run QueryError Query :=
  if schema.keys.isEmpty || schema.defaultLimit = 0 || schema.defaultLimit > schema.maxLimit then
    .error (.error .invalid)
  else do
    let filter ← newFilter parseUuid schema p.filter
    (eachFresh (fun s : SortKey => sortable schema s.field) .invalid (fun _ => .ok ()) []
      p.sort).mapError Fault.error
    let sort ← (appendKeys schema p.sort schema.keys).mapError Fault.error
    let fields := outputs schema p.fields
    (each (fun name => do
      let f ← schema.field name
      if !f.output then .error .invalid else .ok ()) fields).mapError Fault.error
    let limit := p.limit.getD schema.defaultLimit
    if limit = 0 || limit > schema.maxLimit then .error (.error .invalid)
    else .ok ⟨schema, filter, sort, fields.insertionSort (fun a b => a ≤ b), limit, p.cursor⟩

abbrev Row : Type := List (String × Json)

def Row.get (row : Row) (name : String) : Option Json :=
  (row.find? (fun m => m.1 = name)).map Prod.snd

namespace Query

variable (parseUuid : ParseUuid)

def validatePosition (q : Query) (position : Position) : Except QueryError Unit :=
  if position.length ≠ q.sort.length then .error .cursorInvalidated
  else each (fun (s, v) =>
    if Json.isNull v then .ok ()
    else do
      let f ← q.schema.field s.field
      if !valid parseUuid f.kind v then .error .cursorInvalidated else .ok ())
    (q.sort.zip position)

def sortValues (row : Row) : List SortKey → Except QueryError Position
  | [] => .ok []
  | s :: rest =>
      match row.get s.field with
      | none => .error .invalid
      | some v => do
          let vs ← sortValues row rest
          .ok (v :: vs)

def position (q : Query) (row : Row) : Except QueryError Position := do
  let p ← sortValues row q.sort
  q.validatePosition parseUuid p
  .ok p

/-- The continuation of a request, authenticated and checked against its ordering. -/
def after (q : Query) (codec : CursorCodec) (binding : String) :
    Except QueryError (Option Position) :=
  match q.cursor with
  | none => .ok none
  | some c => do
      let p ← codec.decode c binding
      q.validatePosition parseUuid p
      .ok (some p)

structure Page where
  items : List Row
  nextCursor : Option String

/-- One row more than the limit was asked for; it only tells that there is more. -/
def unprojectedPage (q : Query) (rows : List Row) (codec : CursorCodec) (binding : String) :
    Except QueryError Page :=
  let more := rows.length > q.limit.toNat
  let rows := rows.take q.limit.toNat
  if more then
    match rows.getLast? with
    | none => .ok ⟨rows, none⟩
    | some last => do
        let p ← q.position parseUuid last
        let token ← codec.encode binding p
        .ok ⟨rows, some token⟩
  else .ok ⟨rows, none⟩

end Query

end Directory

end RssMdm.Query
