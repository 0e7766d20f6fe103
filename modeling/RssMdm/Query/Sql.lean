/- module: Query/Sql
   source: crates/query-postgres/src/lib.rs
   digest: The SQL text a directory query appends, the predicates it spells and their meaning under
   three-valued logic. -/

import RssMdm.Lib.Keyset
import RssMdm.Query.Directory

set_option autoImplicit false
set_option linter.dupNamespace false

namespace RssMdm.Query.Directory

open Lib.Fallible Lib.Text Lib.Keyset

inductive Scalar where
  | text (value : String)
  | int (value : Int)
  | bool (value : Bool)
deriving DecidableEq

/-- SQL under construction: characters and bound parameters. -/
abbrev Sql : Type := List (Char ⊕ Scalar)

def push (s : String) : Sql := s.toList.map .inl

def pushBind (v : Scalar) : Sql := [.inr v]

def value : Json → Except QueryError Scalar
  | .string s => .ok (.text s)
  | .bool b => .ok (.bool b)
  | .number (some n) => .ok (.int n)
  | _ => .error .invalid

def values : List Json → Except QueryError (List Scalar)
  | [] => .ok []
  | v :: rest => do
      let x ← value v
      let xs ← values rest
      .ok (x :: xs)

def joined (separator : String) : List Sql → Sql
  | [] => []
  | [part] => part
  | part :: rest => part ++ push separator ++ joined separator rest

def Operator.sign : Operator → Except QueryError String
  | .eq => .ok " = "
  | .ne => .ok " <> "
  | .lt => .ok " < "
  | .le => .ok " <= "
  | .gt => .ok " > "
  | .ge => .ok " >= "
  | .isIn => .ok " IN "
  | .out => .ok " NOT IN "
  | _ => .error .invalid

def Kind.isSet : Kind → Bool
  | .enumSet _ | .uuidSet => true
  | _ => false

/-- The domain provides trusted SQL expressions for its columns. -/
abbrev Columns : Type := String → String

/-- One comparison, between the parentheses of `expression`. -/
def comparison (schema : Schema) (columns : Columns) (field : String) (operator : Operator)
    (vs : List Json) : Except QueryError Sql := do
  let spec ← schema.field field
  let bound ← values vs
  if spec.kind.isSet then
    .ok (push (if operator = .ne || operator = .out then "NOT (" else "(") ++
      joined " OR " (bound.map (fun v => pushBind v ++ push " = ANY(" ++ push (columns field) ++
        push ")")) ++ push ")")
  else if operator = .icontains then
    -- the source indexes the first value; a parsed filter has one
    match bound with
    | v :: _ => .ok (push "strpos(lower(" ++ push (columns field) ++ push "),lower(" ++ pushBind v ++
        push "))>0")
    | [] => .error .invalid
  else do
    let sign ← Operator.sign operator
    .ok (push (columns field) ++ push sign ++ (if operator.set then push "(" else []) ++
      joined "," (bound.map pushBind) ++ (if operator.set then push ")" else []))

mutual

def expression (schema : Schema) (columns : Columns) (available : String → Bool) :
    Expression String Json → Except QueryError Sql
  | .compare field operator vs =>
      if !available field then .ok (push "TRUE")
      else do
        let inner ← comparison schema columns field operator vs
        .ok (push "(" ++ inner ++ push ")")
  | .and children => do
      let parts ← expressions schema columns available children
      .ok (push "(" ++ joined " AND " parts ++ push ")")
  | .or children => do
      let parts ← expressions schema columns available children
      .ok (push "(" ++ joined " OR " parts ++ push ")")

def expressions (schema : Schema) (columns : Columns) (available : String → Bool) :
    List (Expression String Json) → Except QueryError (List Sql)
  | [] => .ok []
  | e :: rest => do
      let part ← expression schema columns available e
      let parts ← expressions schema columns available rest
      .ok (part :: parts)

end

def filter (q : Query) (columns : Columns) : Except QueryError Sql :=
  match q.filter with
  | none => .ok []
  | some e => do
      let sql ← expression q.schema columns (fun _ => true) e
      .ok (push " AND " ++ sql)

def prefixColumn (columns : Columns) (s : SortKey) (v : Json) : Except QueryError Sql :=
  if v.isNull then .ok (push (columns s.field) ++ push " IS NULL")
  else do
    let x ← value v
    .ok (push (columns s.field) ++ push " IS NOT DISTINCT FROM " ++ pushBind x)

def prefixColumns (columns : Columns) : List (SortKey × Json) → Except QueryError Sql
  | [] => .ok []
  | (s, v) :: rest => do
      let column ← prefixColumn columns s v
      let others ← prefixColumns columns rest
      .ok (column ++ push " AND " ++ others)

def lastColumn (columns : Columns) (s : SortKey) (v : Json) : Except QueryError Sql :=
  if v.isNull then .ok (push "FALSE")
  else do
    let x ← value v
    .ok (push "(" ++ push (columns s.field) ++ push (if s.descending then " < " else " > ") ++
      pushBind x ++ push " OR " ++ push (columns s.field) ++ push " IS NULL)")

/-- The alternatives of the continuation; `before` holds the columns already passed. -/
def seekTerms (columns : Columns) (before : List (SortKey × Json)) :
    List (SortKey × Json) → Except QueryError Sql
  | [] => .ok []
  | (s, v) :: rest => do
      let equal ← prefixColumns columns before
      let last ← lastColumn columns s v
      let others ← seekTerms columns (before ++ [(s, v)]) rest
      .ok ((if before.isEmpty then [] else push " OR ") ++ push "(" ++ equal ++ last ++ push ")" ++
        others)

def seekSql (parseUuid : ParseUuid) (q : Query) (columns : Columns) :
    Option Position → Except QueryError Sql
  | none => .ok []
  | some p => do
      q.validatePosition parseUuid p
      let terms ← seekTerms columns [] (q.sort.zip p)
      .ok (push " AND (" ++ terms ++ push ")")

def order (q : Query) (columns : Columns) : Sql :=
  push " ORDER BY " ++ joined "," (q.sort.map (fun s => push (columns s.field) ++
    push (if s.descending then " DESC NULLS LAST" else " ASC NULLS LAST")))

def pageLimit (parseUuid : ParseUuid) (q : Query) (after : Option Position) (columns : Columns)
    (limit : Nat) : Except QueryError Sql :=
  if limit < 1 || limit > q.schema.maxLimit.toNat + 1 then .error .budget
  else do
    let seek ← seekSql parseUuid q columns after
    .ok (seek ++ order q columns ++ push " LIMIT " ++ pushBind (.int limit))

def page (parseUuid : ParseUuid) (q : Query) (after : Option Position) (columns : Columns) :
    Except QueryError Sql :=
  pageLimit parseUuid q after columns (q.limit.toNat + 1)

def append (parseUuid : ParseUuid) (q : Query) (after : Option Position) (columns : Columns) :
    Except QueryError Sql := do
  let conditions ← filter q columns
  let rest ← page parseUuid q after columns
  .ok (conditions ++ rest)

inductive Predicate where
  | constant (b : Bool)
  | compare (field : String) (operator : Operator) (vs : List Scalar)
  | anyOf (negated : Bool) (field : String) (vs : List Scalar)
  | icontains (field : String) (v : Scalar)
  | isNull (field : String)
  | same (field : String) (v : Scalar)
  | beyond (descending : Bool) (field : String) (v : Scalar)
  | all (children : List Predicate)
  | any (children : List Predicate)

/-- What the database decides: the order of texts and lower-casing. -/
structure Database where
  collate : String → String → Ordering
  lower : String → String

def column (row : Row) (field : String) : Option Scalar :=
  match row.get field with
  | some v => (value v).toOption
  | none => none

def members (row : Row) (field : String) : Option (List Scalar) :=
  match row.get field with
  | some (.array items) => some (items.filterMap (fun v => (value v).toOption))
  | _ => none

def Scalar.rank : Scalar → Nat
  | .text _ => 0
  | .int _ => 1
  | .bool _ => 2

/-- The order of a column's values; a column has values of one type. -/
def Database.compare (db : Database) : Scalar → Scalar → Ordering
  | .text a, .text b => db.collate a b
  | .int a, .int b => Ord.compare a b
  | .bool a, .bool b => Ord.compare a b
  | a, b => Ord.compare a.rank b.rank

def Database.holds (db : Database) (operator : Operator) (x : Scalar) (vs : List Scalar) : Bool :=
  match operator, vs with
  | .isIn, vs => vs.contains x
  | .out, vs => !vs.contains x
  | .eq, v :: _ => x = v
  | .ne, v :: _ => x ≠ v
  | .lt, v :: _ => db.compare x v = .lt
  | .le, v :: _ => db.compare x v ≠ .gt
  | .gt, v :: _ => db.compare x v = .gt
  | .ge, v :: _ => db.compare x v ≠ .lt
  | _, _ => false

def Database.containsText (db : Database) (x v : Scalar) : Bool :=
  match x, v with
  | .text a, .text b => contains (db.lower a) (db.lower b)
  | _, _ => false

/-- Conjunction and disjunction with an unknown value. -/
def andNull (a b : Option Bool) : Option Bool :=
  match a, b with
  | some false, _ => some false
  | _, some false => some false
  | some true, some true => some true
  | _, _ => none

def orNull (a b : Option Bool) : Option Bool :=
  match a, b with
  | some true, _ => some true
  | _, some true => some true
  | some false, some false => some false
  | _, _ => none

mutual

/-- The truth value of a condition on a row; `none` is unknown. -/
def Predicate.eval (db : Database) (row : Row) : Predicate → Option Bool
  | .constant b => some b
  | .compare field operator vs => (column row field).map (fun x => db.holds operator x vs)
  | .anyOf negated field vs =>
      (members row field).map (fun xs => vs.any (fun v => xs.contains v) != negated)
  | .icontains field v => (column row field).map (fun x => db.containsText x v)
  | .isNull field => some (column row field).isNone
  | .same field v => some (decide (column row field = some v))
  | .beyond descending field v => (column row field).map
      (fun x => decide (db.compare x v = if descending then .lt else .gt))
  | .all children => evalAll db row children
  | .any children => evalAny db row children

def evalAll (db : Database) (row : Row) : List Predicate → Option Bool
  | [] => some true
  | p :: rest => andNull (p.eval db row) (evalAll db row rest)

def evalAny (db : Database) (row : Row) : List Predicate → Option Bool
  | [] => some false
  | p :: rest => orNull (p.eval db row) (evalAny db row rest)

end

mutual

def Predicate.render (columns : Columns) : Predicate → Sql
  | .constant b => push (if b then "TRUE" else "FALSE")
  | .compare field operator vs => push "(" ++ (push (columns field) ++
      push ((Operator.sign operator).toOption.getD "") ++ (if operator.set then push "(" else []) ++
      joined "," (vs.map pushBind) ++ (if operator.set then push ")" else [])) ++ push ")"
  | .anyOf negated field vs => push "(" ++ (push (if negated then "NOT (" else "(") ++
      joined " OR " (vs.map (fun v => pushBind v ++ push " = ANY(" ++ push (columns field) ++
        push ")")) ++ push ")") ++ push ")"
  | .icontains field v => push "(" ++ (push "strpos(lower(" ++ push (columns field) ++
      push "),lower(" ++ pushBind v ++ push "))>0") ++ push ")"
  | .isNull field => push (columns field) ++ push " IS NULL"
  | .same field v => push (columns field) ++ push " IS NOT DISTINCT FROM " ++ pushBind v
  | .beyond descending field v => push (columns field) ++
      push (if descending then " < " else " > ") ++ pushBind v
  | .all children => push "(" ++ joined " AND " (renderAll columns children) ++ push ")"
  | .any children => push "(" ++ joined " OR " (renderAll columns children) ++ push ")"

def renderAll (columns : Columns) : List Predicate → List Sql
  | [] => []
  | p :: rest => p.render columns :: renderAll columns rest

end

/-- The rows of the owner's base selection that meet the conditions, in order, up to the limit. -/
structure Statement where
  conditions : List Predicate
  orderBy : List SortKey
  limit : Nat

def Statement.render (columns : Columns) (stmt : Statement) : Sql :=
  stmt.conditions.flatMap (fun p => push " AND " ++ p.render columns) ++
    (push " ORDER BY " ++ joined "," (stmt.orderBy.map (fun s => push (columns s.field) ++
      push (if s.descending then " DESC NULLS LAST" else " ASC NULLS LAST")))) ++
    push " LIMIT " ++ pushBind (.int stmt.limit)

def rowKey (sort : List SortKey) (row : Row) : List (Option Scalar) :=
  sort.map (fun s => column row s.field)

def rowOrder (db : Database) (sort : List SortKey) (a b : Row) : Ordering :=
  keyOrder db.compare (sort.map SortKey.descending) (rowKey sort a) (rowKey sort b)

def Statement.selects (db : Database) (stmt : Statement) (row : Row) : Bool :=
  stmt.conditions.all (fun p => p.eval db row = some true)

def Statement.execute (db : Database) (stmt : Statement) (table : List Row) : List Row :=
  ((table.filter (stmt.selects db)).insertionSort
    (fun a b => rowOrder db stmt.orderBy a b ≠ .gt)).take stmt.limit

end RssMdm.Query.Directory
