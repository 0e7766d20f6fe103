/- module: AgentWire/Osquery
   source: crates/agent-wire/src/osquery.rs
   digest: Read-only osquery templates: admission of one selection and binding of literals. -/

import RssMdm.AgentWire.Sqlparser
import RssMdm.AgentWire.TaskTrust
import RssMdm.Lib.Json

set_option autoImplicit false

namespace RssMdm.AgentWire.Osquery

open RssMdm.Lib RssMdm.Lib.Fallible
open RssMdm.Lib.Text (utf8Len)
open Sqlparser (Expr Ident Query Select SelectItem Text Value displayList)

def identifier (id : Ident) : Except WireError Text :=
  if id.quoteStyle.isSome || id.value.isEmpty || utf8Len id.value > 64 ||
      !id.value.head?.any Char.isLower ||
      !id.value.all (fun c => c.isLower || c.isDigit || c = '_') then
    .error .invalidValue
  else .ok id.value

/-- The tables that may be read, with their columns. -/
def tables : List (String × List String) := [
  ("osquery_info", ["version", "build_platform", "build_distro", "start_time"]),
  ("os_version", ["name", "version", "major", "minor", "patch", "build", "platform", "arch"]),
  ("system_info", ["hostname", "uuid", "cpu_type", "cpu_brand", "cpu_physical_cores",
    "cpu_logical_cores", "physical_memory", "hardware_vendor", "hardware_model", "hardware_serial",
    "computer_name"]),
  ("interface_addresses", ["interface", "address", "mask", "broadcast", "point_to_point", "type"]),
  ("bitlocker_info", ["device_id", "drive_letter", "persistent_volume_id", "conversion_status",
    "protection_status", "encryption_method", "version", "percentage_encrypted", "lock_status"]),
  ("logical_drives", ["device_id", "description", "free_space", "size", "file_system",
    "boot_partition"]),
  ("windows_security_center", ["firewall", "autoupdate", "antivirus", "internet_settings",
    "windows_security_center_service", "user_account_control"]),
  ("programs", ["name", "version", "publisher", "install_date", "identifying_number",
    "package_family_name"]),
  ("apps", ["name", "path", "bundle_identifier", "bundle_name", "bundle_short_version",
    "bundle_version", "minimum_system_version", "category"])]

def columns (table : Text) : Except WireError (List Text) :=
  match tables.find? (fun entry => entry.1.toList = table) with
  | none => .error .invalidValue
  | some entry => .ok (entry.2.map String.toList)

def unsignedPart (n : Text) : Text :=
  match n with
  | '-' :: digits => digits
  | '+' :: digits => digits
  | digits => digits

def fractionPart (rest : Text) : Text × Text :=
  match rest with
  | '.' :: rest => (rest.takeWhile Char.isDigit, rest.dropWhile Char.isDigit)
  | rest => ([], rest)

def exponentPart (rest : Text) : Option Int :=
  match rest with
  | [] => some 0
  | c :: rest =>
      let digits := unsignedPart rest
      if (c = 'e' || c = 'E') && !digits.isEmpty && digits.all Char.isDigit then
        let exponent : Int := Nat.ofDigitChars 10 digits 0
        some (if rest.head? = some '-' then -exponent else exponent)
      else none

/-- A number as `f64` takes it: its digits as one number and the power of ten they are scaled by.
The names of the infinities and of NaN are not finite. -/
def parseF64 (n : Text) : Option (Nat × Int) :=
  let whole := (unsignedPart n).takeWhile Char.isDigit
  let (fraction, rest) := fractionPart ((unsignedPart n).dropWhile Char.isDigit)
  if whole.isEmpty && fraction.isEmpty then none
  else (exponentPart rest).map (fun exponent =>
    (Nat.ofDigitChars 10 (whole ++ fraction) 0, exponent - fraction.length))

/-- Texts of at most 64 bytes hold numbers below ten to the 64; only a large power overflows. -/
def isFinite (n : Text) : Bool :=
  (parseF64 n).any (fun v => v.1 = 0 || (v.2 ≤ 308 && v.1 * 10 ^ v.2.toNat < 2 ^ 1024 - 2 ^ 970))

/-- What the checks of one query carry along. -/
structure Expressions where
  nodes : Nat
  parameters : List Text

def Expressions.enter (context : Expressions) (depth : Nat) : Except WireError Expressions :=
  let nodes := context.nodes + 1
  if nodes > 256 || depth > 16 then .error .invalidValue else .ok { context with nodes := nodes }

def Expressions.insert (context : Expressions) (name : Text) : Except WireError Expressions :=
  let parameters := if context.parameters.contains name then context.parameters
    else name :: context.parameters
  if parameters.length > 32 then .error .invalidValue
  else .ok { context with parameters := parameters }

def functions : List Text := ["lower", "upper", "length", "coalesce"].map String.toList

def checkValue (v : Value) (context : Expressions) : Except WireError Expressions :=
  match v with
  | .singleQuotedString s =>
      if utf8Len s ≤ 4096 && !s.contains '\x00' then .ok context else .error .invalidValue
  | .number n long =>
      if !long && utf8Len n ≤ 64 && isFinite n then .ok context else .error .invalidValue
  | .boolean _ | .null => .ok context
  | .placeholder p =>
      match p with
      | ':' :: name => do
          let _ ← identifier ⟨name, none⟩
          context.insert name
      | _ => .error .invalidValue

mutual

def checkExpr (columns : List Text) : Expr → Nat → Expressions → Except WireError Expressions
  | .identifier id, depth, context => do
      let context ← context.enter depth
      let name ← identifier id
      if columns.contains name then .ok context else .error .invalidValue
  | .value v, depth, context => do
      let context ← context.enter depth
      checkValue v context
  | .nested e, depth, context => do
      let context ← context.enter depth
      checkExpr columns e (depth + 1) context
  | .isNull e, depth, context => do
      let context ← context.enter depth
      checkExpr columns e (depth + 1) context
  | .isNotNull e, depth, context => do
      let context ← context.enter depth
      checkExpr columns e (depth + 1) context
  | .unaryOp _ e, depth, context => do
      let context ← context.enter depth
      checkExpr columns e (depth + 1) context
  | .binaryOp left _ right, depth, context => do
      let context ← context.enter depth
      let context ← checkExpr columns left (depth + 1) context
      checkExpr columns right (depth + 1) context
  | .inList e list _, depth, context => do
      let context ← context.enter depth
      if list.length > 32 then .error .invalidValue
      else do
        let context ← checkExpr columns e (depth + 1) context
        checkExprs columns list (depth + 1) context
  | .function name arguments clauses, depth, context => do
      let context ← context.enter depth
      if !functions.contains name then .error .invalidValue
      else if !(1 ≤ arguments.length && arguments.length ≤ 4) then .error .invalidValue
      else do
        let context ← checkExprs columns arguments (depth + 1) context
        if (Expr.function name arguments clauses).display ≠
            name ++ ('(' :: (displayList arguments ++ [')'])) then
          .error .invalidValue
        else .ok context
  | .other _, depth, context => do
      let _ ← context.enter depth
      .error .invalidValue

def checkExprs (columns : List Text) : List Expr → Nat → Expressions → Except WireError Expressions
  | [], _, context => .ok context
  | e :: es, depth, context => do
      let context ← checkExpr columns e depth context
      checkExprs columns es depth context

end

/-- The name an item of the projection has in the result. -/
def checkItem (columns : List Text) (item : SelectItem) (context : Expressions) :
    Except WireError (Expressions × Text) :=
  match item with
  | .unnamedExpr (.identifier id) => do
      let context ← checkExpr columns (.identifier id) 0 context
      let name ← identifier id
      .ok (context, name)
  | .exprWithAlias e alias_ => do
      let context ← checkExpr columns e 0 context
      let name ← identifier alias_
      .ok (context, name)
  | _ => .error .invalidValue

def checkItems (columns : List Text) :
    List SelectItem → Expressions → List Text → Except WireError Expressions
  | [], context, _ => .ok context
  | item :: items, context, names => do
      let (context, name) ← checkItem columns item context
      if names.contains name then .error .invalidValue
      else checkItems columns items context (name :: names)

def checkSelection (columns : List Text) (selection : Option Expr) (context : Expressions) :
    Except WireError Expressions :=
  match selection with
  | none => .ok context
  | some e => checkExpr columns e 0 context

/-- The table and the placeholders of an admitted query. -/
def check (query : Query) : Except WireError (Text × List Text) :=
  match query.body with
  | none => .error .invalidValue
  | some select =>
      match select.from with
      | [table] =>
          if !(1 ≤ select.projection.length && select.projection.length ≤ 64) then
            .error .invalidValue
          else do
            let allowed ← columns table
            let context ← checkItems allowed select.projection ⟨0, []⟩ []
            let context ← checkSelection allowed select.selection context
            if query.display ≠ select.admitted then .error .invalidValue
            else .ok (table, context.parameters)
      | _ => .error .invalidValue

inductive Statement where
  | query (q : Query)
  | other

abbrev Parser := Text → Option (List Statement)

def parse (parser : Parser) (sql : Text) : Except WireError Query :=
  if utf8Len sql > 65536 || sql.contains '\x00' then .error .invalidValue
  else
    match parser sql with
    | some [.query q] => .ok q
    | _ => .error .invalidValue

def new (parser : Parser) (sql : Text) : Except WireError Text := do
  let query ← parse parser sql
  let _ ← check query
  .ok query.display

/-- A template that was admitted, as its canonical text. -/
structure SqlTemplate (parser : Parser) where
  text : Text
  admitted : ∃ sql, new parser sql = .ok text

/-- A parameter; `other` stands for null, arrays, objects and numbers that are no integers. -/
inductive Json where
  | string (s : Text)
  | bool (b : Bool)
  | integer (n : Int)
  | other
deriving DecidableEq

def literal : Option Json → Except WireError Value
  | some (.string s) =>
      if utf8Len s ≤ 4096 && !s.contains '\x00' then .ok (.singleQuotedString s)
      else .error .invalidValue
  | some (.bool b) => .ok (.number (if b then ['1'] else ['0']) false)
  | some (.integer n) =>
      if -2 ^ 63 ≤ n && n < 2 ^ 63 then .ok (.number (Lib.Json.decimal n) false)
      else .error .invalidValue
  | some .other | none => .error .invalidValue

abbrev Parameters := List (Text × Json)

mutual

def bind (values : Parameters) : Expr → Except WireError Expr
  | .value (.placeholder p) =>
      match p with
      | ':' :: name => do
          let v ← literal (values.lookup name)
          .ok (.value v)
      | _ => .error .invalidValue
  | .value v => .ok (.value v)
  | .identifier id => .ok (.identifier id)
  | .nested e => do
      let e ← bind values e
      .ok (.nested e)
  | .isNull e => do
      let e ← bind values e
      .ok (.isNull e)
  | .isNotNull e => do
      let e ← bind values e
      .ok (.isNotNull e)
  | .unaryOp op e => do
      let e ← bind values e
      .ok (.unaryOp op e)
  | .binaryOp left op right => do
      let left ← bind values left
      let right ← bind values right
      .ok (.binaryOp left op right)
  | .inList e list negated => do
      let e ← bind values e
      let list ← bindAll values list
      .ok (.inList e list negated)
  | .function name arguments clauses => do
      let arguments ← bindAll values arguments
      .ok (.function name arguments clauses)
  | .other text => .ok (.other text)

def bindAll (values : Parameters) : List Expr → Except WireError (List Expr)
  | [] => .ok []
  | e :: es => do
      let e ← bind values e
      let es ← bindAll values es
      .ok (e :: es)

end

def bindItem (values : Parameters) : SelectItem → Except WireError SelectItem
  | .unnamedExpr e => do
      let e ← bind values e
      .ok (.unnamedExpr e)
  | .exprWithAlias e name => do
      let e ← bind values e
      .ok (.exprWithAlias e name)
  | .other text => .ok (.other text)

def bindSelection (values : Parameters) : Option Expr → Except WireError (Option Expr)
  | none => .ok none
  | some e => do
      let e ← bind values e
      .ok (some e)

def bindSelect (values : Parameters) (select : Select) : Except WireError Select := do
  let projection ← select.projection.mapM (bindItem values)
  let selection ← bindSelection values select.selection
  .ok { select with projection := projection, selection := selection }

def bindQuery (values : Parameters) (query : Query) : Except WireError Query :=
  match query.body with
  | none => .ok query
  | some select => do
      let select ← bindSelect values select
      .ok { query with body := some select }

/-- Bind the parameters, `none` for a value that is no object, and ask for one row too many. -/
def render (parser : Parser) (template : SqlTemplate parser) (parameters : Option Parameters)
    (maxRows : UInt32) : Except WireError Text :=
  if !(1 ≤ maxRows.toNat && maxRows.toNat ≤ 100000) then .error .invalidValue
  else do
    let query ← parse parser template.text
    let (_, expected) ← check query
    match parameters with
    | none => .error .invalidValue
    | some values =>
        if values.length > 32 || !values.all (fun v => expected.contains v.1) ||
            !expected.all (fun name => (values.map Prod.fst).contains name) then
          .error .invalidValue
        else do
          let query ← bindQuery values query
          let limited := { query with
            limitClause := " LIMIT ".toList ++ Nat.toDigits 10 (maxRows.toNat + 1) }
          let sql := limited.display
          if utf8Len sql > 65536 then .error .invalidValue else .ok sql

end RssMdm.AgentWire.Osquery
