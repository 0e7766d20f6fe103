/- module: Assets/Rsql
   source: crates/inventory-service/src/assets/rsql.rs
   digest: Filter texts compiled to criteria, and criteria written as filter texts again. -/

import RssMdm.Assets.Criteria
import RssMdm.Query.FilterSpelling

set_option autoImplicit false

namespace RssMdm.Assets.Rsql

open RssMdm.Inventory RssMdm.Lib RssMdm.Lib.Int64
open RssMdm.Lib.Json (decimal)
open RssMdm.Lib.Text (isControl isWhitespace parseI64 utf8Len)
open RssMdm.Query.Filter (joined)

/-- Numbers as text: read through the JSON number of the inventory, and the two forms they print to. -/
class Numerals where
  parse : String → Option NotNan
  decimal : NotNan → String
  scientific : NotNan → String

structure SortKey where
  field : FieldKey
  descending : Bool

/-- The limits of `CONTRACT`. -/
def maxFields : Nat := 1024

def maxSort : Nat := 16

structure QueryScope where
  selector : ScopeSelector
  quantifier : ScopeQuantifier

def QueryScope.default : QueryScope := ⟨.device, .one⟩

structure QueryInput where
  filter : Option String
  scope : QueryScope
  fields : List FieldKey
  sort : List SortKey

structure Query where
  criteria : Option InventoryCondition
  fields : List FieldKey
  sort : List SortKey

section

variable [Inventory.Environment] [Numerals]

def integer (text : String) : Except Error I64 :=
  match (parseI64 text).bind I64.ofInt with
  | some n => .ok n
  | none => .error .malformed

def scalarValue (kind : Kind) (text : String) : Except Error Scalar :=
  match kind with
  | .string => .ok (.string text)
  | .integer => (integer text).map Scalar.integer
  | .time => (integer text).map Scalar.time
  | .number =>
      match Numerals.parse text with
      | some n => .ok (.number n)
      | none => .error .malformed
  | .boolean =>
      if text = "true" then .ok (.boolean true)
      else if text = "false" then .ok (.boolean false)
      else .error .malformed
  | .array => .error .malformed
  | .object => .error .malformed

def scalar (kind : Kind) (text : String) : Except Error Scalar := do
  let value ← scalarValue kind text
  checkedInput value.validate
  .ok value

def operator : Query.Operator → Except Error Operator
  | .eq => .ok .eq
  | .ne => .ok .ne
  | .lt => .ok .lt
  | .le => .ok .le
  | .gt => .ok .gt
  | .ge => .ok .ge
  | .isIn => .ok .isIn
  | .out => .ok .notIn
  | .contains => .ok .contains
  | .notContains => .ok .notContains
  | .containsAny => .ok .containsAny
  | .containsAll => .ok .containsAll
  | .isNull => .ok .isNull
  | .isNotNull => .ok .isNotNull
  | .icontains => .error .malformed

/-- The operands of a comparison; a test for null takes the word `true`. -/
def operands (kind : Kind) (operator : Query.Operator) (op : Operator) (values : List String) :
    Except Error (Option Scalar × Option (List Scalar)) :=
  if op = .isNull ∨ op = .isNotNull then
    if values ≠ ["true"] then .error .malformed else .ok (none, none)
  else if operator.set then do
    let values ← values.mapM (scalar kind)
    .ok (none, some values)
  else
    match values with
    | [value] => do
        let value ← scalar kind value
        .ok (some value, none)
    | _ => .error .malformed

mutual

def bind (catalog : Catalog) : Query.Expr → Except Error Criteria
  | .and children => do
      let children ← bindAll catalog children
      .ok (.and children)
  | .or children => do
      let children ← bindAll catalog children
      .ok (.or children)
  | .compare field compared values => do
      let field ← checkedInput (FieldKey.parse field)
      let path ← checkedInput (catalog.path field)
      let op ← operator compared
      let (value, values) ← operands path.valueType.kind compared op values
      .ok (.predicate field op value values)

def bindAll (catalog : Catalog) : List Query.Expr → Except Error (List Criteria)
  | [] => .ok []
  | e :: rest => do
      let c ← bind catalog e
      let cs ← bindAll catalog rest
      .ok (c :: cs)

end

end

section

def replaceChar (c : Char) (by' : List Char) (text : List Char) : List Char :=
  text.flatMap (fun d => if d = c then by' else [d])

/-- What may not stand in a bare spelling, escaped or not. -/
def unbare (c : Char) : Bool :=
  isWhitespace c || isControl c || c = '=' || c = '!' || c = '<' || c = '>' || c = '*'

def escaped (c : Char) : Bool :=
  c = ',' || c = ';' || c = '(' || c = ')' || c = '\\' || c = '\'' || c = '"'

/-- The text with a backslash before the characters that need one. -/
def bare (text : List Char) : List Char := text.flatMap (fun c => if escaped c then ['\\', c] else [c])

def quoted (quote : Char) (text : List Char) : List Char :=
  quote :: (replaceChar quote ['\\', quote] (replaceChar '\\' ['\\', '\\'] text) ++ [quote])

/-- The spellings of an operand, in the order they are tried. -/
def spellings (text : List Char) : List (List Char) :=
  (if !text.isEmpty && !text.any unbare then [bare text] else []) ++
    ['\'', '"'].map (fun quote => quoted quote text)

/-- `min_by_key(String::len)`: the first of the shortest. -/
def shortest : List (List Char) → Option (List Char)
  | [] => none
  | s :: rest => some (rest.foldl (fun best s => if utf8Len s < utf8Len best then s else best) s)

def spelling (text : String) : Except Error String :=
  match shortest (spellings text.toList) with
  | some s => .ok (String.ofList s)
  | none => .error .malformed

variable [Numerals]

def numberText (n : NotNan) : String :=
  if (Numerals.scientific n).utf8ByteSize < (Numerals.decimal n).utf8ByteSize then
    Numerals.scientific n
  else Numerals.decimal n

/-- The text of an operand before it is spelled. -/
def scalarText : Scalar → Except Error String
  | .string s => .ok s
  | .integer n => .ok (String.ofList (decimal n.val))
  | .time n => .ok (String.ofList (decimal n.val))
  | .number n => .ok (numberText n)
  | .boolean b => .ok (if b then "true" else "false")
  | .array _ => .error .malformed
  | .object _ => .error .malformed

def operand (value : Scalar) : Except Error String := do
  let text ← scalarText value
  spelling text

def token : Operator → String
  | .eq => "=="
  | .ne => "!="
  | .lt => "=lt="
  | .le => "=le="
  | .gt => "=gt="
  | .ge => "=ge="
  | .isIn => "=in="
  | .notIn => "=out="
  | .contains => "=contains="
  | .notContains => "=notcontains="
  | .containsAny => "=containsany="
  | .containsAll => "=containsall="
  | .isNull => "=isnull="
  | .isNotNull => "=isnotnull="

def join (separator : Char) (texts : List String) : String :=
  String.ofList (joined separator (texts.map String.toList))

def operandsText (value : Option Scalar) (values : Option (List Scalar)) : Except Error String :=
  match values, value with
  | some values, _ => do
      let texts ← values.mapM operand
      .ok ("(" ++ join ',' texts ++ ")")
  | none, some value => operand value
  | none, none => .ok "true"

mutual

def format (parent : Nat) : Criteria → Except Error String
  | .and children => do
      let texts ← formatAll 2 children
      let text := join ';' texts
      .ok (if 2 < parent then "(" ++ text ++ ")" else text)
  | .or children => do
      let texts ← formatAll 1 children
      let text := join ',' texts
      .ok (if 1 < parent then "(" ++ text ++ ")" else text)
  | .predicate field op value values => do
      let operand ← operandsText value values
      .ok (field.asStr ++ token op ++ operand)

def formatAll (parent : Nat) : List Criteria → Except Error (List String)
  | [] => .ok []
  | c :: rest => do
      let text ← format parent c
      let texts ← formatAll parent rest
      .ok (text :: texts)

end

/-- Criteria are written only as a filter that the parser accepts. -/
def formatted (c : Criteria) : Except Error String := do
  let text ← format 0 c
  let _ ← checkedInput (Query.Filter.parse text)
  .ok text

end

variable [Inventory.Environment] [Numerals]

def compileFilter (catalog : Catalog) (scope : QueryScope) (text : String) :
    Except Error InventoryCondition := do
  let expression ← checkedInput (Query.Filter.parse text)
  let criteria ← bind catalog expression
  let condition : InventoryCondition := ⟨scope.selector, scope.quantifier, criteria⟩
  condition.validate
  .ok condition

def QueryScope.isDefault (scope : QueryScope) : Bool :=
  match scope.selector, scope.quantifier with
  | .device, .one => true
  | _, _ => false

def QueryInput.compile (input : QueryInput) (catalog : Catalog) : Except Error Query :=
  if input.fields.length > maxFields ∨ input.sort.length > maxSort then .error .malformed
  else
    match input.filter with
    | some text => do
        let condition ← compileFilter catalog input.scope text
        .ok ⟨some condition, input.fields, input.sort⟩
    | none =>
        if !input.scope.isDefault then .error .malformed else .ok ⟨none, input.fields, input.sort⟩

def QueryInput.fromQuery (query : Query) : Except Error QueryInput :=
  match query.criteria with
  | some c => do
      let text ← formatted c.criteria
      .ok ⟨some text, ⟨c.selector, c.quantifier⟩, query.fields, query.sort⟩
  | none => .ok ⟨none, .default, query.fields, query.sort⟩

structure SavedDefinition where
  name : String
  query : QueryInput

structure StoredDefinition where
  name : String
  query : Query

/-- What is stored can be written as a filter again. -/
def StoredDefinition.compile (input : SavedDefinition) (catalog : Catalog) :
    Except Error StoredDefinition := do
  let query ← input.query.compile catalog
  match query.criteria with
  | some condition => do
      let _ ← formatted condition.criteria
      .ok ⟨input.name, query⟩
  | none => .ok ⟨input.name, query⟩

def StoredDefinition.intoView (stored : StoredDefinition) : Except Error SavedDefinition := do
  let query ← QueryInput.fromQuery stored.query
  .ok ⟨stored.name, query⟩

end RssMdm.Assets.Rsql
