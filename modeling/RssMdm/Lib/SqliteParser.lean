/- module: Lib/SqliteParser
   generality: library
   digest: Trees of plain selections, their tokens, and a shift and reduce reader with the operator
   precedence of SQLite. -/

import RssMdm.Lib.SqliteLexer

set_option autoImplicit false

namespace RssMdm.Lib.Sqlite

inductive Unary where
  | not | minus | plus
deriving DecidableEq

inductive Binary where
  | or | and | eq | ne | is | isNot | lt | le | gt | ge
deriving DecidableEq

/-- Binding strength, weakest first. -/
def Binary.level : Binary → Nat
  | .or => 1
  | .and => 2
  | .eq | .ne | .is | .isNot => 4
  | .lt | .le | .gt | .ge => 5

def Unary.level : Unary → Nat
  | .not => 3
  | .minus | .plus => 6

def memberLevel : Nat := 4

def Unary.token : Unary → Token
  | .not => .keyword .not
  | .minus => .minus
  | .plus => .plus

def Binary.tokens : Binary → List Token
  | .or => [.keyword .or]
  | .and => [.keyword .and]
  | .eq => [.eq]
  | .ne => [.ne]
  | .is => [.keyword .is]
  | .isNot => [.keyword .is, .keyword .not]
  | .lt => [.lt]
  | .le => [.le]
  | .gt => [.gt]
  | .ge => [.ge]

inductive Expr where
  | word (name : List Char)
  | null
  | text (value : List Char)
  | number (digits : List Char)
  | variable (name : List Char)
  | paren (e : Expr)
  | call (name : List Char) (arguments : List Expr)
  | unary (op : Unary) (e : Expr)
  | binary (op : Binary) (left right : Expr)
  | member (negated : Bool) (e : Expr) (items : List Expr)

structure Item where
  expr : Expr
  name : Option (List Char)

structure Selection where
  items : List Item
  table : List Char
  condition : Option Expr
  limit : Option (List Char)

def inTokens (negated : Bool) : List Token :=
  if negated then [.keyword .not, .keyword .in] else [.keyword .in]

mutual

def Expr.tokens : Expr → List Token
  | .word name => [.word name]
  | .null => [.keyword .null]
  | .text value => [.text value]
  | .number digits => [.number digits]
  | .variable name => [.variable name]
  | .paren e => .opening :: (e.tokens ++ [.closing])
  | .call name arguments => .word name :: .opening :: (listTokens arguments ++ [.closing])
  | .unary op e => op.token :: e.tokens
  | .binary op left right => left.tokens ++ (op.tokens ++ right.tokens)
  | .member negated e items =>
      e.tokens ++ (inTokens negated ++ .opening :: (listTokens items ++ [.closing]))

def listTokens : List Expr → List Token
  | [] => []
  | e :: es => e.tokens ++ moreTokens es

def moreTokens : List Expr → List Token
  | [] => []
  | e :: es => .comma :: (e.tokens ++ moreTokens es)

end

def Item.tokens (item : Item) : List Token :=
  item.expr.tokens ++
    match item.name with
    | none => []
    | some name => [.keyword .as, .word name]

def itemTokens : List Item → List Token
  | [] => []
  | [item] => item.tokens
  | item :: items => item.tokens ++ .comma :: itemTokens items

def conditionTokens : Option Expr → List Token
  | none => []
  | some e => .keyword .where :: e.tokens

def limitTokens : Option (List Char) → List Token
  | none => []
  | some n => [.keyword .limit, .number n]

def Selection.tokens (s : Selection) : List Token :=
  .keyword .select :: (itemTokens s.items ++ .keyword .from :: .word s.table ::
    (conditionTokens s.condition ++ limitTokens s.limit))

def Expr.isNegation : Expr → Bool
  | .unary .not _ => true
  | _ => false

/-- An operator of this level ends the expression. -/
def Expr.yields (level : Nat) : Expr → Bool
  | .unary op e => level ≤ op.level && e.yields level
  | .binary op _ right => level ≤ op.level && right.yields level
  | _ => true

mutual

/-- Behind an operator of level `p` the tree is the one that precedence gives. -/
def Expr.nests (p : Nat) : Expr → Bool
  | .paren e => e.nests 0
  | .call _ arguments => allNest arguments
  | .unary op e => e.nests op.level
  | .binary op left right => p < op.level && left.nests p && left.yields op.level &&
      right.nests op.level && !(op = .is && right.isNegation)
  | .member _ e items => p < memberLevel && e.nests p && e.yields memberLevel && allNest items
  | .word _ | .null | .text _ | .number _ | .variable _ => true

def allNest : List Expr → Bool
  | [] => true
  | e :: es => e.nests 0 && allNest es

end

def Selection.nests (s : Selection) : Bool :=
  !s.items.isEmpty && s.items.all (fun item => item.expr.nests 0) &&
    s.condition.all (fun e => e.nests 0)

/-- What is open on the stack of the reader. -/
inductive Frame where
  | unary (op : Unary)
  | binary (op : Binary) (left : Expr)
  | paren
  | call (name : List Char) (done : List Expr)
  | member (negated : Bool) (e : Expr) (done : List Expr)
  | item (done : List Item)
  | condition (items : List Item) (table : List Char)

/-- What is expected next. -/
inductive Mode where
  | start
  | operand (closes : Bool)
  | ready (e : Expr)
  | is (left : Expr)
  | notIn (e : Expr)
  | members (negated : Bool) (e : Expr)
  | naming (e : Expr)
  | named (item : Item)
  | table (items : List Item)
  | tabled (items : List Item) (table : List Char)
  | limit (items : List Item) (table : List Char) (condition : Option Expr)
  | done (s : Selection)

structure Reader where
  stack : List Frame
  mode : Mode

/-- Complete the open operators that bind at least as strongly as the next one. -/
def reduce (level : Nat) : List Frame → Expr → List Frame × Expr
  | .unary op :: stack, e =>
      if level ≤ op.level then reduce level stack (.unary op e) else (.unary op :: stack, e)
  | .binary op left :: stack, e =>
      if level ≤ op.level then reduce level stack (.binary op left e)
      else (.binary op left :: stack, e)
  | stack, e => (stack, e)

def binaryOf : Token → Option Binary
  | .keyword .or => some .or
  | .keyword .and => some .and
  | .eq => some .eq
  | .ne => some .ne
  | .lt => some .lt
  | .le => some .le
  | .gt => some .gt
  | .ge => some .ge
  | _ => none

/-- Read a token where an operand is expected. -/
def shift (stack : List Frame) (closes : Bool) : Token → Option Reader
  | .word name => some ⟨stack, .ready (.word name)⟩
  | .keyword .null => some ⟨stack, .ready .null⟩
  | .text value => some ⟨stack, .ready (.text value)⟩
  | .number digits => some ⟨stack, .ready (.number digits)⟩
  | .variable name => some ⟨stack, .ready (.variable name)⟩
  | .opening => some ⟨.paren :: stack, .operand false⟩
  | .minus => some ⟨.unary .minus :: stack, .operand false⟩
  | .plus => some ⟨.unary .plus :: stack, .operand false⟩
  | .keyword .not => some ⟨.unary .not :: stack, .operand false⟩
  | .closing =>
      match closes, stack with
      | true, .call name [] :: stack => some ⟨stack, .ready (.call name [])⟩
      | true, .member negated e [] :: stack => some ⟨stack, .ready (.member negated e [])⟩
      | _, _ => none
  | _ => none

def close (stack : List Frame) (e : Expr) : Token → Option Reader
  | .closing =>
      match stack with
      | .paren :: stack => some ⟨stack, .ready (.paren e)⟩
      | .call name done :: stack => some ⟨stack, .ready (.call name (done ++ [e]))⟩
      | .member negated left done :: stack =>
          some ⟨stack, .ready (.member negated left (done ++ [e]))⟩
      | _ => none
  | .comma =>
      match stack with
      | .call name done :: stack => some ⟨.call name (done ++ [e]) :: stack, .operand false⟩
      | .member negated left done :: stack =>
          some ⟨.member negated left (done ++ [e]) :: stack, .operand false⟩
      | [.item done] => some ⟨[.item (done ++ [⟨e, none⟩])], .operand false⟩
      | _ => none
  | .keyword .as =>
      match stack with
      | [.item done] => some ⟨[.item done], .naming e⟩
      | _ => none
  | .keyword .from =>
      match stack with
      | [.item done] => some ⟨[], .table (done ++ [⟨e, none⟩])⟩
      | _ => none
  | .keyword .limit =>
      match stack with
      | [.condition items table] => some ⟨[], .limit items table (some e)⟩
      | _ => none
  | _ => none

/-- Read a token after an operand. -/
def proceed (stack : List Frame) (e : Expr) (t : Token) : Option Reader :=
  match binaryOf t with
  | some op =>
      let (stack, e) := reduce op.level stack e
      some ⟨.binary op e :: stack, .operand false⟩
  | none =>
      match t with
      | .keyword .is =>
          let (stack, e) := reduce Binary.is.level stack e
          some ⟨stack, .is e⟩
      | .keyword .not =>
          let (stack, e) := reduce memberLevel stack e
          some ⟨stack, .notIn e⟩
      | .keyword .in =>
          let (stack, e) := reduce memberLevel stack e
          some ⟨stack, .members false e⟩
      | .opening =>
          match e with
          | .word name => some ⟨.call name [] :: stack, .operand true⟩
          | _ => none
      | t =>
          let (stack, e) := reduce 0 stack e
          close stack e t

def Reader.step (r : Reader) (t : Token) : Option Reader :=
  match r.mode with
  | .start => if t = .keyword .select then some ⟨[.item []], .operand false⟩ else none
  | .operand closes => shift r.stack closes t
  | .ready e => proceed r.stack e t
  | .is left =>
      if t = .keyword .not then some ⟨.binary .isNot left :: r.stack, .operand false⟩
      else shift (.binary .is left :: r.stack) false t
  | .notIn e => if t = .keyword .in then some ⟨r.stack, .members true e⟩ else none
  | .members negated e =>
      if t = .opening then some ⟨.member negated e [] :: r.stack, .operand true⟩ else none
  | .naming e =>
      match t with
      | .word name => some ⟨r.stack, .named ⟨e, some name⟩⟩
      | _ => none
  | .named item =>
      match r.stack, t with
      | [.item done], .comma => some ⟨[.item (done ++ [item])], .operand false⟩
      | [.item done], .keyword .from => some ⟨[], .table (done ++ [item])⟩
      | _, _ => none
  | .table items =>
      match t with
      | .word name => some ⟨r.stack, .tabled items name⟩
      | _ => none
  | .tabled items table =>
      match t with
      | .keyword .where => some ⟨[.condition items table], .operand false⟩
      | .keyword .limit => some ⟨r.stack, .limit items table none⟩
      | _ => none
  | .limit items table condition =>
      match t with
      | .number n => some ⟨r.stack, .done ⟨items, table, condition, some n⟩⟩
      | _ => none
  | .done _ => none

def Reader.run : Reader → List Token → Option Reader
  | r, [] => some r
  | r, t :: ts => (r.step t).bind (fun r => r.run ts)

def Reader.finish (r : Reader) : Option Selection :=
  match r.mode with
  | .ready e =>
      match reduce 0 r.stack e with
      | ([.condition items table], e) => some ⟨items, table, some e, none⟩
      | _ => none
  | .tabled items table => some ⟨items, table, none, none⟩
  | .done s => some s
  | _ => none

def parse (ts : List Token) : Option Selection :=
  ((Reader.mk [] .start).run ts).bind Reader.finish

def read (sql : List Char) : Option Selection := (lex sql).bind parse

end RssMdm.Lib.Sqlite
