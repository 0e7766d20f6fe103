/- module: Query/Filter
   source: crates/query/src/lib.rs, crates/query/src/parser.rs
   digest: Filter expressions and the recursive-descent parser over byte offsets. -/

import RssMdm.Lib.Outcome
import RssMdm.Lib.Text

set_option autoImplicit false

namespace RssMdm.Query

open Lib.Outcome Lib.Text

inductive QueryError where
  | invalid
  | budget
  | cursorInvalidated
deriving DecidableEq, Repr

inductive Operator where
  | eq | ne | lt | le | gt | ge
  | isIn | out
  | icontains | contains | notContains | containsAny | containsAll
  | isNull | isNotNull
deriving DecidableEq, Repr

namespace Operator

def set : Operator → Bool
  | isIn | out | containsAny | containsAll => true
  | _ => false

end Operator

inductive Expression (F V : Type) where
  | compare (field : F) (operator : Operator) (values : List V)
  | and (children : List (Expression F V))
  | or (children : List (Expression F V))

abbrev Expr : Type := Expression String String

def maxFilterBytes : Nat := 8 * 1024

namespace Filter

/-- The parser's cursor: a byte offset into the input and the two running budgets. -/
structure Parser where
  input : List Char
  offset : Nat
  nodes : Nat
  setItems : Nat

abbrev Parsed (α : Type) : Type := Run QueryError α

namespace Parser

/-- `&self.input[self.offset..]`, which panics off a character boundary. -/
def rest (p : Parser) : Parsed (List Char) :=
  match sliceFrom p.input p.offset with
  | some cs => .ok cs
  | none => .error .panic

def advance (p : Parser) (n : Nat) : Parser := { p with offset := p.offset + n }

def eat (c : Char) (p : Parser) : Parsed (Bool × Parser) := do
  let cs ← p.rest
  if cs.head? = some c then .ok (true, p.advance c.utf8Size) else .ok (false, p)

def node (p : Parser) : Parsed Parser :=
  if p.nodes ≥ 128 then .error (.error .budget) else .ok { p with nodes := p.nodes + 1 }

/-- Every loop over the input runs at most once per byte. -/
def loopFuel (p : Parser) : Nat := utf8Len p.input + 1

end Parser

/-- `b.is_ascii_alphanumeric() || matches!(*b, b'_' | b'.')`. -/
def fieldByte (b : UInt8) : Bool :=
  (0x30 ≤ b.toNat && b.toNat ≤ 0x39) || (0x41 ≤ b.toNat && b.toNat ≤ 0x5a) ||
    (0x61 ≤ b.toNat && b.toNat ≤ 0x7a) || b.toNat = 0x5f || b.toNat = 0x2e

/-- The `while` loop of `atom` that steps over the field name byte by byte. -/
def fieldEnd : Nat → Parser → Parsed Parser
  | 0, _ => .error .fuel
  | fuel + 1, p => do
    let cs ← p.rest
    if (firstByte cs).any fieldByte then fieldEnd fuel (p.advance 1) else .ok p

/-- `self.input[start..end]`, which panics off a character boundary. -/
def slice (input : List Char) (start finish : Nat) : Parsed (List Char) :=
  match (sliceFrom input start).bind (sliceTo · (finish - start)) with
  | some cs => .ok cs
  | none => .error .panic

/-- The operator table, in the order it is searched. -/
def operators : List (String × Operator) :=
  [("==", .eq), ("!=", .ne), ("=lt=", .lt), ("=le=", .le), ("=gt=", .gt), ("=ge=", .ge),
    ("=in=", .isIn), ("=out=", .out), ("=icontains=", .icontains), ("=contains=", .contains),
    ("=notcontains=", .notContains), ("=containsany=", .containsAny),
    ("=containsall=", .containsAll), ("=isnull=", .isNull), ("=isnotnull=", .isNotNull)]

def isQuote (c : Char) : Bool := c = '\'' || c = '"'

def escapable (c : Char) : Bool :=
  c = '\\' || c = '\'' || c = '"' || c = ',' || c = ';' || c = '(' || c = ')'

/-- What an unquoted value may not hold unescaped. -/
def bareForbidden (c : Char) : Bool :=
  isWhitespace c || c = '(' || c = '\'' || c = '"' || c = '=' || c = '!' || c = '<' || c = '>'

/-- One character of a value after the cursor has passed `c`. -/
def valueChar (quote : Option Char) (c : Char) (p : Parser) : Parsed (Char × Parser) :=
  if c = '\\' then do
    let cs ← p.rest
    match cs.head? with
    | none => .error (.error .invalid)
    | some escaped =>
      if !escapable escaped then .error (.error .invalid)
      else .ok (escaped, p.advance escaped.utf8Size)
  else if quote.isNone && bareForbidden c then .error (.error .invalid)
  else .ok (c, p)

/-- The `while let` loop of `value`; the flag is `closed`. -/
def valueLoop (quote : Option Char) :
    Nat → List Char → Bool → Parser → Parsed (List Char × Bool × Parser)
  | 0, _, _, _ => .error .fuel
  | fuel + 1, result, closed, p => do
    let cs ← p.rest
    match cs.head? with
    | none => .ok (result, closed, p)
    | some c =>
      if quote = some c then do
        let (_, p) ← p.eat c
        .ok (result, true, p)
      else if quote.isNone && (c = ',' || c = ';' || c = ')') then .ok (result, closed, p)
      else do
        let (c, p) ← valueChar quote c (p.advance c.utf8Size)
        if isControl c || (quote.isNone && c = '*') then .error (.error .invalid)
        else if utf8Len result + c.utf8Size > 1024 then .error (.error .budget)
        else valueLoop quote fuel (result ++ [c]) closed p

def value (p : Parser) : Parsed (String × Parser) := do
  let cs ← p.rest
  let quote := cs.head?.filter isQuote
  let p ← match quote with
    | some q => do
      let (_, p) ← p.eat q
      .ok p
    | none => .ok p
  let (result, closed, p) ← valueLoop quote p.loopFuel [] quote.isNone p
  if !closed || (quote.isNone && result.isEmpty) then .error (.error .invalid)
  else .ok (String.ofList result, p)

def setLoop : Nat → List String → Parser → Parsed (List String × Parser)
  | 0, _, _ => .error .fuel
  | fuel + 1, values, p =>
    if values.length ≥ 64 || p.setItems ≥ 256 then .error (.error .budget)
    else do
      let (v, p) ← value { p with setItems := p.setItems + 1 }
      let (closed, p) ← p.eat ')'
      if closed then .ok (values ++ [v], p)
      else do
        let (comma, p) ← p.eat ','
        if !comma then .error (.error .invalid) else setLoop fuel (values ++ [v]) p

/-- `atom` after its parenthesised branch. -/
def comparison (p : Parser) : Parsed (Expr × Parser) := do
  let p ← p.node
  let start := p.offset
  let p ← fieldEnd p.loopFuel p
  if p.offset = start || p.offset - start > 128 then .error (.error .invalid)
  else do
    let field ← slice p.input start p.offset
    let cs ← p.rest
    match operators.find? fun entry => entry.1.toList.isPrefixOf cs with
    | none => .error (.error .invalid)
    | some (token, operator) => do
      let p := p.advance token.utf8ByteSize
      if operator.set then do
        let (opened, p) ← p.eat '('
        if !opened then .error (.error .invalid)
        else do
          let (values, p) ← setLoop p.loopFuel [] p
          .ok (.compare (String.ofList field) operator values, p)
      else do
        let (v, p) ← value p
        .ok (.compare (String.ofList field) operator [v], p)

def separator (precedence : Nat) : Char := if precedence = 0 then ',' else ';'

mutual

def logical : Nat → Nat → Nat → Parser → Parsed (Expr × Parser)
  | 0, _, _, _ => .error .fuel
  | fuel + 1, precedence, depth, p =>
    if depth > 16 then .error (.error .budget)
    else if precedence = 2 then atom fuel depth p
    else do
      let (first, p) ← logical fuel (precedence + 1) depth p
      let (more, p) ← p.eat (separator precedence)
      if !more then .ok (first, p)
      else do
        let p ← p.node
        let (children, p) ← logicalLoop fuel precedence depth [first] p
        .ok (if precedence = 0 then .or children else .and children, p)

/-- The loop of `logical` over the children after the first. -/
def logicalLoop : Nat → Nat → Nat → List Expr → Parser → Parsed (List Expr × Parser)
  | 0, _, _, _, _ => .error .fuel
  | fuel + 1, precedence, depth, children, p => do
    let (child, p) ← logical fuel (precedence + 1) depth p
    let (more, p) ← p.eat (separator precedence)
    if more then logicalLoop fuel precedence depth (children ++ [child]) p
    else .ok (children ++ [child], p)

def atom : Nat → Nat → Parser → Parsed (Expr × Parser)
  | 0, _, _ => .error .fuel
  | fuel + 1, depth, p => do
    let (opened, p) ← p.eat '('
    if opened then
      if depth = 16 then .error (.error .budget)
      else do
        let (inner, p) ← logical fuel 0 (depth + 1) p
        let (closed, p) ← p.eat ')'
        if !closed then .error (.error .invalid) else .ok (inner, p)
    else comparison p

end

/-- Recursion depth that covers every call on an input of the given length. -/
def recursionFuel (length : Nat) : Nat := 4 * length + 4

def parse (input : String) : Parsed Expr :=
  if input.utf8ByteSize > maxFilterBytes then .error (.error .budget)
  else do
    let p : Parser := { input := input.toList, offset := 0, nodes := 0, setItems := 0 }
    let (result, p) ← logical (recursionFuel input.length) 0 0 p
    if p.offset ≠ input.utf8ByteSize then .error (.error .invalid) else .ok result

end Filter

end RssMdm.Query
