/- module: WindowsMdm/Xml/Output
   source: crates/windows-mdm/src/xml.rs
   digest: The bounded XML writer: structural budgets, namespace bindings and the byte sink. -/

import RssMdm.WindowsMdm.Codec

set_option autoImplicit false

namespace RssMdm.WindowsMdm.Xml

open Lib.Fallible Lib.Text

structure Budget where
  events : Nat
  elements : Nat
  depth : Nat
  attrs : Nat
deriving DecidableEq

namespace Budget

def new : Budget := ⟨0, 0, 0, 0⟩

def event (b : Budget) (l : CodecLimits) : Except CodecError Budget := do
  bound (b.events + 1) l.events
  .ok { b with events := b.events + 1 }

def start (b : Budget) (attrs : Nat) (l : CodecLimits) : Except CodecError Budget := do
  bound (b.elements + 1) l.elements
  bound (b.depth + 1) l.depth
  bound attrs l.attributesPerElement
  bound (b.attrs + attrs) l.attributes
  .ok { b with elements := b.elements + 1, depth := b.depth + 1, attrs := b.attrs + attrs }

end Budget

/-- What the protocol writers ask of the output; `check` is the text check of a scalar. -/
inductive Call where
  | start (name : String) (attrs : List (String × String))
  | close (name : String)
  | check (value : String) (max : Nat) (empty : Bool)
  | content (value : String) (max : Nat)
  | item
  | command
deriving DecidableEq

namespace Call

def scalar (name value : String) (max : Nat) (empty : Bool) : List Call :=
  [check value max empty, start name [], content value max, close name]

def hollow (name : String) : List Call := [start name [], close name]

end Call

def special (c : Char) : Bool :=
  c = '&' || c = '<' || c = '>' || c = '"' || c = '\'' || c = '\r'

def isXmlns (key : String) : Bool := key = "xmlns" || startsWith key "xmlns:"

/-- The escaping of one character is the library's. -/
abbrev Escape : Type := Char → List Char

def startTag (escape : Escape) (name : String) (attrs : List (String × String)) : List Char :=
  '<' :: name.toList ++ attrs.flatMap (fun a => ' ' :: a.1.toList ++ '=' :: '"' ::
    a.2.toList.flatMap escape ++ ['"']) ++ ['>']

def endTag (name : String) : List Char := '<' :: '/' :: name.toList ++ ['>']

def Call.spelling (escape : Escape) : Call → List Char
  | start name attrs => startTag escape name attrs
  | close name => endTag name
  | content value _ => value.toList.flatMap escape
  | _ => []

structure Output where
  written : List Char
  max : Nat
  budget : Budget
  bindings : List Nat
  active : Nat
  commands : Nat
  items : Nat
deriving DecidableEq

namespace Output

def new (max : Nat) : Output := ⟨[], max, Budget.new, [], 0, 0, 0⟩

/-- The sink refuses what exceeds its capacity. -/
def write (o : Output) (cs : List Char) : Except CodecError Output :=
  if utf8Len cs > o.max - utf8Len o.written then .error .limitExceeded
  else .ok { o with written := o.written ++ cs }

/-- One event for each reference and each text run between them; `run` is inside one. -/
def contentEvents (l : CodecLimits) : Bool → List Char → Budget → Except CodecError Budget
  | _, [], b => .ok b
  | run, c :: cs, b =>
      if special c then do
        let b ← b.event l
        contentEvents l false cs b
      else if !run then do
        let b ← b.event l
        contentEvents l true cs b
      else contentEvents l run cs b

variable (escape : Escape) (l : CodecLimits)

def start (o : Output) (name : String) (attrs : List (String × String)) :
    Except CodecError Output := do
  let b ← o.budget.event l
  let b ← b.start attrs.length l
  let n := (attrs.filter (fun a => isXmlns a.1)).length
  bound (o.active + n) l.namespaceBindings
  each (fun a => text a.2 l.fieldBytes true) attrs
  write { o with budget := b, active := o.active + n, bindings := n :: o.bindings }
    (startTag escape name attrs)

def close (o : Output) (name : String) : Except CodecError Output := do
  let b ← o.budget.event l
  if b.depth = 0 then .error .structural
  else match o.bindings with
    | [] => .error .structural
    | n :: bindings =>
        write { o with budget := { b with depth := b.depth - 1 }, active := o.active - n, bindings }
          (endTag name)

def content (o : Output) (value : String) (max : Nat) : Except CodecError Output := do
  text value max true
  if value.toList.isEmpty then .ok o
  else do
    let b ← contentEvents l false value.toList o.budget
    write { o with budget := b } (value.toList.flatMap escape)

def perform (o : Output) : Call → Except CodecError Output
  | .start name attrs => o.start escape l name attrs
  | .close name => o.close l name
  | .check value max empty => do
      text value max empty
      .ok o
  | .content value max => o.content escape l value max
  | .item => do
      bound (o.items + 1) l.items
      .ok { o with items := o.items + 1 }
  | .command => do
      bound (o.commands + 1) l.commands
      .ok { o with commands := o.commands + 1 }

/-- Calls are made in order until one is refused. -/
def run (o : Output) : List Call → Except CodecError Output
  | [] => .ok o
  | c :: cs => do
      let o ← o.perform escape l c
      run o cs

def finish (o : Output) : Except CodecError (List Char) := do
  let b ← o.budget.event l
  if b.depth ≠ 0 then .error .structural else .ok o.written

end Output

end RssMdm.WindowsMdm.Xml
