/- module: WindowsMdm/Xml/Input
   source: crates/windows-mdm/src/xml.rs
   digest: The streaming protocol cursor over the library's events; no tree is built. -/

import RssMdm.Lib.Outcome
import RssMdm.WindowsMdm.Xml.Output

set_option autoImplicit false

namespace RssMdm.WindowsMdm.Xml

open Lib.Fallible Lib.Outcome Lib.Text

def xmlNamespace : String := "http://www.w3.org/XML/1998/namespace"

def xmlnsNamespace : String := "http://www.w3.org/2000/xmlns/"

def within (c : Char) (range : Nat × Nat) : Bool := range.1 ≤ c.toNat && c.toNat ≤ range.2

def nameStart (c : Char) : Bool :=
  [(0x41, 0x5a), (0x61, 0x7a), (0x5f, 0x5f), (0xc0, 0xd6), (0xd8, 0xf6), (0xf8, 0x2ff),
    (0x370, 0x37d), (0x37f, 0x1fff), (0x200c, 0x200d), (0x2070, 0x218f), (0x2c00, 0x2fef),
    (0x3001, 0xd7ff), (0xf900, 0xfdcf), (0xfdf0, 0xfffd), (0x10000, 0xeffff)].any (within c)

def nameChar (c : Char) : Bool :=
  nameStart c || [(0x2d, 0x2d), (0x2e, 0x2e), (0x30, 0x39), (0xb7, 0xb7), (0x300, 0x36f),
    (0x203f, 0x2040)].any (within c)

/-- At most two names with a colon between them. -/
def qname (value : String) : Except CodecError Unit :=
  let parts := value.toList.splitOn ':'
  if parts.length > 2 then .error .malformedXml
  else each (fun part =>
    if !part.head?.any nameStart || !part.tail.all nameChar then .error .malformedXml
    else .ok ()) parts

/-- An attribute of a start event: its normalized value and its resolved namespace. -/
structure Attribute where
  key : String
  value : Except CodecError String
  ns : Except CodecError String
  name : String
deriving DecidableEq

/-- Events of the library's namespace reader, with its errors already classified. An attribute or a
declaration item that does not parse is absent. -/
inductive Event where
  | start (key : String) (ns : Except CodecError String) (name : String)
      (attrs : List (Option Attribute))
  | finish (ns : Except CodecError String) (name : String)
  | text (content : String)
  | cdata (content : String)
  | reference (char : Except CodecError (Option Char)) (name : String)
  | declaration (items : List (Option (String × String)))
  | comment
  | docType
  | instruction
  | failed (e : CodecError)
deriving DecidableEq

structure Attr where
  ns : String
  name : String
  value : String
deriving DecidableEq

structure Start where
  ns : String
  name : String
  attrs : List Attr
deriving DecidableEq

def Start.only (s : Start) (allowed : List (String × String)) : Except CodecError Unit :=
  if s.attrs.any (fun a => !allowed.contains (a.ns, a.name)) then .error .unsupported else .ok ()

inductive Token where
  | start (s : Start)
  | finish (ns name : String)
  | text (content : String)
  | eof
deriving DecidableEq

variable (l : CodecLimits)

/-- The attributes of an element after namespace declarations, and how many it has in all. -/
def readAttrs (base : Nat) : Nat → List (String × String) → List (Option Attribute) →
    Except CodecError (List Attr × Nat)
  | count, _, [] => .ok ([], count)
  | _, _, none :: _ => .error .malformedXml
  | count, seen, some a :: rest => do
      qname a.key
      bound (count + 1) l.attributesPerElement
      bound (base + (count + 1)) l.attributes
      let value ← a.value
      text value l.fieldBytes true
      if isXmlns a.key then
        if value = xmlnsNamespace || (value = xmlNamespace && a.key ≠ "xmlns:xml") ||
            (startsWith a.key "xmlns:" && value.isEmpty) then .error .wrongNamespace
        else readAttrs base (count + 1) seen rest
      else do
        let ns ← a.ns
        if seen.contains (ns, a.name) then .error .duplicate
        else do
          let (attrs, n) ← readAttrs base (count + 1) ((ns, a.name) :: seen) rest
          .ok (⟨ns, a.name, value⟩ :: attrs, n)

def entity (name : String) : Except CodecError String :=
  if name = "amp" then .ok "&"
  else if name = "lt" then .ok "<"
  else if name = "gt" then .ok ">"
  else if name = "apos" then .ok "'"
  else if name = "quot" then .ok "\""
  else .error .forbiddenXml

def resolve (char : Option Char) (name : String) : Except CodecError String :=
  match char with
  | some c => if !legalChar c then .error .malformedXml else .ok (String.ofList [c])
  | none => entity name

/-- The version, then an optional encoding, then an optional standalone marker. -/
def readDeclaration : Nat → List (Option (String × String)) → Except CodecError Nat
  | position, [] => .ok position
  | _, none :: _ => .error .malformedXml
  | position, some (key, value) :: rest => do
      bound value.utf8ByteSize l.fieldBytes
      if position = 0 && key = "version" && value = "1.0" then readDeclaration 1 rest
      else if position = 1 && key = "encoding" &&
          value.toList.map Char.toLower = "utf-8".toList then readDeclaration 2 rest
      else if (position = 1 || position = 2) && key = "standalone" &&
          (value = "yes" || value = "no") then readDeclaration 3 rest
      else .error .malformedXml

/-- The reader with its budget; when no event is left the document has ended. -/
structure Cursor where
  events : List Event
  budget : Budget
  started : Bool
  declaration : Bool

def Cursor.readFrom : List Event → Budget → Bool → Bool → Except CodecError (Token × Cursor)
  | [], b, started, declaration => do
      let b ← b.event l
      .ok (.eof, ⟨[], b, started, declaration⟩)
  | e :: rest, b, started, declaration => do
      let b ← b.event l
      match e with
      | .start key ns name attrs => do
          qname key
          let ns ← ns
          let (attrs, count) ← readAttrs l b.attrs 0 [] attrs
          let b ← b.start count l
          .ok (.start ⟨ns, name, attrs⟩, ⟨rest, b, true, declaration⟩)
      | .finish ns name =>
          if b.depth = 0 then .error .malformedXml
          else do
            let ns ← ns
            .ok (.finish ns name, ⟨rest, { b with depth := b.depth - 1 }, started, declaration⟩)
      | .text content =>
          .ok (.text content, ⟨rest, b, started || b.depth = 0, declaration⟩)
      | .cdata content =>
          if b.depth = 0 then .error .malformedXml
          else .ok (.text content, ⟨rest, b, started, declaration⟩)
      | .reference char name =>
          if b.depth = 0 then .error .malformedXml
          else do
            let char ← char
            let content ← resolve char name
            .ok (.text content, ⟨rest, b, started, declaration⟩)
      | .declaration items =>
          if started || declaration then .error .malformedXml
          else do
            let position ← readDeclaration l 0 items
            if position = 0 then .error .malformedXml else Cursor.readFrom rest b started true
      | .comment => Cursor.readFrom rest b true declaration
      | .docType => .error .forbiddenXml
      | .instruction => .error .forbiddenXml
      | .failed e => .error e

def Cursor.read (c : Cursor) : Except CodecError (Token × Cursor) :=
  Cursor.readFrom l c.events c.budget c.started c.declaration

structure Input where
  cursor : Cursor
  look : Option Token
  commands : Nat
  items : Nat

/-- A reader of the protocol; loops carry a bound on their rounds. -/
abbrev Parser (α : Type) : Type := StateT Input (Run CodecError) α

/-- A check that reads nothing. -/
def lift {α : Type} (x : Except CodecError α) : Parser α := fun p =>
  match x with
  | .ok a => .ok (a, p)
  | .error e => .error (.error e)

def exhausted {α : Type} : Parser α := fun _ => .error .fuel

def fail {α : Type} (e : CodecError) : Parser α := fun _ => .error (.error e)

theorem Parser.bind_ok {α β : Type} {f : Parser α} {g : α → Parser β} {p p' : Input} {a : α}
    (h : f p = .ok (a, p')) : (f >>= g) p = g a p' := by
  simp only [bind, StateT.bind, h, Except.bind]

theorem Parser.bind_error {α β : Type} {f : Parser α} {g : α → Parser β} {p : Input}
    {e : Fault CodecError} (h : f p = .error e) : (f >>= g) p = .error e := by
  simp only [bind, StateT.bind, h, Except.bind]

theorem lift_ok {α : Type} {x : Except CodecError α} {a : α} (h : x = .ok a) (p : Input) :
    lift x p = .ok (a, p) := by
  rw [h]
  rfl

theorem lift_error {α : Type} {x : Except CodecError α} {e : CodecError} (h : x = .error e)
    (p : Input) : lift x p = .error (.error e) := by
  rw [h]
  rfl

/-- Characters that may stand between elements. -/
def insignificant (c : Char) : Bool := c = ' ' || c = '\n' || c = '\r' || c = '\t'

def Token.insignificant : Token → Bool
  | .text content => content.toList.all Xml.insignificant
  | _ => false

def Token.isStart (ns name : String) : Token → Bool
  | .start s => s.ns = ns && s.name = name
  | _ => false

namespace Input

def new (events : List Event) : Input := ⟨⟨events, Budget.new, false, false⟩, none, 0, 0⟩

def read : Parser Token := fun p =>
  match p.look with
  | some t => .ok (t, { p with look := none })
  | none =>
      match p.cursor.read l with
      | .ok (t, cursor) => .ok (t, { p with cursor := cursor })
      | .error e => .error (.error e)

def significantLoop : Nat → Parser Token
  | 0 => exhausted
  | fuel + 1 => do
      let t ← read l
      if t.insignificant then significantLoop fuel else pure t

variable (fuel : Nat)

def significant : Parser Token := significantLoop l fuel

def keep (t : Token) : Parser Unit := fun p => .ok ((), { p with look := some t })

/-- Whether the next element is the named one; nothing is consumed. -/
def is (ns name : String) : Parser Bool := do
  let t ← significant l fuel
  keep t
  pure (t.isStart ns name)

def start (ns name : String) : Parser Start := do
  let t ← significant l fuel
  match t with
  | .start s =>
      if s.ns = ns && s.name = name then pure s
      else if s.name = name then fail .wrongNamespace
      else fail .structural
  | _ => fail .structural

/-- An element without attributes. -/
def enter (ns name : String) : Parser Unit := do
  let s ← start l fuel ns name
  lift (s.only [])

def close (ns name : String) : Parser Unit := do
  let t ← significant l fuel
  if t = .finish ns name then pure () else fail .structural

def contentLoop (ns name : String) (max : Nat) (empty : Bool) : Nat → List Char → Parser String
  | 0, _ => exhausted
  | fuel + 1, s => do
      let t ← read l
      match t with
      | .text content => do
          lift (bound (utf8Len s + content.utf8ByteSize) max)
          contentLoop ns name max empty fuel (s ++ content.toList)
      | .finish n k =>
          if n = ns && k = name then do
            lift (text (String.ofList s) max empty)
            pure (String.ofList s)
          else fail .structural
      | _ => fail .structural

def content (ns name : String) (max : Nat) (empty : Bool) : Parser String :=
  contentLoop l ns name max empty fuel []

def scalar (ns name : String) (max : Nat) (empty : Bool) : Parser String := do
  enter l fuel ns name
  content l fuel ns name max empty

def optional (ns name : String) (max : Nat) : Parser (Option String) := do
  let present ← is l fuel ns name
  if present then do
    let s ← scalar l fuel ns name max false
    pure (some s)
  else pure none

def finish : Parser Unit := do
  let t ← significant l fuel
  let p ← get
  if t = .eof && p.cursor.budget.depth = 0 then pure () else fail .structural

def command : Parser Unit := fun p => do
  (bound (p.commands + 1) l.commands).mapError Fault.error
  .ok ((), { p with commands := p.commands + 1 })

def item : Parser Unit := fun p => do
  (bound (p.items + 1) l.items).mapError Fault.error
  .ok ((), { p with items := p.items + 1 })

end Input

end RssMdm.WindowsMdm.Xml
