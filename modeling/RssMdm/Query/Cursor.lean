/- module: Query/Cursor
   source: crates/query/src/cursor.rs
   digest: Authenticated continuation tokens bound to a query context. -/

import RssMdm.Query.Filter

set_option autoImplicit false

namespace RssMdm.Query

open Lib.Fallible

/-- A JSON value; a number shows the 64-bit integer it is, if it is one. -/
inductive Json where
  | null
  | bool (value : Bool)
  | number (value : Option Int)
  | string (value : String)
  | array (items : List Json)
  | object (members : List (String × Json))

/-- One value for each column of an ordering. -/
abbrev Position : Type := List Json

structure Payload where
  version : UInt8
  context : String
  position : Position

/-- A codec under one key, over the message authentication, the base64url alphabet, the JSON
serializer and the token type of the shared contract crate. -/
structure CursorCodec where
  sign : List UInt8 → List UInt8
  verify : List UInt8 → List UInt8 → Bool
  base64 : List UInt8 → String
  unbase64 : String → Option (List UInt8)
  toJson : Payload → List UInt8
  fromJson : List UInt8 → Option Payload
  pageCursor : String → Bool

namespace CursorCodec

variable (c : CursorCodec)

def domain : List UInt8 := "rss-mdm/query-cursor/v1".toByteArray.data.toList ++ [0]

/-- The authenticated bytes of a continuation. -/
def message (context : String) (position : Position) : List UInt8 :=
  domain ++ c.toJson ⟨1, context, position⟩

def encodeBounded (context : String) (position : Position) (maxBytes : Nat) :
    Except QueryError String :=
  let bytes := c.message context position
  let token := c.base64 (bytes ++ c.sign bytes)
  if token.utf8ByteSize > maxBytes then .error .budget else .ok token

def encode (context : String) (position : Position) : Except QueryError String := do
  let token ← c.encodeBounded context position 4096
  if !c.pageCursor token then .error .budget else .ok token

def validateToken (token : String) (maxBytes : Nat) : Except QueryError Unit :=
  if token.utf8ByteSize > maxBytes then .error .budget
  else if token.isEmpty || (c.unbase64 token).isNone then .error .invalid
  else .ok ()

def openPayload (bytes : List UInt8) (context : String) : Except QueryError Position :=
  if bytes.length < 32 then .error .cursorInvalidated
  else
    let payload := bytes.take (bytes.length - 32)
    let tag := bytes.drop (bytes.length - 32)
    if !c.verify payload tag then .error .cursorInvalidated
    else if !domain.isPrefixOf payload then .error .cursorInvalidated
    else match c.fromJson (payload.drop domain.length) with
      | none => .error .cursorInvalidated
      | some data =>
          if data.version ≠ 1 || data.context ≠ context then .error .cursorInvalidated
          else .ok data.position

def decodeBounded (token context : String) (maxBytes : Nat) : Except QueryError Position := do
  c.validateToken token maxBytes
  match c.unbase64 token with
  | none => .error .invalid
  | some bytes => c.openPayload bytes context

def decode (token context : String) : Except QueryError Position :=
  c.decodeBounded token context 4096

/-- The documented behaviour of the libraries on one continuation. -/
structure Faithful (context : String) (position : Position) : Prop where
  tag_length : (c.sign (c.message context position)).length = 32
  verifies : c.verify (c.message context position) (c.sign (c.message context position)) = true
  base64 : c.unbase64 (c.base64 (c.message context position ++
    c.sign (c.message context position))) =
      some (c.message context position ++ c.sign (c.message context position))
  nonempty : c.base64 (c.message context position ++ c.sign (c.message context position)) ≠ ""
  json : c.fromJson (c.toJson ⟨1, context, position⟩) = some ⟨1, context, position⟩

theorem decode_encode {context : String} {position : Position} {token : String}
    (faithful : c.Faithful context position) (h : c.encode context position = .ok token) :
    c.decode token context = .ok position := by
  obtain ⟨token', bounded, h⟩ := of_bind h
  rw [guard_eq_ok] at h
  cases h.2
  simp only [encodeBounded, guard_eq_ok] at bounded
  obtain ⟨fits, eq⟩ := bounded
  injection eq with eq
  subst eq
  have length : (c.message context position ++ c.sign (c.message context position)).length - 32 =
      (c.message context position).length := by
    rw [List.length_append, faithful.tag_length, Nat.add_sub_cancel]
  have long : ¬(c.message context position ++ c.sign (c.message context position)).length < 32 := by
    rw [List.length_append, faithful.tag_length]
    omega
  have accepted : c.validateToken (c.base64 (c.message context position ++
      c.sign (c.message context position))) 4096 = .ok () := by
    simp [validateToken, fits, faithful.nonempty, faithful.base64]
  have opened : c.openPayload (c.message context position ++ c.sign (c.message context position))
      context = .ok position := by
    rw [openPayload, if_neg long]
    simp only [length, List.take_left', List.drop_left', faithful.verifies]
    simp [message, faithful.json]
  rw [decode, decodeBounded, accepted, ok_bind, faithful.base64]
  exact opened

end CursorCodec

end RssMdm.Query
