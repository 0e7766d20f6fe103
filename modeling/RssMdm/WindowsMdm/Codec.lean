/- module: WindowsMdm/Codec
   source: crates/windows-mdm/src/lib.rs, crates/windows-mdm/src/xml.rs
   digest: Closed codec errors, per-message limits and the bounded text check. -/

import RssMdm.Lib.Fallible
import RssMdm.Lib.Text

set_option autoImplicit false

namespace RssMdm.WindowsMdm

open Lib.Fallible
open Lib.Text (blank)

/-- Closed classifications; `structural` is the source's `Structure`. -/
inductive CodecError where
  | malformedXml
  | wrongNamespace
  | structural
  | invalidValue
  | unsupported
  | limitExceeded
  | unexpectedOperation
  | forbiddenXml
  | duplicate
deriving DecidableEq, Repr

/-- Per-message and retained-session limits; zero means no capacity. -/
structure CodecLimits where
  discoveryBytes : Nat
  xcepBytes : Nat
  wstepBytes : Nat
  syncmlBytes : Nat
  depth : Nat
  elements : Nat
  events : Nat
  attributesPerElement : Nat
  attributes : Nat
  namespaceBindings : Nat
  sessionMessages : Nat
  sessionCommands : Nat
  sessionItems : Nat
  commands : Nat
  items : Nat
  identifierBytes : Nat
  uriBytes : Nat
  fieldBytes : Nat
  objectBytes : Nat
  decodedObjectBytes : Nat
  binaryBytes : Nat
deriving DecidableEq

def CodecLimits.default : CodecLimits where
  discoveryBytes := 64 * 1024
  xcepBytes := 256 * 1024
  wstepBytes := 512 * 1024
  syncmlBytes := 512 * 1024
  depth := 32
  elements := 4096
  events := 16384
  attributesPerElement := 32
  attributes := 2048
  namespaceBindings := 32
  sessionMessages := 128
  sessionCommands := 32768
  sessionItems := 131072
  commands := 256
  items := 1024
  identifierBytes := 128
  uriBytes := 2048
  fieldBytes := 64 * 1024
  objectBytes := 16 * 1024 * 1024
  decodedObjectBytes := 12 * 1024 * 1024
  binaryBytes := 256 * 1024

def bound (n max : Nat) : Except CodecError Unit :=
  if n > max then .error .limitExceeded else .ok ()

@[simp] theorem bound_eq_ok {n max : Nat} : bound n max = .ok () ↔ n ≤ max := by
  unfold bound
  split <;> simp_all

/-- The XML 1.0 character class. -/
def legalChar (c : Char) : Bool :=
  c = '\t' || c = '\n' || c = '\r' || (0x20 ≤ c.toNat && c.toNat ≤ 0xd7ff) ||
    (0xe000 ≤ c.toNat && c.toNat ≤ 0xfffd) || (0x10000 ≤ c.toNat && c.toNat ≤ 0x10ffff)

def text (value : String) (max : Nat) (empty : Bool) : Except CodecError Unit := do
  bound value.utf8ByteSize max
  if (!empty && blank value) || !value.toList.all legalChar then .error .invalidValue else .ok ()

theorem text_eq_ok {value : String} {max : Nat} {empty : Bool} :
    text value max empty = .ok () ↔
      value.utf8ByteSize ≤ max ∧ (empty = false → blank value = false) ∧
        value.toList.all legalChar = true := by
  simp only [text, check_bind_eq_ok, guard_eq_ok, bound_eq_ok, and_true, Bool.or_eq_true,
    Bool.and_eq_true, Bool.not_eq_true', not_or, not_and, Bool.not_eq_true, Bool.not_eq_false]

end RssMdm.WindowsMdm
