/- module: AppleMdm/StatusReport
   source: crates/apple-mdm/src/native/ddm/status.rs, crates/apple-mdm/src/native/ddm.rs
   digest: Status reports of declarative management: the nested namespaces flattened to status items, and
   the declarations among them. -/

import Mathlib.Data.String.Basic
import RssMdm.Lib.Json
import RssMdm.Lib.OrdMap

set_option autoImplicit false

namespace RssMdm.AppleMdm

open Lib Lib.Json

inductive Fault where
  | unknownSchema | unsupported | applicability | accessRight | invalidSchema | field | constraint | limit
  | encoding
deriving DecidableEq

inductive DeclarationKind where
  | activation | configuration | asset | management
deriving DecidableEq

inductive Validity where
  | unknown | invalid | valid
deriving DecidableEq

def memberOf (value : Json) (key : String) : Option Json :=
  match value with
  | .object members => (members.find? (fun m => m.1 = key)).map Prod.snd
  | _ => none

def asString : Option Json → Option String
  | some (.string s) => some s
  | _ => none

def asArray : Option Json → Option (List Json)
  | some (.array items) => some items
  | _ => none

def asBool : Option Json → Option Bool
  | some (.bool b) => some b
  | _ => none

def isNull : Json → Bool
  | .null => true
  | _ => false

/-- `serde_json::to_string`. -/
def textOf (value : Json) : String := String.ofList (write value)

def require {α : Type} : Option α → Except Fault α
  | some a => .ok a
  | none => .error .field

/-- The generated definitions and the JSON reader. -/
structure Environment (Context : Type) where
  decodeJson : List UInt8 → Except Fault Json
  ofText : String → Except Fault Json
  /-- The envelope of a report, without its status items. -/
  envelope : Json → Context → Except Fault Unit
  /-- The identities of the status definitions. -/
  status : List String
  applies : String → Context → Except Fault Unit
  incremental : String → Bool
  /-- The known fields of one object of an incremental array. -/
  object : String → Json → Bool → Context → Except Fault Unit
  leaf : String → Json → Context → Except Fault Unit
  /-- Whether the version of a context is known. -/
  versioned : Context → Bool

structure DeclarationStatus where
  kind : DeclarationKind
  identifier : String
  serverToken : String
  active : Bool
  validity : Validity
  reasons : List Json

structure StatusReport where
  full : Bool
  items : OrdMap String Json
  errors : List Json

def isControl (c : Char) : Bool := c.toNat < 0x20 || (0x7f ≤ c.toNat && c.toNat < 0xa0)

def internalIdentity (value : String) : Except Fault Unit :=
  if value.isEmpty || value.utf8ByteSize > 1024 || value.toList.any isControl then .error .constraint else .ok ()

def identifier (value : String) : Except Fault Unit :=
  if value.utf8ByteSize > 64 then .error .constraint else internalIdentity value

def declarationOf (kind : DeclarationKind) (seen : List String) (value : Json) : Except Fault DeclarationStatus := do
  let id ← require (asString (memberOf value "identifier"))
  identifier id
  let token ← require (asString (memberOf value "server-token"))
  identifier token
  if seen.contains id then .error .constraint
  else do
    let active ← require (asBool (memberOf value "active"))
    let valid ← require (asString (memberOf value "valid"))
    let validity ← (match valid with
      | "unknown" => .ok .unknown
      | "invalid" => .ok .invalid
      | "valid" => .ok .valid
      | _ => .error .constraint : Except Fault Validity)
    .ok ⟨kind, id, token, active, validity, (asArray (memberOf value "reasons")).getD []⟩

def declarationsOf (kind : DeclarationKind) :
    List DeclarationStatus → List Json → Except Fault (List DeclarationStatus)
  | reports, [] => .ok reports
  | reports, value :: rest => do
      let status ← declarationOf kind (reports.map DeclarationStatus.identifier) value
      declarationsOf kind (reports ++ [status]) rest

def families : List (String × DeclarationKind) :=
  [("activations", .activation), ("configurations", .configuration), ("assets", .asset), ("management", .management)]

def StatusReport.declarations (r : StatusReport) : Except Fault (List DeclarationStatus) :=
  match r.items.get? "management.declarations" with
  | none => .ok []
  | some .null => .ok []
  | some (.object members) =>
      families.foldlM (fun reports family => do
        let values ← require (asArray (memberOf (.object members) family.1))
        declarationsOf family.2 reports values) []
  | some _ => .error .field

variable {Context : Type} (env : Environment Context) (context : Context)

def validateObject (path : String) (seen : List String) (value : Json) : Except Fault (List String) :=
  match value with
  | .object _ => do
      let id ← require (asString (memberOf value "identifier"))
      if id.isEmpty || id.utf8ByteSize > 1024 || seen.contains id then .error .constraint
      else do
        let removed ← (match memberOf value "_removed" with
          | none => .ok false
          | some r => require (asBool (some r)) : Except Fault Bool)
        env.object path value removed context
        .ok (id :: seen)
  | _ => .error .field

def validateLeaf (path : String) (value : Json) : Except Fault Unit :=
  if env.incremental path then
    match value with
    | .array objects => do
        let _ ← objects.foldlM (validateObject env context path) []
        env.leaf path (.array []) context
    | _ => .error .field
  else env.leaf path value context

/-- The namespaces below a path, at most seventeen levels of them. -/
def flatten : Nat → String → List (String × Json) → OrdMap String Json → Except Fault (OrdMap String Json)
  | 0, _, _, _ => .error .limit
  | levels + 1, path, members, out =>
      members.foldlM (fun out m =>
        if m.1.isEmpty || m.1.toList.contains '.' then .error .field
        else
          let name := if path.isEmpty then m.1 else path ++ "." ++ m.1
          if env.status.contains name then do
            env.applies name context
            (if isNull m.2 then .ok () else validateLeaf env context name m.2 : Except Fault Unit)
            .ok (out.insert name m.2)
          else if env.status.any (fun d => d.startsWith (name ++ ".")) then
            match m.2 with
            | .object inner => flatten levels name inner out
            | _ => .error .field
          else .error .unknownSchema) out

def StatusReport.decode (bytes : List UInt8) : Except Fault StatusReport := do
  let raw ← env.decodeJson bytes
  match raw with
  | .object members =>
      match memberOf (.object members) "StatusItems" with
      | some (.object space) => do
          env.envelope raw context
          let errors ← require (asArray (memberOf raw "Errors"))
          let items ← flatten env context 17 "" space .empty
          let report : StatusReport := ⟨(asBool (memberOf raw "FullReport")).getD false, items, errors⟩
          let _ ← report.declarations
          .ok report
      | _ => .error .field
  | _ => .error .field

end RssMdm.AppleMdm
