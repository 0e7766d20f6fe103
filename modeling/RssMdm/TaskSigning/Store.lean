/- module: TaskSigning/Store
   source: crates/execution-service/src/task_signing/trust.rs,
     crates/execution-service/src/task_signing/trust.sql
   digest: Published trust revisions, their three changes, acknowledgements and issue checks. -/

import Mathlib.Data.List.Sort
import RssMdm.AgentWire.TaskTrust

set_option autoImplicit false

namespace RssMdm.TaskSigning

open AgentWire Lib.Fallible
open Lib.Text (Uuid)

inductive Error where
  | malformed | conflict | notFound | forbidden | unavailable
deriving DecidableEq

/-- One generation of a registration on the Agent channel. -/
structure Agent where
  registration : Uuid
  generation : Nat
deriving DecidableEq

/-- The bytes that a change is fingerprinted by. -/
inductive Request where
  | prepare (expected : Int) (actor : String)
  | activate (expected : Int) (keyId actor : String)
  | retire (expected : Int) (keyId actor : String)
deriving DecidableEq

structure Version (Tag : Type) where
  revision : Nat
  operation : Uuid
  fingerprint : Tag
  body : Trust
  digest : String

structure Acknowledged where
  operation : Uuid
  agent : Agent
  revision : Nat
  digest : String
deriving DecidableEq

/-- The tables that only the changes write: the head, the versions and the identities of the
private keys. -/
structure Store (Tag : Type) where
  head : Nat
  versions : List (Version Tag)
  keyIds : List String

/-- The tables that a change reads: the active Agent registrations, the acknowledgements, and
whether an unexpired run has a signature by a key. -/
structure Tables where
  active : List Agent
  acknowledgements : List Acknowledged
  pending : String → Bool

/-- The installation, the digest of a set and the fingerprint of a request under its operation. -/
structure Environment (Tag : Type) where
  tenant : Uuid
  service : Uuid
  installationDigest : Trust → String
  mac : Uuid → Request → Tag

/-- A change with the key pair that it generates, if any. -/
inductive Call where
  | prepare (operation : Uuid) (expected : Int) (actor : String) (id publicKey : String)
  | activate (operation : Uuid) (expected : Int) (keyId actor : String)
  | retire (operation : Uuid) (expected : Int) (keyId actor : String)

namespace Call

def operation : Call → Uuid
  | .prepare operation _ _ _ _ | .activate operation _ _ _ | .retire operation _ _ _ => operation

def expected : Call → Int
  | .prepare _ expected _ _ _ | .activate _ expected _ _ | .retire _ expected _ _ => expected

def request : Call → Request
  | .prepare _ expected actor _ _ => .prepare expected actor
  | .activate _ expected keyId actor => .activate expected keyId actor
  | .retire _ expected keyId actor => .retire expected keyId actor

end Call

variable {Tag : Type}

def Store.body (s : Store Tag) (revision : Nat) : Option Trust :=
  (s.versions.find? (fun v => v.revision = revision)).map Version.body

section

variable (env : Environment Tag) (s : Store Tag) (tables : Tables)

def storedTrust (v : Version Tag) : Except Error Trust :=
  match v.body.validate with
  | .error _ => .error .unavailable
  | .ok _ =>
      if v.body.serviceId ≠ env.service || v.body.tenant ≠ env.tenant ||
          v.body.revision ≠ v.revision || env.installationDigest v.body ≠ v.digest then
        .error .unavailable
      else .ok v.body

def current : Except Error Trust :=
  match s.versions.find? (fun v => v.revision = s.head) with
  | none => .error .notFound
  | some v => storedTrust env v

variable [DecidableEq Tag]

def replay (operation : Uuid) (request : Request) : Except Error (Option Trust) :=
  match s.versions.find? (fun v => v.operation = operation) with
  | none => .ok none
  | some v =>
      if env.mac operation request ≠ v.fingerprint then .error .conflict
      else
        match v.body.validate with
        | .error _ => .error .conflict
        | .ok _ =>
            if v.body.serviceId ≠ env.service || v.body.tenant ≠ env.tenant then .error .conflict
            else .ok (some v.body)

/-- The digest validates the set; the table refuses a revision or an operation it already has. -/
def save (operation : Uuid) (request : Request) (trust : Trust) : Except Error (Store Tag) :=
  match trust.validate with
  | .error _ => .error .malformed
  | .ok _ =>
      if s.versions.any (fun v => v.revision = trust.revision || v.operation = operation) then
        .error .unavailable
      else .ok { s with
        head := trust.revision
        versions := s.versions ++ [⟨trust.revision, operation, env.mac operation request, trust,
          env.installationDigest trust⟩] }

/-- What the three changes have in common: a repeated operation is answered from its version, and
anything else must name the head. -/
def changing (lowest : Int) (operation : Uuid) (expected : Int) (request : Request)
    (fresh : Except Error (Trust × Store Tag)) : Except Error (Trust × Store Tag) :=
  if expected < lowest || expected = maxRevision || operation = 0 then .error .malformed
  else do
    match ← replay env s operation request with
    | some previous => .ok (previous, s)
    | none => if (s.head : Int) ≠ expected then .error .conflict else fresh

def preparing : Except Error Trust :=
  if s.head = 0 then
    if tables.active.length ≠ 0 then .error .conflict
    else .ok ⟨1, env.service, env.tenant, 1, []⟩
  else do
    let previous ← current env s
    if previous.keys.length ≥ maxKeys then .error .conflict
    else .ok { previous with revision := previous.revision + 1 }

def prepare (operation : Uuid) (expected : Int) (actor : String) (id publicKey : String) :
    Except Error (Trust × Store Tag) :=
  changing env s 0 operation expected (.prepare expected actor) <| do
    let trust ← preparing env s tables
    let key : PublicKey := ⟨id, publicKey, if s.head = 0 then .active else .prepared⟩
    let trust := { trust with
      keys := (trust.keys ++ [key]).insertionSort (fun a b => a.id ≤ b.id) }
    match trust.validate with
    | .error _ => .error .malformed
    | .ok _ =>
        if s.keyIds.contains id then .error .unavailable
        else do
          let s ← save env { s with keyIds := id :: s.keyIds } operation (.prepare expected actor)
            trust
          .ok (trust, s)

def acknowledgedIn (agent : Agent) (keyId : String) (states : List KeyState) : Bool :=
  tables.acknowledgements.any (fun a => a.agent = agent && s.versions.any (fun v =>
    v.revision = a.revision && v.digest = a.digest &&
      v.body.keys.any (fun k => k.id = keyId && states.contains k.state)))

def missing (keyId : String) (state : KeyState) : Bool :=
  tables.active.any (fun agent => !acknowledgedIn s tables agent keyId [state])

def activated (keyId : String) (key : PublicKey) : PublicKey :=
  if key.id = keyId then { key with state := .active }
  else if key.state = .active then { key with state := .verifyOnly }
  else key

def activate (operation : Uuid) (expected : Int) (keyId actor : String) :
    Except Error (Trust × Store Tag) :=
  changing env s 1 operation expected (.activate expected keyId actor) <| do
    let trust ← current env s
    if !trust.keys.any (fun k => k.id = keyId && k.state = .prepared) then .error .conflict
    else if missing s tables keyId .prepared then .error .conflict
    else do
      let trust := { trust with
        keys := trust.keys.map (activated keyId)
        revision := trust.revision + 1 }
      let s ← save env s operation (.activate expected keyId actor) trust
      .ok (trust, s)

def retire (operation : Uuid) (expected : Int) (keyId actor : String) :
    Except Error (Trust × Store Tag) :=
  changing env s 1 operation expected (.retire expected keyId actor) <| do
    let trust ← current env s
    match trust.lookup keyId with
    | none => .error .conflict
    | some key =>
        if key.state = .active then .error .conflict
        else if key.state = .verifyOnly && (tables.pending keyId || missing s tables keyId .verifyOnly)
        then .error .conflict
        else do
          let trust := { trust with
            keys := trust.keys.filter (fun key => key.id ≠ keyId)
            revision := trust.revision + 1 }
          let s ← save env s operation (.retire expected keyId actor) trust
          .ok (trust, s)

def apply : Call → Except Error (Trust × Store Tag)
  | .prepare operation expected actor id publicKey =>
      prepare env s tables operation expected actor id publicKey
  | .activate operation expected keyId actor => activate env s tables operation expected keyId actor
  | .retire operation expected keyId actor => retire env s tables operation expected keyId actor

end

variable (env : Environment Tag) (s : Store Tag) (tables : Tables)

def acknowledge (agent : Agent) (input : Acknowledgement) : Except Error Tables :=
  match input.validate with
  | .error _ => .error .malformed
  | .ok _ =>
      if input.registration ≠ agent.registration || input.generation ≠ agent.generation then
        .error .forbidden
      else if !tables.active.contains agent then .error .forbidden
      else if (s.versions.find? (fun v => v.revision = input.revision)).map Version.digest ≠
          some input.digest then
        .error .conflict
      else
        let row : Acknowledged := ⟨input.operation, agent, input.revision, input.digest⟩
        match tables.acknowledgements.find? (fun a => a.operation = input.operation) with
        | some old => if old = row then .ok tables else .error .conflict
        | none => .ok { tables with acknowledgements := tables.acknowledgements ++ [row] }

def requireIssue (agent : Agent) (keyId : String) : Except Error Unit := do
  let trust ← current env s
  if !trust.keys.any (fun k => k.id = keyId && k.state = .active) then .error .conflict
  else if !acknowledgedIn s tables agent keyId [.prepared, .active] then .error .forbidden
  else .ok ()

end RssMdm.TaskSigning
