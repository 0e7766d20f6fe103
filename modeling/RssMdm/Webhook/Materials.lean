/- module: Webhook/Materials
   source: crates/webhook-service/src/materials.rs, schema/materials.sql
   digest: Signing material of one key reference: candidates, their confirmation, the selected revisions
   and what a delivery loads. -/

import RssMdm.Policy.Definition

set_option autoImplicit false

namespace RssMdm.Webhook

open Lib Lib.Int64
open Lib.Text (asBytes isControl trimmed)
open Policy (Uuid)

inductive Error where
  | invalid | conflict | notFound | denied | storage
deriving DecidableEq

structure Url where
  scheme : String
  host : Option String
  username : String
  password : Option String
  fragment : Option String
  query : Option String

/-- What lies outside: URL, key and JSON formats, the protection of secrets and the HMAC. -/
structure Environment where
  Aad : Type
  tenant : String
  parseUrl : String → Option Url
  /-- `SigningKey::from_encoded` accepts the text. -/
  fromEncoded : String → Bool
  encode : List UInt8 → String
  decode : String → Option (List UInt8)
  /-- The proof in a confirmation response. -/
  confirmationProof : List UInt8 → Option String
  context : String → I64 → Option Aad
  sealBytes : ByteArray → Aad → Option ByteArray
  openBytes : ByteArray → Aad → Option ByteArray
  verify : (key message tag : List UInt8) → Bool

/-- What is sealed opens again under the same context. -/
def Environment.Reopens (env : Environment) : Prop :=
  ∀ plain aad sealed, env.sealBytes plain aad = some sealed → env.openBytes sealed aad = some plain

inductive Source where
  | generate
  | import (secret : String)

structure Prepare where
  expectedRevision : I64
  configurationSha256 : String
  endpoint : String
  networkReference : String
  source : Source

inductive Action where
  | activate (materialRevision : I64)
  | revoke (materialRevision : I64)
  | retirePrevious
deriving DecidableEq

structure Transition where
  expectedRevision : I64
  action : Action

inductive FailureReason where
  | confirmationPending | receiverConfirmationUnavailable
deriving DecidableEq

/-- A row of `key_materials`. -/
structure Material where
  operationId : Uuid
  revision : I64
  configuration : String
  keyDigest : List UInt8
  material : ByteArray
  nonce : List UInt8
  confirmed : Bool
  revoked : Bool
  endpoint : Option String
  networkReference : Option String
  attemptedAt : Option I64
  confirmedAt : Option I64
  failureReason : Option FailureReason

/-- A row of `key_heads`. -/
structure Head where
  revision : I64
  active : Option I64
  retiring : Option I64
deriving DecidableEq

/-- The rows of one key reference. -/
structure Keys where
  head : Option Head
  materials : List Material

def Keys.empty : Keys := ⟨none, []⟩

/-- What the other key references of the tenant hold. -/
structure Others where
  materials : Nat
  heads : Nat
  digests : List (List UInt8)
  operations : List Uuid

def required {α : Type} (e : Error) : Option α → Except Error α
  | some a => .ok a
  | none => .error e

def reference (value : String) : Except Error Unit :=
  if value.isEmpty || value.utf8ByteSize > 128 || !trimmed value || value.toList.any isControl then
    .error .invalid
  else .ok ()

def isSha256Text (value : String) : Bool :=
  value.utf8ByteSize = 64 && (asBytes value).all (fun b => (48 ≤ b && b ≤ 57) || (97 ≤ b && b ≤ 102))

def reservedUrl (url : Url) : Bool :=
  url.scheme ≠ "https" || url.host.isNone || !url.username.isEmpty || url.password.isSome ||
    url.fragment.isSome || url.query.isSome

def stripped (secret : String) : Option String :=
  if "whsec_".toList.isPrefixOf secret.toList then some (String.ofList (secret.toList.drop 6)) else none

namespace Keys

def find (s : Keys) (revision : I64) : Option Material :=
  s.materials.find? (fun m => m.revision = revision)

/-- `UPDATE … WHERE revision`. -/
def update (s : Keys) (revision : I64) (f : Material → Material) : Keys :=
  { s with materials := s.materials.map (fun m => if m.revision = revision then f m else m) }

def headOrNew (s : Keys) : Head := s.head.getD ⟨⟨0, I64.zero_lo, I64.zero_hi⟩, none, none⟩

end Keys

variable (env : Environment) (name : String)

def decode (secret : String) : Except Error (List UInt8) :=
  if !env.fromEncoded secret then .error .invalid
  else do
    let text ← required .invalid (stripped secret)
    required .invalid (env.decode text)

/-- The random bytes of a generated key, or the imported text. -/
def sourceSecret (generated : Option (List UInt8)) : Source → Except Error String
  | .generate => do
      let bytes ← required .storage generated
      .ok ("whsec_" ++ env.encode bytes)
  | .import secret => .ok secret

def refusedRow (s : Keys) (others : Others) (row : Material) : Bool :=
  s.materials.any (fun m => m.revision = row.revision || m.operationId = row.operationId) ||
    others.operations.contains row.operationId || row.revision.val ≤ 0 ||
    row.material.size = 0 || row.material.size > 4096 || row.nonce.length ≠ 32

def prepare (s : Keys) (id : Uuid) (input : Prepare) (others : Others)
    (generated nonce : Option (List UInt8)) : Except Error (Material × Keys) := do
  reference name
  reference input.networkReference
  let url ← required .invalid (env.parseUrl input.endpoint)
  if reservedUrl url || input.endpoint.utf8ByteSize > 2048 then .error .invalid
  else if id.isNil || input.expectedRevision.val < 0 || !isSha256Text input.configurationSha256 then
    .error .invalid
  else if s.materials.length + others.materials ≥ 4096 || others.heads ≥ 128 then .error .conflict
  else if s.headOrNew.revision ≠ input.expectedRevision then .error .conflict
  else do
    let revision ← required .conflict (s.headOrNew.revision.checkedAdd ⟨1, I64.one_lo, I64.one_hi⟩)
    let secret ← sourceSecret env generated input.source
    let key ← decode env secret
    let digest := Sha256.digest key
    if s.materials.any (fun m => m.keyDigest = digest) || others.digests.contains digest then
      .error .conflict
    else do
      let aad ← required .invalid (env.context name revision)
      let sealed ← required .storage (env.sealBytes secret.toUTF8 aad)
      let nonce ← required .storage nonce
      let row : Material :=
        { operationId := id, revision, configuration := input.configurationSha256, keyDigest := digest,
          material := sealed, nonce, confirmed := false, revoked := false,
          endpoint := some input.endpoint, networkReference := some input.networkReference,
          attemptedAt := none, confirmedAt := none, failureReason := none }
      if refusedRow s others row then .error .storage
      else
        .ok (row, { head := some { s.headOrNew with revision }, materials := s.materials ++ [row] })

def confirmationMessage (m : Material) : List UInt8 :=
  asBytes s!"rss-mdm.webhook-key/v1\n{env.tenant}\n{name}\n{m.revision.val}\n{m.configuration}\n{env.encode m.nonce}"

def secret (s : Keys) (revision : I64) : Except Error (Material × String) := do
  let row ← required .notFound (s.find revision)
  let aad ← required .invalid (env.context name revision)
  let bytes ← required .storage (env.openBytes row.material aad)
  let text ← required .storage (String.fromUTF8? bytes)
  let _ ← decode env text
  .ok (row, text)

/-- The slots after the action; a revoked material loses the retiring slot. -/
def act (s : Keys) (head : Head) (configuration : String) (pending : Bool) :
    Action → Except Error (Head × Keys)
  | .activate revision => do
      let (value, _) ← secret env name s revision
      if !value.confirmed || value.confirmedAt.isNone || value.revoked ||
          value.configuration ≠ configuration || head.retiring.isSome || head.active = some revision then
        .error .conflict
      else .ok ({ head with retiring := head.active, active := some revision }, s)
  | .revoke revision =>
      if (s.find revision).isNone then .error .notFound
      else
        let s := s.update revision (fun m => { m with revoked := true })
        .ok ({ head with retiring := if head.retiring = some revision then none else head.retiring }, s)
  | .retirePrevious =>
      if head.retiring.isNone then .error .conflict
      else if pending then .error .conflict
      else .ok ({ head with retiring := none }, s)

/-- `pending`: a delivery that uses the key is not settled yet. -/
def transition (s : Keys) (id : Uuid) (input : Transition) (configuration : String) (pending : Bool) :
    Except Error (Head × Keys) := do
  reference name
  let head ← required .notFound s.head
  if id.isNil || head.revision ≠ input.expectedRevision then .error .conflict
  else do
    let (head, s) ← act env name s head configuration pending input.action
    let revision ← required .conflict (head.revision.checkedAdd ⟨1, I64.one_lo, I64.one_hi⟩)
    let head := { head with revision }
    .ok (head, { s with head := some head })

structure Loaded where
  current : String
  retiring : Option String
  revision : I64

def retiringSecret (s : Keys) (configuration : String) : Option I64 → Except Error (Option String)
  | none => .ok none
  | some revision => do
      let (old, text) ← secret env name s revision
      if old.revoked || old.configuration ≠ configuration then .error .denied else .ok (some text)

def load (s : Keys) (configuration : String) : Except Error Loaded := do
  let head ← required .notFound s.head
  let active ← required .notFound head.active
  let (current, text) ← secret env name s active
  if current.revoked || !current.confirmed || current.configuration ≠ configuration then .error .denied
  else do
    let retiring ← retiringSecret env name s configuration head.retiring
    .ok ⟨text, retiring, head.revision⟩

def confirm (s : Keys) (operator : Bool) (revision : I64) (proof : String) (now : I64) :
    Except Error Keys := do
  if !operator then .error .denied
  else do
    let (value, text) ← secret env name s revision
    if value.revoked then .error .conflict
    else do
      let supplied ← required .invalid (env.decode proof)
      let key ← decode env text
      if !env.verify key (confirmationMessage env name value) supplied then .error .denied
      else
        .ok (s.update revision (fun m => if m.revoked then m else
          { m with confirmed := true, confirmedAt := some now, failureReason := none }))

/-- Whether an attempt is made; `admitted` is the answer of the network policies. -/
def beginConfirmation (s : Keys) (operator : Bool) (revision : I64) (configuration : String)
    (admitted : Except Error Unit) (now : I64) : Except Error (Option Material × Keys) := do
  if !operator then .error .denied
  else do
    let (value, _) ← secret env name s revision
    if value.confirmed || value.revoked || value.configuration ≠ configuration ||
        value.attemptedAt.any (fun at' => (now.saturatingSub at').val < 60) ||
        value.networkReference.isNone || value.endpoint.isNone then .ok (none, s)
    else
      match admitted with
      | .error .denied => .ok (none, s)
      | .error e => .error e
      | .ok () =>
          .ok (some value, s.update revision (fun m => if m.confirmed || m.revoked then m else
            { m with attemptedAt := some now, failureReason := some .confirmationPending }))

def unconfirmed (s : Keys) (revision : I64) : Keys :=
  s.update revision (fun m => if m.confirmed then m else
    { m with failureReason := some .receiverConfirmationUnavailable })

def finishConfirmation (s : Keys) (operator : Bool) (revision : I64) (response : Option (List UInt8))
    (now : I64) : Except Error (Bool × Keys) :=
  if !operator then .error .denied
  else
    match (response.filter (fun bytes => bytes.length ≤ 4096)).bind env.confirmationProof with
    | none => .ok (false, unconfirmed s revision)
    | some proof =>
        match confirm env name s operator revision proof now with
        | .ok s' => .ok (true, s')
        | .error .denied | .error .invalid => .ok (false, unconfirmed s revision)
        | .error e => .error e

inductive Call where
  | prepare (id : Uuid) (input : Prepare) (others : Others) (generated nonce : Option (List UInt8))
  | transition (id : Uuid) (input : Transition) (configuration : String) (pending : Bool)
  | confirm (operator : Bool) (revision : I64) (proof : String) (now : I64)
  | beginConfirmation (operator : Bool) (revision : I64) (configuration : String)
      (admitted : Except Error Unit) (now : I64)
  | finishConfirmation (operator : Bool) (revision : I64) (response : Option (List UInt8)) (now : I64)

namespace Keys

def perform (s : Keys) : Call → Except Error Keys
  | .prepare id input others generated nonce =>
      (Webhook.prepare env name s id input others generated nonce).map Prod.snd
  | .transition id input configuration pending =>
      (Webhook.transition env name s id input configuration pending).map Prod.snd
  | .confirm operator revision proof now => Webhook.confirm env name s operator revision proof now
  | .beginConfirmation operator revision configuration admitted now =>
      (Webhook.beginConfirmation env name s operator revision configuration admitted now).map Prod.snd
  | .finishConfirmation operator revision response now =>
      (Webhook.finishConfirmation env name s operator revision response now).map Prod.snd

/-- A failed transaction leaves the rows as they were. -/
def apply (s : Keys) (call : Call) : Keys :=
  match s.perform env name call with
  | .ok s' => s'
  | .error _ => s

def after (s : Keys) (calls : List Call) : Keys := calls.foldl (fun s call => s.apply env name call) s

end Keys

end RssMdm.Webhook
