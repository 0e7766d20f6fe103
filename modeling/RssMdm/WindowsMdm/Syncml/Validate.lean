/- module: WindowsMdm/Syncml/Validate
   source: crates/windows-mdm/src/syncml.rs, crates/windows-mdm/src/syncml/admission.rs
   digest: The profile checks shared by encoding, decoding, correlation and fragmentation. -/

import RssMdm.WindowsMdm.Syncml.Message

set_option autoImplicit false

namespace RssMdm.WindowsMdm.Syncml

open Lib.Fallible

/-- Decoders outside the codec: whether a declared-configuration summary parses, and the number of
bytes a standard base64 text stands for. -/
structure Decoders where
  summaries : String → Bool
  base64 : String → Option Nat

def unenrollment : String := "com.microsoft:mdm.unenrollment.userrequest"

def declaredSummary : String := "com.microsoft.mdm.declaredconfigurationdocuments"

def loginStatusType : String := "com.microsoft/MDM/LoginStatus"

def formats : List String :=
  ["chr", "int", "bool", "b64", "xml", "bin", "node", "null", "date", "time", "float"]

def credentialTypes : List String := ["syncml:auth-basic", "syncml:auth-md5"]

/-- ASCII without whitespace or control characters. -/
def plainAscii (s : String) : Bool :=
  s.toList.all (fun c => 0x21 ≤ c.toNat && c.toNat ≤ 0x7e)

def validateFormat (l : CodecLimits) (f : String) : Except CodecError Unit := do
  text f l.identifierBytes false
  if f ∉ formats then .error .unsupported else .ok ()

def validateMediaType (l : CodecLimits) (credential : Bool) (t : String) :
    Except CodecError Unit := do
  text t l.uriBytes false
  if credential then
    if t ∉ credentialTypes then .error .unsupported else .ok ()
  else if !plainAscii t then .error .unsupported
  else .ok ()

def validateMeta (m : Option Meta) (l : CodecLimits) (credential : Bool) :
    Except CodecError Unit :=
  match m with
  | none => .ok ()
  | some m => do
      each (validateFormat l) m.format.toList
      each (validateMediaType l credential) m.mediaType.toList
      if m.size.any (fun size => l.objectBytes < size.toNat) then .error .limitExceeded
      else if m.maxMessageSize = some 0 || m.maxObjectSize = some 0 then .error .invalidValue
      else .ok ()

def devInfoUris : List String :=
  ["./DevInfo/DevId", "./DevInfo/Man", "./DevInfo/Mod", "./DevInfo/DmV", "./DevInfo/Lang"]

def itemUri (l : CodecLimits) (get devinfo : Bool) (i : Item) : Except CodecError String := do
  if i.moreData && (get || devinfo || i.data.isNone) then .error .structural
  else if get && (i.source.isSome || i.data.isSome) then .error .structural
  else if !get && i.target.isSome then .error .structural
  else match if get then i.target else i.source with
    | none => .error .structural
    | some uri => do
        text uri l.uriBytes false
        .ok uri

/-- A payload that must be present. -/
def requiredText (data : Option String) (max : Nat) (empty : Bool) : Except CodecError Unit :=
  match data with
  | none => .error .structural
  | some value => text value max empty

/-- What follows the address check of an item; `uri` is the address it returned. -/
def itemPayload (l : CodecLimits) (get devinfo : Bool) (uri : Option String) (i : Item) :
    Except CodecError Unit := do
  validateMeta i.metaInfo l false
  if !get then requiredText i.data l.objectBytes true else .ok ()
  if devinfo && !uri.any (fun u => devInfoUris.contains u) then .error .unsupported
  else if devinfo then
    requiredText i.data
      (if uri = some "./DevInfo/DevId" then l.identifierBytes else l.fieldBytes) false
  else .ok ()

def validateItems (items : List Item) (l : CodecLimits) (get devinfo : Bool) :
    Except CodecError Unit :=
  if items.isEmpty then .error .structural
  else do
    bound items.length l.items
    eachFresh (itemUri l get devinfo) .duplicate
      (fun i => itemPayload l get devinfo (if get then i.target else i.source) i) [] items
    if devinfo && items.length ≠ 5 then .error .structural else .ok ()

/-- The mutating commands differ in which payload they take. -/
inductive Mutation where
  | add
  | replace
  | delete
  | exec
deriving DecidableEq

def mutationUri (l : CodecLimits) (i : Item) : Except CodecError String :=
  match i.target with
  | none => .error .structural
  | some uri => do
      text uri l.uriBytes false
      if uri.toList.head? = some '/' || i.source.isSome then .error .structural else .ok uri

def mutationPayload (l : CodecLimits) (k : Mutation) (i : Item) : Except CodecError Unit := do
  validateMeta i.metaInfo l false
  if i.moreData && (i.data.isNone || k = .delete) then .error .structural
  else if (k = .delete && i.data.isSome) || (k = .replace && i.data.isNone) then .error .structural
  else each (fun d => text d l.objectBytes true) i.data.toList

def validateMutation (k : Mutation) (items : List Item) (l : CodecLimits) :
    Except CodecError Unit :=
  if items.isEmpty then .error .structural
  else do
    bound items.length l.items
    eachFresh (mutationUri l) .duplicate (mutationPayload l k) [] items

def validateCredential (l : CodecLimits) (c : Credential) : Except CodecError Unit := do
  validateMeta (some c.metaInfo) l true
  text c.data l.fieldBytes false

def validateNonce (d : Decoders) (l : CodecLimits) (nonce : String) : Except CodecError Unit := do
  text nonce l.identifierBytes false
  if !(d.base64 nonce).any (fun n => 16 ≤ n && n ≤ 64) then .error .invalidValue else .ok ()

def validateChallenge (d : Decoders) (l : CodecLimits) (command : CommandName) (c : Challenge) :
    Except CodecError Unit := do
  if command ≠ .syncHdr || c.mediaType ∉ credentialTypes then .error .unsupported
  else do
    each (validateNonce d l) c.nonce.toList
    if (c.mediaType = "syncml:auth-md5") ≠ (c.nonce.isSome = true) then .error .structural
    else .ok ()

def validateRefs (l : CodecLimits) (refs : List String) : Except CodecError Unit := do
  bound refs.length l.items
  eachFresh (fun r => do text r l.uriBytes false; .ok r) .duplicate (fun _ => .ok ()) [] refs

def validateStatusItem (l : CodecLimits) (i : Item) : Except CodecError Unit :=
  if i.moreData then .error .structural
  else do
    each (fun uri => text uri l.uriBytes false) (i.source.toList ++ i.target.toList)
    validateMeta i.metaInfo l false
    each (fun data => text data l.fieldBytes true) i.data.toList
    if i.data.isNone && i.source.isNone && i.target.isNone then .error .structural else .ok ()

/-- Returns the number of items the status counts for. -/
def validateStatus (d : Decoders) (s : Status) (l : CodecLimits) : Except CodecError Nat := do
  each (validateCredential l) s.credential.toList
  each (validateChallenge d l s.command) s.challenge.toList
  if s.messageRef = 0 || !(100 ≤ s.code.toNat && s.code.toNat ≤ 599) ||
      (decide (s.commandRef = 0) != decide (s.command = .syncHdr)) then .error .invalidValue
  else do
    each (validateRefs l) [s.targetRefs, s.sourceRefs]
    bound s.items.length l.items
    each (validateStatusItem l) s.items
    .ok (s.items.length + s.targetRefs.length + s.sourceRefs.length)

def validateEndOfDataItem (l : CodecLimits) (i : Item) : Except CodecError Unit :=
  if i.moreData || i.data.isSome || (i.source.isNone && i.target.isNone) then .error .structural
  else each (fun uri => text uri l.uriBytes false) (i.source.toList ++ i.target.toList)

def validateAlert (d : Decoders) (l : CodecLimits) : Alert → Except CodecError Nat
  | .endOfData items =>
      if items.isEmpty then .error .structural
      else do
        each (validateEndOfDataItem l) items
        .ok items.length
  | .generic items => do
      validateItems items l false false
      if items.any (fun i => (i.metaInfo.bind Meta.mediaType).isNone) then .error .structural
      else .ok items.length
  | .declaredConfiguration summary _ => do
      text summary l.fieldBytes false
      if !d.summaries summary then .error .invalidValue else .ok 1
  | .loginStatus status explicitFormat => do
      text loginStatusType l.uriBytes false
      text status.asStr l.fieldBytes false
      if explicitFormat then text "chr" l.identifierBytes false else .ok ()
      .ok 1
  | _ => .ok 0

def validateResults (r : Results) (l : CodecLimits) : Except CodecError Unit :=
  if r.messageRef = some 0 || r.commandRef = some 0 || r.command.any (fun c => c ≠ .get) then
    .error .invalidValue
  else do
    validateMeta r.metaInfo l false
    validateItems r.items l false false

/-- A large-object fragment among the items of a command. -/
def Command.moreData : Command → Bool
  | .add _ _ items | .replace _ _ items | .exec _ _ items => items.any Item.moreData
  | _ => false

def Command.unfinished : Command → Bool
  | .results r => r.items.any Item.moreData
  | c => c.moreData

def validateGroup (commands : List Command) (l : CodecLimits) : Except CodecError Nat := do
  let flat ← flattened commands l
  if flat.any Command.moreData then .error .structural else .ok 0

def validateMutating (k : Mutation) (m : Option Meta) (items : List Item) (l : CodecLimits) :
    Except CodecError Nat := do
  validateMeta m l false
  validateMutation k items l
  .ok items.length

/-- The check of one flattened command; returns the number of items it counts for. -/
def validateCommand (d : Decoders) (l : CodecLimits) : Command → Except CodecError Nat
  | .atomic _ commands | .sequence _ commands => validateGroup commands l
  | .add _ m items => validateMutating .add m items l
  | .replace _ m items => validateMutating .replace m items l
  | .delete _ m items => validateMutating .delete m items l
  | .exec _ m items => validateMutating .exec m items l
  | .get _ m items => do
      validateMeta m l false
      validateItems items l true false
      .ok items.length
  | .devInfo _ items => do
      validateItems items l false true
      .ok items.length
  | .alert _ alert => validateAlert d l alert
  | .results r => do
      validateResults r l
      .ok r.items.length
  | .status s => validateStatus d s l

def bodyLoop (d : Decoders) (l : CodecLimits) : List UInt32 → Nat → List Command →
    Except CodecError Unit
  | _, _, [] => .ok ()
  | ids, count, c :: rest =>
      if c.id = 0 then .error .invalidValue
      else if ids.contains c.id then .error .duplicate
      else do
        let n ← validateCommand d l c
        bound (count + n) l.items
        bodyLoop d l (c.id :: ids) (count + n) rest

def Alert.initializes : Alert → Bool
  | .clientInitiated | .loginStatus _ _ | .unenrollmentRequested => true
  | _ => false

def Command.initializes : Command → Bool
  | .devInfo _ _ => true
  | .alert _ a => a.initializes
  | _ => false

def notificationOrder : Bool → List Command → Except CodecError Unit
  | _, [] => .ok ()
  | initiated, c :: rest =>
      match c with
      | .alert _ .clientInitiated => notificationOrder true rest
      | .alert _ (.loginStatus _ _) => notificationOrder true rest
      | .alert _ (.generic _) =>
          if !initiated then .error .structural else notificationOrder initiated rest
      | _ => notificationOrder initiated rest

def validateNotificationOrder (commands : List Command) : Except CodecError Unit :=
  notificationOrder false commands

def Command.isStatus : Command → Bool
  | .status _ => true
  | _ => false

/-- Notification that can accompany, but never replace, initialization. -/
def initializationCompanion : Command → Bool
  | .alert _ (.generic _) | .alert _ (.declaredConfiguration _ _) => true
  | _ => false

def unenrolling : List Command → Bool
  | [.alert _ .unenrollmentRequested] => true
  | [.alert _ .unenrollmentRequested, .devInfo _ _] => true
  | _ => false

def initiating : List Command → Bool
  | [.alert _ .clientInitiated, .devInfo _ _] => true
  | [.alert _ (.loginStatus _ _), .devInfo _ _] => true
  | [.alert _ .clientInitiated, .alert _ (.loginStatus _ _), .devInfo _ _] => true
  | [.alert _ (.loginStatus _ _), .alert _ .clientInitiated, .devInfo _ _] => true
  | _ => false

def validateInitialization (commands : List Command) (finalMessage : Bool) :
    Except CodecError Unit := do
  validateNotificationOrder commands
  let init := commands.filter (fun c => !c.isStatus && !initializationCompanion c)
  if !(unenrolling init || initiating init) || (unenrolling init && !finalMessage) then
    .error .structural
  else if (commands.dropWhile Command.isStatus).any Command.isStatus then .error .structural
  else .ok ()

def validateBody (d : Decoders) (commands : List Command) (finalMessage : Bool)
    (l : CodecLimits) : Except CodecError Unit := do
  bound commands.length l.commands
  if commands.isEmpty then .error .structural
  else do
    let flat ← flattened commands l
    bodyLoop d l [] 0 flat
    if flat.any Command.initializes then validateInitialization commands finalMessage else .ok ()

def validateFinal (m : Message) (l : CodecLimits) : Except CodecError Unit :=
  if m.finalMessage then do
    let flat ← flattened m.commands l
    if flat.any Command.unfinished then .error .structural else .ok ()
  else .ok ()

def validate (d : Decoders) (m : Message) (l : CodecLimits) : Except CodecError Unit :=
  if m.header.sessionId = 0 || m.header.sessionId > 65535 || m.header.messageId = 0 then
    .error .invalidValue
  else do
    text m.header.target l.uriBytes false
    text m.header.source l.uriBytes false
    validateMeta m.header.metaInfo l false
    each (validateCredential l) m.header.credential.toList
    validateFinal m l
    validateBody d m.commands m.finalMessage l

end RssMdm.WindowsMdm.Syncml
