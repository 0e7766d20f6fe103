/- module: WindowsMdm/Syncml/Decode
   source: crates/windows-mdm/src/syncml.rs
   digest: Reading one bounded SyncML document. -/

import RssMdm.WindowsMdm.Syncml.Encode
import RssMdm.WindowsMdm.Xml.Input

set_option autoImplicit false

namespace RssMdm.WindowsMdm.Syncml

open Lib.Fallible Lib.Outcome
open WindowsMdm.Xml (Escape Event Input Parser exhausted fail lift)

def number (s : String) (zero : Bool) : Except CodecError UInt32 :=
  if s.isEmpty || !s.toList.all Char.isDigit then .error .invalidValue
  else
    let n := Nat.ofDigitChars 10 s.toList 0
    if n ≥ 2 ^ 32 || (n = 0 && !zero) then .error .invalidValue else .ok (UInt32.ofNat n)

variable (l : CodecLimits) (fuel : Nat)

def num (name : String) (zero : Bool) : Parser UInt32 := do
  let s ← Input.scalar l fuel NS name l.identifierBytes false
  lift (number s zero)

def location (name : String) : Parser String := do
  Input.enter l fuel NS name
  let s ← Input.scalar l fuel NS "LocURI" l.uriBytes false
  Input.close l fuel NS name
  pure s

def optionalLocation (name : String) : Parser (Option String) := do
  let present ← Input.is l fuel NS name
  if present then do
    let s ← location l fuel name
    pure (some s)
  else pure none

/-- An element of the metainformation that may stand once. -/
def metaField {α : Type} (name : String) (max : Nat) (read : String → Except CodecError α)
    (present : Bool) (next : α → Parser Meta) : Parser Meta := do
  let s ← Input.scalar l fuel META name max false
  let v ← lift (read s)
  if present then fail .duplicate else next v

def metaLoop : Nat → Meta → Parser Meta
  | 0, _ => exhausted
  | n + 1, m => do
      let format ← Input.is l fuel META "Format"
      if format then
        metaField l fuel "Format" l.identifierBytes .ok m.format.isSome
          (fun v => metaLoop n { m with format := some v })
      else do
        let kind ← Input.is l fuel META "Type"
        if kind then
          metaField l fuel "Type" l.uriBytes .ok m.mediaType.isSome
            (fun v => metaLoop n { m with mediaType := some v })
        else do
          let maxMessage ← Input.is l fuel META "MaxMsgSize"
          if maxMessage then
            metaField l fuel "MaxMsgSize" l.identifierBytes (number · false)
              m.maxMessageSize.isSome (fun v => metaLoop n { m with maxMessageSize := some v })
          else do
            let size ← Input.is l fuel META "Size"
            if size then
              metaField l fuel "Size" l.identifierBytes (number · true) m.size.isSome
                (fun v => metaLoop n { m with size := some v })
            else do
              let maxObject ← Input.is l fuel META "MaxObjSize"
              if maxObject then
                metaField l fuel "MaxObjSize" l.identifierBytes (number · false)
                  m.maxObjectSize.isSome (fun v => metaLoop n { m with maxObjectSize := some v })
              else pure m

def readMeta : Parser (Option Meta) := do
  let present ← Input.is l fuel NS "Meta"
  if present then do
    Input.enter l fuel NS "Meta"
    let m ← metaLoop l fuel fuel Meta.empty
    Input.close l fuel NS "Meta"
    pure (some m)
  else pure none

def readData : Parser (Option String) := do
  let present ← Input.is l fuel NS "Data"
  if present then do
    let s ← Input.scalar l fuel NS "Data" l.objectBytes true
    pure (some s)
  else pure none

def marker (name : String) : Parser Bool := do
  let present ← Input.is l fuel NS name
  if present then do
    Input.enter l fuel NS name
    Input.close l fuel NS name
    pure true
  else pure false

def readItem : Parser Item := do
  Input.item l
  Input.enter l fuel NS "Item"
  let target ← optionalLocation l fuel "Target"
  let source ← optionalLocation l fuel "Source"
  let metaInfo ← readMeta l fuel
  let data ← readData l fuel
  let moreData ← marker l fuel "MoreData"
  Input.close l fuel NS "Item"
  pure ⟨moreData, source, target, metaInfo, data⟩

def itemsLoop : Nat → Parser (List Item)
  | 0 => exhausted
  | n + 1 => do
      let present ← Input.is l fuel NS "Item"
      if present then do
        let i ← readItem l fuel
        let rest ← itemsLoop n
        pure (i :: rest)
      else pure []

def readItems : Parser (List Item) := do
  let out ← itemsLoop l fuel fuel
  if out.isEmpty then fail .structural else pure out

def typedAlert (d : Decoders) (m : Meta) (value : String) : Except CodecError Alert :=
  if m.mediaType = some loginStatusType then
    if value = "user" then .ok (.loginStatus .user m.format.isSome)
    else if value = "others" then .ok (.loginStatus .others m.format.isSome)
    else if value = "none" then .ok (.loginStatus .none m.format.isSome)
    else .error .unsupported
  else if m.mediaType = some declaredSummary then
    if !d.summaries value then .error .invalidValue
    else .ok (.declaredConfiguration value m.format.isSome)
  else .error .unsupported

/-- The metainformation of an alert that has a typed value. -/
def typedMeta (m : Option Meta) : Except CodecError Meta :=
  match m with
  | none => .error .structural
  | some m =>
      if m.format.any (fun f => f ≠ "chr") || m.size.isSome || m.maxMessageSize.isSome ||
          m.maxObjectSize.isSome then .error .unsupported
      else .ok m

def readLoginStatus (d : Decoders) : Parser Alert := do
  Input.item l
  Input.enter l fuel NS "Item"
  let read ← readMeta l fuel
  let m ← lift (typedMeta read)
  let value ← Input.scalar l fuel NS "Data" l.fieldBytes false
  Input.close l fuel NS "Item"
  lift (typedAlert d m value)

def refsLoop (name : String) : Nat → Nat → Parser (List String)
  | 0, _ => exhausted
  | n + 1, count => do
      let present ← Input.is l fuel NS name
      if present then do
        lift (bound (count + 1) l.items)
        let r ← Input.scalar l fuel NS name l.uriBytes false
        let rest ← refsLoop name n (count + 1)
        pure (r :: rest)
      else pure []

def refs (name : String) : Parser (List String) := refsLoop l fuel name fuel 0

def readCredential : Parser (Option Credential) := do
  let present ← Input.is l fuel NS "Cred"
  if present then do
    Input.enter l fuel NS "Cred"
    let read ← readMeta l fuel
    let m ← lift (match read with | some m => .ok m | none => .error .structural)
    let data ← Input.scalar l fuel NS "Data" l.fieldBytes false
    Input.close l fuel NS "Cred"
    pure (some ⟨m, data⟩)
  else pure none

def challengeFormat (format : Option String) : Except CodecError Unit :=
  if format.any (fun f => f ≠ "b64") then .error .unsupported else .ok ()

def readChallenge : Parser (Option Challenge) := do
  let present ← Input.is l fuel NS "Chal"
  if present then do
    Input.enter l fuel NS "Chal"
    Input.enter l fuel NS "Meta"
    let format ← Input.optional l fuel META "Format" l.identifierBytes
    lift (challengeFormat format)
    let mediaType ← Input.scalar l fuel META "Type" l.uriBytes false
    let nonce ← Input.optional l fuel META "NextNonce" l.identifierBytes
    Input.close l fuel NS "Meta"
    Input.close l fuel NS "Chal"
    pure (some ⟨mediaType, nonce⟩)
  else pure none

def statusCode (n : UInt32) : Except CodecError UInt16 :=
  if n.toNat ≥ 2 ^ 16 then .error .invalidValue else .ok n.toUInt16

def readStatusItems : Parser (List Item) := do
  let present ← Input.is l fuel NS "Item"
  if present then readItems l fuel else pure []

/-- References after the code replace the empty ones before it. -/
def trailingRefs (oma : Bool) (name : String) (leading : List String) : Parser (List String) :=
  if oma then pure leading else refs l fuel name

def readStatus : Parser Command := do
  Input.command l
  Input.enter l fuel NS "Status"
  let id ← num l fuel "CmdID" false
  let messageRef ← num l fuel "MsgRef" false
  let commandRef ← num l fuel "CmdRef" true
  let name ← Input.scalar l fuel NS "Cmd" l.identifierBytes false
  let command ← lift (CommandName.parse name)
  let coded ← Input.is l fuel NS "Data"
  let targetRefs ← refs l fuel "TargetRef"
  let sourceRefs ← refs l fuel "SourceRef"
  let credential ← readCredential l fuel
  let challenge ← readChallenge l fuel
  let data ← num l fuel "Data" false
  let code ← lift (statusCode data)
  let items ← readStatusItems l fuel
  let targetRefs ← trailingRefs l fuel (!coded) "TargetRef" targetRefs
  let sourceRefs ← trailingRefs l fuel (!coded) "SourceRef" sourceRefs
  Input.close l fuel NS "Status"
  pure (.status ⟨id, messageRef, commandRef, command, targetRefs, sourceRefs, code, items, challenge,
    credential⟩)

/-- A reference number that may be absent. -/
def optionalNum (name : String) : Parser (Option UInt32) := do
  let read ← Input.optional l fuel NS name l.identifierBytes
  match read with
  | none => pure none
  | some s => do
      let n ← lift (number s false)
      pure (some n)

def optionalCommand : Parser (Option CommandName) := do
  let read ← Input.optional l fuel NS "Cmd" l.identifierBytes
  match read with
  | none => pure none
  | some s => do
      let c ← lift (CommandName.parse s)
      pure (some c)

def readResults : Parser Command := do
  Input.command l
  Input.enter l fuel NS "Results"
  let id ← num l fuel "CmdID" false
  let messageRef ← optionalNum l fuel "MsgRef"
  let commandRef ← optionalNum l fuel "CmdRef"
  let command ← optionalCommand l fuel
  let metaInfo ← readMeta l fuel
  let items ← readItems l fuel
  Input.close l fuel NS "Results"
  pure (.results ⟨id, messageRef, commandRef, command, metaInfo, items⟩)

/-- Items of a management event, unless they ask for unenrollment. -/
def genericAlert (values : List Item) : Except CodecError Alert :=
  if values.any (fun i => i.metaInfo.bind Meta.mediaType = some unenrollment) then
    if values ≠ [unenrollmentItem] then .error .invalidValue else .ok .unenrollmentRequested
  else .ok (.generic values)

def readAlertBody (d : Decoders) (code : UInt32) : Parser Alert :=
  if code = 1201 then pure .clientInitiated
  else if code = 1222 then pure .moreMessages
  else if code = 1223 then pure .sessionAbort
  else if code = 1225 then do
    let items ← readItems l fuel
    pure (.endOfData items)
  else if code = 1224 then readLoginStatus l fuel d
  else if code = 1226 then do
    let correlated ← Input.is l fuel NS "Correlator"
    if correlated then fail .unsupported
    else do
      let values ← readItems l fuel
      lift (genericAlert values)
  else fail .unsupported

def readAlert (d : Decoders) : Parser Command := do
  Input.command l
  Input.enter l fuel NS "Alert"
  let id ← num l fuel "CmdID" false
  let code ← num l fuel "Data" false
  let alert ← readAlertBody l fuel d code
  Input.close l fuel NS "Alert"
  pure (.alert id alert)

/-- A command of items under optional metainformation. -/
def readOperation (name : String)
    (build : UInt32 → Option Meta → List Item → Except CodecError Command) : Parser Command := do
  Input.command l
  Input.enter l fuel NS name
  let id ← num l fuel "CmdID" false
  let metaInfo ← readMeta l fuel
  let items ← readItems l fuel
  Input.close l fuel NS name
  lift (build id metaInfo items)

/-- A replacement that has no targets is device information. -/
def replacement (id : UInt32) (m : Option Meta) (items : List Item) : Except CodecError Command :=
  if items.any (fun i => i.target.isSome) then .ok (.replace id m items)
  else if m.isSome then .error .unsupported
  else .ok (.devInfo id items)

def readGroup (name : String) (build : UInt32 → List Command → Command)
    (members : Parser (List Command)) : Parser Command := do
  Input.command l
  Input.enter l fuel NS name
  let id ← num l fuel "CmdID" false
  let commands ← members
  Input.close l fuel NS name
  pure (build id commands)

/-- The first of the named elements that comes next. -/
def choose {α : Type} (alternatives : List (String × Parser α)) (otherwise : Parser α) : Parser α :=
  match alternatives with
  | [] => otherwise
  | (name, read) :: rest => do
      let present ← Input.is l fuel NS name
      if present then read else choose rest otherwise

def commandReaders (d : Decoders) (members : Parser (List Command)) :
    List (String × Parser Command) :=
  [("Atomic", readGroup l fuel "Atomic" .atomic members),
    ("Sequence", readGroup l fuel "Sequence" .sequence members),
    ("Get", readOperation l fuel "Get" (fun id m items => .ok (.get id m items))),
    ("Status", readStatus l fuel),
    ("Results", readResults l fuel),
    ("Alert", readAlert l fuel d),
    ("Add", readOperation l fuel "Add" (fun id m items => .ok (.add id m items))),
    ("Exec", readOperation l fuel "Exec" (fun id m items => .ok (.exec id m items))),
    ("Delete", readOperation l fuel "Delete" (fun id m items => .ok (.delete id m items))),
    ("Replace", readOperation l fuel "Replace" replacement)]

def commandsLoop (d : Decoders) : Nat → Nat → Parser (List Command)
  | 0, _ => exhausted
  | n + 1, depth => do
      -- the members of a group are one level deeper
      let members : Parser (List Command) := do
        lift (bound (depth + 1) (min l.depth 32))
        commandsLoop d n (depth + 1)
      let found ← choose l fuel ((commandReaders l fuel d members).map
        (fun x => (x.1, x.2 >>= fun c => pure (some c)))) (pure none)
      match found with
      | none => pure []
      | some c => do
          let rest ← commandsLoop d n depth
          pure (c :: rest)

def readCommands (d : Decoders) (depth : Nat) : Parser (List Command) := do
  lift (bound depth (min l.depth 32))
  commandsLoop l fuel d fuel depth

def supported (verDtd verProto : String) : Except CodecError Unit :=
  if verDtd ≠ "1.2" || verProto ≠ "DM/1.2" then .error .unsupported else .ok ()

def readHeader : Parser Header := do
  Input.enter l fuel NS "SyncHdr"
  let verDtd ← Input.scalar l fuel NS "VerDTD" l.identifierBytes false
  lift (supported verDtd "DM/1.2")
  let verProto ← Input.scalar l fuel NS "VerProto" l.identifierBytes false
  lift (supported verDtd verProto)
  let sessionId ← num l fuel "SessionID" false
  let messageId ← num l fuel "MsgID" false
  let target ← location l fuel "Target"
  let source ← location l fuel "Source"
  let credential ← readCredential l fuel
  let metaInfo ← readMeta l fuel
  Input.close l fuel NS "SyncHdr"
  pure ⟨sessionId, messageId, target, source, credential, metaInfo⟩

def readMessage (d : Decoders) : Parser Message := do
  Input.enter l fuel NS "SyncML"
  let header ← readHeader l fuel
  Input.enter l fuel NS "SyncBody"
  let commands ← readCommands l fuel d 0
  let finalMessage ← marker l fuel "Final"
  Input.close l fuel NS "SyncBody"
  Input.close l fuel NS "SyncML"
  Input.finish l fuel
  pure ⟨header, commands, finalMessage⟩

/-- The XML library: its escaping, and its namespace reader under a limit of bindings. -/
structure QuickXml where
  escape : Escape
  events : Nat → List Char → List Event

/-- Every round of a reader takes at least one event; the end of the document is one more. -/
def decodeText (q : QuickXml) (d : Decoders) (document : String) (l : CodecLimits) :
    Run CodecError Message := do
  if !document.toList.all legalChar then .error (.error .malformedXml)
  else do
    let events := q.events l.namespaceBindings document.toList
    let (m, _) ← readMessage l (events.length + 2) d (Input.new events)
    (validate d m l).mapError Fault.error
    .ok m

/-- Parse exactly one complete bounded document. -/
def decode (q : QuickXml) (d : Decoders) (bytes : ByteArray) (l : CodecLimits) :
    Run CodecError Message := do
  (bound bytes.size l.syncmlBytes).mapError Fault.error
  match String.fromUTF8? bytes with
  | none => .error (.error .unsupported)
  | some document => decodeText q d document l

end RssMdm.WindowsMdm.Syncml
