/- module: WindowsMdm/Syncml/Encode
   source: crates/windows-mdm/src/syncml.rs
   digest: Writing one bounded SyncML document. -/

import RssMdm.WindowsMdm.Syncml.Validate
import RssMdm.WindowsMdm.Xml.Output

set_option autoImplicit false

namespace RssMdm.WindowsMdm.Syncml

open Lib.Fallible
open WindowsMdm.Xml (Call Escape Output)

/-- Namespace of the SyncML 1.2 profile. -/
def NS : String := "SYNCML:SYNCML1.2"

def META : String := "syncml:metinf"

def unenrollmentItem : Item where
  moreData := false
  target := none
  source := none
  metaInfo := some { Meta.empty with format := some "int", mediaType := some unenrollment }
  data := some "1"

variable (l : CodecLimits)

def metaLeaf (name value : String) (max : Nat) : List Call :=
  [.start name [("xmlns", META)], .content value max, .close name]

def decimal (n : UInt32) : String := toString n.toNat

def metaNumber (name : String) (n : Option UInt32) : List Call :=
  n.toList.flatMap (fun v => metaLeaf name (decimal v) l.identifierBytes)

def metaBody (m : Meta) : List Call :=
  m.format.toList.flatMap (fun v => metaLeaf "Format" v l.identifierBytes) ++
    m.mediaType.toList.flatMap (fun v => metaLeaf "Type" v l.uriBytes) ++
    metaNumber l "MaxMsgSize" m.maxMessageSize ++ metaNumber l "MaxObjSize" m.maxObjectSize ++
    metaNumber l "Size" m.size

def writeMeta : Option Meta → List Call
  | none => []
  | some m => .start "Meta" [] :: (metaBody l m ++ [.close "Meta"])

def writeLocation (name value : String) : List Call :=
  .start name [] :: (Call.scalar "LocURI" value l.uriBytes false ++ [.close name])

def writeOptionalLocation (name : String) (value : Option String) : List Call :=
  value.toList.flatMap (writeLocation l name)

def writeData (data : Option String) : List Call :=
  data.toList.flatMap (fun v => Call.scalar "Data" v l.objectBytes true)

def writeMoreData (moreData : Bool) : List Call :=
  if moreData then Call.hollow "MoreData" else []

def writeItem (i : Item) : List Call :=
  .item :: .start "Item" [] :: (writeOptionalLocation l "Target" i.target ++
    (writeOptionalLocation l "Source" i.source ++ (writeMeta l i.metaInfo ++
      (writeData l i.data ++ (writeMoreData i.moreData ++ [.close "Item"])))))

def writeItems (items : List Item) : List Call := items.flatMap (writeItem l)

def writeNum (name : String) (n : UInt32) : List Call :=
  Call.scalar name (decimal n) l.identifierBytes false

def writeCredential : Option Credential → List Call
  | none => []
  | some c => .start "Cred" [] :: (writeMeta l (some c.metaInfo) ++
      (Call.scalar "Data" c.data l.fieldBytes false ++ [.close "Cred"]))

def writeRefsOf (name : String) (refs : List String) : List Call :=
  refs.flatMap (fun r => .item :: Call.scalar name r l.uriBytes false)

def writeRefs (s : Status) : List Call :=
  writeRefsOf l "TargetRef" s.targetRefs ++ writeRefsOf l "SourceRef" s.sourceRefs

def writeChallenge : Option Challenge → List Call
  | none => []
  | some c => .start "Chal" [] :: .start "Meta" [] ::
      (metaLeaf "Format" "b64" l.identifierBytes ++ (metaLeaf "Type" c.mediaType l.uriBytes ++
        (c.nonce.toList.flatMap (fun v => metaLeaf "NextNonce" v l.identifierBytes) ++
          [.close "Meta", .close "Chal"])))

/-- References stand before the code exactly when there is authentication material. -/
def Status.oma (s : Status) : Bool := s.challenge.isSome || s.credential.isSome

def writeStatus (s : Status) : List Call :=
  writeNum l "MsgRef" s.messageRef ++ (writeNum l "CmdRef" s.commandRef ++
    (Call.scalar "Cmd" s.command.asStr l.identifierBytes false ++
      ((if s.oma then writeRefs l s else []) ++ (writeCredential l s.credential ++
        (writeChallenge l s.challenge ++ (writeNum l "Data" s.code.toUInt32 ++
          (writeItems l s.items ++ if s.oma then [] else writeRefs l s)))))))

def writeTypedAlert (kind value : String) (explicitFormat : Bool) : List Call :=
  .item :: .start "Item" [] :: .start "Meta" [] :: (metaLeaf "Type" kind l.uriBytes ++
    ((if explicitFormat then metaLeaf "Format" "chr" l.identifierBytes else []) ++
      (.close "Meta" :: (Call.scalar "Data" value l.fieldBytes false ++ [.close "Item"]))))

def Alert.code : Alert → UInt32
  | .clientInitiated => 1201
  | .moreMessages => 1222
  | .sessionAbort => 1223
  | .endOfData _ => 1225
  | .loginStatus _ _ | .declaredConfiguration _ _ => 1224
  | .generic _ | .unenrollmentRequested => 1226

def writeAlertBody : Alert → List Call
  | .endOfData items | .generic items => writeItems l items
  | .unenrollmentRequested => writeItems l [unenrollmentItem]
  | .declaredConfiguration summary explicitFormat =>
      writeTypedAlert l declaredSummary summary explicitFormat
  | .loginStatus status explicitFormat =>
      writeTypedAlert l loginStatusType status.asStr explicitFormat
  | .clientInitiated | .moreMessages | .sessionAbort => []

def writeAlert (a : Alert) : List Call := writeNum l "Data" a.code ++ writeAlertBody l a

def writeOptionalNum (name : String) (n : Option UInt32) : List Call :=
  n.toList.flatMap (writeNum l name)

def writeResults (r : Results) : List Call :=
  writeOptionalNum l "MsgRef" r.messageRef ++ (writeOptionalNum l "CmdRef" r.commandRef ++
    (r.command.toList.flatMap (fun c => Call.scalar "Cmd" c.asStr l.identifierBytes false) ++
      (writeMeta l r.metaInfo ++ writeItems l r.items)))

def Command.element : Command → String
  | .atomic _ _ => "Atomic"
  | .sequence _ _ => "Sequence"
  | .add _ _ _ => "Add"
  | .exec _ _ _ => "Exec"
  | .delete _ _ _ => "Delete"
  | .get _ _ _ => "Get"
  | .status _ => "Status"
  | .results _ => "Results"
  | .alert _ _ => "Alert"
  | .devInfo _ _ | .replace _ _ _ => "Replace"

def framed (c : Command) (body : List Call) : List Call :=
  .command :: .start c.element [] :: (writeNum l "CmdID" c.id ++ (body ++ [.close c.element]))

def writeBody : Command → List Call
  | .get _ m items | .add _ m items | .replace _ m items | .delete _ m items | .exec _ m items =>
      writeMeta l m ++ writeItems l items
  | .devInfo _ items => writeItems l items
  | .alert _ alert => writeAlert l alert
  | .status s => writeStatus l s
  | .results r => writeResults l r
  | .atomic _ _ | .sequence _ _ => []

mutual

def writeCommand : Command → List Call
  | .atomic id commands => framed l (.atomic id commands) (writeCommands commands)
  | .sequence id commands => framed l (.sequence id commands) (writeCommands commands)
  | c => framed l c (writeBody l c)

def writeCommands : List Command → List Call
  | [] => []
  | c :: rest => writeCommand c ++ writeCommands rest

end

def writeHeader (h : Header) : List Call :=
  .start "SyncHdr" [] :: (Call.scalar "VerDTD" "1.2" l.identifierBytes false ++
    (Call.scalar "VerProto" "DM/1.2" l.identifierBytes false ++
      (writeNum l "SessionID" h.sessionId ++ (writeNum l "MsgID" h.messageId ++
        (writeLocation l "Target" h.target ++ (writeLocation l "Source" h.source ++
          (writeCredential l h.credential ++ (writeMeta l h.metaInfo ++ [.close "SyncHdr"]))))))))

def writeFinal (finalMessage : Bool) : List Call :=
  if finalMessage then Call.hollow "Final" else []

def writeMessage (m : Message) : List Call :=
  .start "SyncML" [("xmlns", NS)] :: (writeHeader l m.header ++ (.start "SyncBody" [] ::
    (writeCommands l m.commands ++ (writeFinal m.finalMessage ++
      [.close "SyncBody", .close "SyncML"]))))

/-- Validate and serialize one document entirely in memory. -/
def encode (escape : Escape) (d : Decoders) (m : Message) (l : CodecLimits) :
    Except CodecError ByteArray := do
  validate d m l
  let o ← (Output.new l.syncmlBytes).run escape l (writeMessage l m)
  let document ← o.finish l
  .ok (String.ofList document).toByteArray

end RssMdm.WindowsMdm.Syncml
