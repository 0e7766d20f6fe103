/- module: WindowsMdm/Syncml/Fragment
   source: crates/windows-mdm/src/syncml/fragment.rs, crates/windows-mdm/src/syncml/correlation.rs
   digest: Outbound admission, and splitting one large object over several measured frames. -/

import RssMdm.WindowsMdm.Syncml.Encode
import RssMdm.Lib.Bisection

set_option autoImplicit false

namespace RssMdm.WindowsMdm.Syncml

open Lib.Fallible Lib.Bisection
open Lib.Text (sliceFrom sliceTo)
open WindowsMdm.Xml (Escape)

def receipts : Command → Except CodecError (Nat × Nat)
  | .get _ _ items => .ok (items.length * 2, items.length * 2)
  | .add _ _ items | .replace _ _ items | .delete _ _ items | .exec _ _ items =>
      .ok (max items.length 1, items.length)
  | .atomic _ _ | .sequence _ _ => .ok (1, 0)
  | .alert _ _ => .ok (2, 0)
  | .status _ => .ok (0, 0)
  | .results _ | .devInfo _ _ => .error .unsupported

/-- One pass of the loop over the flattened commands. -/
def addReceipts (l : CodecLimits) (counted : Nat × Nat) (c : Command) :
    Except CodecError (Nat × Nat) := do
  let (commands, items) ← receipts c
  bound (counted.1 + commands) l.commands
  bound (counted.2 + items) l.items
  .ok (counted.1 + commands, counted.2 + items)

/-- Encode a new server message only when its possible receipts fit; the first command is the
client's status of the header. -/
def encodeOutbound (escape : Escape) (d : Decoders) (m : Message) (l : CodecLimits) :
    Except CodecError ByteArray := do
  let flat ← flattened m.commands l
  let _ ← flat.foldlM (addReceipts l) (1, 0)
  encode escape d m l

def isCharBoundary (data : String) (n : Nat) : Bool := (sliceFrom data.toList n).isSome

def slice (data : String) (offset stop : Nat) : String :=
  String.ofList (((sliceFrom data.toList offset).bind (fun rest => sliceTo rest (stop - offset))).getD
    [])

/-- One encoded-size-bounded message, and where it ends in the object. -/
structure Fragment where
  message : Message
  endOffset : Nat

/-- The payload that may span messages. -/
def payload : Command → Option String
  | .add _ _ [item] | .replace _ _ [item] => item.data
  | _ => none

def payloadBytes (c : Command) : Nat := (payload c).elim 0 String.utf8ByteSize

def appended (before : Message) (command : Command) : Message :=
  { before with commands := before.commands ++ [command] }

def chunkItem (data : String) (size : UInt32) (offset stop : Nat) (item : Item) : Item :=
  { item with
    metaInfo := some { item.metaInfo.getD Meta.empty with
      size := if offset = 0 then some size else none }
    data := some (slice data offset stop)
    moreData := stop < data.utf8ByteSize }

def unsized (m : Option Meta) : Option Meta := m.map (fun m => { m with size := none })

def chunkCommand (data : String) (size : UInt32) (offset stop : Nat) :
    Command → Except CodecError Command
  | .add id m (item :: items) =>
      .ok (.add id (unsized m) (chunkItem data size offset stop item :: items))
  | .replace id m (item :: items) =>
      .ok (.replace id (unsized m) (chunkItem data size offset stop item :: items))
  | _ => .error .unsupported

/-- The frame of one part; only the last one may be final. -/
def build (before : Message) (command : Command) (data : String) (size : UInt32)
    (offset stop : Nat) : Except CodecError Message := do
  let part ← chunkCommand data size offset stop command
  .ok { appended before part with
    finalMessage := stop = data.utf8ByteSize && before.finalMessage }

variable (escape : Escape) (d : Decoders)

/-- Whether a frame fits; any other error ends the search. -/
def fitting (m : Message) (wire : CodecLimits) : Except CodecError Bool :=
  match encodeOutbound escape d m wire with
  | .ok _ => .ok true
  | .error .limitExceeded => .ok false
  | .error e => .error e

def attempt (before : Message) (command : Command) (data : String) (size : UInt32) (offset : Nat)
    (wire : CodecLimits) (stop : Nat) : Except CodecError (Option Fragment) := do
  let message ← build before command data size offset stop
  if ← fitting escape d message wire then .ok (some ⟨message, stop⟩) else .ok none

/-- The frame of what remains from `offset`, as much of it as fits. -/
def remainder (before : Message) (command : Command) (offset : Nat) (wire : CodecLimits) :
    Except CodecError Fragment :=
  match payload command with
  | none => .error .limitExceeded
  | some data =>
      if offset ≥ data.utf8ByteSize ∨ !isCharBoundary data offset then .error .invalidValue
      else if data.utf8ByteSize ≥ 2 ^ 32 then .error .limitExceeded
      else do
        let size := UInt32.ofNat data.utf8ByteSize
        -- The final marker changes the envelope, so the entire remainder is tried separately.
        match ← attempt escape d before command data size offset wire data.utf8ByteSize with
        | some last => .ok last
        | none =>
            match ← search (isCharBoundary data) offset
                (attempt escape d before command data size offset wire) data.utf8ByteSize
                (offset + 1) (data.utf8ByteSize - 1) none with
            | some best => .ok best
            | none => .error .limitExceeded

def wireLimits (limits : CodecLimits) (peerMessageBytes : Nat) : CodecLimits :=
  { limits with syncmlBytes := min limits.syncmlBytes peerMessageBytes }

/-- Fit a command after an existing protocol envelope. -/
def fragment (before : Message) (command : Command) (offset peerMessageBytes : Nat)
    (limits : CodecLimits) : Except CodecError Fragment := do
  let wire := wireLimits limits peerMessageBytes
  let full := appended before command
  validate d full limits
  if offset = 0 then
    if ← fitting escape d full wire then .ok ⟨full, payloadBytes command⟩
    else remainder escape d before command offset wire
  else remainder escape d before command offset wire

end RssMdm.WindowsMdm.Syncml
