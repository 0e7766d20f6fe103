/- module: WindowsMdm/Syncml/Correlation
   source: crates/windows-mdm/src/syncml/correlation.rs
   digest: Snapshots of sent messages and the correlation of one response with all of them. -/

import RssMdm.Lib.Outcome
import RssMdm.WindowsMdm.Syncml.Validate

set_option autoImplicit false

namespace RssMdm.WindowsMdm.Syncml

open Lib.Fallible Lib.Outcome

inductive CorrelationError where
  | invalidRequest (e : CodecError)
  | invalidExpected (e : CodecError)
  | invalidResponse (e : CodecError)
  | mismatch
deriving DecidableEq

structure SentCommand where
  id : UInt32
  kind : CommandName
  targets : List String
deriving DecidableEq

/-- Snapshot minted from encoded outbound bytes or validated recorded wire. -/
structure SentMessage where
  sessionId : UInt32
  source : String
  target : String
  id : UInt32
  commands : List SentCommand
deriving DecidableEq

/-- Exact original Get item identity within a sent message. -/
structure Reference where
  messageId : UInt32
  commandId : UInt32
  uri : String
deriving DecidableEq

/-- The derived order: message, command, then the bytes of the URI. -/
def Reference.order : Reference → Reference → Ordering :=
  compareLex (compareOn Reference.messageId)
    (compareLex (compareOn Reference.commandId) (compareOn Reference.uri))

instance : Std.TransCmp Reference.order := by
  unfold Reference.order
  infer_instance

instance : Std.LawfulEqCmp Reference.order where
  eq_of_compare {a b} h := by
    obtain ⟨m, c, u⟩ := a
    obtain ⟨m', c', u'⟩ := b
    simp only [Reference.order, compareLex_eq_eq, compareOn, Std.LawfulEqOrd.compare_eq_iff_eq] at h
    obtain ⟨rfl, rfl, rfl⟩ := h
    rfl

/-- A message and a command of it. -/
abbrev Key : Type := UInt32 × UInt32

def Key.order : Key → Key → Ordering := compareLex (compareOn Prod.fst) (compareOn Prod.snd)

instance : Std.TransCmp Key.order := by
  unfold Key.order
  infer_instance

instance : Std.LawfulEqCmp Key.order where
  eq_of_compare {a b} h := by
    obtain ⟨m, c⟩ := a
    obtain ⟨m', c'⟩ := b
    simp only [Key.order, compareLex_eq_eq, compareOn, Std.LawfulEqOrd.compare_eq_iff_eq] at h
    obtain ⟨rfl, rfl⟩ := h
    rfl

abbrev ReferenceSet : Type := Std.TreeSet Reference Reference.order

/-- Correlation state of one expected response. -/
structure Expected where
  responseMessageId : UInt32
  messages : List SentMessage
  messageIds : Std.TreeSet UInt32
  requests : Std.TreeMap Key (Nat × Nat) Key.order
  references : ReferenceSet
  order : Std.TreeMap Key Nat Key.order
  items : Nat
  maxUriBytes : Nat

def sentTargets : List Item → Except CodecError (List String)
  | [] => .ok []
  | i :: rest =>
      match i.target with
      | none => .error .structural
      | some uri => do
          let uris ← sentTargets rest
          .ok (uri :: uris)

def sentKind (id : UInt32) (kind : CommandName) (items : List Item) :
    Except CodecError SentCommand := do
  let targets ← sentTargets items
  .ok ⟨id, kind, targets⟩

def sentCommand : Command → Except CodecError SentCommand
  | .get id _ items => sentKind id .get items
  | .add id _ items => sentKind id .add items
  | .exec id _ items => sentKind id .exec items
  | .delete id _ items => sentKind id .delete items
  | .replace id _ items => sentKind id .replace items
  | .atomic id _ => .ok ⟨id, .atomic, []⟩
  | .sequence id _ => .ok ⟨id, .sequence, []⟩
  | .status s => .ok ⟨s.id, .status, []⟩
  | .alert id _ => .ok ⟨id, .alert, []⟩
  | .results _ => .error .unsupported
  | .devInfo _ _ => .error .unsupported

def sentCommands : List Command → Except CodecError (List SentCommand)
  | [] => .ok []
  | c :: rest => do
      let sent ← sentCommand c
      let others ← sentCommands rest
      .ok (sent :: others)

def sentSnapshot (m : Message) (l : CodecLimits) : Except CodecError SentMessage := do
  let flat ← flattened m.commands l
  let commands ← sentCommands flat
  .ok ⟨m.header.sessionId, m.header.source, m.header.target, m.header.messageId, commands⟩

def SentMessage.uris (sent : SentMessage) : List String :=
  sent.source :: sent.target :: sent.commands.flatMap SentCommand.targets

/-- The checks of `recordSent`; returns the retained item count and longest URI. -/
def Expected.checked (e : Expected) (sent : SentMessage) (l : CodecLimits) :
    Except CodecError (Nat × Nat) :=
  if e.responseMessageId = 0 then .error .invalidValue
  else if e.messages.head?.any (fun first => first.sessionId ≠ sent.sessionId ||
      first.source ≠ sent.source || first.target ≠ sent.target) then .error .invalidValue
  else if e.messageIds.contains sent.id then .error .duplicate
  else do
    bound (e.messages.length + 1) l.sessionMessages
    bound (e.requests.size + sent.commands.length) l.sessionCommands
    each (fun uri => text uri l.uriBytes false) sent.uris
    let uriBytes := sent.uris.foldl (fun n uri => max n uri.utf8ByteSize) e.maxUriBytes
    let items := sent.commands.foldl (fun n c => n + c.targets.length) e.items
    bound items l.sessionItems
    bound uriBytes l.uriBytes
    .ok (items, uriBytes)

/-- The Get items a command asks for. -/
def SentCommand.references (messageId : UInt32) (c : SentCommand) : List Reference :=
  if c.kind = .get then c.targets.map (fun uri => ⟨messageId, c.id, uri⟩) else []

def Expected.recordCommand (messageId : UInt32) (messageIndex : Nat) (e : Expected)
    (indexed : SentCommand × Nat) : Expected :=
  let c := indexed.1
  { e with
    requests := e.requests.insert (messageId, c.id) (messageIndex, indexed.2)
    order := e.order.insert (messageId, c.id) e.order.size
    references := e.references.insertMany (c.references messageId) }

def Expected.recordSent (e : Expected) (sent : SentMessage) (l : CodecLimits) :
    Except CorrelationError Expected := do
  let (items, uriBytes) ← (e.checked sent l).mapError .invalidExpected
  let headed := { e with
    messageIds := e.messageIds.insert sent.id
    order := e.order.insert (sent.id, 0) e.order.size }
  let indexed := sent.commands.zipIdx.foldl
    (Expected.recordCommand sent.id e.messages.length) headed
  .ok { indexed with messages := e.messages ++ [sent], items := items, maxUriBytes := uriBytes }

def Expected.new (sent : SentMessage) (responseMessageId : UInt32) (l : CodecLimits) :
    Except CorrelationError Expected :=
  Expected.recordSent ⟨responseMessageId, [], ∅, ∅, ∅, ∅, 0, 0⟩ sent l

def Expected.request (e : Expected) (key : Key) : Run CorrelationError (Option SentCommand) :=
  match e.requests[key]? with
  | none => .ok none
  | some (message, command) =>
      match e.messages[message]? with
      | none => .error .panic
      | some sent =>
          match sent.commands[command]? with
          | none => .error .panic
          | some c => .ok (some c)

def Expected.validate (e : Expected) (l : CodecLimits) : Except CodecError Unit :=
  if e.responseMessageId = 0 then .error .invalidValue
  else if e.messages.isEmpty then .error .structural
  else do
    bound e.messages.length l.sessionMessages
    bound e.requests.size l.sessionCommands
    bound e.items l.sessionItems
    bound e.maxUriBytes l.uriBytes

/-- One structurally matched Get value. -/
structure CorrelatedItem where
  reference : Reference
  value : String
  explicitMessageRef : Bool
  explicitCommandRef : Bool
deriving DecidableEq

/-- Matched status report with its effective target coverage. -/
structure CorrelatedStatus where
  messageId : UInt32
  commandId : UInt32
  code : UInt16
  targets : List String
  itemDetails : List Item
deriving DecidableEq

/-- One response's matched values, statuses and unresolved requests. -/
structure Correlated where
  results : List CorrelatedItem
  statuses : List CorrelatedStatus
  missingResults : List Reference
deriving DecidableEq

/-- What `correlate` accumulates over the commands of the response. -/
structure Tally where
  remaining : ReferenceSet
  results : List CorrelatedItem
  statuses : List CorrelatedStatus
  coverage : Std.TreeMap Key (Std.TreeSet String) Key.order
  lastStatus : Std.TreeMap UInt32 Nat

def Results.key (r : Results) : Key := (r.messageRef.getD 1, r.commandRef.getD 1)

def correlateItem (r : Results) (t : Tally) (i : Item) : Except CorrelationError Tally :=
  if i.moreData then .error (.invalidResponse .structural)
  else match i.source with
    | none => .error .mismatch
    | some uri =>
        let reference : Reference := ⟨r.key.1, r.key.2, uri⟩
        if !t.remaining.contains reference then .error .mismatch
        else match i.data with
          | none => .error .mismatch
          | some value => .ok { t with
              remaining := t.remaining.erase reference
              results := t.results ++
                [⟨reference, value, r.messageRef.isSome, r.commandRef.isSome⟩] }

def correlateItems (r : Results) : Tally → List Item → Except CorrelationError Tally
  | t, [] => .ok t
  | t, i :: rest => do
      let t ← correlateItem r t i
      correlateItems r t rest

def correlateResults (e : Expected) (t : Tally) (r : Results) : Run CorrelationError Tally := do
  match ← e.request r.key with
  | none => .error (.error .mismatch)
  | some request =>
      if request.kind ≠ .get then .error (.error .mismatch)
      else (correlateItems r t r.items).mapError .error

/-- Command statuses keep the order of the commands within each referenced message. -/
def statusOrder (t : Tally) (s : Status) (index : Nat) : Except CorrelationError Tally :=
  if s.commandRef ≠ 0 then
    if t.lastStatus[s.messageRef]?.any (fun n => index < n) then .error .mismatch
    else .ok { t with lastStatus := t.lastStatus.insert s.messageRef index }
  else .ok t

def statusTargets (e : Expected) (s : Status) : Run CorrelationError (List String) :=
  if s.commandRef = 0 then
    if !e.messageIds.contains s.messageRef || s.command ≠ .syncHdr || !s.targetRefs.isEmpty ||
        !s.sourceRefs.isEmpty then .error (.error .mismatch)
    else .ok [""]
  else do
    match ← e.request (s.messageRef, s.commandRef) with
    | none => .error (.error .mismatch)
    | some request =>
        if request.kind ≠ s.command || !s.sourceRefs.isEmpty then .error (.error .mismatch)
        else if s.targetRefs.isEmpty then
          .ok (if request.targets.isEmpty then [""] else request.targets)
        else if s.targetRefs.any (fun v => !request.targets.contains v) then
          .error (.error .mismatch)
        else .ok s.targetRefs

def coverTargets : Std.TreeSet String → List String → Except CorrelationError (Std.TreeSet String)
  | seen, [] => .ok seen
  | seen, t :: rest =>
      if seen.contains t then .error (.invalidResponse .duplicate)
      else coverTargets (seen.insert t) rest

def correlateStatus (e : Expected) (t : Tally) (s : Status) : Run CorrelationError Tally :=
  let key : Key := (s.messageRef, s.commandRef)
  match e.order[key]? with
  | none => .error (.error .mismatch)
  | some index => do
      let t ← (statusOrder t s index).mapError .error
      let targets ← statusTargets e s
      let seen ← (coverTargets (t.coverage.getD key ∅) targets).mapError .error
      .ok { t with
        coverage := t.coverage.insert key seen
        statuses := t.statuses ++
          [⟨key.1, key.2, s.code, targets.filter (fun s => !s.isEmpty), s.items⟩] }

def correlateCommand (e : Expected) (t : Tally) : Command → Run CorrelationError Tally
  | .results r => correlateResults e t r
  | .status s => correlateStatus e t s
  | _ => .error (.error .mismatch)

def correlateCommands (e : Expected) : Tally → List Command → Run CorrelationError Tally
  | t, [] => .ok t
  | t, c :: rest => do
      let t ← correlateCommand e t c
      correlateCommands e t rest

def successful (code : UInt16) : Bool := 200 ≤ code.toNat && code.toNat < 300

/-- A failure status that covers a returned value. -/
def contradicts (s : CorrelatedStatus) (r : CorrelatedItem) : Bool :=
  s.messageId = r.reference.messageId && !successful s.code &&
    (s.commandId = 0 || (s.commandId = r.reference.commandId &&
      (s.targets.isEmpty || s.targets.contains r.reference.uri)))

def correlate (d : Decoders) (e : Expected) (response : Message) (l : CodecLimits) :
    Run CorrelationError Correlated := do
  (e.validate l).mapError (fun c => .error (.invalidExpected c))
  (validate d response l).mapError (fun c => .error (.invalidResponse c))
  match e.messages with
  | [] => .error .panic
  | first :: _ =>
      if response.header.sessionId ≠ first.sessionId ||
          response.header.messageId ≠ e.responseMessageId then .error (.error .mismatch)
      else do
        let t ← correlateCommands e ⟨e.references, [], [], ∅, ∅⟩ response.commands
        -- a header status comes first among the statuses
        if t.statuses.head?.all (fun first => first.commandId ≠ 0) then .error (.error .mismatch)
        else if t.results.any (fun r => t.statuses.any (fun s => contradicts s r)) then
          .error (.error .mismatch)
        else .ok ⟨t.results, t.statuses, t.remaining.toList⟩

end RssMdm.WindowsMdm.Syncml
