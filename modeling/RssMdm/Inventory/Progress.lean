/- module: Inventory/Progress
   source: crates/inventory/src/progress.rs
   digest: Per-field collection progress, its restoration check and what it publishes. -/

import RssMdm.Inventory.Collection

set_option autoImplicit false

namespace RssMdm.Inventory

open Lib Lib.Fallible Lib.Int64

/-- Quality of one expected field in one frozen collection. -/
inductive Quality where
  | unknown
  | pending
  | success
  | unsupported
  | failed
  | invalid
  | missing
  | deleted
deriving DecidableEq, Repr

/-- Provenance and validated output for a single field. -/
structure FieldAttempt where
  status : Option UInt16
  reason : Option String
  quality : Quality
  receivedAt : Option I64
  value : Option CollectedValue
  digest : Option String
  confirmed : Bool
  terminal : Option Quality
  items : List Quality

def FieldAttempt.default : FieldAttempt where
  status := none
  reason := none
  quality := .pending
  receivedAt := none
  value := none
  digest := none
  confirmed := false
  terminal := none
  items := []

def isUnknown : Option CollectedValue → Bool
  | some (.unknown _) => true
  | _ => false

def isDeleted : Option CollectedValue → Bool
  | some .deleted => true
  | _ => false

def isUnsupported : Option CollectedValue → Bool
  | some .unsupported => true
  | _ => false

/-- The protocol reports success. -/
def accepted (code : UInt16) : Bool := 200 ≤ code.toNat && code.toNat < 300

def quality (f : FieldAttempt) (finished : Bool) : Quality :=
  match f.terminal with
  | some terminal => terminal
  | none =>
      if f.confirmed && isUnknown f.value then .unknown
      else if f.confirmed && isDeleted f.value then .deleted
      else if f.status = some 501 || (f.confirmed && isUnsupported f.value) then .unsupported
      else if f.status.any (fun c => !accepted c) then .failed
      else if f.digest.isSome && f.value.isNone then .invalid
      else if f.confirmed && f.value.isSome then .success
      else if finished then .missing
      else .pending

/-- The quality follows from the other fields. -/
def FieldAttempt.requalify (f : FieldAttempt) (finished : Bool) : FieldAttempt :=
  { f with quality := Inventory.quality f finished }

variable [Environment]

structure Document where
  definition : CollectionDefinition
  fields : OrdMap FieldKey FieldAttempt
  finished : Bool
  completeCoverage : Bool

/-- All expected fields share one definition. -/
structure CollectionProgress extends Document

/-- Closed collector reason codes. -/
def reasons : List String := ["complete", "unsupported", "denied", "timeout", "truncated", "missing",
  "invalid", "untrusted", "owner_mismatch", "failed", "partial", "not_scanned",
  "source_unavailable", "user_absent", "store_unavailable", "incomplete"]

def arrayValues : Option CollectedValue → Option (List Scalar)
  | some (.value (.array values)) => some values
  | _ => none

def successes (items : List Quality) : Nat := (items.filter (· = .success)).length

def expectedRows (f : FieldAttempt) : Nat :=
  if f.terminal = some .invalid then successes f.items else f.items.length

/-- Row results belong to a list, complete or with its invalid rows left out. -/
def checkItems (definition : FieldDefinition) (f : FieldAttempt) : Except Invalid Unit :=
  if f.items.isEmpty then .ok ()
  else
    match definition.valueType with
    | .array _ maxItems =>
        if f.items.length > maxItems.toNat ∨
            f.items.any (fun q => !(q = .success || q = .invalid)) then .error .evidence
        else
          match f.value with
          | some (.value (.array values)) =>
              if values.length = f.items.length ∧ f.items.all (· = .success) then .ok ()
              else if f.terminal = some .invalid ∧ .invalid ∈ f.items ∧
                  values.length = successes f.items then .ok ()
              else .error .evidence
          | none =>
              if f.terminal = some .invalid ∧ .invalid ∈ f.items then .ok () else .error .evidence
          | some _ => .error .evidence
    | _ => .error .evidence

/-- A retained value is valid and has the recorded digest. -/
def checkRetained (definition : FieldDefinition) (f : FieldAttempt) : Except Invalid Unit :=
  match f.value with
  | none => .ok ()
  | some value => do
      let bytes ← value.encode definition
      if f.digest ≠ some (hexDigest bytes) then .error .evidence else .ok ()

/-- A terminal field is neither confirmed nor holds a value, except the rows of an invalid list. -/
def badTerminal (f : FieldAttempt) : Bool :=
  f.terminal.any (fun q => !(q ∈ [.missing, .failed, .invalid, .deleted])) ||
    (f.terminal.isSome && (f.confirmed ||
      (f.value.isSome && !(f.terminal = some .invalid && .invalid ∈ f.items))))

def hexDigits (s : String) : Bool :=
  s.utf8ByteSize = 64 && s.toList.all (fun c => (RssMdm.Lib.Text.hexDigit c).isSome)

def restoreField (definition : CollectionDefinition) (finished : Bool)
    (entry : FieldKey × FieldAttempt) : Except Invalid Unit := do
  let d ← definition.field entry.1
  if entry.2.reason.any (fun r => r ∉ reasons) then .error .evidence
  else if (arrayValues entry.2.value).any (fun values => values.length ≠ expectedRows entry.2) then
    .error .evidence
  else do
    checkItems d entry.2
    checkRetained d entry.2
    if badTerminal entry.2 then .error .evidence
    else if entry.2.receivedAt.any (fun time => !Environment.timepoint time) ∨
        entry.2.digest.any (fun s => !hexDigits s) ∨
        entry.2.quality ≠ quality entry.2 finished then .error .evidence
    else .ok ()

def CollectionProgress.tryFrom (v : Document) : Except Invalid CollectionProgress :=
  if v.fields.size ≠ v.definition.fields.length then .error .evidence
  else do
    each (restoreField v.definition v.finished) v.fields.entries
    .ok ⟨v⟩

namespace CollectionProgress

/-- What a method returns, and the progress it leaves behind. -/
abbrev Call : Type := Except Invalid Unit × CollectionProgress

/-- An early return leaves the progress as it is at that point. -/
def attempt {α : Type} (p : CollectionProgress) (x : Except Invalid α) (next : α → Call) : Call :=
  match x with
  | .error e => (.error e, p)
  | .ok a => next a

def write (p : CollectionProgress) (key : FieldKey) (f : FieldAttempt) : CollectionProgress :=
  { p with fields := p.fields.modify key (fun _ => f) }

def new (definition : CollectionDefinition) : CollectionProgress where
  definition := definition
  fields := (OrdSet.ofList (definition.fields.map CollectionField.key)).mapValues
    (fun _ _ => FieldAttempt.default)
  finished := false
  completeCoverage := true

def get (p : CollectionProgress) (key : FieldKey) (e : Invalid) : Except Invalid FieldAttempt :=
  match p.fields.get? key with
  | some f => .ok f
  | none => .error e

def checkTime (time : I64) : Except Invalid Unit :=
  if Environment.timepoint time then .ok () else .error .time

def observeStatus (p : CollectionProgress) (key : FieldKey) (code : UInt16) (time : I64) : Call :=
  p.attempt (checkTime time) fun _ =>
  if p.finished ∨ ¬(100 ≤ code.toNat ∧ code.toNat < 600) then (.error .state, p)
  else
    p.attempt (p.get key .unknownField) fun f =>
    if f.terminal.isSome ∨ f.status.any (· ≠ code) ∨ (!accepted code ∧ f.digest.isSome) then
      (.error .evidence, p)
    else
      let f := { f with status := some code, confirmed := accepted code, receivedAt := some time }
      (.ok (), p.write key (f.requalify false))

def retainedBytes (definition : FieldDefinition) (f : Option FieldAttempt) : Except Invalid Nat :=
  match f.bind FieldAttempt.value with
  | none => .ok 0
  | some value => (value.encode definition).map List.length

/-- One pass of the loop that adds up the retained values. -/
def addRetained (p : CollectionProgress) (total : Nat) (entry : FieldKey × FieldAttempt) :
    Except Invalid Nat := do
  let bytes ← match entry.2.value with
    | none => .ok 0
    | some value => do
        let d ← p.definition.field entry.1
        (value.encode d).map List.length
  if total + bytes < 2 ^ 64 then .ok (total + bytes) else .error .value

def valueBytes (p : CollectionProgress) : Except Invalid Nat :=
  p.fields.entries.foldlM p.addRetained 0

def rowsOf (value : Option CollectedValue) : List Quality :=
  match arrayValues value with
  | some items => List.replicate items.length .success
  | none => []

def validated (definition : FieldDefinition) (value : CollectedValue) : Option CollectedValue :=
  match value.encode definition with
  | .ok _ => some value
  | .error _ => none

def observeValue (p : CollectionProgress) (key : FieldKey) (value : CollectedValue) (time : I64) :
    Call :=
  p.attempt (checkTime time) fun _ =>
  if p.finished then (.error .state, p)
  else
    p.attempt (p.definition.field key) fun definition =>
    p.attempt (retainedBytes definition (p.fields.get? key)) fun previous =>
    p.attempt p.valueBytes fun total =>
    if min (total - previous + value.toVec.length) (2 ^ 64 - 1) > 16 * 1024 * 1024 then
      (.error .value, p)
    else
      p.attempt (p.get key .unknownField) fun f =>
      if f.terminal.isSome ∨ f.digest.any (· ≠ hexDigest value.toVec) ∨
          f.status.any (fun c => !accepted c) then (.error .evidence, p)
      else
        let f := { f with value := validated definition value
                          items := rowsOf (validated definition value)
                          digest := some (hexDigest value.toVec)
                          receivedAt := some time }
        (.ok (), p.write key (f.requalify false))

def reason (p : CollectionProgress) (key : FieldKey) (text : String) : Call :=
  if text ∉ reasons then (.error .evidence, p)
  else
    p.attempt (p.get key .evidence) fun f => (.ok (), p.write key { f with reason := some text })

/-- Stop accepting results; outstanding fields become missing. -/
def finish (p : CollectionProgress) : CollectionProgress :=
  { p with finished := true
           fields := p.fields.mapValues (fun _ f => f.requalify true) }

def observeInvalid (p : CollectionProgress) (key : FieldKey) (time : I64) : Call :=
  p.attempt (checkTime time) fun _ =>
  p.attempt (p.get key .unknownField) fun f =>
  if p.finished ∨ f.value.isSome ∨ f.terminal.isSome then (.error .evidence, p)
  else
    let f := { f with confirmed := false, receivedAt := some time, terminal := some .invalid }
    (.ok (), p.write key (f.requalify false))

def maxItemsOf (definition : FieldDefinition) : Except Invalid UInt32 :=
  match definition.valueType with
  | .array _ maxItems => .ok maxItems
  | _ => .error .typeMismatch

/-- The second write comes after the first one has changed the progress. -/
def observeInvalidItems (p : CollectionProgress) (key : FieldKey) (items : List Quality)
    (values : List Scalar) (time : I64) : Call :=
  p.attempt (p.definition.field key) fun definition =>
  p.attempt (maxItemsOf definition) fun maxItems =>
  if items.length > maxItems.toNat ∨ .invalid ∉ items ∨
      items.any (fun q => !(q = .success || q = .invalid)) then (.error .evidence, p)
  else if values.length ≠ successes items then (.error .evidence, p)
  else
    let value := CollectedValue.value (.array values)
    p.attempt (value.encode definition) fun bytes =>
    match p.observeInvalid key time with
    | (.error e, p) => (.error e, p)
    | (.ok (), p) =>
        p.attempt (p.get key .unknownField) fun f =>
        (.ok (), p.write key { f with items, digest := some (hexDigest bytes), value := some value })

end CollectionProgress

/-- One change of an observation: an upsert with its bytes or a deletion. -/
structure Change where
  key : String
  value : Option (List UInt8)
deriving DecidableEq

/-- The body of an observation batch; `partial` is a keyword of the language. -/
inductive Body where
  | snapshot (changes : List Change)
  | partially (changes : List Change)
  | delta (baseline : String) (previous : UInt64) (changes : List Change)
  | failed (code : String)
deriving DecidableEq

def Body.changes : Body → List Change
  | .snapshot changes => changes
  | .partially changes => changes
  | .delta _ _ changes => changes
  | .failed _ => []

def Body.isSnapshot : Body → Bool
  | .snapshot _ => true
  | _ => false

def Body.isFailed : Body → Bool
  | .failed _ => true
  | _ => false

/-- A definitive result that a full snapshot may stand on. -/
def Quality.settled (q : Quality) : Bool := q = .success || q = .unsupported || q = .deleted

namespace CollectionProgress

def covered (p : CollectionProgress) : Bool :=
  p.completeCoverage && p.fields.values.all (fun f => f.quality.settled)

def coverageComplete (p : CollectionProgress) : Bool := p.finished && p.covered

def published (complete : Bool) (f : FieldAttempt) : Option CollectedValue :=
  match f.quality with
  | .success => f.value
  | .unknown => f.value
  | .unsupported => some .unsupported
  | .deleted => if complete then none else some .deleted
  | _ => none

/-- One pass of the loop over the fields. -/
def publish (p : CollectionProgress) (changes : List Change) (entry : FieldKey × FieldAttempt) :
    Except Invalid (List Change) :=
  match published p.covered entry.2 with
  | none => .ok changes
  | some value =>
      if !Environment.observationId entry.1.asStr then .error .value
      else do
        let d ← p.definition.field entry.1
        let bytes ← value.encode d
        .ok (changes ++ [⟨entry.1.asStr, some bytes⟩])

def body (p : CollectionProgress) : Except Invalid (Option Body) :=
  if p.fields.values.all (fun f => f.receivedAt.isNone) then .ok none
  else do
    let changes ← p.fields.entries.foldlM p.publish []
    if p.covered then .ok (some (.snapshot changes))
    else if changes.isEmpty && p.fields.values.any (fun f => f.quality = .failed || f.quality = .invalid)
    then
      if Environment.observationId "collection_failed" then .ok (some (.failed "collection_failed"))
      else .error .value
    else .ok (some (.partially changes))

end CollectionProgress

inductive NativeValue where
  | value (value : CollectedValue)
  | invalidItems (items : List Quality) (values : List Scalar)
  | invalid
  | missing
  | failed

namespace CollectionProgress

/-- A field that ends without a value. -/
def terminate (p : CollectionProgress) (key : FieldKey) (terminal : Quality) (time : I64) :
    Except Invalid CollectionProgress := do
  checkTime time
  let f ← p.get key .unknownField
  let f := { f with receivedAt := some time, terminal := some terminal }
  .ok (p.write key (f.requalify false))

/-- A native value is its own confirmation. -/
def confirm (p : CollectionProgress) (key : FieldKey) : Except Invalid CollectionProgress := do
  let f ← p.get key .unknownField
  .ok (p.write key ({ f with confirmed := true }.requalify false))

def sequel : Call → Except Invalid CollectionProgress
  | (.ok (), p) => .ok p
  | (.error e, _) => .error e

/-- One pass of the loop over the expected fields. -/
def nativeField (values : OrdMap FieldKey NativeValue) (time : I64) (p : CollectionProgress)
    (key : FieldKey) : Except Invalid CollectionProgress :=
  match (values.get? key).getD .missing with
  | .value value =>
      match p.observeValue key value time with
      | (.ok (), p) => p.confirm key
      | (.error .value, p) => sequel (p.observeInvalid key time)
      | (.error e, _) => .error e
  | .invalidItems items values => sequel (p.observeInvalidItems key items values time)
  | .invalid => p.terminate key .invalid time
  | .failed => p.terminate key .failed time
  | .missing => p.terminate key .missing time

/-- Capture native responses using registered identities. -/
def native (definition : CollectionDefinition) (values : OrdMap FieldKey NativeValue) (time : I64) :
    Except Invalid CollectionProgress := do
  each (fun key => (definition.field key).map (fun _ => ())) values.keys
  let p ← (new definition).fields.keys.foldlM (nativeField values time) (new definition)
  .ok p.finish

/-- Incremental native evidence is never a full snapshot. -/
def nativePartial (definition : CollectionDefinition) (values : OrdMap FieldKey NativeValue)
    (time : I64) : Except Invalid CollectionProgress := do
  let p ← native definition values time
  .ok { p with completeCoverage := false }

def reportedValue (definition : FieldDefinition) (change : Change) : Except Invalid NativeValue :=
  match change.value with
  | some bytes => (CollectedValue.decode definition bytes).map NativeValue.value
  | none => .ok .missing

/-- One pass of the loop over the changes of a report. -/
def readChange (definition : CollectionDefinition) (values : OrdMap FieldKey NativeValue)
    (change : Change) : Except Invalid (OrdMap FieldKey NativeValue) := do
  let key ← FieldKey.parse change.key
  let d ← definition.field key
  let value ← reportedValue d change
  if values.contains key then .error .duplicateField else .ok (values.insert key value)

/-- The report deletes the field: a full snapshot leaves it out, or a change says so. -/
def deletes (body : Body) (key : FieldKey) : Bool :=
  (body.isSnapshot && !body.changes.any (fun c => c.key = key.asStr)) ||
    body.changes.any (fun c => c.key = key.asStr && c.value.isNone)

def reportedValues (definition : CollectionDefinition) (body : Body) :
    Except Invalid (OrdMap FieldKey NativeValue) := do
  let values ← body.changes.foldlM (readChange definition) .empty
  .ok (if body.isFailed then
      (OrdSet.ofList (definition.fields.map CollectionField.key)).mapValues (fun _ _ => .failed)
    else values)

/-- Read quality from an already verified report. -/
def reported (definition : CollectionDefinition) (body : Body) (time : I64) :
    Except Invalid CollectionProgress := do
  let values ← reportedValues definition body
  let p ← native definition values time
  .ok { p with
    completeCoverage := body.isSnapshot
    fields := p.fields.mapValues (fun key f =>
      if deletes body key then { f with terminal := some .deleted, quality := .deleted } else f) }

end CollectionProgress

end RssMdm.Inventory
