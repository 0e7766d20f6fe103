/- module: Telemetry/Retention
   source: crates/telemetry-service/src/admission.rs, samples.rs, retention.rs, delivery.rs, maintenance.rs,
     crates/agent-wire/src/telemetry.rs
   digest: Intake, delivery, retention steps and operator requests of the telemetry service, with the device
   fence held from a transaction's first read to its end. -/

import RssMdm.Lib.Rows
import RssMdm.Policy.Definition

set_option autoImplicit false

namespace RssMdm.Telemetry

open RssMdm.Lib.Rows
open RssMdm.Policy (Uuid)

inductive Fault where
  | invalid | conflict | denied | capacity | unknown | storage
deriving DecidableEq

def maxI64 : Int := 2 ^ 63 - 1

def saturatingAdd (a b : Int) : Int := min (a + b) maxI64

def saturatingSub (a b : Int) : Int := max (a - b) (-2 ^ 63)

def micros (seconds : UInt32) : Int := seconds.toNat * 1000000

inductive Projection where
  | current | history | both
deriving DecidableEq

inductive Delivery where
  | pending | published | unknown | blocked
deriving DecidableEq

structure Field where
  key : String
  version : Nat
deriving DecidableEq

structure Observation where
  id : Uuid
  observedAt : Int
  values : List (String × String)

/-- A device's upload, with what its signed configuration freezes. -/
structure Upload where
  batchId : Uuid
  device : String
  registration : Uuid
  generation : Nat
  stream : String
  projection : Projection
  fields : List Field
  backfillSeconds : UInt32
  issuedAt : Int
  expiresAt : Int
  observations : List Observation

structure Series where
  device : String
  field : Field
  resource : String
  dimensions : List (String × String)
deriving DecidableEq

structure Selection where
  stream : String
  series : Series
deriving DecidableEq

structure Sample where
  selection : Selection
  observedAt : Int

structure Policy where
  rawSeconds : UInt32
  summarySeconds : UInt32

inductive Action where
  | advanceCutoff (before : Int)
  | prune (rawBefore summariesBefore : Int)

def Action.rawBefore : Action → Int
  | .advanceCutoff before => before
  | .prune rawBefore _ => rawBefore

structure Request where
  id : Uuid
  device : String
  field : String
  resource : String
  target : Selection
  action : Action

structure MaintenanceRequest where
  identity : String
  selection : Selection
  action : Action

inductive Progress where
  | unknown | blocked | more | complete
deriving DecidableEq

/-- The immutable catalog and the digests. -/
structure Environment where
  policy : Field → Option Policy
  /-- The resources of a reading with their dimensions. -/
  expand : Field → String → Except Fault (List (String × List (String × String)))
  digest : Upload → String
  key : Selection → String
  identity : String → Int → Nat → String
  binding : Request → String

/-- A row of `batches` with the sealed input of its message. -/
structure Batch where
  upload : Upload
  receivedAt : Int
  delivery : Delivery

def Batch.id (b : Batch) : Uuid := b.upload.batchId

/-- A row of `retention_targets`. -/
structure Target where
  id : String
  selection : Selection
  dueAt : Int
  nextCheck : Int
  phase : Nat

/-- A row of `maintenance`. -/
structure Intent where
  id : Uuid
  binding : String
  complete : Bool

def Intent.settle (progress : Progress) (i : Intent) : Intent :=
  { i with complete := i.complete || progress = .complete }

/-- On whose behalf a request was sent. -/
inductive Cause where
  | policy (target : String) (due : Int) (phase : Nat)
  | operator (request : Request)

structure Sent where
  request : MaintenanceRequest
  cause : Cause
  sentAt : Int

/-- A transaction that holds the fence of a device. -/
inductive Work where
  | intake (batch : Batch)
  | retain (target : String) (now : Int) (request : Option MaintenanceRequest)
  | operate (request : Request)

structure Held where
  work : Work
  sent : Bool

structure State where
  clock : Int
  batches : List Batch
  targets : List Target
  intents : List Intent
  held : String → Option Held
  /-- Every request sent so far. -/
  sent : List Sent

def State.empty : State := ⟨0, [], [], [], fun _ => none, []⟩

section

variable (env : Environment)

def fieldSamples (u : Upload) (o : Observation) (f : Field) : Except Fault (List Sample) :=
  match o.values.lookup f.key with
  | none => .error .invalid
  | some reading =>
      if u.projection = .current then .ok []
      else do
        let resources ← env.expand f reading
        .ok (resources.map (fun r => ⟨⟨u.stream, ⟨u.device, f, r.1, r.2⟩⟩, o.observedAt⟩))

def observationSamples (u : Upload) (receivedAt : Int) (o : Observation) : Except Fault (List Sample) :=
  if o.observedAt > receivedAt || saturatingSub receivedAt o.observedAt > micros u.backfillSeconds then
    .error .invalid
  else do
    let samples ← u.fields.mapM (fieldSamples env u o)
    .ok samples.flatten

def prepare (u : Upload) (receivedAt : Int) : Except Fault (List Sample) := do
  let samples ← u.observations.mapM (observationSamples env u receivedAt)
  .ok samples.flatten

def Batch.history (b : Batch) : List Sample :=
  match prepare env b.upload b.receivedAt with
  | .ok samples => samples
  | .error _ => []

end

namespace State

variable (env : Environment) (s : State)

/-- `pending`: an unpublished batch of the device with the field. -/
def pending (device field : String) : Bool :=
  s.batches.any (fun b => b.upload.device = device && (b.upload.fields.map Field.key).contains field &&
    b.delivery ≠ .published)

def hold (device : String) (work : Work) : State :=
  { s with held := fun d => if d = device then some ⟨work, false⟩ else s.held d }

def free (device : String) : State :=
  { s with held := fun d => if d = device then none else s.held d }

/-- The fence is taken, or the transaction waits for it; one with nothing to do lets it go at once. -/
def fenced (device : String) (work : Except Fault (Option Work)) : Except Fault State :=
  if (s.held device).isSome then .error .storage
  else
    match work with
    | .error e => .error e
    | .ok none => .ok s
    | .ok (some w) => .ok (s.hold device w)

def tooLate (now : Int) (u : Upload) (f : Field) : Except Fault Unit :=
  match env.policy f with
  | none => .error .storage
  | some p =>
      if u.observations.any (fun o => o.observedAt < saturatingSub now (micros p.rawSeconds)) then
        .error .invalid
      else .ok ()

/-- `receive_on` up to its first write; a batch that exists is answered from its row. -/
def receive (u : Upload) (verified capacity : Except Fault Unit) : Except Fault (Option Work) := do
  if u.observations.isEmpty || u.observations.any (fun o => o.observedAt < 0 || o.observedAt = maxI64) then
    .error .invalid
  else
    match lookup Batch.id s.batches u.batchId with
    | some b =>
        if b.upload.registration ≠ u.registration || b.upload.generation ≠ u.generation ||
          b.upload.device ≠ u.device || env.digest b.upload ≠ env.digest u then .error .conflict
        else .ok none
    | none => do
        verified
        if u.observations.any (fun o => o.observedAt < u.issuedAt || o.observedAt ≥ u.expiresAt) then
          .error .invalid
        else do
          (if u.projection = .current then .ok ()
            else Lib.Fallible.each (tooLate env s.clock u) u.fields : Except Fault Unit)
          let _ ← prepare env u s.clock
          capacity
          .ok (some (.intake ⟨u, s.clock, .pending⟩))

/-- `register`: a series that has a target keeps it. -/
def registerOne (now : Int) (targets : List Target) (sample : Sample) : List Target :=
  let id := env.key sample.selection
  let due := saturatingAdd now 3600000000
  if (lookup Target.id targets id).isSome then targets
  else targets ++ [⟨id, sample.selection, due, due, 0⟩]

def register (batch : Batch) : List Target :=
  (batch.history env).foldl (registerOne env batch.receivedAt) s.targets

def policyAction (p : Policy) (t : Target) : Action :=
  let raw := max (saturatingSub t.dueAt (micros p.rawSeconds)) 0
  if t.phase = 0 then .advanceCutoff raw
  else .prune raw (max (saturatingSub t.dueAt (micros p.summarySeconds)) 0)

/-- The persisted due time and phase fix the operation. -/
def policyRequest (p : Policy) (t : Target) : MaintenanceRequest :=
  ⟨env.identity t.id t.dueAt t.phase, t.selection, policyAction p t⟩

/-- `step` under the fence; the clock was read before the fence was waited for. -/
def retain (t : Target) (now : Int) : Except Fault (Option Work) :=
  if t.phase < 2 && t.nextCheck ≤ now then
    (if s.pending t.selection.series.device t.selection.series.field.key then .ok (some (.retain t.id now none))
    else
      match env.policy t.selection.series.field with
      | none => .error .storage
      | some p => .ok (some (.retain t.id now (some (policyRequest env p t)))))
  else .ok none

def advanceTarget (now : Int) (progress : Progress) (t : Target) : Target :=
  if progress = .complete then
    (if t.phase = 0 then { t with phase := 1, nextCheck := saturatingAdd now 30000000 }
    else { t with phase := 0, dueAt := saturatingAdd now 3600000000, nextCheck := saturatingAdd now 3600000000 })
  else { t with nextCheck := saturatingAdd now 30000000 }

/-- `authorize`, for the two actions that move a bound. -/
def authorize (r : Request) (permitted : Except Fault Unit) : Except Fault Unit := do
  permitted
  if s.pending r.device r.field then .error .conflict
  else
    match env.policy r.target.series.field with
    | none => .error .invalid
    | some p =>
        if r.action.rawBefore > max (saturatingSub s.clock (micros p.rawSeconds)) 0 then .error .denied
        else
          match r.action with
          | .prune _ summariesBefore =>
              if summariesBefore > max (saturatingSub s.clock (micros p.summarySeconds)) 0 then .error .denied
              else .ok ()
          | .advanceCutoff _ => .ok ()

def selects (r : Request) : Except Fault Unit :=
  if r.target.series.device ≠ r.device || r.target.series.resource ≠ r.resource ||
    r.target.series.field.key ≠ r.field then .error .denied
  else .ok ()

def intend (r : Request) (permitted : Except Fault Unit) : Except Fault State := do
  selects r
  s.authorize env r permitted
  match lookup Intent.id s.intents r.id with
  | some i => if i.binding ≠ env.binding r then .error .conflict else .ok s
  | none => .ok { s with intents := s.intents ++ [⟨r.id, env.binding r, false⟩] }

/-- `step_on`, which follows the intent of the same request. -/
def operate (r : Request) (permitted : Except Fault Unit) : Except Fault (Option Work) := do
  selects r
  s.authorize env r permitted
  match lookup Intent.id s.intents r.id with
  | none => .error .storage
  | some i =>
      if i.binding ≠ env.binding r then .error .storage
      else if i.complete then .ok none
      else .ok (some (.operate r))

def outgoing : Work → Option (MaintenanceRequest × Cause)
  | .intake _ => none
  | .retain id _ (some request) =>
      (lookup Target.id s.targets id).map (fun t => (request, .policy id t.dueAt t.phase))
  | .retain _ _ none => none
  | .operate r => some (⟨toString r.id.toNat, r.target, r.action⟩, .operator r)

def send (device : String) : Except Fault State :=
  match s.held device with
  | some ⟨work, false⟩ =>
      match s.outgoing work with
      | some (request, cause) =>
          .ok { s with
            sent := s.sent ++ [⟨request, cause, s.clock⟩]
            held := fun d => if d = device then some ⟨work, true⟩ else s.held d }
      | none => .error .storage
  | _ => .error .storage

def saveTarget (id : String) (f : Target → Target) : State :=
  { s with targets := update Target.id s.targets id f }

def saveIntent (id : Uuid) (f : Intent → Intent) : State :=
  { s with intents := update Intent.id s.intents id f }

/-- The transaction commits what the backend answered, or what it had to write. -/
def commit (device : String) (progress : Progress) : Except Fault State :=
  match s.held device with
  | none => .error .storage
  | some h =>
      match h.work with
      | .intake b => .ok ({ s with targets := s.register env b, batches := s.batches ++ [b] }.free device)
      | .retain id now request =>
          if request.isSome && !h.sent then .error .storage
          else
            .ok ((s.saveTarget id (advanceTarget now (if request.isSome then progress else .blocked))).free device)
      | .operate r =>
          if !h.sent then .error .storage
          else
            .ok ((s.saveIntent r.id (Intent.settle progress)).free device)

def saveBatch (id : Uuid) (f : Batch → Batch) : State :=
  { s with batches := update Batch.id s.batches id f }

/-- `deliver_on`: a published batch stays as it is, an unconfirmed write leaves it unpublished. -/
def deliver (id : Uuid) (written current : Except Fault Unit) : Except Fault State :=
  match lookup Batch.id s.batches id with
  | none => .error .storage
  | some b =>
      if b.delivery = .published then .ok s
      else do
        written
        current
        .ok (s.saveBatch id (fun b => { b with delivery := .published }))

/-- `observe_delivery_failure`. -/
def observe (id : Uuid) (blocked : Bool) : State :=
  s.saveBatch id (fun b => if b.delivery = .published then b else
    { b with delivery := if blocked then .blocked else .unknown })

end State

/-- One step of any worker; a transaction takes several and keeps its fence between them. -/
inductive Event where
  | tick (clock : Int)
  | receive (upload : Upload) (verified capacity : Except Fault Unit)
  | retain (target : String) (now : Int)
  | intend (request : Request) (permitted : Except Fault Unit)
  | operate (request : Request) (permitted : Except Fault Unit)
  | send (device : String)
  | commit (device : String) (progress : Progress)
  | rollback (device : String)
  | deliver (batch : Uuid) (written current : Except Fault Unit)
  | observe (batch : Uuid) (blocked : Bool)

namespace State

variable (env : Environment)

def perform (s : State) : Event → Except Fault State
  | .tick clock => if clock < s.clock || clock > maxI64 then .error .invalid else .ok { s with clock }
  | .receive u verified capacity => s.fenced u.device (s.receive env u verified capacity)
  | .retain id now =>
      if now > s.clock then .error .invalid
      else
        match lookup Target.id s.targets id with
        | none => .ok s
        | some t => s.fenced t.selection.series.device (s.retain env t now)
  | .intend r permitted => if (s.held r.device).isSome then .error .storage else s.intend env r permitted
  | .operate r permitted => s.fenced r.device (s.operate env r permitted)
  | .send device => s.send device
  | .commit device progress => s.commit env device progress
  | .rollback device => .ok (s.free device)
  | .deliver id written current => s.deliver id written current
  | .observe id blocked => .ok (s.observe id blocked)

def apply (s : State) (event : Event) : State :=
  match s.perform env event with
  | .ok s' => s'
  | .error _ => s

def after (s : State) (events : List Event) : State := events.foldl (apply env) s

end State

end RssMdm.Telemetry
