/- module: Actions/Agent
   source: crates/execution-service/src/actions/agent.rs, actions/poll.rs
   digest: The two requests of the Agent task protocol, polls and events, each one transaction. -/

import RssMdm.Actions.Software

set_option autoImplicit false

namespace RssMdm.Actions

open RssMdm.Lib RssMdm.Lib.Int64
open RssMdm.Policy (Uuid TimeZones)
open Software (SoftwarePolicy SlotAnswers WaitingAnswers Associations)

inductive UnmanageOutcome where
  | completed | failed | unknown
deriving DecidableEq

inductive EnrollmentEntryOutcome where
  | opened | userRequired | thirdPartyConflict | unsupported | failed | unknown
deriving DecidableEq

inductive TaskEvent (D : Documents) where
  | deviceAccessPrepared (value : D.Evidence)
  | deviceAccessResult (value : D.Evidence)
  | credentialEscrow (value : D.Evidence)
  | credentialResult (value : D.Evidence)
  | received
  | start
  | cancelled
  | result (value : D.Evidence)
  | collectionResult (value : D.Evidence)
  | chunkedCollectionResult (manifest : D.Evidence)
  | outputChunk (chunk : D.Evidence)
  | chunkedResult (reference : D.Evidence)
  | softwareResult (value : D.Evidence)
  | unmanageResult (outcome : UnmanageOutcome)
  | enrollmentResult (outcome : EnrollmentEntryOutcome)

def TaskEvent.isStart {D : Documents} : TaskEvent D → Bool
  | .start => true
  | _ => false

/-- `Start | Received`. -/
def TaskEvent.isDelivery {D : Documents} : TaskEvent D → Bool
  | .start | .received => true
  | _ => false

structure TaskClaimRequest (D : Documents) where
  operationId : Uuid
  report : D.Report

structure TaskEventRequest (D : Documents) where
  operationId : Uuid
  attemptId : Uuid
  event : TaskEvent D
  report : D.Report

/-- What the fingerprint of a receipt is taken of. -/
inductive Request (D : Documents) where
  | claim (input : TaskClaimRequest D)
  | event (task : Uuid) (input : TaskEventRequest D)

def Request.operationId {D : Documents} : Request D → Uuid
  | .claim input => input.operationId
  | .event _ input => input.operationId

/-- Independent evidence on a software task. -/
inductive Assessment where
  | satisfied | unsatisfied | unknown | rebootPending
deriving DecidableEq

structure CandidateAnswers (D : Documents) where
  planned : Except Fault Unit
  capable : Bool
  authorized : Bool
  withdrawn : Bool
  policy : SoftwarePolicy
  waiting : WaitingAnswers
  /-- `Uuid::new_v4`. -/
  attempt : Uuid
  /-- Reservations and the trust in the signing key. -/
  issued : Except Fault Unit
  content : Except Fault D.Content

/-- A policy version that is due for the polling Agent, with the id of its run. -/
inductive Admission where
  | software (policy : SoftwarePolicy) (id : Uuid) (answers : SlotAnswers)
  | other (input : Store.RunInput)

structure PollAnswers (D : Documents) where
  now : I64
  /-- The principal, its announcements and its context. -/
  admitted : Except Fault Unit
  /-- The task of a replayed offer: its plan, and whether it is authorized. -/
  replayed : Except Fault Bool
  prepared : Except Fault Unit
  admissions : List Admission
  /-- Device access runs. -/
  reconciled : List Store.RunInput
  candidate : Uuid → CandidateAnswers D

structure EventAnswers (D : Documents) where
  now : I64
  /-- The principal, and its context for `Start` and `Received`. -/
  admitted : Except Fault Unit
  planned : Except Fault Unit
  authorized : Bool
  withdrawn : Bool
  completion : Bool
  /-- What the handler of the event does besides the run. -/
  handled : Except Fault Unit
  issued : Except Fault Unit
  content : Except Fault D.Content
  uncertain : Bool
  success : Bool
  finished : Execution
  assessment : Assessment
  observedAt : Option I64
  receivedAt : I64
  credentials : List D.Coordinate
  /-- Other runs that the evidence settles. -/
  recovered : List (Uuid × Uuid × Bool)

/-- The signing key, the digest of the serialized request, and `Material::from_payload`. -/
structure Signing (D : Documents) where
  sign : TaskPayload D → Except Fault (List UInt8)
  fingerprint : Request D → List UInt8
  material : TaskPayload D → Except Fault (Option D.Material)

variable {D : Documents} {Zone : Type} (g : Signing D) (tz : TimeZones Zone) (t : Associations)

def belongs (run : Run) (p : Target) : Except Fault Unit :=
  if run.target ≠ p then .error .unauthorized else .ok ()

namespace Store

/-- `SET execution_material … WHERE run AND id`, which has to change one row. -/
def persistIn (s : Store D) (run attempt : Uuid) (payload : TaskPayload D) :
    Except Fault (Store D) := do
  match ← g.material payload with
  | none => .ok s
  | some material =>
      match (s.attempts.get? attempt).filter (fun row => row.run = run) with
      | none => .error .conflict
      | some row => .ok { s with
          attempts := s.attempts.insert attempt { row with material := some material } }

def isCandidate (registration : Uuid) (now : I64) (run : Run) : Bool :=
  run.target.registration = registration && run.state.execution = .notStarted &&
    run.state.cancellation = .none && run.gatewayAccepted && run.availableAt.val ≤ now.val &&
    now.val < run.deadline.val && run.state.delivery.leaseUntil.all (fun lease => lease.val ≤ now.val)

/-- Rows come in the order of their ids, so only the time is compared. -/
def offerCandidates (s : Store D) (registration : Uuid) (now : I64) : List Uuid :=
  (((s.runs.values.filter (isCandidate registration now)).insertionSort
    (fun a b => a.availableAt.val ≤ b.availableAt.val)).take 128).map Run.id

/-- The next page of cancellations; a page that is empty starts over. -/
def cancellations (s : Store D) (registration : Uuid) :
    Except Fault (List TaskCancellation × Store D) := do
  let after := ((s.cancellationAfter.get? registration).getD none).getD 0
  let rows := (s.runs.values.filter (fun run => run.target.registration = registration &&
    run.state.cancellation = .requested && after < run.id)).take 128
  let page ← rows.mapM (fun run =>
    match run.state.attempt with
    | some attempt =>
        if run.id.isNil || attempt.isNil then .error .unavailable else .ok ⟨run.id, attempt⟩
    | none => .error .unavailable)
  .ok (page, { s with
    cancellationAfter := s.cancellationAfter.insert registration (rows.getLast?.map Run.id) })

end Store

def accept (s : Store D) (p : Target) (now : I64) : Admission → Except Fault (Store D)
  | .software policy id answers => Software.acceptForDevice tz t s policy p now id answers
  | .other input => s.queueRunIn { input with target := p } now

/-- An offer holds for sixty seconds, but never beyond the deadline. -/
def offerExpiry (now deadline : I64) : Except Fault I64 :=
  match now.checkedAdd ⟨60, I64.sixty_lo, I64.sixty_hi⟩ with
  | some till => .ok (Software.earlier till deadline)
  | none => .error .unavailable

def offer (s : Store D) (p : Target) (run : Run) (now : I64) (a : CandidateAnswers D) :
    Except Fault (SignedTask D × Store D) := do
  a.issued
  let content ← a.content
  let expiry ← offerExpiry now run.deadline
  let payload : TaskPayload D := ⟨run.id, a.attempt, .offer, expiry, content⟩
  let signature ← g.sign payload
  let s ← s.insertAttempt a.attempt ⟨run.id, p.registration, now, ⟨payload, signature⟩, none, none⟩
  let s ← s.persistIn g run.id a.attempt payload
  .ok (⟨payload, signature⟩, s)

def awaken (s : Store D) (run : Run) (now : I64) (a : CandidateAnswers D) :
    Except Fault (Bool × Run × Store D) :=
  let state := run.state.expire now
  if state.execution = .notStarted && state.cancellation = .none && now.val < run.deadline.val then
    Software.advanceWaitingIn tz t s run a.policy a.waiting
  else .ok (true, run, s)

/-- The claim of a candidate in its expired or withdrawn state, saved whether or not it is offered. -/
def claimRun (s : Store D) (p : Target) (now : I64) (run : Run) (state : RunState) (ready : Bool)
    (a : CandidateAnswers D) : Except Fault (Option (SignedTask D) × Store D) :=
  let allowed := run.kind.byAgent && a.capable && ready && a.authorized
  if state.cancellation = .none && run.availableAt.val ≤ now.val && allowed then
    match state.claim a.attempt now with
    | (.ok (), claimed) => do
        let (task, s) ← offer g s p run now a
        .ok (some task, s.saveRun { run with state := claimed })
    | (.error _, _) => .ok (none, s.saveRun { run with state })
  else .ok (none, s.saveRun { run with state })

/-- One pass of the loop over the candidates. -/
def consider (s : Store D) (p : Target) (now : I64) (id : Uuid) (a : CandidateAnswers D) :
    Except Fault (Option (SignedTask D) × Store D) := do
  let run ← s.loadRun id
  belongs run p
  a.planned
  let expired := run.state.expire now
  let (ready, run, s) ← awaken tz t s run now a
  claimRun g s p now run (if a.withdrawn then expired.cancel else expired) ready a

/-- Candidates are considered until one is offered. -/
def offerFrom (p : Target) (a : PollAnswers D) :
    List Uuid → Store D → Except Fault (Option (SignedTask D) × Store D)
  | [], s => .ok (none, s)
  | id :: rest, s => do
      let (task, s) ← consider g tz t s p a.now id (a.candidate id)
      match task with
      | some task => .ok (some task, s)
      | none => offerFrom p a rest s

def Response.task : Response D → Option (SignedTask D)
  | .claimed response => response.task
  | .acknowledged _ => none

def replayOffer (s : Store D) (p : Target) (response : Response D) (a : PollAnswers D) :
    Except Fault Unit :=
  match response.task with
  | none => .ok ()
  | some task => do
      let run ← s.loadRun task.payload.taskId
      belongs run p
      if run.state.cancellation ≠ .none || run.state.execution ≠ .notStarted ||
          run.state.attempt ≠ some task.payload.attemptId then .error .conflict
      else do
        let authorized ← a.replayed
        if task.payload.expiresAt.val ≤ a.now.val || !authorized then .error .conflict else .ok ()

/-- A poll without a receipt. Runs that are admitted on the way are not among its candidates. -/
def pollIn (s : Store D) (p : Target) (a : PollAnswers D) :
    Except Fault (TaskClaimResponse D × Store D) := do
  a.prepared
  let ids := s.offerCandidates p.registration a.now
  let s ← a.admissions.foldlM (fun s admission => accept tz t s p a.now admission) s
  let s ← a.reconciled.foldlM (fun s input => s.queueRunIn { input with target := p } a.now) s
  let (task, s) ← offerFrom g tz t p a ids s
  let (page, s) ← s.cancellations p.registration
  .ok (⟨task, page⟩, s)

def claimIn (s : Store D) (p : Target) (input : TaskClaimRequest D) (a : PollAnswers D) :
    Except Fault (Response D × Store D) := do
  a.admitted
  let key := toLex (p.registration, input.operationId)
  let hash := g.fingerprint (.claim input)
  match ← s.replay key hash with
  | some response => do
      replayOffer s p response a
      .ok (response, s)
  | none => do
      let (response, s) ← pollIn g tz t s p a
      if response.task.isSome then do
        let s ← s.receipt key hash (.claimed response)
        .ok (.claimed response, s)
      else .ok (.claimed response, s)

/-- Evidence that still can come: the task runs, or its outcome is unknown. -/
def unsettledStart (run : Run) : Bool :=
  (run.state.execution = .running || run.state.execution = .unknown) && run.state.startedAt.isSome

def startPermit (payload : TaskPayload D) (expiry : I64) : TaskPayload D :=
  { payload with permit := .start, expiresAt := expiry }

def startRun (s : Store D) (run : Run) (input : TaskEventRequest D) (a : EventAnswers D) :
    Except Fault (Run × SignedTask D × Store D) := do
  if run.state.execution ≠ .notStarted then .error .conflict
  else do
    a.handled
    let state ← (run.state.start input.attemptId a.now).state
    a.issued
    let content ← a.content
    let payload : TaskPayload D := ⟨run.id, input.attemptId, .start, run.deadline, content⟩
    let kept ← s.offerOf input.attemptId run.id
    if startPermit kept.payload run.deadline ≠ payload then .error .forbidden
    else do
      let signature ← g.sign payload
      let s ← s.setPermit input.attemptId ⟨payload, signature⟩
      let s ← s.persistIn g run.id input.attemptId payload
      .ok ({ run with state }, ⟨payload, signature⟩, s)

/-- The state after a result that may be uncertain. -/
def conclude (run : Run) (attempt : Uuid) (uncertain success : Bool) : Except Fault Run := do
  let state ← (if uncertain then run.state.uncertainResult attempt
    else run.state.result attempt success).state
  .ok { run with state }

/-- The outcome of a credential task. -/
def finish (run : Run) (attempt : Uuid) : Execution → Except Fault Run
  | .unknown => conclude run attempt true false
  | .succeeded => conclude run attempt false true
  | .failed => conclude run attempt false false
  | _ => .error .conflict

/-- Runs of the same target that were recovered along with a credential task. -/
def recoverOthers (run : Run) (s : Store D) : List (Uuid × Uuid × Bool) → Except Fault (Store D)
  | [] => .ok s
  | (id, attempt, applied) :: rest => do
      let original ← s.loadRun id
      if original.target ≠ run.target then .error .conflict
      else if original.state.execution = .unknown || original.state.execution = .running then do
        let state ← (original.state.result attempt applied).state
        recoverOthers run (s.saveRun { original with state }) rest
      else recoverOthers run s rest

/-- The evidence of a software task, with the times it was observed and received. -/
def softwareRun (run : Run) (attempt : Uuid) (a : EventAnswers D) : Except Fault Run := do
  if a.observedAt.any (fun at' => a.now.val < at'.val ||
      run.state.startedAt.all (fun start => at'.val < start.val)) then .error .malformed
  else do
    let trusted := run.state.startedAt.isSome && run.state.execution.unsettled
    let (answer, effect) := match trusted, a.assessment with
      | false, _ | _, .unknown => (run.state.uncertainResult attempt, SoftwareOutcome.unknown)
      | true, .rebootPending => (run.state.waitingReboot attempt, .waitingReboot)
      | true, .satisfied => (run.state.result attempt true, .verified)
      | true, .unsatisfied => (run.state.result attempt false, .failed)
    let state ← answer.state
    match a.observedAt with
    | none => .ok { run with state, result := some ⟨effect, none, some a.receivedAt⟩ }
    | some at' =>
        match at'.checkedMul ⟨1000000, by decide, by decide⟩ with
        | none => .error .malformed
        | some micros => .ok { run with state, result := some ⟨effect, some micros, some a.receivedAt⟩ }

def cancelRun (run : Run) (attempt : Uuid) (a : EventAnswers D) : Except Fault Run := do
  let state := run.state.cancel
  let state ← (if run.kind = .deviceAccess && state.startedAt.isSome && a.uncertain
    then state.uncertainResult attempt else state.cancelled attempt).state
  .ok { run with state }

def handle (s : Store D) (run : Run) (input : TaskEventRequest D) (a : EventAnswers D)
    (effectAllowed : Bool) : Except Fault (Run × Option (SignedTask D) × Store D) :=
  let plain (run : Except Fault Run) : Except Fault (Run × Option (SignedTask D) × Store D) := do
    let run ← run
    .ok (run, none, s)
  let require (allowed : Bool) (refusal : Fault) (rest : Except Fault Run) : Except Fault Run :=
    if !allowed then .error refusal else do
      a.handled
      rest
  match input.event with
  | .deviceAccessPrepared _ =>
      plain (require (run.kind = .deviceAccess && unsettledStart run) .forbidden (.ok run))
  | .deviceAccessResult _ =>
      plain (require (run.kind = .deviceAccess && unsettledStart run) .forbidden
        (conclude run input.attemptId a.uncertain a.success))
  | .credentialEscrow _ =>
      plain (require ((run.kind = .credential || run.kind = .deviceAccess) && effectAllowed &&
          unsettledStart run) .forbidden
        (if run.state.trustsResult a.now then .ok run
          else conclude run input.attemptId true false))
  | .credentialResult _ =>
      if !(run.kind = .credential && effectAllowed && unsettledStart run) then .error .forbidden
      else do
        a.handled
        let s ← recoverOthers run s a.recovered
        let run ← finish run input.attemptId a.finished
        .ok (run, none, s)
  | .unmanageResult outcome =>
      plain (require (run.kind = .retirement) .malformed
        (conclude run input.attemptId (outcome = .unknown) (outcome = .completed)))
  | .enrollmentResult outcome =>
      plain (require (run.kind = .enrollment) .malformed
        (conclude run input.attemptId (outcome = .unknown) (outcome = .opened)))
  | .received => plain do
      let state ← (run.state.received input.attemptId a.now).state
      a.handled
      .ok { run with state }
  | .start => do
      let (run, permit, s) ← startRun g s run input a
      .ok (run, some permit, s)
  | .cancelled => plain (require true .conflict (cancelRun run input.attemptId a))
  | .result _ | .chunkedResult _ =>
      plain (require (run.kind = .script) .malformed
        (conclude run input.attemptId false a.success))
  | .collectionResult _ | .chunkedCollectionResult _ =>
      plain (require (run.kind = .agentCollection) .malformed
        (conclude run input.attemptId false true))
  | .outputChunk _ => plain (require true .malformed (.ok run))
  | .softwareResult _ =>
      plain (require run.kind.isSoftware .malformed (softwareRun run input.attemptId a))

/-- A kept answer to `Start` is given again only while its run runs under that permit. -/
def replayStart (run : Run) (input : TaskEventRequest D) (a : EventAnswers D) : Except Fault Unit :=
  if !input.event.isStart then .ok ()
  else if run.deadline.val ≤ a.now.val || run.state.cancellation ≠ .none ||
      run.state.attempt ≠ some input.attemptId || run.state.execution ≠ .running then
    .error .conflict
  else if a.withdrawn || !a.authorized then .error .forbidden
  else .ok ()

/-- The checks of an event before its receipt is looked up. -/
def admitEvent (s : Store D) (p : Target) (id : Uuid) (a : EventAnswers D) : Except Fault Run := do
  a.admitted
  let run ← s.loadRun id
  belongs run p
  a.planned
  .ok run

def allows (run : Run) (event : TaskEvent D) (a : EventAnswers D) : Bool :=
  if event.isDelivery || run.state.startedAt.isNone then a.authorized else a.completion

def escrowed (event : TaskEvent D) (a : EventAnswers D) : List D.Coordinate :=
  match event with
  | .credentialEscrow _ => a.credentials
  | _ => []

def recordIn (s : Store D) (run : Run) (input : TaskEventRequest D) (a : EventAnswers D) :
    Except Fault (TaskEventAck D × Store D) :=
  let allowed := allows run input.event a
  let effectAllowed := allowed && run.state.cancellation = .none
  if input.event.isDelivery && !allowed then .error .forbidden
  else if run.state.attempt ≠ some input.attemptId then .error .conflict
  else do
    let (run, permit, s) ← handle g s run input a effectAllowed
    .ok (⟨permit, !allowed || run.state.cancellation ≠ .none, escrowed input.event a⟩, s.saveRun run)

def eventIn (s : Store D) (p : Target) (id : Uuid) (input : TaskEventRequest D) (a : EventAnswers D) :
    Except Fault (Response D × Store D) := do
  let run ← admitEvent s p id a
  let key := toLex (p.registration, input.operationId)
  let hash := g.fingerprint (.event id input)
  match ← s.replay key hash with
  | some response => do
      replayStart run input a
      .ok (response, s)
  | none => do
      let (ack, s) ← recordIn g s run input a
      let s ← s.receipt key hash (.acknowledged ack)
      .ok (.acknowledged ack, s)

/-- A transaction that fails leaves the store as it was. -/
def settle {α : Type} (s : Store D) (decode : Response D → Except Fault α) :
    Except Fault (Response D × Store D) → Except Fault α × Store D
  | .ok (response, s') => (decode response, s')
  | .error e => (.error e, s)

def claimAction (s : Store D) (p : Target) (input : TaskClaimRequest D) (a : PollAnswers D) :
    Except Fault (TaskClaimResponse D) × Store D :=
  settle s (fun | .claimed response => .ok response | .acknowledged _ => .error .unavailable)
    (claimIn g tz t s p input a)

def actionEvent (s : Store D) (p : Target) (id : Uuid) (input : TaskEventRequest D)
    (a : EventAnswers D) : Except Fault (TaskEventAck D) × Store D :=
  settle s (fun | .acknowledged ack => .ok ack | .claimed _ => .error .unavailable)
    (eventIn g s p id input a)

end RssMdm.Actions
