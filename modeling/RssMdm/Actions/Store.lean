/- module: Actions/Store
   source: crates/execution-service/src/actions/storage.rs
   digest: The runs, attempts, receipts and poll cursors of one tenant, and the operations on them. -/

import Mathlib.Data.Prod.Lex
import RssMdm.Actions.RunState
import RssMdm.Lib.OrdMap

set_option autoImplicit false

namespace RssMdm.Actions

open Lib Lib.Int64
open Policy (Uuid SoftwareChannel)

/-- Ids are ordered as unsigned numbers. -/
instance : LinearOrder Uuid where
  le := (· ≤ ·)
  lt := (· < ·)
  le_refl := BitVec.le_refl
  le_trans _ _ _ := BitVec.le_trans
  lt_iff_le_not_ge a b := by
    simp only [BitVec.lt_def, BitVec.le_def]
    omega
  le_antisymm _ _ below above := BitVec.le_antisymm below above
  le_total a b := by
    simp only [BitVec.le_def]
    omega
  toDecidableEq := inferInstance
  toDecidableLE := inferInstance
  toDecidableLT := inferInstance

/-- Why a request was refused; `missingTask` is the execution error of `load_run`. -/
inductive Fault where
  | malformed | conflict | notFound | unauthorized | forbidden | unsupported | missingTask | unavailable
deriving DecidableEq

def Fault.ofState : Error → Fault
  | .malformed => .malformed
  | .conflict => .conflict
  | .unauthorized => .unauthorized
  | .forbidden => .forbidden

/-- The state a call leaves, or its refusal. -/
def Answer.state : Answer → Except Fault RunState
  | (.ok (), s) => .ok s
  | (.error e, _) => .error (.ofState e)

structure Target where
  device : String
  registration : Uuid
  generation : I64
deriving DecidableEq

/-- The plan behind a run; software is installed by the Agent or through the MDM channel. -/
inductive Kind where
  | deviceAccess | retirement | credential | agentCollection | script | native | software
  | mdmSoftware | enrollment
deriving DecidableEq

def Kind.isSoftware : Kind → Bool
  | .software | .mdmSoftware => true
  | _ => false

/-- Whether an Agent can be capable of it at all. -/
def Kind.byAgent : Kind → Bool
  | .native | .mdmSoftware => false
  | _ => true

inductive EffectTarget where
  | device
  | user (identity : String)
deriving DecidableEq

inductive EffectIntent where
  | install | uninstall
deriving DecidableEq

/-- The effect a software run has on its target, as `software_effect` stores it. -/
structure Effect where
  channel : SoftwareChannel
  generation : I64
  resource : String
  version : String
  digest : List UInt8
  intent : EffectIntent
  target : EffectTarget
  packages : List String
  packageVersions : List (String × String)
deriving DecidableEq

/-- What a run is an occurrence of; the software ones name the rollout stage they were admitted in. -/
inductive OccurrenceKey where
  | desired (stage registration : Uuid) (attempts : Nat)
  | selfService (stage request : Uuid)
  | event (stage request : Uuid)
  | waiting (request : Uuid)
  | other (text : String)
deriving DecidableEq

/-- `LIKE 'software:stage:{stage}:%'`. -/
def OccurrenceKey.inStage (stage : Uuid) : OccurrenceKey → Bool
  | .desired s _ _ | .selfService s _ | .event s _ => s = stage
  | .waiting _ | .other _ => false

/-- `not_started` is the protocol's own answer. -/
inductive SoftwareOutcome where
  | verified | failed | unknown | waitingReboot | notStarted
deriving DecidableEq

structure SoftwareResult where
  effect : SoftwareOutcome
  observedAt : Option I64
  receivedAt : Option I64
deriving DecidableEq

/-- The invocation of a self-service run; it waits for its scope and its rollout while they are
pending. -/
structure Invocation where
  request : Uuid
  pendingScope : Option Uuid
  executionTarget : Bool
deriving DecidableEq

structure Run where
  id : Uuid
  kind : Kind
  policyVersion : Uuid
  target : Target
  occurrence : OccurrenceKey
  createdAt : I64
  availableAt : I64
  deadline : I64
  gatewayAccepted : Bool
  invocation : Option Invocation
  effect : Option Effect
  result : Option SoftwareResult
  state : RunState
deriving DecidableEq

/-- The documents that pass through the protocol without being read by it. -/
structure Documents where
  /-- What a poll tells about the Agent: its profiles, environment and execution context. -/
  Report : Type
  /-- What an event reports. -/
  Evidence : Type
  /-- A task without its coordinates. -/
  Content : Type
  /-- Where escrowed material is kept. -/
  Coordinate : Type
  /-- What is kept of a task as evidence of its execution. -/
  Material : Type
  [contentEq : DecidableEq Content]

attribute [instance] Documents.contentEq

inductive TaskPermit where
  | offer | start
deriving DecidableEq

structure TaskPayload (D : Documents) where
  taskId : Uuid
  attemptId : Uuid
  permit : TaskPermit
  expiresAt : I64
  content : D.Content

instance (D : Documents) : DecidableEq (TaskPayload D) := fun a b =>
  decidable_of_iff (a.taskId = b.taskId ∧ a.attemptId = b.attemptId ∧ a.permit = b.permit ∧
    a.expiresAt = b.expiresAt ∧ a.content = b.content) (by
    cases a
    cases b
    simp)

structure SignedTask (D : Documents) where
  payload : TaskPayload D
  signature : List UInt8

/-- A row of `action_attempts`. -/
structure Attempt (D : Documents) where
  run : Uuid
  registration : Uuid
  claimedAt : I64
  offer : SignedTask D
  permit : Option (SignedTask D)
  material : Option D.Material

structure TaskCancellation where
  taskId : Uuid
  attemptId : Uuid
deriving DecidableEq

structure TaskClaimResponse (D : Documents) where
  task : Option (SignedTask D)
  cancellations : List TaskCancellation

structure TaskEventAck (D : Documents) where
  permit : Option (SignedTask D)
  cancelRequested : Bool
  credentials : List D.Coordinate

/-- The answers that receipts keep. -/
inductive Response (D : Documents) where
  | claimed (response : TaskClaimResponse D)
  | acknowledged (ack : TaskEventAck D)

structure Receipt (D : Documents) where
  fingerprint : List UInt8
  response : Response D

/-- Receipts are kept for each actor, here a registration, and operation id. -/
abbrev ReceiptKey : Type := Lex (Uuid × Uuid)

/-- The tables of a tenant; runs are kept under their own ids. -/
@[ext] structure Store (D : Documents) where
  runs : OrdMap Uuid Run
  attempts : OrdMap Uuid (Attempt D)
  receipts : OrdMap ReceiptKey (Receipt D)
  cancellationAfter : OrdMap Uuid (Option Uuid)
  keyed : ∀ id run, runs.get? id = some run → run.id = id

variable {D : Documents}

def Store.empty : Store D :=
  { runs := .empty, attempts := .empty, receipts := .empty, cancellationAfter := .empty
    keyed := by
      intro id run stored
      rw [OrdMap.get?_empty] at stored
      cases stored }

namespace Store

def loadRun (s : Store D) (id : Uuid) : Except Fault Run :=
  match s.runs.get? id with
  | some run => .ok run
  | none => .error .missingTask

/-- The row of a run is rewritten; `save_run` and the other updates of `action_runs` do no more. -/
def saveRun (s : Store D) (run : Run) : Store D :=
  { s with
    runs := s.runs.insert run.id run
    keyed := by
      intro id found stored
      rw [OrdMap.get?_insert] at stored
      split at stored
      · rename_i same
        rw [← Option.some.inj stored]
        exact same.symm
      · exact s.keyed id found stored }

/-- `replay`: the kept answer of the same request; another request under its id conflicts. -/
def replay (s : Store D) (key : ReceiptKey) (fingerprint : List UInt8) :
    Except Fault (Option (Response D)) :=
  match s.receipts.get? key with
  | none => .ok none
  | some kept => if kept.fingerprint ≠ fingerprint then .error .conflict else .ok (some kept.response)

/-- `receipt`: the primary key refuses a second one. -/
def receipt (s : Store D) (key : ReceiptKey) (fingerprint : List UInt8) (response : Response D) :
    Except Fault (Store D) :=
  if s.receipts.contains key then .error .unavailable
  else .ok { s with receipts := s.receipts.insert key ⟨fingerprint, response⟩ }

/-- A new row of `action_attempts`; its primary key refuses an id that was used before. -/
def insertAttempt (s : Store D) (id : Uuid) (row : Attempt D) : Except Fault (Store D) :=
  if s.attempts.contains id then .error .unavailable
  else .ok { s with attempts := s.attempts.insert id row }

def offerOf (s : Store D) (attempt run : Uuid) : Except Fault (SignedTask D) :=
  match (s.attempts.get? attempt).filter (fun row => row.run = run) with
  | some row => .ok row.offer
  | none => .error .unavailable

/-- `SET permit … WHERE id AND permit IS NULL`, which has to change one row. -/
def setPermit (s : Store D) (attempt : Uuid) (permit : SignedTask D) : Except Fault (Store D) :=
  match s.attempts.get? attempt with
  | none => .error .conflict
  | some row =>
      if row.permit.isSome then .error .conflict
      else .ok { s with attempts := s.attempts.insert attempt { row with permit := some permit } }

structure RunInput where
  id : Uuid
  kind : Kind
  policyVersion : Uuid
  target : Target
  occurrence : OccurrenceKey
  available : I64
  deadline : I64
  invocation : Option Invocation

/-- The unique keys of `action_runs`. -/
def taken (s : Store D) (input : RunInput) : Bool :=
  s.runs.contains input.id || s.runs.values.any (fun run =>
    run.policyVersion = input.policyVersion && run.occurrence = input.occurrence &&
      run.target.device = input.target.device)

/-- The checks of `action_runs` on its times and its generation. -/
def columnsValid (input : RunInput) (now : I64) : Bool :=
  0 ≤ input.available.val && input.available.val < input.deadline.val && 0 ≤ now.val &&
    0 < input.target.generation.val

def queueRunIn (s : Store D) (input : RunInput) (now : I64) : Except Fault (Store D) := do
  let state ← (RunState.new input.deadline now).mapError Fault.ofState
  if !columnsValid input now || s.taken input then .error .unavailable
  else
    .ok (s.saveRun
      { id := input.id, kind := input.kind, policyVersion := input.policyVersion,
        target := input.target, occurrence := input.occurrence, createdAt := now,
        availableAt := input.available, deadline := input.deadline, gatewayAccepted := false,
        invocation := input.invocation, effect := none, result := none, state })

end Store

end RssMdm.Actions
