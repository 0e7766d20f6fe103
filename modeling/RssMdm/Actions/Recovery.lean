/- module: Actions/Recovery
   source: crates/execution-service/src/actions/recovery.rs, actions/native_software.rs,
     src/retirement.rs
   digest: What else writes runs: recovery, the protocol's own software channel, retirement and the
   dispatcher; and the service as one sequence of calls. -/

import RssMdm.Actions.Agent

set_option autoImplicit false

namespace RssMdm.Actions

open RssMdm.Lib RssMdm.Lib.Int64
open RssMdm.Policy (Uuid TimeZones)
open Software (SoftwarePolicy SlotAnswers RequestAnswers Associations)

/-- The protocol operation of a software run. -/
structure NativeOperation where
  dispatched : Bool
  /-- The command failed, was rejected, expired or was cancelled. -/
  ended : Bool
  /-- The command ended or was applied, or the device acknowledged it. -/
  reported : Bool
  /-- The latest observation shows the installed version. -/
  verified : Bool
  loaded : Except Fault Unit
  receivedAt : I64

structure RecoverAnswers where
  now : I64
  planned : Except Fault Unit
  stale : Bool
  withdrawn : Bool
  mdmEnabled : Bool
  operation : Option NativeOperation
  eligible : Bool
  queued : Except Fault Unit

theorem million_lo : -2 ^ 63 ≤ (1000000 : Int) := by decide

theorem million_hi : (1000000 : Int) < 2 ^ 63 := by decide

def observeNative (run : Run) (op : NativeOperation) (a : RecoverAnswers) : Except Fault Run :=
  if !op.dispatched && (run.state.cancellation ≠ .none || !a.mdmEnabled ||
      run.deadline.val ≤ a.now.val || op.ended) then
    .ok { run with
      state := { run.state with execution := .notStarted, cancellation := .confirmed }
      result := some ⟨.notStarted, none, none⟩ }
  else do
    op.loaded
    if op.verified then do
      let state ← (run.state.result run.id true).state
      match a.now.checkedMul ⟨1000000, million_lo, million_hi⟩ with
      | none => .error .malformed
      | some micros =>
          .ok { run with state, result := some ⟨.verified, some micros, some op.receivedAt⟩ }
    else if op.reported && (run.state.execution = .running || run.state.execution = .unknown) then do
      -- An acknowledgement does not prove what is installed.
      let state ← (run.state.uncertainResult run.id).state
      .ok { run with state, result := some ⟨.unknown, none, none⟩ }
    else .ok run

/-- Sending the operation of a run is its claim, its receipt and its start. -/
def beginNative (run : Run) (a : RecoverAnswers) : Except Fault Run :=
  if run.state.execution ≠ .notStarted || run.state.cancellation ≠ .none ||
      a.now.val < run.availableAt.val || run.deadline.val ≤ a.now.val || !a.mdmEnabled ||
      !run.gatewayAccepted || !a.eligible then .ok run
  else do
    a.queued
    let state ← (run.state.claim run.id a.now).state
    let state ← (state.received run.id a.now).state
    let state ← (state.start run.id a.now).state
    .ok { run with state }

/-- `native_software::advance_run`, for runs of the MDM channel. -/
def advanceRun (run : Run) (a : RecoverAnswers) : Except Fault Run :=
  if run.kind ≠ .mdmSoftware then .ok run
  else
    match a.operation with
    | some op => observeNative run op a
    | none => beginNative run a

/-- A run past its deadline, and a request to cancel what never started. -/
def RunState.lapse (state : RunState) (now : I64) : RunState :=
  let state := state.expire now
  if state.execution = .notStarted && state.cancellation = .requested then state.cancel else state

variable {D : Documents} {Zone : Type} (g : Signing D) (tz : TimeZones Zone) (t : Associations)

/-- Native collections are recovered by the collection protocol, which has no attempts of an Agent
and no software effects. -/
def recoverOne (s : Store D) (id : Uuid) (a : RecoverAnswers) : Except Fault (Store D) := do
  let run ← s.loadRun id
  a.planned
  if run.kind = .native then .ok s
  else do
    let state := if a.stale || a.withdrawn then run.state.cancel else run.state
    let run ← advanceRun { run with state } a
    .ok (s.saveRun { run with state := run.state.lapse a.now })

/-- A retired registration cancels what it left open. -/
def retire (s : Store D) (id : Uuid) : Except Fault (Store D) := do
  let run ← s.loadRun id
  if run.state.cancellation = .none &&
      (run.state.execution = .notStarted || run.state.execution.unsettled) then
    .ok (s.saveRun { run with state := run.state.cancel })
  else .ok s

def acceptActionDispatch (s : Store D) (id : Uuid) : Except Fault (Store D) := do
  let run ← s.loadRun id
  .ok (s.saveRun { run with gatewayAccepted := true })

inductive Call (D : Documents) where
  | claimAction (p : Target) (input : TaskClaimRequest D) (answers : PollAnswers D)
  | actionEvent (p : Target) (task : Uuid) (input : TaskEventRequest D) (answers : EventAnswers D)
  | acceptForDevice (policy : SoftwarePolicy) (target : Target) (now : I64) (id : Uuid)
      (answers : SlotAnswers)
  | acceptEvent (policy : SoftwarePolicy) (target : Target) (now deadline : I64) (request : Uuid)
      (answers : SlotAnswers)
  | acceptSelfService (policy : SoftwarePolicy) (target : Target) (now : I64) (id request : Uuid)
      (answers : RequestAnswers)
  | queueRun (input : Store.RunInput) (now : I64)
  | acceptDispatch (id : Uuid)
  | recover (id : Uuid) (answers : RecoverAnswers)
  | retire (id : Uuid)

def Call.now : Call D → Option I64
  | .claimAction _ _ answers => some answers.now
  | .actionEvent _ _ _ answers => some answers.now
  | .acceptForDevice _ _ now _ _ => some now
  | .acceptEvent _ _ now _ _ _ => some now
  | .acceptSelfService _ _ now _ _ _ => some now
  | .queueRun _ now => some now
  | .acceptDispatch _ => none
  | .recover _ answers => some answers.now
  | .retire _ => none

/-- What a call answers and the store it leaves; only the Agent's requests have a response. -/
abbrev Outcome (D : Documents) : Type := Except Fault (Option (Response D)) × Store D

def settled (s : Store D) : Except Fault (Store D) → Outcome D
  | .ok s' => (.ok none, s')
  | .error e => (.error e, s)

namespace Store

def apply (s : Store D) : Call D → Outcome D
  | .claimAction p input answers =>
      let (response, s') := claimAction g tz t s p input answers
      (response.map (fun r => some (.claimed r)), s')
  | .actionEvent p task input answers =>
      let (response, s') := actionEvent g s p task input answers
      (response.map (fun r => some (.acknowledged r)), s')
  | .acceptForDevice policy target now id answers =>
      settled s (Software.acceptForDevice tz t s policy target now id answers)
  | .acceptEvent policy target now deadline request answers =>
      settled s (Software.acceptEvent tz t s policy target now deadline request answers)
  | .acceptSelfService policy target now id request answers =>
      settled s (Software.acceptSelfService tz t s policy target now id request answers)
  | .queueRun input now => settled s (s.queueRunIn input now)
  | .acceptDispatch id => settled s (acceptActionDispatch s id)
  | .recover id answers => settled s (recoverOne s id answers)
  | .retire id => settled s (Actions.retire s id)

def after (s : Store D) (calls : List (Call D)) : Store D :=
  calls.foldl (fun s call => (s.apply g tz t call).2) s

end Store

end RssMdm.Actions
