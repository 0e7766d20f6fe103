/- module: Actions/Software
   source: crates/execution-service/src/actions/software.rs, src/self_service.rs,
     crates/device-service/src/planning.rs
   digest: Admission of software runs: the slot query over the effects on associated endpoints, and
   the two ways an effect is persisted. -/

import Mathlib.Data.List.Sort
import Mathlib.Data.String.Basic
import RssMdm.Actions.Store

set_option autoImplicit false

namespace RssMdm.Actions.Software

open Lib Lib.Int64
open Lib.Text (asBytes)
open Policy (Uuid SoftwareChannel SoftwareIntent Schedule TimeZones)

structure Member where
  device : String
  association : Uuid
  released : Bool
deriving DecidableEq

structure Association where
  id : Uuid
  revoked : Bool
deriving DecidableEq

/-- The device associations; they do not change while runs are admitted. -/
structure Associations where
  members : List Member
  associations : List Association

namespace Associations

/-- The join of the anchor's memberships with their associations and with their members. -/
def peers (t : Associations) (device : String) : List String :=
  (t.members.filter (fun anchor => anchor.device = device && !anchor.released)).flatMap fun anchor =>
    (t.associations.filter (fun a => a.id = anchor.association && !a.revoked)).flatMap fun a =>
      (t.members.filter (fun peer => peer.association = a.id && !peer.released)).map Member.device

def effectDevices (t : Associations) (device : String) : Except Fault (List String) :=
  let devices := ((t.peers device).insertionSort (· ≤ ·)).take 3
  if devices.length > 2 then .error .unavailable
  else .ok ((devices ++ [device]).insertionSort (· ≤ ·)).dedup

end Associations

inductive Invocation where
  | selfService (request : Uuid)
  | event (request : Uuid)
deriving DecidableEq

def Invocation.isSelfService : Option Invocation → Bool
  | some (.selfService _) => true
  | _ => false

def Invocation.isEvent : Option Invocation → Bool
  | some (.event _) => true
  | _ => false

structure Slot where
  occurrence : OccurrenceKey
  available : I64
  deadline : I64
  effect : Effect
  /-- How many steps were prepared; the protocol's own packages have none. -/
  steps : Nat

inductive Preparation where
  | ready (slot : Slot)
  | satisfied
  | waiting (seconds : Nat)
  | notEligible

/-- What an admission reads of its policy version. -/
structure SoftwarePolicy where
  id : Uuid
  channel : SoftwareChannel
  intent : SoftwareIntent
  stages : List Uuid
  schedule : Schedule
  runLifetimeSeconds : UInt32

def SoftwarePolicy.kind (policy : SoftwarePolicy) : Kind :=
  match policy.channel with
  | .agent => .software
  | .mdm => .mdmSoftware

/-- What the rest of the service answers to one admission. -/
structure SlotAnswers where
  /-- `entry_in`: the rollout stage that is open to the device. -/
  entry : Except Fault (Option Nat)
  /-- The effect of the prepared package or of the prepared steps, if the target is eligible. -/
  prepared : Except Fault (Option (Effect × Nat))
  /-- Whether the advisory locks of all associated endpoints were free. -/
  locked : Bool

/-- Effects on one target that share the resource or a package. -/
def conflicts (a b : Effect) : Bool :=
  a.target = b.target && (a.resource = b.resource || a.packages.any (fun p => b.packages.contains p))

variable {D : Documents} {Zone : Type} (tz : TimeZones Zone) (t : Associations)

/-- The `effects` of the slot query. -/
def effects (s : Store D) (devices : List String) (key : Effect) (existing : Option Uuid) : List Run :=
  s.runs.values.filter fun run =>
    devices.contains run.target.device && existing ≠ some run.id &&
      run.effect.any (fun effect => conflicts effect key)

/-- A run whose effect may still come or may have come. -/
def unresolved (now : I64) (run : Run) : Bool :=
  run.state.execution = .unknown || run.state.execution = .waitingReboot ||
    ((run.state.execution = .running ||
        (run.state.execution = .notStarted && now.val < run.deadline.val)) &&
      run.state.cancellation ≠ .confirmed)

/-- `a` was observed before `b`, or at the same time and received before it. -/
def observedBefore (a b : SoftwareResult) : Bool :=
  match a.observedAt, b.observedAt with
  | some x, some y =>
      x.val < y.val || (x = y && match a.receivedAt, b.receivedAt with
        | some u, some v => u.val < v.val
        | none, some _ => true
        | _, none => false)
  | _, _ => false

def latest (runs : List (Run × SoftwareResult)) : Option (Run × SoftwareResult) :=
  runs.foldl (fun best candidate =>
    match best with
    | some kept => if observedBefore kept.2 candidate.2 then some candidate else some kept
    | none => some candidate) none

def completed (generation : I64) (run : Run) : Option (Run × SoftwareResult) :=
  match run.effect, run.result with
  | some effect, some result =>
      if effect.generation = generation && (result.effect = .verified || result.effect = .failed) &&
          result.observedAt.isSome then some (run, result)
      else none
  | _, _ => none

/-- An equal effect, or the same intent for the target with all the package versions. -/
def covers (effect key : Effect) : Bool :=
  effect = key || (effect.target = key.target && effect.intent = key.intent &&
    !key.packageVersions.isEmpty &&
    key.packageVersions.all (fun version => effect.packageVersions.contains version))

def satisfied (runs : List Run) (key : Effect) : Bool :=
  match latest (runs.filterMap (completed key.generation)) with
  | some (run, result) => run.effect.any (fun effect => covers effect key) && result.effect = .verified
  | none => false

def repeated (runs : List Run) (version : Uuid) (key : Effect) : List Run :=
  runs.filter (fun run => run.effect = some key && run.policyVersion = version)

def lastCreated (runs : List Run) : Option I64 :=
  runs.foldl (fun best run =>
    match best with
    | some at' => if at'.val < run.createdAt.val then some run.createdAt else some at'
    | none => some run.createdAt) none

def scheduled {α : Type} : RssMdm.Policy.Decision α → Except Fault α
  | .ok a => .ok a
  | .error (.error .malformed) => .error .malformed
  | .error (.error .conflict) => .error .conflict
  | .error (.error .notFound) => .error .notFound
  | .error _ => .error .unavailable

theorem before_lo : -2 ^ 63 ≤ (-1 : Int) := by decide

theorem before_hi : (-1 : Int) < 2 ^ 63 := by decide

/-- The schedule coordinate of the admission, or why there is none yet. -/
def coordinate (policy : SoftwarePolicy) (target : Target) (request : Option Invocation) (now : I64)
    (last : Option I64) (failures : Nat) : Except Fault (Sum I64 Preparation) :=
  if Invocation.isEvent request then .ok (.inl now)
  else
    match policy.schedule.trigger with
    | .manual => .ok (if request.isSome then .inl now else .inr .notEligible)
    | .checkIn minimumSeconds =>
        let delay : Nat := minimumSeconds.toNat * 2 ^ min failures 3
        match last with
        | some at' =>
            if (now.saturatingSub at').val < delay then
              .ok (.inr (.waiting (at'.val + delay - now.val).toNat))
            else .ok (.inl now)
        | none => .ok (.inl now)
    | .registration => .ok (.inl now)
    | .once _ | .interval _ _ | .weekly _ _ _ => do
        let due ← scheduled (policy.schedule.due tz ⟨-1, before_lo, before_hi⟩ now
          (asBytes target.device))
        match due with
        | none => .ok (.inr .notEligible)
        | some due => .ok (.inl due.coordinate)

def earlier (a b : I64) : I64 := if a.val ≤ b.val then a else b

def later (a b : I64) : I64 := if a.val ≤ b.val then b else a

/-- When a run of the coordinate is available and when it ends. -/
def times (policy : SoftwarePolicy) (target : Target) (coordinate now : I64) :
    Except Fault (Option (I64 × I64)) := do
  let found ← scheduled (policy.schedule.occurrence tz coordinate (asBytes target.device))
  match found with
  | none => .ok none
  | some occurrence =>
      let available := later occurrence.availableAt now
      match available.checkedAdd (I64.ofUInt32 policy.runLifetimeSeconds) with
      | none => .error .malformed
      | some till =>
          let deadline := earlier (earlier till policy.schedule.endsAt) (occurrence.windowEnd.getD .max)
          .ok (if deadline.val ≤ available.val then none else some (available, deadline))

/-- Whether the occurrence is there already. -/
def present (s : Store D) (version : Uuid) (device : String) (key : OccurrenceKey)
    (existing : Option Uuid) : Bool :=
  s.runs.values.any (fun run => run.policyVersion = version && run.target.device = device &&
    run.occurrence = key && existing ≠ some run.id)

def active (s : Store D) (device : String) (now : I64) (existing : Option Uuid) : Nat :=
  s.runs.values.countP (fun run => run.target.device = device &&
    (run.state.execution = .notStarted || run.state.execution = .running) &&
    run.state.cancellation ≠ .confirmed && now.val < run.deadline.val && existing ≠ some run.id)

def occurrenceKey (stage : Uuid) (target : Target) (attempts : Nat) : Option Invocation → OccurrenceKey
  | some (.selfService request) => .selfService stage request
  | some (.event request) => .event stage request
  | none => .desired stage target.registration attempts

/-- The slot of an effect that nothing unresolved conflicts with. -/
def place (s : Store D) (policy : SoftwarePolicy) (target : Target) (request : Option Invocation)
    (now : I64) (existing : Option Uuid) (stage : Uuid) (key : Effect) (steps : Nat)
    (runs : List Run) : Except Fault Preparation := do
  let same := repeated runs policy.id key
  let staged := same.filter (fun run => run.occurrence.inStage stage)
  let failures := same.countP (fun run => run.result.any (fun result => result.effect = .failed))
  if failures ≥ 3 then .ok .notEligible
  else
    match ← coordinate tz policy target request now (lastCreated staged) failures with
    | .inr preparation => .ok preparation
    | .inl coordinate => do
        match ← times tz policy target coordinate now with
        | none => .ok .notEligible
        | some (available, deadline) =>
            let occurrence := occurrenceKey stage target staged.length request
            if active s target.device now existing ≥ 128 then .ok (.waiting 5)
            else if present s policy.id target.device occurrence existing then .ok .notEligible
            else .ok (.ready ⟨occurrence, available, deadline, key, steps⟩)

/-- The rollout stage of an admission; a self-service request takes the first one at once. -/
def stageOf (policy : SoftwarePolicy) (request : Option Invocation) : Option Nat → Option Nat
  | some stage => some stage
  | none => if Invocation.isSelfService request && !policy.stages.isEmpty then some 0 else none

def slotIn (s : Store D) (policy : SoftwarePolicy) (target : Target) (request : Option Invocation)
    (now : I64) (existing : Option Uuid) (a : SlotAnswers) : Except Fault Preparation := do
  let entry ← a.entry
  match stageOf policy request entry with
  | none => .ok .notEligible
  | some stage => do
      let prepared ← a.prepared
      match prepared with
      | none => .ok .notEligible
      | some (key, steps) => do
          let devices ← t.effectDevices target.device
          if !a.locked then .error .unavailable
          else
            match policy.stages[stage]? with
            | none => .error .unavailable
            | some scope =>
                let runs := effects s devices key existing
                let pending := runs.any (unresolved now)
                if satisfied runs key && !pending then .ok .satisfied
                else if pending then .ok (.waiting 5)
                else place tz s policy target request now existing scope key steps runs

/-- `SET software_effect … WHERE software_effect IS NULL`. -/
def persistEffectIn (s : Store D) (run : Uuid) (effect : Effect) : Store D :=
  match s.runs.get? run with
  | some row => if row.effect.isNone then s.saveRun { row with effect := some effect } else s
  | none => s

def admitSlot (s : Store D) (policy : SoftwarePolicy) (target : Target)
    (invocation : Option Actions.Invocation) (now : I64) (id : Uuid) (slot : Slot) (deadline : I64) :
    Except Fault (Store D) := do
  let s ← s.queueRunIn ⟨id, policy.kind, policy.id, target, slot.occurrence, slot.available, deadline,
    invocation⟩ now
  .ok (persistEffectIn s id slot.effect)

def acceptForDevice (s : Store D) (policy : SoftwarePolicy) (target : Target) (now : I64) (id : Uuid)
    (a : SlotAnswers) : Except Fault (Store D) :=
  if policy.intent = .availableInstall then .ok s
  else do
    let preparation ← slotIn tz t s policy target none now none a
    match preparation with
    | .ready slot => admitSlot s policy target none now id slot slot.deadline
    | _ => .ok s

/-- A policy event: its own end may come before that of the slot. -/
def acceptEvent (s : Store D) (policy : SoftwarePolicy) (target : Target) (now deadline : I64)
    (request : Uuid) (a : SlotAnswers) : Except Fault (Store D) := do
  let preparation ← slotIn tz t s policy target (some (.event request)) now none a
  match preparation with
  | .ready slot =>
      let till := earlier slot.deadline deadline
      if till.val ≤ slot.available.val then .ok s
      else admitSlot s policy target none now request slot till
  | _ => .ok s

structure RequestAnswers extends SlotAnswers where
  supported : Bool
  admissible : Bool
  pendingScope : Option Uuid

/-- A self-service request for available software. Where the Agent does not support it yet, the
run is queued without an effect and waits. -/
def acceptSelfService (s : Store D) (policy : SoftwarePolicy) (target : Target) (now : I64)
    (id request : Uuid) (a : RequestAnswers) : Except Fault (Store D) :=
  if policy.intent ≠ .availableInstall then .error .conflict
  else if !a.supported then
    if !a.admissible then .error .forbidden
    else if active s target.device now none ≥ 128 ||
        present s policy.id target.device (.waiting request) none then .error .conflict
    else do
      match ← times tz policy target now now with
      | none => .error .conflict
      | some (available, deadline) =>
          s.queueRunIn ⟨id, policy.kind, policy.id, target, .waiting request, available, deadline,
            some ⟨request, a.pendingScope, false⟩⟩ now
  else do
    let preparation ← slotIn tz t s policy target (some (.selfService request)) now none a.toSlotAnswers
    match preparation with
    | .ready slot =>
        if slot.steps = 0 then .error .malformed
        else admitSlot s policy target (some ⟨request, a.pendingScope, true⟩) now id slot slot.deadline
    | _ => .error .conflict

structure WaitingAnswers extends SlotAnswers where
  /-- The pending scope admits the device now, its rollout is open and there is evidence for it. -/
  admitted : Bool
  bound : Bool
  supported : Bool

def advanceWaitingIn (s : Store D) (run : Run) (policy : SoftwarePolicy) (a : WaitingAnswers) :
    Except Fault (Bool × Run × Store D) :=
  match run.invocation with
  | none => .ok (true, run, s)
  | some invocation =>
      if invocation.pendingScope.isSome && !a.admitted then .ok (false, run, s)
      else
        let invocation := { invocation with pendingScope := none }
        if run.kind.isSoftware && run.effect.isNone then
          if !a.bound || !a.supported then .ok (false, run, s)
          else do
            -- The run was created earlier; its own row is not one of the others.
            let preparation ← slotIn tz t s policy run.target (some (.selfService invocation.request))
              run.createdAt (some run.id) a.toSlotAnswers
            match preparation with
            | .ready slot =>
                if slot.steps = 0 then .error .malformed
                else
                  let run := { run with
                    invocation := some { invocation with executionTarget := true }
                    effect := some slot.effect }
                  .ok (true, run, s.saveRun run)
            | _ => .ok (false, run, s)
        else
          let run := { run with invocation := some invocation }
          .ok (true, run, s.saveRun run)

end RssMdm.Actions.Software
