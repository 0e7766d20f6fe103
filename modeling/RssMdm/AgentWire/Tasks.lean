/- module: AgentWire/Tasks
   source: crates/agent-wire/src/tasks.rs
   digest: Process diagnostics and the coherent, bounded result of one task. -/

import RssMdm.AgentWire.TaskTrust
import RssMdm.Lib.Int64

set_option autoImplicit false

namespace RssMdm.AgentWire

open Lib
open Lib.Int64 (I64)
open Lib.Text (asBytes asBytes_length)

/-- The JSON writer and reader the wire forms go through. -/
structure Codec (Value : Type) where
  toVec : Value → Option (List UInt8)
  fromSlice : List UInt8 → Option Value
  null : Value

/-- What is written is read back, and `null` is four letters. -/
structure Codec.Faithful {Value : Type} (codec : Codec Value) : Prop where
  fromSlice_toVec : ∀ value bytes, codec.toVec value = some bytes → codec.fromSlice bytes = some value
  toVec_null : codec.toVec codec.null = some (asBytes "null")

inductive OutputQuality where
  | complete | partialCapture | truncated | failed
deriving DecidableEq

inductive TaskFailure where
  | launchFailed | timedOut | cancelled | nonZeroExit | outputLimit | captureFailed
deriving DecidableEq

def maxTaskDiagnosticBytes : Nat := 16 * 1024

def maxTaskDurationMs : Nat := 604800000

structure DiagnosticsInput where
  stdout : String
  stderr : String
  durationMs : UInt64
  executedAt : I64
  failure : Option TaskFailure
deriving DecidableEq

def DiagnosticsInput.refused (v : DiagnosticsInput) : Bool :=
  v.stdout.utf8ByteSize > maxTaskDiagnosticBytes || v.stderr.utf8ByteSize > maxTaskDiagnosticBytes ||
    v.stdout.toList.contains '\x00' || v.stderr.toList.contains '\x00' ||
    v.durationMs.toNat > maxTaskDurationMs || v.executedAt.val < 1

@[ext] structure TaskDiagnostics where
  input : DiagnosticsInput
  accepted : input.refused = false
deriving DecidableEq

/-- Maximum canonical structured output of one execution. -/
def outputMaxBytes : Nat := 16 * 1024 * 1024

structure ResultInput (Value : Type) where
  exitCode : Option Int32
  quality : OutputQuality
  output : Value
  diagnostics : TaskDiagnostics
  collectedAt : I64

variable {Value : Type}

def qualityIsCoherent (exitCode : Option Int32) (failure : Option TaskFailure) :
    OutputQuality → Bool
  | .complete => exitCode == some 0 && failure.isNone
  | .failed => failure.isSome
  | .truncated => failure == some .outputLimit
  | .partialCapture => true

def failureIsCoherent (exitCode : Option Int32) : Option TaskFailure → Bool
  | some .nonZeroExit => exitCode.any (fun code => code != 0)
  | some .launchFailed => exitCode.isNone
  | _ => true

/-- What `new` refuses; output that cannot be written is refused as well. -/
def ResultInput.refused (codec : Codec Value) (v : ResultInput Value) : Bool :=
  v.collectedAt.val < v.diagnostics.input.executedAt.val ||
    !qualityIsCoherent v.exitCode v.diagnostics.input.failure v.quality ||
    !failureIsCoherent v.exitCode v.diagnostics.input.failure ||
    match codec.toVec v.output with
    | none => true
    | some bytes => bytes.length > outputMaxBytes

@[ext] structure TaskResult (codec : Codec Value) where
  input : ResultInput Value
  accepted : input.refused codec = false

def TaskResult.new (codec : Codec Value) (exitCode : Option Int32) (quality : OutputQuality)
    (output : Value) (diagnostics : TaskDiagnostics) (collectedAt : I64) :
    Except WireError (TaskResult codec) :=
  let v : ResultInput Value := ⟨exitCode, quality, output, diagnostics, collectedAt⟩
  if h : v.refused codec = true then .error .invalidValue else .ok ⟨v, Bool.eq_false_iff.mpr h⟩

theorem TaskResult.new_eq_ok {codec : Codec Value} {exitCode : Option Int32}
    {quality : OutputQuality} {output : Value} {diagnostics : TaskDiagnostics} {collectedAt : I64}
    {r : TaskResult codec} :
    TaskResult.new codec exitCode quality output diagnostics collectedAt = .ok r ↔
      r.input = ⟨exitCode, quality, output, diagnostics, collectedAt⟩ := by
  rw [TaskResult.new]
  constructor
  · intro h
    split at h
    · cases h
    · cases h
      rfl
  · intro same
    have passed : ¬(⟨exitCode, quality, output, diagnostics, collectedAt⟩ :
        ResultInput Value).refused codec = true := by
      rw [← same]
      exact Bool.eq_false_iff.mp r.accepted
    rw [dif_neg passed]
    exact congrArg Except.ok (TaskResult.ext same.symm)

theorem TaskResult.refused_output {codec : Codec Value} (r : TaskResult codec) {output : Value}
    {bytes : List UInt8} (written : codec.toVec output = some bytes)
    (fits : bytes.length ≤ outputMaxBytes) :
    ({ r.input with output := output } : ResultInput Value).refused codec = false := by
  have accepted := r.accepted
  simp only [ResultInput.refused, Bool.or_eq_false_iff] at accepted ⊢
  refine ⟨accepted.1, ?_⟩
  simp only [written]
  simpa using fits

end RssMdm.AgentWire
