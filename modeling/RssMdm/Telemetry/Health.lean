/- module: Telemetry/Health
   source: crates/telemetry-service/src/retention.rs, maintenance.rs, query.rs
   digest: The documents that maintenance stores for a retention target, and the health read that decodes
   them. -/

import Mathlib.Data.List.Sort
import RssMdm.Lib.Json
import RssMdm.Telemetry.Retention

set_option autoImplicit false

namespace RssMdm.Telemetry.Health

open Lib.Fallible Lib.Json Lib.Rows
open Lib.Text (parseI64)

section

/-- Why the backend does not take a step. -/
inductive MaintenanceBlock where
  | pendingWrite | cutoff | dirtySummary | restoreWindow | replayGuarantee | streamOpen | retainedData
deriving DecidableEq

def MaintenanceBlock.asStr : MaintenanceBlock → String
  | .pendingWrite => "PendingWrite"
  | .cutoff => "Cutoff"
  | .dirtySummary => "DirtySummary"
  | .restoreWindow => "RestoreWindow"
  | .replayGuarantee => "ReplayGuarantee"
  | .streamOpen => "StreamOpen"
  | .retainedData => "RetainedData"

def MaintenanceBlock.all : List MaintenanceBlock :=
  [.pendingWrite, .cutoff, .dirtySummary, .restoreWindow, .replayGuarantee, .streamOpen, .retainedData]

def MaintenanceBlock.parse (text : String) : Option MaintenanceBlock :=
  MaintenanceBlock.all.find? (fun reason => reason.asStr = text)

/-- The identifiers that the backend library accepts. -/
class Identifiers where
  valid : String → Bool

variable [Identifiers]

structure Id where
  text : String
  valid : Identifiers.valid text = true

def Id.new (text : String) : Option Id :=
  if h : Identifiers.valid text = true then some ⟨text, h⟩ else none

/-- Product continuation framing over the maintenance result. -/
inductive Progress where
  | more (processed : UInt32) (next : String)
  | complete (processed : UInt32) (fence : Id)
  | blocked (reason : MaintenanceBlock)

def count (n : UInt32) : Json := .number (decimal n.toNat)

def Progress.encode : Progress → Json
  | .more processed next =>
      .object [("state", .string "more"), ("processed", count processed), ("next", .string next)]
  | .complete processed fence =>
      .object [("state", .string "complete"), ("processed", count processed), ("fence", .string fence.text)]
  | .blocked reason => .object [("state", .string "blocked"), ("reason", .string reason.asStr)]

def readText : Option Json → Option String
  | some (.string text) => some text
  | _ => none

def readU32 : Option Json → Option UInt32
  | some (.number text) =>
      match parseI64 (String.ofList text) with
      | some n => if 0 ≤ n ∧ n < 2 ^ 32 then some (UInt32.ofNat n.toNat) else none
      | none => none
  | _ => none

/-- `deny_unknown_fields`. -/
def only (names : List String) (members : List (String × Json)) : Option Unit :=
  if members.all (fun m => m.1 ∈ names) then some () else none

/-- Every document that is written is an object with distinct members. -/
def Progress.decode : Json → Option Progress
  | .object members => do
      let state ← readText (members.lookup "state")
      if state = "more" then do
        only ["state", "processed", "next"] members
        let processed ← readU32 (members.lookup "processed")
        let next ← readText (members.lookup "next")
        some (.more processed next)
      else if state = "complete" then do
        only ["state", "processed", "fence"] members
        let processed ← readU32 (members.lookup "processed")
        let fence ← readText (members.lookup "fence")
        let fence ← Id.new fence
        some (.complete processed fence)
      else if state = "blocked" then do
        only ["state", "reason"] members
        let reason ← readText (members.lookup "reason")
        let reason ← MaintenanceBlock.parse reason
        some (.blocked reason)
      else none
  | _ => none

end

section

variable [Identifiers]

/-- What the backend reports; its continuation is verified against the request. -/
inductive MaintenanceProgress where
  | blocked (reason : MaintenanceBlock)
  | more (processed : UInt32) (next : Except Fault String)
  | complete (processed : UInt32) (fence : Id)

inductive Outcome where
  | unknown
  | accepted (progress : MaintenanceProgress)
  | replay (progress : MaintenanceProgress)

def Outcome.progress : Outcome → Option MaintenanceProgress
  | .unknown => none
  | .accepted progress => some progress
  | .replay progress => some progress

end

section

/-- A row of `retention_targets` with its stored result. -/
structure Row where
  target : Target
  result : Option Json

def Row.id (row : Row) : String := row.target.id

/-- `register`: a series that has a target keeps it, and a new one has no result. -/
def registerOne (env : Environment) (now : Int) (rows : List Row) (sample : Sample) : List Row :=
  let id := env.key sample.selection
  let due := saturatingAdd now 3600000000
  if (lookup Row.id rows id).isSome then rows
  else rows ++ [⟨⟨id, sample.selection, due, due, 0⟩, none⟩]

def register (env : Environment) (batch : Batch) (rows : List Row) : List Row :=
  (batch.history env).foldl (registerOne env batch.receivedAt) rows

variable [Identifiers]

/-- One automatic step: what it found and what the backend answered. -/
structure Automatic where
  target : String
  now : Int
  pending : Bool
  prepared : Except Fault Unit
  outcome : Except Fault Outcome

/-- The document of a step that waits for accepted batches. -/
def waiting : Json :=
  .object [("state", .string "blocked"), ("reason", .string "accepted_batches_pending")]

/-- The document of a step that asked the backend. -/
def reported (outcome : Except Fault Outcome) : Json :=
  match outcome with
  | .error _ => .object [("state", .string "unknown")]
  | .ok answer =>
      match answer.progress with
      | none => .object [("state", .string "unknown")]
      | some (.blocked reason) =>
          .object [("state", .string "blocked"), ("reason", .string reason.asStr)]
      | some (.more processed _) => .object [("state", .string "more"), ("processed", count processed)]
      | some (.complete processed _) =>
          .object [("state", .string "complete"), ("processed", count processed)]

/-- Whether a step completed, for the next coordinates of its target. -/
def completed (outcome : Except Fault Outcome) : Telemetry.Progress :=
  match outcome with
  | .error _ => .unknown
  | .ok answer =>
      match answer.progress with
      | none => .unknown
      | some (.blocked _) => .blocked
      | some (.more _ _) => .more
      | some (.complete _ _) => .complete

def Automatic.due (a : Automatic) (rows : List Row) : Bool :=
  (lookup Row.id rows a.target).any (fun row => row.target.phase < 2 && row.target.nextCheck ≤ a.now)

def Automatic.stores (a : Automatic) : Except Fault (Json × Telemetry.Progress) :=
  if a.pending then .ok (waiting, .blocked)
  else do
    a.prepared
    .ok (reported a.outcome, completed a.outcome)

/-- `step` of the retention worker. -/
def retain (a : Automatic) (rows : List Row) : Except Fault (List Row) :=
  if a.due rows then do
    let (document, progress) ← a.stores
    .ok (update Row.id rows a.target (fun row =>
      ⟨State.advanceTarget a.now progress row.target, some document⟩))
  else .ok rows

/-- What an operator asked for; only a reclaim ends in the targets. -/
inductive Purpose where
  | reclaim (stream : String)
  | other

/-- One maintenance step of an operator's request. -/
structure Maintenance where
  purpose : Purpose
  authorized : Except Fault Unit
  finished : Bool
  outcome : Except Fault Outcome
  live : Except Fault Unit

def Maintenance.progress (m : Maintenance) : Except Fault Progress := do
  let answer ← m.outcome
  match answer.progress with
  | none => .error .unknown
  | some (.more processed next) => do
      let next ← next
      .ok (.more processed next)
  | some (.complete processed fence) => .ok (.complete processed fence)
  | some (.blocked reason) => .ok (.blocked reason)

/-- The targets of a stream that a complete reclaim retires. -/
def Maintenance.settle (m : Maintenance) (progress : Progress) (rows : List Row) : List Row :=
  match progress, m.purpose with
  | .complete _ _, .reclaim stream => rows.map (fun row =>
      if row.target.selection.stream = stream then
        ⟨{ row.target with phase := 2 }, some progress.encode⟩
      else row)
  | _, _ => rows

/-- `step_on`. -/
def operate (m : Maintenance) (rows : List Row) : Except Fault (List Row) := do
  m.authorized
  if m.finished then .ok rows
  else do
    let progress ← m.progress
    m.live
    .ok (m.settle progress rows)

end

section

variable [Identifiers]

structure Retention where
  resource : String
  version : Nat
  dueAt : Int
  phase : Nat
  progress : Option Progress

/-- A stored result is decoded, or the read fails. -/
def Row.progress (row : Row) : Except Fault (Option Progress) :=
  match row.result with
  | none => .ok none
  | some document =>
      match Progress.decode document with
      | some progress => .ok (some progress)
      | none => .error .storage

def Row.read (row : Row) : Except Fault Retention := do
  let progress ← row.progress
  .ok ⟨row.target.selection.series.resource, row.target.selection.series.field.version,
    row.target.dueAt, row.target.phase, progress⟩

/-- `ORDER BY due_at,id`. -/
def Row.before (a b : Row) : Bool :=
  a.target.dueAt < b.target.dueAt || (a.target.dueAt = b.target.dueAt && a.id ≤ b.id)

/-- The retention part of a health read; one more row than asked for is fetched. -/
def health (device field : String) (maxPoints : UInt32) (rows : List Row) :
    Except Fault (List Retention × Bool) := do
  let found := (rows.filter (fun row => row.target.selection.series.device = device &&
    row.target.selection.series.field.key = field)).mergeSort Row.before
  let fetched := found.take (maxPoints.toNat + 1)
  let read ← (fetched.take maxPoints.toNat).mapM Row.read
  .ok (read, decide (fetched.length > maxPoints.toNat))

end

section

variable [Identifiers]

inductive Step where
  | upload (batch : Batch)
  | automatic (step : Automatic)
  | operator (step : Maintenance)

variable (env : Environment)

def perform (rows : List Row) : Step → Except Fault (List Row)
  | .upload batch => .ok (register env batch rows)
  | .automatic step => retain step rows
  | .operator step => operate step rows

/-- A step that fails rolls back. -/
def apply (rows : List Row) (step : Step) : List Row :=
  match perform env rows step with
  | .ok rows' => rows'
  | .error _ => rows

end

section

theorem MaintenanceBlock.parse_asStr (reason : MaintenanceBlock) :
    MaintenanceBlock.parse reason.asStr = some reason := by
  cases reason <;> decide

theorem readU32_count (n : UInt32) : readU32 (some (count n)) = some n := by
  have small := n.toNat_lt
  have read : parseI64 (String.ofList (decimal n.toNat)) = some (n.toNat : Int) :=
    parseI64_decimal (by omega) (by omega)
  have fits : (0 : Int) ≤ n.toNat ∧ (n.toNat : Int) < 2 ^ 32 := by omega
  simp only [readU32, count, read, if_pos fits, Int.toNat_natCast, UInt32.ofNat_toNat]

variable [Identifiers]

theorem Id.new_text (id : Id) : Id.new id.text = some id := dif_pos id.valid

attribute [local simp] List.lookup_cons readText Progress.decode reported

theorem Progress.decode_encode (progress : Progress) : Progress.decode progress.encode = some progress := by
  cases progress with
  | more processed =>
    have number := readU32_count processed
    simp [encode, decode, only, number]
  | complete processed =>
    have number := readU32_count processed
    simp [encode, decode, only, number, Id.new_text]
  | blocked =>
    simp [encode, decode, only, MaintenanceBlock.parse_asStr]

theorem waiting_unreadable : Progress.decode waiting = none := by
  have unnamed : MaintenanceBlock.parse "accepted_batches_pending" = none := by decide
  simp [waiting, only, unnamed]

theorem reported_readable {outcome : Except Fault Outcome} :
    (∃ progress, Progress.decode (reported outcome) = some progress) ↔
      ∃ answer reason, outcome = .ok answer ∧ answer.progress = some (.blocked reason) := by
  constructor
  · rintro ⟨progress, read⟩
    cases outcome with
    | error => simp at read
    | ok answer =>
      cases found : answer.progress with
      | none => simp [found] at read
      | some state =>
        cases state with
        | blocked reason => exact ⟨answer, reason, rfl, found⟩
        | more | complete =>
          simp [found, only] at read
  · rintro ⟨answer, reason, rfl, found⟩
    have document : reported (.ok answer) = (Progress.blocked reason).encode := by
      simp [found, Progress.encode]
    exact ⟨.blocked reason, by rw [document, Progress.decode_encode]⟩

end

section

variable [Identifiers]

def Row.Readable (row : Row) : Prop :=
  ∀ document, row.result = some document → ∃ progress, Progress.decode document = some progress

def Readable (rows : List Row) : Prop := ∀ row ∈ rows, row.Readable

theorem Row.Readable.read {row : Row} (readable : row.Readable) : ∃ retention, row.read = .ok retention := by
  cases result : row.result with
  | none =>
    have progress : row.progress = .ok none := by simp [Row.progress, result]
    exact ⟨_, bind_eq_ok.mpr ⟨none, progress, rfl⟩⟩
  | some document =>
    obtain ⟨decoded, read⟩ := readable document result
    have progress : row.progress = .ok (some decoded) := by simp [Row.progress, result, read]
    exact ⟨_, bind_eq_ok.mpr ⟨some decoded, progress, rfl⟩⟩

theorem mapM_read {rows : List Row} (readable : Readable rows) :
    ∃ read, rows.mapM Row.read = .ok read := by
  induction rows with
  | nil => exact ⟨[], rfl⟩
  | cons row _ ih =>
    obtain ⟨retention, first⟩ := (readable row (List.mem_cons_self ..)).read
    obtain ⟨read, later⟩ := ih (fun r mem => readable r (.tail _ mem))
    exact ⟨retention :: read, mapM_eq_ok.mpr (.cons first (mapM_eq_ok.mp later))⟩

theorem Readable.health {rows : List Row} (readable : Readable rows) (device field : String)
    (maxPoints : UInt32) : ∃ answer, health device field maxPoints rows = .ok answer := by
  have inside : Readable ((((rows.filter (fun row => row.target.selection.series.device = device &&
      row.target.selection.series.field.key = field)).mergeSort Row.before).take
        (maxPoints.toNat + 1)).take maxPoints.toNat) := by
    intro row mem
    have found := List.mem_mergeSort.mp (List.mem_of_mem_take (List.mem_of_mem_take mem))
    exact readable row (List.mem_filter.mp found).1
  obtain ⟨read, all⟩ := mapM_read inside
  exact ⟨_, bind_eq_ok.mpr ⟨read, all, rfl⟩⟩

end

section

variable [Identifiers] {env : Environment}

/-- An automatic step that stores a document got a block from the backend. -/
def Step.Clean (rows : List Row) : Step → Prop
  | .automatic a => a.due rows = true → a.pending = false ∧ (a.prepared = .ok () →
      ∃ answer reason, a.outcome = .ok answer ∧ answer.progress = some (.blocked reason))
  | .upload _ => True
  | .operator _ => True

variable {rows : List Row}

theorem Readable.registerOne {now : Int} {sample : Sample} (readable : Readable rows) :
    Readable (registerOne env now rows sample) := by
  unfold Health.registerOne
  dsimp only
  split
  · exact readable
  intro row mem
  rcases List.mem_append.mp mem with old | new
  · exact readable row old
  · cases List.mem_singleton.mp new
    rintro document ⟨⟩

theorem Readable.register {batch : Batch} (readable : Readable rows) :
    Readable (register env batch rows) := by
  unfold Health.register
  induction batch.history env generalizing rows with
  | nil => exact readable
  | cons _ _ ih => exact ih readable.registerOne

theorem Readable.operate {m : Maintenance} {rows' : List Row} (readable : Readable rows)
    (h : operate m rows = .ok rows') : Readable rows' := by
  obtain ⟨-, h⟩ := of_check h
  split at h
  · cases h
    exact readable
  obtain ⟨progress, -, h⟩ := of_bind h
  obtain ⟨-, h⟩ := of_check h
  cases h
  unfold Maintenance.settle
  split
  · intro row mem
    obtain ⟨old, there, rfl⟩ := List.mem_map.mp mem
    split
    · rintro document ⟨⟩
      exact ⟨_, Progress.decode_encode _⟩
    · exact readable old there
  · exact readable

theorem readable_update (readable : Readable rows) {id : String} {row : Row}
    (found : lookup Row.id rows id = some row) (next : Target → Target) (document : Json) :
    Readable (update Row.id rows id (fun row => ⟨next row.target, some document⟩)) ↔
      ∃ progress, Progress.decode document = some progress := by
  constructor
  · intro after
    have mem : (⟨next row.target, some document⟩ : Row) ∈
        update Row.id rows id (fun row => ⟨next row.target, some document⟩) :=
      List.mem_map.mpr ⟨row, mem_of_lookup found, if_pos (key_of_lookup found)⟩
    exact after _ mem document rfl
  · intro decodes row mem
    rcases mem_update mem with ⟨old, -, -, rfl⟩ | old
    · rintro other ⟨⟩
      exact decodes
    · exact readable row old

theorem stores_readable {a : Automatic} (readable : Readable rows) (due : a.due rows = true) :
    Readable (apply env rows (.automatic a)) ↔
      a.pending = false ∧ (a.prepared = .ok () →
        ∃ answer reason, a.outcome = .ok answer ∧ answer.progress = some (.blocked reason)) := by
  obtain ⟨row, found, -⟩ := (Option.any_eq_true _ _).mp due
  cases pending : a.pending with
  | true =>
    have stored : apply env rows (.automatic a) = update Row.id rows a.target (fun row =>
        ⟨State.advanceTarget a.now .blocked row.target, some waiting⟩) := by
      simp [apply, perform, retain, due, Automatic.stores, pending, ok_bind]
    rw [stored, readable_update readable found, waiting_unreadable]
    simp
  | false =>
    cases prepared : a.prepared with
    | error =>
      have kept : apply env rows (.automatic a) = rows := by
        simp [apply, perform, retain, due, Automatic.stores, pending, prepared, error_bind]
      rw [kept]
      simp [readable]
    | ok =>
      have stored : apply env rows (.automatic a) = update Row.id rows a.target (fun row =>
          ⟨State.advanceTarget a.now (completed a.outcome) row.target,
            some (reported a.outcome)⟩) := by
        simp [apply, perform, retain, due, Automatic.stores, pending, prepared, ok_bind]
      rw [stored, readable_update readable found, reported_readable]
      simp

theorem apply_readable (readable : Readable rows) (step : Step) :
    Readable (apply env rows step) ↔ step.Clean rows := by
  cases step with
  | upload => exact iff_of_true readable.register trivial
  | operator m =>
    refine iff_of_true ?_ trivial
    cases performed : operate m rows with
    | error =>
      have kept : apply env rows (.operator m) = rows := by simp [apply, perform, performed]
      rwa [kept]
    | ok rows' =>
      have done : apply env rows (.operator m) = rows' := by simp [apply, perform, performed]
      rw [done]
      exact readable.operate performed
  | automatic a =>
    by_cases due : a.due rows = true
    · rw [stores_readable readable due]
      simp [Step.Clean, due]
    · have kept : apply env rows (.automatic a) = rows := by simp [apply, perform, retain, due]
      rw [kept]
      simp [Step.Clean, due, readable]

end

section

variable [Identifiers] (env : Environment)

def Throughout (P : List Row → Prop) : List Row → List Step → Prop
  | rows, [] => P rows
  | rows, step :: rest => P rows ∧ Throughout P (apply env rows step) rest

/-- Every step of the run meets its condition in the state that it finds. -/
def Cleanly : List Row → List Step → Prop
  | _, [] => True
  | rows, step :: rest => step.Clean rows ∧ Cleanly (apply env rows step) rest

theorem throughout_readable {rows : List Row} (readable : Readable rows) (steps : List Step) :
    Throughout env Readable rows steps ↔ Cleanly env rows steps := by
  induction steps generalizing rows with
  | nil => exact iff_of_true readable trivial
  | cons step rest ih =>
    have one : Readable (apply env rows step) ↔ step.Clean rows := apply_readable readable step
    constructor
    · rintro ⟨-, later⟩
      have next : Readable (apply env rows step) := by
        cases rest with
        | nil => exact later
        | cons => exact later.1
      exact ⟨one.mp next, (ih next).mp later⟩
    · rintro ⟨clean, later⟩
      have next := one.mpr clean
      exact ⟨readable, (ih next).mpr later⟩

theorem Throughout.imp {P Q : List Row → Prop} (imp : ∀ rows, P rows → Q rows) {rows : List Row}
    {steps : List Step} (h : Throughout env P rows steps) : Throughout env Q rows steps := by
  induction steps generalizing rows with
  | nil => exact imp rows h
  | cons _ _ ih => exact ⟨imp rows h.1, ih h.2⟩

/-- Every result that is stored in a run decodes if and only if each automatic step that stores one got
a block from the backend, and then no health read fails. -/
theorem health_readable (steps : List Step) :
    (Throughout env Readable [] steps ↔ Cleanly env [] steps) ∧
      (Cleanly env [] steps → Throughout env (fun rows => ∀ device field maxPoints,
        ∃ answer, health device field maxPoints rows = .ok answer) [] steps) := by
  have empty : Readable [] := by
    intro row mem
    cases mem
  have same := throughout_readable env empty steps
  refine ⟨same, fun clean => ?_⟩
  exact (same.mpr clean).imp env (fun rows readable => readable.health)

end

namespace Sample

scoped instance identifiers : Identifiers where
  valid text := 1 ≤ text.utf8ByteSize && text.utf8ByteSize ≤ 256

def catalog : Environment where
  policy := fun _ => some ⟨3600, 7200⟩
  expand := fun _ _ => .ok [("device", [])]
  digest := fun _ => ""
  key := fun selection => selection.series.field.key
  identity := fun id _ _ => id
  binding := fun r => r.field

def batch : Batch :=
  ⟨⟨1, "mac", 2, 1, "stream", .history, [⟨"cpu", 1⟩], 60, 0, 20000000000,
    [⟨3, 9999999999, [("cpu", "1")]⟩]⟩, 10000000000, .published⟩

/-- An hour after the upload the backend confirms the cutoff of its series. -/
def steps : List Step :=
  [.upload batch, .automatic ⟨"cpu", 13600000000, false, .ok (), .ok (.accepted (.complete 7 ⟨"fence", by decide⟩))⟩]

/-- The confirmed step leaves out the fence, and the health read of its field fails. -/
theorem completed_step_unreadable :
    ¬ Throughout catalog Readable [] steps ∧
      health "mac" "cpu" 1 (steps.foldl (apply catalog) []) = .error .storage := by
  have registered : apply catalog [] (.upload batch) =
      [⟨⟨"cpu", ⟨"stream", ⟨"mac", ⟨"cpu", 1⟩, "device", []⟩⟩, 13600000000, 13600000000, 0⟩, none⟩] := rfl
  have stored : steps.foldl (apply catalog) [] =
      [⟨⟨"cpu", ⟨"stream", ⟨"mac", ⟨"cpu", 1⟩, "device", []⟩⟩, 13600000000, 13630000000, 1⟩,
        some (.object [("state", .string "complete"), ("processed", count 7)])⟩] := rfl
  have unreadable : Progress.decode (.object [("state", .string "complete"), ("processed", count 7)]) =
      none := rfl
  constructor
  · intro readable
    have last := readable.2.2 _ (stored ▸ List.mem_singleton.mpr rfl) _ rfl
    rw [unreadable] at last
    obtain ⟨progress, absurd⟩ := last
    cases absurd
  · rw [stored]
    simp [health, Row.read, Row.progress, unreadable]

end Sample

end RssMdm.Telemetry.Health
