/- module: Actions/Discovery
   source: crates/execution-service/src/actions/scheduled.rs, src/sources/storage.rs
   digest: Sweeping the registrations of a policy in pages wakes each of them after it began to match. -/

import Mathlib.Data.List.Dedup
import Mathlib.Data.Prod.Lex
import Mathlib.Data.String.Basic
import RssMdm.Lib.KeySort
import RssMdm.Policy.Definition

set_option autoImplicit false

namespace RssMdm.Actions.Discovery

open Lib Policy Relation

inductive ActionKind where
  | deviceAccess | unmanageDevice | credential | execution | nativeCollection | agentCollection
  | telemetryProfile | configuration | software | ensureAgentInstalled | requestMdmEnrollment
deriving DecidableEq

inductive Channel where
  | agent | mdm
deriving DecidableEq

structure Registration where
  id : Uuid
  device : String
  channel : Channel
  generation : Nat
  active : Bool
  primary : Bool

structure Assignment where
  version : Uuid
  channel : Channel
  ready : Bool
  device : Option String

/-- The policy row. -/
structure Current where
  version : Uuid
  kind : ActionKind
  enabled : Bool

/-- A registration that the policy is assigned to. -/
structure Target where
  device : String
  registration : Uuid
  generation : Nat
deriving DecidableEq

structure Work where
  version : Uuid
  registration : Uuid
  generation : Nat
deriving DecidableEq

def Target.work (version : Uuid) (t : Target) : Work := ⟨version, t.registration, t.generation⟩

def Current.supported (c : Current) : Bool := c.kind = .nativeCollection || c.kind = .software

structure Tables where
  current : Option Current
  registrations : List Registration
  assignments : List Assignment

def Tables.assigned (db : Tables) (version : Uuid) (r : Registration) : Bool :=
  r.active && r.primary && db.assignments.any (fun a =>
    a.device = some r.device && a.channel = r.channel && a.version = version && a.ready)

def Tables.targets (db : Tables) (version : Uuid) : List Target :=
  ((db.registrations.filter (db.assigned version)).map
    (fun r => ⟨r.device, r.id, r.generation⟩)).dedup

/-- What the current version of an enabled policy has to wake. -/
def Tables.matching (db : Tables) : List (Uuid × Target) :=
  match db.current with
  | none => []
  | some c => if c.enabled && c.supported then (db.targets c.version).map (c.version, ·) else []

/-- Tables of named devices, with one matching registration for each of them. -/
structure Database extends Tables where
  named : ∀ r ∈ registrations, r.device ≠ ""
  single : ∀ m ∈ toTables.matching, ∀ m' ∈ toTables.matching, m.2.device = m'.2.device → m = m'

/-- The columns of the recovery row that a sweep reads and writes, with their defaults. -/
structure Input where
  revision : Nat := 1
  consumed : Nat := 0
  window : Nat := 0
  after : Option String := none

def Target.order (t : Target) : String ×ₗ Nat := toLex (t.device, t.registration.toNat)

def Tables.rest (db : Tables) (version : Uuid) (after : Option String) : List Target :=
  ((db.targets version).filter (fun t => after.getD "" < t.device)).insertionSort
    (fun a b => a.order ≤ b.order)

/-- A finished window gives way to one that holds every revision so far. -/
def Input.begin (row : Input) : Input :=
  if row.consumed = row.window then { row with window := row.revision, after := none } else row

/-- One page of the window. -/
def Tables.sweep (db : Tables) (current : Current) (row : Input) : Input × List Work :=
  let rows := if current.enabled && current.supported then
    (db.rest current.version row.after).take 33 else []
  let more : Bool := rows.length > 32
  ({ row with
      consumed := if more then row.consumed else row.window
      after := if more then rows[31]?.map (·.device) else none },
    (rows.take 32).map (·.work current.version))

def discoverIn (db : Tables) (input : Option Input) : Option Input × List Work :=
  match db.current with
  | none => (input, [])
  | some current =>
      let row := input.getD {}
      if row.begin.consumed = row.begin.window then (some row, [])
      else (some (db.sweep current row.begin).1, (db.sweep current row.begin).2)

/-- The row after a wake of the policy. -/
def wakeExecution : Option Input → Input
  | none => {}
  | some row => { row with revision := row.revision + 1 }

/-- What a transaction left and whom it woke. -/
structure Entry where
  database : Database
  wakes : List Work

/-- The tables, the recovery row and the transactions so far, latest first. -/
structure World where
  database : Database
  input : Option Input
  history : List Entry

/-- A change of what matches wakes the policy in the same transaction. -/
def Changed (w : World) (db : Database) (input : Option Input) : Prop :=
  input = some (wakeExecution w.input) ∨
    input = w.input ∧ ∀ m, m ∈ db.matching ↔ m ∈ w.database.matching

def World.discover (w : World) : World :=
  ⟨w.database, (discoverIn w.database.toTables w.input).1,
    ⟨w.database, (discoverIn w.database.toTables w.input).2⟩ :: w.history⟩

inductive Step (w : World) : World → Prop
  | change {db : Database} {input : Option Input} (changed : Changed w db input) :
      Step w ⟨db, input, ⟨db, []⟩ :: w.history⟩
  | discover : Step w w.discover

def Reachable (first : Database) (w : World) : Prop := ReflTransGen Step ⟨first, none, []⟩ w

/-- Woken by a transaction from which on it has matched without a break. -/
def WokenSince (m : Uuid × Target) (history : List Entry) : Prop :=
  ∃ newer e older, history = newer ++ e :: older ∧ m.2.work m.1 ∈ e.wakes ∧
    ∀ x ∈ e :: newer, m ∈ x.database.matching

variable {db : Database} {version : Uuid} {after : Option String} {t : Target}

theorem mem_rest :
    t ∈ db.rest version after ↔ t ∈ db.targets version ∧ after.getD "" < t.device := by
  rw [Tables.rest, List.mem_insertionSort, List.mem_filter, decide_eq_true_eq]

theorem mem_matching {m : Uuid × Target} : m ∈ db.matching ↔ ∃ c, db.current = some c ∧
    (c.enabled && c.supported) = true ∧ m.1 = c.version ∧ m.2 ∈ db.targets c.version := by
  obtain ⟨version, t⟩ := m
  unfold Tables.matching
  cases db.current with
  | none => simp
  | some c =>
    by_cases due : (c.enabled && c.supported) = true
    · simp only [if_pos due, List.mem_map, Prod.mk.injEq, Option.some.injEq]
      constructor
      · rintro ⟨t', there, rfl, rfl⟩
        exact ⟨c, rfl, due, rfl, there⟩
      · rintro ⟨c', rfl, -, rfl, there⟩
        exact ⟨t, there, rfl, rfl⟩
    · simp only [if_neg due, List.not_mem_nil, Option.some.injEq, false_iff]
      rintro ⟨c', rfl, due', -⟩
      exact due due'

theorem device_pos (there : t ∈ db.targets version) : "" < t.device := by
  rw [Tables.targets, List.mem_dedup, List.mem_map] at there
  obtain ⟨r, mem, rfl⟩ := there
  have named := db.named r (List.mem_of_mem_filter mem)
  rw [String.lt_iff_toList_lt]
  cases chars : r.device.toList with
  | nil => exact absurd (String.toList_inj.mp (chars.trans String.toList_empty.symm)) named
  | cons c cs => exact List.nil_lt_cons c cs

theorem rest_increasing {c : Current} (current : db.current = some c)
    (due : (c.enabled && c.supported) = true) :
    (db.rest c.version after).Pairwise (fun a b => a.device < b.device) := by
  have sorted : (db.rest c.version after).Pairwise (fun a b => a.order ≤ b.order) :=
    KeySort.pairwise_sort Target.order _
  have apart : (db.rest c.version after).Nodup :=
    (List.perm_insertionSort _ _).nodup_iff.mpr ((List.nodup_dedup _).filter _)
  refine List.Pairwise.imp_of_mem ?_ (sorted.and apart)
  rintro a b memA memB ⟨le, ne⟩
  have first : a.device ≤ b.device := by
    rcases Prod.Lex.le_iff.mp le with less | ⟨same, -⟩
    · exact less.le
    · exact same.le
  refine lt_of_le_of_ne first ?_
  intro same
  have matched : ∀ t ∈ db.rest c.version after, (c.version, t) ∈ db.matching :=
    fun t mem => mem_matching.mpr ⟨c, current, due, rfl, (mem_rest.mp mem).1⟩
  exact ne (congrArg Prod.snd (db.single _ (matched a memA) _ (matched b memB) same))

theorem rest_shorter (there : t ∈ db.rest version after) :
    (db.rest version (some t.device)).length < (db.rest version after).length := by
  obtain ⟨there, later⟩ := mem_rest.mp there
  have length : ∀ after, (db.rest version after).length =
      ((db.targets version).filter (fun t => after.getD "" < t.device)).length :=
    fun after => (List.perm_insertionSort _ _).length_eq
  have nested : (db.targets version).filter (fun u => (some t.device).getD "" < u.device) =
      ((db.targets version).filter (fun u => after.getD "" < u.device)).filter
        (fun u => t.device < u.device) := by
    rw [List.filter_filter]
    apply List.filter_congr
    intro u _
    by_cases past : t.device < u.device
    · simp [past, later.trans past]
    · simp [past]
  rw [length, length, nested, List.length_filter_lt_length_iff_exists]
  exact ⟨t, List.mem_filter.mpr ⟨there, decide_eq_true later⟩, by simp⟩

theorem sweep_cases {c : Current} (current : db.current = some c) (row : Input) :
    (db.sweep c row).1 = { row with consumed := row.window, after := none } ∧
        (∀ m ∈ db.matching, row.after.getD "" < m.2.device → m.2.work m.1 ∈ (db.sweep c row).2) ∨
      ∃ a, (db.sweep c row).1 = { row with after := some a } ∧
        (db.rest c.version (some a)).length < (db.rest c.version row.after).length ∧
        ∀ m ∈ db.matching, row.after.getD "" < m.2.device → m.2.device ≤ a →
          m.2.work m.1 ∈ (db.sweep c row).2 := by
  by_cases due : (c.enabled && c.supported) = true
  · have listed : ∀ m ∈ db.matching, row.after.getD "" < m.2.device →
        m.1 = c.version ∧ m.2 ∈ db.rest c.version row.after := by
      intro m mem later
      obtain ⟨c', current', -, version, there⟩ := mem_matching.mp mem
      cases current.symm.trans current'
      exact ⟨version, mem_rest.mpr ⟨there, later⟩⟩
    have increasing : (db.rest c.version row.after).Pairwise (fun a b => a.device < b.device) :=
      rest_increasing current due
    have shorter : ∀ t ∈ db.rest c.version row.after,
        (db.rest c.version (some t.device)).length < (db.rest c.version row.after).length :=
      fun t there => rest_shorter there
    unfold Tables.sweep
    dsimp only
    rw [if_pos due]
    generalize rest : db.rest c.version row.after = rows at listed increasing shorter ⊢
    by_cases more : 32 < rows.length
    · right
      have last : (rows.take 33)[31]? = some rows[31] := by
        rw [List.getElem?_take_of_lt (by omega), List.getElem?_eq_getElem]
      refine ⟨rows[31].device, by simp [last, more], shorter _ (List.getElem_mem _), ?_⟩
      intro m mem later upTo
      obtain ⟨version, there⟩ := listed m mem later
      obtain ⟨i, bound, here⟩ := List.getElem_of_mem there
      have early : i < 32 := by
        by_contra late
        have less := List.pairwise_iff_getElem.mp increasing 31 i (by omega) bound (by omega)
        rw [here] at less
        exact absurd upTo (not_le_of_gt less)
      have served : ((rows.take 33).take 32)[i]? = some m.2 := by
        rw [List.take_take, List.getElem?_take_of_lt (by omega), List.getElem?_eq_getElem bound, here]
      rw [version]
      exact List.mem_map_of_mem (List.mem_of_getElem? served)
    · left
      have all : rows.take 33 = rows := List.take_of_length_le (by omega)
      have served : rows.take 32 = rows := List.take_of_length_le (by omega)
      rw [all, served, if_neg (by simpa using more)]
      refine ⟨by simp [more], ?_⟩
      intro m mem later
      obtain ⟨version, there⟩ := listed m mem later
      rw [version]
      exact List.mem_map_of_mem there
  · left
    have nobody : db.matching = [] := by simp [Tables.matching, current, due]
    simp [Tables.sweep, due, nobody]

section

variable {w : World} {m : Uuid × Target} {row : Input}

theorem WokenSince.keep {history : List Entry} (woken : WokenSince m history) {e : Entry}
    (still : m ∈ e.database.matching) : WokenSince m (e :: history) := by
  obtain ⟨newer, e', older, rfl, wakes, matched⟩ := woken
  refine ⟨e :: newer, e', older, rfl, wakes, ?_⟩
  intro x mem
  rcases List.mem_cons.mp mem with rfl | mem
  · exact matched x (.head _)
  · rcases List.mem_cons.mp mem with rfl | mem
    · exact still
    · exact matched x (.tail _ mem)

theorem WokenSince.now {history : List Entry} {e : Entry} (wakes : m.2.work m.1 ∈ e.wakes)
    (still : m ∈ e.database.matching) : WokenSince m (e :: history) :=
  ⟨[], e, history, rfl, wakes, by simpa using still⟩

/-- What the window vouches for: everything once it holds every revision and is consumed, and up to
its cursor while it is swept. -/
structure Input.Sound (row : Input) (w : World) : Prop where
  consumed : row.consumed ≤ row.window
  window : row.window ≤ row.revision
  settled : row.consumed = row.revision → ∀ m ∈ w.database.matching, WokenSince m w.history
  underway : row.consumed < row.window → row.window = row.revision →
    ∀ m ∈ w.database.matching, m.2.device ≤ row.after.getD "" → WokenSince m w.history

theorem sound_fresh (w : World) : ({} : Input).Sound w where
  consumed := le_refl _
  window := Nat.zero_le _
  settled same := absurd same (by decide)
  underway less := absurd less (by decide)

theorem sound_wake {input : Option Input} (sound : (input.getD {}).Sound w) (w' : World) :
    (wakeExecution input).Sound w' := by
  cases input with
  | none => exact sound_fresh w'
  | some =>
    obtain ⟨consumed, window, -, -⟩ := sound
    simp only [Option.getD_some] at consumed window
    refine ⟨consumed, Nat.le_succ_of_le window, ?_, ?_⟩
    · intro same
      simp only [wakeExecution] at same
      omega
    · intro _ same
      simp only [wakeExecution] at same
      omega

theorem Input.Sound.keep (sound : row.Sound w) {db : Database} {wakes : List Work} {input : Option Input}
    (same : ∀ m, m ∈ db.matching ↔ m ∈ w.database.matching) :
    row.Sound ⟨db, input, ⟨db, wakes⟩ :: w.history⟩ where
  consumed := sound.consumed
  window := sound.window
  settled done m mem := (sound.settled done m ((same m).mp mem)).keep mem
  underway less whole m mem upTo := (sound.underway less whole m ((same m).mp mem) upTo).keep mem

theorem Input.Sound.begin (sound : row.Sound w) : row.begin.Sound w := by
  unfold Input.begin
  split
  · rename_i same
    refine ⟨same ▸ sound.window, le_refl _, sound.settled, ?_⟩
    intro _ _ m mem first
    obtain ⟨c, -, -, -, there⟩ := mem_matching.mp mem
    exact absurd first (not_le_of_gt (device_pos there))
  · exact sound

theorem Input.Sound.sweep {c : Current} (current : w.database.current = some c)
    (sound : row.Sound w) (less : row.consumed < row.window) :
    (w.database.sweep c row).1.Sound
      ⟨w.database, some (w.database.sweep c row).1,
        ⟨w.database, (w.database.sweep c row).2⟩ :: w.history⟩ := by
  have whole := sound.window
  rcases sweep_cases current row with ⟨finished, woken⟩ | ⟨a, paused, -, woken⟩
  · rw [finished]
    refine ⟨le_refl _, whole, ?_, fun less => absurd less (lt_irrefl _)⟩
    intro same m mem
    by_cases later : row.after.getD "" < m.2.device
    · exact .now (woken m mem later) mem
    · exact (sound.underway less same m mem (not_lt.mp later)).keep mem
  · rw [paused]
    refine ⟨sound.consumed, whole, fun same => ?_, ?_⟩
    · simp only at same
      omega
    · intro _ same m mem upTo
      by_cases later : row.after.getD "" < m.2.device
      · exact .now (woken m mem later upTo) mem
      · exact (sound.underway less same m mem (not_lt.mp later)).keep mem

theorem Step.sound {w' : World} (step : Step w w') (sound : (w.input.getD {}).Sound w) :
    (w'.input.getD {}).Sound w' := by
  cases step with
  | change changed =>
    rcases changed with rfl | ⟨rfl, same⟩
    · exact sound_wake sound _
    · exact sound.keep same
  | discover =>
    unfold World.discover discoverIn
    cases current : w.database.current with
    | none => exact sound.keep fun m => Iff.rfl
    | some c =>
      dsimp only
      split
      · exact sound.keep fun m => Iff.rfl
      · rename_i pending
        exact sound.begin.sweep current (lt_of_le_of_ne sound.begin.consumed pending)

theorem Reachable.sound {first : Database} (run : Reachable first w) : (w.input.getD {}).Sound w := by
  induction run with
  | refl => exact sound_fresh _
  | tail _ step ih => exact step.sound ih

end

section

variable {c : Current} {w : World}

theorem input_discover (current : w.database.current = some c) {row : Input}
    (now : w.input.getD {} = row) : w.discover.input =
      some (if row.begin.consumed = row.begin.window then row else (w.database.sweep c row.begin).1) := by
  unfold World.discover discoverIn
  rw [current]
  dsimp only
  rw [now]
  split <;> rfl

theorem sweep_ends (row : Input) (w : World) (current : w.database.current = some c)
    (now : w.input.getD {} = row) (underway : row.consumed ≠ row.window) :
    ∃ n row', (World.discover^[n] w).input = some row' ∧ row'.consumed = row.window ∧
      row'.window = row.window ∧ row'.revision = row.revision := by
  induction size : (w.database.rest c.version row.after).length using Nat.strong_induction_on
    generalizing row w with
  | _ size ih =>
    have begun : row.begin = row := if_neg underway
    have next := input_discover current now
    rw [begun, if_neg underway] at next
    rcases sweep_cases current row with ⟨finished, -⟩ | ⟨a, paused, fewer, -⟩
    · exact ⟨1, _, next, by rw [finished], by rw [finished], by rw [finished]⟩
    rw [paused] at next
    obtain ⟨n, row', reached, consumed, window, revision⟩ :=
      ih _ (size ▸ fewer) { row with after := some a } w.discover current
        (by rw [next]; rfl) underway rfl
    exact ⟨n + 1, row', reached, consumed, window, revision⟩

theorem settles (row : Input) (w : World) (current : w.database.current = some c)
    (now : w.input.getD {} = row) (consumed : row.consumed = row.window) :
    ∃ n row', (World.discover^[n] w).input = some row' ∧ row'.consumed = row'.revision := by
  have begun : row.begin = { row with window := row.revision, after := none } := if_pos consumed
  have next := input_discover current now
  rw [begun] at next
  by_cases done : row.consumed = row.revision
  · rw [if_pos done] at next
    exact ⟨1, row, next, done⟩
  rw [if_neg done] at next
  rcases sweep_cases current { row with window := row.revision, after := none } with
    ⟨finished, -⟩ | ⟨a, paused, -, -⟩
  · exact ⟨1, _, next, by rw [finished]⟩
  rw [paused] at next
  obtain ⟨n, row', reached, consumed, -, revision⟩ :=
    sweep_ends _ w.discover current (by rw [next]) (by exact done)
  exact ⟨n + 1, row', reached, consumed.trans revision.symm⟩

theorem discovery_settles (current : w.database.current = some c) :
    ∃ n row, (World.discover^[n] w).input = some row ∧ row.consumed = row.revision := by
  by_cases underway : (w.input.getD {}).consumed = (w.input.getD {}).window
  · exact settles _ w current rfl underway
  obtain ⟨n, row, reached, consumed, window, -⟩ := sweep_ends _ w current rfl underway
  have kept : ∀ k, (World.discover^[k] w).database = w.database := by
    intro k
    induction k with
    | zero => rfl
    | succ _ ih =>
      rw [Function.iterate_succ_apply']
      exact ih
  obtain ⟨k, row', settled⟩ := settles row (World.discover^[n] w) (by rw [kept]; exact current)
    (by rw [reached]; rfl) (consumed.trans window.symm)
  rw [← Function.iterate_add_apply] at settled
  exact ⟨k + n, row', settled⟩

end

/-- Once the consumed revision is the current one, every matching registration was woken after it
began to match; and undisturbed sweeps get there. -/
theorem discovery_loses_no_wake {first : Database} {w : World} (run : Reachable first w) :
    (∀ row, w.input = some row → row.consumed = row.revision →
      ∀ m ∈ w.database.matching, WokenSince m w.history) ∧
    (w.database.current.isSome → ∃ n row, (World.discover^[n] w).input = some row ∧
      row.consumed = row.revision) := by
  refine ⟨?_, ?_⟩
  · intro row now done
    have sound := run.sound
    rw [now] at sound
    exact sound.settled done
  · intro there
    obtain ⟨c, current⟩ := Option.isSome_iff_exists.mp there
    exact discovery_settles current

/-- The laptops of an enabled software policy, with names of one character. -/
def laptops (names : List Char) : Tables where
  current := some ⟨1, .software, true⟩
  registrations := names.map (fun c => ⟨c.toNat, String.singleton c, .mdm, 1, true, true⟩)
  assignments := names.map (fun c => ⟨1, .mdm, true, some (String.singleton c)⟩)

theorem laptops_named (names : List Char) : ∀ r ∈ (laptops names).registrations, r.device ≠ "" := by
  intro r mem none
  obtain ⟨c, -, rfl⟩ := List.mem_map.mp mem
  simpa using congrArg String.toList none

def names : List Char := (List.range 33).map (fun n => Char.ofNat (66 + n))

set_option maxRecDepth 20000 in
def fleet : Database :=
  { laptops names with named := laptops_named names, single := by decide +kernel }

set_option maxRecDepth 20000 in
def joined : Database :=
  { laptops ('A' :: names) with named := laptops_named _, single := by decide +kernel }

/-- A laptop that comes before all others joins after the first page. -/
def midSweep : World :=
  let w := World.discover ⟨fleet, none, []⟩
  ⟨joined, some (wakeExecution w.input), ⟨joined, []⟩ :: w.history⟩

set_option maxRecDepth 20000 in
theorem laptop_woken : midSweep.input.map (·.after) = some (some "a") ∧
    WokenSince (1, ⟨"A", 65, 1⟩) (World.discover^[3] midSweep).history := by
  have first : Reachable fleet midSweep := .tail (.tail .refl .discover) (.change (.inl rfl))
  have run : Reachable fleet (World.discover^[3] midSweep) :=
    .tail (.tail (first.tail .discover) .discover) .discover
  exact ⟨by decide +kernel,
    (discovery_loses_no_wake run).1 _ rfl (by decide +kernel) _ (by decide +kernel)⟩

end RssMdm.Actions.Discovery
