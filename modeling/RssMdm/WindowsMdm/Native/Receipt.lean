/- module: WindowsMdm/Native/Receipt
   source: crates/windows-mdm/src/native/receipt.rs, crates/windows-mdm/src/syncml/status.rs
   digest: Receipts of native attempt items, what later receipts may change, and the assessment of
   an operation from its items. -/

import RssMdm.Lib.Fallible

set_option autoImplicit false

namespace RssMdm.WindowsMdm.Native

open Lib.Fallible
open List (mem_filter mem_map mem_map_of_mem)
open Option (any_some)
open Bool (and_eq_true not_eq_true' or_eq_true)

/-- Provisional receipts allow later completion. -/
def terminalStatus (status : Int) : Bool :=
  status ≥ 200 && !(status = 202 || status = 206 || status = 213)

def successfulStatus (kind : String) (status : Int) : Bool :=
  if status = 200 || status = 214 then
    ["add", "replace", "delete", "get", "exec", "atomic", "sequence"].contains kind
  else if status = 201 then kind = "add"
  else if status = 204 then kind = "get"
  else if status = 210 || status = 211 then kind = "delete"
  else false

/-- Whether the status rejects the command; rollback failure remains unknown. -/
def rejectedStatus (status : Int) : Bool :=
  status = 215 || status = 216 || (400 ≤ status && status < 600 && status ≠ 516)

inductive ReceiptRole where
  | prepare | execute | observe
deriving DecidableEq

inductive CommandKind where
  | add | replace | delete | get | exec | atomic | sequence
deriving DecidableEq

def CommandKind.asStr : CommandKind → String
  | .add => "add"
  | .replace => "replace"
  | .delete => "delete"
  | .get => "get"
  | .exec => "exec"
  | .atomic => "atomic"
  | .sequence => "sequence"

/-- Allow provisional completion and atomic rollback while preserving terminal facts and values. -/
def compatibleReceipt (kind : CommandKind) (atomic : Bool) (old new : Option Int)
    (oldValue newValue : Option String) : Bool :=
  !(old.any (fun old => terminalStatus old && new.any (fun new => old ≠ new &&
    !(atomic && (new = 216 || new = 516) && successfulStatus kind.asStr old)))) &&
  oldValue.all (fun old => newValue.all (fun new => old = new))

/-- Native item evidence after caller-owned current eligibility checks. -/
structure ItemEvidence where
  phase : ReceiptRole
  kind : CommandKind
  status : Option Int
  receiptAccepted : Bool
  hasValue : Bool
  resultAccepted : Bool
deriving DecidableEq

inductive Settlement where
  | wait
  | reject
  | receive (queryComplete valuesComplete : Bool)
deriving DecidableEq

/-- An accepted receipt of an execution or a prerequisite that rejects the operation. -/
def ItemEvidence.rejects (i : ItemEvidence) : Bool :=
  i.phase ≠ .observe && i.receiptAccepted && i.status.any rejectedStatus

def ItemEvidence.received (i : ItemEvidence) : Bool :=
  i.receiptAccepted && i.status.any (successfulStatus i.kind.asStr)

def ItemEvidence.valueComplete (i : ItemEvidence) : Bool :=
  i.status = some 204 || (i.hasValue && i.resultAccepted)

/-- Assess native receipts without advancing common execution state. -/
def settle (items : List ItemEvidence) (packageComplete : Bool) : Settlement :=
  if items.any ItemEvidence.rejects then .reject
  else
    let execution := items.filter (fun i => i.phase = .execute)
    if !packageComplete || execution.isEmpty || !execution.all ItemEvidence.received then .wait
    else
      let queries := execution.filter (fun i => i.kind = .get)
      let valuesComplete := queries.all ItemEvidence.valueComplete
      let queryComplete := valuesComplete && execution.any (fun i => i.kind = .get) &&
        execution.all (fun i => i.kind = .get || i.kind = .atomic || i.kind = .sequence)
      .receive queryComplete valuesComplete

/-- A stored item: its evidence, whether a group above it is atomic and the retained value. -/
structure Slot extends ItemEvidence where
  atomic : Bool
  value : Option String
  retained : hasValue = value.isSome
deriving DecidableEq

/-- A later receipt of one item, with what the caller admits of it. -/
structure Receipt where
  status : Option Int
  value : Option String
  receiptAccepted : Bool
  resultAccepted : Bool

/-- An admitted receipt replaces what it carries. -/
def Slot.receive (i : Slot) (r : Receipt) : Option Slot :=
  if compatibleReceipt i.kind i.atomic i.status r.status i.value r.value then
    some { i with
      status := r.status.or i.status
      receiptAccepted := i.receiptAccepted || r.receiptAccepted
      hasValue := (r.value.or i.value).isSome
      resultAccepted := i.resultAccepted || r.resultAccepted
      value := r.value.or i.value
      retained := rfl }
  else none

def receive (items : List Slot) (k : Nat) (r : Receipt) : Option (List Slot) :=
  match items[k]? with
  | none => none
  | some i => (i.receive r).map (items.set k)

def receiveAll (items : List Slot) : List (Nat × Receipt) → Option (List Slot)
  | [] => some items
  | (k, r) :: rest =>
      match receive items k r with
      | none => none
      | some next => receiveAll next rest

def evidence (items : List Slot) : List ItemEvidence := items.map Slot.toItemEvidence

def terminalChange (old new : Option Slot) : Bool :=
  old.any (fun i => i.status.any terminalStatus && new.any (fun j => i.status ≠ j.status))

/-- How often a receipt of the sequence replaces the terminal status of one item. -/
def terminalChanges (k : Nat) (items : List Slot) : List (Nat × Receipt) → Nat
  | [] => 0
  | (j, r) :: rest =>
      match receive items j r with
      | none => 0
      | some next => (terminalChange items[k]? next[k]?).toNat + terminalChanges k next rest

variable {status : Int} {kind : String}

theorem terminal_of_successful (success : successfulStatus kind status = true) :
    terminalStatus status = true := by
  unfold successfulStatus at success
  simp only [terminalStatus, and_eq_true, decide_eq_true_eq, not_eq_true',
    Bool.or_eq_false_iff, decide_eq_false_iff_not]
  split at success
  · rename_i h; simp only [or_eq_true, decide_eq_true_eq] at h; omega
  split at success
  · omega
  split at success
  · omega
  · split at success
    · rename_i h; simp only [or_eq_true, decide_eq_true_eq] at h; omega
    · cases success

theorem terminal_of_rejected (rejected : rejectedStatus status = true) :
    terminalStatus status = true := by
  simp only [rejectedStatus, or_eq_true, and_eq_true, decide_eq_true_eq] at rejected
  simp only [terminalStatus, and_eq_true, decide_eq_true_eq, not_eq_true',
    Bool.or_eq_false_iff, decide_eq_false_iff_not]
  omega

theorem not_successful_of_rejected (rejected : rejectedStatus status = true) :
    successfulStatus kind status = false := by
  simp only [rejectedStatus, or_eq_true, and_eq_true, decide_eq_true_eq] at rejected
  unfold successfulStatus
  rw [if_neg (by simp only [or_eq_true, decide_eq_true_eq]; omega), if_neg (by omega),
    if_neg (by omega), if_neg (by simp only [or_eq_true, decide_eq_true_eq]; omega)]

/-- The codes by which an atomic group undoes a command, or fails to. -/
def rollbackStatus (status : Int) : Bool := status = 216 || status = 516

theorem rollback_final (kind : String) (undone : rollbackStatus status = true) :
    terminalStatus status = true ∧ successfulStatus kind status = false := by
  simp only [rollbackStatus, or_eq_true, decide_eq_true_eq] at undone
  rcases undone with rfl | rfl
  · exact ⟨by decide, rfl⟩
  · exact ⟨by decide, rfl⟩

/-- What later receipts leave of a terminal status: it stays, unless an atomic group above undoes a
success. -/
def StatusLater (kind : String) (atomic : Bool) (old new : Option Int) : Prop :=
  ∀ s, old = some s → terminalStatus s = true →
    new = some s ∨ (atomic = true ∧ successfulStatus kind s = true ∧
      ∃ t, new = some t ∧ rollbackStatus t = true)

theorem StatusLater.refl (kind : String) (atomic : Bool) (status : Option Int) :
    StatusLater kind atomic status status :=
  fun _ is _ => .inl is

variable {atomic : Bool}

theorem StatusLater.trans {a b c : Option Int} (first : StatusLater kind atomic a b)
    (second : StatusLater kind atomic b c) : StatusLater kind atomic a c := by
  intro s is terminal
  rcases first s is terminal with same | ⟨under, success, t, is', undone⟩
  · exact second s same terminal
  obtain ⟨final, failed⟩ := rollback_final _ undone
  rcases second t is' final with same | ⟨-, success', -⟩
  · exact .inr ⟨under, success, t, same, undone⟩
  · rw [failed] at success'
    cases success'

/-- What a run of receipts preserves of an item. -/
structure Slot.Later (i j : Slot) : Prop where
  phase : j.phase = i.phase
  kind : j.kind = i.kind
  atomic : j.atomic = i.atomic
  status : StatusLater i.kind.asStr i.atomic i.status j.status
  receiptAccepted : i.receiptAccepted = true → j.receiptAccepted = true
  resultAccepted : i.resultAccepted = true → j.resultAccepted = true
  value : ∀ v, i.value = some v → j.value = some v

namespace Slot.Later

theorem refl (i : Slot) : i.Later i where
  phase := rfl
  kind := rfl
  atomic := rfl
  status := .refl _ _ _
  receiptAccepted := id
  resultAccepted := id
  value := fun _ is => is

theorem trans {i j k : Slot} (first : i.Later j) (second : j.Later k) : i.Later k where
  phase := second.phase.trans first.phase
  kind := second.kind.trans first.kind
  atomic := second.atomic.trans first.atomic
  status := by
    have later := second.status
    rw [first.kind, first.atomic] at later
    exact first.status.trans later
  receiptAccepted := fun held => second.receiptAccepted (first.receiptAccepted held)
  resultAccepted := fun held => second.resultAccepted (first.resultAccepted held)
  value := fun v is => second.value v (first.value v is)

end Slot.Later

variable {newValue oldValue : Option String}

theorem compatible_status {kind : CommandKind} {old new : Option Int}
    (compatible : compatibleReceipt kind atomic old new oldValue newValue = true) :
    StatusLater kind.asStr atomic old (new.or old) := by
  intro s is terminal
  subst is
  cases new with
  | none => exact .inl rfl
  | some t =>
    rw [compatibleReceipt, and_eq_true] at compatible
    have allowed := compatible.1
    simp only [any_some, terminal, Bool.true_and, not_eq_true',
      Bool.and_eq_false_iff, decide_eq_false_iff_not, ne_eq, not_not, Bool.not_eq_false',
      and_eq_true] at allowed
    rcases allowed with same | ⟨⟨under, undone⟩, success⟩
    · exact .inl (by rw [same]; rfl)
    · exact .inr ⟨under, success, t, rfl, undone⟩

theorem compatible_value {kind : CommandKind} {old new : Option Int}
    (compatible : compatibleReceipt kind atomic old new oldValue newValue = true) :
    ∀ v, oldValue = some v → newValue.or oldValue = some v := by
  intro v is
  subst is
  rw [compatibleReceipt, and_eq_true] at compatible
  cases newValue with
  | none => rfl
  | some w =>
    have same : v = w := by simpa using compatible.2
    rw [same]
    rfl

variable {i j : Slot}

theorem Slot.receive_later {r : Receipt} (step : i.receive r = some j) : i.Later j := by
  unfold Slot.receive at step
  split at step
  · rename_i compatible
    cases step
    exact {
      phase := rfl
      kind := rfl
      atomic := rfl
      status := compatible_status compatible
      receiptAccepted := fun held => by simp [held]
      resultAccepted := fun held => by simp [held]
      value := compatible_value compatible }
  · cases step

theorem forall₂_refl (items : List Slot) : List.Forall₂ Slot.Later items items := by
  induction items with
  | nil => exact .nil
  | cons i _ ih => exact .cons (.refl i) ih

variable {items : List Slot}

theorem forall₂_set {k : Nat} (found : items[k]? = some i) (later : i.Later j) :
    List.Forall₂ Slot.Later items (items.set k j) := by
  induction items generalizing k with
  | nil => cases found
  | cons first rest ih =>
    cases k with
    | zero =>
      cases found
      exact .cons later (forall₂_refl rest)
    | succ =>
      exact .cons (.refl first) (ih found)

theorem forall₂_trans {a b c : List Slot} (first : List.Forall₂ Slot.Later a b)
    (second : List.Forall₂ Slot.Later b c) : List.Forall₂ Slot.Later a c := by
  induction first generalizing c with
  | nil => exact second
  | cons head _ ih =>
    cases second with
    | cons head' tail' => exact .cons (head.trans head') (ih tail')

theorem receive_later {next : List Slot} {k : Nat} {r : Receipt}
    (step : receive items k r = some next) : List.Forall₂ Slot.Later items next := by
  unfold receive at step
  split at step
  · cases step
  · rename_i i found
    obtain ⟨j, received, rfl⟩ := Option.map_eq_some_iff.mp step
    exact forall₂_set found (Slot.receive_later received)

variable {later : List Slot}

theorem receiveAll_later {receipts : List (Nat × Receipt)}
    (run : receiveAll items receipts = some later) : List.Forall₂ Slot.Later items later := by
  induction receipts generalizing items with
  | nil =>
    cases run
    exact forall₂_refl _
  | cons head rest ih =>
    rw [receiveAll] at run
    split at run
    · cases run
    · rename_i next step
      exact forall₂_trans (receive_later step) (ih run)

theorem later_at (run : List.Forall₂ Slot.Later items later) {k : Nat}
    (found : items[k]? = some i) :
    ∃ j, later[k]? = some j ∧ i.Later j := by
  induction run generalizing k with
  | nil => cases found
  | @cons _ second _ _ head _ ih =>
    cases k with
    | zero =>
      cases found
      exact ⟨second, rfl, head⟩
    | succ =>
      exact ih found

theorem earlier_at (run : List.Forall₂ Slot.Later items later) (member : j ∈ later) :
    ∃ (k : Nat) (i : Slot), items[k]? = some i ∧ later[k]? = some j ∧ i.Later j := by
  induction run with
  | nil => cases member
  | @cons first _ _ _ head _ ih =>
    rcases List.mem_cons.mp member with rfl | inside
    · exact ⟨0, first, rfl, rfl, head⟩
    · obtain ⟨k, i, found, found', related⟩ := ih inside
      exact ⟨k + 1, i, found, found', related⟩

theorem terminalChanges_final {k : Nat} {s : Int} (found : items[k]? = some i)
    (is : i.status = some s) (terminal : terminalStatus s = true)
    (failed : successfulStatus i.kind.asStr s = false) (receipts : List (Nat × Receipt)) :
    terminalChanges k items receipts = 0 := by
  induction receipts generalizing items i with
  | nil => rfl
  | cons head rest ih =>
    rw [terminalChanges]
    split
    · rfl
    rename_i next step
    obtain ⟨j, found', later⟩ := later_at (receive_later step) found
    have same : j.status = some s := by
      rcases later.status s is terminal with same | ⟨-, success, -⟩
      · exact same
      · rw [failed] at success
        cases success
    have unchanged : terminalChange items[k]? next[k]? = false := by
      rw [found, found', terminalChange, any_some, any_some, is, same]
      simp
    have stays := ih found' same (by rw [later.kind]; exact failed)
    rw [unchanged, stays]
    rfl

theorem terminalChanges_le_one (k : Nat) (items : List Slot) (receipts : List (Nat × Receipt)) :
    terminalChanges k items receipts ≤ 1 := by
  induction receipts generalizing items with
  | nil => exact Nat.zero_le 1
  | cons head rest ih =>
    rw [terminalChanges]
    split
    · exact Nat.zero_le 1
    rename_i next step
    cases changed : terminalChange items[k]? next[k]? with
    | false =>
      rw [Bool.toNat_false, Nat.zero_add]
      exact ih next
    | true =>
      have before := changed
      rw [terminalChange, Option.any_eq_true] at before
      obtain ⟨i, found, replaced⟩ := before
      obtain ⟨j, found', later⟩ := later_at (receive_later step) found
      rw [and_eq_true, Option.any_eq_true] at replaced
      obtain ⟨⟨s, is, terminal⟩, differs⟩ := replaced
      rw [found', any_some, decide_eq_true_eq, is] at differs
      rcases later.status s is terminal with same | ⟨-, -, t, is', undone⟩
      · exact absurd same.symm differs
      obtain ⟨final, failed⟩ := rollback_final _ undone
      have stays := terminalChanges_final found' is' final failed rest
      rw [stays]
      exact Nat.le_refl 1

theorem settle_reject {items : List ItemEvidence}
    (rejected : ∃ i ∈ items, i.rejects = true) (packageComplete : Bool) :
    settle items packageComplete = .reject := by
  rw [settle, if_pos (List.any_eq_true.mpr rejected)]

/-- An operation has been received: nothing rejects it, and it has executions, all successful. -/
structure Received (items : List ItemEvidence) : Prop where
  accepted : ∀ i ∈ items, i.rejects = false
  executes : ∃ i ∈ items, i.phase = .execute
  successful : ∀ i ∈ items, i.phase = .execute → i.received = true

theorem settle_receive (items : List ItemEvidence) :
    (∃ q v, settle items true = .receive q v) ↔ Received items := by
  unfold settle
  constructor
  · rintro ⟨q, v, settled⟩
    split at settled
    · cases settled
    rename_i unrejected
    dsimp only at settled
    split at settled
    · cases settled
    rename_i complete
    simp only [Bool.not_true, Bool.false_or, or_eq_true, not_eq_true', not_or,
      Bool.not_eq_false, List.isEmpty_iff, List.all_eq_true, mem_filter,
      decide_eq_true_eq, and_imp] at complete
    obtain ⟨inhabited, all⟩ := complete
    obtain ⟨i, member⟩ := List.exists_mem_of_ne_nil _ inhabited
    rw [mem_filter, decide_eq_true_eq] at member
    refine ⟨?_, ⟨i, member⟩, all⟩
    intro j inside
    by_contra rejects
    exact unrejected (List.any_eq_true.mpr ⟨j, inside, by simpa using rejects⟩)
  · rintro ⟨accepted, ⟨i, member, executes⟩, successful⟩
    have unrejected : ¬ items.any ItemEvidence.rejects = true := by
      rw [List.any_eq_true]
      rintro ⟨j, inside, rejects⟩
      rw [accepted j inside] at rejects
      cases rejects
    have inhabited : (items.filter (fun i => i.phase = .execute)).isEmpty = false := by
      rw [List.isEmpty_eq_false_iff_exists_mem]
      exact ⟨i, mem_filter.mpr ⟨member, decide_eq_true executes⟩⟩
    have all : (items.filter (fun i => i.phase = .execute)).all ItemEvidence.received = true := by
      rw [List.all_eq_true]
      intro j inside
      rw [mem_filter, decide_eq_true_eq] at inside
      exact successful j inside.1 inside.2
    rw [if_neg unrejected]
    rw [if_neg (by rw [inhabited, all]; simp)]
    exact ⟨_, _, rfl⟩

/-- An item under an atomic group whose success was undone. -/
def Slot.RolledBack (i j : Slot) : Prop :=
  i.atomic = true ∧ i.status.any (successfulStatus i.kind.asStr) = true ∧
    (j.status = some 216 ∨ j.status = some 516)

/-- A prerequisite that did not reject the operation and now does. -/
def Slot.NewlyRejects (i j : Slot) : Prop :=
  i.phase = .prepare ∧ i.rejects = false ∧ j.rejects = true

theorem Slot.Later.kept_or_rolledBack (later : i.Later j) {s : Int} (is : i.status = some s)
    (terminal : terminalStatus s = true) : j.status = some s ∨ i.RolledBack j := by
  rcases later.status s is terminal with same | ⟨under, success, t, is', undone⟩
  · exact .inl same
  simp only [rollbackStatus, or_eq_true, decide_eq_true_eq] at undone
  refine .inr ⟨under, by rw [is, any_some, success], ?_⟩
  rcases undone with rfl | rfl
  · exact .inl is'
  · exact .inr is'

theorem Slot.Later.rejects {i j : Slot} (later : i.Later j)
    (rejects : i.rejects = true) : j.rejects = true := by
  simp only [ItemEvidence.rejects, and_eq_true, decide_eq_true_eq,
    Option.any_eq_true] at rejects ⊢
  obtain ⟨⟨acting, accepted⟩, s, is, rejected⟩ := rejects
  have terminal := terminal_of_rejected rejected
  have failed : successfulStatus i.kind.asStr s = false := not_successful_of_rejected rejected
  refine ⟨⟨by rw [later.phase]; exact acting, later.receiptAccepted accepted⟩, s, ?_, rejected⟩
  rcases later.status s is terminal with same | ⟨-, success, -⟩
  · exact same
  · rw [failed] at success
    cases success

theorem Slot.Later.received {i j : Slot} (later : i.Later j) (received : i.received = true) :
    j.received = true ∨ i.RolledBack j := by
  simp only [ItemEvidence.received, and_eq_true, Option.any_eq_true] at received ⊢
  obtain ⟨accepted, s, is, success⟩ := received
  rcases later.kept_or_rolledBack is (terminal_of_successful success) with same | undone
  · exact .inl ⟨later.receiptAccepted accepted, s, same, by rw [later.kind]; exact success⟩
  · exact .inr undone

theorem not_rejects_of_received {i : ItemEvidence} (received : i.received = true) :
    i.rejects = false := by
  simp only [ItemEvidence.received, and_eq_true, Option.any_eq_true] at received
  obtain ⟨-, s, is, success⟩ := received
  cases rejected : rejectedStatus s with
  | true =>
    rw [not_successful_of_rejected rejected] at success
    cases success
  | false => simp [ItemEvidence.rejects, is, rejected]

theorem received_stable (related : List.Forall₂ Slot.Later items later)
    (settled : Received (evidence items))
    (excused : ¬ ∃ (k : Nat) (i j : Slot), items[k]? = some i ∧ later[k]? = some j ∧
      (i.RolledBack j ∨ i.NewlyRejects j)) :
    Received (evidence later) := by
  obtain ⟨accepted, ⟨e, member, executes⟩, successful⟩ := settled
  have keeps : ∀ j ∈ later, j.phase = .execute → j.received = true := by
    intro j inside executes
    obtain ⟨k, i, found, found', advanced⟩ := earlier_at related inside
    have started := successful _ (mem_map_of_mem (List.mem_of_getElem? found))
      (advanced.phase.symm.trans executes)
    rcases advanced.received started with kept | undone
    · exact kept
    · exact absurd ⟨k, i, j, found, found', .inl undone⟩ excused
  refine ⟨?_, ?_, ?_⟩
  · intro x inside
    obtain ⟨j, within, rfl⟩ := mem_map.mp inside
    obtain ⟨k, i, found, found', advanced⟩ := earlier_at related within
    have calm := accepted _ (mem_map_of_mem (List.mem_of_getElem? found))
    cases rejects : j.rejects with
    | false => rfl
    | true =>
      cases phase : i.phase with
      | prepare => exact absurd ⟨k, i, j, found, found', .inr ⟨phase, calm, rejects⟩⟩ excused
      | execute =>
        have failed := not_rejects_of_received
          (keeps j within (advanced.phase.trans phase))
        rw [failed] at rejects
        cases rejects
      | observe =>
        have observes := advanced.phase.trans phase
        simp [ItemEvidence.rejects, observes] at rejects
  · obtain ⟨i, inside, rfl⟩ := mem_map.mp member
    obtain ⟨j, inside', advanced⟩ := exists_right_of_mem related inside
    exact ⟨_, mem_map_of_mem inside', advanced.phase.trans executes⟩
  · intro x inside executes
    obtain ⟨j, within, rfl⟩ := mem_map.mp inside
    exact keeps j within executes

theorem settlement_stable {items later : List Slot} {receipts : List (Nat × Receipt)}
    (run : receiveAll items receipts = some later) :
    (∀ k, terminalChanges k items receipts ≤ 1) ∧
    (∀ (k : Nat) (i : Slot), items[k]? = some i → ∃ j : Slot, later[k]? = some j ∧
      (∀ s, i.status = some s → terminalStatus s = true → j.status = some s ∨ i.RolledBack j) ∧
      ∀ v, i.value = some v → j.value = some v) ∧
    ((∃ i ∈ items, i.atomic = false ∧ i.rejects = true) →
      ∀ packageComplete, settle (evidence items) packageComplete = .reject ∧
        settle (evidence later) packageComplete = .reject) ∧
    (∀ q v, settle (evidence items) true = .receive q v →
      (∃ q' v', settle (evidence later) true = .receive q' v') ∨
        ∃ (k : Nat) (i j : Slot), items[k]? = some i ∧ later[k]? = some j ∧
          (i.RolledBack j ∨ i.NewlyRejects j)) := by
  have related := receiveAll_later run
  refine ⟨fun k => terminalChanges_le_one k items receipts, ?_, ?_, ?_⟩
  · intro k i found
    obtain ⟨j, found', advanced⟩ := later_at related found
    exact ⟨j, found', fun s is terminal => advanced.kept_or_rolledBack is terminal,
      advanced.value⟩
  · rintro ⟨i, member, -, rejects⟩ packageComplete
    obtain ⟨j, member', advanced⟩ := exists_right_of_mem related member
    exact ⟨settle_reject ⟨_, mem_map_of_mem member, rejects⟩ packageComplete,
      settle_reject ⟨_, mem_map_of_mem member', advanced.rejects rejects⟩ packageComplete⟩
  · intro q v settled
    by_cases excused : ∃ (k : Nat) (i j : Slot), items[k]? = some i ∧ later[k]? = some j ∧
      (i.RolledBack j ∨ i.NewlyRejects j)
    · exact Or.inr excused
    · have received := (settle_receive _).mp ⟨q, v, settled⟩
      exact Or.inl ((settle_receive _).mpr (received_stable related received excused))

def replaced (atomic : Bool) : Slot where
  phase := .execute
  kind := .replace
  status := some 200
  receiptAccepted := true
  hasValue := false
  resultAccepted := false
  atomic := atomic
  value := none
  retained := rfl

/-- A query of a prerequisite without a receipt yet. -/
def outstanding : Slot where
  phase := .prepare
  kind := .get
  status := none
  receiptAccepted := false
  hasValue := false
  resultAccepted := false
  atomic := false
  value := none
  retained := rfl

/-- An undone replacement is excused; a second receipt does not change it again. -/
theorem settlement_stable_undone :
    ∃ later, receiveAll [replaced true]
      [(0, ⟨some 216, none, true, false⟩), (0, ⟨some 216, none, false, false⟩)] = some later ∧
    terminalChanges 0 [replaced true]
      [(0, ⟨some 216, none, true, false⟩), (0, ⟨some 216, none, false, false⟩)] ≤ 1 := by
  obtain ⟨later, run⟩ : ∃ later, receiveAll [replaced true]
      [(0, ⟨some 216, none, true, false⟩), (0, ⟨some 216, none, false, false⟩)] = some later :=
    ⟨_, rfl⟩
  exact ⟨later, run, (settlement_stable run).1 0⟩

/-- A received operation is rejected by a late receipt of its prerequisite: nothing is under an
atomic group. -/
theorem late_prerequisite_rejects :
    ∃ later, receiveAll [outstanding, replaced false] [(0, ⟨some 500, none, true, false⟩)] =
        some later ∧
      (∀ i ∈ [outstanding, replaced false], i.atomic = false) ∧
      settle (evidence [outstanding, replaced false]) true = .receive false true ∧
      settle (evidence later) true = .reject :=
  ⟨_, rfl, by decide, by decide, by decide⟩

end RssMdm.WindowsMdm.Native
