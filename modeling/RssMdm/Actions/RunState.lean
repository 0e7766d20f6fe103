/- module: Actions/RunState
   source: crates/execution-service/src/actions/state.rs
   digest: The state of one action run, its nine operations and what a single call can do. -/

import RssMdm.Policy.Definition

set_option autoImplicit false

namespace RssMdm.Actions

open Lib.Int64
open Policy (Uuid)
open Bool (or_eq_true)

inductive Error where
  | malformed | conflict | unauthorized | forbidden
deriving DecidableEq

inductive Delivery where
  | queued
  | claimed (attempt : Uuid) (leaseUntil : I64)
  | received (attempt : Uuid) (leaseUntil : I64)
deriving DecidableEq

def Delivery.attempt : Delivery → Option Uuid
  | .queued => none
  | .claimed attempt _ | .received attempt _ => some attempt

def Delivery.leaseUntil : Delivery → Option I64
  | .queued => none
  | .claimed _ lease | .received _ lease => some lease

inductive Execution where
  | notStarted | running | succeeded | failed | waitingReboot | unknown
deriving DecidableEq

/-- A started effect without a final result. -/
def Execution.unsettled : Execution → Bool
  | .running | .unknown | .waitingReboot => true
  | _ => false

inductive Cancellation where
  | none | requested | confirmed
deriving DecidableEq

structure RunState where
  delivery : Delivery
  execution : Execution
  cancellation : Cancellation
  deadline : I64
  startedAt : Option I64
deriving DecidableEq

abbrev Answer : Type := Except Error Unit × RunState

namespace RunState

def new (deadline now : I64) : Except Error RunState :=
  if deadline.val ≤ now.val || now.val < 0 then .error .malformed
  else .ok ⟨.queued, .notStarted, .none, deadline, none⟩

def attempt (s : RunState) : Option Uuid := s.delivery.attempt

/-- A lease is sixty seconds, but never beyond the deadline. -/
def lease (s : RunState) (attempt : Uuid) (now : I64) : Answer :=
  match now.checkedAdd ⟨60, I64.sixty_lo, I64.sixty_hi⟩ with
  | none => (.error .malformed, s)
  | some till =>
      (.ok (), { s with delivery := .claimed attempt (if till.val ≤ s.deadline.val then till
        else s.deadline) })

def claim (s : RunState) (attempt : Uuid) (now : I64) : Answer :=
  if attempt.isNil || now.val < 0 || s.deadline.val ≤ now.val || s.execution ≠ .notStarted ||
      s.cancellation ≠ .none then
    (.error .conflict, s)
  else
    match s.delivery with
    | .queued => s.lease attempt now
    | .claimed old leaseUntil | .received old leaseUntil =>
        if old = attempt && now.val < leaseUntil.val then (.ok (), s)
        else if now.val < leaseUntil.val || old = attempt then (.error .conflict, s)
        else s.lease attempt now

def heldBy (s : RunState) (attempt : Uuid) (now : I64) (old : Uuid) (leaseUntil : I64) : Bool :=
  old = attempt && 0 ≤ now.val && now.val < leaseUntil.val && now.val < s.deadline.val &&
    s.cancellation = .none

def liveAttempt (s : RunState) (attempt : Uuid) (now : I64) : Except Error I64 :=
  match s.delivery with
  | .claimed old leaseUntil | .received old leaseUntil =>
      if s.heldBy attempt now old leaseUntil then .ok leaseUntil else .error .conflict
  | .queued => .error .conflict

def received (s : RunState) (attempt : Uuid) (now : I64) : Answer :=
  match s.liveAttempt attempt now with
  | .error e => (.error e, s)
  | .ok _ => (.ok (), { s with delivery := .received attempt s.deadline })

def isReceived : Delivery → Bool
  | .received _ _ => true
  | _ => false

def start (s : RunState) (attempt : Uuid) (now : I64) : Answer :=
  if s.execution = .running && s.attempt = some attempt && now.val < s.deadline.val &&
      s.cancellation = .none then
    (.ok (), s)
  else
    match s.liveAttempt attempt now with
    | .error e => (.error e, s)
    | .ok _ =>
        if !isReceived s.delivery || s.execution ≠ .notStarted then (.error .conflict, s)
        else (.ok (), { s with execution := .running, startedAt := some now })

def trustsResult (s : RunState) (observedAt : I64) : Bool :=
  s.execution.unsettled && s.startedAt.any (fun start => start.val ≤ observedAt.val)

/-- Evidence from the attempt that started; it may come late, but never starts anything again. -/
def settle (s : RunState) (attempt : Uuid) (execution : Execution) : Answer :=
  if s.attempt ≠ some attempt || !s.execution.unsettled then (.error .conflict, s)
  else (.ok (), { s with execution })

def result (s : RunState) (attempt : Uuid) (success : Bool) : Answer :=
  s.settle attempt (if success then .succeeded else .failed)

def uncertainResult (s : RunState) (attempt : Uuid) : Answer := s.settle attempt .unknown

def waitingReboot (s : RunState) (attempt : Uuid) : Answer := s.settle attempt .waitingReboot

def cancel (s : RunState) : RunState :=
  { s with cancellation := if s.execution = .notStarted then .confirmed else .requested }

def cancelled (s : RunState) (attempt : Uuid) : Answer :=
  if s.attempt = some attempt && s.cancellation = .confirmed then (.ok (), s)
  else if s.attempt ≠ some attempt || s.cancellation ≠ .requested then (.error .conflict, s)
  else
    -- A killed process can already have made changes.
    (.ok (), { s with
      cancellation := .confirmed
      execution := if s.execution = .running then .unknown else s.execution })

def expire (s : RunState) (now : I64) : RunState :=
  let s := if s.execution = .running && s.deadline.val ≤ now.val then
    { s with execution := .unknown } else s
  if s.deadline.val ≤ now.val && s.execution = .notStarted then
    { s with cancellation := .confirmed } else s

end RunState

inductive Operation where
  | claim (attempt : Uuid) (now : I64)
  | received (attempt : Uuid) (now : I64)
  | start (attempt : Uuid) (now : I64)
  | result (attempt : Uuid) (success : Bool)
  | uncertainResult (attempt : Uuid)
  | waitingReboot (attempt : Uuid)
  | cancel
  | cancelled (attempt : Uuid)
  | expire (now : I64)
deriving DecidableEq

def RunState.apply (s : RunState) : Operation → Answer
  | .claim attempt now => s.claim attempt now
  | .received attempt now => s.received attempt now
  | .start attempt now => s.start attempt now
  | .result attempt success => s.result attempt success
  | .uncertainResult attempt => s.uncertainResult attempt
  | .waitingReboot attempt => s.waitingReboot attempt
  | .cancel => (.ok (), s.cancel)
  | .cancelled attempt => s.cancelled attempt
  | .expire now => (.ok (), s.expire now)

/-- The state after any number of calls, whatever they answer. -/
def RunState.run (s : RunState) (ops : List Operation) : RunState :=
  ops.foldl (fun s op => (s.apply op).2) s

inductive Moved (s : RunState) (op : Operation) : RunState → Prop where
  | same : Moved s op s
  | leased (attempt : Uuid) (leaseUntil : I64) (idle : s.execution = .notStarted)
      (free : s.cancellation = .none) (within : leaseUntil.val ≤ s.deadline.val)
      (now : I64) (is : op = .claim attempt now)
      (ended : ∀ lease, s.delivery.leaseUntil = some lease → lease.val ≤ now.val)
      (other : s.attempt ≠ some attempt) (valid : attempt.isNil = false) :
      Moved s op { s with delivery := .claimed attempt leaseUntil }
  | receipted (attempt : Uuid) (leaseUntil now : I64) (is : op = .received attempt now)
      (held : s.attempt = some attempt) (free : s.cancellation = .none)
      (lease : s.delivery.leaseUntil = some leaseUntil) (live : now.val < leaseUntil.val)
      (early : now.val < s.deadline.val) :
      Moved s op { s with delivery := .received attempt s.deadline }
  | started (attempt : Uuid) (leaseUntil now : I64) (is : op = .start attempt now)
      (delivered : s.delivery = .received attempt leaseUntil) (idle : s.execution = .notStarted)
      (free : s.cancellation = .none) (nonnegative : 0 ≤ now.val)
      (early : now.val < s.deadline.val) :
      Moved s op { s with execution := .running, startedAt := some now }
  | settled (execution : Execution) (unsettled : s.execution.unsettled = true)
      (outcome : execution = .succeeded ∨ execution = .failed ∨ execution = .unknown ∨
        execution = .waitingReboot) :
      Moved s op { s with execution }
  | cancelling (is : op = .cancel) : Moved s op s.cancel
  | confirmed (requested : s.cancellation = .requested) :
      Moved s op { s with
        cancellation := .confirmed
        execution := if s.execution = .running then .unknown else s.execution }
  | expired (idle : s.execution = .notStarted) : Moved s op { s with cancellation := .confirmed }

variable {s : RunState} {attempt : Uuid} {now : I64}

theorem liveAttempt_eq_ok {lease : I64} (h : s.liveAttempt attempt now = .ok lease) :
    (s.delivery = .claimed attempt lease ∨ s.delivery = .received attempt lease) ∧
      0 ≤ now.val ∧ now.val < lease.val ∧ now.val < s.deadline.val ∧ s.cancellation = .none := by
  unfold RunState.liveAttempt at h
  cases delivered : s.delivery with
  | queued =>
    rw [delivered] at h
    cases h
  | claimed old leaseUntil =>
    rw [delivered] at h
    simp only [RunState.heldBy, Bool.and_eq_true, decide_eq_true_eq] at h
    split at h
    · rename_i held
      cases h
      exact ⟨.inl (by rw [held.1.1.1.1]), held.1.1.1.2, held.1.1.2, held.1.2, held.2⟩
    · cases h
  | received old leaseUntil =>
    rw [delivered] at h
    simp only [RunState.heldBy, Bool.and_eq_true, decide_eq_true_eq] at h
    split at h
    · rename_i held
      cases h
      exact ⟨.inr (by rw [held.1.1.1.1]), held.1.1.1.2, held.1.1.2, held.1.2, held.2⟩
    · cases h

theorem lease_moved (idle : s.execution = .notStarted) (free : s.cancellation = .none)
    (ended : ∀ lease, s.delivery.leaseUntil = some lease → lease.val ≤ now.val)
    (other : s.attempt ≠ some attempt) (valid : attempt.isNil = false) :
    Moved s (.claim attempt now) (s.lease attempt now).2 := by
  unfold RunState.lease
  split
  · exact .same
  rename_i till _
  refine .leased attempt _ idle free ?_ now rfl ended other valid
  split
  · assumption
  · exact Int.le_refl _

theorem claim_moved : Moved s (.claim attempt now) (s.claim attempt now).2 := by
  unfold RunState.claim
  split
  · exact .same
  rename_i open'
  simp only [or_eq_true, decide_eq_true_eq, not_or, ne_eq, not_not, Bool.not_eq_true] at open'
  obtain ⟨⟨⟨⟨valid, -⟩, -⟩, idle⟩, free⟩ := open'
  have again : ∀ old leaseUntil, s.delivery.leaseUntil = some leaseUntil →
      s.attempt = some old → Moved s (.claim attempt now)
        (if old = attempt && now.val < leaseUntil.val then ((.ok (), s) : Answer)
          else if now.val < leaseUntil.val || old = attempt then (.error .conflict, s)
          else s.lease attempt now).2 := by
    intro old leaseUntil lease held
    split
    · exact .same
    split
    · exact .same
    rename_i ended
    simp only [or_eq_true, decide_eq_true_eq, not_or, not_lt] at ended
    refine lease_moved idle free ?_ ?_ valid
    · intro lease' same
      cases lease.symm.trans same
      exact ended.1
    · intro same
      exact ended.2 (Option.some.inj (held.symm.trans same))
  split
  · rename_i queued
    refine lease_moved idle free ?_ ?_ valid
    · intro lease held
      rw [queued] at held
      cases held
    · intro held
      rw [RunState.attempt, queued] at held
      cases held
  all_goals
    rename_i old leaseUntil delivered
    exact again old leaseUntil (by rw [delivered]; rfl) (by rw [RunState.attempt, delivered]; rfl)

theorem received_moved : Moved s (.received attempt now) (s.received attempt now).2 := by
  unfold RunState.received
  split
  · exact .same
  rename_i lease live
  obtain ⟨delivered, -, before, early, free⟩ := liveAttempt_eq_ok live
  rcases delivered with delivered | delivered <;>
    exact .receipted attempt lease now rfl (by rw [RunState.attempt, delivered]; rfl) free
      (by rw [delivered]; rfl) before early

theorem start_moved : Moved s (.start attempt now) (s.start attempt now).2 := by
  unfold RunState.start
  split
  · exact .same
  split
  · exact .same
  rename_i lease live
  obtain ⟨delivered, nonnegative, -, early, free⟩ := liveAttempt_eq_ok live
  split
  · exact .same
  rename_i ready
  simp only [or_eq_true, Bool.not_eq_true', decide_eq_true_eq, ne_eq, not_or, not_not,
    Bool.not_eq_false] at ready
  rcases delivered with delivered | delivered
  · rw [delivered] at ready
    cases ready.1
  · exact .started attempt lease now rfl delivered ready.2 free nonnegative early

theorem settle_moved {op : Operation} {execution : Execution}
    (outcome : execution = .succeeded ∨ execution = .failed ∨ execution = .unknown ∨
      execution = .waitingReboot) : Moved s op (s.settle attempt execution).2 := by
  unfold RunState.settle
  split
  · exact .same
  rename_i open'
  simp only [or_eq_true, decide_eq_true_eq, Bool.not_eq_true', not_or,
    Bool.not_eq_false] at open'
  exact .settled execution open'.2 outcome

theorem cancelled_moved {op : Operation} : Moved s op (s.cancelled attempt).2 := by
  unfold RunState.cancelled
  split
  · exact .same
  split
  · exact .same
  · rename_i requested
    simp only [or_eq_true, decide_eq_true_eq, ne_eq, not_or, not_not] at requested
    exact .confirmed requested.2

theorem expire_moved {op : Operation} : Moved s op (s.expire now) := by
  unfold RunState.expire
  by_cases late : s.deadline.val ≤ now.val
  · by_cases running : s.execution = .running
    · have unsettled : s.execution.unsettled = true := by rw [running]; rfl
      simp only [running, late, decide_true, Bool.and_true, if_true, reduceCtorEq, decide_false,
        Bool.and_false, Bool.false_eq_true, if_false]
      exact .settled .unknown unsettled (.inr (.inr (.inl rfl)))
    · have first : ¬(decide (s.execution = .running) && decide (s.deadline.val ≤ now.val)) = true := by
        simp [running]
      simp only [if_neg first]
      by_cases idle : s.execution = .notStarted
      · rw [if_pos (by simp [late, idle])]
        exact .expired idle
      · rw [if_neg (by simp [idle])]
        exact .same
  · simp only [late, decide_false, Bool.and_false, Bool.false_and, Bool.false_eq_true, if_false]
    exact .same

theorem apply_moved (s : RunState) (op : Operation) : Moved s op (s.apply op).2 := by
  cases op with
  | claim => exact claim_moved
  | received => exact received_moved
  | start => exact start_moved
  | result _ success =>
    cases success with
    | true => exact settle_moved (.inl rfl)
    | false => exact settle_moved (.inr (.inl rfl))
  | uncertainResult => exact settle_moved (.inr (.inr (.inl rfl)))
  | waitingReboot => exact settle_moved (.inr (.inr (.inr rfl)))
  | cancel => exact .cancelling rfl
  | cancelled => exact cancelled_moved
  | expire => exact expire_moved

theorem apply_error {op : Operation} {e : Error} (h : (s.apply op).1 = .error e) :
    (s.apply op).2 = s := by
  have lease : ∀ attempt now, (s.lease attempt now).1 = .error e → (s.lease attempt now).2 = s := by
    intro attempt now h
    unfold RunState.lease at h ⊢
    split at h
    · rfl
    · cases h
  have settle : ∀ attempt execution, (s.settle attempt execution).1 = .error e →
      (s.settle attempt execution).2 = s := by
    intro attempt execution h
    unfold RunState.settle at h ⊢
    split at h
    · rw [if_pos ‹_›]
    · cases h
  cases op with
  | claim attempt now =>
    simp only [RunState.apply, RunState.claim] at h ⊢
    split at h
    · rw [if_pos ‹_›]
    rw [if_neg ‹_›]
    split at h
    · exact lease attempt now h
    all_goals
      split at h
      · cases h
      split at h
      · rw [if_neg ‹_›, if_pos ‹_›]
      · rw [if_neg ‹_›, if_neg ‹_›]
        exact lease attempt now h
  | received =>
    simp only [RunState.apply, RunState.received] at h ⊢
    split at h
    · rfl
    · cases h
  | start attempt now =>
    simp only [RunState.apply, RunState.start] at h ⊢
    split at h
    · cases h
    rw [if_neg ‹_›]
    split at h
    · rfl
    · split at h
      · rw [if_pos ‹_›]
      · cases h
  | result | uncertainResult | waitingReboot => exact settle _ _ h
  | cancel => cases h
  | cancelled attempt =>
    simp only [RunState.apply, RunState.cancelled] at h ⊢
    split at h
    · cases h
    rw [if_neg ‹_›]
    split at h
    · rw [if_pos ‹_›]
    · cases h
  | expire => cases h

theorem received_eq_ok {s' : RunState} (h : s.received attempt now = (.ok (), s')) :
    s' = { s with delivery := .received attempt s.deadline } := by
  unfold RunState.received at h
  split at h
  · cases h
  · cases h
    rfl

theorem start_eq_ok {s' : RunState} (idle : s.execution = .notStarted)
    (h : s.start attempt now = (.ok (), s')) :
    (∃ lease, s.delivery = .received attempt lease) ∧ now.val < s.deadline.val ∧
      s.cancellation = .none ∧ s' = { s with execution := .running, startedAt := some now } := by
  unfold RunState.start at h
  rw [if_neg (by simp [idle])] at h
  split at h
  · cases h
  rename_i lease live
  obtain ⟨delivered, -, -, early, free⟩ := liveAttempt_eq_ok live
  split at h
  · cases h
  rename_i ready
  simp only [or_eq_true, Bool.not_eq_true', not_or, Bool.not_eq_false] at ready
  cases h
  rcases delivered with delivered | delivered
  · rw [delivered] at ready
    cases ready.1
  · exact ⟨⟨lease, delivered⟩, early, free, rfl⟩

end RssMdm.Actions
