/- module: SoftwareRelease/Transition
   source: crates/software-release/src/transition.rs, crates/software-release/src/fingerprint.rs
   digest: The pure publication transition, its replay guard and what one applied step can do. -/

import RssMdm.Lib.Fallible
import RssMdm.SoftwareRelease.Model

set_option autoImplicit false

namespace RssMdm.SoftwareRelease

open Lib.Fallible

/-- Authenticated adapter inputs for an existing publication. -/
inductive Operation (TenantId Timepoint : Type) where
  | retry (publication : PublicationId) (attempt : UInt64)
  | record (publication : PublicationId) (attempt : UInt64)
      (outcome : PublicationResult TenantId Timepoint)
  | withdraw
deriving DecidableEq

/-- Original request envelope; every field is retained for idempotent replay. -/
structure Request (TenantId Timepoint : Type) where
  id : RequestId TenantId
  actor : ActorId TenantId
  expectedRevision : UInt64
  asOf : Timepoint
  operation : Operation TenantId Timepoint
deriving DecidableEq

/-- Original immutable acknowledgement, distinct from current state. -/
structure Receipt (TenantId Timepoint : Type) where
  publication : PublicationKey TenantId
  request : RequestId TenantId
  fingerprint : Digest
  beforeRevision : UInt64
  revision : UInt64
  atTime : Timepoint
deriving DecidableEq

/-- Work allowed only after the state, audit and receipt are committed. -/
inductive Decision (TenantId Timepoint : Type) where
  | updated
  | publish (attempt : Attempt TenantId Timepoint)
  | reconcile (publication : PublicationId) (attempt : UInt64)

/-- Storage input validated by `Publication.restore`. -/
structure Snapshot (TenantId Timepoint : Type) where
  id : PublicationKey TenantId
  revision : UInt64
  atTime : Timepoint
  content : Content
  withdrawn : Bool
  attempt : Attempt TenantId Timepoint

def outcomeEvidence {TenantId Timepoint : Type} : PublicationOutcome TenantId Timepoint →
    Option (Evidence TenantId Timepoint)
  | .pending => none
  | .reported r => some r.evidence

def checkedAdd (a b : UInt64) : Option UInt64 :=
  if a.toNat + b.toNat < 2 ^ 64 then some (a + b) else none

theorem checkedAdd_one {a b : UInt64} (h : checkedAdd a 1 = some b) :
    b.toNat = a.toNat + 1 := by
  unfold checkedAdd at h
  split at h
  · rename_i hlt
    cases h
    have hone : (1 : UInt64).toNat = 1 := rfl
    rw [hone] at hlt
    rw [UInt64.toNat_add, hone, Nat.mod_eq_of_lt hlt]
  · cases h

variable {TenantId Timepoint : Type} [DecidableEq TenantId] [LinearOrder Timepoint]

def Snapshot.tenant (self : Snapshot TenantId Timepoint) (tenant : TenantId) :
    Except Error Unit :=
  if tenant ≠ self.id.tenant then .error .tenantMismatch else .ok ()

def Snapshot.evidence (self : Snapshot TenantId Timepoint)
    (evidence : Evidence TenantId Timepoint) (atTime : Timepoint) : Except Error Unit := do
  self.tenant evidence.actor.tenant
  if evidence.atTime > atTime then .error .invalidTime else .ok ()

variable (env : Environment TenantId Timepoint)

def Snapshot.current (self : Snapshot TenantId Timepoint) (id : PublicationId)
    (attempt : UInt64) : Except Error (Attempt TenantId Timepoint) :=
  if self.attempt.id env ≠ id ∨ self.attempt.attempt ≠ attempt then .error .identityMismatch
  else .ok self.attempt

/-- Complete persisted identity and time relationships. -/
def Snapshot.checkSnapshot (self : Snapshot TenantId Timepoint) : Except Error Unit := do
  let p := self.attempt
  let b := p.binding
  self.tenant b.target.tenant
  self.tenant b.actor.tenant
  self.evidence b.evidence b.atTime
  if b.publication ≠ self.id ∨ b.target.value ≠ self.content.software.source ∨
      b.targetDigest ≠ self.content.sourceSnapshot ∨ b.content ≠ self.content.digest env ∨
      b.targetDigest = Digest.zero then
    .error .identityMismatch
  else if p.attempt = 0 ∨ b.atTime > p.requestedAt ∨ p.requestedAt > self.atTime then
    .error .invalidSnapshot
  else if self.revision = 0 ∧ (self.withdrawn = true ∨ p.attempt ≠ 1 ∨ self.atTime ≠ b.atTime ∨
      p.outcome ≠ .pending) then
    .error .invalidSnapshot
  else
    match outcomeEvidence p.outcome with
    | none => .ok ()
    | some e => do
        self.evidence e self.atTime
        if e.atTime < p.requestedAt then .error .invalidTime else .ok ()

/-- One immutable version published to one actual target; its snapshot always passes the check. -/
structure Publication where
  snapshot : Snapshot TenantId Timepoint
  checked : snapshot.checkSnapshot env = .ok ()

def Publication.restore (snapshot : Snapshot TenantId Timepoint) :
    Except Error (Publication env) :=
  match h : snapshot.checkSnapshot env with
  | .ok () => .ok ⟨snapshot, h⟩
  | .error e => .error e

/-- Accept verified content and its first attempt. -/
def Publication.new (content : Content) (binding : PublicationBinding TenantId Timepoint) :
    Except Error (Publication env) :=
  Publication.restore env {
    id := binding.publication
    revision := 0
    atTime := binding.atTime
    content
    withdrawn := false
    attempt := { binding, attempt := 1, requestedAt := binding.atTime, outcome := .pending } }

def requestEncoding (publication : PublicationKey TenantId)
    (request : Request TenantId Timepoint) : Encoding :=
  let e := Encoding.new "rss-mdm-software-release/request/v1"
  let e := e.object env publication.tenant publication.value
  let e := e.object env request.id.tenant request.id.value
  let e := e.object env request.actor.tenant request.actor.value
  let e := e.number request.expectedRevision
  let e := encodeTime env e request.asOf
  match request.operation with
  | .retry publication attempt => ((e.number 0).digest publication.digest).number attempt
  | .record publication attempt outcome =>
      let e := ((e.number 1).digest publication.digest).number attempt
      let e := e.number (match outcome with
        | .unknown _ => 0
        | .notApplied _ => 1
        | .applied _ => 2)
      encodeEvidence env e outcome.evidence
  | .withdraw => e.number 2

def fingerprint (publication : PublicationKey TenantId) (request : Request TenantId Timepoint) :
    Digest :=
  Encoding.finish env (requestEncoding env publication request)

/-- Pure result; the adapter owns atomic persistence and source I/O. -/
inductive Transition where
  | applied (next : Publication env) (receipt : Receipt TenantId Timepoint)
      (decision : Decision TenantId Timepoint)
  | replayed (receipt : Receipt TenantId Timepoint)

/-- Accept a report unless it contradicts a recorded terminal result. -/
def Attempt.observe (p : Attempt TenantId Timepoint)
    (outcome : PublicationResult TenantId Timepoint) :
    Except Error (Attempt TenantId Timepoint) :=
  match p.outcome with
  | .pending => .ok { p with outcome := .reported outcome }
  | .reported (.unknown _) => .ok { p with outcome := .reported outcome }
  | .reported old => if old = outcome then .ok p else .error .resultConflict

/-- The operation's effect on the cloned snapshot, before revision and time advance. -/
def Snapshot.operate (next : Snapshot TenantId Timepoint) (request : Request TenantId Timepoint) :
    Except Error (Snapshot TenantId Timepoint × Decision TenantId Timepoint) :=
  match request.operation with
  | .withdraw => .ok ({ next with withdrawn := true }, .updated)
  | .retry publication attempt =>
      if next.withdrawn = true then .error .publicationClosed
      else do
        let p ← next.current env publication attempt
        match p.outcome with
        | .reported (.notApplied _) =>
            match checkedAdd p.attempt 1 with
            | none => .error .overflow
            | some n =>
                let p := { p with attempt := n, requestedAt := request.asOf, outcome := .pending }
                .ok ({ next with attempt := p }, .publish p)
        | _ => .error .reconciliationRequired
  | .record publication attempt outcome => do
      next.evidence outcome.evidence request.asOf
      let p ← next.current env publication attempt
      if outcome.evidence.atTime < p.requestedAt ∨
          (outcomeEvidence p.outcome).any
            (fun e => decide (outcome.evidence.atTime < e.atTime)) = true then
        .error .invalidTime
      else do
        let p ← p.observe outcome
        let decision := match outcome with
          | .unknown _ => .reconcile publication attempt
          | _ => .updated
        .ok ({ next with attempt := p }, decision)

/-- Apply a request without effects; errors leave the aggregate unchanged. -/
def Publication.transition (self : Publication env) (request : Request TenantId Timepoint)
    (previous : Option (Receipt TenantId Timepoint)) : Except Error (Transition env) := do
  self.snapshot.tenant request.id.tenant
  self.snapshot.tenant request.actor.tenant
  let fingerprint := fingerprint env self.snapshot.id request
  match previous with
  | some receipt =>
      if receipt.publication ≠ self.snapshot.id ∨ receipt.request ≠ request.id ∨
          receipt.fingerprint ≠ fingerprint then
        .error .requestConflict
      else if receipt.beforeRevision ≠ request.expectedRevision ∨
          checkedAdd receipt.beforeRevision 1 ≠ some receipt.revision ∨
          receipt.revision > self.snapshot.revision ∨ receipt.atTime ≠ request.asOf ∨
          receipt.atTime > self.snapshot.atTime then
        .error .invalidSnapshot
      else .ok (.replayed receipt)
  | none =>
      if request.expectedRevision ≠ self.snapshot.revision then
        .error (.revisionConflict request.expectedRevision self.snapshot.revision)
      else if request.asOf < self.snapshot.atTime then .error .invalidTime
      else do
        let (next, decision) ← self.snapshot.operate env request
        match checkedAdd next.revision 1 with
        | none => .error .overflow
        | some revision =>
            let next ← Publication.restore env { next with revision, atTime := request.asOf }
            .ok (.applied next {
              publication := self.snapshot.id
              request := request.id
              fingerprint
              beforeRevision := self.snapshot.revision
              revision := next.snapshot.revision
              atTime := request.asOf } decision)

/-! What one applied step can do. -/

variable {self : Snapshot TenantId Timepoint}

omit [LinearOrder Timepoint] in
@[simp] theorem Snapshot.tenant_eq_ok {tenant : TenantId} :
    self.tenant tenant = .ok () ↔ tenant = self.id.tenant := by
  unfold Snapshot.tenant
  split <;> simp_all

omit [DecidableEq TenantId] [LinearOrder Timepoint] in
theorem Snapshot.current_eq_ok {id : PublicationId} {attempt : UInt64}
    {p : Attempt TenantId Timepoint} (h : self.current env id attempt = .ok p) :
    p = self.attempt ∧ self.attempt.id env = id ∧ self.attempt.attempt = attempt := by
  unfold Snapshot.current at h
  rw [guard_eq_ok] at h
  obtain ⟨hmatch, hp⟩ := h
  simp only [not_or, not_not] at hmatch
  cases hp
  exact ⟨rfl, hmatch.1, hmatch.2⟩

variable {snapshot : Snapshot TenantId Timepoint}

theorem Publication.restore_eq_ok {p : Publication env}
    (h : Publication.restore env snapshot = .ok p) : p.snapshot = snapshot := by
  unfold Publication.restore at h
  split at h
  · cases h
    rfl
  · cases h

theorem Publication.restore_of_check (h : snapshot.checkSnapshot env = .ok ()) :
    Publication.restore env snapshot = .ok ⟨snapshot, h⟩ := by
  unfold Publication.restore
  split
  · rfl
  · rename_i e he
    rw [h] at he
    cases he

variable {request : Request TenantId Timepoint} {decision : Decision TenantId Timepoint}

theorem Snapshot.operate_cases {next : Snapshot TenantId Timepoint}
    (h : self.operate env request = .ok (next, decision)) :
    (request.operation = .withdraw ∧ next = { self with withdrawn := true } ∧
      decision = .updated) ∨
    (∃ publication attempt evidence n,
      request.operation = .retry publication attempt ∧ self.withdrawn = false ∧
      self.attempt.outcome = .reported (.notApplied evidence) ∧
      checkedAdd self.attempt.attempt 1 = some n ∧
      next = { self with attempt :=
        { self.attempt with attempt := n, requestedAt := request.asOf, outcome := .pending } } ∧
      decision = .publish next.attempt) ∨
    (∃ publication attempt outcome,
      request.operation = .record publication attempt outcome ∧
      (∀ attempt, decision ≠ .publish attempt) ∧
      ((next = self ∧ self.attempt.outcome = .reported outcome) ∨
        (next = { self with attempt := { self.attempt with outcome := .reported outcome } } ∧
          (self.attempt.outcome = .pending ∨
            ∃ e, self.attempt.outcome = .reported (.unknown e))))) := by
  unfold Snapshot.operate at h
  split at h
  case h_1 hop =>
    cases h
    exact .inl ⟨hop, rfl, rfl⟩
  case h_2 publication attempt hop =>
    rw [guard_eq_ok] at h
    obtain ⟨hopen, h⟩ := h
    obtain ⟨p, hp, h⟩ := of_bind h
    obtain ⟨rfl, -, -⟩ := Snapshot.current_eq_ok env hp
    split at h
    case h_1 evidence houtcome =>
      split at h
      case h_1 => cases h
      case h_2 n hn =>
        cases h
        exact .inr (.inl ⟨publication, attempt, evidence, n, hop, by simpa using hopen, houtcome,
          hn, rfl, rfl⟩)
    case h_2 => cases h
  case h_3 publication attempt outcome hop =>
    obtain ⟨_, -, h⟩ := of_bind h
    obtain ⟨p, hp, h⟩ := of_bind h
    obtain ⟨rfl, -, -⟩ := Snapshot.current_eq_ok env hp
    rw [guard_eq_ok] at h
    obtain ⟨q, hq, h⟩ := of_bind h.2
    have hdecision : ∀ a, decision ≠ .publish a := by
      intro a hpublish
      subst hpublish
      cases outcome <;> simp at h
    simp only [Except.ok.injEq, Prod.mk.injEq] at h
    obtain ⟨rfl, -⟩ := h
    refine .inr (.inr ⟨publication, attempt, outcome, hop, hdecision, ?_⟩)
    unfold Attempt.observe at hq
    split at hq
    case h_1 hpending =>
      cases hq
      exact .inr ⟨rfl, .inl hpending⟩
    case h_2 e hunknown =>
      cases hq
      exact .inr ⟨rfl, .inr ⟨e, hunknown⟩⟩
    case h_3 old _ hold =>
      split at hq
      · rename_i hsame
        cases hq
        exact .inl ⟨rfl, hsame ▸ hold⟩
      · cases hq

theorem Publication.transition_applied {self next : Publication env}
    {previous : Option (Receipt TenantId Timepoint)} {receipt : Receipt TenantId Timepoint}
    (h : self.transition env request previous = .ok (.applied next receipt decision)) :
    previous = none ∧ request.id.tenant = self.snapshot.id.tenant ∧
    request.actor.tenant = self.snapshot.id.tenant ∧
    request.expectedRevision = self.snapshot.revision ∧
    self.snapshot.atTime ≤ request.asOf ∧
    ∃ operated revision, self.snapshot.operate env request = .ok (operated, decision) ∧
      checkedAdd operated.revision 1 = some revision ∧
      next.snapshot = { operated with revision, atTime := request.asOf } ∧
      receipt = {
        publication := self.snapshot.id
        request := request.id
        fingerprint := fingerprint env self.snapshot.id request
        beforeRevision := self.snapshot.revision
        revision
        atTime := request.asOf } := by
  unfold Publication.transition at h
  obtain ⟨_, hid, h⟩ := of_bind h
  obtain ⟨_, hactor, h⟩ := of_bind h
  rw [Snapshot.tenant_eq_ok] at hid hactor
  cases previous with
  | some =>
    simp only [guard_eq_ok] at h
    obtain ⟨-, -, h⟩ := h
    cases h
  | none =>
    simp only [guard_eq_ok] at h
    obtain ⟨hrevision, htime, h⟩ := h
    obtain ⟨⟨operated, decided⟩, hoperate, h⟩ := of_bind h
    dsimp only at h
    split at h
    · cases h
    rename_i revision hrev
    obtain ⟨restored, hrestore, h⟩ := of_bind h
    have hsnapshot := Publication.restore_eq_ok env hrestore
    cases h
    refine ⟨rfl, hid, hactor, not_not.mp hrevision, not_lt.mp htime, operated, revision,
      hoperate, hrev, hsnapshot, ?_⟩
    rw [hsnapshot]

end RssMdm.SoftwareRelease
