/- module: SoftwareRelease/History
   source: crates/software-release/src/transition.rs, crates/software-release/tests/model.rs
   digest: What every run of transition calls preserves, and replay of any past acknowledgement. -/

import RssMdm.Lib.Sha256
import RssMdm.SoftwareRelease.Transition

set_option autoImplicit false

namespace RssMdm.SoftwareRelease

open Lib.Fallible Lib.SelfDelimiting

variable {TenantId Timepoint : Type} [DecidableEq TenantId] [LinearOrder Timepoint]
variable (env : Environment TenantId Timepoint)

/-- One adapter call: the request and the receipt retained under its identity, if any. -/
structure Call (TenantId Timepoint : Type) where
  request : Request TenantId Timepoint
  previous : Option (Receipt TenantId Timepoint)

/-- The aggregate kept after a call: only an applied transition replaces it. -/
def Publication.after (self : Publication env) (call : Call TenantId Timepoint) :
    Publication env :=
  match self.transition env call.request call.previous with
  | .ok (.applied next _ _) => next
  | _ => self

def Publication.run (self : Publication env) (calls : List (Call TenantId Timepoint)) :
    Publication env :=
  calls.foldl (Publication.after env) self

/-- What one applied transition may change. -/
structure Advances (before next : Snapshot TenantId Timepoint)
    (request : Request TenantId Timepoint) : Prop where
  revision : next.revision.toNat = before.revision.toNat + 1
  time : before.atTime ≤ next.atTime
  withdrawn : before.withdrawn = true → next.withdrawn = true
  attempt : next.attempt.attempt = before.attempt.attempt ∨
    (next.attempt.attempt.toNat = before.attempt.attempt.toNat + 1 ∧
      (∃ publication attempt, request.operation = .retry publication attempt) ∧
      (∃ evidence, before.attempt.outcome = .reported (.notApplied evidence)) ∧
      before.withdrawn = false)

/-- What survives any number of calls. -/
structure Preserves (before next : Snapshot TenantId Timepoint) : Prop where
  id : next.id = before.id
  content : next.content = before.content
  binding : next.attempt.binding = before.attempt.binding
  revision : before.revision.toNat ≤ next.revision.toNat
  time : before.atTime ≤ next.atTime

omit [DecidableEq TenantId] in
theorem Preserves.trans {a b c : Snapshot TenantId Timepoint} (hab : Preserves a b)
    (hbc : Preserves b c) : Preserves a c where
  id := hbc.id.trans hab.id
  content := hbc.content.trans hab.content
  binding := hbc.binding.trans hab.binding
  revision := hab.revision.trans hbc.revision
  time := hab.time.trans hbc.time

section

variable {self next : Publication env} {request : Request TenantId Timepoint}
  {previous : Option (Receipt TenantId Timepoint)} {receipt : Receipt TenantId Timepoint}
  {decision : Decision TenantId Timepoint}

theorem Publication.applied_advances
    (h : self.transition env request previous = .ok (.applied next receipt decision)) :
    Advances self.snapshot next.snapshot request := by
  obtain ⟨-, -, -, -, htime, operated, revision, hoperate, hrevision, hnext, -⟩ :=
    Publication.transition_applied env h
  have hcount := checkedAdd_one hrevision
  rcases Snapshot.operate_cases env hoperate with
    ⟨-, rfl, -⟩ | ⟨publication, attempt, evidence, n, hop, hopen, hout, hn, rfl, -⟩ |
      ⟨_, _, _, -, -, ⟨rfl, -⟩ | ⟨rfl, -⟩⟩
  · rw [hnext]
    exact ⟨hcount, htime, fun _ => rfl, .inl rfl⟩
  · rw [hnext]
    exact ⟨hcount, htime, fun hw => hw, .inr ⟨checkedAdd_one hn,
      ⟨publication, attempt, hop⟩, ⟨evidence, hout⟩, hopen⟩⟩
  · rw [hnext]
    exact ⟨hcount, htime, fun hw => hw, .inl rfl⟩
  · rw [hnext]
    exact ⟨hcount, htime, fun hw => hw, .inl rfl⟩

theorem Publication.applied_preserves
    (h : self.transition env request previous = .ok (.applied next receipt decision)) :
    Preserves self.snapshot next.snapshot := by
  have hadvance := Publication.applied_advances env h
  obtain ⟨-, -, -, -, -, operated, revision, hoperate, -, hnext, -⟩ :=
    Publication.transition_applied env h
  have hrevision : self.snapshot.revision.toNat ≤ next.snapshot.revision.toNat := by
    rw [hadvance.revision]
    exact Nat.le_succ _
  refine ⟨?_, ?_, ?_, hrevision, hadvance.time⟩ <;>
    rcases Snapshot.operate_cases env hoperate with
      ⟨-, rfl, -⟩ | ⟨_, _, _, _, -, -, -, -, rfl, -⟩ | ⟨_, _, _, -, -, ⟨rfl, -⟩ | ⟨rfl, -⟩⟩ <;>
    rw [hnext]

theorem Publication.applied_keeps_settled {evidence : Evidence TenantId Timepoint}
    (hsettled : self.snapshot.attempt.outcome = .reported (.applied evidence))
    (h : self.transition env request previous = .ok (.applied next receipt decision)) :
    next.snapshot.attempt = self.snapshot.attempt ∧ ∀ attempt, decision ≠ .publish attempt := by
  obtain ⟨-, -, -, -, -, operated, revision, hoperate, -, hnext, -⟩ :=
    Publication.transition_applied env h
  rcases Snapshot.operate_cases env hoperate with
    ⟨-, rfl, rfl⟩ | ⟨_, _, e, _, -, -, hout, -, -, -⟩ |
      ⟨_, _, _, -, hdecision, ⟨rfl, -⟩ | ⟨-, hpending | ⟨e, hunknown⟩⟩⟩
  · rw [hnext]
    exact ⟨rfl, fun _ hpublish => by cases hpublish⟩
  · rw [hsettled] at hout
    cases hout
  · rw [hnext]
    exact ⟨rfl, hdecision⟩
  · rw [hsettled] at hpending
    cases hpending
  · rw [hsettled] at hunknown
    cases hunknown

end

theorem Publication.after_cases (self : Publication env) (call : Call TenantId Timepoint) :
    self.after env call = self ∨
      ∃ receipt decision, self.transition env call.request call.previous =
        .ok (.applied (self.after env call) receipt decision) := by
  unfold Publication.after
  split
  · rename_i next receipt decision happlied
    exact .inr ⟨receipt, decision, happlied⟩
  · exact .inl rfl

theorem Publication.run_preserves (self : Publication env)
    (calls : List (Call TenantId Timepoint)) :
    Preserves self.snapshot (self.run env calls).snapshot := by
  induction calls generalizing self with
  | nil => exact ⟨rfl, rfl, rfl, le_rfl, le_rfl⟩
  | cons call _ ih =>
    have hrest := ih (self.after env call)
    rcases Publication.after_cases env self call with hsame | ⟨receipt, decision, happlied⟩
    · simpa only [Publication.run, List.foldl_cons, hsame] using ih self
    · exact (Publication.applied_preserves env happlied).trans hrest

theorem Publication.run_keeps_settled (self : Publication env)
    {evidence : Evidence TenantId Timepoint}
    (hsettled : self.snapshot.attempt.outcome = .reported (.applied evidence))
    (calls : List (Call TenantId Timepoint)) :
    (self.run env calls).snapshot.attempt = self.snapshot.attempt := by
  induction calls generalizing self with
  | nil => rfl
  | cons call _ ih =>
    rcases Publication.after_cases env self call with hsame | ⟨receipt, decision, happlied⟩
    · simpa only [Publication.run, List.foldl_cons, hsame] using ih self hsettled
    · have hattempt := (Publication.applied_keeps_settled env hsettled happlied).1
      have hrest := ih (self.after env call) (by rw [hattempt]; exact hsettled)
      exact hrest.trans hattempt

theorem Publication.new_snapshot {content : Content}
    {binding : PublicationBinding TenantId Timepoint} {initial : Publication env}
    (h : Publication.new env content binding = .ok initial) :
    initial.snapshot.id = binding.publication ∧ initial.snapshot.content = content ∧
      initial.snapshot.attempt.binding = binding := by
  rw [Publication.restore_eq_ok env h]
  exact ⟨rfl, rfl, rfl⟩

/-- The aggregate invariant over every run from creation. -/
theorem publication_run_invariant {content : Content}
    {binding : PublicationBinding TenantId Timepoint} {initial : Publication env}
    (hnew : Publication.new env content binding = .ok initial)
    (calls : List (Call TenantId Timepoint)) :
    let current := initial.run env calls
    current.snapshot.checkSnapshot env = .ok () ∧
    current.snapshot.id = binding.publication ∧
    current.snapshot.content = content ∧
    current.snapshot.attempt.binding = binding ∧
    current.snapshot.attempt.id env = binding.publicationId env ∧
    (∀ call : Call TenantId Timepoint,
      match current.transition env call.request call.previous with
      | .error _ | .ok (.replayed _) => current.after env call = current
      | .ok (.applied next _ _) =>
        current.after env call = next ∧
          Advances current.snapshot next.snapshot call.request) ∧
    (∀ evidence, current.snapshot.attempt.outcome = .reported (.applied evidence) →
      ∀ later : List (Call TenantId Timepoint),
        let final := current.run env later
        final.snapshot.attempt.attempt = current.snapshot.attempt.attempt ∧
        final.snapshot.attempt.outcome = current.snapshot.attempt.outcome ∧
        ∀ (call : Call TenantId Timepoint) (next : Publication env)
          (receipt : Receipt TenantId Timepoint) (decision : Decision TenantId Timepoint),
          final.transition env call.request call.previous =
              .ok (.applied next receipt decision) →
            ∀ attempt, decision ≠ .publish attempt) := by
  intro current
  obtain ⟨hid, hcontent, hbinding⟩ := Publication.new_snapshot env hnew
  have hkept : Preserves initial.snapshot current.snapshot :=
    Publication.run_preserves env initial calls
  have hbound : current.snapshot.attempt.binding = binding := hkept.binding.trans hbinding
  refine ⟨current.checked, hkept.id.trans hid, hkept.content.trans hcontent, hbound, ?_, ?_, ?_⟩
  · rw [Attempt.id, hbound]
  · intro call
    unfold Publication.after
    split
    · rename_i e he
      simp only [he]
    · rename_i receipt he
      simp only [he]
    · rename_i next receipt decision he
      simp only [he, true_and]
      exact Publication.applied_advances env he
  · intro evidence hsettled later final
    have hattempt := Publication.run_keeps_settled env current hsettled later
    refine ⟨congrArg Attempt.attempt hattempt, congrArg Attempt.outcome hattempt, ?_⟩
    intro call next receipt decision happlied
    have hfinal : final.snapshot.attempt.outcome = .reported (.applied evidence) := by
      rw [congrArg Attempt.outcome hattempt]
      exact hsettled
    exact (Publication.applied_keeps_settled env hfinal happlied).2

/-! The publication of the crate's own tests, under the actual hash. -/

namespace Fixture

abbrev Tenant := { octets : List UInt8 // octets.length = 16 }

abbrev Time := { seconds : Int // -2 ^ 63 ≤ seconds ∧ seconds < 2 ^ 63 }

def environment : Environment Tenant Time where
  octets tenant := tenant.val
  unixSeconds time := Int64.ofInt time.val
  sha256 bytes := ⟨RssMdm.Lib.Sha256.digest bytes, RssMdm.Lib.Sha256.digest_length bytes⟩

theorem environment_lawful : environment.Lawful where
  octets_length tenant := tenant.property
  octets_injective := Subtype.val_injective
  unixSeconds_injective := by
    intro a b h
    have hint := congrArg Int64.toInt h
    simp only [environment] at hint
    rw [Int64.toInt_ofInt_of_le a.property.1 a.property.2,
      Int64.toInt_ofInt_of_le b.property.1 b.property.2] at hint
    exact Subtype.ext hint

def tenant : Tenant := ⟨[0x10, 0, 0, 0, 0, 0, 0, 0, 0, 0, 0, 0, 0, 0, 0, 1], rfl⟩

theorem seconds_range (n : UInt32) : -2 ^ 63 ≤ (n.toNat : Int) ∧ (n.toNat : Int) < 2 ^ 63 := by
  have := n.toNat_lt
  omega

def seconds (n : UInt32) : Time := ⟨n.toNat, seconds_range n⟩

def filled (b : UInt8) : Digest := ⟨List.replicate 32 b, by simp⟩

def actor : ActorId Tenant := ⟨tenant, "operator", by decide⟩

def evidence (time : Time) : Evidence Tenant Time := ⟨actor, filled 9, time⟩

def content : Content where
  software := ⟨"internal", "App", "2", "windows", by decide⟩
  description := filled 1
  sourceSnapshot := filled 2
  manifest := filled 3
  variants := [⟨"x64", "msi", [⟨"installer", filled 4, by decide⟩], by decide, by decide,
    by decide, by decide⟩]
  variants_size := by decide
  variants_sorted := by decide
  shared := by decide

def binding : PublicationBinding Tenant Time where
  publication := ⟨tenant, "record", by decide⟩
  content := content.digest environment
  target := ⟨tenant, "internal", by decide⟩
  targetDigest := filled 2
  evidence := evidence (seconds 1)
  lifecycle := filled 8
  actor := actor
  atTime := seconds 1

def snapshot : Snapshot Tenant Time where
  id := binding.publication
  revision := 0
  atTime := binding.atTime
  content := content
  withdrawn := false
  attempt := { binding, attempt := 1, requestedAt := binding.atTime, outcome := .pending }

theorem pending_checked {revision : UInt64} {atTime : Time} {withdrawn : Bool}
    (later : binding.atTime ≤ atTime)
    (fresh : ¬ (revision = 0 ∧ (withdrawn = true ∨ atTime ≠ binding.atTime))) :
    Snapshot.checkSnapshot environment { snapshot with revision, atTime, withdrawn } = .ok () := by
  have tenants : binding.target.tenant = binding.publication.tenant ∧
      binding.actor.tenant = binding.publication.tenant ∧
        binding.evidence.actor.tenant = binding.publication.tenant := ⟨rfl, rfl, rfl⟩
  have gathered : ¬ binding.evidence.atTime > binding.atTime := by decide
  have source : binding.target.value = content.software.source := rfl
  have zero : binding.targetDigest ≠ Digest.zero := by decide
  have same : binding.targetDigest = content.sourceSnapshot := rfl
  have described : binding.content = content.digest environment := rfl
  have first : (1 : UInt64) ≠ 0 := by decide
  have ordered : ¬ binding.atTime > atTime := not_lt.mpr later
  simp only [Snapshot.checkSnapshot, Snapshot.tenant, Snapshot.evidence, snapshot, tenants, gathered,
    source, ← same, ← described, zero, first, ordered, outcomeEvidence, ne_eq, not_true_eq_false,
    or_self, if_false, false_or, or_false]
  exact if_neg fresh

theorem snapshot_checked : snapshot.checkSnapshot environment = .ok () :=
  pending_checked le_rfl (by simp)

def publication : Publication environment := ⟨snapshot, snapshot_checked⟩

theorem publication_new : Publication.new environment content binding = .ok publication :=
  Publication.restore_of_check environment snapshot_checked

end Fixture

/-- The test publication, withdrawn in one call, still satisfies the run invariant. -/
theorem publication_run_invariant_fixture :
    Publication.new Fixture.environment Fixture.content Fixture.binding =
      .ok Fixture.publication ∧
    (Fixture.publication.run Fixture.environment [⟨⟨⟨Fixture.tenant, "close", by decide⟩,
      Fixture.actor, 0, Fixture.seconds 10, .withdraw⟩, none⟩]).snapshot.attempt.binding =
      Fixture.binding :=
  ⟨Fixture.publication_new,
    (publication_run_invariant Fixture.environment Fixture.publication_new _).2.2.2.1⟩

end RssMdm.SoftwareRelease
