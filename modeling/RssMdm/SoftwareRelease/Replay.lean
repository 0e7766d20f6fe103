/- module: SoftwareRelease/Replay
   source: crates/software-release/src/transition.rs, crates/software-release/src/fingerprint.rs
   digest: Original requests replay from every later state; altered requests are always refused. -/

import RssMdm.SoftwareRelease.History

set_option autoImplicit false

namespace RssMdm.SoftwareRelease

open Lib.Fallible Lib.SelfDelimiting
open List (append_assoc)

variable {TenantId Timepoint : Type} (env : Environment TenantId Timepoint)

def timeBytes (time : Timepoint) : List UInt8 :=
  beBytes (env.unixSeconds time).toUInt64.toNat

private theorem toUInt64_injective : Function.Injective Int64.toUInt64 := by
  rintro ⟨a⟩ ⟨b⟩ h
  exact congrArg Int64.ofUInt64 h

private theorem timeBytes_peel (law : env.Lawful) {t t' : Timepoint} {r s : List UInt8}
    (h : timeBytes env t ++ r = timeBytes env t' ++ s) : t = t' ∧ r = s := by
  obtain ⟨hseconds, hrest⟩ := isSelfDelimiting_number _ trivial _ trivial _ _ h
  exact ⟨law.unixSeconds_injective (toUInt64_injective hseconds), hrest⟩

def resultTag : PublicationResult TenantId Timepoint → UInt64
  | .unknown _ => 0
  | .notApplied _ => 1
  | .applied _ => 2

private theorem result_ext {a b : PublicationResult TenantId Timepoint}
    (htag : resultTag a = resultTag b) (hevidence : a.evidence = b.evidence) : a = b := by
  cases a <;> cases b <;> simp_all [resultTag, PublicationResult.evidence]

def evidenceBytes (e : Evidence TenantId Timepoint) : List UInt8 :=
  objectBytes env e.actor.tenant e.actor.value ++ (e.digest.bytes ++ timeBytes env e.atTime)

private theorem evidenceBytes_injective (law : env.Lawful) {a b : Evidence TenantId Timepoint}
    (h : evidenceBytes env a = evidenceBytes env b) : a = b := by
  have happ : evidenceBytes env a ++ [] = evidenceBytes env b ++ [] := by rw [h]
  simp only [evidenceBytes, append_assoc] at happ
  obtain ⟨htenant, hvalue, h⟩ := objectBytes_peel env law
    (by have := a.actor.value_size_le; omega) (by have := b.actor.value_size_le; omega) happ
  obtain ⟨hdigest, h⟩ := isSelfDelimiting_digest _ trivial _ trivial _ _ h
  obtain ⟨htime, -⟩ := timeBytes_peel env law h
  obtain ⟨⟨_, _, _⟩, _, _⟩ := a
  obtain ⟨⟨_, _, _⟩, _, _⟩ := b
  simp_all

def operationBytes : Operation TenantId Timepoint → List UInt8
  | .retry publication attempt =>
      beBytes (0 : UInt64).toNat ++ (publication.digest.bytes ++ beBytes attempt.toNat)
  | .record publication attempt outcome =>
      beBytes (1 : UInt64).toNat ++ (publication.digest.bytes ++ (beBytes attempt.toNat ++
        (beBytes (resultTag outcome).toNat ++ evidenceBytes env outcome.evidence)))
  | .withdraw => beBytes (2 : UInt64).toNat

private theorem operationBytes_injective (law : env.Lawful) {a b : Operation TenantId Timepoint}
    (h : operationBytes env a = operationBytes env b) : a = b := by
  have happ : operationBytes env a ++ [] = operationBytes env b ++ [] := by rw [h]
  -- the leading tag separates the three operations before any payload is compared
  cases a with
  | retry publication =>
    cases b with
    | retry publication' =>
      simp only [operationBytes, append_assoc] at happ
      obtain ⟨-, h⟩ := isSelfDelimiting_number _ trivial _ trivial _ _ happ
      obtain ⟨hdigest, h⟩ := isSelfDelimiting_digest _ trivial _ trivial _ _ h
      obtain ⟨hattempt, -⟩ := isSelfDelimiting_number _ trivial _ trivial _ _ h
      cases publication
      cases publication'
      simp_all
    | record | withdraw =>
      simp only [operationBytes, append_assoc] at happ
      exact absurd (isSelfDelimiting_number _ trivial _ trivial _ _ happ).1 (by decide)
  | record publication =>
    cases b with
    | retry =>
      simp only [operationBytes, append_assoc] at happ
      exact absurd (isSelfDelimiting_number _ trivial _ trivial _ _ happ).1 (by decide)
    | record publication' =>
      simp only [operationBytes, append_assoc] at happ
      obtain ⟨-, h⟩ := isSelfDelimiting_number _ trivial _ trivial _ _ happ
      obtain ⟨hdigest, h⟩ := isSelfDelimiting_digest _ trivial _ trivial _ _ h
      obtain ⟨hattempt, h⟩ := isSelfDelimiting_number _ trivial _ trivial _ _ h
      obtain ⟨htag, h⟩ := isSelfDelimiting_number _ trivial _ trivial _ _ h
      have hevidence := evidenceBytes_injective env law (List.append_cancel_right h)
      have houtcome := result_ext htag hevidence
      cases publication
      cases publication'
      simp_all
    | withdraw =>
      simp only [operationBytes, append_assoc] at happ
      exact absurd (isSelfDelimiting_number _ trivial _ trivial _ _ happ).1 (by decide)
  | withdraw =>
    cases b with
    | retry | record =>
      simp only [operationBytes, append_assoc] at happ
      exact absurd (isSelfDelimiting_number _ trivial _ trivial _ _ happ).1 (by decide)
    | withdraw => rfl

/-- The request's own bytes after the domain and the publication key. -/
def requestBytes (r : Request TenantId Timepoint) : List UInt8 :=
  objectBytes env r.id.tenant r.id.value ++ (objectBytes env r.actor.tenant r.actor.value ++
    (beBytes r.expectedRevision.toNat ++ (timeBytes env r.asOf ++ operationBytes env r.operation)))

theorem requestEncoding_eq (key : PublicationKey TenantId) (r : Request TenantId Timepoint) :
    requestEncoding env key r = Encoding.new "rss-mdm-software-release/request/v1" ++
      (objectBytes env key.tenant key.value ++ requestBytes env r) := by
  rcases r with ⟨id, actor, revision, asOf, operation⟩
  cases operation with
  | retry =>
    simp [requestEncoding, requestBytes, operationBytes, objectBytes, timeBytes, encodeTime,
      Encoding.object, Encoding.number, Encoding.bytes, Encoding.digest]
  | record _ _ outcome =>
    cases outcome <;>
    simp [requestEncoding, requestBytes, operationBytes, objectBytes, timeBytes, encodeTime,
      evidenceBytes, encodeEvidence, resultTag, PublicationResult.evidence,
      Encoding.object, Encoding.number, Encoding.bytes, Encoding.digest]
  | withdraw =>
    simp [requestEncoding, requestBytes, operationBytes, objectBytes, timeBytes, encodeTime,
      Encoding.object, Encoding.number, Encoding.bytes]

variable {a b : Request TenantId Timepoint}

theorem requestEncoding_determines (law : env.Lawful) {key key' : PublicationKey TenantId}
    (h : requestEncoding env key a = requestEncoding env key' b) : key = key' ∧ a = b := by
  rw [requestEncoding_eq, requestEncoding_eq] at h
  have h := List.append_cancel_left h
  obtain ⟨hkeyTenant, hkeyValue, h⟩ := objectBytes_peel env law
    (by have := key.value_size_le; omega) (by have := key'.value_size_le; omega) h
  simp only [requestBytes] at h
  obtain ⟨hidTenant, hidValue, h⟩ := objectBytes_peel env law
    (by have := a.id.value_size_le; omega) (by have := b.id.value_size_le; omega) h
  obtain ⟨hactorTenant, hactorValue, h⟩ := objectBytes_peel env law
    (by have := a.actor.value_size_le; omega) (by have := b.actor.value_size_le; omega) h
  obtain ⟨hrevision, h⟩ := isSelfDelimiting_number _ trivial _ trivial _ _ h
  obtain ⟨htime, h⟩ := timeBytes_peel env law h
  have hoperation := operationBytes_injective env law h
  obtain ⟨_, _, _⟩ := key
  obtain ⟨_, _, _⟩ := key'
  obtain ⟨⟨_, _, _⟩, ⟨_, _, _⟩, _, _, _⟩ := a
  obtain ⟨⟨_, _, _⟩, ⟨_, _, _⟩, _, _, _⟩ := b
  simp_all

theorem requestEncoding_injective (law : env.Lawful) (key : PublicationKey TenantId)
    (h : requestEncoding env key a = requestEncoding env key b) : a = b :=
  (requestEncoding_determines env law h).2

variable [DecidableEq TenantId] [LinearOrder Timepoint]
  {request : Request TenantId Timepoint} {receipt : Receipt TenantId Timepoint}

theorem Publication.replays_original {self next : Publication env}
    {decision : Decision TenantId Timepoint}
    (happlied : self.transition env request none = .ok (.applied next receipt decision))
    {later : Publication env} (hlater : Preserves next.snapshot later.snapshot) :
    later.transition env request (some receipt) = .ok (.replayed receipt) := by
  have hstep := Publication.applied_preserves env happlied
  have hid : later.snapshot.id = self.snapshot.id := hlater.id.trans hstep.id
  obtain ⟨-, htenant, hactor, hexpected, -, operated, revision, hoperate, hrevision, hnext, rfl⟩ :=
    Publication.transition_applied env happlied
  have hcounted : operated.revision = self.snapshot.revision := by
    rcases Snapshot.operate_cases env hoperate with
      ⟨-, rfl, -⟩ | ⟨_, _, _, _, -, -, -, -, rfl, -⟩ | ⟨_, _, _, -, -, ⟨rfl, -⟩ | ⟨rfl, -⟩⟩ <;> rfl
  rw [hcounted] at hrevision
  have hrev : revision.toNat ≤ later.snapshot.revision.toNat := by
    have hle := hlater.revision
    rwa [hnext] at hle
  have htime : request.asOf ≤ later.snapshot.atTime := by
    have hle := hlater.time
    rwa [hnext] at hle
  have hidTenant : later.snapshot.tenant request.id.tenant = .ok () := by simp [htenant, hid]
  have hactorTenant : later.snapshot.tenant request.actor.tenant = .ok () := by
    simp [hactor, hid]
  simp [Publication.transition, hidTenant, hactorTenant, hid, hexpected, hrevision,
    UInt64.le_iff_toNat_le.mpr hrev, htime]

theorem Publication.refuses_altered {later : Publication env}
    (hfingerprint : receipt.fingerprint ≠ fingerprint env later.snapshot.id request) :
    ∃ e, later.transition env request (some receipt) = .error e := by
  unfold Publication.transition
  cases later.snapshot.tenant request.id.tenant with
  | error e => exact ⟨e, rfl⟩
  | ok =>
    cases later.snapshot.tenant request.actor.tenant with
    | error e => exact ⟨e, rfl⟩
    | ok => exact ⟨.requestConflict, by simp [hfingerprint]⟩

/-- Replay over whole histories: the original request is acknowledged again from every later
state without a change, and a request altered in any field is refused there. -/
theorem publication_replay_exact (law : env.Lawful) {self next : Publication env}
    {request : Request TenantId Timepoint} {receipt : Receipt TenantId Timepoint}
    {decision : Decision TenantId Timepoint}
    (happlied : self.transition env request none = .ok (.applied next receipt decision))
    (calls : List (Call TenantId Timepoint)) :
    let later := next.run env calls
    later.transition env request (some receipt) = .ok (.replayed receipt) ∧
    later.after env ⟨request, some receipt⟩ = later ∧
    ∀ requests : Set (Request TenantId Timepoint), request ∈ requests →
      Set.InjOn env.sha256 (requestEncoding env self.snapshot.id '' requests) →
      ∀ altered ∈ requests, altered ≠ request →
        ∃ e, later.transition env altered (some receipt) = .error e := by
  intro later
  have hkept := Publication.run_preserves env next calls
  have hreplay := Publication.replays_original env happlied hkept
  refine ⟨hreplay, ?_, ?_⟩
  · simp only [Publication.after, later, hreplay]
  · intro requests hmem hinj altered haltered hne
    have hid : later.snapshot.id = self.snapshot.id :=
      hkept.id.trans (Publication.applied_preserves env happlied).id
    obtain ⟨-, -, -, -, -, operated, revision, -, -, -, hreceipt⟩ :=
      Publication.transition_applied env happlied
    apply Publication.refuses_altered
    rw [hid, hreceipt]
    intro hsame
    have hencoding := hinj (Set.mem_image_of_mem _ hmem) (Set.mem_image_of_mem _ haltered) hsame
    exact hne (requestEncoding_injective env law self.snapshot.id hencoding).symm

namespace Fixture

/-- The withdrawal of the crate's replay test. -/
def close : Request Tenant Time :=
  ⟨⟨tenant, "close", by decide⟩, actor, 0, seconds 10, .withdraw⟩

def altered : Request Tenant Time := { close with actor := ⟨tenant, "other", by decide⟩ }

def withdrawn : Snapshot Tenant Time :=
  { snapshot with withdrawn := true, revision := 1, atTime := seconds 10 }

theorem withdrawn_checked : withdrawn.checkSnapshot environment = .ok () :=
  pending_checked (by decide) (by simp)

def closeReceipt : Receipt Tenant Time where
  publication := snapshot.id
  request := close.id
  fingerprint := fingerprint environment snapshot.id close
  beforeRevision := 0
  revision := 1
  atTime := seconds 10

theorem close_applied : publication.transition environment close none =
    .ok (.applied ⟨withdrawn, withdrawn_checked⟩ closeReceipt .updated) := by
  have hrestore : Publication.restore environment withdrawn = .ok ⟨withdrawn, withdrawn_checked⟩ :=
    Publication.restore_of_check environment withdrawn_checked
  have hid : publication.snapshot.tenant close.id.tenant = .ok () := by decide
  have hactor : publication.snapshot.tenant close.actor.tenant = .ok () := by decide
  have hrevision : close.expectedRevision = publication.snapshot.revision := rfl
  have htime : ¬ close.asOf < publication.snapshot.atTime := by decide
  have hoperate : publication.snapshot.operate environment close =
      .ok ({ snapshot with withdrawn := true }, .updated) := rfl
  have hcount : checkedAdd snapshot.revision 1 = some 1 := by decide
  rw [Publication.transition, hid, ok_bind, hactor, ok_bind]
  dsimp only
  rw [if_neg (not_not.mpr hrevision), if_neg htime, hoperate, ok_bind]
  dsimp only
  rw [hcount]
  change (Publication.restore environment withdrawn >>= _) = _
  rw [hrestore]
  rfl

theorem sha256_separates : Set.InjOn environment.sha256
    (requestEncoding environment publication.snapshot.id '' {close, altered}) := by
  have hdistinct : environment.sha256 (requestEncoding environment publication.snapshot.id close) ≠
      environment.sha256 (requestEncoding environment publication.snapshot.id altered) := by
    set_option maxRecDepth 4000 in
    decide
  rintro _ ⟨a, ha, rfl⟩ _ ⟨b, hb, rfl⟩ h
  rcases ha with rfl | rfl <;> rcases hb with rfl | rfl
  · rfl
  · exact absurd h hdistinct
  · exact absurd h.symm hdistinct
  · rfl

end Fixture

/-- Both halves of the replay guard on the test withdrawal and its altered copy. -/
theorem publication_replay_exact_fixture :
    Fixture.altered ≠ Fixture.close ∧
    ∃ (next : Publication Fixture.environment) (receipt : Receipt Fixture.Tenant Fixture.Time),
      next.transition Fixture.environment Fixture.close (some receipt) =
        .ok (.replayed receipt) ∧
      ∃ e, next.transition Fixture.environment Fixture.altered (some receipt) = .error e := by
  have hne : Fixture.altered ≠ Fixture.close := by decide
  have h := publication_replay_exact Fixture.environment Fixture.environment_lawful
    Fixture.close_applied []
  exact ⟨hne, _, _, h.1, h.2.2 {Fixture.close, Fixture.altered} (by simp)
    Fixture.sha256_separates Fixture.altered (by simp) hne⟩

end RssMdm.SoftwareRelease
