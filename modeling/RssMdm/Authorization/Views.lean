/- module: Authorization/Views
   source: crates/authorization-service/src/evaluate.rs
   digest: One set of grants stands behind the checks on a device, the device lists and the effective grants. -/

import RssMdm.Authorization.Evaluate

set_option autoImplicit false

namespace RssMdm.Authorization

open Lib

section

/-- The session answers while the calls run; its groups and departments may be missing or expired. -/
structure SubjectFacts.Live (f : SubjectFacts) : Prop where
  checked : f.checkLive = .ok ()
  groups : ∃ verified, f.groups = .ok verified ∧
    ∀ groups, verified = .available groups → groups.values ≠ .error .proofExpired
  departments : ∃ verified, f.departmentSnapshot = .ok verified ∧
    ∀ department, verified = .available department → department.snapshot ≠ .error .proofExpired

/-- A session that stays live, or a key that the snapshot still holds as it was proved. -/
inductive Snapshot.Live (s : Snapshot) : AuthorizedPrincipal → Prop
  | account {session : SubjectFacts} (live : session.Live) : Live s (.account session)
  | apiKey {proof : KeyProof} {key : KeyRecord} (checked : proof.checkLive = .ok ())
      (found : s.keys.find? (fun key => key.id = proof.id) = some key)
      (credential : key.credentialRevision = proof.credentialRevision)
      (authority : key.authorityRevision = proof.authorityRevision)
      (kept : key.revoked = false) (enabled : key.metadata.enabled = true) : Live s (.apiKey proof)

variable {s : Snapshot} {proof : AuthorizedPrincipal} {session : SubjectFacts}

theorem Snapshot.Live.checkLive (live : s.Live proof) : proof.checkLive = .ok () := by
  cases live with
  | account live => exact live.checked
  | apiKey checked => exact checked

theorem SubjectFacts.Live.decided (live : session.Live) (s : Snapshot) (subject : Subject) :
    ∃ matched, s.matchesFacts session subject = .ok matched := by
  cases subject with
  | user | userGroup => exact ⟨_, rfl⟩
  | idpGroup source id =>
    obtain ⟨verified, answered, fresh⟩ := live.groups
    cases verified with
    | unavailable => exact ⟨none, by simp [Snapshot.matchesFacts, answered]⟩
    | available groups =>
      have fresh := fresh groups rfl
      simp only [Snapshot.matchesFacts, answered, idpGroupFacts]
      split
      · exact ⟨none, rfl⟩
      split
      · exact ⟨none, rfl⟩
      · rename_i expired
        exact absurd expired fresh
      · exact ⟨_, rfl⟩
  | department source id matching =>
    obtain ⟨verified, answered, fresh⟩ := live.departments
    cases verified with
    | unavailable => exact ⟨none, by simp [Snapshot.matchesFacts, answered]⟩
    | available department =>
      have fresh := fresh department rfl
      simp only [Snapshot.matchesFacts, answered, departmentFacts]
      split
      · exact ⟨none, rfl⟩
      split
      · exact ⟨none, rfl⟩
      · rename_i expired
        exact absurd expired fresh
      · exact ⟨_, rfl⟩

end

section

def Snapshot.Held (s : Snapshot) (session : SubjectFacts) (records : List (Revision Rule)) (g : Grant) :
    Prop :=
  ∃ record ∈ records, ∃ rule, record.value = some rule ∧
    (∃ observation, s.matchesFacts session rule.subject = .ok (some observation)) ∧ g ∈ rule.grants

def Snapshot.Gives (s : Snapshot) : AuthorizedPrincipal → Grant → Prop
  | .account session, g => s.Held session s.rules g
  | .apiKey proof, g =>
      ∃ key, s.keys.find? (fun key => key.id = proof.id) = some key ∧ g ∈ key.metadata.grants
  | .initialization _ _, _ => False

variable {s : Snapshot} {session : SubjectFacts} {record : Revision Rule} {rest : List (Revision Rule)}
  {rule : Rule} {g : Grant}

@[simp] theorem Snapshot.held_nil : ¬s.Held session [] g := by
  simp [Snapshot.Held]

theorem Snapshot.held_deleted (gone : record.value = none) :
    s.Held session (record :: rest) g ↔ s.Held session rest g := by
  simp [Snapshot.Held, gone]

theorem Snapshot.held_unmatched (value : record.value = some rule)
    (unmatched : s.matchesFacts session rule.subject = .ok none) :
    s.Held session (record :: rest) g ↔ s.Held session rest g := by
  simp [Snapshot.Held, value, unmatched]

theorem Snapshot.held_matched {observation : Option Observation} (value : record.value = some rule)
    (matched : s.matchesFacts session rule.subject = .ok (some observation)) :
    s.Held session (record :: rest) g ↔ g ∈ rule.grants ∨ s.Held session rest g := by
  simp [Snapshot.Held, value, matched]

end

section

variable {s : Snapshot} {session : SubjectFacts}

theorem Snapshot.collect_spec (live : session.Live) (records : List (Revision Rule))
    (grants : List EffectiveGrant) :
    ∃ all, s.collect session records grants = .ok all ∧
      ∀ g, (∃ e ∈ all, e.grant = g) ↔ (∃ e ∈ grants, e.grant = g) ∨ s.Held session records g := by
  induction records generalizing grants with
  | nil => exact ⟨grants, rfl, fun g => by simp⟩
  | cons record _ ih =>
    rw [Snapshot.collect]
    cases value : record.value with
    | none =>
      obtain ⟨all, done, spec⟩ := ih grants
      exact ⟨all, done, fun g => by rw [spec, Snapshot.held_deleted value]⟩
    | some rule =>
      obtain ⟨matched, decided⟩ := live.decided s rule.subject
      simp only [decided]
      cases matched with
      | none =>
        obtain ⟨all, done, spec⟩ := ih grants
        exact ⟨all, done, fun g => by rw [spec, Snapshot.held_unmatched value decided]⟩
      | some observation =>
        obtain ⟨all, done, spec⟩ := ih (grants ++ rule.grants.map fun grant =>
          ⟨record.id, record.revision, rule.subject, grant, observation⟩)
        refine ⟨all, done, fun g => ?_⟩
        rw [spec, Snapshot.held_matched value decided, ← or_assoc]
        refine or_congr_left ?_
        simp only [List.mem_append, List.mem_map, or_and_right, exists_or]
        refine or_congr_right ?_
        constructor
        · rintro ⟨_, ⟨grant, mem, rfl⟩, rfl⟩
          exact mem
        · intro mem
          exact ⟨_, ⟨g, mem, rfl⟩, rfl⟩

theorem Snapshot.requireRules_iff (live : session.Live) (operation : Permission) (device : Option String)
    (records : List (Revision Rule)) :
    s.requireRules (.account session) operation device records = .ok () ↔
      ∃ g, s.Held session records g ∧ g.covers operation device = true := by
  induction records with
  | nil => simp [Snapshot.requireRules]
  | cons record rest ih =>
    rw [Snapshot.requireRules]
    cases value : record.value with
    | none => simp only [ih, Snapshot.held_deleted value]
    | some rule =>
      obtain ⟨matched, decided⟩ := live.decided s rule.subject
      have same : s.matches (.account session) rule.subject = .ok matched := decided
      simp only [same]
      cases matched with
      | none => simp only [ih, Snapshot.held_unmatched value decided, ite_self]
      | some observation =>
        simp only [Snapshot.held_matched value decided]
        split
        · rename_i covered
          obtain ⟨g, mem, covers⟩ := List.any_eq_true.mp covered
          have checked : (AuthorizedPrincipal.account session).checkLive = .ok () := live.checked
          simp only [checked, Except.mapError, true_iff]
          exact ⟨g, .inl mem, covers⟩
        · rename_i uncovered
          rw [ih]
          constructor
          · rintro ⟨g, held, covers⟩
            exact ⟨g, .inr held, covers⟩
          · rintro ⟨g, mem | held, covers⟩
            · exact absurd (List.any_eq_true.mpr ⟨g, mem, covers⟩) uncovered
            · exact ⟨g, held, covers⟩

variable {p : Permission}

theorem Gathered.extend_spec (found : Gathered) (grants : List Grant)
    (named : ∀ g ∈ grants, g.operation = p → g.scope ≠ .tenant) :
    ∃ more, found.extend p grants = .ok more ∧
      (more.all = true ↔ found.all = true ∨ ⟨p, .allDevices⟩ ∈ grants) ∧
      ∀ d, d ∈ more.devices ↔ d ∈ found.devices ∨ ⟨p, .device d⟩ ∈ grants := by
  induction grants generalizing found with
  | nil => exact ⟨found, rfl, by simp, by simp⟩
  | cons g rest ih =>
    have later := fun g mem => named g (.tail _ mem)
    obtain ⟨operation, scope⟩ := g
    rw [Gathered.extend]
    split
    · rename_i other
      obtain ⟨more, done, all, devices⟩ := ih found later
      refine ⟨more, done, ?_, fun d => ?_⟩
      · simp [all, Ne.symm other]
      · simp [devices, Ne.symm other]
    · rename_i same
      obtain rfl : operation = p := not_not.mp same
      cases scope with
      | tenant => exact absurd rfl (named _ (.head _) rfl)
      | allDevices =>
        obtain ⟨more, done, all, devices⟩ := ih { found with all := true } later
        exact ⟨more, done, by simp [all], fun d => by simp [devices]⟩
      | device id =>
        obtain ⟨more, done, all, devices⟩ :=
          ih { found with devices := insert id found.devices } later
        refine ⟨more, done, by simp [all], fun d => ?_⟩
        simp only [devices, Finset.mem_insert, List.mem_cons, Grant.mk.injEq, Scope.device.injEq,
          true_and]
        tauto

theorem Snapshot.gather_spec (live : session.Live) (records : List (Revision Rule)) (found : Gathered)
    (named : ∀ g, s.Held session records g → g.operation = p → g.scope ≠ .tenant) :
    ∃ more, s.gather (.account session) p records found = .ok more ∧
      (more.all = true ↔ found.all = true ∨ s.Held session records ⟨p, .allDevices⟩) ∧
      ∀ d, d ∈ more.devices ↔ d ∈ found.devices ∨ s.Held session records ⟨p, .device d⟩ := by
  induction records generalizing found with
  | nil => exact ⟨found, rfl, by simp, by simp⟩
  | cons record _ ih =>
    rw [Snapshot.gather]
    cases value : record.value with
    | none =>
      simp only [Snapshot.held_deleted value] at named ⊢
      exact ih found named
    | some rule =>
      obtain ⟨matched, decided⟩ := live.decided s rule.subject
      have same : s.matches (.account session) rule.subject = .ok matched := decided
      simp only [same]
      cases matched with
      | none =>
        simp only [Snapshot.held_unmatched value decided] at named ⊢
        exact ih found named
      | some =>
        simp only [Snapshot.held_matched value decided] at named ⊢
        obtain ⟨here, extended, all, devices⟩ :=
          Gathered.extend_spec (p := p) found rule.grants fun g mem => named g (.inl mem)
        obtain ⟨more, done, allLater, devicesLater⟩ := ih here fun g held => named g (.inr held)
        refine ⟨more, by simp only [extended, done], ?_, fun d => ?_⟩
        · rw [allLater, all, or_assoc]
        · rw [devicesLater, devices, or_assoc]

end

variable {env : Environment} {s : Snapshot} {proof : AuthorizedPrincipal} {p : Permission}

/-- The proof is of a tenant of the installation other than the one that manages it. -/
def Snapshot.Business (s : Snapshot) (proof : AuthorizedPrincipal) : Prop :=
  ∃ tenants, s.installation = some tenants ∧ proof.instanceId = tenants.instanceId ∧
    tenants.isManagement proof.tenantId = false

variable {tenant instanceId : String}

theorem Snapshot.gives_valid (valid : s.validate env tenant instanceId = .ok ()) {g : Grant}
    (given : s.Gives proof g) : g.validate env = .ok () := by
  obtain ⟨-, valid⟩ := Fallible.guard_eq_ok.mp valid
  obtain ⟨keys, valid⟩ := Fallible.of_check valid
  obtain ⟨rules, -⟩ := Fallible.of_check valid
  cases proof with
  | account =>
    obtain ⟨record, mem, rule, value, -, granted⟩ := given
    have checked := Fallible.each_eq_ok.mp rules record mem
    rw [Revision.check] at checked
    obtain ⟨-, checked⟩ := Fallible.guard_eq_ok.mp checked
    rw [value] at checked
    exact Rule.grants_valid (Fallible.mapError_eq_ok.mp checked) g granted
  | apiKey =>
    obtain ⟨key, found, granted⟩ := given
    have checked := Fallible.each_eq_ok.mp keys key (List.mem_of_find?_eq_some found)
    obtain ⟨-, checked⟩ := Fallible.guard_eq_ok.mp checked
    obtain ⟨checked, -⟩ := Fallible.of_check checked
    exact KeyMetadata.grants_valid (Fallible.mapError_eq_ok.mp checked) g granted
  | initialization => exact given.elim

theorem Snapshot.gives_devices (valid : s.validate env tenant instanceId = .ok ())
    (device : p.device = true) {g : Grant} (given : s.Gives proof g) (same : g.operation = p) :
    g = ⟨p, .allDevices⟩ ∨ ∃ d, g = ⟨p, .device d⟩ ∧ env.observationId d = true := by
  obtain ⟨operation, scope⟩ := g
  obtain rfl : operation = p := same
  rcases Grant.scope_of_validate (gives_valid valid given) device with all | ⟨d, named, known⟩
  · exact .inl (by rw [← all])
  · exact .inr ⟨d, by rw [← named], known⟩

attribute [local simp] Except.mapError Snapshot.Gives

theorem Snapshot.requireTenant_ok (business : s.Business proof) (live : s.Live proof)
    (device : p.device = true) : s.requireTenant proof p = .ok () := by
  obtain ⟨tenants, installed, same, other⟩ := business
  simp [Snapshot.requireTenant, installed, InstallationTenants.require, live.checkLive,
      InstallationTenants.requireIdentity, same, other, Permission.not_tenantManagement device]

theorem Snapshot.key_account {session : SubjectFacts} (live : session.Live) :
    s.key (.account session) = .ok none := by
  have checked : (AuthorizedPrincipal.account session).checkLive = .ok () := live.checked
  simp [Snapshot.key, checked, AuthorizedPrincipal.keyProof]

theorem Snapshot.effective_account {session : SubjectFacts} (live : session.Live) :
    ∃ grants, s.effective (.account session) = .ok grants ∧
      ∀ g, (∃ e ∈ grants, e.grant = g) ↔ s.Gives (.account session) g := by
  obtain ⟨grants, collected, spec⟩ := s.collect_spec live s.rules []
  refine ⟨grants, ?_, fun g => by simpa using spec g⟩
  have checked : (AuthorizedPrincipal.account session).checkLive = .ok () := live.checked
  simp [Snapshot.effective, checked, AuthorizedPrincipal.initializationAuthority,
      AuthorizedPrincipal.session, Snapshot.effectiveFacts, live.checked, collected]

theorem Snapshot.Live.key {proof : KeyProof} (live : s.Live (.apiKey proof)) :
    ∃ key, s.key (.apiKey proof) = .ok (some key) ∧
      ∀ g, g ∈ key.metadata.grants ↔ s.Gives (.apiKey proof) g := by
  cases live with
  | @apiKey _ key checked found credential authority kept enabled =>
    refine ⟨key, ?_, fun g => ?_⟩
    · have checked : (AuthorizedPrincipal.apiKey proof).checkLive = .ok () := checked
      simp [Snapshot.key, checked, AuthorizedPrincipal.keyProof, found, credential, authority, kept, enabled]
    · simp [found]

theorem Snapshot.require_iff (business : s.Business proof) (live : s.Live proof) (device : p.device = true)
    {d : String} (known : env.observationId d = true) :
    s.require proof env p (some d) = .ok () ↔ ∃ g, s.Gives proof g ∧ g.covers p (some d) = true := by
  have tenant := requireTenant_ok business live device
  have checked := live.checkLive
  cases proof with
  | account =>
    cases live with
    | account live =>
      rw [Snapshot.require, tenant, checked]
      simp only [Except.mapError, Fallible.ok_bind, checkDevice, known, if_true, key_account live,
        AuthorizedPrincipal.initializationAuthority, Option.isSome_none, Bool.false_eq_true, if_false]
      exact requireRules_iff live p (some d) s.rules
  | apiKey =>
    obtain ⟨key, found, given⟩ := live.key
    rw [Snapshot.require, tenant, checked]
    simp only [Except.mapError, Fallible.ok_bind, checkDevice, known, if_true, found, decideOn]
    rw [← List.any_eq_true.trans (exists_congr fun g => and_congr_left fun _ => given g)]
    split <;> simp_all
  | initialization _ live => cases live

theorem Grant.forAll_iff {g : Grant} :
    (g.operation = p && g.scope = .allDevices : Bool) = true ↔ g = ⟨p, .allDevices⟩ := by
  obtain ⟨operation, scope⟩ := g
  simp

theorem any_forAll {grants : List Grant} :
    grants.any (fun g => g.operation = p && g.scope = .allDevices) = true ↔ ⟨p, .allDevices⟩ ∈ grants := by
  simp only [List.any_eq_true, Grant.forAll_iff, exists_eq_right]

theorem any_effective_forAll {grants : List EffectiveGrant} :
    grants.any (fun e => e.grant.operation = p && e.grant.scope = .allDevices) = true ↔
      ∃ e ∈ grants, e.grant = ⟨p, .allDevices⟩ := by
  simp only [List.any_eq_true, Grant.forAll_iff]

theorem mem_namedDevices {grants : List Grant} {d : String} :
    d ∈ namedDevices grants p ↔ ⟨p, .device d⟩ ∈ grants := by
  simp only [namedDevices, List.mem_toFinset, List.mem_filterMap, List.mem_filter, decide_eq_true_eq]
  constructor
  · rintro ⟨⟨operation, scope⟩, ⟨mem, same⟩, named⟩
    cases scope with
    | device =>
      cases same
      cases named
      exact mem
    | tenant | allDevices => cases named
  · intro mem
    exact ⟨_, ⟨mem, rfl⟩, rfl⟩

theorem decideOn_eq_ok {covered : Bool} : decideOn covered = .ok () ↔ covered = true := by
  cases covered <;> simp [decideOn]

theorem Snapshot.requireAllDevices_iff (live : s.Live proof) :
    s.requireAllDevices proof p = .ok () ↔ s.Gives proof ⟨p, .allDevices⟩ := by
  have checked := live.checkLive
  cases proof with
  | account =>
    cases live with
    | account live =>
      obtain ⟨grants, effective, given⟩ := effective_account (s := s) live
      rw [← given, ← any_effective_forAll]
      simp only [Snapshot.requireAllDevices, key_account live, Fallible.ok_bind, effective, checked]
      split <;> simp_all
  | apiKey =>
    obtain ⟨key, found, given⟩ := live.key
    rw [← given, ← any_forAll]
    simp only [Snapshot.requireAllDevices, found, Fallible.ok_bind, decideOn_eq_ok]
  | initialization _ live => cases live

/-- What the device list may be. -/
inductive Snapshot.Shows (s : Snapshot) (proof : AuthorizedPrincipal) (p : Permission) :
    Except AuthorizationError (Option (Finset String)) → Prop
  | every (given : s.Gives proof ⟨p, .allDevices⟩) : Shows s proof p (.ok none)
  | listed {devices : Finset String} (narrow : ¬s.Gives proof ⟨p, .allDevices⟩) (inhabited : devices.Nonempty)
      (given : ∀ d, d ∈ devices ↔ s.Gives proof ⟨p, .device d⟩) : Shows s proof p (.ok (some devices))
  | nothing (withheld : ∀ g, s.Gives proof g → g.operation ≠ p) : Shows s proof p (.error .forbidden)

theorem Snapshot.offer_shows (valid : s.validate env tenant instanceId = .ok ())
    (device : p.device = true) {all : Bool} {devices : Finset String}
    (every : all = true ↔ s.Gives proof ⟨p, .allDevices⟩)
    (named : ∀ d, d ∈ devices ↔ s.Gives proof ⟨p, .device d⟩) :
    s.Shows proof p (offer all devices) := by
  rw [offer]
  split
  · rename_i found
    exact .every (every.mp found)
  rename_i missing
  have narrow : ¬s.Gives proof ⟨p, .allDevices⟩ := fun given => missing (every.mpr given)
  split
  · rename_i empty
    refine .nothing fun g given same => ?_
    rcases gives_devices valid device given same with rfl | ⟨d, rfl, -⟩
    · exact narrow given
    · have mem := (named d).mpr given
      rw [empty] at mem
      exact absurd mem (Finset.notMem_empty d)
  · rename_i inhabited
    exact .listed narrow (Finset.nonempty_iff_ne_empty.mpr inhabited) named

theorem Snapshot.devicesFor_shows (valid : s.validate env tenant instanceId = .ok ())
    (live : s.Live proof) (device : p.device = true) :
    s.Shows proof p (s.devicesFor proof p) := by
  have checked := live.checkLive
  cases proof with
  | account session =>
    cases live with
    | account live =>
      have named : ∀ g, s.Held session s.rules g → g.operation = p → g.scope ≠ .tenant := by
        intro g held same
        have given : s.Gives (.account session) g := held
        rcases gives_devices valid device given same with rfl | ⟨d, rfl, -⟩ <;> simp
      obtain ⟨found, gathered, all, devices⟩ := gather_spec live s.rules ⟨∅, false⟩ named
      rw [Snapshot.devicesFor, checked]
      simp only [Except.mapError, Fallible.ok_bind, key_account live, gathered,
        AuthorizedPrincipal.initializationAuthority, Option.isSome_none, Bool.false_eq_true, if_false]
      exact offer_shows valid device (by simpa using all)
        (fun d => by simpa using devices d)
  | apiKey =>
    obtain ⟨key, found, given⟩ := live.key
    rw [Snapshot.devicesFor, checked]
    simp only [Except.mapError, Fallible.ok_bind, found]
    exact offer_shows valid device (any_forAll.trans (given _)) fun d => mem_namedDevices.trans (given _)
  | initialization _ live => cases live

end RssMdm.Authorization
