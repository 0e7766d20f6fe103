/- module: Authorization/Agreement
   source: crates/authorization-service/src/evaluate.rs
   digest: The authorization views agree, more rules never take anything away, and department walks end. -/

import RssMdm.Authorization.Views

set_option autoImplicit false

namespace RssMdm.Authorization

open Relation
open Lib
open Lib.Text (Uuid)

section

variable {snapshot : DepartmentSnapshot} {id member : String}

theorem DepartmentSnapshot.parent_iff {value parent : String} :
    snapshot.parent value = some parent ↔ ParentOf snapshot.nodes value parent := by
  rw [DepartmentSnapshot.parent, Option.bind_eq_some_iff]
  constructor
  · rintro ⟨node, found, linked⟩
    exact ⟨node, List.mem_of_find?_eq_some found, by simpa using List.find?_some found, linked⟩
  · rintro ⟨node, mem, named, linked⟩
    cases found : snapshot.nodes.find? (fun node => node.id = value) with
    | none => exact absurd named (by simpa using List.find?_eq_none.mp found node mem)
    | some other =>
      have same : other.id = node.id := by
        rw [named]
        simpa using List.find?_some found
      have equal := List.inj_on_of_nodup_map snapshot.unique (List.mem_of_find?_eq_some found) mem same
      exact ⟨other, rfl, equal ▸ linked⟩

theorem DepartmentSnapshot.parentOf_eq :
    Forest.ParentOf snapshot.parent = ParentOf snapshot.nodes := by
  ext value parent
  exact parent_iff

theorem DepartmentSnapshot.walk_subtree (n : Nat) (here : Option String) :
    snapshot.walk id .subtree n here = Forest.climb snapshot.parent id n here := by
  induction n generalizing here with
  | zero => rfl
  | succ _ ih =>
    cases here with
    | none => rfl
    | some => simp [DepartmentSnapshot.walk, Forest.climb, ih]

theorem DepartmentSnapshot.walk_ends (snapshot : DepartmentSnapshot) (id member : String)
    (matching : DepartmentMatch) :
    ∃ answer, snapshot.walk id matching snapshot.rounds (some member) = some answer := by
  cases matching with
  | exact =>
    rw [DepartmentSnapshot.rounds, DepartmentSnapshot.walk]
    split <;> simp
  | subtree =>
    simp only [walk_subtree]
    refine Forest.climb_ends ?_ (snapshot.nodes.map (·.id)) ?_ (by simp [DepartmentSnapshot.rounds])
    · rw [parentOf_eq]
      exact snapshot.acyclic
    · intro value _ linked
      obtain ⟨parent, found⟩ := Option.ne_none_iff_exists'.mp linked
      obtain ⟨node, mem, named, -⟩ := parent_iff.mp found
      exact List.mem_map.mpr ⟨node, mem, named⟩

theorem departmentMatches_subtree :
    departmentMatches snapshot id .subtree = true ↔
      ∃ member ∈ snapshot.memberships, ReflTransGen (ParentOf snapshot.nodes) member id := by
  simp only [departmentMatches, List.any_eq_true, decide_eq_true_eq]
  refine exists_congr fun member => and_congr_right fun _ => ?_
  obtain ⟨answer, ended⟩ := snapshot.walk_ends id member .subtree
  rw [ended, ← DepartmentSnapshot.parentOf_eq, Option.some.injEq]
  rw [DepartmentSnapshot.walk_subtree] at ended
  exact Forest.climb_iff ended

end

section

/-- One rule, grant or group member more; a changed record may get another revision. -/
inductive Snapshot.Adds (s : Snapshot) : Snapshot → Prop
  | rule {before after : List (Revision Rule)} (record : Revision Rule)
      (placed : s.rules = before ++ after) : Adds s { s with rules := before ++ record :: after }
  | grant {before after : List (Revision Rule)} {record : Revision Rule} {rule : Rule}
      {left right : List Grant} (g : Grant) (revision : Nat)
      (placed : s.rules = before ++ record :: after) (value : record.value = some rule)
      (listed : rule.grants = left ++ right) :
      Adds s { s with
        rules := before ++ ⟨record.id, revision, some ⟨rule.subject, left ++ g :: right⟩⟩ :: after }
  | keyGrant {before after : List KeyRecord} {key : KeyRecord} {left right : List Grant} (g : Grant)
      (revision authority : Nat) (placed : s.keys = before ++ key :: after)
      (listed : key.metadata.grants = left ++ right) :
      Adds s { s with
        keys := before ++ { key with
          revision := revision
          authorityRevision := authority
          metadata := { key.metadata with grants := left ++ g :: right } } :: after }
  | member {before after : List (Revision UserGroup)} {record : Revision UserGroup} {group : UserGroup}
      {left right : List User} (user : User) (revision : Nat)
      (placed : s.groups = before ++ record :: after) (value : record.value = some group)
      (listed : group.members = left ++ right) :
      Adds s { s with
        groups := before ++ ⟨record.id, revision, some { group with members := left ++ user :: right }⟩ ::
          after }

/-- Nothing that a rule, a group or a key held is missing. -/
structure Snapshot.Grows (s larger : Snapshot) : Prop where
  rules : ∀ record ∈ s.rules, ∀ rule, record.value = some rule → ∃ record' ∈ larger.rules, ∃ rule',
    record'.value = some rule' ∧ rule'.subject = rule.subject ∧ rule.grants ⊆ rule'.grants
  groups : ∀ record ∈ s.groups, ∀ group, record.value = some group → ∃ record' ∈ larger.groups, ∃ group',
    record'.id = record.id ∧ record'.value = some group' ∧ group'.enabled = group.enabled ∧
      group.members ⊆ group'.members
  keys : ∀ id key, s.keys.find? (fun key => key.id = id) = some key →
    ∃ key', larger.keys.find? (fun key => key.id = id) = some key' ∧
      key.metadata.grants ⊆ key'.metadata.grants
  installation : larger.installation = s.installation

inductive SameBearer : AuthorizedPrincipal → AuthorizedPrincipal → Prop
  | account (session : SubjectFacts) : SameBearer (.account session) (.account session)
  | apiKey {proof proof' : KeyProof} (id : proof'.id = proof.id) (tenant : proof'.tenant = proof.tenant)
      (instanceId : proof'.instanceId = proof.instanceId) : SameBearer (.apiKey proof) (.apiKey proof')

variable {s larger largest : Snapshot} {proof proof' : AuthorizedPrincipal}

@[refl] theorem Snapshot.Grows.refl (s : Snapshot) : s.Grows s where
  rules := fun record mem rule value => ⟨record, mem, rule, value, rfl, List.Subset.refl _⟩
  groups := fun record mem group value => ⟨record, mem, group, rfl, value, rfl, List.Subset.refl _⟩
  keys := fun _ key found => ⟨key, found, List.Subset.refl _⟩
  installation := rfl

theorem Snapshot.Grows.trans (first : s.Grows larger) (second : larger.Grows largest) :
    s.Grows largest where
  rules := by
    intro record mem rule value
    obtain ⟨record', mem', rule', value', subject, grants⟩ := first.rules record mem rule value
    obtain ⟨record'', mem'', rule'', value'', subject', grants'⟩ := second.rules record' mem' rule' value'
    exact ⟨record'', mem'', rule'', value'', subject'.trans subject, List.Subset.trans grants grants'⟩
  groups := by
    intro record mem group value
    obtain ⟨record', mem', group', id, value', enabled, members⟩ := first.groups record mem group value
    obtain ⟨record'', mem'', group'', id', value'', enabled', members'⟩ :=
      second.groups record' mem' group' value'
    exact ⟨record'', mem'', group'', id'.trans id, value'', enabled'.trans enabled, List.Subset.trans members members'⟩
  keys := by
    intro id key found
    obtain ⟨key', found', grants⟩ := first.keys id key found
    obtain ⟨key'', found'', grants'⟩ := second.keys id key' found'
    exact ⟨key'', found'', List.Subset.trans grants grants'⟩
  installation := second.installation.trans first.installation

theorem subset_insert_middle {α : Type} (left right : List α) (a : α) : left ++ right ⊆ left ++ a :: right := by
  intro b mem
  simp only [List.mem_append, List.mem_cons] at mem ⊢
  tauto

theorem mem_middle {α : Type} {before after : List α} {a b : α} (mem : b ∈ before ++ a :: after) :
    b = a ∨ ∀ a', b ∈ before ++ a' :: after := by
  simp only [List.mem_append, List.mem_cons] at mem ⊢
  tauto

theorem Snapshot.Adds.grows (adds : s.Adds larger) : s.Grows larger := by
  cases adds with
  | @rule before after record placed =>
    refine { Grows.refl s with rules := ?_ }
    intro kept mem rule value
    rw [placed] at mem
    exact ⟨kept, subset_insert_middle before after record mem, rule, value, rfl, List.Subset.refl _⟩
  | @grant _ _ _ rule left right g _ placed value listed =>
    refine { Grows.refl s with rules := ?_ }
    intro kept mem held holds
    rw [placed] at mem
    rcases mem_middle mem with rfl | mem
    · obtain rfl : rule = held := Option.some.inj (value.symm.trans holds)
      refine ⟨_, List.mem_append_right _ (.head _), _, rfl, rfl, ?_⟩
      rw [listed]
      exact subset_insert_middle left right g
    · exact ⟨kept, mem _, held, holds, rfl, List.Subset.refl _⟩
  | @keyGrant before _ key left right g _ _ placed listed =>
    refine { Grows.refl s with keys := ?_ }
    intro id found first
    rw [placed] at first
    simp only [List.find?_append, List.find?_cons] at first ⊢
    cases front : before.find? (fun key => decide (key.id = id)) with
    | some =>
      rw [front] at first
      exact ⟨found, first, List.Subset.refl _⟩
    | none =>
      rw [front] at first
      by_cases same : key.id = id
      · simp only [same, decide_true, Option.none_or, Option.some.injEq] at first ⊢
        subst first
        refine ⟨_, rfl, ?_⟩
        rw [listed]
        exact subset_insert_middle left right g
      · simp only [same, decide_false, Option.none_or] at first ⊢
        exact ⟨found, first, List.Subset.refl _⟩
  | @member _ _ _ group left right user _ placed value listed =>
    refine { Grows.refl s with groups := ?_ }
    intro kept mem held holds
    rw [placed] at mem
    rcases mem_middle mem with rfl | mem
    · obtain rfl : group = held := Option.some.inj (value.symm.trans holds)
      refine ⟨_, List.mem_append_right _ (.head _), _, rfl, rfl, rfl, ?_⟩
      rw [listed]
      exact subset_insert_middle left right user
    · exact ⟨kept, mem _, held, rfl, holds, rfl, List.Subset.refl _⟩

theorem Snapshot.Grows.of_adds (adds : ReflTransGen Snapshot.Adds s larger) : s.Grows larger := by
  induction adds with
  | refl => exact .refl s
  | tail _ last ih => exact ih.trans last.grows

theorem Snapshot.Grows.inGroup (grows : s.Grows larger) {id : Uuid} {user : User}
    (inside : s.inGroup id user = true) : larger.inGroup id user = true := by
  simp only [Snapshot.inGroup, List.any_eq_true, Bool.and_eq_true, decide_eq_true_eq, Option.any_eq_true,
    List.contains_iff_mem] at inside ⊢
  obtain ⟨record, mem, named, group, value, enabled, member⟩ := inside
  obtain ⟨record', mem', group', same, value', enabled', members⟩ := grows.groups record mem group value
  exact ⟨record', mem', same.trans named, group', value', enabled'.trans enabled, members member⟩

theorem Snapshot.Grows.matchesFacts (grows : s.Grows larger) {session : SubjectFacts} {subject : Subject}
    {observation : Option Observation} (matched : s.matchesFacts session subject = .ok (some observation)) :
    larger.matchesFacts session subject = .ok (some observation) := by
  cases subject with
  | userGroup id =>
    simp only [Snapshot.matchesFacts] at matched ⊢
    by_cases inside : s.inGroup id session.user = true
    · rw [if_pos inside] at matched
      rw [if_pos (grows.inGroup inside), matched]
    · rw [if_neg inside] at matched
      cases matched
  | user | idpGroup | department => exact matched

theorem Snapshot.Grows.gives (grows : s.Grows larger) (bearer : SameBearer proof proof') {g : Grant}
    (given : s.Gives proof g) : larger.Gives proof' g := by
  cases bearer with
  | account =>
    obtain ⟨record, mem, rule, value, ⟨observation, matched⟩, granted⟩ := given
    obtain ⟨record', mem', rule', value', subject, grants⟩ := grows.rules record mem rule value
    refine ⟨record', mem', rule', value', ⟨observation, ?_⟩, grants granted⟩
    rw [subject]
    exact grows.matchesFacts matched
  | @apiKey proof _ id =>
    obtain ⟨key, found, granted⟩ := given
    obtain ⟨key', found', grants⟩ := grows.keys proof.id key found
    exact ⟨key', by rw [id, found'], grants granted⟩

theorem Snapshot.Grows.business (grows : s.Grows larger) (bearer : SameBearer proof proof')
    (business : s.Business proof) : larger.Business proof' := by
  obtain ⟨tenants, installed, same, other⟩ := business
  refine ⟨tenants, grows.installation.trans installed, ?_, ?_⟩
  · cases bearer with
    | account => exact same
    | apiKey _ _ instanceId => exact instanceId.trans same
  · cases bearer with
    | account => exact other
    | apiKey _ tenant => exact (congrArg tenants.isManagement tenant).trans other

end

section

variable {env : Environment} {s larger : Snapshot} {proof proof' : AuthorizedPrincipal} {p : Permission}

/-- The device is on the list, or the list is of all devices. -/
def Lists (shown : Except AuthorizationError (Option (Finset String))) (d : String) : Prop :=
  shown = .ok none ∨ ∃ devices, shown = .ok (some devices) ∧ d ∈ devices

/-- The grants listed as effective are all that the three views of a session rest on. -/
structure RestsOn (env : Environment) (s : Snapshot) (proof : AuthorizedPrincipal) (p : Permission)
    (grants : List EffectiveGrant) : Prop where
  require : ∀ d, env.observationId d = true →
    (s.require proof env p (some d) = .ok () ↔ ∃ e ∈ grants, e.grant.covers p (some d) = true)
  devicesFor : ∀ devices, s.devicesFor proof p = .ok (some devices) →
    ∀ d, d ∈ devices ↔ ∃ e ∈ grants, e.grant = ⟨p, .device d⟩
  devicesForAll : s.devicesFor proof p = .ok none ↔ ∃ e ∈ grants, e.grant = ⟨p, .allDevices⟩
  requireAllDevices : s.requireAllDevices proof p = .ok () ↔ ∃ e ∈ grants, e.grant = ⟨p, .allDevices⟩

structure Keeps (env : Environment) (s larger : Snapshot) (proof proof' : AuthorizedPrincipal)
    (p : Permission) : Prop where
  require : ∀ d, env.observationId d = true → s.require proof env p (some d) = .ok () →
    larger.require proof' env p (some d) = .ok ()
  devicesFor : ∀ d, Lists (s.devicesFor proof p) d → Lists (larger.devicesFor proof' p) d
  devicesForAll : s.devicesFor proof p = .ok none → larger.devicesFor proof' p = .ok none
  requireAllDevices : s.requireAllDevices proof p = .ok () → larger.requireAllDevices proof' p = .ok ()

variable {shown : Except AuthorizationError (Option (Finset String))}

theorem Snapshot.Shows.none_iff (shows : s.Shows proof p shown) :
    shown = .ok none ↔ s.Gives proof ⟨p, .allDevices⟩ := by
  cases shows with
  | every given => simp [given]
  | listed narrow => simp [narrow]
  | nothing withheld => simpa using fun given => withheld _ given rfl

theorem Snapshot.Shows.lists_iff (shows : s.Shows proof p shown) (d : String) :
    Lists shown d ↔ ∃ g, s.Gives proof g ∧ g.covers p (some d) = true := by
  simp only [Grant.covers_some, and_or_left, exists_or, Lists]
  cases shows with
  | every given => simp [given]
  | listed narrow _ given => simp [narrow, given]
  | nothing withheld =>
    have none : ∀ scope, ¬s.Gives proof ⟨p, scope⟩ := fun scope given => withheld _ given rfl
    simp [none]

theorem Snapshot.Shows.forbidden_iff {tenant instanceId : String}
    (valid : s.validate env tenant instanceId = .ok ()) (device : p.device = true)
    (known : ∃ d, env.observationId d = true) (shows : s.Shows proof p shown) :
    shown = .error .forbidden ↔
      ∀ d, env.observationId d = true → ¬∃ g, s.Gives proof g ∧ g.covers p (some d) = true := by
  simp only [← shows.lists_iff]
  cases shows with
  | every =>
    obtain ⟨d, known⟩ := known
    simp only [reduceCtorEq, false_iff, not_forall]
    exact ⟨d, known, not_not.mpr (.inl rfl)⟩
  | @listed devices _ inhabited given =>
    obtain ⟨d, mem⟩ := inhabited
    have known : env.observationId d = true := by
      rcases gives_devices valid device ((given d).mp mem) rfl with same | ⟨d', same, known⟩
      · cases same
      · cases same
        exact known
    simp only [reduceCtorEq, false_iff, not_forall]
    exact ⟨d, known, not_not.mpr (.inr ⟨devices, rfl, mem⟩)⟩
  | nothing => simp [Lists]

/-- The views agree with each other and with the effective grants, additions revoke nothing, and a
subtree of departments is what the named one is above. -/
theorem views_agree (valid : s.validate env proof.tenantId proof.instanceId = .ok ())
    (business : s.Business proof) (live : s.Live proof) (device : p.device = true)
    (known : ∃ d, env.observationId d = true) :
    (∀ d, env.observationId d = true →
      (s.require proof env p (some d) = .ok () ↔ Lists (s.devicesFor proof p) d)) ∧
    (s.requireAllDevices proof p = .ok () ↔ s.devicesFor proof p = .ok none) ∧
    (s.devicesFor proof p = .error .forbidden ↔
      ∀ d, env.observationId d = true → s.require proof env p (some d) ≠ .ok ()) ∧
    (∀ session, proof = .account session →
      ∃ grants, s.effective proof = .ok grants ∧ RestsOn env s proof p grants) ∧
    (∀ larger proof', ReflTransGen Snapshot.Adds s larger → SameBearer proof proof' →
      larger.validate env proof.tenantId proof.instanceId = .ok () → larger.Live proof' →
      Keeps env s larger proof proof' p) ∧
    (∀ session source department snapshot id, proof = .account session →
      session.departmentSnapshot = .ok (.available department) → department.snapshot = .ok snapshot →
      source.matches department.providerId department.issuer department.providerConfigVersion = true →
      (∀ member, ∃ answer, snapshot.walk id .subtree snapshot.rounds (some member) = some answer) ∧
      ((∃ observation, s.matchesFacts session (.department source id .subtree) = .ok (some observation)) ↔
        ∃ member ∈ snapshot.memberships, ReflTransGen (ParentOf snapshot.nodes) member id)) := by
  have shows := Snapshot.devicesFor_shows valid live device
  refine ⟨?_, ?_, ?_, ?_, ?_, ?_⟩
  · intro d known
    rw [Snapshot.require_iff business live device known, shows.lists_iff]
  · rw [Snapshot.requireAllDevices_iff live, shows.none_iff]
  · rw [shows.forbidden_iff valid device known]
    exact forall_congr' fun d => imp_congr_right fun known =>
      not_congr (Snapshot.require_iff business live device known).symm
  · rintro session rfl
    obtain ⟨grants, effective, given⟩ : ∃ grants, s.effective (.account session) = .ok grants ∧
        ∀ g, (∃ e ∈ grants, e.grant = g) ↔ s.Gives (.account session) g := by
      cases live with
      | account live => exact Snapshot.effective_account live
    refine ⟨grants, effective, ?_, ?_, ?_, ?_⟩
    · intro d known
      rw [Snapshot.require_iff business live device known]
      constructor
      · rintro ⟨g, held, covers⟩
        obtain ⟨e, mem, rfl⟩ := (given g).mpr held
        exact ⟨e, mem, covers⟩
      · rintro ⟨e, mem, covers⟩
        exact ⟨e.grant, (given _).mp ⟨e, mem, rfl⟩, covers⟩
    · intro devices shown d
      rw [shown] at shows
      cases shows with
      | listed _ _ named => rw [named, given]
    · rw [shows.none_iff, given]
    · rw [Snapshot.requireAllDevices_iff live, given]
  · intro larger proof' adds bearer valid' live'
    have grows := Snapshot.Grows.of_adds adds
    have business' := grows.business bearer business
    have shows' := Snapshot.devicesFor_shows valid' live' device
    have kept : ∀ d, (∃ g, s.Gives proof g ∧ g.covers p (some d) = true) →
        ∃ g, larger.Gives proof' g ∧ g.covers p (some d) = true := by
      rintro d ⟨g, given, covers⟩
      exact ⟨g, grows.gives bearer given, covers⟩
    refine ⟨?_, ?_, ?_, ?_⟩
    · intro d known
      rw [Snapshot.require_iff business live device known, Snapshot.require_iff business' live' device known]
      exact kept d
    · intro d
      rw [shows.lists_iff, shows'.lists_iff]
      exact kept d
    · rw [shows.none_iff, shows'.none_iff]
      exact grows.gives bearer
    · rw [Snapshot.requireAllDevices_iff live, Snapshot.requireAllDevices_iff live']
      exact grows.gives bearer
  · rintro session source department snapshot id rfl answered present same
    refine ⟨fun member => snapshot.walk_ends id member .subtree, ?_⟩
    rw [← departmentMatches_subtree]
    simp only [Snapshot.matchesFacts, answered, departmentFacts, same, present, Bool.not_true,
      Bool.false_eq_true, if_false]
    split
    · rename_i matched
      simp [matched]
    · rename_i unmatched
      simp [unmatched]

end

namespace Sample

def env : Environment where
  observationId d := d ≠ ""
  parseUuid _ := none
  parseUrl _ := some ⟨"https", some "login.example", "", none, none, none⟩

def nodes : List DepartmentNode := [⟨"o", none⟩, ⟨"os", some "o"⟩, ⟨"osn", some "os"⟩]

/-- The department of the session lies two levels below the one of the rule. -/
def departments : DepartmentSnapshot where
  nodes := nodes
  memberships := ["osn"]
  sourceRevision := "r1"
  unique := by decide
  acyclic := Graph.acyclic_of_rank String.length (by
    rintro a b ⟨node, mem, rfl, linked⟩
    simp only [nodes, List.mem_cons, List.not_mem_nil, or_false] at mem
    rcases mem with rfl | rfl | rfl <;> cases linked <;> decide)

def source : Source := ⟨7, "https://login.example", 1⟩

def session : SubjectFacts where
  user := ⟨"i", "t", "u"⟩
  checkLive := .ok ()
  groups := .ok .unavailable
  departmentSnapshot := .ok (.available ⟨7, "https://login.example", 1, .ok departments, 9, 100, 200⟩)

def snapshot : Snapshot where
  rules := [⟨1, 1, some ⟨.department source "o" .subtree, [⟨.inventoryRead, .device "laptop"⟩]⟩⟩]
  groups := []
  keys := []
  installation := some ⟨"i", "m"⟩

theorem session_live : session.Live where
  checked := rfl
  groups := ⟨_, rfl, fun _ same => by cases same⟩
  departments := ⟨_, rfl, fun _ same => by cases same; simp⟩

theorem views_agree_subtree :
    snapshot.require (.account session) env .inventoryRead (some "laptop") = .ok () ∧
      Lists (snapshot.devicesFor (.account session) .inventoryRead) "laptop" := by
  have valid : snapshot.validate env (AuthorizedPrincipal.account session).tenantId
      (AuthorizedPrincipal.account session).instanceId = .ok () := by rfl
  have business : snapshot.Business (.account session) := ⟨_, rfl, rfl, by decide⟩
  have device : Permission.inventoryRead.device = true := rfl
  have agree := views_agree valid business (.account session_live) device ⟨"laptop", by decide⟩
  have allowed : snapshot.require (.account session) env .inventoryRead (some "laptop") = .ok () := by rfl
  exact ⟨allowed, (agree.1 "laptop" (by decide)).mp allowed⟩

end Sample

end RssMdm.Authorization
