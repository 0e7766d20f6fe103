/- module: TaskSigning/History
   source: crates/execution-service/src/task_signing/trust.rs
   digest: Every run of changes publishes a chain of valid sets whose keys live once. -/

import RssMdm.Lib.Lifeline
import RssMdm.TaskSigning.Store

set_option autoImplicit false

namespace RssMdm.TaskSigning

open AgentWire Lib.Fallible Lib.Lifeline
open Lib.Text (Uuid)
open List (any_eq_true find?_eq_none find?_some mem_map)
open Option (bind_some map_some)

variable {Tag : Type}

section

/-- How a change turns the set at the head into the next one. -/
inductive Changed (s : Store Tag) (tables : Tables) : Call → Trust → Prop where
  | first {operation : Uuid} {expected : Int} {actor id publicKey : String} {t : Trust}
      (empty : s.head = 0) (alone : tables.active = [])
      (lookup : ∀ i, t.lookup i = if i = id then some ⟨id, publicKey, .active⟩ else none) :
      Changed s tables (.prepare operation expected actor id publicKey) t
  | prepared {operation : Uuid} {expected : Int} {actor id publicKey : String} {old t : Trust}
      (body : s.body s.head = some old)
      (lookup : ∀ i, t.lookup i = if i = id then some ⟨id, publicKey, .prepared⟩ else old.lookup i) :
      Changed s tables (.prepare operation expected actor id publicKey) t
  | activated {operation : Uuid} {expected : Int} {keyId actor : String} {old t : Trust}
      {k : PublicKey} (body : s.body s.head = some old) (key : old.lookup keyId = some k)
      (state : k.state = .prepared)
      (known : ∀ agent ∈ tables.active, acknowledgedIn s tables agent keyId [.prepared] = true)
      (lookup : ∀ i, t.lookup i = (old.lookup i).map (activated keyId)) :
      Changed s tables (.activate operation expected keyId actor) t
  | retired {operation : Uuid} {expected : Int} {keyId actor : String} {old t : Trust}
      {k : PublicKey} (body : s.body s.head = some old) (key : old.lookup keyId = some k)
      (state : k.state ≠ .active)
      (known : k.state = .verifyOnly →
        ∀ agent ∈ tables.active, acknowledgedIn s tables agent keyId [.verifyOnly] = true)
      (lookup : ∀ i, t.lookup i = if i = keyId then none else old.lookup i) :
      Changed s tables (.retire operation expected keyId actor) t

/-- The identities of the private keys after a change. -/
def Call.keyIds (keyIds : List String) : Call → List String
  | .prepare _ _ _ id _ => id :: keyIds
  | _ => keyIds

structure Published (env : Environment Tag) (s : Store Tag) (tables : Tables) (call : Call)
    (t : Trust) (s' : Store Tag) : Prop where
  expected : call.expected = s.head
  bounded : (s.head : Int) ≠ maxRevision
  unused : ∀ v ∈ s.versions, v.operation ≠ call.operation
  valid : t.validate = .ok ()
  revision : t.revision = s.head + 1
  tenant : t.tenant = env.tenant
  service : t.serviceId = env.service
  unknown : ∀ operation expected actor id publicKey,
    call = .prepare operation expected actor id publicKey → id ∉ s.keyIds
  store : s' = ⟨s.head + 1, s.versions ++ [⟨s.head + 1, call.operation,
    env.mac call.operation call.request, t, env.installationDigest t⟩], call.keyIds s.keyIds⟩
  changed : Changed s tables call t

variable {env : Environment Tag} {s s' : Store Tag} {tables : Tables} {t : Trust}

theorem storedTrust_eq_ok {v : Version Tag} (h : storedTrust env v = .ok t) :
    v.body = t ∧ t.validate = .ok () ∧ t.serviceId = env.service ∧ t.tenant = env.tenant ∧
      t.revision = v.revision := by
  unfold storedTrust at h
  split at h
  · cases h
  rename_i valid
  obtain ⟨coordinates, h⟩ := of_guard h
  cases h
  simp only [ne_eq, Bool.or_eq_true, decide_eq_true_eq, not_or, not_not] at coordinates
  exact ⟨rfl, valid, coordinates.1.1.1, coordinates.1.1.2, coordinates.1.2⟩

theorem current_eq_ok (h : current env s = .ok t) :
    s.body s.head = some t ∧ t.validate = .ok () ∧ t.serviceId = env.service ∧
      t.tenant = env.tenant ∧ t.revision = s.head := by
  unfold current at h
  split at h
  · cases h
  rename_i v found
  obtain ⟨body, valid, service, tenant, revision⟩ := storedTrust_eq_ok h
  have here : v.revision = s.head := by simpa using find?_some found
  refine ⟨?_, valid, service, tenant, revision.trans here⟩
  rw [Store.body, found, map_some, body]

variable {operation : Uuid}

theorem save_eq_ok {request : Request} (h : save env s operation request t = .ok s') :
    t.validate = .ok () ∧ (∀ v ∈ s.versions, v.operation ≠ operation) ∧
      s' = ⟨t.revision, s.versions ++ [⟨t.revision, operation, env.mac operation request, t,
        env.installationDigest t⟩], s.keyIds⟩ := by
  unfold save at h
  split at h
  · cases h
  rename_i valid
  obtain ⟨unused, h⟩ := of_guard h
  cases h
  refine ⟨valid, ?_, rfl⟩
  intro v member same
  exact unused (any_eq_true.mpr ⟨v, member, by simp [same]⟩)

theorem preparing_eq_ok (h : preparing env s tables = .ok t) :
    t.revision = s.head + 1 ∧ t.serviceId = env.service ∧ t.tenant = env.tenant ∧
      ((s.head = 0 ∧ tables.active = [] ∧ t.keys = []) ∨
        (s.head ≠ 0 ∧ ∃ old, s.body s.head = some old ∧ old.validate = .ok () ∧
          t.keys = old.keys)) := by
  unfold preparing at h
  split at h
  · rename_i empty
    obtain ⟨alone, h⟩ := of_guard h
    cases h
    refine ⟨by rw [empty], rfl, rfl, .inl ⟨empty, ?_, rfl⟩⟩
    exact List.length_eq_zero_iff.mp (not_not.mp alone)
  · rename_i started
    obtain ⟨old, read, h⟩ := of_bind h
    obtain ⟨-, h⟩ := of_guard h
    cases h
    obtain ⟨body, valid, service, tenant, revision⟩ := current_eq_ok read
    exact ⟨by rw [revision], service, tenant, .inr ⟨started, old, body, valid, rfl⟩⟩

theorem lookup_joined (valid : t.Valid) {keys : List PublicKey} {key : PublicKey}
    (eq : t.keys = (keys ++ [key]).insertionSort (fun a b => a.id ≤ b.id)) (i : String) :
    t.lookup i = if i = key.id then some key else keys.find? (fun k => k.id = i) := by
  have members : ∀ k, k ∈ t.keys ↔ k ∈ keys ∨ k = key := by
    intro k
    rw [eq, (List.perm_insertionSort _ _).mem_iff, List.mem_append, List.mem_singleton]
  by_cases here : i = key.id
  · rw [if_pos here, here]
    exact valid.lookup ((members key).mpr (.inr rfl))
  rw [if_neg here]
  cases found : keys.find? (fun k => k.id = i) with
  | none =>
    refine lookup_eq_none.mpr ?_
    intro k member same
    rcases (members k).mp member with old | rfl
    · exact absurd same (by simpa using find?_eq_none.mp found k old)
    · exact here same.symm
  | some k =>
    have id : k.id = i := by simpa using find?_some found
    rw [← id]
    exact valid.lookup ((members k).mpr (.inl (List.mem_of_find?_eq_some found)))

variable [DecidableEq Tag]

/-- An answer from an earlier version. -/
def Replayed (env : Environment Tag) (s : Store Tag) (call : Call) (t : Trust) (s' : Store Tag) :
    Prop :=
  s' = s ∧ ∃ v, s.versions.find? (fun v => v.operation = call.operation) = some v ∧
    env.mac call.operation call.request = v.fingerprint ∧ t = v.body

theorem replay_eq_some {request : Request} (h : replay env s operation request = .ok (some t)) :
    ∃ v, s.versions.find? (fun v => v.operation = operation) = some v ∧
      env.mac operation request = v.fingerprint ∧ t = v.body := by
  unfold replay at h
  split at h
  · cases h
  rename_i v found
  obtain ⟨same, h⟩ := of_guard h
  split at h
  · cases h
  · obtain ⟨-, h⟩ := of_guard h
    cases h
    exact ⟨v, found, not_not.mp same, rfl⟩

theorem changing_cases (call : Call) {lowest : Int} {fresh : Except Error (Trust × Store Tag)}
    (h : changing env s lowest call.operation call.expected call.request fresh = .ok (t, s')) :
    Replayed env s call t s' ∨
      (call.expected = s.head ∧ (s.head : Int) ≠ maxRevision ∧ fresh = .ok (t, s')) := by
  unfold changing at h
  obtain ⟨shape, h⟩ := of_guard h
  obtain ⟨previous, replayed, h⟩ := of_bind h
  cases previous with
  | some =>
    cases h
    exact .inl ⟨rfl, replay_eq_some replayed⟩
  | none =>
    obtain ⟨head, h⟩ := of_guard h
    rw [ne_eq, not_not] at head
    simp only [Bool.or_eq_true, decide_eq_true_eq, not_or] at shape
    refine .inr ⟨head.symm, ?_, h⟩
    rw [head]
    exact shape.1.2

variable {expected : Int} {actor : String}

theorem prepare_cases {id publicKey : String}
    (h : prepare env s tables operation expected actor id publicKey = .ok (t, s')) :
    Replayed env s (.prepare operation expected actor id publicKey) t s' ∨
      Published env s tables (.prepare operation expected actor id publicKey) t s' := by
  rcases changing_cases (.prepare operation expected actor id publicKey) h with
    replayed | ⟨head, bounded, h⟩
  · exact .inl replayed
  obtain ⟨base, prepared, h⟩ := of_bind h
  obtain ⟨revision, service, tenant, keys⟩ := preparing_eq_ok prepared
  simp only at h
  split at h
  · cases h
  obtain ⟨unknown, h⟩ := of_guard h
  obtain ⟨store, saved, h⟩ := of_bind h
  cases h
  obtain ⟨valid, unused, eq⟩ := save_eq_ok saved
  refine .inr ⟨head, bounded, unused, valid, revision, tenant, service, ?_, ?_, ?_⟩
  · rintro _ _ _ _ _ ⟨rfl, rfl, rfl, rfl, rfl⟩ member
    exact unknown (List.contains_iff_mem.mpr member)
  · rw [eq]
    simp only [revision]
    rfl
  · have lookup := lookup_joined (validate_valid valid) rfl
    rcases keys with ⟨empty, alone, none⟩ | ⟨started, old, body, -, same⟩
    · refine .first empty alone ?_
      intro i
      rw [lookup i, none, if_pos empty]
      rfl
    · refine .prepared body ?_
      intro i
      rw [lookup i, same, if_neg started]
      rfl

theorem activate_cases {keyId : String}
    (h : activate env s tables operation expected keyId actor = .ok (t, s')) :
    Replayed env s (.activate operation expected keyId actor) t s' ∨
      Published env s tables (.activate operation expected keyId actor) t s' := by
  rcases changing_cases (.activate operation expected keyId actor) h with
    replayed | ⟨head, bounded, h⟩
  · exact .inl replayed
  obtain ⟨old, read, h⟩ := of_bind h
  obtain ⟨body, validOld, service, tenant, revision⟩ := current_eq_ok read
  obtain ⟨present, h⟩ := of_guard h
  obtain ⟨known, h⟩ := of_guard h
  obtain ⟨store, saved, h⟩ := of_bind h
  cases h
  obtain ⟨valid, unused, eq⟩ := save_eq_ok saved
  simp only [Bool.not_eq_true', Bool.not_eq_false, any_eq_true, Bool.and_eq_true,
    decide_eq_true_eq] at present
  obtain ⟨k, member, id, state⟩ := present
  refine .inr ⟨head, bounded, unused, valid, by simp only [revision], tenant, service, nofun, ?_,
    .activated body (id ▸ (validate_valid validOld).lookup member) state ?_ ?_⟩
  · rw [eq]
    simp only [revision]
    rfl
  · intro agent active
    rw [missing, any_eq_true] at known
    by_contra unknown
    exact known ⟨agent, active, by simpa using unknown⟩
  · intro i
    have same : (fun key : PublicKey => decide (key.id = i)) ∘ activated keyId =
        fun key => decide (key.id = i) := by
      funext key
      simp only [Function.comp, activated]
      split
      · rfl
      · split <;> rfl
    rw [Trust.lookup, List.find?_map, same]
    rfl

theorem retire_cases {keyId : String}
    (h : retire env s tables operation expected keyId actor = .ok (t, s')) :
    Replayed env s (.retire operation expected keyId actor) t s' ∨
      Published env s tables (.retire operation expected keyId actor) t s' := by
  rcases changing_cases (.retire operation expected keyId actor) h with
    replayed | ⟨head, bounded, h⟩
  · exact .inl replayed
  obtain ⟨old, read, h⟩ := of_bind h
  obtain ⟨body, -, service, tenant, revision⟩ := current_eq_ok read
  split at h
  · cases h
  rename_i k found
  obtain ⟨state, h⟩ := of_guard h
  obtain ⟨known, h⟩ := of_guard h
  obtain ⟨store, saved, h⟩ := of_bind h
  cases h
  obtain ⟨valid, unused, eq⟩ := save_eq_ok saved
  refine .inr ⟨head, bounded, unused, valid, by simp only [revision], tenant, service, nofun, ?_,
    .retired body found state ?_ ?_⟩
  · rw [eq]
    simp only [revision]
    rfl
  · intro retained agent active
    simp only [retained, decide_true, Bool.true_and, Bool.or_eq_true, not_or, missing,
      any_eq_true] at known
    by_contra unknown
    exact known.2 ⟨agent, active, by simpa using unknown⟩
  · intro i
    rw [Trust.lookup, List.find?_filter]
    by_cases here : i = keyId
    · rw [if_pos here, find?_eq_none]
      intro key _
      simp [here]
    rw [if_neg here, Trust.lookup]
    congr 1
    funext key
    by_cases same : key.id = i
    · simp [same, here]
    · simp [same]

theorem apply_cases {call : Call} (h : apply env s tables call = .ok (t, s')) :
    Replayed env s call t s' ∨ Published env s tables call t s' := by
  cases call with
  | prepare => exact prepare_cases h
  | activate => exact activate_cases h
  | retire => exact retire_cases h

end

section

def rank : KeyState → Nat
  | .prepared => 0
  | .active => 1
  | .verifyOnly => 2

def Evolves (k k' : PublicKey) : Prop := rank k.state ≤ rank k'.state ∧ k'.publicKey = k.publicKey

def Store.key (s : Store Tag) (id : String) (revision : Nat) : Option PublicKey :=
  (s.body revision).bind (fun t => t.lookup id)

/-- The published revisions form a chain in which every key lives once. -/
structure Store.Chained (env : Environment Tag) (s : Store Tag) : Prop where
  bounded : s.head ≤ maxRevision
  revisions : s.versions.map Version.revision = (List.range s.head).map (· + 1)
  operations : (s.versions.map Version.operation).Nodup
  published : ∀ v ∈ s.versions, v.body.validate = .ok () ∧ v.body.revision = v.revision ∧
    v.body.tenant = env.tenant ∧ v.body.serviceId = env.service ∧
    v.digest = env.installationDigest v.body
  known : ∀ id revision, s.key id revision ≠ none → id ∈ s.keyIds
  first : ∀ id k, s.key id 1 = some k → k.state = .active
  carried : ∀ id revision, 0 < revision → revision < s.head →
    Carries (s.key id revision) (s.key id (revision + 1))
  lines : ∀ id, Line Evolves (s.key id) s.head

variable {env : Environment Tag} {s s' : Store Tag} {tables : Tables} {call : Call} {t : Trust}

theorem evolves_refl (k : PublicKey) : Evolves k k := ⟨le_rfl, rfl⟩

theorem evolves_trans (k k' k'' : PublicKey) (h : Evolves k k') (h' : Evolves k' k'') :
    Evolves k k'' := ⟨h.1.trans h'.1, h'.2.trans h.2⟩

theorem evolves_of_carries {k k' : PublicKey} (h : Carries (some k) (some k')) : Evolves k k' := by
  refine ⟨?_, h.1⟩
  have permitted := h.2
  cases before : k.state <;> cases after : k'.state <;> rw [before, after] at permitted <;>
    first | exact absurd permitted (by decide) | decide

theorem revision_bounds (chained : s.Chained env) {v : Version Tag} (member : v ∈ s.versions) :
    0 < v.revision ∧ v.revision ≤ s.head := by
  have listed : v.revision ∈ s.versions.map Version.revision := List.mem_map_of_mem member
  rw [chained.revisions, mem_map] at listed
  obtain ⟨n, inside, eq⟩ := listed
  rw [List.mem_range] at inside
  omega

variable {revision : Nat}

theorem body_eq_some (h : s.body revision = some t) :
    ∃ v ∈ s.versions, v.revision = revision ∧ v.body = t := by
  obtain ⟨v, found, eq⟩ := Option.map_eq_some_iff.mp h
  have here : v.revision = revision := by simpa using find?_some found
  exact ⟨v, List.mem_of_find?_eq_some found, here, eq⟩

theorem body_exists (chained : s.Chained env) (positive : 0 < revision)
    (inside : revision ≤ s.head) :
    ∃ t, s.body revision = some t := by
  have listed : revision ∈ s.versions.map Version.revision := by
    rw [chained.revisions, mem_map]
    exact ⟨revision - 1, List.mem_range.mpr (by omega), by omega⟩
  obtain ⟨v, member, eq⟩ := mem_map.mp listed
  cases found : s.versions.find? (fun v => v.revision = revision) with
  | none => exact absurd eq (by simpa using find?_eq_none.mp found v member)
  | some w => exact ⟨w.body, by rw [Store.body, found, map_some]⟩

theorem body_of_mem (chained : s.Chained env) {v : Version Tag} (member : v ∈ s.versions) :
    s.body v.revision = some v.body := by
  have nodup : (s.versions.map Version.revision).Nodup := by
    rw [chained.revisions]
    exact List.Nodup.map (fun _ _ same => Nat.succ.inj same) List.nodup_range
  obtain ⟨positive, inside⟩ := revision_bounds chained member
  obtain ⟨t, body⟩ := body_exists chained positive inside
  obtain ⟨w, member', same, eq⟩ := body_eq_some body
  have unique : w = v := List.inj_on_of_nodup_map nodup member' member same
  rw [body, ← eq, unique]

theorem body_outside (chained : s.Chained env) (outside : revision = 0 ∨ s.head < revision) :
    s.body revision = none := by
  cases body : s.body revision with
  | none => rfl
  | some =>
    obtain ⟨v, member, here, -⟩ := body_eq_some body
    have bounds := revision_bounds chained member
    omega

theorem Published.body (published : Published env s tables call t s') (chained : s.Chained env)
    (revision : Nat) :
    s'.body revision = if revision = s.head + 1 then some t else s.body revision := by
  have outside : s.body (s.head + 1) = none := body_outside chained (.inr (Nat.lt_succ_self _))
  rw [published.store, Store.body, List.find?_append]
  by_cases here : revision = s.head + 1
  · rw [if_pos here, here, Option.map_eq_none_iff.mp outside, Option.none_or, List.find?_singleton,
      if_pos (by simp)]
    rfl
  · rw [if_neg here, List.find?_singleton, if_neg (by simpa using fun same => here same.symm),
      Option.or_none, Store.body]

theorem Published.key (published : Published env s tables call t s') (chained : s.Chained env)
    (id : String) (revision : Nat) :
    s'.key id revision = if revision = s.head + 1 then t.lookup id else s.key id revision := by
  rw [Store.key, published.body chained]
  split <;> rfl

theorem Published.carries (published : Published env s tables call t s') (chained : s.Chained env)
    (started : 0 < s.head) (id : String) : Carries (s.key id s.head) (t.lookup id) := by
  cases published.changed with
  | first => omega
  | @prepared operation expected actor new publicKey old _ body lookup =>
    rw [lookup id]
    split
    · rename_i here
      have unknown := published.unknown _ _ _ _ _ rfl
      have absent : s.key id s.head = none := by
        by_contra present
        exact unknown (here ▸ chained.known id s.head present)
      rw [absent]
      rfl
    · rw [Store.key, body, bind_some]
      exact carries_refl _
  | @activated operation expected keyId actor old _ k body key state known lookup =>
    rw [lookup id, Store.key, body, bind_some]
    cases found : old.lookup id with
    | none => trivial
    | some k' =>
      have here := (lookup_eq_some found).2
      rw [map_some]
      unfold activated
      split
      · rename_i same
        have one : k' = k := by
          rw [← here, same] at found
          exact Option.some.inj (found.symm.trans key)
        refine ⟨rfl, ?_⟩
        rw [one, state]
        rfl
      · split
        · rename_i active
          refine ⟨rfl, ?_⟩
          rw [active]
          rfl
        · exact carries_refl (some k')
  | @retired operation expected keyId actor old _ k body key state known lookup =>
    rw [lookup id, Store.key, body, bind_some]
    split
    · rename_i here
      rw [here, key]
      cases before : k.state with
      | active => exact absurd before state
      | prepared | verifyOnly =>
        show permitted k.state none = true
        rw [before]
        rfl
    · exact carries_refl _

theorem Published.joins (published : Published env s tables call t s') {id : String}
    (absent : s.key id s.head = none) (present : t.lookup id ≠ none) :
    ∃ operation expected actor publicKey, call = .prepare operation expected actor id publicKey := by
  cases published.changed with
  | @first operation expected actor new publicKey _ empty alone lookup =>
    rw [lookup id] at present
    split at present
    · rename_i here
      exact ⟨operation, expected, actor, publicKey, by rw [here]⟩
    · exact absurd rfl present
  | @prepared operation expected actor new publicKey old _ body lookup =>
    rw [lookup id] at present
    split at present
    · rename_i here
      exact ⟨operation, expected, actor, publicKey, by rw [here]⟩
    · rw [Store.key, body, bind_some] at absent
      exact absurd absent present
  | activated body key _ _ lookup =>
    rw [Store.key, body, bind_some] at absent
    rw [lookup id, absent] at present
    exact absurd rfl present
  | retired body key _ _ lookup =>
    rw [Store.key, body, bind_some] at absent
    rw [lookup id, absent] at present
    split at present <;> exact absurd rfl present

theorem Published.appears (published : Published env s tables call t s') (chained : s.Chained env)
    {id : String} (absent : s.key id s.head = none) (present : t.lookup id ≠ none) (revision : Nat) :
    s.key id revision = none := by
  obtain ⟨operation, expected, actor, publicKey, eq⟩ := published.joins absent present
  by_contra there
  exact published.unknown _ _ _ _ _ eq (chained.known id revision there)

theorem Published.chained (published : Published env s tables call t s') (chained : s.Chained env) :
    s'.Chained env := by
  have head : s'.head = s.head + 1 := by rw [published.store]
  have key := published.key chained
  have within : s.head + 1 ≤ maxRevision := by
    have := published.bounded
    have := chained.bounded
    omega
  refine ⟨head ▸ within, ?_, ?_, ?_, ?_, ?_, ?_, ?_⟩
  · rw [published.store]
    simp only [List.map_append, List.map_cons, List.map_nil, chained.revisions, List.range_succ]
  · rw [published.store]
    simp only [List.map_append, List.map_cons, List.map_nil]
    refine List.nodup_append.mpr ⟨chained.operations, by simp, ?_⟩
    rintro _ old _ new rfl
    obtain ⟨v, member, same⟩ := mem_map.mp old
    exact published.unused v member (same.trans (List.mem_singleton.mp new))
  · intro v member
    rw [published.store] at member
    rcases List.mem_append.mp member with member | member
    · exact chained.published v member
    · rw [List.mem_singleton.mp member]
      exact ⟨published.valid, published.revision, published.tenant, published.service, rfl⟩
  · intro id revision present
    have kept : ∀ id ∈ s.keyIds, id ∈ s'.keyIds := by
      intro id member
      rw [published.store]
      cases call with
      | prepare => exact .tail _ member
      | activate | retire => exact member
    rw [key] at present
    split at present
    · by_cases before : s.key id s.head = none
      · obtain ⟨operation, expected, actor, publicKey, eq⟩ := published.joins before present
        rw [published.store, eq]
        exact .head _
      · exact kept id (chained.known id s.head before)
    · exact kept id (chained.known id revision present)
  · intro id k held
    rw [key] at held
    split at held
    · rename_i here
      have empty : s.head = 0 := by omega
      have nothing : s.body s.head = none := body_outside chained (.inl empty)
      cases published.changed with
      | first _ _ lookup =>
        rw [lookup id] at held
        split at held
        · cases held
          rfl
        · cases held
      | prepared body | activated body | retired body => exact absurd (nothing.symm.trans body) (by simp)
    · exact chained.first id k held
  · intro id revision positive inside
    rw [key, key, if_neg (by omega)]
    by_cases last : revision = s.head
    · rw [if_pos (by omega), last]
      exact published.carries chained (by omega) id
    · rw [if_neg (by omega)]
      exact chained.carried id revision positive (by omega)
  · intro id
    have before : Line Evolves (s'.key id) s.head := by
      refine (chained.lines id).congr ?_
      intro i inside
      rw [key, if_neg (by omega)]
    rw [head]
    have at' : s'.key id s.head = s.key id s.head := by rw [key, if_neg (by omega)]
    have after : s'.key id (s.head + 1) = t.lookup id := by rw [key, if_pos rfl]
    refine before.extend ?_ ?_
    · rw [at', after]
      intro x y held held'
      have started : 0 < s.head := by
        by_contra empty
        have none : s.key id s.head = none := by
          rw [Store.key, body_outside chained (.inl (by omega))]
          rfl
        rw [none] at held
        cases held
      have carries := published.carries chained started id
      rw [held, held'] at carries
      exact evolves_of_carries carries
    · rw [at', after]
      intro absent present j inside
      rw [key, if_neg (by omega)]
      exact published.appears chained absent present j

end

section

variable [DecidableEq Tag] (env : Environment Tag)

def Store.empty : Store Tag := ⟨0, [], []⟩

def after (s : Store Tag) (c : Call × Tables) : Store Tag :=
  match apply env s c.2 c.1 with
  | .ok (_, s') => s'
  | .error _ => s

def run (s : Store Tag) (calls : List (Call × Tables)) : Store Tag := calls.foldl (after env) s

def Creates (s : Store Tag) (c : Call × Tables) (t : Trust) : Prop :=
  ∃ s', apply env s c.2 c.1 = .ok (t, s') ∧ s'.head ≠ s.head

variable {env} {s : Store Tag}

omit [DecidableEq Tag] in
theorem empty_chained : (Store.empty : Store Tag).Chained env where
  bounded := Nat.zero_le _
  revisions := rfl
  operations := List.nodup_nil
  published v member := nomatch member
  known id revision present := absurd rfl present
  first id k held := by cases held
  carried id revision positive inside := absurd inside (Nat.not_lt_zero _)
  lines id := ⟨fun i bound => absurd bound (Nat.not_lt_zero _),
    fun i bound => absurd bound (Nat.not_lt_zero _)⟩

theorem after_cases (s : Store Tag) (c : Call × Tables) :
    after env s c = s ∨ ∃ t, Published env s c.2 c.1 t (after env s c) := by
  unfold after
  split
  · rename_i t s' ok
    rcases apply_cases ok with replayed | published
    · exact .inl replayed.1
    · exact .inr ⟨t, published⟩
  · exact .inl rfl

theorem after_chained (chained : s.Chained env) (c : Call × Tables) : (after env s c).Chained env := by
  rcases after_cases s c with same | ⟨t, published⟩
  · rw [same]
    exact chained
  · exact published.chained chained

theorem run_chained (chained : s.Chained env) (calls : List (Call × Tables)) :
    (run env s calls).Chained env := by
  induction calls generalizing s with
  | nil => exact chained
  | cons c _ ih => exact ih (after_chained chained c)

theorem after_head (s : Store Tag) (c : Call × Tables) : s.head ≤ (after env s c).head := by
  rcases after_cases s c with same | ⟨t, published⟩
  · rw [same]
  · rw [published.store]
    exact .step .refl

theorem run_head (s : Store Tag) (calls : List (Call × Tables)) : s.head ≤ (run env s calls).head := by
  induction calls generalizing s with
  | nil => exact le_rfl
  | cons c _ ih => exact Nat.le_trans (after_head s c) (ih (after env s c))

theorem run_versions (s : Store Tag) (calls : List (Call × Tables)) :
    ∃ later, (run env s calls).versions = s.versions ++ later := by
  induction calls generalizing s with
  | nil => exact ⟨[], (List.append_nil _).symm⟩
  | cons c _ ih =>
    obtain ⟨later, eq⟩ := ih (after env s c)
    rcases after_cases s c with same | ⟨t, published⟩
    · exact ⟨later, by rw [same] at eq; rw [run, List.foldl_cons, same]; exact eq⟩
    have versions : (after env s c).versions = s.versions ++ [⟨s.head + 1, c.1.operation,
        env.mac c.1.operation c.1.request, t, env.installationDigest t⟩] := by
      rw [published.store]
    rw [versions, List.append_assoc] at eq
    exact ⟨_, eq⟩

theorem Creates.published {c : Call × Tables} {t : Trust} (creates : Creates env s c t) :
    Published env s c.2 c.1 t (after env s c) := by
  obtain ⟨s', ok, head⟩ := creates
  have eq : after env s c = s' := by rw [after, ok]
  rcases apply_cases ok with replayed | published
  · exact absurd (by rw [replayed.1]) head
  · rw [eq]
    exact published

theorem created_replays (separates : ∀ operation, Function.Injective (env.mac operation))
    (chained : s.Chained env) {c : Call × Tables} {t : Trust} (creates : Creates env s c t)
    (later : List (Call × Tables)) {again : Call} (same : again.operation = c.1.operation)
    (tables : Tables) :
    (again.request = c.1.request →
      apply env (run env (after env s c) later) tables again =
        .ok (t, run env (after env s c) later)) ∧
    (again.request ≠ c.1.request →
      ∃ e, apply env (run env (after env s c) later) tables again = .error e) := by
  have published := creates.published
  have chained' : (run env (after env s c) later).Chained env :=
    run_chained (after_chained chained c) later
  obtain ⟨more, versions⟩ : ∃ more, (run env (after env s c) later).versions =
      (after env s c).versions ++ more := run_versions _ _
  have member : (⟨s.head + 1, c.1.operation, env.mac c.1.operation c.1.request, t,
      env.installationDigest t⟩ : Version Tag) ∈ (run env (after env s c) later).versions := by
    rw [versions, published.store]
    simp
  generalize run env (after env s c) later = s' at chained' member
  have found : s'.versions.find? (fun v => v.operation = again.operation) = some
      ⟨s.head + 1, c.1.operation, env.mac c.1.operation c.1.request, t,
        env.installationDigest t⟩ := by
    cases found : s'.versions.find? (fun v => v.operation = again.operation) with
    | none =>
      have differs := find?_eq_none.mp found _ member
      exact absurd same.symm (by simpa using differs)
    | some v =>
      have here : v.operation = again.operation := by simpa using find?_some found
      rw [List.inj_on_of_nodup_map chained'.operations (List.mem_of_find?_eq_some found) member
        (here.trans same)]
  refine ⟨?_, ?_⟩
  · intro identical
    have replayed : replay env s' again.operation again.request = .ok (some t) := by
      have coordinates : ¬(decide (t.serviceId ≠ env.service) || decide (t.tenant ≠ env.tenant)) =
          true := by simp [published.service, published.tenant]
      rw [replay, found]
      simp only [same, identical, ne_eq, not_true_eq_false, if_false, published.valid]
      rw [if_neg coordinates]
    have shape : ∀ lowest : Int, lowest ≤ again.expected → again.expected ≠ maxRevision →
        again.operation ≠ 0 → ∀ fresh, changing env s' lowest again.operation again.expected
          again.request fresh = .ok (t, s') := by
      intro lowest low high nonzero fresh
      have passes : ¬(decide (again.expected < lowest) || decide (again.expected = maxRevision) ||
          decide (again.operation = 0)) = true := by
        simp only [Bool.or_eq_true, decide_eq_true_eq, not_or, not_lt]
        exact ⟨⟨low, high⟩, nonzero⟩
      rw [changing, if_neg passes, replayed, ok_bind]
    obtain ⟨s'', ok, -⟩ := creates
    cases again <;> cases first : c.1 <;> rw [first] at identical same ok <;> cases identical
    all_goals
      obtain ⟨passes, -⟩ := of_guard ok
      simp only [Bool.or_eq_true, decide_eq_true_eq, not_or, not_lt] at passes
      exact shape _ passes.1.1 passes.1.2 (same ▸ passes.2) _
  · intro different
    cases result : apply env s' tables again with
    | error e => exact ⟨e, rfl⟩
    | ok =>
      exfalso
      rcases apply_cases result with ⟨-, v, found', tag, -⟩ | published'
      · cases found.symm.trans found'
        rw [same] at tag
        exact different (separates _ tag)
      · exact published'.unused _ member same.symm

omit [DecidableEq Tag] in
theorem successor_of_carried (chained : s.Chained env) {u w : Nat} {old new : Trust} (le : u ≤ w)
    (before : s.body u = some old) (later : s.body w = some new)
    (carried : ∀ id, Carries (old.lookup id) (new.lookup id)) :
    new.validateSuccessor old = .ok () := by
  obtain ⟨v, member, revision, rfl⟩ := body_eq_some before
  obtain ⟨v', member', revision', rfl⟩ := body_eq_some later
  obtain ⟨valid, same, tenant, service, -⟩ := chained.published v member
  obtain ⟨valid', same', tenant', service', -⟩ := chained.published v' member'
  refine validateSuccessor_of valid' valid (tenant'.trans tenant.symm) (service'.trans service.symm)
    (by omega) ?_ carried
  intro equal
  have here : u = w := by omega
  rw [here] at before
  exact Option.some.inj (later.symm.trans before)

/-- The states of one key over the revisions: active from the first revision or prepared later, and
absent for good once it leaves. -/
structure Store.KeyPath (s : Store Tag) (id : String) : Prop where
  first : ∀ k, s.key id 1 = some k → k.state = .active
  moves : ∀ revision, 0 < revision → revision < s.head →
    Carries (s.key id revision) (s.key id (revision + 1))
  final : ∀ u v w, u ≤ v → v ≤ w → w ≤ s.head → s.key id u ≠ none → s.key id v = none →
    s.key id w = none

/-- Every run of changes publishes the revisions up to the head, each valid and a successor of the
one before it; a repeated operation is answered with what it published, and an expected revision is
used once. -/
theorem trust_history (env : Environment Tag)
    (separates : ∀ operation, Function.Injective (env.mac operation)) (calls : List (Call × Tables)) :
    (run env .empty calls).versions.map Version.revision =
      (List.range (run env .empty calls).head).map (· + 1) ∧
    (∀ v ∈ (run env .empty calls).versions, v.body.validate = .ok () ∧
      v.body.revision = v.revision) ∧
    (∀ revision old new, (run env .empty calls).body revision = some old →
      (run env .empty calls).body (revision + 1) = some new →
      new.validateSuccessor old = .ok ()) ∧
    (∀ id, (run env .empty calls).KeyPath id) ∧
    ∀ before c later, calls = before ++ c :: later → ∀ t, Creates env (run env .empty before) c t →
      (∀ again tables, again.operation = c.1.operation →
        (again.request = c.1.request →
          apply env (run env .empty calls) tables again = .ok (t, run env .empty calls)) ∧
        (again.request ≠ c.1.request →
          ∃ e, apply env (run env .empty calls) tables again = .error e)) ∧
      ∀ between c' rest, later = between ++ c' :: rest → c'.1.expected = c.1.expected →
        ∀ t', ¬Creates env (run env .empty (before ++ c :: between)) c' t' := by
  have chained : (run env .empty calls).Chained env := run_chained empty_chained calls
  refine ⟨chained.revisions, ?_, ?_, ?_, ?_⟩
  · intro v member
    obtain ⟨valid, revision, -⟩ := chained.published v member
    exact ⟨valid, revision⟩
  · intro revision old new before next
    refine successor_of_carried chained (Nat.le_succ _) before next ?_
    intro id
    obtain ⟨v, member, here, -⟩ := body_eq_some before
    obtain ⟨v', member', here', -⟩ := body_eq_some next
    have lower := revision_bounds chained member
    have upper := revision_bounds chained member'
    have carried := chained.carried id revision (by omega) (by omega)
    rw [Store.key, Store.key, before, next] at carried
    exact carried
  · intro id
    refine ⟨chained.first id, chained.carried id, ?_⟩
    intro u v w uv vw bound present absent
    exact (chained.lines id).gone uv vw bound present absent
  · rintro before c later rfl t creates
    have earlier : (run env .empty before).Chained env := run_chained empty_chained before
    have split : ∀ rest, run env .empty (before ++ c :: rest) =
        run env (after env (run env .empty before) c) rest := by
      intro rest
      rw [run, List.foldl_append]
      rfl
    refine ⟨?_, ?_⟩
    · intro again tables same
      rw [split]
      exact created_replays separates earlier creates later same tables
    · rintro between c' rest rfl same t' creates'
      have first := creates.published
      have second := creates'.published
      have head : (after env (run env .empty before) c).head = (run env .empty before).head + 1 := by
        rw [first.store]
      have onwards : (after env (run env .empty before) c).head ≤
          (run env (after env (run env .empty before) c) between).head := run_head _ between
      have used := first.expected
      have used' := second.expected
      rw [split] at used'
      omega

end

namespace Sample

def material (last : Char) : String := String.ofList (List.replicate 42 'A' ++ [last])

def environment : Environment (Uuid × Request) where
  tenant := 1
  service := 2
  installationDigest t :=
    String.ofList (List.replicate (64 - t.revision) 'a' ++ List.replicate t.revision 'b')
  mac operation request := (operation, request)

theorem environment_separates (operation : Uuid) :
    Function.Injective (environment.mac operation) := by
  intro request request' same
  exact (Prod.mk.inj same).2

def quiet : Tables := ⟨[], [], fun _ => false⟩

/-- A second key is prepared and withdrawn again. -/
def withdrawn : List (Call × Tables) :=
  [(.prepare 10 0 "x" "a" (material 'A'), quiet), (.prepare 11 1 "x" "b" (material 'E'), quiet),
    (.retire 12 2 "b" "x", quiet)]

theorem trust_history_withdrawn : (run environment .empty withdrawn).head = 3 ∧
    (run environment .empty withdrawn).versions.map Version.revision = [1, 2, 3] ∧
    (run environment .empty withdrawn).KeyPath "b" := by
  have history := trust_history environment environment_separates withdrawn
  have head : (run environment .empty withdrawn).head = 3 := by decide
  refine ⟨head, ?_, history.2.2.2.1 "b"⟩
  rw [history.1, head]
  rfl

/-- A prepared key leaves without ever being active. -/
theorem prepared_key_leaves :
    (run environment .empty withdrawn).key "b" 2 = some ⟨"b", material 'E', .prepared⟩ ∧
      (run environment .empty withdrawn).key "b" 3 = none := by
  decide

end Sample

end RssMdm.TaskSigning
