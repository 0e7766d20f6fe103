/- module: TaskSigning/Rotation
   source: crates/execution-service/src/task_signing/trust.rs,
     crates/execution-service/src/task_signing/service.rs, crates/agent-wire/src/task_trust.rs
   digest: Rotation with Agents that fetch, install and acknowledge at their own pace. -/

import RssMdm.TaskSigning.History

set_option autoImplicit false

namespace RssMdm.TaskSigning

open AgentWire Lib.Fallible Lib.Lifeline
open Lib.Text (Uuid)
open List (mem_cons mem_cons_of_mem mem_singleton not_mem_nil)
open Option (bind_some)

variable {Tag : Type}

section

structure Installer where
  fetched : List Trust
  installed : Option Trust
  log : List Trust

/-- The server and its Agents; `enrolled` remembers every registration there ever was. -/
structure World (Tag : Type) where
  store : Store Tag
  tables : Tables
  enrolled : List Agent
  installers : Agent → Installer

inductive Step where
  | change (call : Call) (pending : String → Bool)
  | enroll (agent : Agent)
  | leave (agent : Agent)
  | fetch (agent : Agent)
  | install (agent : Agent) (t : Trust)
  | acknowledge (agent : Agent) (operation : Uuid) (t : Trust)

def World.start : World Tag := ⟨.empty, ⟨[], [], fun _ => false⟩, [], fun _ => ⟨[], none, []⟩⟩

def World.update (w : World Tag) (agent : Agent) (f : Installer → Installer) : World Tag :=
  { w with installers := fun a => if a = agent then f (w.installers a) else w.installers a }

def reported (env : Environment Tag) (agent : Agent) (operation : Uuid) (t : Trust) :
    Acknowledgement :=
  ⟨operation, 1, agent.registration, agent.generation, t.revision, env.installationDigest t⟩

variable [DecidableEq Tag] (env : Environment Tag)

def World.step (w : World Tag) : Step → World Tag
  | .change call pending =>
      match apply env w.store { w.tables with pending } call with
      | .ok (_, store) => { w with store }
      | .error _ => w
  | .enroll agent =>
      -- A registration that left comes back under another generation.
      if agent ∈ w.enrolled then w
      else { w with
        enrolled := agent :: w.enrolled
        tables := { w.tables with active := agent :: w.tables.active } }
  | .leave agent =>
      { w with tables := { w.tables with active := w.tables.active.filter (· ≠ agent) } }
  | .fetch agent =>
      if agent ∈ w.tables.active then
        match current env w.store with
        | .ok t => w.update agent (fun i => { i with fetched := t :: i.fetched })
        | .error _ => w
      else w
  | .install agent t =>
      if t ∈ (w.installers agent).fetched ∧ ((w.installers agent).installed.all
          (fun old => t.validateSuccessor old = .ok ())) = true then
        w.update agent (fun i => { i with installed := some t, log := t :: i.log })
      else w
  | .acknowledge agent operation t =>
      if t ∈ (w.installers agent).log then
        match acknowledge w.store w.tables agent (reported env agent operation t) with
        | .ok tables => { w with tables }
        | .error _ => w
      else w

def World.run (w : World Tag) (steps : List Step) : World Tag := steps.foldl (World.step env) w

end

def Tables.Highest (tables : Tables) (agent : Agent) (revision : Nat) : Prop :=
  (∃ a ∈ tables.acknowledgements, a.agent = agent ∧ a.revision = revision) ∧
    ∀ a ∈ tables.acknowledgements, a.agent = agent → a.revision ≤ revision

theorem highest_exists {tables : Tables} {agent : Agent} {a : Acknowledged}
    (member : a ∈ tables.acknowledgements) (owner : a.agent = agent) :
    ∃ revision, tables.Highest agent revision := by
  have listed : ∀ n, n ∈ (tables.acknowledgements.filter (·.agent = agent)).map
      Acknowledged.revision ↔ ∃ a ∈ tables.acknowledgements, a.agent = agent ∧ a.revision = n := by
    intro n
    simp only [List.mem_map, List.mem_filter, decide_eq_true_eq, and_assoc]
  obtain ⟨n, top⟩ := Option.isSome_iff_exists.mp
    (List.isSome_max?_of_mem ((listed a.revision).mpr ⟨a, member, owner, rfl⟩))
  obtain ⟨inside, bound⟩ := List.max?_eq_some_iff.mp top
  refine ⟨n, (listed n).mp inside, ?_⟩
  intro b member owner
  exact bound b.revision ((listed b.revision).mpr ⟨b, member, owner, rfl⟩)

section

/-- What is known of an active Agent that enrolled at the revision `floor`: every set it may still
acknowledge is followed by the head. -/
structure Follows (w : World Tag) (agent : Agent) (floor : Nat) : Prop where
  within : floor ≤ w.store.head
  fetched : ∀ t ∈ (w.installers agent).fetched, ∃ n, floor ≤ n ∧ n ≤ w.store.head ∧
    w.store.body n = some t
  logged : ∀ t ∈ (w.installers agent).log, t ∈ (w.installers agent).fetched
  acknowledged : ∀ a ∈ w.tables.acknowledgements, a.agent = agent →
    floor ≤ a.revision ∧ 0 < a.revision ∧ a.revision ≤ w.store.head
  carried : ∀ n, 0 < n → floor ≤ n → n ≤ w.store.head →
    (∀ a ∈ w.tables.acknowledgements, a.agent = agent → a.revision ≤ n) →
    ∀ id, Carries (w.store.key id n) (w.store.key id w.store.head)

structure World.Sound (env : Environment Tag) (w : World Tag) : Prop where
  chained : w.store.Chained env
  active : ∀ agent ∈ w.tables.active, agent ∈ w.enrolled
  owners : ∀ a ∈ w.tables.acknowledgements, a.agent ∈ w.enrolled
  strangers : ∀ agent, agent ∉ w.enrolled → w.installers agent = ⟨[], none, []⟩
  follows : ∀ agent ∈ w.tables.active, ∃ floor, Follows w agent floor

/-- No active Agent's highest acknowledged set still has the active key as a prepared one. -/
def World.Settled (w : World Tag) : Prop :=
  ∀ agent ∈ w.tables.active, ∀ n, w.tables.Highest agent n → ∀ id k k',
    w.store.key id n = some k → w.store.key id w.store.head = some k' → k'.state = .active →
    k.state ≠ .prepared

/-- Every active Agent can install the head over the highest set it acknowledged. -/
def World.Installable (w : World Tag) : Prop :=
  ∀ agent ∈ w.tables.active, ∀ n, w.tables.Highest agent n →
    ∃ head old, w.store.body w.store.head = some head ∧ w.store.body n = some old ∧
      head.validateSuccessor old = .ok ()

variable {env : Environment Tag} {w : World Tag} {agent : Agent} {floor : Nat}

theorem start_sound : (World.start : World Tag).Sound env where
  chained := empty_chained
  active _ member := nomatch member
  owners _ member := nomatch member
  strangers _ _ := rfl
  follows _ member := nomatch member

theorem acknowledgedIn_eq_true {s : Store Tag} {tables : Tables} (chained : s.Chained env)
    {keyId : String} {states : List KeyState}
    (h : acknowledgedIn s tables agent keyId states = true) :
    ∃ a ∈ tables.acknowledgements, a.agent = agent ∧ ∃ k, s.key keyId a.revision = some k ∧
      k.state ∈ states := by
  simp only [acknowledgedIn, List.any_eq_true, Bool.and_eq_true, decide_eq_true_eq,
    List.contains_iff_mem] at h
  obtain ⟨a, member, owner, v, published, ⟨revision, -⟩, k, held, id, state⟩ := h
  refine ⟨a, member, owner, k, ?_, state⟩
  have valid := validate_valid (chained.published v published).1
  rw [Store.key, ← revision, body_of_mem chained published, bind_some, ← id]
  exact valid.lookup held

theorem key_between (chained : w.store.Chained env)
    {a : Acknowledged} (member : a ∈ w.tables.acknowledgements) (owner : a.agent = agent) {n : Nat}
    (inside : n ≤ w.store.head)
    (above : ∀ a ∈ w.tables.acknowledgements, a.agent = agent → a.revision ≤ n) {id : String}
    {k k' : PublicKey} (held : w.store.key id a.revision = some k)
    (kept : w.store.key id w.store.head = some k') :
    ∃ k₀, w.store.key id n = some k₀ ∧ Evolves k k₀ := by
  have later := above a member owner
  have present : w.store.key id n ≠ none :=
    (chained.lines id).between later inside (le_rfl) (by simp [held]) (by simp [kept])
  obtain ⟨k₀, eq⟩ := Option.ne_none_iff_exists'.mp present
  exact ⟨k₀, eq, (chained.lines id).related evolves_refl evolves_trans later inside held eq⟩

theorem Follows.outgoing (follows : Follows w agent floor) (chained : w.store.Chained env)
    (settled : w.Settled) (active : agent ∈ w.tables.active) {a : Acknowledged}
    (member : a ∈ w.tables.acknowledgements) (owner : a.agent = agent) {n : Nat}
    (inside : n ≤ w.store.head)
    (above : ∀ a ∈ w.tables.acknowledgements, a.agent = agent → a.revision ≤ n) {id : String}
    {k k' : PublicKey} (held : w.store.key id n = some k)
    (head : w.store.key id w.store.head = some k') (state : k'.state = .active) :
    k.state ≠ .prepared := by
  intro prepared
  obtain ⟨h, highest⟩ := highest_exists member owner
  obtain ⟨b, member', owner', rfl⟩ := highest.1
  obtain ⟨floored, positive, bounded⟩ := follows.acknowledged b member' owner'
  have later := above b member' owner'
  have carries := follows.carried b.revision positive floored bounded highest.2 id
  cases there : w.store.key id b.revision with
  | none =>
    rw [there, head] at carries
    have fresh : k'.state = .prepared := carries
    rw [state] at fresh
    cases fresh
  | some kh =>
    have evolves := (chained.lines id).related evolves_refl evolves_trans later inside there held
    have first : kh.state = .prepared := by
      have le := evolves.1
      rw [prepared] at le
      cases before : kh.state with
      | prepared => rfl
      | active | verifyOnly => rw [before] at le; exact absurd le (by decide)
    exact settled agent active b.revision highest id kh k' there head state first

theorem permitted_activated {old : KeyState} (allowed : permitted old (some .prepared) = true) :
    permitted old (some .active) = true := by
  cases old with
  | prepared => rfl
  | active | verifyOnly => exact absurd allowed (by decide)

theorem permitted_ended {old : KeyState} (allowed : permitted old (some .active) = true)
    (installed : old ≠ .prepared) : permitted old (some .verifyOnly) = true := by
  cases old with
  | prepared => exact absurd rfl installed
  | active => rfl
  | verifyOnly => exact absurd allowed (by decide)

theorem verifyOnly_of_permitted {new : KeyState} (allowed : permitted .active (some new) = true)
    (ended : new ≠ .active) : new = .verifyOnly := by
  cases new with
  | verifyOnly => rfl
  | active => exact absurd rfl ended
  | prepared => exact absurd allowed (by decide)

variable {tables : Tables} {call : Call} {t : Trust} {s' : Store Tag}

def Call.activates : Call → Bool
  | .activate _ _ _ _ => true
  | _ => false

theorem Published.carriesOn (published : Published env w.store tables call t s')
    (acks : tables.acknowledgements = w.tables.acknowledgements)
    (actives : tables.active = w.tables.active) (chained : w.store.Chained env)
    (settled : call.activates = true → w.Settled) (active : agent ∈ w.tables.active)
    (follows : Follows w agent floor) {n : Nat} (positive : 0 < n) (floored : floor ≤ n)
    (inside : n ≤ w.store.head)
    (above : ∀ a ∈ w.tables.acknowledgements, a.agent = agent → a.revision ≤ n) (id : String) :
    Carries (w.store.key id n) (t.lookup id) := by
  have before := follows.carried n positive floored inside above id
  cases published.changed with
  | first => omega
  | @prepared operation expected actor new publicKey old _ body lookup =>
    rw [lookup id]
    split
    · rename_i here
      have unknown := published.unknown _ _ _ _ _ rfl
      have absent : w.store.key id n = none := by
        by_contra present
        exact unknown (here ▸ chained.known id n present)
      rw [absent]
      rfl
    · rw [Store.key, Store.key, body, bind_some] at before
      exact before
  | @activated operation expected keyId actor old _ k body key state known lookup =>
    have head : ∀ i, w.store.key i w.store.head = old.lookup i := by
      intro i
      rw [Store.key, body, bind_some]
    obtain ⟨a, member, owner, ka, held, -⟩ :=
      acknowledgedIn_eq_true chained (known agent (actives ▸ active))
    rw [acks] at member
    rw [lookup id]
    rw [head id] at before
    cases found : old.lookup id with
    | none =>
      rw [found] at before
      exact before
    | some k' =>
      have here := (lookup_eq_some found).2
      rw [found] at before
      rw [Option.map_some]
      unfold activated
      split
      · rename_i same
        rw [here] at same
        subst same
        have one : k' = k := Option.some.inj (found.symm.trans key)
        rw [one] at before ⊢
        obtain ⟨k₀, there, -⟩ := key_between chained member owner inside above held
          ((head _).trans key)
        rw [there] at before ⊢
        exact ⟨before.1, permitted_activated (state ▸ before.2)⟩
      · split
        · rename_i other outgoing
          cases there : w.store.key id n with
          | none =>
            rw [there] at before
            have fresh : k'.state = .prepared := before
            rw [outgoing] at fresh
            cases fresh
          | some k₀ =>
            have old' := follows.outgoing chained (settled rfl) active member owner inside
              above there ((head id).trans found) outgoing
            rw [there] at before
            exact ⟨before.1, permitted_ended (outgoing ▸ before.2) old'⟩
        · exact before
  | @retired operation expected keyId actor old _ k body key state known lookup =>
    have head : ∀ i, w.store.key i w.store.head = old.lookup i := by
      intro i
      rw [Store.key, body, bind_some]
    rw [lookup id]
    rw [head id] at before
    split
    · rename_i here
      subst here
      rw [key] at before
      cases there : w.store.key id n with
      | none => trivial
      | some k₀ =>
        rw [there] at before
        show permitted k₀.state none = true
        have permitted := before.2
        cases prior : k₀.state with
        | prepared | verifyOnly => rfl
        | active =>
          -- The Agent acknowledged the key as one that only verifies.
          have retained := verifyOnly_of_permitted (prior ▸ permitted) state
          obtain ⟨a, member, owner, ka, held, ended⟩ :=
            acknowledgedIn_eq_true chained (known retained agent (actives ▸ active))
          rw [acks] at member
          obtain ⟨k₁, there', evolves⟩ := key_between chained member owner inside above held
            ((head _).trans key)
          have same : k₁ = k₀ := Option.some.inj (there'.symm.trans there)
          have le := evolves.1
          rw [same, prior, mem_singleton.mp ended] at le
          exact absurd le (by decide)
    · exact before

theorem Published.follows (published : Published env w.store tables call t s')
    (acks : tables.acknowledgements = w.tables.acknowledgements)
    (actives : tables.active = w.tables.active) (chained : w.store.Chained env)
    (settled : call.activates = true → w.Settled) (active : agent ∈ w.tables.active)
    (follows : Follows w agent floor) : Follows { w with store := s' } agent floor := by
  have head : s'.head = w.store.head + 1 := by rw [published.store]
  refine ⟨?_, ?_, follows.logged, ?_, ?_⟩
  · have within := follows.within
    show floor ≤ s'.head
    omega
  · intro t' member
    obtain ⟨n, floored, inside, body⟩ := follows.fetched t' member
    refine ⟨n, floored, by show n ≤ s'.head; omega, ?_⟩
    show s'.body n = some t'
    rw [published.body chained, if_neg (by omega)]
    exact body
  · intro a member owner
    obtain ⟨floored, positive, inside⟩ := follows.acknowledged a member owner
    exact ⟨floored, positive, by show a.revision ≤ s'.head; omega⟩
  · intro n positive floored inside above id
    have inside' : n ≤ s'.head := inside
    show Carries (s'.key id n) (s'.key id s'.head)
    rw [head, published.key chained, published.key chained, if_pos rfl]
    by_cases last : n = w.store.head + 1
    · rw [if_pos last]
      exact carries_refl _
    · rw [if_neg last]
      exact published.carriesOn acks actives chained settled active follows positive floored
        (by omega) above id

theorem Follows.congr (follows : Follows w agent floor) {w' : World Tag} (store : w'.store = w.store)
    (installer : w'.installers agent = w.installers agent)
    (acks : ∀ a, a.agent = agent →
      (a ∈ w'.tables.acknowledgements ↔ a ∈ w.tables.acknowledgements)) :
    Follows w' agent floor := by
  refine ⟨store ▸ follows.within, ?_, ?_, ?_, ?_⟩
  · rw [installer, store]
    exact follows.fetched
  · rw [installer]
    exact follows.logged
  · intro a member owner
    rw [store]
    exact follows.acknowledged a ((acks a owner).mp member) owner
  · intro n positive floored inside above id
    rw [store] at inside ⊢
    exact follows.carried n positive floored inside
      (fun a member owner => above a ((acks a owner).mpr member) owner) id

theorem acknowledge_eq_ok {s : Store Tag} {tables' : Tables} {input : Acknowledgement}
    (h : acknowledge s tables agent input = .ok tables') :
    agent ∈ tables.active ∧ (tables' = tables ∨ tables' = { tables with
      acknowledgements := tables.acknowledgements ++
        [⟨input.operation, agent, input.revision, input.digest⟩] }) := by
  unfold acknowledge at h
  split at h
  · cases h
  obtain ⟨-, h⟩ := of_guard h
  obtain ⟨active, h⟩ := of_guard h
  obtain ⟨-, h⟩ := of_guard h
  refine ⟨by simpa using active, ?_⟩
  simp only at h
  split at h
  · split at h
    · cases h
      exact .inl rfl
    · cases h
  · cases h
    exact .inr rfl

theorem enroll_sound (sound : w.Sound env) (fresh : agent ∉ w.enrolled) :
    World.Sound env { w with
      enrolled := agent :: w.enrolled
      tables := { w.tables with active := agent :: w.tables.active } } := by
  refine ⟨sound.chained, ?_, ?_, ?_, ?_⟩
  · intro a member
    rcases mem_cons.mp member with rfl | member
    · exact .head _
    · exact .tail _ (sound.active a member)
  · intro a member
    exact .tail _ (sound.owners a member)
  · intro a stranger
    exact sound.strangers a (fun known => stranger (.tail _ known))
  · intro a member
    rcases mem_cons.mp member with rfl | member
    · have nothing := sound.strangers a fresh
      have silent : ∀ b ∈ w.tables.acknowledgements, b.agent ≠ a :=
        fun b listed owner => fresh (owner ▸ sound.owners b listed)
      refine ⟨w.store.head, le_rfl, ?_, ?_, ?_, ?_⟩
      · intro t listed
        simp only [nothing] at listed
        cases listed
      · intro t listed
        simp only [nothing] at listed
        cases listed
      · intro b listed owner
        exact absurd owner (silent b listed)
      · intro n positive floored inside above id
        rw [show n = w.store.head from le_antisymm inside floored]
        exact carries_refl _
    · obtain ⟨floor, follows⟩ := sound.follows a member
      exact ⟨floor, follows.congr rfl rfl (fun _ _ => Iff.rfl)⟩

theorem update_sound (sound : w.Sound env) (known : agent ∈ w.enrolled) (f : Installer → Installer)
    (fetched : ∀ t ∈ (f (w.installers agent)).fetched, t ∈ (w.installers agent).fetched ∨
      w.store.body w.store.head = some t)
    (logged : ∀ t ∈ (f (w.installers agent)).log, t ∈ (w.installers agent).log ∨
      t ∈ (w.installers agent).fetched)
    (kept : ∀ t ∈ (w.installers agent).fetched, t ∈ (f (w.installers agent)).fetched) :
    (w.update agent f).Sound env := by
  have other : ∀ a, a ≠ agent → (w.update agent f).installers a = w.installers a :=
    fun a different => if_neg different
  have self : (w.update agent f).installers agent = f (w.installers agent) := if_pos rfl
  refine ⟨sound.chained, sound.active, sound.owners, ?_, ?_⟩
  · intro a stranger
    have stranger' : a ∉ w.enrolled := stranger
    rw [other a (fun same => stranger' (same ▸ known))]
    exact sound.strangers a stranger'
  · intro a member
    obtain ⟨floor, follows⟩ := sound.follows a member
    by_cases here : a = agent
    · subst here
      refine ⟨floor, follows.within, ?_, ?_, follows.acknowledged, follows.carried⟩
      · intro t listed
        rw [self] at listed
        rcases fetched t listed with listed | body
        · exact follows.fetched t listed
        · exact ⟨w.store.head, follows.within, le_rfl, body⟩
      · intro t listed
        rw [self] at listed ⊢
        rcases logged t listed with listed | listed
        · exact kept t (follows.logged t listed)
        · exact kept t listed
    · exact ⟨floor, follows.congr rfl (other a here) (fun _ _ => Iff.rfl)⟩

theorem acknowledge_sound (sound : w.Sound env) {operation : Uuid}
    (logged : t ∈ (w.installers agent).log)
    (h : acknowledge w.store w.tables agent (reported env agent operation t) = .ok tables) :
    World.Sound env { w with tables } := by
  obtain ⟨active, same | added⟩ := acknowledge_eq_ok h
  · rw [same]
    exact sound
  · rw [added]
    have members : ∀ a, a ∈ w.tables.acknowledgements ++
        [(⟨operation, agent, t.revision, env.installationDigest t⟩ : Acknowledged)] ↔
        a ∈ w.tables.acknowledgements ∨
          a = ⟨operation, agent, t.revision, env.installationDigest t⟩ := by
      intro a
      rw [List.mem_append, mem_singleton]
    refine ⟨sound.chained, sound.active, ?_, sound.strangers, ?_⟩
    · intro a member
      rcases (members a).mp member with member | rfl
      · exact sound.owners a member
      · exact sound.active agent active
    · intro a member
      obtain ⟨floor, follows⟩ := sound.follows a member
      by_cases here : a = agent
      · subst here
        obtain ⟨n, floored, inside, body⟩ := follows.fetched t (follows.logged t logged)
        obtain ⟨v, published, revision, eq⟩ := body_eq_some body
        have bounds := revision_bounds sound.chained published
        have same : t.revision = n := by
          rw [← eq, (sound.chained.published v published).2.1, revision]
        refine ⟨floor, follows.within, follows.fetched, follows.logged, ?_, ?_⟩
        · intro b listed owner
          rcases (members b).mp listed with listed | rfl
          · exact follows.acknowledged b listed owner
          · show floor ≤ t.revision ∧ 0 < t.revision ∧ t.revision ≤ w.store.head
            omega
        · intro m positive floored' inside' above
          exact follows.carried m positive floored' inside'
            (fun b listed owner => above b ((members b).mpr (.inl listed)) owner)
      · refine ⟨floor, follows.congr rfl rfl ?_⟩
        intro b owner
        refine ⟨fun listed => ?_, fun listed => (members b).mpr (.inl listed)⟩
        rcases (members b).mp listed with listed | rfl
        · exact listed
        · exact absurd owner.symm here

theorem World.Sound.installable (sound : w.Sound env) : w.Installable := by
  intro agent active n highest
  obtain ⟨floor, follows⟩ := sound.follows agent active
  obtain ⟨⟨a, member, owner, rfl⟩, above⟩ := highest
  obtain ⟨floored, positive, inside⟩ := follows.acknowledged a member owner
  obtain ⟨old, body⟩ := body_exists sound.chained positive inside
  obtain ⟨head, body'⟩ := body_exists sound.chained (by omega) (Nat.le_refl _)
  refine ⟨head, old, body', body, successor_of_carried sound.chained inside body body' ?_⟩
  intro id
  have carries := follows.carried a.revision positive floored inside above id
  rw [Store.key, Store.key, body, body'] at carries
  exact carries

/-- The set in which the active key only verifies is refused by an Agent that has it prepared. -/
theorem Published.strands (published : Published env w.store tables call t s')
    (activates : call.activates = true) (chained : w.store.Chained env)
    (unsettled : ¬w.Settled) : ¬World.Installable { w with store := s' } := by
  intro installable
  refine unsettled ?_
  intro agent active n highest id k k' held head state prepared
  obtain ⟨new, old, body, body', accepted⟩ := installable agent active n highest
  have here : s'.head = w.store.head + 1 := by rw [published.store]
  have inside : n ≠ w.store.head + 1 := by
    intro same
    rw [same, Store.key, body_outside chained (.inr (Nat.lt_succ_self _))] at held
    cases held
  rw [here, published.body chained, if_pos rfl] at body
  rw [published.body chained, if_neg inside] at body'
  cases body
  rw [Store.key, body', bind_some] at held
  have allowed := permitted_of_validateSuccessor accepted held
  cases published.changed with
  | first | prepared | retired => cases activates
  | @activated operation expected keyId actor before _ k₀ body₀ key prior known lookup =>
    rw [Store.key, body₀, bind_some] at head
    have other : id ≠ keyId := by
      rintro rfl
      rw [key] at head
      cases head
      rw [prior] at state
      cases state
    rw [lookup id, head, Option.map_some, activated, if_neg ((lookup_eq_some head).2 ▸ other),
      if_pos state, prepared] at allowed
    cases allowed

variable [DecidableEq Tag]

/-- An activation that is accepted, and not only answered from an earlier version, strands
nobody. -/
def Calm (env : Environment Tag) (w : World Tag) : Step → Prop
  | .change call pending => call.activates = true →
      (∀ v ∈ w.store.versions, v.operation ≠ call.operation) →
      (∃ answer, apply env w.store { w.tables with pending } call = .ok answer) → w.Settled
  | _ => True

theorem step_sound (sound : w.Sound env) (step : Step) (calm : Calm env w step) :
    (w.step env step).Sound env := by
  cases step with
  | change call pending =>
    rw [World.step]
    split
    · rename_i t store ok
      rcases apply_cases ok with ⟨rfl, -⟩ | published
      · exact sound
      refine ⟨published.chained sound.chained, sound.active, sound.owners, sound.strangers, ?_⟩
      intro agent active
      obtain ⟨floor, follows⟩ := sound.follows agent active
      exact ⟨floor, published.follows rfl rfl sound.chained
        (fun activates => calm activates published.unused ⟨_, ok⟩) active follows⟩
    · exact sound
  | enroll agent =>
    rw [World.step]
    split
    · exact sound
    · exact enroll_sound sound ‹_›
  | leave =>
    refine ⟨sound.chained, ?_, sound.owners, sound.strangers, ?_⟩
    · intro a member
      exact sound.active a (List.mem_of_mem_filter member)
    · intro a member
      obtain ⟨floor, follows⟩ := sound.follows a (List.mem_of_mem_filter member)
      exact ⟨floor, follows.congr rfl rfl (fun _ _ => Iff.rfl)⟩
  | fetch agent =>
    rw [World.step]
    split
    · rename_i active
      split
      · rename_i t read
        refine update_sound sound (sound.active agent active) _ ?_ (fun _ h => .inl h)
          (fun _ h => .tail _ h)
        intro t' listed
        rcases mem_cons.mp listed with rfl | listed
        · exact .inr (current_eq_ok read).1
        · exact .inl listed
      · exact sound
    · exact sound
  | install agent t =>
    rw [World.step]
    split
    · rename_i accepted
      have known : agent ∈ w.enrolled := by
        by_contra stranger
        have nothing := accepted.1
        rw [sound.strangers agent stranger] at nothing
        cases nothing
      refine update_sound sound known _ (fun _ h => .inl h) ?_ (fun _ h => h)
      intro t' listed
      rcases mem_cons.mp listed with rfl | listed
      · exact .inr accepted.1
      · exact .inl listed
    · exact sound
  | acknowledge agent operation t =>
    rw [World.step]
    split
    · rename_i logged
      split
      · rename_i tables ok
        exact acknowledge_sound sound logged ok
      · exact sound
    · exact sound

theorem calm_of_installable (sound : w.Sound env) (step : Step)
    (after : (w.step env step).Installable) : Calm env w step := by
  cases step with
  | change call pending =>
    rintro activates fresh ⟨⟨t, s'⟩, ok⟩
    rw [World.step, ok] at after
    rcases apply_cases ok with ⟨-, v, found, -⟩ | published
    · exact absurd (by simpa using List.find?_some found)
        (fresh v (List.mem_of_find?_eq_some found))
    · by_contra unsettled
      exact published.strands activates sound.chained unsettled after
  | enroll | leave | fetch | install | acknowledge => trivial

end

section

variable [DecidableEq Tag] (env : Environment Tag)

def CalmRun (w : World Tag) : List Step → Prop
  | [] => True
  | step :: steps => Calm env w step ∧ CalmRun (w.step env step) steps

variable {env} {w : World Tag}

theorem calmRun_iff (sound : w.Sound env) (steps : List Step) :
    CalmRun env w steps ↔ ∀ front, front <+: steps → (w.run env front).Installable := by
  induction steps generalizing w with
  | nil =>
    refine ⟨?_, fun _ => trivial⟩
    intro _ front inside
    rw [List.prefix_nil.mp inside]
    exact sound.installable
  | cons step steps ih =>
    constructor
    · rintro ⟨calm, rest⟩ front inside
      cases front with
      | nil => exact sound.installable
      | cons first front =>
        obtain ⟨rfl, inner⟩ := List.cons_prefix_cons.mp inside
        exact (ih (step_sound sound first calm)).mp rest front inner
    · intro reached
      have calm := calm_of_installable sound step
        (reached [step] (List.cons_prefix_cons.mpr ⟨rfl, List.nil_prefix⟩))
      refine ⟨calm, (ih (step_sound sound step calm)).mpr ?_⟩
      intro front inside
      exact reached (step :: front) (List.cons_prefix_cons.mpr ⟨rfl, inside⟩)

omit [DecidableEq Tag] in
theorem requireIssue_known {s : Store Tag} {tables : Tables} {agent : Agent} {keyId : String}
    (chained : s.Chained env) (h : requireIssue env s tables agent keyId = .ok ()) :
    ∃ head k, s.body s.head = some head ∧ head.lookup keyId = some k ∧ k.state = .active ∧
      ∃ a ∈ tables.acknowledgements, a.agent = agent ∧ ∃ t k', s.body a.revision = some t ∧
        t.lookup keyId = some k' ∧ k'.publicKey = k.publicKey := by
  obtain ⟨head, read, h⟩ := of_bind h
  obtain ⟨body, valid, -⟩ := current_eq_ok read
  obtain ⟨present, h⟩ := of_guard h
  obtain ⟨known, -⟩ := of_guard h
  simp only [Bool.not_eq_true', Bool.not_eq_false, List.any_eq_true, Bool.and_eq_true,
    decide_eq_true_eq] at present
  obtain ⟨k, member, rfl, state⟩ := present
  have found := (validate_valid valid).lookup member
  obtain ⟨a, listed, owner, k', held, -⟩ :=
    acknowledgedIn_eq_true chained (by simpa using known)
  refine ⟨head, k, body, found, state, a, listed, owner, ?_⟩
  obtain ⟨t, read', found'⟩ := Option.bind_eq_some_iff.mp held
  obtain ⟨v, published, revision, -⟩ := body_eq_some read'
  have bounds := revision_bounds chained published
  have last : s.key k.id s.head = some k := by rw [Store.key, body, bind_some, found]
  have evolves := (chained.lines k.id).related evolves_refl evolves_trans (by omega)
    (le_rfl) held last
  exact ⟨t, k', read', found', evolves.2.symm⟩

theorem step_chained (chained : w.store.Chained env) (step : Step) :
    (w.step env step).store.Chained env := by
  cases step with
  | change call pending =>
    rw [World.step]
    split
    · rename_i t store ok
      rcases apply_cases ok with ⟨rfl, -⟩ | published
      · exact chained
      · exact published.chained chained
    · exact chained
  | enroll =>
    rw [World.step]
    split <;> exact chained
  | leave => exact chained
  | fetch =>
    rw [World.step]
    split
    · split <;> exact chained
    · exact chained
  | install =>
    rw [World.step]
    split <;> exact chained
  | acknowledge =>
    rw [World.step]
    split
    · split <;> exact chained
    · exact chained

theorem world_chained (chained : w.store.Chained env) (steps : List Step) :
    (w.run env steps).store.Chained env := by
  induction steps generalizing w with
  | nil => exact chained
  | cons step _ ih => exact ih (step_chained chained step)

/-- No accepted activation outruns the acknowledgement of the key it replaces exactly when, in every
state reached, every active Agent can install the head over the highest set it acknowledged; and a
key is issued only to Agents that acknowledged it. -/
theorem rotation_installs (env : Environment Tag) (steps : List Step) :
    (CalmRun env .start steps ↔
      ∀ front, front <+: steps → (World.start.run env front).Installable) ∧
    ∀ agent keyId, requireIssue env (World.start.run env steps).store
        (World.start.run env steps).tables agent keyId = .ok () →
      ∃ head k, (World.start.run env steps).store.body (World.start.run env steps).store.head =
          some head ∧ head.lookup keyId = some k ∧ k.state = .active ∧
        ∃ a ∈ (World.start.run env steps).tables.acknowledgements, a.agent = agent ∧
          ∃ t k', (World.start.run env steps).store.body a.revision = some t ∧
            t.lookup keyId = some k' ∧ k'.publicKey = k.publicKey := by
  refine ⟨calmRun_iff start_sound steps, ?_⟩
  intro agent keyId issued
  exact requireIssue_known (world_chained empty_chained steps) issued

end

namespace Sample

def agent : Agent := ⟨5, 1⟩

def emptySet : Trust := ⟨1, 0, 0, 0, []⟩

def published (w : World (Uuid × Request)) : Trust := (w.store.body w.store.head).getD emptySet

/-- The Agent gets the last set and acknowledges it. -/
def catchUp (operation : Uuid) (w : World (Uuid × Request)) : List Step :=
  [.fetch agent, .install agent (published w), .acknowledge agent operation (published w)]

def enrolling : List Step :=
  [.change (.prepare 10 0 "x" "a" (material 'A')) (fun _ => false), .enroll agent]

def twoPrepared : List Step := enrolling ++
  [.change (.prepare 11 1 "x" "b" (material 'E')) (fun _ => false),
    .change (.prepare 12 2 "x" "c" (material 'I')) (fun _ => false)]

def acknowledging : List Step :=
  twoPrepared ++ catchUp 20 (World.start.run environment twoPrepared)

def activating : List Step := acknowledging ++
  [.change (.activate 13 3 "b" "x") (fun _ => false), .change (.activate 14 4 "c" "x") (fun _ => false)]

/-- Two activations in a row need only the acknowledgement of both keys as prepared ones; the Agent
then cannot install the set in which the first of them only verifies. -/
theorem skipped_activation_strands :
    (World.start.run environment activating).store.head = 5 ∧
    agent ∈ (World.start.run environment activating).tables.active ∧
    (World.start.run environment activating).tables.acknowledgements.map
      (fun a => (a.agent, a.revision)) = [(agent, 3)] ∧
    (published (World.start.run environment activating)).validateSuccessor
      (((World.start.run environment activating).store.body 3).getD emptySet) =
        .error .invalidValue := by
  decide

def enrolledOnce : List Step := enrolling ++
  [.change (.prepare 11 1 "x" "b" (material 'E')) (fun _ => false)]

def acknowledged : List Step :=
  enrolledOnce ++ catchUp 20 (World.start.run environment enrolledOnce)

/-- Activating the key that the Agent knows, the answer lost and the call repeated. -/
def rotated : List Step := acknowledged ++ [.change (.activate 13 2 "b" "x") (fun _ => false),
  .change (.activate 13 2 "b" "x") (fun _ => false)]

theorem rotated_calm : CalmRun environment .start rotated := by
  have settled : (World.start.run environment acknowledged).Settled := by
    intro a active n highest id k k' held head state
    obtain ⟨⟨b, member, -, rfl⟩, -⟩ := highest
    have last : ∀ b ∈ (World.start.run environment acknowledged).tables.acknowledgements,
        b.revision = (World.start.run environment acknowledged).store.head := by decide
    rw [last b member, head] at held
    cases held
    rw [state]
    simp
  have answered : (13 : Uuid) ∈ (World.start.run environment (acknowledged ++
      [.change (.activate 13 2 "b" "x") (fun _ => false)])).store.versions.map
        Version.operation := by decide
  refine ⟨nofun, trivial, nofun, trivial, trivial, trivial, fun _ _ _ => settled, ?_, trivial⟩
  intro _ fresh
  obtain ⟨v, stored, same⟩ := List.mem_map.mp answered
  exact absurd same (fresh v stored)

theorem rotation_installs_rotated :
    (World.start.run environment rotated).store.head = 3 ∧
    ∃ head old, (World.start.run environment rotated).store.body 3 = some head ∧
      (World.start.run environment rotated).store.body 2 = some old ∧
      head.validateSuccessor old = .ok () := by
  have reached : (World.start.run environment rotated).store.head = 3 ∧
      agent ∈ (World.start.run environment rotated).tables.active ∧
      (World.start.run environment rotated).tables.acknowledgements.map
        (fun a => (a.agent, a.revision)) = [(agent, 2)] := by decide
  obtain ⟨head, active, acks⟩ := reached
  have highest : (World.start.run environment rotated).tables.Highest agent 2 := by
    have listed : ∀ a ∈ (World.start.run environment rotated).tables.acknowledgements,
        (a.agent, a.revision) = (agent, 2) := by
      intro a member
      have there := List.mem_map_of_mem (f := fun a => (a.agent, a.revision)) member
      rw [acks] at there
      exact mem_singleton.mp there
    have some : (agent, 2) ∈ (World.start.run environment rotated).tables.acknowledgements.map
        (fun a => (a.agent, a.revision)) := by
      rw [acks]
      exact mem_singleton.mpr rfl
    obtain ⟨a, member, eq⟩ := List.mem_map.mp some
    refine ⟨⟨a, member, congrArg Prod.fst eq, congrArg Prod.snd eq⟩, ?_⟩
    intro b member _
    exact Nat.le_of_eq (congrArg Prod.snd (listed b member))
  have installs := (rotation_installs environment rotated).1.mp rotated_calm rotated
    (List.prefix_refl _) agent active 2 highest
  rw [head] at installs
  exact ⟨head, installs⟩

end Sample

end RssMdm.TaskSigning
