/- module: Groups/Acyclicity
   source: crates/inventory-service/src/groups/definition.rs, mutation.rs, tasks.rs
   digest: Over every interleaving of authored changes and definition tasks the references of live groups
   form no cycle and stay in one context, and a walk at a revision of the graph comes to its end. -/

import RssMdm.Groups.DefinitionWalk

set_option autoImplicit false

namespace RssMdm.Groups

open Lib.Fallible Lib.Graph Lib.Rows
open Policy (Uuid)
open Relation (ReflTransGen)

section

variable {s s' : Store} {t : Task} {id task : Uuid} {op : Operation} {a : Answers}

theorem findTask_saveTask : (s.saveTask t).findTask id =
    if id = t.id then (s.findTask id).map (fun _ => t) else s.findTask id := lookup_replace

theorem id_of_findTask (found : s.findTask id = some t) : t.id = id := key_of_lookup found

/-- Everything that a transaction on an open task can do. -/
inductive Advanced (s : Store) (t : Task) (s' : Store) : Prop where
  | failed (reason : String) (is : s' = s.finishTask t (some reason))
  | walked (context : AssetContext) (criteria : Criteria) (walk : List WalkRow) (ready : Bool)
      (is : s' = s.saveTask { t with walk, cursor := some ⟨s.clock, ready⟩ })
      (within : s.contextOf t.edit.group t.edit.change = some context)
      (defined : t.edit.change.criteria = some criteria)
      (checked : Checked s { t with walk, cursor := some ⟨s.clock, ready⟩ } context criteria.references ready)
      (less : s.remaining { t with walk, cursor := some ⟨s.clock, ready⟩ } < s.remaining t)
  | published (context : AssetContext) (criteria : Criteria) (answers : Answers) (s₁ : Store)
      (within : s.contextOf t.edit.group t.edit.change = some context)
      (defined : t.edit.change.criteria = some criteria)
      (cursor : t.cursor = some ⟨s.clock, true⟩)
      (checked : Checked s t context criteria.references true)
      (change : s.publishChange t.edit.group t.edit.change answers = .ok s₁) (is : s' = s₁.finishTask t none)

theorem advanceDefinition_eq_ok (h : s.advanceDefinition t a = .ok s') (tracks : Tracks s t)
    (running : t.completed = false) : Advanced s t s' := by
  unfold Store.advanceDefinition at h
  split at h
  · cases h
    exact .failed "owner_conflict" rfl
  · cases h
  rename_i context roots read
  obtain ⟨criteria, defined, within, rfl⟩ := definitionReferences_eq_ok read
  split at h
  · rename_i cursor
    obtain ⟨s₁, change, h⟩ := of_bind h
    cases h
    obtain ⟨criteria', context', names, contexts, checked⟩ := (tracks _ cursor).2 rfl running
    rw [defined] at names
    cases names
    rw [within] at contexts
    cases contexts
    exact .published context criteria a s₁ within defined cursor checked change rfl
  · rename_i unready
    obtain ⟨walk, ready, is, checked, less⟩ :=
      advanceWalk_eq_ok h tracks running within defined rfl unready
    exact .walked context criteria walk ready is within defined checked less

inductive Authored (s : Store) (s' : Store) : Prop where
  | queued (t : Task) (is : s' = { s with tasks := s.tasks ++ [t] }) (fresh : s.findTask t.id = none)
      (cursor : t.cursor = none)
  | published (id : Uuid) (op : Operation) (answers : Answers) (plain : op.criteria = none)
      (change : s.publishChange id op answers = .ok s')

theorem groupChange_eq_ok (h : s.groupChange id op a = .ok s') : Authored s s' := by
  have define : ∀ {x : Except Fault (AssetContext × List Uuid)},
      (do
        let _ ← x
        if op.operationId.isNil || id.isNil then .error .malformed
        else if (s.findTask op.operationId).isSome then .error .unavailable
        else .ok { s with tasks := s.tasks ++ [⟨op.operationId, ⟨id, op⟩, false, none, none, []⟩] } :
          Except Fault Store) = .ok s' → Authored s s' := by
    intro x h
    obtain ⟨-, -, h⟩ := of_bind h
    obtain ⟨-, h⟩ := of_guard h
    obtain ⟨fresh, h⟩ := of_guard h
    cases h
    exact .queued _ rfl (Option.not_isSome_iff_eq_none.mp fresh) rfl
  unfold Store.groupChange at h
  dsimp only at h
  split at h
  · exact define h
  · exact define h
  rename_i create rule
  refine .published id op a ?_ h
  unfold Operation.criteria
  split
  · rename_i presentation context criteria is
    cases criteria with
    | none => rfl
    | some c => exact absurd is (create presentation context c)
  · rename_i criteria is
    exact absurd is (rule criteria)
  · rfl

inductive Performed (s : Store) (call : Call) (s' : Store) : Prop where
  | authored (id : Uuid) (op : Operation) (answers : Answers) (is : call = .groupChange id op answers)
      (done : Authored s s')
  | idle (task : Uuid) (t : Task) (named : ∀ id answers, call = .advance id answers → id = task)
      (found : s.findTask task = some t) (completed : t.completed = true) (is : s' = s)
  | advanced (task : Uuid) (answers : Answers) (t : Task) (is : call = .advance task answers)
      (found : s.findTask task = some t) (running : t.completed = false) (done : Advanced s t s')
  | rejected (task : Uuid) (reason : String) (t : Task) (is : call = .reject task reason)
      (found : s.findTask task = some t) (running : t.completed = false)
      (done : s' = s.finishTask t (some reason))

theorem onTask_eq_ok {f : Task → Except Fault Store} (h : s.onTask task f = .ok s') :
    ∃ t, s.findTask task = some t ∧ (t.completed = true ∧ s' = s ∨ t.completed = false ∧ f t = .ok s') := by
  unfold Store.onTask at h
  split at h
  · cases h
  rename_i t found
  refine ⟨t, found, ?_⟩
  split at h
  · rename_i completed
    cases h
    exact .inl ⟨completed, rfl⟩
  · rename_i running
    exact .inr ⟨by simpa using running, h⟩

theorem perform_cases {call : Call} (h : s.perform call = .ok s')
    (tracks : ∀ id t, s.findTask id = some t → Tracks s t) : Performed s call s' := by
  cases call with
  | groupChange id op answers => exact .authored id op answers rfl (groupChange_eq_ok h)
  | advance task answers =>
    obtain ⟨t, found, ⟨completed, is⟩ | ⟨running, done⟩⟩ := onTask_eq_ok h
    · exact .idle task t (fun _ _ same => (by cases same; rfl)) found completed is
    · exact .advanced task answers t rfl found running
        (advanceDefinition_eq_ok done (tracks task t found) running)
  | reject task reason =>
    obtain ⟨t, found, ⟨completed, is⟩ | ⟨running, done⟩⟩ := onTask_eq_ok h
    · exact .idle task t (fun _ _ same => (by cases same)) found completed is
    · cases done
      exact .rejected task reason t rfl found running rfl

end

section

/-- The graph is sound, and so is what every task knows of it. -/
structure Sound (s : Store) : Prop where
  acyclic : Acyclic s.Edge
  grounded : s.Grounded
  tracks : ∀ id t, s.findTask id = some t → Tracks s t

variable {s s' : Store} {t : Task} {id : Uuid} {op : Operation} {a : Answers}

theorem Tracks.same (tracks : Tracks s t) (clock : s'.clock = s.clock) (nodes : s'.node = s.node) :
    Tracks s' t := by
  intro c is
  obtain ⟨behind, current⟩ := tracks c is
  refine ⟨clock ▸ behind, fun now running => ?_⟩
  obtain ⟨criteria, context, defined, within, checked⟩ := current (now.trans clock) running
  have contexts : s'.contextOf t.edit.group t.edit.change = s.contextOf t.edit.group t.edit.change := by
    unfold Store.contextOf
    rw [nodes]
  refine ⟨criteria, context, defined, contexts.trans within, ⟨⟨?_, ?_, ?_⟩, checked.rooted, checked.ready⟩⟩
  · rw [clock]
    exact checked.walked.fresh
  · exact checked.walked.distinct
  · rw [nodes]
    exact checked.walked.visited

theorem Tracks.moved (tracks : Tracks s t) (clock : s.clock < s'.clock) : Tracks s' t := by
  intro c is
  have behind := (tracks c is).1
  refine ⟨by omega, fun now => ?_⟩
  omega

variable {failure : Option String}

theorem Tracks.completed (tracks : Tracks s t) :
    Tracks s { t with completed := true, failure, walk := [] } := by
  intro c is
  exact ⟨(tracks c is).1, fun _ running => by simp at running⟩

theorem Sound.saveTask (sound : Sound s) (tracks : Tracks s t) : Sound (s.saveTask t) := by
  refine ⟨sound.acyclic, sound.grounded, fun id found there => ?_⟩
  rw [findTask_saveTask] at there
  split at there
  · obtain ⟨old, -, is⟩ := Option.map_eq_some_iff.mp there
    cases is
    exact tracks.same rfl rfl
  · exact (sound.tracks id found there).same rfl rfl

theorem Sound.finishTask (sound : Sound s) (tracks : Tracks s t) :
    Sound (s.finishTask t failure) := sound.saveTask tracks.completed

theorem publishChange_clock (h : s.publishChange id op a = .ok s') :
    s'.tasks = s.tasks ∧ (s.clock < s'.clock ∨
      s'.clock = s.clock ∧ s'.node = s.node ∧ s'.groups.length = s.groups.length) := by
  obtain ⟨published, tasks, clock, -, length⟩ := publishChange_eq_ok h
  refine ⟨tasks, ?_⟩
  cases authored : op.input.authored with
  | true =>
    rw [authored, if_pos rfl] at clock
    exact .inl (by omega)
  | false =>
    rw [authored, if_neg Bool.false_ne_true] at clock
    refine .inr ⟨clock, funext ?_, length authored⟩
    cases published with
    | same nodes => exact nodes
    | defined criteria _ is =>
      unfold Operation.criteria at is
      split at is <;> simp_all [GroupChange.authored]
    | bare _ graph =>
      rw [authored] at graph
      cases graph
    | deleted is =>
      rw [is] at authored
      cases authored

theorem Sound.publish (sound : Sound s) (h : s.publishChange id op a = .ok s')
    (checked : ∀ criteria context, op.criteria = some criteria → s.contextOf id op = some context →
      ∃ V, Closed s.node id context V ∧ ∀ b ∈ criteria.references, b ∈ V) : Sound s' := by
  obtain ⟨published, tasks, -, unused, -⟩ := publishChange_eq_ok h
  obtain ⟨acyclic, grounded⟩ := published_sound sound.acyclic sound.grounded published unused checked
  refine ⟨acyclic, grounded, fun id t found => ?_⟩
  have before : s.findTask id = some t := by
    unfold Store.findTask at found ⊢
    rwa [tasks] at found
  rcases (publishChange_clock h).2 with moved | ⟨clock, nodes, -⟩
  · exact (sound.tracks id t before).moved moved
  · exact (sound.tracks id t before).same clock nodes

theorem Sound.advanced (sound : Sound s) (tracks : Tracks s t) (done : Advanced s t s') :
    Sound s' := by
  cases done with
  | failed _ is =>
    rw [is]
    exact sound.finishTask tracks
  | walked context criteria _ _ is within defined checked =>
    rw [is]
    refine sound.saveTask fun c same => ?_
    cases same
    exact ⟨le_rfl, fun _ _ => ⟨criteria, context, defined, within, checked⟩⟩
  | published _ _ _ s₁ within defined _ checked change is =>
    rw [is]
    have sound₁ : Sound s₁ := by
      refine sound.publish change fun criteria' context' names contexts => ?_
      rw [defined] at names
      cases names
      rw [within] at contexts
      cases contexts
      exact ⟨nodesOf t.walk, checked.closed, checked.rooted⟩
    refine sound₁.finishTask ?_
    rcases (publishChange_clock change).2 with moved | ⟨clock, nodes, -⟩
    · exact tracks.moved moved
    · exact tracks.same clock nodes

theorem Sound.authored (sound : Sound s) (done : Authored s s') : Sound s' := by
  cases done with
  | queued t is fresh cursor =>
    rw [is]
    refine ⟨sound.acyclic, sound.grounded, fun id found there => ?_⟩
    by_cases new : id = t.id
    · have appended : some t = some found := by
        rw [← there, new]
        exact (lookup_append_new fresh).symm
      cases appended
      intro c is
      rw [cursor] at is
      cases is
    · have before : s.findTask id = some found := by
        rw [← there]
        exact (lookup_append_ne new).symm
      exact (sound.tracks id found before).same rfl rfl
  | published _ _ _ plain change =>
    refine sound.publish change fun criteria context names => ?_
    rw [plain] at names
    cases names

theorem Sound.performed (sound : Sound s) {call : Call} (done : Performed s call s') : Sound s' := by
  cases done with
  | authored _ _ _ _ done => exact sound.authored done
  | idle _ _ _ _ _ is => exact is ▸ sound
  | advanced task _ t _ found _ done => exact sound.advanced (sound.tracks task t found) done
  | rejected task _ t _ found _ is =>
    rw [is]
    exact sound.finishTask (sound.tracks task t found)

theorem Sound.apply (sound : Sound s) (call : Call) : Sound (s.apply call) := by
  unfold Store.apply
  split
  · rename_i s' h
    exact sound.performed (perform_cases h sound.tracks)
  · exact sound

theorem Sound.after (sound : Sound s) (calls : List Call) : Sound (s.after calls) := by
  induction calls generalizing s with
  | nil => exact sound
  | cons call _ ih => exact ih (sound.apply call)

theorem empty_sound : Sound Store.empty := by
  refine ⟨?_, ?_, fun _ _ found => (by cases found)⟩
  · intro x cycle
    obtain ⟨y, ⟨context, refs, is, -⟩, -⟩ := Relation.TransGen.head'_iff.mp cycle
    cases is
  · intro x context refs y is
    cases is

end

section

variable {s s' : Store} {t : Task} {id task : Uuid} {op : Operation} {a : Answers} {call : Call}

def Store.advancing (s : Store) (task : Uuid) (call : Call) : Bool :=
  match call, s.perform call with
  | .advance id _, .ok _ => id = task
  | _, _ => false

def Store.advances (task : Uuid) : Store → List Call → Nat
  | _, [] => 0
  | s, call :: rest => (if s.advancing task call then 1 else 0) + (s.apply call).advances task rest

/-- How many more transactions the task takes at the revision of the store, whether or not it exists. -/
def Store.left (s : Store) (task : Uuid) : Nat :=
  match s.findTask task with
  | some t => s.remaining t
  | none => s.groups.length + 2

theorem findTask_saveTask_ne (other : task ≠ t.id) : (s.saveTask t).findTask task = s.findTask task := by
  rw [findTask_saveTask, if_neg other]

theorem clock_performed (done : Performed s call s') :
    s.clock < s'.clock ∨ s'.clock = s.clock ∧ s'.groups.length = s.groups.length := by
  have published : ∀ {id op a s₁}, s.publishChange id op a = .ok s₁ →
      s.clock < s₁.clock ∨ s₁.clock = s.clock ∧ s₁.groups.length = s.groups.length := by
    intro id op a s₁ h
    rcases (publishChange_clock h).2 with moved | ⟨clock, -, length⟩
    · exact .inl moved
    · exact .inr ⟨clock, length⟩
  cases done with
  | authored id op answers _ done =>
    cases done with
    | queued _ is =>
      rw [is]
      exact .inr ⟨rfl, rfl⟩
    | published _ _ _ _ change => exact published change
  | idle _ _ _ _ _ is => exact .inr (is ▸ ⟨rfl, rfl⟩)
  | advanced _ answers _ _ _ _ done =>
    cases done with
    | failed _ is | walked _ _ _ _ is =>
      rw [is]
      exact .inr ⟨rfl, rfl⟩
    | published _ _ _ _ _ _ _ _ change is =>
      have moved := published change
      rw [is]
      exact moved
  | rejected _ _ _ _ _ _ is =>
    rw [is]
    exact .inr ⟨rfl, rfl⟩

theorem remaining_same (clock : s'.clock = s.clock) (length : s'.groups.length = s.groups.length) :
    s'.remaining t = s.remaining t := by
  unfold Store.remaining
  rw [clock, length]

theorem remaining_le : s.remaining t ≤ s.groups.length + 2 := by
  unfold Store.remaining
  split
  · split
    · split <;> omega
    · exact le_rfl
  · exact le_rfl

theorem left_le : s.left task ≤ s.groups.length + 2 := by
  unfold Store.left
  split
  · exact remaining_le
  · exact le_rfl

theorem left_same (clock : s'.clock = s.clock) (length : s'.groups.length = s.groups.length)
    (found : s'.findTask task = s.findTask task) : s'.left task = s.left task := by
  unfold Store.left
  rw [found, length]
  split
  · exact remaining_same clock length
  · rfl

theorem advancing_eq_true (h : s.advancing task call = true) : ∃ answers, call = .advance task answers := by
  unfold Store.advancing at h
  split at h
  · rename_i id answers _ _
    have same : id = task := decide_eq_true_eq.mp h
    exact ⟨answers, by rw [same]⟩
  · cases h

theorem findTask_saved {saved t' : Task} (found : (s.saveTask saved).findTask task = some t') :
    task = saved.id ∧ t' = saved ∨ task ≠ saved.id ∧ (s.saveTask saved).findTask task = s.findTask task := by
  by_cases same : task = saved.id
  · rw [findTask_saveTask, if_pos same] at found
    obtain ⟨_, -, is⟩ := Option.map_eq_some_iff.mp found
    exact .inl ⟨same, is.symm⟩
  · exact .inr ⟨same, findTask_saveTask_ne same⟩

theorem left_performed {t' : Task} (done : Performed s call s') (clock : s'.clock = s.clock)
    (found : s'.findTask task = some t') (running : t'.completed = false) :
    s'.left task + (if s.advancing task call then 1 else 0) ≤ s.left task := by
  have length : s'.groups.length = s.groups.length := by
    rcases clock_performed done with moved | ⟨-, length⟩
    · omega
    · exact length
  -- Whatever is saved for a task other than this one leaves it where it was.
  have other : ∀ {saved : Task}, s' = s.saveTask saved →
      (∀ answers, call = .advance task answers → task = saved.id) → task ≠ saved.id →
      s'.left task + (if s.advancing task call then 1 else 0) ≤ s.left task := by
    intro saved is named different
    rw [if_neg, left_same clock length (by rw [is]; exact findTask_saveTask_ne different)]
    · exact le_rfl
    · intro advancing
      obtain ⟨answers, called⟩ := advancing_eq_true advancing
      exact different (named answers called)
  -- A finished task does not run any more.
  have finished : ∀ {t : Task} {failure : Option String},
      (∀ answers, call = .advance task answers → task = t.id) → s' = s.finishTask t failure →
      s'.left task + (if s.advancing task call then 1 else 0) ≤ s.left task := by
    intro t failure named is
    rw [is] at found
    rcases findTask_saved found with ⟨-, same⟩ | ⟨different, -⟩
    · rw [same] at running
      cases running
    · exact other is named different
  cases done with
  | authored id op answers is done =>
    have idle : s.advancing task call = false := by
      rw [is]
      rfl
    rw [idle, if_neg Bool.false_ne_true, Nat.add_zero]
    cases done with
    | queued t queue fresh =>
      by_cases new : task = t.id
      · rw [Store.left, Store.left, found, new, fresh]
        exact remaining_le.trans (by rw [length])
      · refine Nat.le_of_eq (left_same clock length ?_)
        rw [queue]
        exact lookup_append_ne new
    | published _ _ _ _ change =>
      refine Nat.le_of_eq (left_same clock length ?_)
      unfold Store.findTask
      rw [(publishChange_clock change).1]
  | idle _ _ named there completed is =>
    subst is
    rw [if_neg]
    · exact le_rfl
    · intro advancing
      obtain ⟨answers, called⟩ := advancing_eq_true advancing
      rw [named task answers called, there] at found
      cases found
      rw [completed] at running
      cases running
  | advanced id answers t is there _ done =>
    have named : ∀ answers, call = .advance task answers → task = t.id := by
      intro answers called
      rw [is] at called
      cases called
      exact (id_of_findTask there).symm
    cases done with
    | failed _ is => exact finished named is
    | walked _ _ _ _ saved =>
      have kept := found
      rw [saved] at kept
      rcases findTask_saved kept with ⟨same, is⟩ | ⟨different, -⟩
      · have before : s.findTask task = some t := by
          rw [same]
          exact id_of_findTask there ▸ there
        rw [Store.left, Store.left, found, before]
        show s'.remaining t' + _ ≤ s.remaining t
        rw [is, remaining_same clock length]
        split <;> omega
      · exact other saved named different
    | published _ _ answers _ _ _ _ _ change is =>
      obtain ⟨tasks, -⟩ := publishChange_clock change
      rw [is] at found
      rcases findTask_saved found with ⟨-, same⟩ | ⟨different, stays⟩
      · rw [same] at running
        cases running
      have kept : s'.findTask task = s.findTask task := by
        rw [is]
        refine stays.trans ?_
        unfold Store.findTask
        rw [tasks]
      rw [if_neg, left_same clock length kept]
      · exact le_rfl
      · intro advancing
        obtain ⟨answers, called⟩ := advancing_eq_true advancing
        exact different (named answers called)
  | rejected _ _ _ is _ _ done =>
    refine finished (fun answers called => ?_) done
    rw [is] at called
    cases called

theorem findTask_saveTask_kept {saved before after : Task} (there : s.findTask saved.id = some before)
    (keeps : before.completed = true → saved.completed = true) (found : s.findTask task = some after) :
    ∃ t', (s.saveTask saved).findTask task = some t' ∧ (after.completed = true → t'.completed = true) := by
  rw [findTask_saveTask]
  by_cases same : task = saved.id
  · rw [if_pos same, found]
    rw [same, there] at found
    cases found
    exact ⟨saved, rfl, keeps⟩
  · rw [if_neg same]
    exact ⟨after, found, fun completed => completed⟩

theorem findTask_performed (done : Performed s call s') (found : s.findTask task = some t) :
    ∃ t', s'.findTask task = some t' ∧ (t.completed = true → t'.completed = true) := by
  have kept : ∀ {s₁ : Store}, s₁.tasks = s.tasks → s₁.findTask task = some t := by
    intro s₁ same
    unfold Store.findTask at found ⊢
    rw [same, found]
  cases done with
  | authored id op answers _ done =>
    cases done with
    | queued new is fresh =>
      have other : task ≠ new.id := by
        intro same
        rw [same, fresh] at found
        cases found
      refine ⟨t, ?_, fun completed => completed⟩
      rw [is, ← found]
      exact lookup_append_ne other
    | published _ _ _ _ change =>
      exact ⟨t, kept (publishChange_clock change).1, fun completed => completed⟩
  | idle _ _ _ _ _ is => exact ⟨t, is ▸ found, fun completed => completed⟩
  | advanced id answers old _ there _ done =>
    have there' : s.findTask old.id = some old := by rw [id_of_findTask there]; exact there
    cases done with
    | failed _ is =>
      rw [is]
      exact findTask_saveTask_kept there' (fun _ => rfl) found
    | walked _ _ _ _ is =>
      rw [is]
      exact findTask_saveTask_kept there' (fun completed => completed) found
    | published _ _ _ s₁ _ _ _ _ change is =>
      obtain ⟨tasks, -⟩ := publishChange_clock change
      have there₁ : s₁.findTask old.id = some old := by
        unfold Store.findTask at there' ⊢
        rw [tasks, there']
      rw [is]
      exact findTask_saveTask_kept there₁ (fun _ => rfl) (kept tasks)
  | rejected id _ old _ there _ is =>
    have there' : s.findTask old.id = some old := by rw [id_of_findTask there]; exact there
    rw [is]
    exact findTask_saveTask_kept there' (fun _ => rfl) found

def Store.Open (s : Store) (task : Uuid) : Prop := ∀ t, s.findTask task = some t → t.completed = false

theorem Open.before (done : Performed s call s') (opened : s'.Open task) : s.Open task := by
  intro t found
  obtain ⟨t', after, keeps⟩ := findTask_performed done found
  by_contra completed
  have finished := keeps (by simpa using completed)
  rw [opened t' after] at finished
  cases finished

theorem left_step (done : Performed s call s') (clock : s'.clock = s.clock) (opened : s'.Open task) :
    s'.left task + (if s.advancing task call then 1 else 0) ≤ s.left task := by
  cases found : s'.findTask task with
  | some t' => exact left_performed done clock found (opened t' found)
  | none =>
    have absent : s.findTask task = none := by
      cases before : s.findTask task with
      | none => rfl
      | some =>
        obtain ⟨t', after, -⟩ := findTask_performed done before
        rw [found] at after
        cases after
    have length : s'.groups.length = s.groups.length := by
      rcases clock_performed done with moved | ⟨-, length⟩
      · omega
      · exact length
    rw [Store.left, Store.left, found, absent]
    rw [if_neg, Nat.add_zero]
    · exact Nat.le_of_eq (congrArg (· + 2) length)
    · intro advancing
      obtain ⟨answers, called⟩ := advancing_eq_true advancing
      rw [called] at advancing
      unfold Store.advancing Store.perform Store.onTask at advancing
      simp [absent] at advancing

theorem clock_le_apply (sound : Sound s) : s.clock ≤ (s.apply call).clock := by
  unfold Store.apply
  split
  · rename_i s' h
    rcases clock_performed (perform_cases h sound.tracks) with moved | ⟨same, -⟩ <;> omega
  · exact le_rfl

theorem clock_le_after (sound : Sound s) (calls : List Call) : s.clock ≤ (s.after calls).clock := by
  induction calls generalizing s with
  | nil => exact le_rfl
  | cons call _ ih => exact Nat.le_trans (clock_le_apply sound) (ih (sound.apply call))

theorem open_apply (sound : Sound s) (opened : (s.apply call).Open task) : s.Open task := by
  unfold Store.apply at opened
  split at opened
  · rename_i s' h
    exact Open.before (perform_cases h sound.tracks) opened
  · exact opened

theorem open_after (sound : Sound s) (calls : List Call) (opened : (s.after calls).Open task) : s.Open task := by
  induction calls generalizing s with
  | nil => exact opened
  | cons call _ ih => exact open_apply sound (ih (sound.apply call) opened)

theorem left_apply (sound : Sound s) (clock : (s.apply call).clock = s.clock)
    (opened : (s.apply call).Open task) :
    (s.apply call).left task + (if s.advancing task call then 1 else 0) ≤ s.left task := by
  cases h : s.perform call with
  | ok s' =>
    have is : s.apply call = s' := by rw [Store.apply, h]
    rw [is] at clock opened ⊢
    exact left_step (perform_cases h sound.tracks) clock opened
  | error =>
    have is : s.apply call = s := by rw [Store.apply, h]
    rw [is, if_neg]
    · exact le_rfl
    · unfold Store.advancing
      rw [h]
      simp

theorem advances_le (sound : Sound s) (calls : List Call) (clock : (s.after calls).clock = s.clock)
    (opened : (s.after calls).Open task) : (s.after calls).left task + s.advances task calls ≤ s.left task := by
  induction calls generalizing s with
  | nil => exact le_rfl
  | cons call rest ih =>
    have sound' := sound.apply call
    have first : s.clock ≤ (s.apply call).clock := clock_le_apply sound
    have later := clock_le_after sound' rest
    have final : ((s.apply call).after rest).clock = s.clock := clock
    have step : (s.apply call).left task + (if s.advancing task call then 1 else 0) ≤ s.left task :=
      left_apply sound (by omega) (open_after sound' rest opened)
    have more := ih sound' (by omega) opened
    have here : s.after (call :: rest) = (s.apply call).after rest := rfl
    rw [here, Store.advances]
    omega

end

section

variable {s s' : Store} {t t' : Task} {task id : Uuid} {a : Answers} {call : Call}

/-- The walk of the task was completed at the revision of the store: it holds exactly rows of that
revision, all of them visited, everything that the definition leads to, and not the group itself. -/
structure Store.Cleared (s : Store) (t : Task) (criteria : Criteria) : Prop where
  defined : t.edit.change.criteria = some criteria
  cursor : t.cursor = some ⟨s.clock, true⟩
  walked : ∀ row ∈ t.walk, row.graphRevision = s.clock ∧ row.visited = true
  reached : ∀ r ∈ criteria.references, ∀ x, ReflTransGen s.Edge r x →
    x ∈ nodesOf t.walk ∧ x ≠ t.edit.group

variable {context : AssetContext}

theorem Checked.cleared {criteria : Criteria}
    (checked : Checked s t context criteria.references true)
    (cursor : t.cursor = some ⟨s.clock, true⟩) (defined : t.edit.change.criteria = some criteria) :
    s.Cleared t criteria where
  defined := defined
  cursor := cursor
  walked := fun row mem => ⟨checked.walked.fresh row mem, checked.ready.mp rfl row mem⟩
  reached := fun r mem _ path => checked.closed.unreachable (checked.rooted r mem) path

theorem cleared_of_completed (sound : Sound s) (found : s.findTask task = some t) (running : t.completed = false)
    (h : s.perform (.advance task a) = .ok s') (found' : s'.findTask task = some t')
    (completed : t'.completed = true) (published : t'.failure = none) :
    ∃ criteria, s.Cleared t criteria := by
  have own := id_of_findTask found
  cases perform_cases h sound.tracks with
  | authored _ _ _ is => cases is
  | idle _ _ named there done =>
    rw [← named task a rfl, found] at there
    cases there
    rw [done] at running
    cases running
  | rejected _ _ _ is => cases is
  | advanced _ answers _ is there _ done =>
    cases is
    rw [found] at there
    cases there
    cases done with
    | failed _ is =>
      rw [is] at found'
      rcases findTask_saved found' with ⟨-, same⟩ | ⟨different, -⟩
      · rw [same] at published
        cases published
      · exact absurd own.symm different
    | walked _ _ _ _ is =>
      rw [is] at found'
      rcases findTask_saved found' with ⟨-, same⟩ | ⟨different, -⟩
      · rw [same] at completed
        rw [completed] at running
        cases running
      · exact absurd own.symm different
    | published _ criteria _ _ _ defined cursor checked =>
      exact ⟨criteria, checked.cleared cursor defined⟩

theorem cleared_of_changed (sound : Sound s) (h : s.perform call = .ok s') {refs : List Uuid}
    (after : s'.node id = some (context, refs)) (some' : refs ≠ [])
    (changed : s.node id ≠ some (context, refs)) :
    ∃ task answers t criteria, call = .advance task answers ∧ s.findTask task = some t ∧
      t.edit.group = id ∧ refs = criteria.references ∧ s.Cleared t criteria := by
  -- A change that defines nothing leaves every non-empty list of references as it was.
  have published : ∀ {own : Uuid} {op : Operation} {s₁ : Store}, Published s own op s₁.node →
      s₁.node id = some (context, refs) →
      ∃ criteria, own = id ∧ op.criteria = some criteria ∧ refs = criteria.references := by
    intro own op s₁ done after
    by_cases same : own = id
    · subst same
      cases done with
      | same nodes => exact absurd (nodes own ▸ after) changed
      | defined criteria _ is _ _ here =>
        rw [here] at after
        cases after
        exact ⟨criteria, rfl, is, rfl⟩
      | bare _ _ _ here =>
        rw [here] at after
        cases after
        exact absurd rfl some'
      | deleted _ here =>
        rw [here] at after
        cases after
    · have other : id ≠ own := fun is => same is.symm
      cases done with
      | same nodes => exact absurd (nodes id ▸ after) changed
      | defined _ _ _ _ _ _ nodes | bare _ _ _ _ nodes | deleted _ _ nodes =>
          exact absurd (nodes id other ▸ after) changed
  cases perform_cases h sound.tracks with
  | authored _ _ _ _ done =>
    cases done with
    | queued _ is =>
      rw [is] at after
      exact absurd after changed
    | published _ _ _ plain change =>
      obtain ⟨criteria, -, is, -⟩ := published (publishChange_eq_ok change).1 after
      rw [plain] at is
      cases is
  | idle _ _ _ _ _ is | rejected _ _ _ _ _ _ is =>
    rw [is] at after
    exact absurd after changed
  | advanced task answers t is found _ done =>
    cases done with
    | failed _ is | walked _ _ _ _ is =>
      rw [is] at after
      exact absurd after changed
    | published _ criteria _ _ _ defined cursor checked change finish =>
      rw [finish] at after
      obtain ⟨criteria', same, names, lists⟩ := published (publishChange_eq_ok change).1 after
      rw [defined] at names
      cases names
      exact ⟨task, answers, t, criteria, is, found, same, lists, checked.cleared cursor defined⟩

/-- Over every interleaving of authored changes and definition tasks: the references of live groups form
no cycle and stay among live groups of one context; a definition is published only by a task whose walk
was completed at the revision of the publication and leads nowhere to the group; and a walk that goes on
at one revision comes to its end. -/
theorem references_acyclic (calls : List Call) :
    let s := Store.empty.after calls
    Acyclic s.Edge ∧ s.Grounded ∧
    (∀ task t answers s' t', s.findTask task = some t → t.completed = false →
      s.perform (.advance task answers) = .ok s' → s'.findTask task = some t' → t'.completed = true →
      t'.failure = none → ∃ criteria, s.Cleared t criteria) ∧
    (∀ call s' id context refs, s.perform call = .ok s' → s'.node id = some (context, refs) → refs ≠ [] →
      s.node id ≠ some (context, refs) →
      ∃ task answers t criteria, call = .advance task answers ∧ s.findTask task = some t ∧
        t.edit.group = id ∧ refs = criteria.references ∧ s.Cleared t criteria) ∧
    (∀ task more, (s.after more).clock = s.clock → (s.after more).Open task →
      s.advances task more ≤ s.groups.length + 2) := by
  intro s
  have sound : Sound s := empty_sound.after calls
  refine ⟨sound.acyclic, sound.grounded, ?_, ?_, ?_⟩
  · intro task t answers s' t' found running h found' completed published
    exact cleared_of_completed sound found running h found' completed published
  · intro call s' id context refs h after nonempty changed
    exact cleared_of_changed sound h after nonempty changed
  · intro task more clock opened
    have bound := advances_le sound more clock opened
    have most : s.left task ≤ s.groups.length + 2 := left_le
    omega

end

namespace Sample

def willing : Answers := ⟨.ok (), fun _ => .ok (), .ok (), .ok (), .ok ()⟩

/-- A static group, a dynamic one that refers to it, and the rule that would close a cycle. -/
def calls : List Call :=
  [.groupChange 1 ⟨11, 0, .create "static" .endpoint none⟩ willing,
   .groupChange 2 ⟨12, 0, .create "dynamic" .endpoint (some (.group 1 false))⟩ willing,
   .advance 12 willing,
   .advance 12 willing,
   .groupChange 3 ⟨13, 0, .create "other" .endpoint (some (.and [.group 2 true, .group 1 false]))⟩ willing,
   .advance 13 willing]

/-- The walk of the second definition is complete, and its publication is the next transaction. -/
theorem references_acyclic_published :
    ∃ t t' s' criteria, (Store.empty.after calls).findTask 13 = some t ∧
      (Store.empty.after calls).perform (.advance 13 willing) = .ok s' ∧ s'.findTask 13 = some t' ∧
      t'.completed = true ∧ (Store.empty.after calls).Cleared t criteria := by
  obtain ⟨s', performed⟩ : ∃ s', (Store.empty.after calls).perform (.advance 13 willing) = .ok s' := ⟨_, rfl⟩
  have found : (Store.empty.after calls).findTask 13 = some
      ⟨13, ⟨3, ⟨13, 0, .create "other" .endpoint (some (.and [.group 2 true, .group 1 false]))⟩⟩, false, none,
        some ⟨2, true⟩, [⟨1, 2, true⟩, ⟨2, 2, true⟩]⟩ := by
    rfl
  have found' : s'.findTask 13 = some
      ⟨13, ⟨3, ⟨13, 0, .create "other" .endpoint (some (.and [.group 2 true, .group 1 false]))⟩⟩, true, none,
        some ⟨2, true⟩, []⟩ := by
    cases performed
    rfl
  obtain ⟨criteria, cleared⟩ :=
    (references_acyclic calls).2.2.1 13 _ willing s' _ found rfl performed found' rfl rfl
  exact ⟨_, _, s', criteria, found, performed, found', rfl, cleared⟩

end Sample

end RssMdm.Groups
