/- module: Groups/ReferenceGraph
   source: crates/inventory-service/src/groups/definition.rs, dependencies.rs, mutation.rs
   digest: The references of live groups never form a cycle, whatever is edited while a definition is
   walked. -/

import RssMdm.Groups.Definition
import RssMdm.Lib.Graph

set_option autoImplicit false

namespace RssMdm.Groups

open Lib.Fallible Lib.Graph Lib.Rows
open Policy (Uuid)
open Relation (ReflTransGen)

section

/-- What the graph sees of a live group: its context and its references. -/
def Store.node (s : Store) (id : Uuid) : Option (AssetContext × List Uuid) :=
  ((s.find id).filter (fun g => !g.deleted)).map (fun g => (g.context, g.references))

def Store.Edge (s : Store) (a b : Uuid) : Prop := ∃ context refs, s.node a = some (context, refs) ∧ b ∈ refs

/-- Every reference of a live group is a live group of its context. -/
def Store.Grounded (s : Store) : Prop :=
  ∀ a context refs b, s.node a = some (context, refs) → b ∈ refs → ∃ refs', s.node b = some (context, refs')

variable {s s' : Store} {id other : Uuid} {g : Group} {a : Answers}

theorem id_of_find (found : s.find id = some g) : g.id = id := key_of_lookup found

theorem find_putGroup : (s.putGroup g).find other = if other = g.id then some g else s.find other := by
  unfold Store.putGroup
  split
  · rename_i there
    obtain ⟨old, found⟩ := Option.isSome_iff_exists.mp there
    show lookup Group.id (replace Group.id s.groups g) other = _
    rw [lookup_replace]
    split
    · rename_i same
      have row : lookup Group.id s.groups g.id = some old := found
      rw [same, row]
      rfl
    · rfl
  · rename_i absent
    have missing : s.find g.id = none := Option.not_isSome_iff_eq_none.mp absent
    show lookup Group.id (s.groups ++ [g]) other = _
    by_cases same : other = g.id
    · rw [if_pos same, same]
      exact lookup_append_new missing
    · rw [if_neg same]
      exact lookup_append_ne same

theorem node_of_find (found : s.find id = some g) (live : g.deleted = false) :
    s.node id = some (g.context, g.references) := by
  simp [Store.node, found, live]

theorem node_putChanged : (s.putChanged (some g)).node other =
    if other = g.id then (if g.deleted then none else some (g.context, g.references)) else s.node other := by
  unfold Store.node Store.putChanged
  rw [find_putGroup]
  split
  · cases is : g.deleted <;> simp [is]
  · rfl

theorem live_eq_ok (h : s.live id = .ok g) :
    s.find id = some g ∧ g.deleted = false ∧ s.node id = some (g.context, g.references) := by
  unfold Store.live at h
  split at h
  · rename_i found is
    cases h
    obtain ⟨there, alive⟩ := Option.filter_eq_some_iff.mp is
    have live : g.deleted = false := by simpa using alive
    exact ⟨there, live, node_of_find there live⟩
  · cases h

theorem not_edge_of_unused (unused : s.usedIn id = false) : ¬s.Edge other id := by
  rintro ⟨context, refs, is, mem⟩
  unfold Store.node at is
  obtain ⟨g, kept, same⟩ := Option.map_eq_some_iff.mp is
  obtain ⟨found, alive⟩ := Option.filter_eq_some_iff.mp kept
  cases same
  have used : s.usedIn id = true := by
    refine List.any_eq_true.mpr ⟨g, mem_of_lookup found, ?_⟩
    rw [alive, Bool.true_and]
    exact List.contains_iff_mem.mpr mem
  rw [unused] at used
  cases used

end

section

variable {s s' : Store} {id : Uuid} {op : Operation} {a : Answers}

def Operation.criteria (op : Operation) : Option Criteria :=
  match op.input with
  | .create _ _ criteria => criteria
  | .rule criteria => some criteria
  | _ => none

def Store.contextOf (s : Store) (id : Uuid) (op : Operation) : Option AssetContext :=
  match op.input with
  | .create _ context _ => some context
  | .rule _ => (s.node id).map Prod.fst
  | _ => none

inductive Published (s : Store) (id : Uuid) (op : Operation)
    (node : Uuid → Option (AssetContext × List Uuid)) : Prop where
  | same (nodes : ∀ x, node x = s.node x)
  | defined (criteria : Criteria) (context : AssetContext) (is : op.criteria = some criteria)
      (within : s.contextOf id op = some context)
      (kept : ∀ old refs, s.node id = some (old, refs) → old = context)
      (here : node id = some (context, criteria.references))
      (nodes : ∀ x, x ≠ id → node x = s.node x)
  | bare (context : AssetContext) (authored : op.input.authored = true) (before : s.node id = none)
      (here : node id = some (context, []))
      (nodes : ∀ x, x ≠ id → node x = s.node x)
  | deleted (is : op.input = .delete) (here : node id = none)
      (nodes : ∀ x, x ≠ id → node x = s.node x)

theorem node_none_of_find (absent : s.find id = none) : s.node id = none := by
  simp [Store.node, absent]

theorem commandGroup_published {changed : Option Group} (h : s.commandGroup id op = .ok changed) :
    Published s id op (s.putChanged changed).node := by
  unfold Store.commandGroup at h
  split at h
  · rename_i presentation context criteria is absent
    obtain ⟨-, h⟩ := of_guard h
    obtain ⟨-, h⟩ := of_guard h
    cases h
    cases criteria with
    | none =>
      refine .bare context (by rw [is]; rfl) (node_none_of_find absent) ?_ ?_
      · rw [node_putChanged, if_pos rfl]
        rfl
      · intro x other
        rw [node_putChanged, if_neg other]
    | some criteria =>
      have unknown := node_none_of_find absent
      refine .defined criteria context (by rw [Operation.criteria, is]) (by rw [Store.contextOf, is])
        (by simp [unknown]) ?_ ?_
      · rw [node_putChanged, if_pos rfl]
        rfl
      · intro x other
        rw [node_putChanged, if_neg other]
  · rename_i presentation is absent
    obtain ⟨-, h⟩ := of_guard h
    cases h
    refine .bare .endpoint (by rw [is]; rfl) (node_none_of_find absent) ?_ ?_
    · rw [node_putChanged, if_pos rfl]
      rfl
    · intro x other
      rw [node_putChanged, if_neg other]
  · cases h
  · cases h
  · cases h
  · rename_i g found _ _
    obtain ⟨deleted, h⟩ := of_guard h
    obtain ⟨-, h⟩ := of_guard h
    have live : g.deleted = false := by simpa using deleted
    have before := node_of_find found live
    have same := id_of_find found
    split at h
    · rename_i criteria is
      obtain ⟨-, h⟩ := of_guard h
      split at h
      · cases h
        exact .same (fun _ => rfl)
      cases h
      refine .defined criteria g.context (by rw [Operation.criteria, is]) ?_ (by simp [before]) ?_ ?_
      · rw [Store.contextOf, is, before]
        rfl
      · rw [node_putChanged, if_pos same.symm, if_neg (by simp [live])]
        rfl
      · intro x other
        rw [node_putChanged, if_neg (by rw [same]; exact other)]
    · rename_i is
      cases h
      refine .deleted is ?_ ?_
      · rw [node_putChanged, if_pos same.symm]
        rfl
      · intro x other
        rw [node_putChanged, if_neg (by rw [same]; exact other)]
    · split at h
      · cases h
        exact .same (fun _ => rfl)
      · cases h
        refine .same (fun x => ?_)
        rw [node_putChanged]
        by_cases here : x = g.id
        · rw [if_pos here, if_neg (by simp [live]), here, same, before]
          rfl
        · rw [if_neg here]
    · cases h

theorem commandGroup_length {changed : Option Group} (h : s.commandGroup id op = .ok changed)
    (kept : op.input.authored = false) : (s.putChanged changed).groups.length = s.groups.length := by
  unfold Store.commandGroup at h
  split at h
  · rename_i is _
    rw [is] at kept
    cases kept
  · rename_i is _
    rw [is] at kept
    cases kept
  · cases h
  · cases h
  · cases h
  rename_i g found _ _
  obtain ⟨-, h⟩ := of_guard h
  obtain ⟨-, h⟩ := of_guard h
  have same := id_of_find found
  split at h
  · rename_i is
    rw [is] at kept
    cases kept
  · rename_i is
    rw [is] at kept
    cases kept
  · split at h
    · cases h
      rfl
    · cases h
      have there : (s.find g.id).isSome = true := by rw [same, found]; rfl
      simp only [Store.putChanged, Store.putGroup, there, if_true, Store.saveGroup, replace, List.length_map]
  · cases h

theorem publishChange_eq_ok (h : s.publishChange id op a = .ok s') :
    Published s id op s'.node ∧ s'.tasks = s.tasks ∧
      s'.clock = (if op.input.authored then s.clock + 1 else s.clock) ∧
      (op.input = .delete → s.usedIn id = false) ∧
      (op.input.authored = false → s'.groups.length = s.groups.length) := by
  unfold Store.publishChange at h
  obtain ⟨-, h⟩ := of_check h
  obtain ⟨free, h⟩ := of_check h
  obtain ⟨s₁, executed, h⟩ := of_bind h
  obtain ⟨-, h⟩ := of_check h
  cases h
  have unused : op.input = .delete → s.usedIn id = false := by
    intro is
    rw [is] at free
    unfold Store.deletable at free
    obtain ⟨g, -, free⟩ := of_bind free
    obtain ⟨-, free⟩ := of_check free
    obtain ⟨used, -⟩ := of_guard free
    simpa using used
  have done : Published s id op s₁.node ∧ s₁.tasks = s.tasks ∧ s₁.clock = s.clock ∧
      (op.input.authored = false → s₁.groups.length = s.groups.length) := by
    unfold Store.execute at executed
    obtain ⟨-, executed⟩ := of_check executed
    split at executed
    · obtain ⟨-, executed⟩ := of_guard executed
      cases executed
      exact ⟨.same (fun _ => rfl), rfl, rfl, fun _ => rfl⟩
    obtain ⟨changed, command, executed⟩ := of_bind executed
    cases executed
    have published := commandGroup_published command
    have length := commandGroup_length command
    cases changed with
    | none => exact ⟨published, rfl, rfl, length⟩
    | some g =>
      refine ⟨published, ?_, ?_, length⟩
      · show (s.putGroup g).tasks = s.tasks
        unfold Store.putGroup
        split <;> rfl
      · show (s.putGroup g).clock = s.clock
        unfold Store.putGroup
        split <;> rfl
  obtain ⟨published, tasks, clock, length⟩ := done
  by_cases authored : op.input.authored = true
  · simp only [authored, if_true]
    exact ⟨published, tasks, congrArg (· + 1) clock, unused, fun no => absurd no (by simp)⟩
  · simp only [authored, Bool.false_eq_true, if_false]
    exact ⟨published, tasks, clock, unused, fun _ => length (by simpa using authored)⟩

end

variable {s s' : Store} {id : Uuid} {op : Operation}

/-- A set of live groups of one context, closed under references, that leaves the group out. -/
structure Closed (node : Uuid → Option (AssetContext × List Uuid)) (id : Uuid) (context : AssetContext)
    (V : List Uuid) : Prop where
  outside : id ∉ V
  live : ∀ x ∈ V, ∃ refs, node x = some (context, refs) ∧ ∀ b ∈ refs, b ∈ V

theorem Closed.step {context : AssetContext} {V : List Uuid} (closed : Closed s.node id context V) :
    ∀ x ∈ {x | x ∈ V}, ∀ y, s.Edge x y → y ∈ {x | x ∈ V} := by
  rintro x mem y ⟨context', refs', is, there⟩
  obtain ⟨refs, node, inside⟩ := closed.live x mem
  rw [node] at is
  cases is
  exact inside y there

theorem Closed.unreachable {context : AssetContext} {V : List Uuid} (closed : Closed s.node id context V)
    {x y : Uuid} (mem : x ∈ V) (path : ReflTransGen s.Edge x y) : y ∈ V ∧ y ≠ id := by
  have inside : y ∈ V := reach_closed closed.step mem path
  exact ⟨inside, fun same => closed.outside (same ▸ inside)⟩

theorem edge_of_kept (nodes : ∀ x, x ≠ id → s'.node x = s.node x) {x y : Uuid} (other : x ≠ id)
    (edge : s'.Edge x y) : s.Edge x y := by
  obtain ⟨context, refs, is, mem⟩ := edge
  rw [nodes x other] at is
  exact ⟨context, refs, is, mem⟩

/-- The graph stays sound under a published change: a definition has to point into a closed set, a
deleted group must not be referred to. -/
theorem published_sound (acyclic : Acyclic s.Edge) (grounded : s.Grounded)
    (published : Published s id op s'.node) (unused : op.input = .delete → s.usedIn id = false)
    (checked : ∀ criteria context, op.criteria = some criteria → s.contextOf id op = some context →
      ∃ V, Closed s.node id context V ∧ ∀ b ∈ criteria.references, b ∈ V) :
    Acyclic s'.Edge ∧ s'.Grounded := by
  cases published with
  | same nodes =>
    have equal : s'.node = s.node := funext nodes
    constructor
    · refine acyclic_mono acyclic ?_
      rintro x y ⟨context, refs, is, mem⟩
      exact ⟨context, refs, equal ▸ is, mem⟩
    · intro x context refs y is mem
      rw [equal] at is ⊢
      exact grounded x context refs y is mem
  | defined criteria context is within kept here nodes =>
    obtain ⟨V, closed, inside⟩ := checked criteria context is within
    constructor
    · refine acyclic_redirect acyclic closed.step closed.outside ?_
      intro x y edge
      by_cases same : x = id
      · obtain ⟨context', refs, is, mem⟩ := edge
        rw [same, here] at is
        cases is
        exact .inl ⟨same, inside y mem⟩
      · exact .inr ⟨same, edge_of_kept nodes same edge⟩
    · intro x context' refs y is mem
      by_cases same : x = id
      · rw [same, here] at is
        cases is
        have there := inside y mem
        have other : y ≠ id := fun same => closed.outside (same ▸ there)
        obtain ⟨refs', node, -⟩ := closed.live y there
        exact ⟨refs', by rw [nodes y other, node]⟩
      · rw [nodes x same] at is
        obtain ⟨refs', node⟩ := grounded x context' refs y is mem
        by_cases target : y = id
        · rw [target] at node ⊢
          rw [here, kept context' refs' node]
          exact ⟨_, rfl⟩
        · exact ⟨refs', by rw [nodes y target, node]⟩
  | bare _ _ before here nodes =>
    constructor
    · refine acyclic_mono acyclic ?_
      intro x y edge
      by_cases same : x = id
      · obtain ⟨context', refs, is, mem⟩ := edge
        rw [same, here] at is
        cases is
        cases mem
      · exact edge_of_kept nodes same edge
    · intro x context' refs y is mem
      by_cases same : x = id
      · rw [same, here] at is
        cases is
        cases mem
      rw [nodes x same] at is
      obtain ⟨refs', node⟩ := grounded x context' refs y is mem
      have other : y ≠ id := by
        intro target
        rw [target, before] at node
        cases node
      exact ⟨refs', by rw [nodes y other, node]⟩
  | deleted is here nodes =>
    have gone : ∀ x context refs, s'.node x = some (context, refs) → x ≠ id := by
      intro x context refs is same
      rw [same, here] at is
      cases is
    constructor
    · refine acyclic_mono acyclic ?_
      intro x y edge
      obtain ⟨context, refs, node, mem⟩ := edge
      exact edge_of_kept nodes (gone x context refs node) ⟨context, refs, node, mem⟩
    · intro x context refs y node mem
      rw [nodes x (gone x context refs node)] at node
      obtain ⟨refs', target⟩ := grounded x context refs y node mem
      have other : y ≠ id := by
        intro same
        exact not_edge_of_unused (unused is) ⟨context, refs, node, same ▸ mem⟩
      exact ⟨refs', by rw [nodes y other, target]⟩

end RssMdm.Groups
