/- module: Groups/DefinitionWalk
   source: crates/inventory-service/src/groups/definition.rs, crates/group-postgres/src/graph.rs
   digest: The walk of a definition, a page at a time: what it has visited at a revision of the graph, and
   how far it is from its end. -/

import Mathlib.Data.List.Perm.Subperm
import RssMdm.Groups.ReferenceGraph

set_option autoImplicit false

namespace RssMdm.Groups

open Lib.Fallible Lib.Rows
open Policy (Uuid)
open List (mem_append mem_map)

def nodesOf (walk : List WalkRow) : List Uuid := walk.map WalkRow.node

def visitedOf (walk : List WalkRow) : List Uuid := nodesOf (walk.filter WalkRow.visited)

/-- A walk over the graph at a revision: a visited row is a live group of the context that is not the
edited group and does not refer to it, and what it refers to is in the walk. -/
structure Walked (s : Store) (revision : Nat) (id : Uuid) (context : AssetContext)
    (walk : List WalkRow) : Prop where
  fresh : ∀ row ∈ walk, row.graphRevision = revision
  distinct : (nodesOf walk).Nodup
  visited : ∀ row ∈ walk, row.visited = true → row.node ≠ id ∧
    ∃ refs, s.node row.node = some (context, refs) ∧ id ∉ refs ∧ ∀ b ∈ refs, b ∈ nodesOf walk

section

variable {s : Store} {revision : Nat} {id node : Uuid} {context : AssetContext} {walk walk' : List WalkRow}
  {nodes : List Uuid} {a : Answers} {edit : DefinitionEdit}

theorem mem_visitedOf {x : Uuid} : x ∈ visitedOf walk ↔ ∃ row ∈ walk, row.visited = true ∧ row.node = x := by
  simp only [visitedOf, nodesOf, mem_map, List.mem_filter, and_assoc]

local instance walkNode : LawfulBEq Uuid := inferInstance

theorem seedNode_fresh (fresh : ∀ row ∈ walk, row.graphRevision = revision) :
    Store.seedNode revision walk node =
      if node ∈ nodesOf walk then walk else walk ++ [⟨node, revision, false⟩] := by
  have there : (walk.any (fun row => row.node = node) = true) ↔ node ∈ nodesOf walk := by
    simp [nodesOf]
  unfold Store.seedNode
  by_cases mem : node ∈ nodesOf walk
  · rw [if_pos mem, if_pos (there.mpr mem)]
    refine (List.map_congr_left fun row member => ?_).trans (List.map_id walk)
    rw [if_neg]
    · rfl
    · simp [fresh row member]
  · rw [if_neg mem, if_neg (fun any => mem (there.mp any))]

/-- Seeding adds rows that were not visited. -/
structure Seeded (revision : Nat) (walk walk' : List WalkRow) : Prop where
  extends' : ∃ extra, walk' = walk ++ extra ∧ ∀ row ∈ extra, row.graphRevision = revision ∧ row.visited = false
  distinct : (nodesOf walk).Nodup → (nodesOf walk').Nodup

theorem Seeded.trans {walk'' : List WalkRow} (first : Seeded revision walk walk')
    (second : Seeded revision walk' walk'') : Seeded revision walk walk'' := by
  obtain ⟨extra, is, unvisited⟩ := first.extends'
  obtain ⟨extra', is', unvisited'⟩ := second.extends'
  refine ⟨⟨extra ++ extra', by rw [is', is, List.append_assoc], ?_⟩, fun nodup => second.distinct (first.distinct nodup)⟩
  intro row mem
  rcases mem_append.mp mem with before | after
  · exact unvisited row before
  · exact unvisited' row after

theorem Seeded.fresh (seeded : Seeded revision walk walk') (fresh : ∀ row ∈ walk, row.graphRevision = revision) :
    ∀ row ∈ walk', row.graphRevision = revision := by
  obtain ⟨extra, rfl, unvisited⟩ := seeded.extends'
  intro row mem
  rcases mem_append.mp mem with before | after
  · exact fresh row before
  · exact (unvisited row after).1

theorem Seeded.subset (seeded : Seeded revision walk walk') : nodesOf walk ⊆ nodesOf walk' := by
  obtain ⟨extra, rfl, -⟩ := seeded.extends'
  intro x mem
  simp only [nodesOf, List.map_append]
  exact List.mem_append_left _ mem

theorem seedNode_seeded (fresh : ∀ row ∈ walk, row.graphRevision = revision) :
    Seeded revision walk (Store.seedNode revision walk node) ∧
      node ∈ nodesOf (Store.seedNode revision walk node) := by
  rw [seedNode_fresh fresh]
  split
  · rename_i mem
    exact ⟨⟨⟨[], by simp, by simp⟩, fun nodup => nodup⟩, mem⟩
  rename_i absent
  refine ⟨⟨⟨_, rfl, by simp⟩, fun nodup => ?_⟩, by simp [nodesOf]⟩
  unfold nodesOf at *
  rw [List.map_append]
  refine List.Nodup.append nodup (by simp) ?_
  simpa using absent

theorem foldl_seeded (fresh : ∀ row ∈ walk, row.graphRevision = revision) :
    Seeded revision walk (nodes.foldl (Store.seedNode revision) walk) ∧
      ∀ x ∈ nodes, x ∈ nodesOf (nodes.foldl (Store.seedNode revision) walk) := by
  induction nodes generalizing walk with
  | nil => exact ⟨⟨⟨[], by simp, by simp⟩, fun nodup => nodup⟩, by simp⟩
  | cons first _ ih =>
    obtain ⟨seeded, here⟩ : Seeded revision walk (Store.seedNode revision walk first) ∧
        first ∈ nodesOf (Store.seedNode revision walk first) := seedNode_seeded fresh
    obtain ⟨later, others⟩ := ih (seeded.fresh fresh)
    refine ⟨seeded.trans later, fun x mem => ?_⟩
    rcases List.mem_cons.mp mem with rfl | mem
    · exact later.subset here
    · exact others x mem

theorem seed_eq_ok (h : Store.seed revision walk nodes = .ok walk')
    (fresh : ∀ row ∈ walk, row.graphRevision = revision) :
    Seeded revision walk walk' ∧ ∀ x ∈ nodes, x ∈ nodesOf walk' := by
  unfold Store.seed at h
  obtain ⟨-, h⟩ := of_guard h
  cases h
  exact foldl_seeded fresh

theorem Seeded.visitedOf (seeded : Seeded revision walk walk') : visitedOf walk' = visitedOf walk := by
  obtain ⟨extra, rfl, unvisited⟩ := seeded.extends'
  have none : extra.filter WalkRow.visited = [] := by
    refine List.filter_eq_nil_iff.mpr fun row mem => ?_
    rw [(unvisited row mem).2]
    exact Bool.false_ne_true
  unfold Groups.visitedOf
  rw [List.filter_append, none, List.append_nil]

theorem Walked.seeded (walked : Walked s revision id context walk) (seeded : Seeded revision walk walk') :
    Walked s revision id context walk' := by
  refine ⟨seeded.fresh walked.fresh, seeded.distinct walked.distinct, ?_⟩
  have nodes := seeded.subset
  obtain ⟨extra, rfl, unvisited⟩ := seeded.extends'
  intro row mem seen
  rcases mem_append.mp mem with before | after
  · obtain ⟨other, refs, is, away, inside⟩ := walked.visited row before seen
    exact ⟨other, refs, is, away, fun b there => nodes (inside b there)⟩
  · rw [(unvisited row after).2] at seen
    cases seen

theorem visit_eq_ok (h : Store.visit revision walk node = .ok walk')
    (fresh : ∀ row ∈ walk, row.graphRevision = revision) :
    nodesOf walk' = nodesOf walk ∧ node ∈ visitedOf walk' ∧ visitedOf walk ⊆ visitedOf walk' ∧
      ∀ row' ∈ walk', row'.graphRevision = revision ∧ (row'.node = node ∨ row' ∈ walk) := by
  unfold Store.visit at h
  split at h
  · rename_i there
    cases h
    obtain ⟨found, mem, is⟩ := List.any_eq_true.mp there
    refine ⟨?_, ?_, ?_, ?_⟩
    · unfold nodesOf
      rw [List.map_map]
      refine List.map_congr_left fun row _ => ?_
      simp only [Function.comp_apply]
      split <;> rfl
    · refine mem_visitedOf.mpr ⟨_, mem_map.mpr ⟨found, mem, rfl⟩, ?_, ?_⟩
      · rw [if_pos is]
      · rw [if_pos is]
        have both := Bool.and_eq_true_iff.mp is
        exact decide_eq_true_eq.mp both.1
    · intro x seen
      obtain ⟨row, member, visited, same⟩ := mem_visitedOf.mp seen
      refine mem_visitedOf.mpr ⟨_, mem_map.mpr ⟨row, member, rfl⟩, ?_, ?_⟩
      · split <;> simp [visited]
      · split <;> exact same
    · intro row' member
      obtain ⟨row, old, rfl⟩ := mem_map.mp member
      have revised := fresh row old
      split
      · rename_i here
        exact ⟨revised, .inl (decide_eq_true_eq.mp (Bool.and_eq_true_iff.mp here).1)⟩
      · exact ⟨revised, .inr old⟩
  · cases h

end

section

variable {s : Store} {revision : Nat} {id node : Uuid} {context : AssetContext} {walk walk' : List WalkRow}
  {nodes : List Uuid} {a : Answers} {edit : DefinitionEdit}

theorem referenceEdges_eq_ok {children : List Uuid} (h : s.referenceEdges node context a = .ok children) :
    s.node node = some (context, children) := by
  unfold Store.referenceEdges at h
  obtain ⟨g, live, h⟩ := of_bind h
  obtain ⟨-, -, is⟩ := live_eq_ok live
  obtain ⟨same, h⟩ := of_guard h
  have same : g.context = context := not_ne_iff.mp same
  rw [is, same]
  unfold Group.references
  split at h
  · rename_i bare
    cases h
    rw [bare]
  · rename_i version criteria defined
    obtain ⟨-, h⟩ := of_check h
    cases h
    rw [defined]

structure Visits (walk : List WalkRow) (nodes : List Uuid) (walk' : List WalkRow) : Prop where
  kept : nodesOf walk ⊆ nodesOf walk'
  seen : visitedOf walk ⊆ visitedOf walk'
  here : ∀ x ∈ nodes, x ∈ visitedOf walk'

theorem step_eq_ok (h : s.step edit context revision a walk node = .ok walk')
    (walked : Walked s revision edit.group context walk) :
    Walked s revision edit.group context walk' ∧ Visits walk [node] walk' := by
  unfold Store.step at h
  obtain ⟨other, h⟩ := of_guard h
  obtain ⟨children, edges, h⟩ := of_bind h
  have live := referenceEdges_eq_ok edges
  obtain ⟨away, h⟩ := of_guard h
  have away : edit.group ∉ children := fun mem => away (List.contains_iff_mem.mpr mem)
  obtain ⟨middle, seeding, h⟩ := of_bind h
  obtain ⟨seeded, all⟩ := seed_eq_ok seeding walked.fresh
  have walked' := walked.seeded seeded
  obtain ⟨nodes, here, seen, rows⟩ := visit_eq_ok h walked'.fresh
  refine ⟨⟨fun row mem => (rows row mem).1, nodes ▸ walked'.distinct, ?_⟩,
    ⟨nodes ▸ seeded.subset, seeded.visitedOf ▸ seen, by simpa using here⟩⟩
  intro row mem visited
  rw [nodes]
  rcases (rows row mem).2 with same | old
  · rw [same]
    exact ⟨other, children, live, away, all⟩
  · exact walked'.visited row old visited

theorem pages_eq_ok (h : nodes.foldlM (s.step edit context revision a) walk = .ok walk')
    (walked : Walked s revision edit.group context walk) :
    Walked s revision edit.group context walk' ∧ Visits walk nodes walk' := by
  induction nodes generalizing walk with
  | nil =>
    cases h
    exact ⟨walked, ⟨fun _ mem => mem, fun _ mem => mem, by simp⟩⟩
  | cons _ _ ih =>
    rw [List.foldlM_cons] at h
    obtain ⟨middle, step, h⟩ := of_bind h
    obtain ⟨between, one⟩ := step_eq_ok step walked
    obtain ⟨done, more⟩ := ih h between
    refine ⟨done, ⟨fun x mem => more.kept (one.kept mem), fun x mem => more.seen (one.seen mem), ?_⟩⟩
    intro x mem
    rcases List.mem_cons.mp mem with rfl | mem
    · exact more.seen (one.here x (by simp))
    · exact more.here x mem

theorem mem_page {x : Uuid} (mem : x ∈ Store.page revision walk) :
    ∃ row ∈ walk, row.graphRevision = revision ∧ row.visited = false ∧ row.node = x := by
  have sorted := List.mem_of_mem_take mem
  obtain ⟨row, there, is⟩ := mem_map.mp ((List.mem_insertionSort _).mp sorted)
  obtain ⟨member, unvisited⟩ := List.mem_filter.mp there
  have both := Bool.and_eq_true_iff.mp unvisited
  exact ⟨row, member, decide_eq_true_eq.mp both.1, by simpa using both.2, is⟩

theorem page_isEmpty (fresh : ∀ row ∈ walk, row.graphRevision = revision) :
    (Store.page revision walk).isEmpty = true ↔ ∀ row ∈ walk, row.visited = true := by
  rw [List.isEmpty_iff]
  constructor
  · intro empty row mem
    by_contra visited
    have unvisited := Bool.eq_false_of_not_eq_true visited
    have rows : row ∈ walk.filter (fun row => row.graphRevision = revision && !row.visited) := by
      simp [mem, fresh row mem, unvisited]
    have sorted : row.node ∈ ((walk.filter (fun row => row.graphRevision = revision && !row.visited)).map
        WalkRow.node).insertionSort (fun a b => a.toNat ≤ b.toNat) :=
      (List.mem_insertionSort _).mpr (mem_map.mpr ⟨row, rows, rfl⟩)
    rcases List.take_eq_nil_iff.mp empty with none | none
    · cases none
    · rw [none] at sorted
      cases sorted
  · intro all
    refine List.eq_nil_iff_forall_not_mem.mpr fun x mem => ?_
    obtain ⟨row, there, -, unvisited, -⟩ := mem_page mem
    rw [all row there] at unvisited
    cases unvisited

theorem visited_length (walked : Walked s revision id context walk) :
    (visitedOf walk).length ≤ s.groups.length := by
  have distinct : (visitedOf walk).Nodup :=
    List.Nodup.sublist (List.Sublist.map _ List.filter_sublist) walked.distinct
  have inside : visitedOf walk ⊆ s.groups.map Group.id := by
    intro x mem
    obtain ⟨row, there, seen, rfl⟩ := mem_visitedOf.mp mem
    obtain ⟨-, refs, is, -⟩ := walked.visited row there seen
    obtain ⟨g, kept, -⟩ := Option.map_eq_some_iff.mp is
    obtain ⟨found, -⟩ := Option.filter_eq_some_iff.mp kept
    exact mem_map.mpr ⟨g, mem_of_lookup found, id_of_find found⟩
  calc (visitedOf walk).length ≤ (s.groups.map Group.id).length := (distinct.subperm inside).length_le
    _ = s.groups.length := List.length_map _

theorem visited_grows (before : Walked s revision id context walk) (pending : Store.page revision walk ≠ [])
    (after : Visits walk (Store.page revision walk) walk') :
    (visitedOf walk).length < (visitedOf walk').length := by
  obtain ⟨x, mem⟩ := List.exists_mem_of_ne_nil _ pending
  obtain ⟨row, there, -, unvisited, is⟩ := mem_page mem
  have distinct : (visitedOf walk).Nodup :=
    List.Nodup.sublist (List.Sublist.map _ List.filter_sublist) before.distinct
  have absent : x ∉ visitedOf walk := by
    intro seen
    obtain ⟨other, member, visited, same⟩ := mem_visitedOf.mp seen
    have equal : other = row := List.inj_on_of_nodup_map before.distinct member there (same.trans is.symm)
    rw [equal, unvisited] at visited
    cases visited
  have inside : x :: visitedOf walk ⊆ visitedOf walk' :=
    List.cons_subset.mpr ⟨after.here x mem, after.seen⟩
  exact ((List.nodup_cons.mpr ⟨absent, distinct⟩).subperm inside).length_le

end

variable {s s' : Store} {t t' : Task} {context : AssetContext} {roots : List Uuid} {a : Answers}

structure Checked (s : Store) (t : Task) (context : AssetContext) (roots : List Uuid) (ready : Bool) :
    Prop where
  walked : Walked s s.clock t.edit.group context t.walk
  rooted : ∀ r ∈ roots, r ∈ nodesOf t.walk
  ready : ready = true ↔ ∀ row ∈ t.walk, row.visited = true

theorem Checked.closed (checked : Checked s t context roots true) :
    Closed s.node t.edit.group context (nodesOf t.walk) := by
  have all := checked.ready.mp rfl
  have seen : ∀ x ∈ nodesOf t.walk, x ≠ t.edit.group ∧
      ∃ refs, s.node x = some (context, refs) ∧ ∀ b ∈ refs, b ∈ nodesOf t.walk := by
    intro x mem
    obtain ⟨row, there, rfl⟩ := mem_map.mp mem
    obtain ⟨other, refs, is, -, inside⟩ := checked.walked.visited row there (all row there)
    exact ⟨other, refs, is, inside⟩
  exact ⟨fun mem => (seen _ mem).1 rfl, fun x mem => (seen x mem).2⟩

/-- A cursor never runs ahead of the graph, and the walk of a current one is what it says. -/
def Tracks (s : Store) (t : Task) : Prop :=
  ∀ c, t.cursor = some c → c.graphRevision ≤ s.clock ∧
    (c.graphRevision = s.clock → t.completed = false →
      ∃ criteria context, t.edit.change.criteria = some criteria ∧
        s.contextOf t.edit.group t.edit.change = some context ∧
        Checked s t context criteria.references c.ready)

/-- How many more transactions the walk takes at the revision of the store, beside the last one. -/
def Store.remaining (s : Store) (t : Task) : Nat :=
  match t.cursor with
  | some c =>
      if c.graphRevision = s.clock then
        (if c.ready then 0 else 1 + (s.groups.length - (visitedOf t.walk).length))
      else s.groups.length + 2
  | none => s.groups.length + 2

theorem definitionReferences_eq_ok {id : Uuid} {op : Operation}
    (h : s.definitionReferences id op a = .ok (context, roots)) :
    ∃ criteria, op.criteria = some criteria ∧ s.contextOf id op = some context ∧
      roots = criteria.references := by
  unfold Store.definitionReferences at h
  obtain ⟨⟨found, criteria⟩, read, h⟩ := of_bind h
  obtain ⟨-, h⟩ := of_check h
  obtain ⟨-, h⟩ := of_guard h
  cases h
  refine ⟨criteria, ?_⟩
  split at read
  · rename_i is
    obtain ⟨-, read⟩ := of_guard read
    obtain ⟨-, read⟩ := of_guard read
    cases read
    simp [Operation.criteria, Store.contextOf, is]
  · rename_i is
    obtain ⟨g, live, read⟩ := of_bind read
    obtain ⟨-, read⟩ := of_guard read
    cases read
    simp [Operation.criteria, Store.contextOf, is, (live_eq_ok live).2.2]
  · cases read

theorem advanceWalk_eq_ok (h : s.advanceWalk t context roots a = .ok s') (tracks : Tracks s t)
    (open' : t.completed = false) (within : s.contextOf t.edit.group t.edit.change = some context)
    {criteria : Criteria} (defined : t.edit.change.criteria = some criteria)
    (named : roots = criteria.references) (unready : t.cursor ≠ some ⟨s.clock, true⟩) :
    ∃ walk ready, s' = s.saveTask { t with walk, cursor := some ⟨s.clock, ready⟩ } ∧
      Checked s { t with walk, cursor := some ⟨s.clock, ready⟩ } context roots ready ∧
      s.remaining { t with walk, cursor := some ⟨s.clock, ready⟩ } < s.remaining t := by
  unfold Store.advanceWalk at h
  obtain ⟨start, started, h⟩ := of_bind h
  obtain ⟨walk, paged, h⟩ := of_bind h
  cases h
  -- Either the roots have just been seeded, or the walk of the cursor goes on.
  have begun : Walked s s.clock t.edit.group context start ∧ (∀ r ∈ roots, r ∈ nodesOf start) ∧
      (s.remaining t = s.groups.length + 2 ∨ Store.page s.clock start ≠ [] ∧
        s.remaining t = 1 + (s.groups.length - (visitedOf start).length)) := by
    split at started
    · rename_i stale
      obtain ⟨seeded, all⟩ := seed_eq_ok started (by simp)
      have blank : Walked s s.clock t.edit.group context [] := ⟨by simp, by simp [nodesOf], by simp⟩
      refine ⟨blank.seeded seeded, all, .inl ?_⟩
      unfold Store.remaining
      split
      · rename_i c is
        rw [if_neg]
        rw [is] at stale
        simpa using stale
      · rfl
    · rename_i current
      cases started
      cases is : t.cursor with
      | none => simp [is] at current
      | some c =>
        have same : c.graphRevision = s.clock := by simpa [is] using current
        obtain ⟨criteria', context', names, contexts, checked⟩ := (tracks c is).2 same open'
        rw [within] at contexts
        cases contexts
        rw [defined] at names
        cases names
        have pending : c.ready = false := by
          cases c with
          | mk _ ready =>
            cases ready with
            | false => rfl
            | true =>
              simp only at same
              rw [same] at is
              exact absurd is unready
        refine ⟨checked.walked, named ▸ checked.rooted, .inr ⟨?_, ?_⟩⟩
        · intro empty
          have all := (page_isEmpty checked.walked.fresh).mp (List.isEmpty_iff.mpr empty)
          rw [checked.ready.mpr all] at pending
          cases pending
        · simp [Store.remaining, is, same, pending]
  obtain ⟨walked, rooted, left⟩ := begun
  obtain ⟨done, visits⟩ := pages_eq_ok paged walked
  refine ⟨walk, !!(Store.page s.clock walk).isEmpty, rfl, ⟨done, fun r mem => visits.kept (rooted r mem), ?_⟩, ?_⟩
  · rw [Bool.not_not]
    exact page_isEmpty done.fresh
  · have bound := visited_length done
    have here : s.remaining { t with walk := walk, cursor := some ⟨s.clock, !!(Store.page s.clock walk).isEmpty⟩ } ≤
        1 + (s.groups.length - (visitedOf walk).length) := by
      simp only [Store.remaining, if_true]
      split <;> omega
    rcases left with all | ⟨some, all⟩
    · omega
    · have grown := visited_grows walked some visits
      omega

end RssMdm.Groups
