/- module: WindowsMdm/Native/Readback
   source: crates/windows-mdm/src/native/resolved.rs, crates/windows-mdm/src/native/verification.rs
   digest: Readback expectations of a mutation against the native tree that its leaves leave behind. -/

import RssMdm.Lib.LastWrite
import RssMdm.WindowsMdm.Native.Dispatch
import RssMdm.WindowsMdm.Native.Identity

set_option autoImplicit false

namespace RssMdm.WindowsMdm.Native

open Lib.Fallible Lib.LastWrite Lib.Text
open List (append_assoc map_cons mem_append_right mem_cons_self mem_map)

/-- The URI is in the subtree of the other one and not that node itself. -/
def below (above uri : String) : Bool := startsWith uri (above ++ "/")

/-- What each URI of a device holds: nothing, a node without a value, or a node with one. What is
there is in a node that is there. -/
structure Tree where
  node : String → Option (Option String)
  closed : ∀ above uri, below above uri = true → node uri ≠ none → node above ≠ none

def Tree.empty : Tree := ⟨fun _ => none, fun _ _ _ there => there⟩

inductive Change where
  | set (uri : String) (data : Option String)
  | remove (uri : String)
deriving DecidableEq

def Change.uri : Change → String
  | .set uri _ => uri
  | .remove uri => uri

/-- A written node is there with all that it is in; a removed one takes its subtree with it. -/
def Change.act : Change → (String → Option (Option String)) → String → Option (Option String)
  | .set uri data, node, u =>
      if u = uri then some data else if below u uri then some ((node u).getD none) else node u
  | .remove uri, node, u => if u = uri || below uri u then none else node u

theorem below_trans {a b c : String} (first : below a b = true) (second : below b c = true) :
    below a c = true := by
  have inner := List.isPrefixOf_iff_prefix.mp second
  rw [String.toList_append] at inner
  exact List.isPrefixOf_iff_prefix.mpr
    ((List.isPrefixOf_iff_prefix.mp first).trans ((List.prefix_append _ _).trans inner))

theorem Change.act_closed (c : Change) (tree : Tree) (above uri : String)
    (inside : below above uri = true) (there : c.act tree.node uri ≠ none) :
    c.act tree.node above ≠ none := by
  have kept := tree.closed above uri inside
  cases c with
  | set written data =>
    simp only [Change.act] at there ⊢
    split
    · exact Option.some_ne_none _
    split
    · exact Option.some_ne_none _
    · rename_i outside
      have apart : uri ≠ written := fun same => outside (same ▸ inside)
      rw [if_neg apart, if_neg fun under => outside (below_trans inside under)] at there
      exact kept there
  | remove removed =>
    simp only [Change.act] at there ⊢
    split at there
    · exact absurd rfl there
    rename_i stays
    rw [if_neg]
    · exact kept there
    · intro reaches
      refine stays (Bool.or_eq_true_iff.mpr (.inr ?_))
      rcases Bool.or_eq_true_iff.mp reaches with same | under
      · exact of_decide_eq_true same ▸ inside
      · exact below_trans under inside

def Tree.apply (tree : Tree) (c : Change) : Tree := ⟨c.act tree.node, c.act_closed tree⟩

def intervalSuffix : String :=
  "/DeclaredConfiguration/ManagementServiceConfiguration/RefreshInterval"

/-- A write sets its node, a delete removes it; a deleted refresh interval has its default again. -/
def Leaf.change (env : Natives) (context : Context) (leaf : Leaf) : Option Change :=
  match leaf.operation with
  | .get => none
  | .exec => none
  | .delete => (leaf.compile env context).toOption.map fun op =>
      if leaf.document.isNone && endsWith leaf.node intervalSuffix then .set op.uri (some "240")
      else .remove op.uri
  | _ => (leaf.compile env context).toOption.map fun op => .set op.uri op.data

def changes (env : Natives) (context : Context) (leaves : List Leaf) : List Change :=
  leaves.filterMap (Leaf.change env context)

def execute (env : Natives) (context : Context) (tree : Tree) (leaves : List Leaf) : Tree :=
  (changes env context leaves).foldl Tree.apply tree

def Evidence.Holds (tree : Tree) (uri : String) : Evidence → Prop
  | .value data => tree.node uri = some (some data)
  | .present => tree.node uri ≠ none
  | .absent => tree.node uri = none
  | .declared _ _ => True

def writes (leaves : List Leaf) : List Leaf := leaves.filter (fun l => l.operation ≠ .get)

/-- A node that the URI is in is removed. -/
def Change.clears : Change → String → Bool
  | .remove uri, u => below uri u
  | .set _ _, _ => false

/-- A node in the subtree of the URI is written. -/
def Change.fills : Change → String → Bool
  | .set uri _, u => below u uri
  | .remove _, _ => false

/-- A node that the URI is in is removed, and nothing below the URI written after that. -/
def Emptied (uri : String) (after : List Change) : Prop :=
  ∃ mid d rest, after = mid ++ d :: rest ∧ d.clears uri = true ∧ ∀ e ∈ rest, e.fills uri = false

/-- What a change left at its node is still there after later changes of other nodes. -/
def Change.Lasts (after : List Change) : Change → Prop
  | .set uri (some _) => ∀ d ∈ after, d.clears uri = false
  | .set uri none => ¬Emptied uri after
  | .remove uri => (∀ d ∈ after, d.fills uri = false) ∨ Emptied uri after

/-- What the last operation on a node left there lasts to the end. -/
def Undisturbed (env : Natives) (context : Context) (leaves : List Leaf) : Prop :=
  ∀ (before : List Leaf) (leaf : Leaf) (after : List Leaf) (c : Change),
    writes leaves = before ++ leaf :: after → leaf.document = none →
    leaf.change env context = some c → (∀ d ∈ changes env context after, d.uri ≠ c.uri) →
    c.Lasts (changes env context after)

def Queries (env : Natives) (context : Context) (r : Request) (uri : String) : Prop :=
  ∃ node instances query, r = .node node instances .get none ∧
    Operation.compile env.nodes env.values node instances .get none context = .ok query ∧
    query.uri = uri

def Verification.ReadsOnce (env : Natives) (context : Context) (v : Verification) : Prop :=
  List.Forall₂ (Queries env context) v.request.leafRequests (v.expected.map Prod.fst) ∧
    (v.expected.map Prod.fst).Nodup

section

variable {env : Natives} {context : Context}

/-- What the plan keeps of one leaf, with what the leaf does. -/
structure Step where
  uri : String
  query : Request
  goal : Evidence
  change : Change

structure Plans (env : Natives) (context : Context) (leaf : Leaf) (s : Step) : Prop where
  acts : leaf.operation ≠ .get ∧ leaf.operation ≠ .exec
  goal : ∃ op node query, leaf.compile env context = .ok op ∧ leaf.goal op = some (node, s.goal) ∧
    Operation.compile env.nodes env.values node leaf.instances .get none context = .ok query ∧
    query.uri = s.uri ∧ s.query = .node node leaf.instances .get none
  change : leaf.change env context = some s.change

def planned (queries : Std.TreeMap String (Request × Evidence)) (steps : List Step) :
    Std.TreeMap String (Request × Evidence) :=
  steps.foldl (fun q s => q.insert s.uri (s.query, s.goal)) queries

theorem Leaf.change_isSome {leaf : Leaf} {op : Operation}
    (acts : leaf.operation ≠ .get ∧ leaf.operation ≠ .exec)
    (compiled : leaf.compile env context = .ok op) : ∃ c, leaf.change env context = some c := by
  obtain ⟨noGet, noExec⟩ := acts
  unfold Leaf.change
  split
  · contradiction
  · contradiction
  · rw [compiled]
    exact ⟨_, rfl⟩
  · rw [compiled]
    exact ⟨_, rfl⟩

theorem writes_cons (leaf : Leaf) (leaves : List Leaf) :
    writes (leaf :: leaves) =
      if leaf.operation = .get then writes leaves else leaf :: writes leaves := by
  unfold writes
  rw [List.filter_cons]
  by_cases get : leaf.operation = .get <;> simp [get]

variable {queries : Std.TreeMap String (Request × Evidence)}

theorem effectLoop_readback {leaves : List Leaf} {v : Verification}
    (h : effectLoop env context queries leaves = .ok (.readback v)) :
    ∃ steps, List.Forall₂ (Plans env context) (writes leaves) steps ∧
      readbackPlan (planned queries steps) = .readback v := by
  induction leaves generalizing queries with
  | nil => exact ⟨[], .nil, Except.ok.inj h⟩
  | cons leaf leaves ih =>
    rw [writes_cons]
    unfold effectLoop at h
    by_cases get : leaf.operation = .get
    · rw [if_pos get] at h ⊢
      exact ih h
    rw [if_neg get] at h ⊢
    split at h
    · cases h
    rename_i exec
    obtain ⟨op, compiled, h⟩ := of_bind h
    split at h
    · cases h
    rename_i node goal aims
    split at h
    · cases h
    rename_i query reads
    obtain ⟨c, changes⟩ := Leaf.change_isSome ⟨get, exec⟩ compiled
    obtain ⟨steps, all, plan⟩ := ih h
    refine ⟨⟨query.uri, .node node leaf.instances .get none, goal, c⟩ :: steps,
      .cons ⟨⟨get, exec⟩, ?_, changes⟩ all, plan⟩
    exact ⟨op, node, query, compiled, aims, reads, rfl, rfl⟩

theorem effectLoop_of_plans {leaves : List Leaf} {steps : List Step}
    (all : List.Forall₂ (Plans env context) (writes leaves) steps)
    (queries : Std.TreeMap String (Request × Evidence)) :
    effectLoop env context queries leaves = .ok (readbackPlan (planned queries steps)) := by
  induction leaves generalizing queries steps with
  | nil =>
    cases all
    rfl
  | cons leaf _ ih =>
    rw [writes_cons] at all
    unfold effectLoop
    by_cases get : leaf.operation = .get
    · rw [if_pos get] at all ⊢
      exact ih all queries
    rw [if_neg get] at all ⊢
    cases all with
    | @cons _ _ _ _ plans rest =>
      obtain ⟨op, node, query, compiled, aims, reads, uri, asks⟩ := plans.goal
      rw [if_neg plans.acts.2, compiled, ok_bind, aims]
      dsimp only
      rw [reads]
      dsimp only
      rw [ih rest, uri, ← asks]
      rfl

def Step.touch (s : Step) (u : String) : Option (Option (Request × Evidence)) :=
  if s.uri = u then some (some (s.query, s.goal)) else none

theorem getElem?_planned (queries : Std.TreeMap String (Request × Evidence)) (steps : List Step)
    (uri : String) :
    (planned queries steps)[uri]? = applyAll Step.touch (fun u => queries[u]?) steps uri := by
  induction steps generalizing queries with
  | nil => rfl
  | cons s steps ih =>
    have first : (fun u => (queries.insert s.uri (s.query, s.goal))[u]?) =
        apply Step.touch (fun u => queries[u]?) s := by
      funext u
      rw [Std.TreeMap.getElem?_insert, apply, Step.touch]
      by_cases same : s.uri = u
      · rw [if_pos (Std.LawfulEqOrd.compare_eq_iff_eq.mpr same), if_pos same]
        rfl
      · rw [if_neg (fun equal => same (Std.LawfulEqOrd.compare_eq_iff_eq.mp equal)),
          if_neg same]
        rfl
    rw [applyAll_cons, ← first]
    exact ih _

theorem readbackPlan_eq {v : Verification} (h : readbackPlan queries = .readback v) :
    v.expected = queries.toList.map (fun x => (x.1, x.2.2)) ∧
      (v.request = .sequence (queries.toList.map (fun x => x.2.1)) ∨
        ∃ uri goal, queries.toList = [(uri, v.request, goal)]) := by
  unfold readbackPlan at h
  split at h
  · cases h
  · rename_i uri query goal one
    cases h
    rw [one]
    exact ⟨rfl, .inr ⟨uri, goal, rfl⟩⟩
  · cases h
    exact ⟨rfl, .inl rfl⟩

end

section

variable {env : Natives} {context : Context} {steps : List Step}

theorem mem_planned {uri : String} {query : Request} {goal : Evidence} :
    (uri, query, goal) ∈ (planned ∅ steps).toList ↔
      ∃ before s after, steps = before ++ s :: after ∧ s.uri = uri ∧ s.query = query ∧
        s.goal = goal ∧ ∀ later ∈ after, later.uri ≠ uri := by
  rw [Std.TreeMap.mem_toList_iff_getElem?_eq_some, getElem?_planned]
  constructor
  · intro found
    have touched : ∃ s ∈ steps, (s.touch uri).isSome := by
      by_contra none
      rw [applyAll_untouched, Std.TreeMap.getElem?_emptyc] at found
      · cases found
      · intro s member
        by_contra some
        exact none ⟨s, member, Option.isSome_iff_ne_none.mpr some⟩
    obtain ⟨before, s, after, value, rfl, own, later⟩ := exists_last touched
    rw [applyAll_last own later] at found
    unfold Step.touch at own
    split at own
    · rename_i same
      cases own
      cases found
      refine ⟨before, s, after, rfl, same, rfl, rfl, ?_⟩
      intro other member differs
      have untouched := later other member
      rw [Step.touch, if_pos differs] at untouched
      cases untouched
    · cases own
  · rintro ⟨before, s, after, rfl, rfl, rfl, rfl, later⟩
    refine applyAll_last (if_pos rfl) ?_
    intro other member
    exact if_neg (later other member)

theorem mem_expected {v : Verification} (plan : readbackPlan (planned ∅ steps) = .readback v)
    {uri : String} {goal : Evidence} :
    (uri, goal) ∈ v.expected ↔ ∃ before s after, steps = before ++ s :: after ∧ s.uri = uri ∧
      s.goal = goal ∧ ∀ later ∈ after, later.uri ≠ uri := by
  rw [(readbackPlan_eq plan).1, mem_map]
  constructor
  · rintro ⟨⟨u, query, g⟩, member, same⟩
    cases same
    obtain ⟨before, s, after, rfl, own, -, aims, later⟩ := mem_planned.mp member
    exact ⟨before, s, after, rfl, own, aims, later⟩
  · rintro ⟨before, s, after, rfl, rfl, rfl, later⟩
    exact ⟨(s.uri, s.query, s.goal), mem_planned.mpr ⟨before, s, after, rfl, rfl, rfl, rfl, later⟩,
      rfl⟩

theorem leavesOf_queries {rs : List Request} {uris : List String}
    (queries : List.Forall₂ (Queries env context) rs uris) : leavesOf rs = rs := by
  induction queries with
  | nil => rfl
  | cons query _ ih =>
    obtain ⟨node, instances, -, rfl, -⟩ := query
    rw [leavesOf, ih]
    rfl

theorem readsOnce {leaves : List Leaf} {v : Verification}
    (all : List.Forall₂ (Plans env context) (writes leaves) steps)
    (plan : readbackPlan (planned ∅ steps) = .readback v) : v.ReadsOnce env context := by
  have entries : ∀ x ∈ (planned ∅ steps).toList, Queries env context x.2.1 x.1 := by
    rintro ⟨uri, query, goal⟩ member
    obtain ⟨before, s, after, rfl, rfl, rfl, -⟩ := mem_planned.mp member
    obtain ⟨leaf, -, plans⟩ := exists_left_of_mem all (mem_append_right before
      mem_cons_self)
    obtain ⟨-, node, read, -, -, reads, uri, asks⟩ := plans.goal
    exact ⟨node, leaf.instances, read, asks, reads, uri⟩
  have queries : List.Forall₂ (Queries env context) ((planned ∅ steps).toList.map (fun x => x.2.1))
      ((planned ∅ steps).toList.map Prod.fst) := by
    rw [List.forall₂_map_left_iff, List.forall₂_map_right_iff, List.forall₂_same]
    exact entries
  obtain ⟨expected, request⟩ := readbackPlan_eq plan
  have keys : v.expected.map Prod.fst = (planned ∅ steps).toList.map Prod.fst := by
    rw [expected, List.map_map]
    rfl
  refine ⟨?_, ?_⟩
  · rw [keys]
    rcases request with sequence | ⟨uri, goal, one⟩
    · rw [sequence, Request.leafRequests, leavesOf_queries queries]
      exact queries
    rw [one] at queries ⊢
    have single := queries
    rw [List.map_singleton] at single
    have same := leavesOf_queries single
    rw [leavesOf, leavesOf, List.append_nil] at same
    rw [same]
    exact queries
  · rw [keys, List.Nodup, List.pairwise_map]
    refine List.Pairwise.imp ?_ Std.TreeMap.distinct_keys_toList
    intro a b differs same
    exact differs (Std.LawfulEqOrd.compare_eq_iff_eq.mpr same)

end

section

variable {env : Natives} {context : Context}

/-- The two parts of the source's rule that declared configuration stands alone. -/
structure Coherent (leaves : List Leaf) : Prop where
  document : ∀ l ∈ leaves, l.document ≠ none →
    declaredNode l.node = true ∧ "/Documents/*/Document".toList <:+ l.node.toList
  interval : ∀ l ∈ leaves, l.document = none → declaredNode l.node = true → l.node = refreshInterval
  alone : (∀ l ∈ leaves, declaredNode l.node = true) ∨ ∀ l ∈ leaves, declaredNode l.node = false

variable {instances : List String}

theorem resolveNode_document {node : String} {operation : Verb} {value : Option Value}
    {x : Resolution} (h : resolveNode env node instances operation value = .ok x) :
    x.leaf.node = node ∧ x.leaf.operation = operation ∧
      (x.leaf.document ≠ none →
        declaredNode node = true ∧ "/Documents/*/Document".toList <:+ node.toList) ∧
      (x.leaf.document = none → declaredNode node = true → operation ≠ .get →
        node = refreshInterval) := by
  obtain ⟨selected, -, h⟩ := of_bind h
  rw [guard_eq_ok] at h
  obtain ⟨uri, -, h⟩ := of_bind h.2
  dsimp only at h
  split at h
  · rename_i declared
    split at h
    · rename_i address
      have ends := List.isSuffixOf_iff_suffix.mp (Bool.and_eq_true_iff.mp address).1
      unfold resolveDocument at h
      split at h
      · obtain ⟨document, -, h⟩ := of_bind h
        obtain ⟨id, -, h⟩ := of_bind h
        simp only [guard_eq_ok] at h
        obtain ⟨uri, identified, rest⟩ := of_bind h.2.2.2
        obtain ⟨resources, embeds, done⟩ := of_bind rest
        cases done
        exact ⟨rfl, rfl, fun _ => ⟨declared, ends⟩, fun none => by cases none⟩
      · cases h
    · split at h
      · rename_i interval
        cases h
        exact ⟨rfl, rfl, fun some => absurd rfl some, fun _ _ _ => interval⟩
      · split at h
        · rename_i result
          have get : operation = .get := by
            simp only [Bool.and_eq_true, decide_eq_true_eq] at result
            exact result.1.2
          obtain ⟨id, -, h⟩ := of_bind h
          rw [guard_eq_ok] at h
          obtain ⟨canonical, identified, done⟩ := of_bind h.2
          cases done
          exact ⟨rfl, rfl, fun some => absurd rfl some, fun _ _ other => absurd get other⟩
        · cases h
  · rename_i ordinary
    obtain ⟨targets, -, h⟩ := of_bind h
    cases h
    exact ⟨rfl, rfl, fun some => absurd rfl some, fun _ declared => absurd declared ordinary⟩

theorem Request.resolve_coherent {r : Request} {resolved : Resolved}
    (h : r.resolve env = .ok resolved) : Coherent (writes resolved.leaves) := by
  have kept : ∀ l ∈ writes resolved.leaves, l ∈ resolved.leaves ∧ l.operation ≠ .get := by
    intro l member
    obtain ⟨inside, acts⟩ := List.mem_filter.mp member
    exact ⟨inside, of_decide_eq_true acts⟩
  have known : ∀ l ∈ writes resolved.leaves,
      (l.document ≠ none →
        declaredNode l.node = true ∧ "/Documents/*/Document".toList <:+ l.node.toList) ∧
      (l.document = none → declaredNode l.node = true → l.node = refreshInterval) := by
    intro l member
    obtain ⟨inside, acts⟩ := kept l member
    obtain ⟨-, done, related, leaves, -⟩ := Request.resolve_eq_ok h
    rw [leaves] at inside
    obtain ⟨x, found, rfl⟩ := mem_map.mp inside
    obtain ⟨request, -, resolves⟩ := exists_left_of_mem related found
    cases request with
    | node =>
      obtain ⟨own, verb, documents, interval⟩ := resolveNode_document resolves
      rw [own]
      exact ⟨documents, fun none declared => interval none declared (verb ▸ acts)⟩
    | atomic | sequence => exact absurd resolves id
  refine ⟨fun l member => (known l member).1, fun l member => (known l member).2, ?_⟩
  obtain ⟨-, -, h⟩ := of_bind h
  obtain ⟨done, -, h⟩ := of_bind h
  dsimp only at h
  rw [guard_eq_ok] at h
  obtain ⟨unmixed, h⟩ := h
  cases h
  by_cases declared : (done.map Resolution.leaf).any (fun l => declaredNode l.node) = true
  · refine .inl fun l member => ?_
    by_contra ordinary
    have other : (done.map Resolution.leaf).any (fun l => !declaredNode l.node) = true :=
      List.any_eq_true.mpr ⟨l, (kept l member).1, by simpa using ordinary⟩
    exact unmixed (Bool.and_eq_true_iff.mpr ⟨declared, other⟩)
  · refine .inr fun l member => ?_
    by_contra some
    exact declared (List.any_eq_true.mpr ⟨l, (kept l member).1, by simpa using some⟩)

theorem changes_eq {leaves : List Leaf} {steps : List Step}
    (all : List.Forall₂ (Plans env context) leaves steps) :
    changes env context leaves = steps.map Step.change := by
  induction all with
  | nil => rfl
  | cons plans _ ih => rw [changes, List.filterMap_cons_some plans.change, ← changes, ih, map_cons]

theorem changes_writes (leaves : List Leaf) :
    changes env context (writes leaves) = changes env context leaves := by
  induction leaves with
  | nil => rfl
  | cons leaf leaves ih =>
    rw [writes_cons]
    split
    · rename_i get
      have nothing : leaf.change env context = none := by rw [Leaf.change, get]
      rw [ih, changes, changes, List.filterMap_cons_none nothing]
    · rw [changes, changes, List.filterMap_cons, List.filterMap_cons, ← changes, ih]
      rfl

variable {leaf : Leaf}

theorem Leaf.compile_plain (own : leaf.document = none) : leaf.compile env context =
      Operation.compile env.nodes env.values leaf.node leaf.instances leaf.operation leaf.value
        context := by
  rw [Leaf.compile, Leaf.input, own]
  rfl

theorem Leaf.compile_identity {op : Operation} (h : leaf.compile env context = .ok op) :
    identity leaf.node leaf.instances = .ok op.uri := by
  obtain ⟨value, -, h⟩ := of_bind h
  exact (Operation.compile_eq_ok h).2.1

/-- What a change leaves at its node. -/
def Change.goal : Change → Evidence
  | .set _ (some data) => .value data
  | .set _ none => .present
  | .remove _ => .absent

theorem Plans.owned {s : Step} (plans : Plans env context leaf s) (own : leaf.document = none) :
    s.change.uri = s.uri ∧ s.goal = s.change.goal := by
  obtain ⟨op, node, query, compiled, aims, reads, uri, -⟩ := plans.goal
  have changes := plans.change
  rw [Leaf.goal, own] at aims
  dsimp only at aims
  have same : node = leaf.node → op.uri = s.uri := by
    rintro rfl
    have read := (Operation.compile_eq_ok reads).2.1
    rw [uri, Leaf.compile_identity compiled] at read
    exact Except.ok.inj read
  by_cases delete : leaf.operation = .delete
  · rw [Leaf.change, delete, compiled, own] at changes
    rw [if_pos delete] at aims
    dsimp only [Except.toOption, Option.map_some, Option.isNone_none] at changes
    split at aims
    · rename_i interval
      have ends : (true && endsWith leaf.node intervalSuffix) = true := interval
      obtain ⟨here, goal⟩ := Prod.mk.inj (Option.some.inj aims)
      rw [if_pos ends] at changes
      rw [← Option.some.inj changes, ← goal]
      exact ⟨same here.symm, rfl⟩
    · rename_i other
      have ends : ¬ (true && endsWith leaf.node intervalSuffix) = true := other
      rw [if_neg ends] at changes
      split at aims
      · cases aims
      · obtain ⟨here, goal⟩ := Prod.mk.inj (Option.some.inj aims)
        rw [← Option.some.inj changes, ← goal]
        exact ⟨same here.symm, rfl⟩
  · rw [if_neg delete] at aims
    obtain ⟨here, goal⟩ := Prod.mk.inj (Option.some.inj aims)
    have sets : leaf.change env context = some (.set op.uri op.data) := by
      unfold Leaf.change
      split
      · exact absurd ‹_› plans.acts.1
      · exact absurd ‹_› plans.acts.2
      · exact absurd ‹_› delete
      · rw [compiled]
        rfl
    rw [sets] at changes
    rw [← Option.some.inj changes, ← goal]
    refine ⟨same here.symm, ?_⟩
    cases op.data <;> rfl

/-- The step of a document has an expectation that the tree does not speak of; both of its URIs end
in the document component. -/
structure Filed (s : Step) : Prop where
  goal : ∃ document operation, s.goal = .declared document operation
  read : "Document".toList <:+ s.uri.toList
  written : "Document".toList <:+ s.change.uri.toList

theorem identity_document {template uri : String} (h : identity template instances = .ok uri)
    (ends : "*/Document".toList <:+ template.toList) :
    "Document".toList <:+ uri.toList := by
  obtain ⟨start, whole⟩ := ends
  have split : template.toList = (start ++ ['*']) ++ '/' :: "Document".toList := by
    rw [← whole, append_assoc]
    exact congrArg (start ++ ·) (by decide)
  exact identity_last h split (by decide) (by decide)

theorem Leaf.change_uri {c : Change} (h : leaf.change env context = some c) :
    identity leaf.node leaf.instances = .ok c.uri := by
  have compiles : ∀ {f : Operation → Change}, (∀ op, (f op).uri = op.uri) →
      (leaf.compile env context).toOption.map f = some c →
      identity leaf.node leaf.instances = .ok c.uri := by
    intro f keeps made
    obtain ⟨op, some, rfl⟩ := Option.map_eq_some_iff.mp made
    cases compiled : leaf.compile env context with
    | error =>
      rw [compiled] at some
      cases some
    | ok =>
      rw [compiled] at some
      cases some
      rw [keeps]
      exact Leaf.compile_identity compiled
  unfold Leaf.change at h
  split at h
  · cases h
  · cases h
  · refine compiles (fun op => ?_) h
    split <;> rfl
  · exact compiles (fun op => rfl) h

theorem Plans.filed {leaf : Leaf} {s : Step} (plans : Plans env context leaf s)
    (document : leaf.document ≠ none)
    (ends : "/Documents/*/Document".toList <:+ leaf.node.toList) : Filed s := by
  obtain ⟨op, node, query, compiled, aims, reads, uri, -⟩ := plans.goal
  obtain ⟨d, filed⟩ := Option.ne_none_iff_exists'.mp document
  rw [Leaf.goal, filed] at aims
  have aim := Option.some.inj aims
  have address : node = replaceFirst leaf.node "/Documents/" "/Results/" :=
    (congrArg Prod.fst aim).symm
  obtain ⟨start, whole⟩ := ends
  have parts : leaf.node.toList = start ++ "/Documents/".toList ++ "*/Document".toList := by
    rw [← whole, append_assoc]
    exact congrArg (start ++ ·) (by decide)
  refine ⟨⟨d, _, (congrArg Prod.snd aim).symm⟩, ?_, ?_⟩
  · have read := (Operation.compile_eq_ok reads).2.1
    rw [uri] at read
    refine identity_document read ?_
    have replaced : node.toList =
        replaceFirstIn "/Documents/".toList "/Results/".toList leaf.node.toList := by
      rw [address]
      exact String.toList_ofList
    rw [replaced, parts]
    exact replaceFirstIn_suffix "/Documents/".toList "/Results/".toList start "*/Document".toList
      (by decide)
  · refine identity_document (Leaf.change_uri plans.change) ?_
    rw [parts]
    exact List.suffix_append _ _

theorem identity_interval {uri : String} (h : identity refreshInterval instances = .ok uri) :
    uri = refreshInterval := by
  obtain ⟨parts, spelled, -⟩ := identity_eq_ok h
  have none : [] = instances := spelled.of_no_star (by decide)
  have fixed : identity refreshInterval [] = .ok refreshInterval := by rfl
  rw [← none, fixed] at h
  exact (Except.ok.inj h).symm

theorem interval_suffix : ¬ "Document".toList <:+ refreshInterval.toList := by
  intro ends
  have found : endsWith refreshInterval "Document" = true := List.isSuffixOf_iff_suffix.mpr ends
  have none : endsWith refreshInterval "Document" = false := by decide
  rw [none] at found
  cases found

end

section

variable {tree : Tree} {c : Change} {after : List Change} {uri : String}

theorem Change.act_apart (apart : c.uri ≠ uri) (node : String → Option (Option String)) :
    c.act node uri = if c.clears uri then none
      else if c.fills uri then some ((node uri).getD none) else node uri := by
  cases c with
  | set written =>
    have other : uri ≠ written := fun same => apart same.symm
    rw [Change.act, if_neg other]
    rfl
  | remove removed =>
    have other : uri ≠ removed := fun same => apart same.symm
    simp [Change.act, Change.clears, Change.fills, other]

theorem emptied_cons : Emptied uri (c :: after) ↔
    (c.clears uri = true ∧ ∀ d ∈ after, d.fills uri = false) ∨ Emptied uri after := by
  constructor
  · rintro ⟨mid, d, rest, whole, clears, quiet⟩
    cases mid with
    | nil =>
      cases whole
      exact .inl ⟨clears, quiet⟩
    | cons =>
      cases whole
      exact .inr ⟨_, d, rest, rfl, clears, quiet⟩
  · rintro (⟨clears, quiet⟩ | ⟨mid, d, rest, rfl, clears, quiet⟩)
    · exact ⟨[], c, after, rfl, clears, quiet⟩
    · exact ⟨c :: mid, d, rest, rfl, clears, quiet⟩

theorem value_iff {data : String} (apart : ∀ d ∈ after, d.uri ≠ uri) :
    (after.foldl Tree.apply tree).node uri = some (some data) ↔
      tree.node uri = some (some data) ∧ ∀ d ∈ after, d.clears uri = false := by
  induction after generalizing tree with
  | nil => simp
  | cons d ds ih =>
    rw [List.foldl_cons, ih (fun e mem => apart e (List.mem_cons_of_mem d mem)), List.forall_mem_cons,
      ← and_assoc]
    refine and_congr_left fun _ => ?_
    show d.act tree.node uri = _ ↔ _
    rw [Change.act_apart (apart d mem_cons_self)]
    cases d.clears uri <;> cases d.fills uri <;> cases tree.node uri <;> simp

theorem none_iff (apart : ∀ d ∈ after, d.uri ≠ uri) :
    (after.foldl Tree.apply tree).node uri = none ↔
      (tree.node uri = none ∧ ∀ d ∈ after, d.fills uri = false) ∨ Emptied uri after := by
  induction after generalizing tree with
  | nil => simp [Emptied]
  | cons d ds ih =>
    rw [List.foldl_cons, ih (fun e mem => apart e (List.mem_cons_of_mem d mem)), List.forall_mem_cons,
      emptied_cons]
    show d.act tree.node uri = _ ∧ _ ∨ _ ↔ _
    rw [Change.act_apart (apart d mem_cons_self)]
    cases d.clears uri <;> cases d.fills uri <;> simp
    tauto

/-- Whatever the tree was before, what the change left at its node is there in the end exactly when
it lasts. -/
theorem holds_iff (before : List Change) (apart : ∀ d ∈ after, d.uri ≠ c.uri) :
    c.goal.Holds ((before ++ c :: after).foldl Tree.apply tree) c.uri ↔ c.Lasts after := by
  rw [List.foldl_append, List.foldl_cons]
  cases c with
  | set uri data =>
    have written : ∀ {tree : Tree}, (tree.apply (.set uri data)).node uri = some data := if_pos rfl
    cases data with
    | some data =>
      refine (value_iff apart).trans ?_
      rw [Change.uri, written]
      exact and_iff_right rfl
    | none =>
      refine (not_congr (none_iff apart)).trans (not_congr (or_iff_right ?_))
      rw [Change.uri, written]
      rintro ⟨gone, -⟩
      cases gone
  | remove uri =>
    have removed : ∀ {tree : Tree}, (tree.apply (.remove uri)).node uri = none :=
      if_pos (Bool.or_eq_true_iff.mpr (.inl (decide_eq_true rfl)))
    refine (none_iff apart).trans (or_congr_left ?_)
    rw [Change.uri, removed]
    exact and_iff_right rfl

variable {env : Natives} {context : Context} {y x : Leaf} {leaves : List Leaf}

theorem Coherent.interval_of_document (coherent : Coherent leaves) (inX : x ∈ leaves)
    (inY : y ∈ leaves) (document : x.document ≠ none) (own : y.document = none) :
    y.node = refreshInterval := by
  have declared := (coherent.document x inX document).1
  rcases coherent.alone with every | no
  · exact coherent.interval y inY own (every y inY)
  · rw [no x inX] at declared
    cases declared

/-- An operation is on the node of a leaf exactly when its query is. -/
theorem key_iff (coherent : Coherent leaves) {s : Step} (inX : x ∈ leaves) (inY : y ∈ leaves)
    (plans : Plans env context x s) (own : y.document = none)
    (identified : identity y.node y.instances = .ok uri) : s.uri = uri ↔ s.change.uri = uri := by
  by_cases document : x.document = none
  · rw [(plans.owned document).1]
  have filed := plans.filed document (coherent.document x inX document).2
  rw [coherent.interval_of_document inX inY document own] at identified
  rw [identity_interval identified]
  refine iff_of_false (fun same => ?_) (fun same => ?_)
  · exact interval_suffix (same ▸ filed.read)
  · exact interval_suffix (same ▸ filed.written)

section

variable {before after : List Step} {first second : List Leaf} {s : Step} {v : Verification}
  (coherent : Coherent (first ++ x :: second)) (plans : Plans env context x s)
  (rest : List.Forall₂ (Plans env context) second after) (own : x.document = none)

include coherent plans rest own

theorem later_iff : (∀ t ∈ after, t.uri ≠ s.uri) ↔
    ∀ d ∈ after.map Step.change, d.uri ≠ s.change.uri := by
  have here := (plans.owned own).1
  have identified := Leaf.change_uri plans.change
  rw [List.forall_mem_map, here]
  rw [here] at identified
  refine forall₂_congr fun t inside => ?_
  obtain ⟨l, found, plansT⟩ := exists_left_of_mem rest inside
  exact not_congr (key_iff coherent (mem_append_right first (List.mem_cons_of_mem x found))
    (mem_append_right first (.head _)) plansT own identified)

theorem lasts_iff (last : ∀ t ∈ after, t.uri ≠ s.uri) (tree : Tree) :
    s.goal.Holds (((before ++ s :: after).map Step.change).foldl Tree.apply tree) s.uri ↔
      s.change.Lasts (after.map Step.change) := by
  obtain ⟨here, goal⟩ := plans.owned own
  rw [List.map_append, map_cons, goal, ← here]
  exact holds_iff _ ((later_iff coherent plans rest own).mp last)

end

theorem execute_eq {steps : List Step} (all : List.Forall₂ (Plans env context) (writes leaves) steps)
    (tree : Tree) :
    execute env context tree leaves = (steps.map Step.change).foldl Tree.apply tree := by
  rw [execute, ← changes_writes, changes_eq all]

theorem undisturbed_of_holds {steps : List Step} {v : Verification}
    (coherent : Coherent (writes leaves))
    (all : List.Forall₂ (Plans env context) (writes leaves) steps)
    (plan : readbackPlan (planned ∅ steps) = .readback v) {tree : Tree}
    (holds : ∀ x ∈ v.expected, x.2.Holds (execute env context tree leaves) x.1) :
    Undisturbed env context leaves := by
  intro first leaf second c whole own made apart
  rw [execute_eq all] at holds
  rw [whole] at all coherent
  obtain ⟨before, s, after, rfl, -, plans, rest⟩ := forall₂_split all.flip
  have plans : Plans env context leaf s := plans
  have rest : List.Forall₂ (Plans env context) second after := rest.flip
  cases plans.change.symm.trans made
  rw [changes_eq rest] at apart ⊢
  have last := (later_iff coherent plans rest own).mpr apart
  exact (lasts_iff coherent plans rest own last tree).mp (holds (s.uri, s.goal)
    ((mem_expected plan).mpr ⟨before, s, after, rfl, rfl, rfl, last⟩))

theorem holds_of_undisturbed {steps : List Step} {v : Verification}
    (coherent : Coherent (writes leaves))
    (all : List.Forall₂ (Plans env context) (writes leaves) steps)
    (plan : readbackPlan (planned ∅ steps) = .readback v)
    (undisturbed : Undisturbed env context leaves) (tree : Tree) {goal : Evidence}
    (member : (uri, goal) ∈ v.expected) :
    goal.Holds (execute env context tree leaves) uri := by
  rw [execute_eq all]
  obtain ⟨before, s, after, rfl, rfl, rfl, last⟩ := (mem_expected plan).mp member
  obtain ⟨first, leaf, second, whole, -, plans, rest⟩ := forall₂_split all
  rw [whole] at coherent
  by_cases own : leaf.document = none
  · refine (lasts_iff coherent plans rest own last tree).mpr ?_
    have lasts := undisturbed first leaf second s.change whole own plans.change
    rw [changes_eq rest] at lasts
    exact lasts ((later_iff coherent plans rest own).mp last)
  · have inside : leaf ∈ first ++ leaf :: second := mem_append_right first (.head _)
    obtain ⟨document, operation, aims⟩ := (plans.filed own (coherent.document leaf inside own).2).goal
    rw [aims]
    trivial

/-- Executing the leaves of a request leaves everything that its readback plan expects, each URI of
which the plan reads once, exactly when what the last operation on a node left there lasts. -/
theorem readback_matches (env : Natives) (context : Context) (r : Request) (resolved : Resolved)
    (v : Verification) (resolves : r.resolve env = .ok resolved)
    (plan : effect env resolved.leaves context = .ok (.readback v)) :
    ((∀ tree, ∀ x ∈ v.expected, x.2.Holds (execute env context tree resolved.leaves) x.1) ∧
      v.ReadsOnce env context) ↔ Undisturbed env context resolved.leaves := by
  obtain ⟨steps, all, made⟩ := effectLoop_readback plan
  have coherent := Request.resolve_coherent resolves
  constructor
  · rintro ⟨holds, -⟩
    exact undisturbed_of_holds coherent all made (holds .empty)
  · intro undisturbed
    refine ⟨fun tree x member => ?_, readsOnce all made⟩
    exact holds_of_undisturbed coherent all made undisturbed tree member

end

/-- Two rows of the generated table. -/
def firewallRule : Node :=
  { path := "./Vendor/MSFT/Firewall/MdmStore/FirewallRules/*", preview := false,
    boundedBranches := false, certificateBuilds := [], format := .node, access := 15,
    builds := [⟨10, 0, 16299, 0⟩], editions := some ["0x4", "0x1B"], mime := "",
    lifetime := "Dynamic", atomic := true, constraints := [] }

def firewallRuleName : Node :=
  { firewallRule with
    path := "./Vendor/MSFT/Firewall/MdmStore/FirewallRules/*/Name", format := .text,
    atomic := false }

/-- Text values stand for themselves. -/
def firewallNatives : Natives :=
  { sampleNatives with
    nodes := [firewallRule, firewallRuleName]
    values := fun _ _ value _ =>
      match value with
      | none => .ok none
      | some (.text data) => .ok (some data)
      | some _ => .error .value }

def ruleUri : String := "./Vendor/MSFT/Firewall/MdmStore/FirewallRules/web"

def nameUri (rule : String) : String :=
  "./Vendor/MSFT/Firewall/MdmStore/FirewallRules/" ++ rule ++ "/Name"

def nameLeaf (rule : String) : Leaf :=
  ⟨firewallRuleName.path, [rule], .replace, some (.text "Web"), none, []⟩

def ruleLeaf : Leaf := ⟨firewallRule.path, ["web"], .delete, none, none, []⟩

def Leaf.asked (leaf : Leaf) : Request :=
  .node leaf.node leaf.instances leaf.operation leaf.value

theorem firewallRule_known : schema firewallNatives.nodes firewallRule.path = .ok firewallRule := by
  rfl

theorem firewallRuleName_known :
    schema firewallNatives.nodes firewallRuleName.path = .ok firewallRuleName := by
  rfl

theorem identity_rule : identity firewallRule.path ["web"] = .ok ruleUri := by rfl

theorem firewall_compiles {node : Node} {rule uri : String} (verb : Verb) (value : Option Value)
    (data : Option String) (known : schema firewallNatives.nodes node.path = .ok node)
    (channel : scopeOf node.path = .device) (identified : identity node.path [rule] = .ok uri)
    (checked : node.check (sampleContext .primary) = .ok ()) (allowed : permits node verb = true)
    (valued : firewallNatives.values node verb value (sampleContext .primary) = .ok data) :
    Operation.compile firewallNatives.nodes firewallNatives.values node.path [rule] verb value
      (sampleContext .primary) = .ok ⟨node, verb, uri, data⟩ :=
  Operation.compile_of known channel identified checked allowed valued

def nameStep (rule : String) : Step where
  uri := nameUri rule
  query := .node firewallRuleName.path [rule] .get none
  goal := .value "Web"
  change := .set (nameUri rule) (some "Web")

def ruleStep : Step where
  uri := ruleUri
  query := .node firewallRule.path ["web"] .get none
  goal := .absent
  change := .remove ruleUri

section

variable {rule : String} (identity_name : identity firewallRuleName.path [rule] = .ok (nameUri rule))

include identity_name

theorem name_plans : Plans firewallNatives (sampleContext .primary) (nameLeaf rule) (nameStep rule) := by
  have checked : firewallRuleName.check (sampleContext .primary) = .ok () := by rfl
  have channel : scopeOf firewallRuleName.path = .device := by decide
  have written : (nameLeaf rule).compile firewallNatives (sampleContext .primary) =
      .ok ⟨firewallRuleName, .replace, nameUri rule, some "Web"⟩ :=
    (Leaf.compile_plain rfl).trans (firewall_compiles .replace (some (.text "Web")) (some "Web")
      firewallRuleName_known channel identity_name checked (by decide) rfl)
  have read := firewall_compiles .get none none firewallRuleName_known channel identity_name
    checked (by decide) rfl
  refine ⟨⟨nofun, nofun⟩, ⟨_, _, _, written, rfl, read, rfl, rfl⟩, ?_⟩
  rw [Leaf.change, written]
  rfl

omit identity_name in
theorem rule_plans : Plans firewallNatives (sampleContext .primary) ruleLeaf ruleStep := by
  have checked : firewallRule.check (sampleContext .primary) = .ok () := by rfl
  have channel : scopeOf firewallRule.path = .device := by decide
  have deleted : ruleLeaf.compile firewallNatives (sampleContext .primary) =
      .ok ⟨firewallRule, .delete, ruleUri, none⟩ :=
    (Leaf.compile_plain rfl).trans (firewall_compiles .delete none none firewallRule_known channel
      identity_rule checked (by decide) rfl)
  have read := firewall_compiles .get none none firewallRule_known channel identity_rule checked
    (by decide) rfl
  have interval : endsWith ruleLeaf.node intervalSuffix = false := by decide
  have policy : contains ruleLeaf.node "/Policy/Config/" = false := by decide
  refine ⟨⟨nofun, nofun⟩, ⟨_, firewallRule.path, _, deleted, ?_, read, rfl, rfl⟩, ?_⟩
  · have goal : ruleLeaf.goal ⟨firewallRule, .delete, ruleUri, none⟩ =
        if endsWith ruleLeaf.node intervalSuffix then some (ruleLeaf.node, .value "240")
        else if contains ruleLeaf.node "/Policy/Config/" || firewallRule.lifetime ≠ "Dynamic" then
          none
        else some (ruleLeaf.node, .absent) := rfl
    rw [goal, interval, policy]
    rfl
  · have change : ruleLeaf.change firewallNatives (sampleContext .primary) =
        (ruleLeaf.compile firewallNatives (sampleContext .primary)).toOption.map fun op =>
          if ruleLeaf.document.isNone && endsWith ruleLeaf.node intervalSuffix then
            .set op.uri (some "240")
          else .remove op.uri := rfl
    rw [change, deleted, interval]
    rfl

def renamed (rule : String) : Request := .atomic [(nameLeaf rule).asked, ruleLeaf.asked]

theorem renamed_resolves : ∃ resolved, (renamed rule).resolve firewallNatives = .ok resolved ∧
    resolved.leaves = [nameLeaf rule, ruleLeaf] := by
  have plainName : declaredNode firewallRuleName.path = false := by decide
  have plainRule : declaredNode firewallRule.path = false := by decide
  obtain ⟨names, first⟩ := resolveNode_plain firewallRuleName_known
    (show permits firewallRuleName .replace = true by decide) identity_name plainName
    (some (.text "Web"))
  obtain ⟨rules, second⟩ := resolveNode_plain firewallRule_known
    (show permits firewallRule .delete = true by decide) identity_rule plainRule none
  have counted : (renamed rule).commandCount = .ok 3 := rfl
  have loop : resolveLoop firewallNatives (renamed rule).size [renamed rule] [] =
      .ok [⟨nameLeaf rule, [.csp (scopeOf firewallRuleName.path) (nameUri rule)], names⟩,
        ⟨ruleLeaf, [.csp (scopeOf firewallRule.path) ruleUri], rules⟩] := by
    have size : (renamed rule).size = 3 := rfl
    rw [size, renamed, resolveLoop, nameLeaf, ruleLeaf, Leaf.asked, Leaf.asked]
    dsimp only [List.cons_append, List.nil_append]
    rw [resolveLoop, first, ok_bind, resolveLoop, second, ok_bind]
    rfl
  have plain : [nameLeaf rule, ruleLeaf].any (fun l => declaredNode l.node) = false := by
    rw [List.any_cons, List.any_cons, nameLeaf, ruleLeaf, plainName, plainRule]
    rfl
  rw [Request.resolve, counted, loop]
  simp only [ok_bind, map_cons, List.map_nil, plain, Bool.false_and, Bool.false_eq_true,
    if_false]
  exact ⟨_, rfl, rfl⟩

omit identity_name in
theorem readbackPlan_cases (queries : Std.TreeMap String (Request × Evidence)) :
    readbackPlan queries = .readOnly ∧ queries.toList = [] ∨
      ∃ v, readbackPlan queries = .readback v := by
  unfold readbackPlan
  split
  · rename_i none
    exact .inl ⟨rfl, none⟩
  · exact .inr ⟨_, rfl⟩
  · exact .inr ⟨_, rfl⟩

theorem renamed_plans : List.Forall₂ (Plans firewallNatives (sampleContext .primary))
    (writes [nameLeaf rule, ruleLeaf]) [nameStep rule, ruleStep] :=
  .cons (name_plans identity_name) (.cons rule_plans .nil)

theorem renamed_readback : ∃ v,
    effect firewallNatives [nameLeaf rule, ruleLeaf] (sampleContext .primary) = .ok (.readback v) := by
  rw [effect, effectLoop_of_plans (renamed_plans identity_name)]
  rcases readbackPlan_cases (planned ∅ [nameStep rule, ruleStep]) with ⟨-, none⟩ | ⟨v, plan⟩
  · have some : (ruleUri, ruleStep.query, ruleStep.goal) ∈
        (planned ∅ [nameStep rule, ruleStep]).toList :=
      mem_planned.mpr ⟨[nameStep rule], ruleStep, [], rfl, rfl, rfl, rfl,
        fun later member => nomatch member⟩
    rw [none] at some
    exact nomatch some
  · exact ⟨v, congrArg Except.ok plan⟩

/-- Only a deletion above the name disturbs it. -/
theorem renamed_undisturbed (other : nameUri rule ≠ ruleUri) :
    Undisturbed firewallNatives (sampleContext .primary) [nameLeaf rule, ruleLeaf] ↔
      below ruleUri (nameUri rule) = false := by
  have names := (name_plans identity_name).change
  have rules := rule_plans.change
  have after : changes firewallNatives (sampleContext .primary) [ruleLeaf] = [.remove ruleUri] := by
    rw [changes, List.filterMap_cons_some rules]
    rfl
  constructor
  · intro undisturbed
    have lasts := undisturbed [] (nameLeaf rule) [ruleLeaf] _ rfl rfl names
    rw [after] at lasts
    refine lasts (fun d inside => ?_) _ mem_cons_self
    cases List.mem_singleton.mp inside
    exact other.symm
  · intro outside before leaf later c whole _ made _
    have whole : [nameLeaf rule, ruleLeaf] = before ++ leaf :: later := whole
    cases before with
    | nil =>
      cases whole
      cases names.symm.trans made
      rw [after]
      intro d inside
      cases List.mem_singleton.mp inside
      exact outside
    | cons _ before =>
      cases before with
      | nil =>
        cases whole
        cases rules.symm.trans made
        exact .inl (fun d inside => by cases inside)
      | cons _ before =>
        cases before <;> cases whole

end

theorem identity_web : identity firewallRuleName.path ["web"] = .ok (nameUri "web") := by rfl

theorem identity_mail : identity firewallRuleName.path ["mail"] = .ok (nameUri "mail") := by rfl

/-- A name is set in a rule that the same request then deletes: no tree has what the plan expects. -/
theorem renamed_diverges : ∃ resolved v, (renamed "web").resolve firewallNatives = .ok resolved ∧
    effect firewallNatives resolved.leaves (sampleContext .primary) = .ok (.readback v) ∧
    ∀ tree, ¬ ∀ x ∈ v.expected,
      x.2.Holds (execute firewallNatives (sampleContext .primary) tree resolved.leaves) x.1 := by
  obtain ⟨resolved, resolves, leaves⟩ := renamed_resolves identity_web
  obtain ⟨v, plan⟩ := renamed_readback identity_web
  refine ⟨resolved, v, resolves, leaves ▸ plan, fun tree holds => ?_⟩
  rw [leaves] at holds
  obtain ⟨steps, all, made⟩ := effectLoop_readback plan
  have coherent := Request.resolve_coherent resolves
  rw [leaves] at coherent
  have outside := (renamed_undisturbed identity_web (by decide)).mp
    (undisturbed_of_holds coherent all made holds)
  exact absurd outside (by decide)

/-- A name is set in one rule and another rule deleted. -/
theorem renamed_matches : ∃ (resolved : Resolved) (v : Verification),
    (renamed "mail").resolve firewallNatives = .ok resolved ∧
    (∀ tree, ∀ x ∈ v.expected, x.2.Holds
      (execute firewallNatives (sampleContext .primary) tree resolved.leaves) x.1) ∧
    v.ReadsOnce firewallNatives (sampleContext .primary) := by
  obtain ⟨resolved, resolves, leaves⟩ := renamed_resolves identity_mail
  obtain ⟨v, plan⟩ := renamed_readback identity_mail
  have undisturbed := (renamed_undisturbed identity_mail (by decide)).mpr (by decide)
  exact ⟨resolved, v, resolves, (readback_matches firewallNatives (sampleContext .primary)
    (renamed "mail") resolved v resolves (leaves ▸ plan)).mpr (leaves ▸ undisturbed)⟩

end RssMdm.WindowsMdm.Native
