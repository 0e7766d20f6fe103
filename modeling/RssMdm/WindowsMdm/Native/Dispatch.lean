/- module: WindowsMdm/Native/Dispatch
   source: crates/windows-mdm/src/native/request.rs, crates/windows-mdm/src/native/resolved.rs
   digest: The counting, resolving and lowering traversals visit one tree in one order. -/

import RssMdm.WindowsMdm.Native.Request

set_option autoImplicit false

namespace RssMdm.WindowsMdm.Native

open Lib.Fallible Lib.Outcome
open Lib.Text
open WindowsMdm.Syncml
open List (append_nil map_append map_cons mem_cons_self)

mutual

/-- The single operations of a tree in document order. -/
def Request.leafRequests : Request → List Request
  | .node node instances operation value => [.node node instances operation value]
  | .atomic operations => leavesOf operations
  | .sequence operations => leavesOf operations

def leavesOf : List Request → List Request
  | [] => []
  | r :: rest => r.leafRequests ++ leavesOf rest

end

theorem requestsSize_append (a b : List Request) :
    requestsSize (a ++ b) = requestsSize a + requestsSize b := by
  induction a with
  | nil => simp [requestsSize]
  | cons _ _ ih => simp [requestsSize, ih, Nat.add_assoc]

theorem requestsSize_reverse (a : List Request) : requestsSize a.reverse = requestsSize a := by
  induction a with
  | nil => rfl
  | cons _ _ ih =>
    rw [List.reverse_cons, requestsSize_append, ih, requestsSize, requestsSize, requestsSize]
    omega

theorem Request.size_pos (r : Request) : 0 < r.size := by
  cases r <;> simp only [Request.size] <;> omega

variable {r : Request}

theorem Request.size_of_members {operations : List Request} (h : r.members = some operations) :
    r.size = 1 + requestsSize operations := by
  cases r with
  | node => cases h
  | atomic | sequence => cases h; rfl

theorem Request.size_of_no_members (h : r.members = none) : r.size = 1 := by
  cases r with
  | node => rfl
  | atomic | sequence => cases h

theorem countLoop_eq_ok {fuel : Nat} {pending : List (Request × Nat)} {count n : Nat}
    (h : countLoop fuel pending count = .ok n) :
    n = count + requestsSize (pending.map Prod.fst) := by
  induction fuel generalizing pending count with
  | zero =>
    cases pending with
    | nil => cases h; rfl
    | cons => cases h
  | succ fuel ih =>
    match pending, h with
    | [], h => cases h; rfl
    | (r, depth) :: pending, h =>
      simp only [countLoop, guard_eq_ok] at h
      obtain ⟨-, h⟩ := h
      split at h
      · rename_i single
        have next := ih h
        have size := Request.size_of_no_members single
        simp only [map_cons, requestsSize]
        omega
      · rename_i operations group
        simp only [guard_eq_ok] at h
        have next := ih h.2.2
        have size := Request.size_of_members group
        simp only [map_append, List.map_reverse, List.map_map, Function.comp_def,
          List.map_id', requestsSize_append, requestsSize_reverse] at next
        simp only [map_cons, requestsSize]
        omega

theorem Request.commandCount_eq_ok {n : Nat} (h : r.commandCount = .ok n) : n = r.size := by
  have count := countLoop_eq_ok h
  simpa [requestsSize] using count

/-- How a single operation was resolved. -/
def Resolves (env : Natives) : Request → Resolution → Prop
  | .node node instances operation value, resolution =>
      resolveNode env node instances operation value = .ok resolution
  | _, _ => False

theorem leavesOf_append (a b : List Request) : leavesOf (a ++ b) = leavesOf a ++ leavesOf b := by
  induction a with
  | nil => rfl
  | cons _ _ ih => simp [leavesOf, ih]

variable {env : Natives}

theorem resolveLoop_eq_ok {fuel : Nat} {pending : List Request} {done out : List Resolution}
    (h : resolveLoop env fuel pending done = .ok out) :
    ∃ resolved, out = done ++ resolved ∧
      List.Forall₂ (Resolves env) (leavesOf pending) resolved := by
  induction fuel generalizing pending done with
  | zero =>
    cases pending with
    | nil =>
      cases h
      exact ⟨[], by simp, .nil⟩
    | cons => cases h
  | succ fuel ih =>
    match pending, h with
    | [], h =>
      cases h
      exact ⟨[], by simp, .nil⟩
    | .atomic operations :: pending, h | .sequence operations :: pending, h =>
      have next := ih h
      rwa [leavesOf_append] at next
    | .node node instances operation value :: pending, h =>
      obtain ⟨resolution, hresolution, h⟩ := of_bind h
      obtain ⟨resolved, eq, related⟩ := ih h
      exact ⟨resolution :: resolved, by simp [eq], .cons hresolution related⟩

def addressesDocument (node : String) (operation : Verb) : Bool :=
  declaredNode node && ((endsWith node "/Documents/*/Document" && mutates operation) ||
    (endsWith node "/Results/*/Document" && operation = .get))

/-- The dynamic components a leaf is dispatched with: the canonical GUID of a document. -/
def canonicalInstances (env : Natives) (node : String) (operation : Verb)
    (instances : List String) : List String :=
  if addressesDocument node operation then
    (instances.head?.bind env.parseUuid).toList.map Uuid.text
  else instances

structure LeafOf (env : Natives) (node : String) (instances : List String) (operation : Verb)
    (resolution : Resolution) : Prop where
  node_eq : resolution.leaf.node = node
  operation_eq : resolution.leaf.operation = operation
  instances_eq : resolution.leaf.instances = canonicalInstances env node operation instances
  claimed : ∃ uri, identity node (canonicalInstances env node operation instances) = .ok uri ∧
    Object.csp (scopeOf node) uri ∈ resolution.objects

variable {instances : List String}

theorem documentId_eq_ok {id : Uuid} (h : documentId env instances = .ok id) :
    instances.head?.bind env.parseUuid = some id := by
  unfold documentId at h
  split at h
  · rename_i found hfound
    cases h
    exact hfound
  · cases h

variable {value : Option Value} {node : String} {operation : Verb} {resolution : Resolution}

theorem resolveDocument_leaf (addressed : addressesDocument node operation = true)
    (h : resolveDocument env node instances operation value = .ok resolution) :
    LeafOf env node instances operation resolution := by
  unfold resolveDocument at h
  split at h
  · obtain ⟨document, -, h⟩ := of_bind h
    obtain ⟨id, hid, h⟩ := of_bind h
    simp only [guard_eq_ok] at h
    obtain ⟨uri, huri, h⟩ := of_bind h.2.2.2
    obtain ⟨⟨embedded, objects, targets⟩, -, h⟩ := of_bind h
    have canonical : canonicalInstances env node operation instances = [Uuid.text id] := by
      rw [canonicalInstances, if_pos addressed, documentId_eq_ok hid]
      rfl
    cases h
    exact ⟨rfl, rfl, canonical.symm, uri, canonical ▸ huri, .head _⟩
  · cases h

theorem resolveResult_leaf (addressed : addressesDocument node operation = true)
    (h : resolveResult env node instances operation value = .ok resolution) :
    LeafOf env node instances operation resolution := by
  obtain ⟨id, hid, h⟩ := of_bind h
  rw [guard_eq_ok] at h
  obtain ⟨uri, huri, h⟩ := of_bind h.2
  have canonical : canonicalInstances env node operation instances = [Uuid.text id] := by
    rw [canonicalInstances, if_pos addressed, documentId_eq_ok hid]
    rfl
  cases h
  exact ⟨rfl, rfl, canonical.symm, uri, canonical ▸ huri, .head _⟩

/-- The authorization of an ordinary operation: the node and, where it reaches them, every schema
descendant. -/
def Authorizes (nodes : List Node) (targets : List AuthorizationTarget) (node : String)
    (operation : Verb) : Prop :=
  AuthorizationTarget.csp node operation ∈ targets ∧
    ∀ selected, schema nodes node = .ok selected →
      (operation = .delete ∨ (operation = .get ∧ selected.format = .node)) →
      ∀ n ∈ nodes, startsWith n.path (node ++ "/") = true →
        AuthorizationTarget.csp n.path operation ∈ targets

theorem cspTargets_eq_ok {nodes : List Node} {targets : List AuthorizationTarget}
    (h : cspTargets nodes node operation = .ok targets) :
    Authorizes nodes targets node operation := by
  obtain ⟨selected, hselected, h⟩ := of_bind h
  rw [guard_eq_ok] at h
  cases h.2
  refine ⟨.head _, ?_⟩
  intro other hother reaches n hn below
  rw [hselected] at hother
  cases hother
  have reaches : (operation = .delete || (operation = .get && selected.format = .node)) = true := by
    simpa using reaches
  rw [if_pos reaches]
  exact .tail _ (List.mem_map.mpr ⟨n, List.mem_filter.mpr ⟨hn, below⟩, rfl⟩)

theorem resolveNode_leaf (h : resolveNode env node instances operation value = .ok resolution) :
    LeafOf env node instances operation resolution ∧
      (declaredNode node = false → Authorizes env.nodes resolution.targets node operation) := by
  obtain ⟨selected, -, h⟩ := of_bind h
  rw [guard_eq_ok] at h
  obtain ⟨uri, huri, h⟩ := of_bind h.2
  have plain : addressesDocument node operation = false →
      ∀ targets, LeafOf env node instances operation
        ⟨⟨node, instances, operation, value, none, []⟩, [.csp (scopeOf node) uri], targets⟩ := by
    intro ordinary targets
    have kept : canonicalInstances env node operation instances = instances := by
      rw [canonicalInstances, ordinary]
      rfl
    exact ⟨rfl, rfl, kept.symm, uri, kept.symm ▸ huri, .head _⟩
  by_cases declared : declaredNode node = true
  · rw [if_pos declared] at h
    refine ⟨?_, fun outside => by rw [declared] at outside; cases outside⟩
    by_cases document : (endsWith node "/Documents/*/Document" && mutates operation) = true
    · rw [if_pos document] at h
      exact resolveDocument_leaf (by rw [addressesDocument, declared, document]; rfl) h
    rw [if_neg document] at h
    by_cases interval : node = refreshInterval
    · rw [if_pos interval] at h
      cases h
      refine plain ?_ _
      have noResult : endsWith node "/Results/*/Document" = false := by
        rw [interval]
        exact (endsWith_ofList _ _).trans (by decide)
      rw [addressesDocument, noResult, Bool.eq_false_iff.mpr document]
      simp
    · rw [if_neg interval] at h
      split at h
      · rename_i result
        have result : endsWith node "/Results/*/Document" = true ∧ operation = .get := by
          simp only [Bool.and_eq_true, decide_eq_true_eq] at result
          exact result.1
        exact resolveResult_leaf
          (by rw [addressesDocument, declared, result.1, result.2]; simp) h
      · cases h
  · rw [if_neg declared] at h
    obtain ⟨targets, htargets, h⟩ := of_bind h
    cases h
    refine ⟨plain ?_ targets, fun _ => cspTargets_eq_ok htargets⟩
    rw [addressesDocument, Bool.eq_false_iff.mpr declared]
    rfl

section

variable {env : Natives} {context : Context}

mutual

/-- The command tree of a request: the same groups, and for each leaf the command of its verb on its
URI, which is among the claimed objects. -/
def Dispatches (env : Natives) (objects : List Object) : Request → Command → Prop
  | .node node instances operation _, c => ∃ id item uri, c = operation.command id [item] ∧
      item.target = some uri ∧
      identity node (canonicalInstances env node operation instances) = .ok uri ∧
      Object.csp (scopeOf node) uri ∈ objects
  | .atomic operations, c => ∃ id commands, c = .atomic id commands ∧
      DispatchesAll env objects operations commands
  | .sequence operations, c => ∃ id commands, c = .sequence id commands ∧
      DispatchesAll env objects operations commands

def DispatchesAll (env : Natives) (objects : List Object) : List Request → List Command → Prop
  | [], commands => commands = []
  | r :: rest, commands => ∃ c others, commands = c :: others ∧ Dispatches env objects r c ∧
      DispatchesAll env objects rest others

end

def idsFrom (next count : Nat) : List UInt32 := (List.range' next count).map UInt32.ofNat

theorem idsFrom_cons (next count : Nat) :
    idsFrom next (1 + count) = UInt32.ofNat next :: idsFrom (next + 1) count := by
  rw [idsFrom, idsFrom, Nat.add_comm, List.range'_succ, map_cons]

theorem idsFrom_append (next a b : Nat) :
    idsFrom next (a + b) = idsFrom next a ++ idsFrom (next + a) b := by
  rw [idsFrom, idsFrom, idsFrom, ← map_append, List.range'_append_1]

/-- The leaf that a single operation was resolved to, with its claim among the objects. -/
def Supplies (env : Natives) (objects : List Object) (r : Request) (leaf : Leaf) : Prop :=
  ∃ resolution, Resolves env r resolution ∧ leaf = resolution.leaf ∧
    ∀ object ∈ resolution.objects, object ∈ objects

/-- What lowering gives: the tree, its identifiers in preorder, and the leaves left over. -/
structure Lowers (env : Natives) (objects : List Object) (r : Request) (next : Nat)
    (more : List Request) (result : Command × Nat × List Leaf) : Prop where
  tree : Dispatches env objects r result.1
  next_eq : result.2.1 = next + r.size
  ids : ∀ depth atomic, (result.1.preorder depth atomic).map (fun x => x.1.id) =
    idsFrom next r.size
  rest : List.Forall₂ (Supplies env objects) more result.2.2

structure LowersAll (env : Natives) (objects : List Object) (rs : List Request) (next : Nat)
    (more : List Request) (result : List Command × Nat × List Leaf) : Prop where
  tree : DispatchesAll env objects rs result.1
  next_eq : result.2.1 = next + requestsSize rs
  ids : ∀ depth atomic, (preorderForest depth atomic result.1).map (fun x => x.1.id) =
    idsFrom next (requestsSize rs)
  rest : List.Forall₂ (Supplies env objects) more result.2.2

theorem Verb.command_preorder (verb : Verb) (id : UInt32) (items : List Item) (depth : Nat)
    (atomic : Option UInt32) :
    ((verb.command id items).preorder depth atomic).map (fun x => x.1.id) = [id] := by
  cases verb <;> rfl

theorem lower_node {objects : List Object} {next : Nat} {leaves : List Leaf} {atomic : Bool}
    {more : List Request} {result : Command × Nat × List Leaf}
    (h : lower env context (.node node instances operation value) next leaves atomic = .ok result)
    (supplied : List.Forall₂ (Supplies env objects) (.node node instances operation value :: more) leaves) :
    Lowers env objects (.node node instances operation value) next more result := by
  cases supplied with
  | @cons _ leaf _ leaves supply rest =>
    rw [lower, guard_eq_ok] at h
    obtain ⟨op, compiled, h⟩ := of_bind h.2
    rw [guard_eq_ok] at h
    cases h.2
    obtain ⟨resolution, resolves, rfl, claims⟩ := supply
    obtain ⟨leafOf, -⟩ := resolveNode_leaf resolves
    obtain ⟨input, -, compiled⟩ := of_bind compiled
    obtain ⟨verb, huri, -⟩ := Operation.compile_eq_ok compiled
    obtain ⟨uri, hidentity, claimed⟩ := leafOf.claimed
    rw [leafOf.node_eq, leafOf.instances_eq, hidentity] at huri
    cases huri
    rw [leafOf.operation_eq] at verb
    refine ⟨⟨UInt32.ofNat next, op.item, op.uri, ?_, rfl, hidentity, claims _ claimed⟩, rfl, ?_,
      rest⟩
    · rw [Operation.command, verb]
    · intro depth atomic
      exact Verb.command_preorder _ _ _ depth atomic

mutual

theorem lower_spec {objects : List Object} : ∀ (r : Request) {next : Nat} {leaves : List Leaf}
    {atomic : Bool} {more : List Request} {result : Command × Nat × List Leaf},
    lower env context r next leaves atomic = .ok result →
      List.Forall₂ (Supplies env objects) (r.leafRequests ++ more) leaves →
        Lowers env objects r next more result
  | .node _ _ _ _, _, _, _, _, _, h, supplied => lower_node h supplied
  | .atomic operations, next, leaves, atomic, more, result, h, supplied => by
      rw [lower, guard_eq_ok, guard_eq_ok] at h
      obtain ⟨⟨commands, after, left⟩, all, h⟩ := of_bind h.2.2
      have inner := lowerAll_spec operations all supplied
      cases h
      refine ⟨⟨_, _, rfl, inner.tree⟩, ?_, ?_, inner.rest⟩
      · rw [inner.next_eq, Request.size]
        omega
      · intro depth atomic
        rw [Request.size, idsFrom_cons, Command.preorder, map_cons, inner.ids]
        rfl
  | .sequence operations, next, leaves, atomic, more, result, h, supplied => by
      rw [lower, guard_eq_ok] at h
      obtain ⟨⟨commands, after, left⟩, all, h⟩ := of_bind h.2
      have inner := lowerAll_spec operations all supplied
      cases h
      refine ⟨⟨_, _, rfl, inner.tree⟩, ?_, ?_, inner.rest⟩
      · rw [inner.next_eq, Request.size]
        omega
      · intro depth atomic
        rw [Request.size, idsFrom_cons, Command.preorder, map_cons, inner.ids]
        rfl

theorem lowerAll_spec {objects : List Object} : ∀ (rs : List Request) {next : Nat}
    {leaves : List Leaf} {atomic : Bool} {more : List Request}
    {result : List Command × Nat × List Leaf},
    lowerAll env context rs next leaves atomic = .ok result →
      List.Forall₂ (Supplies env objects) (leavesOf rs ++ more) leaves →
        LowersAll env objects rs next more result
  | [], next, leaves, atomic, more, result, h, supplied => by
      cases h
      exact ⟨rfl, rfl, fun _ _ => rfl, supplied⟩
  | r :: rest, next, leaves, atomic, more, result, h, supplied => by
      rw [leavesOf, List.append_assoc] at supplied
      obtain ⟨⟨command, next₁, leaves₁⟩, first, h⟩ := of_bind h
      obtain ⟨⟨commands, next₂, leaves₂⟩, others, h⟩ := of_bind h
      have one := lower_spec r first supplied
      have all := lowerAll_spec rest others one.rest
      have next_eq : next₁ = next + r.size := one.next_eq
      cases h
      refine ⟨⟨_, _, rfl, one.tree, all.tree⟩, ?_, ?_, all.rest⟩
      · rw [all.next_eq, next_eq, requestsSize]
        omega
      · intro depth atomic
        rw [requestsSize, idsFrom_append, preorderForest, map_append, one.ids, all.ids,
          next_eq]

end

theorem Verb.command_targets (verb : Verb) (id : UInt32) (item : Item) (depth : Nat)
    (atomic : Option UInt32) :
    ∀ x ∈ (verb.command id [item]).preorder depth atomic, ∀ t ∈ x.1.targets,
      item.target = some t := by
  cases verb <;>
    simp [Verb.command, Command.preorder, Command.targets, itemTargets, List.filterMap_cons]
  all_goals
    intro t
    cases item.target <;> simp [eq_comm]

mutual

theorem dispatches_targets {objects : List Object} : ∀ (r : Request) {c : Command},
    Dispatches env objects r c → ∀ depth atomic, ∀ x ∈ c.preorder depth atomic,
      ∀ t ∈ x.1.targets, ∃ scope, Object.csp scope t ∈ objects
  | .node node _ operation _, c, h, depth, atomic, x, hx, t, ht => by
      obtain ⟨id, item, uri, rfl, target, -, claimed⟩ := h
      have same := Verb.command_targets operation id item depth atomic x hx t ht
      rw [target] at same
      cases same
      exact ⟨scopeOf node, claimed⟩
  | .atomic operations, c, h, depth, atomic, x, hx, t, ht
  | .sequence operations, c, h, depth, atomic, x, hx, t, ht => by
      obtain ⟨id, commands, rfl, all⟩ := h
      rcases List.mem_cons.mp hx with rfl | hx
      · cases ht
      · exact dispatchesAll_targets operations all _ _ x hx t ht

theorem dispatchesAll_targets {objects : List Object} : ∀ (rs : List Request)
    {commands : List Command}, DispatchesAll env objects rs commands →
      ∀ depth atomic, ∀ x ∈ preorderForest depth atomic commands,
        ∀ t ∈ x.1.targets, ∃ scope, Object.csp scope t ∈ objects
  | [], commands, h, depth, atomic, x, hx, _, _ => by
      cases h
      cases hx
  | r :: rest, commands, h, depth, atomic, x, hx, t, ht => by
      obtain ⟨c, others, rfl, one, all⟩ := h
      rcases List.mem_append.mp hx with hx | hx
      · exact dispatches_targets r one _ _ x hx t ht
      · exact dispatchesAll_targets rest all _ _ x hx t ht

end

end

variable {env : Natives}

theorem Resolved.prepare_eq_ok {fuel : Nat} {resolved : Resolved} {context : Context}
    {p : Prepared} (h : resolved.prepare env fuel context = .ok p) :
    p.resolved = resolved ∧ p.context = context := by
  cases fuel with
  | zero => cases h
  | succ =>
    obtain ⟨-, h⟩ := of_check h
    obtain ⟨plan, -, h⟩ := of_bind h
    cases h
    exact ⟨rfl, rfl⟩

/-- A resolution resolves the leaves of its request in order, collects their claims as objects and
their authorization targets. -/
theorem Request.resolve_eq_ok {r : Request} {resolved : Resolved}
    (h : r.resolve env = .ok resolved) :
    resolved.request = r ∧ ∃ done : List Resolution,
      List.Forall₂ (Resolves env) r.leafRequests done ∧
      resolved.leaves = done.map Resolution.leaf ∧
      (∀ x ∈ done, ∀ object ∈ x.objects, object ∈ resolved.objects) ∧
      ∀ x ∈ done, ∀ target ∈ x.targets, target ∈ resolved.targets := by
  obtain ⟨count, -, h⟩ := of_bind h
  obtain ⟨done, hdone, h⟩ := of_bind h
  rw [guard_eq_ok] at h
  cases h.2
  obtain ⟨out, eq, related⟩ := resolveLoop_eq_ok hdone
  subst eq
  rw [leavesOf, leavesOf, append_nil] at related
  refine ⟨rfl, done, related, rfl, ?_, ?_⟩
  · intro x hx object hobject
    rw [Std.TreeSet.mem_toList, Std.TreeSet.mem_insertMany_list]
    exact .inr (List.contains_iff_mem.mpr (List.mem_flatMap.mpr ⟨x, hx, hobject⟩))
  · intro x hx target htarget
    exact List.mem_flatMap.mpr ⟨x, hx, htarget⟩

theorem Request.resolve_node (node : String) (instances : List String) (operation : Verb)
    (value : Option Value) :
    (Request.node node instances operation value).resolve env =
      resolveNode env node instances operation value >>= fun x =>
        .ok ⟨.node node instances operation value, [x.leaf],
          ((∅ : ObjectSet).insertMany x.objects).toList, x.targets⟩ := by
  have counted : (Request.node node instances operation value).commandCount = .ok 1 := rfl
  rw [Request.resolve, counted, Request.size]
  cases resolves : resolveNode env node instances operation value with
  | error e =>
    have stops : resolveLoop env 1 [.node node instances operation value] [] = .error e := by
      rw [resolveLoop, resolves]
      rfl
    rw [stops]
    rfl
  | ok x =>
    have goes : resolveLoop env 1 [.node node instances operation value] [] = .ok [x] := by
      rw [resolveLoop, resolves]
      rfl
    rw [goes]
    simp only [ok_bind, map_cons, List.map_nil, List.any_cons, List.any_nil, Bool.or_false,
      Bool.and_not_self, Bool.false_eq_true, if_false, List.flatMap_cons, List.flatMap_nil,
      append_nil]

theorem resolveNode_plain {uri : String} {selected : Node}
    (known : schema env.nodes node = .ok selected) (allowed : permits selected operation = true)
    (identified : identity node instances = .ok uri) (plain : declaredNode node = false)
    (value : Option Value) :
    ∃ targets, resolveNode env node instances operation value =
      .ok ⟨⟨node, instances, operation, value, none, []⟩, [.csp (scopeOf node) uri], targets⟩ := by
  have authorized : ∃ targets, cspTargets env.nodes node operation = .ok targets := by
    rw [cspTargets, known, ok_bind, allowed]
    exact ⟨_, rfl⟩
  obtain ⟨targets, authorized⟩ := authorized
  refine ⟨targets, ?_⟩
  rw [resolveNode, known, ok_bind, allowed]
  simp only [Bool.not_true, Bool.false_eq_true, if_false, identified, ok_bind, plain, authorized]

theorem Request.resolve_plain {uri : String} {selected : Node}
    (known : schema env.nodes node = .ok selected) (allowed : permits selected operation = true)
    (identified : identity node instances = .ok uri) (plain : declaredNode node = false)
    (value : Option Value) :
    ∃ resolved, (Request.node node instances operation value).resolve env = .ok resolved := by
  obtain ⟨targets, resolves⟩ := resolveNode_plain known allowed identified plain value
  rw [Request.resolve_node, resolves, ok_bind]
  exact ⟨_, rfl⟩

theorem supplies_of_resolves {objects : List Object} {rs : List Request} {done : List Resolution}
    (h : List.Forall₂ (Resolves env) rs done)
    (claims : ∀ x ∈ done, ∀ object ∈ x.objects, object ∈ objects) :
    List.Forall₂ (Supplies env objects) rs (done.map Resolution.leaf) := by
  induction h with
  | nil => exact .nil
  | @cons _ x _ _ resolves _ ih =>
    refine .cons ⟨x, resolves, rfl, claims x (.head _)⟩ (ih ?_)
    intro y hy
    exact claims y (.tail _ hy)

/-- One resolved tree: the compiled command has the groups of the request and the identifiers from
the first one on in preorder; each leaf is dispatched under its verb to its canonical URI, every
target is claimed, and every leaf outside declared configuration is authorized with its subtree. -/
theorem compile_one_tree {fuel : Nat} {r : Request} {context : Context} {first : UInt32}
    {compiled : Compiled} (h : r.compile env fuel context first = .ok compiled) :
    ∃ resolved count, r.resolve env = .ok resolved ∧ r.commandCount = .ok count ∧
      Dispatches env compiled.objects r compiled.command ∧
      first.toNat + count ≤ 2 ^ 32 ∧
      (compiled.command.preorder 0 none).map (fun x => x.1.id) = idsFrom first.toNat count ∧
      (∀ x ∈ compiled.command.preorder 0 none, ∀ t ∈ x.1.targets,
        ∃ scope, Object.csp scope t ∈ compiled.objects) ∧
      ∀ node instances operation value,
        .node node instances operation value ∈ r.leafRequests → declaredNode node = false →
          Authorizes env.nodes resolved.targets node operation := by
  obtain ⟨resolved, hresolve, hrest⟩ := of_bind h
  obtain ⟨prepared, hprepare, hcommand⟩ := of_bind hrest
  have hresolve := mapError_eq_ok.mp hresolve
  obtain ⟨rfl, rfl⟩ := Resolved.prepare_eq_ok hprepare
  obtain ⟨count, hcount, h⟩ := of_bind (mapError_eq_ok.mp hcommand)
  rw [guard_eq_ok] at h
  obtain ⟨range, h⟩ := h
  obtain ⟨⟨command, next, left⟩, hlower, h⟩ := of_bind h
  obtain ⟨-, h⟩ := of_check h
  cases h
  obtain ⟨request, done, related, leaves, claims, targets⟩ := Request.resolve_eq_ok hresolve
  rw [request] at hlower hcount
  have supplied := supplies_of_resolves related claims
  rw [← leaves, ← append_nil r.leafRequests] at supplied
  have lowered := lower_spec r hlower supplied
  have size := Request.commandCount_eq_ok hcount
  refine ⟨prepared.resolved, count, hresolve, hcount, lowered.tree, ?_, ?_,
    dispatches_targets r lowered.tree 0 none, ?_⟩
  · simp only [Bool.or_eq_true, decide_eq_true_eq, not_or] at range
    have positive := r.size_pos
    omega
  · rw [size]
    exact lowered.ids 0 none
  · intro node instances operation value hleaf outside
    obtain ⟨x, hx, resolves⟩ := exists_right_of_mem related hleaf
    have authorized := (resolveNode_leaf resolves).2 outside
    exact ⟨targets x hx _ authorized.1, fun selected hselected reaches n hn below =>
      targets x hx _ (authorized.2 selected hselected reaches n hn below)⟩

/-- Two nodes of the generated table, with the fields the compiler reads. -/
def sampleNodes : List Node :=
  [{ path := "./DevDetail/SwV", preview := false, boundedBranches := false,
     certificateBuilds := [], format := .text, access := 1, builds := [⟨10, 0, 10586, 0⟩],
     editions := some ["0x4", "0x1B"], mime := "", lifetime := "Permanent", atomic := false,
     constraints := [] },
    { path := "./Device/Vendor/MSFT/DeclaredConfiguration/Host/Complete/Results/*/Document",
      preview := true, boundedBranches := false, certificateBuilds := [⟨10, 0, 19045, 4717⟩],
      format := .text, access := 1, builds := [⟨99, 9, 99999, 0⟩],
      editions := some ["0x4", "0x1B"], mime := "", lifetime := "Dynamic", atomic := false,
      constraints := [] }]

/-- The hyphenated form of a GUID, in either case. -/
def parseHyphenated (s : String) : Option Uuid :=
  if s.length = 36 && [8, 13, 18, 23].all (fun i => s.toList[i]? = some '-') then
    (hexValue (s.toList.filter (fun c => c ≠ '-'))).map (BitVec.ofNat 128)
  else none

/-- Queries take no value; nothing else is asked of the value checks here. -/
def sampleNatives : Natives where
  nodes := sampleNodes
  values := fun _ _ value _ => if value.isNone then .ok none else .error .value
  parseUuid := parseHyphenated
  parseDocument := fun _ => .error .value
  requests := fun _ _ => .error .value
  decoders := ⟨fun _ => false, fun _ => none⟩

def sampleContext (enrollment : Enrollment) : Context :=
  ⟨some ⟨10, 0, 19045, 5011⟩, some 4, .device, enrollment⟩

/-- A query below a nested group. -/
def sampleQueries : Request :=
  .sequence [.node "./DevDetail/SwV" [] .get none,
    .sequence [.node "./DevDetail/SwV" [] .get none]]

theorem compile_one_tree_sample : ∃ compiled,
    sampleQueries.compile sampleNatives 1 (sampleContext .primary) 9 = .ok compiled ∧
      (compiled.command.preorder 0 none).map (fun x => x.1.id) = idsFrom 9 4 := by
  have accepted :
      (sampleQueries.compile sampleNatives 1 (sampleContext .primary) 9).isOk = true := by
    decide +kernel
  cases run : sampleQueries.compile sampleNatives 1 (sampleContext .primary) 9 with
  | error =>
    rw [run] at accepted
    cases accepted
  | ok compiled =>
    obtain ⟨_, count, -, counted, -, -, ids, -⟩ := compile_one_tree run
    have four : count = 4 := Request.commandCount_eq_ok counted
    exact ⟨compiled, rfl, four ▸ ids⟩

/-- A read of a declared-configuration result whose GUID is written in upper case. -/
def sampleResult : Request :=
  .node "./Device/Vendor/MSFT/DeclaredConfiguration/Host/Complete/Results/*/Document"
    ["6F9619FF-8B86-D011-B42D-00CF4FC964FF"] .get none

/-- The URI of that leaf is not the one its command addresses. -/
theorem compile_recases_guid : ∃ compiled uri,
    sampleResult.compile sampleNatives 1 (sampleContext .linkedCertificate) 9 = .ok compiled ∧
      identity "./Device/Vendor/MSFT/DeclaredConfiguration/Host/Complete/Results/*/Document"
        ["6F9619FF-8B86-D011-B42D-00CF4FC964FF"] = .ok uri ∧
      compiled.command.targets ≠ [uri] := by
  have addressed : (sampleResult.compile sampleNatives 1
      (sampleContext .linkedCertificate) 9).toOption.map (fun c => c.command.targets) =
        some ["./Device/Vendor/MSFT/DeclaredConfiguration/Host/Complete/Results/" ++
          "6f9619ff-8b86-d011-b42d-00cf4fc964ff/Document"] := by
    decide +kernel
  cases run : sampleResult.compile sampleNatives 1 (sampleContext .linkedCertificate) 9 with
  | error =>
    rw [run] at addressed
    cases addressed
  | ok compiled =>
    rw [run] at addressed
    refine ⟨compiled, "./Device/Vendor/MSFT/DeclaredConfiguration/Host/Complete/Results/" ++
      "6F9619FF-8B86-D011-B42D-00CF4FC964FF/Document", rfl, by decide +kernel, ?_⟩
    have lower_case : compiled.command.targets = _ := Option.some.inj addressed
    rw [lower_case]
    simp

end RssMdm.WindowsMdm.Native
