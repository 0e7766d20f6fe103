/- module: WindowsMdm/Native/PollEffects
   source: crates/windows-mdm/src/native/request.rs, crates/windows-mdm/src/native/generated.rs
   digest: What the accepted requests do to the polling schedule of their provider. -/

import RssMdm.WindowsMdm.Native.Poll

set_option autoImplicit false

namespace RssMdm.WindowsMdm.Native

open Lib.Fallible Lib.Text
open Lib.Json (decimal)
open List (foldlM_cons map_reverse mem_filter mem_map mem_map_of_mem mem_reverse)

section

variable {env : Natives}

/-- Two templates that can have a URI in common. -/
def overlaps (a b : List String) : Bool :=
  a.length = b.length && (a.zip b).all (fun (x, y) => x = "*" || y = "*" || x = y)

/-- What the checks rely on in the generated table: templates do not start with a slash, the nodes
of a polling schedule are its eight parameters, and no other template has their URIs. -/
structure PollTable (nodes : List Node) : Prop where
  rooted : ∀ n ∈ nodes, n.path.toList.head? ≠ some '/'
  parameter : ∀ n ∈ nodes, contains n.path "/DMClient/Provider/*/Poll/" = true →
    ∃ name ∈ pollNames, n.path = pollNode name
  apart : ∀ n ∈ nodes, ∀ name ∈ pollNames,
    overlaps (splitAt n.path '/') (splitAt (pollNode name) '/') = true → n.path = pollNode name

theorem Mirrors.overlaps {decode : String → Option String}
    {template segments others parts template' : List String}
    (mirrors : Mirrors decode template segments parts)
    (other : Mirrors decode template' others parts) : overlaps template template' = true := by
  induction mirrors generalizing template' others with
  | nil =>
    cases other
    rfl
  | literal _ _ ih | dynamic _ _ ih =>
    cases other with
    | literal _ further =>
      have rest := ih further
      simp only [Native.overlaps, Bool.and_eq_true, decide_eq_true_eq] at rest ⊢
      simpa using rest
    | dynamic _ further =>
      have rest := ih further
      simp only [Native.overlaps, Bool.and_eq_true, decide_eq_true_eq] at rest ⊢
      simpa using rest

theorem pollNode_rooted (name : String) : (pollNode name).toList.head? ≠ some '/' := by
  have front : pollFolder = "." ++ "/Device/Vendor/MSFT/DMClient/Provider/*/Poll/" := by decide
  rw [pollNode_eq, front, String.append_assoc, String.toList_append]
  have dot : ".".toList = ['.'] := by decide
  rw [dot, List.cons_append, List.head?_cons]
  decide

theorem PollTable.unique (table : PollTable env.nodes) {node : Node} {name uri provider : String}
    {instances : List String} (known : node ∈ env.nodes) (member : name ∈ pollNames)
    (identified : identity node.path instances = .ok uri)
    (parameter : identity (pollNode name) [provider] = .ok uri) :
    node.path = pollNode name ∧ instances = [provider] := by
  have carries := identity_mirrors identified (table.rooted node known)
  have carries' := identity_mirrors parameter (pollNode_rooted name)
  have same := table.apart node known name member (carries.overlaps carries')
  refine ⟨same, ?_⟩
  rw [same] at identified
  exact identity_injective identified parameter

end

section

variable {env : Natives}

/-- Whether the leaf writes the node or deletes it, itself or with a node above it. -/
def Leaf.touches (leaf : Leaf) (uri : String) : Bool :=
  match identity leaf.node leaf.instances with
  | .error _ => false
  | .ok own =>
      match leaf.operation with
      | .add => own = uri
      | .replace => own = uri
      | .delete => own = uri || below own uri
      | _ => false

def parameterLeaf (provider name : String) (value : Value) : Leaf :=
  ⟨pollNode name, [provider], .replace, some value, none, []⟩

def PollKept (provider : String) (leaves : List Leaf) : Prop :=
  ∀ name ∈ pollNames, ∀ uri, identity (pollNode name) [provider] = .ok uri →
    ∀ leaf ∈ leaves, leaf.touches uri = false

/-- Each parameter of the provider is touched once, by the replacement with its value. -/
def PollWritten (provider : String) (leaves : List Leaf) (poll : Poll) : Prop :=
  ∀ kv ∈ poll.settings, ∀ uri, identity (pollNode kv.1) [provider] = .ok uri →
    leaves.filter (fun leaf => leaf.touches uri) = [parameterLeaf provider kv.1 kv.2]

/-- Parameters of the provider are neither deleted nor created again. -/
def PollSafe (provider : String) (leaves : List Leaf) : Prop :=
  ∀ name ∈ pollNames, ∀ uri, identity (pollNode name) [provider] = .ok uri →
    ∀ leaf ∈ leaves, leaf.touches uri = true → leaf.operation = .replace

/-- No delete takes a parameter of the provider with the subtree of a node above it. -/
def PollSheltered (provider : String) (leaves : List Leaf) : Prop :=
  ∀ leaf ∈ leaves, leaf.operation = .delete → ∀ above,
    identity leaf.node leaf.instances = .ok above → ∀ name ∈ pollNames, ∀ uri,
      identity (pollNode name) [provider] = .ok uri → below above uri = false

variable {x : Resolution}

theorem resolveNode_known {node : String} {instances : List String} {operation : Verb}
    {value : Option Value} (h : resolveNode env node instances operation value = .ok x) :
    ∃ selected ∈ env.nodes, selected.path = node := by
  obtain ⟨selected, known, -⟩ := of_bind h
  obtain ⟨member, path⟩ := schema_eq_ok known
  exact ⟨selected, member, path⟩

theorem resolveNode_ordinary {node : String} {instances : List String} {operation : Verb}
    {value : Option Value} (plain : declaredNode node = false)
    (h : resolveNode env node instances operation value = .ok x) :
    x.leaf = ⟨node, instances, operation, value, none, []⟩ ∧
      ∃ uri, identity node instances = .ok uri := by
  obtain ⟨selected, -, h⟩ := of_bind h
  rw [guard_eq_ok] at h
  obtain ⟨uri, identified, h⟩ := of_bind h.2
  rw [plain, if_neg Bool.false_ne_true] at h
  obtain ⟨targets, -, h⟩ := of_bind h
  cases h
  exact ⟨rfl, uri, identified⟩

structure Traced (env : Natives) (r : Request) (leaf : Leaf) : Prop where
  request : ∃ instances value, r = .node leaf.node instances leaf.operation value ∧
    (leaf.setsPoll = true → leaf = ⟨leaf.node, instances, leaf.operation, value, none, []⟩ ∧
      ∃ uri, identity leaf.node instances = .ok uri)
  known : ∃ selected ∈ env.nodes, selected.path = leaf.node

theorem traced_of_resolves (table : PollTable env.nodes) {r : Request} (h : Resolves env r x) :
    Traced env r x.leaf := by
  cases r with
  | atomic | sequence => exact absurd h id
  | node node instances _ value =>
    obtain ⟨own, verb, -, -⟩ := resolveNode_document h
    obtain ⟨selected, member, path⟩ := resolveNode_known h
    refine ⟨⟨instances, value, by rw [own, verb], fun sets => ?_⟩, selected, member,
      path.trans own.symm⟩
    have inside : contains selected.path "/DMClient/Provider/*/Poll/" = true := by
      rw [path, ← own]
      exact (Bool.and_eq_true_iff.mp sets).1
    obtain ⟨name, listed, same⟩ := table.parameter selected member inside
    have plain : declaredNode node = false := by
      rw [← path, same]
      exact pollNames_ordinary name listed
    rw [own, verb]
    exact resolveNode_ordinary plain h

theorem traced_visit {r : Request} {leaf : Leaf} (traced : Traced env r leaf)
    (s : Std.TreeMap String Value) : visitLeaf pollVisit s r = visitPoll s leaf := by
  obtain ⟨instances, value, rfl, whole⟩ := traced.request
  by_cases sets : leaf.setsPoll = true
  · have same : leaf.value = value := congrArg Leaf.value (whole sets).1
    rw [visitPoll, same]
    unfold visitLeaf pollVisit
    rfl
  · have other : leaf.setsPoll = false := Bool.eq_false_iff.mpr sets
    rw [visitPoll_skips other]
    have skips : setsPoll leaf.node leaf.operation = false := other
    unfold visitLeaf pollVisit
    dsimp only
    rw [skips]
    rfl

theorem foldlM_traced {rs : List Request} {leaves : List Leaf}
    (traced : List.Forall₂ (Traced env) rs leaves) (s : Std.TreeMap String Value) :
    rs.foldlM (visitLeaf pollVisit) s = leaves.foldlM visitPoll s := by
  induction traced generalizing s with
  | nil => rfl
  | cons own _ ih =>
    rw [foldlM_cons, foldlM_cons, traced_visit own]
    exact congrArg _ (funext fun t => ih t)

end

section

variable {env : Natives} {r : Request}

theorem Request.resolve_traced (table : PollTable env.nodes) {resolved : Resolved}
    (h : r.resolve env = .ok resolved) :
    List.Forall₂ (Traced env) r.leafRequests resolved.leaves := by
  obtain ⟨-, done, related, leaves, -⟩ := Request.resolve_eq_ok h
  rw [leaves, List.forall₂_map_right_iff]
  exact related.imp fun r x resolves => traced_of_resolves table resolves

variable {provider : String}

theorem validateProvider_eq_ok (h : r.validateProvider provider = .ok ()) : ∀ leaf ∈ r.leafRequests,
      visitLeaf (providerVisit provider) () leaf = .ok () := by
  obtain ⟨-, -, h⟩ := of_bind h
  rw [popLoop_request] at h
  intro leaf member
  exact foldlM_ok_each (fun () _ () h => h) _ h leaf (mem_reverse.mpr member)

theorem providerVisit_instances {name : String} {instances : List String} {operation : Verb}
    {value : Option Value}
    (h : providerVisit provider () (pollNode name) instances operation value = .ok ()) :
    instances.head? = some provider := by
  unfold providerVisit at h
  rw [contains_provider, Bool.true_and, guard_eq_ok] at h
  simpa using h.1

theorem filter_eq_singleton {α κ : Type} [DecidableEq κ] {f : α → κ} {as : List α} {a : α}
    (distinct : (as.map f).Nodup) (member : a ∈ as) :
    as.filter (fun b => f b = f a) = [a] := by
  induction as with
  | nil => exact nomatch member
  | cons b _ ih =>
    rw [List.map_cons, List.nodup_cons] at distinct
    rcases List.mem_cons.mp member with rfl | later
    · rw [List.filter_cons_of_pos (by simp), List.filter_eq_nil_iff.mpr]
      intro c inside same
      exact distinct.1 (mem_map.mpr ⟨c, inside, of_decide_eq_true same⟩)
    have other : f b ≠ f a := by
      intro same
      exact distinct.1 (same ▸ mem_map_of_mem later)
    rw [List.filter_cons_of_neg (by simpa using other)]
    exact ih distinct.2 later

theorem validatePoll_collects (table : PollTable env.nodes) {resolved : Resolved}
    (resolves : r.resolve env = .ok resolved) (accepted : r.validatePoll = .ok ()) :
    ∃ parameters settings, Collected ∅ resolved.leaves.reverse parameters settings ∧
      (settings = [] ∨ ∃ poll : Poll, poll.validate = .ok () ∧
        ∀ kv ∈ poll.settings, kv ∈ settings) := by
  have traced := Request.resolve_traced table resolves
  obtain ⟨parameters, run, h⟩ := of_bind accepted
  rw [popLoop_request, foldlM_traced (List.forall₂_reverse_iff.mpr traced)] at run
  obtain ⟨settings, collected⟩ := foldlM_visitPoll run
  refine ⟨parameters, settings, collected, ?_⟩
  have entry : ∀ k v, parameters[k]? = some v → (k, v) ∈ settings := by
    intro k v found
    rcases (collected.entry k v).mp found with inside | none
    · exact inside
    · rw [Std.TreeMap.getElem?_emptyc] at none
      cases none
  split at h
  · rename_i empty
    left
    rw [List.eq_nil_iff_forall_not_mem]
    rintro ⟨k, v⟩ member
    have found := (collected.entry k v).mpr (.inl member)
    have size := collected.size
    rw [Std.TreeMap.isEmpty_eq_size_eq_zero] at empty
    have zero : parameters.size = 0 := by simpa using empty
    rw [zero] at size
    have positive := List.length_pos_of_mem member
    omega
  · obtain ⟨poll, read, h⟩ := of_bind h
    rw [guard_eq_ok] at h
    right
    refine ⟨poll, mapError_eq_ok.mp h.2, fun kv member => ?_⟩
    exact entry kv.1 kv.2 (readPoll_eq_ok.mp read kv member)

theorem setsPoll_of_touches (table : PollTable env.nodes) {name uri : String} {leaves : List Leaf}
    {leaf : Leaf} (traced : Traced env r leaf) (inside : leaf ∈ leaves)
    (sheltered : PollSheltered provider leaves) (member : name ∈ pollNames)
    (parameter : identity (pollNode name) [provider] = .ok uri)
    (touched : leaf.touches uri = true) :
    leaf.setsPoll = true ∧ leaf.node = pollNode name ∧ leaf.instances = [provider] := by
  obtain ⟨selected, known, path⟩ := traced.known
  have own : identity leaf.node leaf.instances = .ok uri ∧ leaf.operation ≠ .get := by
    unfold Leaf.touches at touched
    split at touched
    · cases touched
    rename_i own identified
    split at touched
    · rename_i add
      rw [add]
      exact ⟨identified.trans (congrArg _ (of_decide_eq_true touched)), nofun⟩
    · rename_i replace
      rw [replace]
      exact ⟨identified.trans (congrArg _ (of_decide_eq_true touched)), nofun⟩
    · rename_i delete
      rcases Bool.or_eq_true_iff.mp touched with same | under
      · rw [delete]
        exact ⟨identified.trans (congrArg _ (of_decide_eq_true same)), nofun⟩
      · rw [sheltered leaf inside delete own identified name member uri parameter] at under
        cases under
    · cases touched
  rw [← path] at own
  obtain ⟨same, provided⟩ := table.unique known member own.1 parameter
  have node : leaf.node = pollNode name := path.symm.trans same
  refine ⟨Bool.and_eq_true_iff.mpr ⟨?_, decide_eq_true own.2⟩, node, provided⟩
  rw [node]
  exact contains_pollNode name

end

section

variable {env : Natives}

theorem Mirrors.segments {decode : String → Option String} {template segments parts : List String}
    (mirrors : Mirrors decode template segments parts) : segments.length = template.count "*" := by
  induction mirrors with
  | nil => rfl
  | literal fixed _ ih => rw [List.count_cons_of_ne fixed, ih]
  | dynamic _ _ ih => rw [List.length_cons, List.count_cons_self, ih]

theorem identity_parameter {name uri : String} {instances : List String} (member : name ∈ pollNames)
    (h : identity (pollNode name) instances = .ok uri) : instances.length = 1 := by
  have single : ∀ name ∈ pollNames, [".", "Device", "Vendor", "MSFT", "DMClient", "Provider", "*",
      "Poll", name].count "*" = 1 := by decide
  have length := (identity_mirrors h (pollNode_rooted name)).segments
  rw [splitAt_pollNode (pollNames_clean name member)] at length
  exact length.trans (single name member)

variable {provider : String}

theorem parameter_of_setsPoll (table : PollTable env.nodes) {r : Request} {leaf : Leaf}
    (traced : Traced env r leaf) (bound : visitLeaf (providerVisit provider) () r = .ok ())
    (sets : leaf.setsPoll = true) :
    ∃ name ∈ pollNames,
      leaf = ⟨pollNode name, [provider], leaf.operation, leaf.value, none, []⟩ := by
  obtain ⟨instances, value, rfl, whole⟩ := traced.request
  obtain ⟨selected, known, path⟩ := traced.known
  obtain ⟨same, uri, identified⟩ := whole sets
  have inside : contains selected.path "/DMClient/Provider/*/Poll/" = true := by
    rw [path]
    exact (Bool.and_eq_true_iff.mp sets).1
  obtain ⟨name, member, folder⟩ := table.parameter selected known inside
  have node : leaf.node = pollNode name := path.symm.trans folder
  rw [node] at identified
  have bound' : providerVisit provider () leaf.node instances leaf.operation value = .ok () := bound
  rw [node] at bound'
  have front := providerVisit_instances bound'
  have single := identity_parameter member identified
  have own : instances = [provider] := by
    obtain ⟨first, rfl⟩ := List.length_eq_one_iff.mp single
    exact congrArg (fun x => [x]) (Option.some.inj front)
  have given : leaf.value = value := congrArg Leaf.value same
  refine ⟨name, member, ?_⟩
  rw [given, ← own, ← node]
  exact same

/-- The leaves of an accepted request that the schedule check collects. -/
structure Bound (env : Natives) (provider : String) (leaves : List Leaf) : Prop where
  traced : ∀ leaf ∈ leaves, ∃ r, Traced env r leaf
  parameter : ∀ leaf ∈ leaves, leaf.setsPoll = true → ∃ name ∈ pollNames,
    leaf = ⟨pollNode name, [provider], leaf.operation, leaf.value, none, []⟩

theorem Request.resolve_bound (table : PollTable env.nodes) {r : Request} {resolved : Resolved}
    (resolves : r.resolve env = .ok resolved) (accepted : r.validateProvider provider = .ok ()) :
    Bound env provider resolved.leaves := by
  have traced := Request.resolve_traced table resolves
  have visits := validateProvider_eq_ok accepted
  constructor
  · intro leaf member
    obtain ⟨own, -, related⟩ := exists_left_of_mem traced member
    exact ⟨own, related⟩
  · intro leaf member sets
    obtain ⟨own, inside, related⟩ := exists_left_of_mem traced member
    exact parameter_of_setsPoll table related (visits own inside) sets

theorem touches_parameter {name uri : String}
    (parameter : identity (pollNode name) [provider] = .ok uri) (value : Option Value) :
    Leaf.touches ⟨pollNode name, [provider], .replace, value, none, []⟩ uri = true := by
  unfold Leaf.touches
  dsimp only
  rw [parameter]
  exact decide_eq_true rfl

theorem Collected.written (table : PollTable env.nodes) {leaves : List Leaf}
    {parameters : Std.TreeMap String Value} {settings : List (String × Value)} {poll : Poll}
    (bound : Bound env provider leaves) (sheltered : PollSheltered provider leaves)
    (collected : Collected ∅ leaves.reverse parameters settings)
    (all : ∀ kv ∈ poll.settings, kv ∈ settings) : PollWritten provider leaves poll := by
  have names : ((leaves.filter Leaf.setsPoll).map (fun l => lastComponent l.node)).Nodup := by
    have same : (leaves.reverse.filter Leaf.setsPoll).map (fun l => lastComponent l.node) =
        settings.map Prod.fst := by
      have related := collected.leaves.imp fun l kv sets => sets.name
      rw [← List.forall₂_eq_eq_eq, List.forall₂_map_left_iff, List.forall₂_map_right_iff]
      exact related
    have nodup := collected.nodup
    rw [← same, List.filter_reverse, map_reverse, List.nodup_reverse] at nodup
    exact nodup
  intro kv member uri parameter
  have listed : kv.1 ∈ pollNames := by
    rw [← poll.settings_names]
    exact mem_map_of_mem member
  obtain ⟨l, inside, sets⟩ := exists_left_of_mem collected.leaves (all kv member)
  obtain ⟨known, collects⟩ := mem_filter.mp inside
  rw [mem_reverse] at known
  obtain ⟨name, named, shape⟩ := bound.parameter l known collects
  have node : l.node = pollNode name := congrArg Leaf.node shape
  have same : name = kv.1 := by
    rw [← sets.name, node, lastComponent_pollNode (pollNames_clean name named)]
  have leaf : l = parameterLeaf provider kv.1 kv.2 := by
    rw [shape, sets.replaces, sets.value, same]
    rfl
  have own : l ∈ leaves.filter Leaf.setsPoll := mem_filter.mpr ⟨known, collects⟩
  have once := filter_eq_singleton names own
  have key : lastComponent l.node = kv.1 := sets.name
  rw [← leaf, ← once, List.filter_filter]
  refine List.filter_congr fun other member' => ?_
  obtain ⟨req, traced⟩ := bound.traced other member'
  rw [Bool.eq_iff_iff, Bool.and_eq_true, decide_eq_true_eq, key]
  constructor
  · intro touched
    obtain ⟨collects', node', -⟩ :=
      setsPoll_of_touches table traced member' sheltered listed parameter touched
    refine ⟨?_, collects'⟩
    rw [node', lastComponent_pollNode (pollNames_clean kv.1 listed)]
  · rintro ⟨named', collects'⟩
    have again : other = l := by
      have known' : other ∈ (leaves.filter Leaf.setsPoll).filter
          (fun b => lastComponent b.node = lastComponent l.node) := by
        refine mem_filter.mpr ⟨mem_filter.mpr ⟨member', collects'⟩, ?_⟩
        rw [decide_eq_true_eq, named', key]
      rw [once] at known'
      exact List.mem_singleton.mp known'
    rw [again, leaf]
    exact touches_parameter parameter _

end

section

variable {env : Natives}

theorem accepted_of_sheltered (table : PollTable env.nodes) {provider : String} {r : Request}
    {resolved : Resolved} (resolves : r.resolve env = .ok resolved)
    (bound : r.validateProvider provider = .ok ()) (accepted : r.validatePoll = .ok ())
    (sheltered : PollSheltered provider resolved.leaves) :
    (PollKept provider resolved.leaves ∨ ∃ poll : Poll, poll.validate = .ok () ∧
      PollWritten provider resolved.leaves poll) ∧ PollSafe provider resolved.leaves := by
  have bounds := Request.resolve_bound table resolves bound
  obtain ⟨parameters, settings, collected, whole⟩ := validatePoll_collects table resolves accepted
  have sets : ∀ name ∈ pollNames, ∀ uri, identity (pollNode name) [provider] = .ok uri →
      ∀ leaf ∈ resolved.leaves, leaf.touches uri = true → ∃ kv ∈ settings,
        Sets leaf.node leaf.operation leaf.value kv := by
    intro name member uri parameter leaf inside touched
    obtain ⟨own, traced⟩ := bounds.traced leaf inside
    have collects :=
      (setsPoll_of_touches table traced inside sheltered member parameter touched).1
    have listed : leaf ∈ resolved.leaves.reverse.filter Leaf.setsPoll :=
      mem_filter.mpr ⟨mem_reverse.mpr inside, collects⟩
    exact exists_right_of_mem collected.leaves listed
  constructor
  · rcases whole with rfl | ⟨poll, valid, all⟩
    · left
      intro name member uri parameter leaf inside
      rw [Bool.eq_false_iff]
      intro touched
      obtain ⟨kv, none, -⟩ := sets name member uri parameter leaf inside touched
      exact nomatch none
    · right
      exact ⟨poll, valid, collected.written table bounds sheltered all⟩
  · intro name member uri parameter leaf inside touched
    obtain ⟨kv, -, own⟩ := sets name member uri parameter leaf inside touched
    exact own.replaces

theorem sheltered_of_safe {provider : String} {leaves : List Leaf}
    (safe : PollSafe provider leaves) :
    PollSheltered provider leaves := by
  intro leaf inside deletes above identified name member uri parameter
  rw [Bool.eq_false_iff]
  intro under
  have touched : leaf.touches uri = true := by
    unfold Leaf.touches
    rw [identified, deletes]
    dsimp only
    rw [under, Bool.or_true]
  have replaces := safe name member uri parameter leaf inside touched
  rw [deletes] at replaces
  cases replaces

end

section

variable {env : Natives}

theorem parameterValue_integer (n : UInt32) :
    parameterValue (integerText n) "integer" = .ok (.integer (Int64.ofInt n.toNat)) := by
  have small := n.toNat_lt
  have read : parseI64 (integerText n) = some (n.toNat : Int) :=
    Lib.Json.parseI64_decimal (by omega) (by omega)
  rw [parameterValue, if_neg (by decide), read]

theorem parameterValue_boolean (b : Bool) :
    parameterValue (booleanText b) "boolean" = .ok (.boolean b) := by
  cases b <;> rfl

def settingNode (provider : String) (kv : String × Value) : Request :=
  .node (pollNode kv.1) [provider] .replace (some kv.2)

theorem mapM_parameters (provider : String) (poll : Poll) :
    (poll.parameters.mapM fun (name, value, kind) => do
      let value ← parameterValue value kind
      .ok (Request.node (pollNode name) [provider] .replace (some value))) =
      .ok (poll.settings.map (settingNode provider)) := by
  rw [mapM_eq_ok]
  have integer : ∀ (name : String) (n : UInt32), (do
      let value ← parameterValue (integerText n) "integer"
      .ok (Request.node (pollNode name) [provider] .replace (some value))) =
      .ok (settingNode provider (name, .integer (Int64.ofInt n.toNat))) := by
    intro name n
    rw [parameterValue_integer]
    rfl
  have boolean : ∀ (name : String) (b : Bool), (do
      let value ← parameterValue (booleanText b) "boolean"
      .ok (Request.node (pollNode name) [provider] .replace (some value))) =
      .ok (settingNode provider (name, .boolean b)) := by
    intro name b
    rw [parameterValue_boolean]
    rfl
  exact .cons (integer _ _) (.cons (integer _ _) (.cons (integer _ _) (.cons (integer _ _)
    (.cons (integer _ _) (.cons (integer _ _) (.cons (boolean _ _) (.cons (boolean _ _)
      .nil)))))))

theorem pollSchedule_eq (provider : String) {poll : Poll} (valid : poll.validate = .ok ()) :
    Request.pollSchedule provider poll =
      .ok (.sequence (poll.settings.map (settingNode provider))) := by
  rw [Request.pollSchedule, valid, mapM_parameters]
  rfl

theorem foldlM_unit_of {α ε : Type} {f : Unit → α → Except ε Unit} {as : List α}
    (all : ∀ a ∈ as, f () a = .ok ()) : as.foldlM f () = .ok () := by
  induction as with
  | nil => rfl
  | cons a _ ih =>
    rw [foldlM_cons, all a List.mem_cons_self]
    exact ih fun b member => all b (List.mem_cons_of_mem a member)

theorem schedule_bound (provider : String) (poll : Poll) :
    (Request.sequence (poll.settings.map (settingNode provider))).validateProvider provider =
      .ok () := by
  have counted : (Request.sequence (poll.settings.map (settingNode provider))).commandCount =
      .ok 9 := by rfl
  have leaves : (Request.sequence (poll.settings.map (settingNode provider))).leafRequests =
      poll.settings.map (settingNode provider) := by rfl
  have others : ∀ name ∈ pollNames, pollNode name ≠ "./SyncML/DMAcc/*/ServerID" ∧
      pollNode name ≠ "./Device/Vendor/MSFT/DMClient/Unenroll" := by decide
  rw [Request.validateProvider, counted, ok_bind, popLoop_request, leaves]
  refine foldlM_unit_of fun a member => ?_
  obtain ⟨kv, inside, rfl⟩ := mem_map.mp (mem_reverse.mp member)
  have listed : kv.1 ∈ pollNames := by
    rw [← poll.settings_names]
    exact mem_map_of_mem inside
  obtain ⟨server, unenroll⟩ := others kv.1 listed
  have front : [provider].head? = some provider := rfl
  have visit : visitLeaf (providerVisit provider) () (settingNode provider kv) =
      providerVisit provider () (pollNode kv.1) [provider] .replace (some kv.2) := rfl
  rw [visit, providerVisit, front, contains_provider]
  simp [server, unenroll]

theorem setsPoll_parameter (provider : String) (kv : String × Value) :
    (parameterLeaf provider kv.1 kv.2).setsPoll = true := by
  have folder := contains_pollNode kv.1
  exact Bool.and_eq_true_iff.mpr ⟨folder, rfl⟩

theorem sets_parameter {poll : Poll} {kv : String × Value}
    (member : kv ∈ poll.settings) :
    Sets (pollNode kv.1) .replace (some kv.2) kv := by
  have listed : kv.1 ∈ pollNames := by
    rw [← poll.settings_names]
    exact mem_map_of_mem member
  exact ⟨rfl, lastComponent_pollNode (pollNames_clean kv.1 listed), rfl⟩

theorem Sets.unique {node : String} {operation : Verb} {value : Option Value}
    {kv kv' : String × Value} (sets : Sets node operation value kv)
    (sets' : Sets node operation value kv') : kv = kv' :=
  Prod.ext (sets.name.symm.trans sets'.name) (Option.some.inj (sets.value.symm.trans sets'.value))

end

section

variable {env : Natives}

theorem schedule_accepted (provider : String) {poll : Poll} (valid : poll.validate = .ok ()) :
    (Request.sequence (poll.settings.map (settingNode provider))).validatePoll = .ok () := by
  have leaves : (Request.sequence (poll.settings.map (settingNode provider))).leafRequests =
      poll.settings.map (settingNode provider) := by rfl
  have visits : ∀ s, (poll.settings.map (settingNode provider)).reverse.foldlM
      (visitLeaf pollVisit) s = (poll.settings.reverse.map
        (fun kv => parameterLeaf provider kv.1 kv.2)).foldlM visitPoll s := by
    intro s
    rw [← map_reverse, List.foldlM_map, List.foldlM_map]
    rfl
  have related : List.Forall₂
      (fun l kv => l.setsPoll = true ∧ Sets l.node l.operation l.value kv)
      (poll.settings.reverse.map (fun kv => parameterLeaf provider kv.1 kv.2))
      poll.settings.reverse := by
    rw [List.forall₂_map_left_iff, List.forall₂_same]
    intro kv member
    exact ⟨setsPoll_parameter provider kv, sets_parameter (mem_reverse.mp member)⟩
  have distinct : (poll.settings.reverse.map Prod.fst).Nodup := by
    rw [map_reverse, List.nodup_reverse, poll.settings_names]
    exact pollNames_nodup
  have fresh : ∀ kv ∈ poll.settings.reverse, (∅ : Std.TreeMap String Value)[kv.1]? = none :=
    fun kv _ => Std.TreeMap.getElem?_emptyc
  obtain ⟨parameters, run⟩ := foldlM_visitPoll_of related distinct fresh
  obtain ⟨settings, collected⟩ := foldlM_visitPoll run
  have all : (poll.settings.reverse.map
      (fun kv => parameterLeaf provider kv.1 kv.2)).filter Leaf.setsPoll =
        poll.settings.reverse.map (fun kv => parameterLeaf provider kv.1 kv.2) := by
    rw [List.filter_eq_self]
    intro l member
    obtain ⟨kv, -, rfl⟩ := mem_map.mp member
    exact setsPoll_parameter provider kv
  have pairs := collected.leaves
  rw [all] at pairs
  have size : parameters.size = 8 := by
    have length := pairs.length_eq
    rw [List.length_map, List.length_reverse] at length
    rw [collected.size, ← length]
    rfl
  have read : readPoll parameters = .ok poll := by
    rw [readPoll_eq_ok]
    intro kv member
    have listed : parameterLeaf provider kv.1 kv.2 ∈ poll.settings.reverse.map
        (fun kv => parameterLeaf provider kv.1 kv.2) :=
      mem_map_of_mem (mem_reverse.mpr member)
    obtain ⟨own, inside, sets⟩ := exists_right_of_mem pairs listed
    have same : kv = own := (sets_parameter member).unique sets
    rw [collected.entry, same]
    exact .inl inside
  have inhabited : parameters.isEmpty = false := by
    rw [Std.TreeMap.isEmpty_eq_size_eq_zero, size]
    rfl
  rw [Request.validatePoll, popLoop_request, leaves, visits, run, ok_bind, inhabited,
    if_neg Bool.false_ne_true, read, ok_bind, if_neg (not_not.mpr size), valid]
  rfl

theorem schedule_written (table : PollTable env.nodes) (provider : String) {poll : Poll}
    (valid : poll.validate = .ok ()) {resolved : Resolved}
    (resolves : (Request.sequence (poll.settings.map (settingNode provider))).resolve env =
      .ok resolved) : PollWritten provider resolved.leaves poll := by
  have leaves : (Request.sequence (poll.settings.map (settingNode provider))).leafRequests =
      poll.settings.map (settingNode provider) := by rfl
  have traced := Request.resolve_traced table resolves
  rw [leaves] at traced
  have bounds := Request.resolve_bound table resolves (schedule_bound provider poll)
  obtain ⟨parameters, settings, collected, -⟩ :=
    validatePoll_collects table resolves (schedule_accepted provider valid)
  have sheltered : PollSheltered provider resolved.leaves := by
    intro leaf inside deletes
    obtain ⟨req, member, own⟩ := exists_left_of_mem traced inside
    obtain ⟨kv, -, rfl⟩ := mem_map.mp member
    obtain ⟨instances, value, same, -⟩ := own.request
    rw [deletes] at same
    injection same with _ _ operation _
    cases operation
  refine collected.written table bounds sheltered fun kv member => ?_
  obtain ⟨leaf, inside, own⟩ := exists_right_of_mem traced
    (mem_map_of_mem (f := settingNode provider) member)
  obtain ⟨instances, value, same, whole⟩ := own.request
  injection same with node given operation valued
  have collects : leaf.setsPoll = true := by
    have parameter := setsPoll_parameter provider kv
    rw [Leaf.setsPoll, ← node, ← operation]
    exact parameter
  have shape := (whole collects).1
  have listed : leaf ∈ resolved.leaves.reverse.filter Leaf.setsPoll :=
    mem_filter.mpr ⟨mem_reverse.mpr inside, collects⟩
  obtain ⟨own', member', sets⟩ := exists_right_of_mem collected.leaves listed
  have value' : leaf.value = some kv.2 := (congrArg Leaf.value shape).trans valued.symm
  rw [← node, ← operation, value'] at sets
  have equal : kv = own' := (sets_parameter member).unique sets
  exact equal ▸ member'

/-- An accepted change keeps a provider's schedule or writes a valid one whole, and touches its
parameters by replacement only, exactly when nothing above them is deleted; the request of a valid
schedule is accepted and writes it. -/
theorem polling_complete (env : Natives) (table : PollTable env.nodes) :
    (∀ (provider : String) (r : Request) (resolved : Resolved), r.resolve env = .ok resolved →
      r.validateProvider provider = .ok () → r.validatePoll = .ok () →
        (((PollKept provider resolved.leaves ∨ ∃ poll : Poll, poll.validate = .ok () ∧
          PollWritten provider resolved.leaves poll) ∧ PollSafe provider resolved.leaves) ↔
            PollSheltered provider resolved.leaves)) ∧
      ∀ (provider : String) (poll : Poll), poll.validate = .ok () →
        ∃ r, Request.pollSchedule provider poll = .ok r ∧ r.validateProvider provider = .ok () ∧
          r.validatePoll = .ok () ∧ r.leafRequests = poll.settings.map (settingNode provider) ∧
            ∀ resolved, r.resolve env = .ok resolved →
              PollWritten provider resolved.leaves poll := by
  constructor
  · intro provider r resolved resolves bound accepted
    constructor
    · rintro ⟨-, safe⟩
      exact sheltered_of_safe safe
    · exact accepted_of_sheltered table resolves bound accepted
  · intro provider poll valid
    refine ⟨_, pollSchedule_eq provider valid, schedule_bound provider poll,
      schedule_accepted provider valid, rfl, fun resolved resolves => ?_⟩
    exact schedule_written table provider valid resolves

end

/-- Three rows of the generated table. -/
def providerNode : Node :=
  { path := "./Device/Vendor/MSFT/DMClient/Provider/*", preview := false,
    boundedBranches := false, certificateBuilds := [], format := .node, access := 11,
    builds := [⟨10, 0, 10240, 0⟩], editions := some ["0x4", "0x1B"], mime := "",
    lifetime := "Dynamic", atomic := false, constraints := [] }

def pollFolderNode : Node :=
  { providerNode with path := "./Device/Vendor/MSFT/DMClient/Provider/*/Poll" }

def pollOnLoginNode : Node :=
  { providerNode with
    path := "./Device/Vendor/MSFT/DMClient/Provider/*/Poll/PollOnLogin", format := .boolean,
    access := 15 }

def providerNatives : Natives :=
  { sampleNatives with nodes := [providerNode, pollFolderNode, pollOnLoginNode] }

theorem providerNatives_table : PollTable providerNatives.nodes := by
  have parameters : ∀ n ∈ [providerNode, pollFolderNode, pollOnLoginNode],
      contains n.path "/DMClient/Provider/*/Poll/" = true → n.path = pollNode "PollOnLogin" := by
    decide
  have provider : splitAt providerNode.path '/' =
      [".", "Device", "Vendor", "MSFT", "DMClient", "Provider", "*"] := by decide
  have folder : splitAt pollFolderNode.path '/' =
      [".", "Device", "Vendor", "MSFT", "DMClient", "Provider", "*", "Poll"] := by decide
  have login := splitAt_pollNode (pollNames_clean "PollOnLogin" (by decide))
  refine ⟨by decide, fun n known inside => ?_, fun n known name member meet => ?_⟩
  · exact ⟨"PollOnLogin", by decide, parameters n known inside⟩
  · rw [splitAt_pollNode (pollNames_clean name member)] at meet
    have cases : n = providerNode ∨ n = pollFolderNode ∨ n = pollOnLoginNode := by
      simpa [providerNatives] using known
    rcases cases with rfl | rfl | rfl
    · rw [provider] at meet
      simp [overlaps] at meet
    · rw [folder] at meet
      simp [overlaps] at meet
    have path : splitAt pollOnLoginNode.path '/' = splitAt (pollNode "PollOnLogin") '/' := rfl
    rw [path, login] at meet
    have same : "PollOnLogin" = name ∨ name = "*" := by
      simpa [overlaps, or_comm] using meet
    rcases same with rfl | star
    · rfl
    · rw [star] at member
      exact absurd member (by decide)

def providerRequest (verb : Verb) : Request := .node providerNode.path ["MDM"] verb none

def providerDeletion : Request := providerRequest .delete

theorem identity_provider : identity providerNode.path ["MDM"] =
    .ok "./Device/Vendor/MSFT/DMClient/Provider/MDM" := by rfl

theorem identity_pollOnLogin : identity (pollNode "PollOnLogin") ["MDM"] =
    .ok "./Device/Vendor/MSFT/DMClient/Provider/MDM/Poll/PollOnLogin" := by rfl

section

variable (verb : Verb)

theorem provider_resolves (allowed : permits providerNode verb = true) : ∃ resolved,
    (providerRequest verb).resolve providerNatives = .ok resolved ∧
      resolved.leaves = [⟨providerNode.path, ["MDM"], verb, none, none, []⟩] := by
  have known : schema providerNatives.nodes providerNode.path = .ok providerNode := by rfl
  have plain : declaredNode providerNode.path = false := by decide
  obtain ⟨targets, resolves⟩ := resolveNode_plain known allowed identity_provider plain none
  rw [providerRequest, Request.resolve_node, resolves, ok_bind]
  exact ⟨_, rfl, rfl⟩

theorem provider_accepted (sets : setsPoll providerNode.path verb = false)
    (bound : providerVisit "MDM" () providerNode.path ["MDM"] verb none = .ok ()) :
    (providerRequest verb).validateProvider "MDM" = .ok () ∧
      (providerRequest verb).validatePoll = .ok () := by
  constructor
  · have counted : (providerRequest verb).commandCount = .ok 1 := by rfl
    rw [Request.validateProvider, counted, ok_bind, popLoop_request]
    exact foldlM_unit_of fun a member => by
      rw [mem_reverse] at member
      rw [List.mem_singleton.mp member]
      exact bound
  · have visit : visitLeaf pollVisit ∅ (providerRequest verb) = .ok ∅ := by
      have own : visitLeaf pollVisit ∅ (providerRequest verb) =
          pollVisit ∅ providerNode.path ["MDM"] verb none := rfl
      rw [own, pollVisit, sets]
      rfl
    have leaves : (providerRequest verb).leafRequests.reverse = [providerRequest verb] := rfl
    rw [Request.validatePoll, popLoop_request, leaves, foldlM_cons, visit]
    rfl

end

theorem providerDeletion_accepted : providerDeletion.validateProvider "MDM" = .ok () ∧
    providerDeletion.validatePoll = .ok () := by
  refine provider_accepted .delete (by decide) ?_
  unfold providerVisit
  rw [if_neg (by decide), if_neg (by decide), if_neg (by decide)]

/-- The deletion of a provider is accepted and takes its polling schedule with it. -/
theorem provider_unsheltered : ∃ resolved,
    providerDeletion.resolve providerNatives = .ok resolved ∧
      providerDeletion.validateProvider "MDM" = .ok () ∧ providerDeletion.validatePoll = .ok () ∧
        ¬ PollKept "MDM" resolved.leaves ∧
          (¬ ∃ poll : Poll, poll.validate = .ok () ∧ PollWritten "MDM" resolved.leaves poll) ∧
            ¬ PollSafe "MDM" resolved.leaves := by
  obtain ⟨resolved, resolves, leaves⟩ := provider_resolves .delete (by decide)
  obtain ⟨bound, accepted⟩ := providerDeletion_accepted
  have member : "PollOnLogin" ∈ pollNames := by decide
  have touched : Leaf.touches ⟨providerNode.path, ["MDM"], .delete, none, none, []⟩
      "./Device/Vendor/MSFT/DMClient/Provider/MDM/Poll/PollOnLogin" = true := by
    unfold Leaf.touches
    dsimp only
    rw [identity_provider]
    decide
  refine ⟨resolved, resolves, bound, accepted, ?_, ?_, ?_⟩
  · intro kept
    rw [leaves] at kept
    have kept' := kept _ member _ identity_pollOnLogin _ (List.mem_singleton_self _)
    rw [touched] at kept'
    cases kept'
  · rintro ⟨poll, -, written⟩
    have setting : ("PollOnLogin", Value.boolean poll.pollOnLogin) ∈ poll.settings := by
      simp [Poll.settings]
    have once := written _ setting _ identity_pollOnLogin
    have own :=
      List.mem_singleton_self (parameterLeaf "MDM" "PollOnLogin" (.boolean poll.pollOnLogin))
    rw [← once, leaves] at own
    have same := List.mem_singleton.mp (mem_filter.mp own).1
    cases congrArg Leaf.operation same
  · intro safe
    rw [leaves] at safe
    have replaces := safe _ member _ identity_pollOnLogin _ (List.mem_singleton_self _) touched
    cases replaces

def hourly : Poll := ⟨15, 8, 60, 0, 0, 0, true, true⟩

/-- The deletion of a provider is not sheltered, by the theorem above; a read of it is. -/
theorem provider_polling :
    (∃ resolved, providerDeletion.resolve providerNatives = .ok resolved ∧
      (((PollKept "MDM" resolved.leaves ∨ ∃ poll : Poll, poll.validate = .ok () ∧
        PollWritten "MDM" resolved.leaves poll) ∧ PollSafe "MDM" resolved.leaves) ↔
          PollSheltered "MDM" resolved.leaves)) ∧
    (∃ resolved, (providerRequest .get).resolve providerNatives = .ok resolved ∧
      (PollKept "MDM" resolved.leaves ∨ ∃ poll : Poll, poll.validate = .ok () ∧
        PollWritten "MDM" resolved.leaves poll) ∧ PollSafe "MDM" resolved.leaves) ∧
    ∃ r, Request.pollSchedule "MDM" hourly = .ok r ∧ r.validateProvider "MDM" = .ok () ∧
      r.validatePoll = .ok () ∧ r.leafRequests = hourly.settings.map (settingNode "MDM") := by
  have complete := polling_complete providerNatives providerNatives_table
  refine ⟨?_, ?_, ?_⟩
  · obtain ⟨resolved, resolves, -⟩ := provider_resolves .delete (by decide)
    obtain ⟨bound, accepted⟩ := providerDeletion_accepted
    exact ⟨resolved, resolves, complete.1 "MDM" providerDeletion resolved resolves bound accepted⟩
  · obtain ⟨resolved, resolves, leaves⟩ := provider_resolves .get (by decide)
    obtain ⟨bound, accepted⟩ := provider_accepted .get (by decide) (by rfl)
    have sheltered : PollSheltered "MDM" resolved.leaves := by
      intro leaf inside deletes
      rw [leaves] at inside
      rw [List.mem_singleton.mp inside] at deletes
      cases deletes
    exact ⟨resolved, resolves,
      (complete.1 "MDM" _ resolved resolves bound accepted).mpr sheltered⟩
  · obtain ⟨r, schedule, bound, accepted, requests, -⟩ := complete.2 "MDM" hourly (by decide)
    exact ⟨r, schedule, bound, accepted, requests⟩

end RssMdm.WindowsMdm.Native
