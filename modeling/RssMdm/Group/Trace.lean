/- module: Group/Trace
   source: crates/group/src/evaluation.rs, crates/group/src/rule.rs
   digest: The explanations of a context name every leaf once, in preorder, and determine the
   decision. -/

import RssMdm.Group.Refinement

set_option autoImplicit false

namespace RssMdm.Group

open Lib Lib.Fallible Lib.Kleene Lib.Outcome

variable {TenantId Timepoint Number : Type} [LinearOrder TenantId] [LinearOrder Timepoint]
  [Floating Number]

inductive Leaf (Timepoint Number : Type) [LinearOrder Timepoint] [Floating Number] where
  | predicate (p : Predicate Timepoint Number)
  | membership (group : String) (negated : Bool)

def Leaf.predicate? : Leaf Timepoint Number → Option (Predicate Timepoint Number)
  | .predicate p => some p
  | .membership _ _ => none

mutual

/-- The leaves below a path with their own paths, in preorder. -/
def Criteria.leaves (path : List Nat) :
    Criteria Timepoint Number → List (List Nat × Leaf Timepoint Number)
  | .predicate p => [(path, .predicate p)]
  | .membership group negated => [(path, .membership group negated)]
  | .and children | .or children => Criteria.leavesAll path 0 children

def Criteria.leavesAll (path : List Nat) (i : Nat) :
    List (Criteria Timepoint Number) → List (List Nat × Leaf Timepoint Number)
  | [] => []
  | c :: rest => c.leaves (path ++ [i]) ++ Criteria.leavesAll path (i + 1) rest

end

mutual

/-- The Kleene fold of a tree whose leaves are looked up by their paths. -/
def Criteria.refold (look : List Nat → Truth) (path : List Nat) : Criteria Timepoint Number → Truth
  | .predicate _ | .membership _ _ => look path
  | .and children => Truth.allOf (Criteria.refolds look path 0 children)
  | .or children => Truth.anyOf (Criteria.refolds look path 0 children)

def Criteria.refolds (look : List Nat → Truth) (path : List Nat) (i : Nat) :
    List (Criteria Timepoint Number) → List Truth
  | [] => []
  | c :: rest => c.refold look (path ++ [i]) :: Criteria.refolds look path (i + 1) rest

end

def listed (explanations : List Explanation) (path : List Nat) : Truth :=
  match explanations.find? (fun e => e.path = path) with
  | some e => e.outcome.decision.truth
  | none => .unknown

/-- The loop of `predicate_at` over the indices of a path. -/
def Criteria.descend : List Nat → Criteria Timepoint Number → Option (Criteria Timepoint Number)
  | [], c => some c
  | i :: path, .and children | i :: path, .or children =>
      match children[i]? with
      | none => none
      | some child => child.descend path
  | _ :: _, .predicate _ | _ :: _, .membership _ _ => none

def Rule.predicateAt (r : Rule Timepoint Number TenantId) (path : List Nat) :
    Option (Predicate Timepoint Number) :=
  match r.criteria.descend path with
  | some (.predicate p) => some p
  | _ => none

def Leaf.criteria : Leaf Timepoint Number → Criteria Timepoint Number
  | .predicate p => .predicate p
  | .membership group negated => .membership group negated

mutual

theorem descend_leaves (c : Criteria Timepoint Number) {path : List Nat}
    {l : List Nat × Leaf Timepoint Number} (h : l ∈ c.leaves path) :
    ∃ t, l.1 = path ++ t ∧ c.descend t = some l.2.criteria := by
  match c with
  | .predicate _ | .membership _ _ =>
    cases List.mem_singleton.mp h
    exact ⟨[], (List.append_nil path).symm, rfl⟩
  | .and children | .or children =>
    obtain ⟨j, t, child, at_, found, below⟩ := descend_leavesAll children h
    rw [Nat.zero_add] at at_
    exact ⟨j :: t, at_, by rw [Criteria.descend, found]; exact below⟩

theorem descend_leavesAll (cs : List (Criteria Timepoint Number)) {path : List Nat} {i : Nat}
    {l : List Nat × Leaf Timepoint Number} (h : l ∈ Criteria.leavesAll path i cs) :
    ∃ j t child, l.1 = path ++ (i + j) :: t ∧ cs[j]? = some child ∧
      child.descend t = some l.2.criteria := by
  match cs with
  | [] => cases h
  | c :: rest =>
    rw [Criteria.leavesAll, List.mem_append] at h
    rcases h with here | later
    · obtain ⟨t, at_, below⟩ := descend_leaves c here
      exact ⟨0, t, c, by rw [at_]; simp, rfl, below⟩
    · obtain ⟨j, t, child, at_, found, below⟩ := descend_leavesAll rest later
      exact ⟨j + 1, t, child, by rw [at_, Nat.add_right_comm]; rfl, found, below⟩

end

omit [LinearOrder TenantId] in
theorem Rule.predicateAt_leaf {r : Rule Timepoint Number TenantId}
    {l : List Nat × Leaf Timepoint Number} (h : l ∈ r.criteria.leaves []) :
    r.predicateAt l.1 = l.2.predicate? := by
  obtain ⟨t, at_, below⟩ := descend_leaves r.criteria h
  rw [Rule.predicateAt, at_, List.nil_append, below]
  cases l.2 <;> rfl

mutual

theorem nodup_leaves (c : Criteria Timepoint Number) (path : List Nat) :
    ((c.leaves path).map Prod.fst).Nodup := by
  match c with
  | .predicate _ | .membership _ _ => exact List.nodup_singleton path
  | .and children | .or children => exact nodup_leavesAll children path 0

theorem nodup_leavesAll (cs : List (Criteria Timepoint Number)) (path : List Nat) (i : Nat) :
    ((Criteria.leavesAll path i cs).map Prod.fst).Nodup := by
  match cs with
  | [] => exact List.nodup_nil
  | c :: rest =>
    rw [Criteria.leavesAll, List.map_append]
    refine List.nodup_append.mpr ⟨nodup_leaves c _, nodup_leavesAll rest path (i + 1), ?_⟩
    rintro _ here _ later rfl
    obtain ⟨l, hl, at_⟩ := List.mem_map.mp here
    obtain ⟨l', hl', at'⟩ := List.mem_map.mp later
    obtain ⟨t, eq, -⟩ := descend_leaves c hl
    obtain ⟨j, t', _, eq', -⟩ := descend_leavesAll rest hl'
    -- the indices of two siblings differ right after their common path
    rw [← at_, eq, List.append_assoc] at at'
    have same := List.append_cancel_left (eq'.symm.trans at')
    have index := (List.cons.inj same).1
    omega

end

def leafOutcome (facts : Facts Timepoint Number) (memberships : OrdMap String Outcome) :
    Leaf Timepoint Number → Run Error Outcome
  | .predicate p => predicate (facts.get? p.field) p.op (p.operand.map Operand.value)
  | .membership group negated =>
      match memberships.get? group with
      | none => .error .panic
      | some value => .ok (membershipOutcome value negated)

/-- An entry of the explanations of a leaf. -/
def Traces (facts : Facts Timepoint Number) (memberships : OrdMap String Outcome)
    (e : Explanation) (l : List Nat × Leaf Timepoint Number) : Prop :=
  e.path = l.1 ∧ leafOutcome facts memberships l.2 = .ok e.outcome

variable {facts : Facts Timepoint Number} {memberships : OrdMap String Outcome}

mutual

theorem evaluateNode_trace (c : Criteria Timepoint Number) {path : List Nat}
    {out out' : List Explanation} {decision : Decision}
    (h : evaluateNode facts memberships path out c = .ok (decision, out')) :
    ∃ added, out' = out ++ added ∧
      List.Forall₂ (Traces facts memberships) added (c.leaves path) ∧
      ∀ look : List Nat → Truth, (∀ e ∈ added, look e.path = e.outcome.decision.truth) →
        decision.truth = c.refold look path := by
  match c with
  | .predicate p =>
    rw [evaluateNode] at h
    obtain ⟨outcome, tested, h⟩ := of_bind h
    cases h
    refine ⟨_, rfl, .cons ⟨rfl, tested⟩ .nil, fun look agrees => ?_⟩
    exact (agrees _ (.head _)).symm
  | .membership group negated =>
    rw [evaluateNode] at h
    split at h
    · cases h
    rename_i value found
    cases h
    refine ⟨_, rfl, .cons ⟨rfl, by rw [leafOutcome, found]⟩ .nil, fun look agrees => ?_⟩
    exact (agrees _ (.head _)).symm
  | .and children =>
    rw [evaluateNode] at h
    obtain ⟨added, eq, traces, folds⟩ := evaluateChildren_trace children Truth.conj combine_and h
    refine ⟨added, eq, traces, fun look agrees => ?_⟩
    rw [folds look agrees, Truth.foldl_conj]
    rfl
  | .or children =>
    rw [evaluateNode] at h
    obtain ⟨added, eq, traces, folds⟩ := evaluateChildren_trace children Truth.disj combine_or h
    refine ⟨added, eq, traces, fun look agrees => ?_⟩
    rw [folds look agrees, Truth.foldl_disj]
    rfl

theorem evaluateChildren_trace (cs : List (Criteria Timepoint Number)) {path : List Nat}
    {decisive result decision : Decision} {i : Nat} {out out' : List Explanation}
    (op : Truth → Truth → Truth)
    (combines : ∀ result value, (combine decisive result value).truth = op result.truth value.truth)
    (h : evaluateChildren facts memberships path decisive i result out cs = .ok (decision, out')) :
    ∃ added, out' = out ++ added ∧
      List.Forall₂ (Traces facts memberships) added (Criteria.leavesAll path i cs) ∧
      ∀ look : List Nat → Truth, (∀ e ∈ added, look e.path = e.outcome.decision.truth) →
        decision.truth = (Criteria.refolds look path i cs).foldl op result.truth := by
  match cs with
  | [] =>
    rw [evaluateChildren] at h
    cases h
    exact ⟨[], (List.append_nil out).symm, .nil, fun _ _ => rfl⟩
  | c :: rest =>
    rw [evaluateChildren] at h
    obtain ⟨⟨value, between⟩, first, h⟩ := of_bind h
    obtain ⟨head, rfl, traces, folds⟩ := evaluateNode_trace c first
    obtain ⟨tail, rfl, traces', folds'⟩ := evaluateChildren_trace rest op combines h
    refine ⟨head ++ tail, List.append_assoc .., List.rel_append traces traces', ?_⟩
    intro look agrees
    rw [folds' look (fun e he => agrees e (List.mem_append_right _ he)), combines,
      folds look (fun e he => agrees e (List.mem_append_left _ he))]
    rfl

end

mutual

/-- `evaluate_node` as the source has it: one path is pushed and popped around each child. -/
def walk (facts : Facts Timepoint Number) (memberships : OrdMap String Outcome)
    (path : List Nat) (out : List Explanation) :
    Criteria Timepoint Number → Run Error (Decision × List Nat × List Explanation)
  | .membership group negated => do
      let outcome ← leafOutcome facts memberships (.membership group negated)
      .ok (outcome.decision, path, out ++ [⟨path, outcome⟩])
  | .predicate p => do
      let outcome ← leafOutcome facts memberships (.predicate p)
      .ok (outcome.decision, path, out ++ [⟨path, outcome⟩])
  | .and children => walkChildren facts memberships path .noMatch 0 .isMatch out children
  | .or children => walkChildren facts memberships path .isMatch 0 .noMatch out children

def walkChildren (facts : Facts Timepoint Number) (memberships : OrdMap String Outcome)
    (path : List Nat) (decisive : Decision) (i : Nat) (result : Decision) (out : List Explanation) :
    List (Criteria Timepoint Number) → Run Error (Decision × List Nat × List Explanation)
  | [] => .ok (result, path, out)
  | child :: rest => do
      let (value, path, out) ← walk facts memberships (path ++ [i]) out child
      walkChildren facts memberships path.dropLast decisive (i + 1) (combine decisive result value)
        out rest

end

mutual

theorem walk_eq (c : Criteria Timepoint Number) (path : List Nat) (out : List Explanation) :
    walk facts memberships path out c =
      (evaluateNode facts memberships path out c).map (fun v => (v.1, path, v.2)) := by
  match c with
  | .predicate p =>
    rw [walk, evaluateNode, leafOutcome]
    cases predicate (facts.get? p.field) p.op (p.operand.map Operand.value) <;> rfl
  | .membership group negated =>
    rw [walk, evaluateNode, leafOutcome]
    cases memberships.get? group <;> rfl
  | .and children | .or children => rw [walk, evaluateNode, walkChildren_eq children]

theorem walkChildren_eq (cs : List (Criteria Timepoint Number)) (path : List Nat)
    (decisive : Decision) (i : Nat) (result : Decision) (out : List Explanation) :
    walkChildren facts memberships path decisive i result out cs =
      (evaluateChildren facts memberships path decisive i result out cs).map
        (fun v => (v.1, path, v.2)) := by
  match cs with
  | [] => rw [walkChildren, evaluateChildren]; rfl
  | c :: rest =>
    rw [walkChildren, evaluateChildren, walk_eq c]
    cases evaluateNode facts memberships (path ++ [i]) out c with
    | error => rfl
    | ok v =>
      simp only [Except.map, ok_bind, List.dropLast_concat]
      exact walkChildren_eq rest path decisive (i + 1) (combine decisive result v.1) v.2

end

theorem listed_self {es : List Explanation} (nodup : (es.map Explanation.path).Nodup)
    {e : Explanation} (mem : e ∈ es) : listed es e.path = e.outcome.decision.truth := by
  rw [listed]
  split
  · rename_i e' found
    have same : e'.path = e.path := by simpa using List.find?_some found
    rw [List.inj_on_of_nodup_map nodup (List.mem_of_find?_eq_some found) mem same]
  · rename_i missing
    simpa using List.find?_eq_none.mp missing e mem

/-- The explanations of every evaluated context trace its rule. -/
theorem explanations_trace (r : Rule Timepoint Number TenantId)
    (s : PageInput TenantId Timepoint Number) (asOf : Timepoint) :
    (∀ l ∈ r.criteria.leaves [], r.predicateAt l.1 = l.2.predicate?) ∧
    ∀ e, evaluatePage r s asOf = .ok e → ∀ o ∈ e.objects, ∀ id c, o.contexts.get? id = some c →
      ∃ object ∈ s.objects, object.key = o.key ∧
        ∃ facts, object.contexts.get? id = some facts ∧
          walk facts object.memberships [] [] r.criteria = .ok (c.decision, [], c.explanations) ∧
          List.Forall₂ (Traces facts object.memberships) c.explanations (r.criteria.leaves []) ∧
          (c.explanations.map Explanation.path).Nodup ∧
          c.decision.truth = r.criteria.refold (listed c.explanations) [] := by
  refine ⟨fun l => Rule.predicateAt_leaf, ?_⟩
  intro e evaluated o ho id c context
  obtain ⟨admitted, rfl⟩ := evaluatePage_eq_ok.mp evaluated
  obtain ⟨object, mem, rfl⟩ := List.mem_map.mp ho
  change (contextEvaluations r object).get? id = some c at context
  rw [contextEvaluations, OrdMap.get?_mapValues] at context
  obtain ⟨facts, found, rfl⟩ := Option.map_eq_some_iff.mp context
  have fits := admission_objects admitted object mem
  obtain ⟨decision, explanations, returned, -⟩ := evaluateNode_returns (fits.fit id facts found)
    r.criteria r.typed fits.named [] []
  have result : contextEvaluation r object.memberships facts =
      ⟨decision, explanations, provenance r.required facts⟩ := by
    rw [contextEvaluation, returned]
    rfl
  obtain ⟨_, rfl, traces, folds⟩ := evaluateNode_trace r.criteria returned
  have paths : explanations.map Explanation.path = (r.criteria.leaves []).map Prod.fst := by
    rw [← List.forall₂_eq_eq_eq, List.forall₂_map_left_iff, List.forall₂_map_right_iff]
    exact traces.imp (fun _ _ h => h.1)
  have nodup := paths ▸ nodup_leaves r.criteria []
  refine ⟨object, mem, rfl, facts, found, ?_⟩
  rw [result]
  exact ⟨by rw [walk_eq, returned]; rfl, traces, nodup,
    folds _ (fun e he => listed_self nodup he)⟩

end RssMdm.Group
