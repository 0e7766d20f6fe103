/- module: Query/Prefilter
   source: crates/query-postgres/src/lib.rs
   digest: The SQL prefilter of a query whose unavailable fields are compared later keeps every row
   of the full filter. -/

import RssMdm.Query.Continuation

set_option autoImplicit false
set_option linter.dupNamespace false

namespace RssMdm.Query.Directory

open Lib.Fallible

/-- Necessary predicate for a query with fields evaluated by its domain later. -/
def prefilter (q : Query) (columns : Columns) (available : String → Bool) :
    Except QueryError Sql :=
  match q.filter with
  | none => .ok []
  | some e => do
      let sql ← expression q.schema columns available e
      .ok (push " AND " ++ sql)

mutual

/-- The condition that the prefilter spells: a whole unavailable comparison is TRUE. -/
def necessaryPredicate (schema : Schema) (available : String → Bool) :
    Expression String Json → Except QueryError Predicate
  | .compare field operator vs =>
      if !available field then .ok (.constant true)
      else comparePredicate schema field operator vs
  | .and children => do
      let parts ← necessaryPredicates schema available children
      .ok (.all parts)
  | .or children => do
      let parts ← necessaryPredicates schema available children
      .ok (.any parts)

def necessaryPredicates (schema : Schema) (available : String → Bool) :
    List (Expression String Json) → Except QueryError (List Predicate)
  | [] => .ok []
  | e :: rest => do
      let part ← necessaryPredicate schema available e
      let parts ← necessaryPredicates schema available rest
      .ok (part :: parts)

end

def prefilterConditions (q : Query) (available : String → Bool) :
    Except QueryError (List Predicate) :=
  match q.filter with
  | none => .ok []
  | some e => do
      let p ← necessaryPredicate q.schema available e
      .ok [p]

mutual

theorem expression_spells (schema : Schema) (columns : Columns) (available : String → Bool) :
    ∀ e : Expression String Json, expression schema columns available e =
      (necessaryPredicate schema available e).map (Predicate.render columns)
  | .compare field operator vs => by
      rw [expression, necessaryPredicate]
      by_cases present : available field = true
      · simpa only [present, Bool.not_true, Bool.false_eq_true, if_false] using
          comparison_render schema columns field operator vs
      · simp [present, Except.map, Predicate.render]
  | .and children | .or children => by
      rw [expression, necessaryPredicate, expressions_spell schema columns available children]
      cases necessaryPredicates schema available children <;> rfl

theorem expressions_spell (schema : Schema) (columns : Columns) (available : String → Bool) :
    ∀ es : List (Expression String Json), expressions schema columns available es =
      (necessaryPredicates schema available es).map (renderAll columns)
  | [] => rfl
  | e :: rest => by
      rw [expressions, necessaryPredicates, expression_spells schema columns available e,
        expressions_spell schema columns available rest]
      cases necessaryPredicate schema available e with
      | error => rfl
      | ok => cases necessaryPredicates schema available rest <;> rfl

end

/-- The text of conditions after the owner's base selection. -/
def conjoined (columns : Columns) (conditions : List Predicate) : Sql :=
  conditions.flatMap (fun p => push " AND " ++ p.render columns)

theorem prefilter_render (q : Query) (columns : Columns) (available : String → Bool) :
    prefilter q columns available =
      (prefilterConditions q available).map (conjoined columns) := by
  unfold prefilter prefilterConditions
  cases q.filter with
  | none => rfl
  | some e =>
    simp only [expression_spells]
    cases necessaryPredicate q.schema available e with
    | error => rfl
    | ok => simp [Except.map, conjoined]

variable (atom : Predicate → Option Bool)

mutual

/-- The truth value of a condition from those of its comparisons; `none` is unknown. -/
def Predicate.truth : Predicate → Option Bool
  | .constant b => some b
  | .all children => truthAll children
  | .any children => truthAny children
  | p => atom p

def truthAll : List Predicate → Option Bool
  | [] => some true
  | p :: rest => andNull (p.truth) (truthAll rest)

def truthAny : List Predicate → Option Bool
  | [] => some false
  | p :: rest => orNull (p.truth) (truthAny rest)

end

mutual

theorem truth_eval (db : Database) (row : Row) :
    ∀ p : Predicate, p.truth (Predicate.eval db row) = p.eval db row
  | .constant _ | .compare _ _ _ | .anyOf _ _ _ | .icontains _ _ | .isNull _ | .same _ _
  | .beyond _ _ _ => rfl
  | .all children => by
      rw [Predicate.truth, Predicate.eval, truthAll_eval db row children]
  | .any children => by
      rw [Predicate.truth, Predicate.eval, truthAny_eval db row children]

theorem truthAll_eval (db : Database) (row : Row) :
    ∀ ps : List Predicate, truthAll (Predicate.eval db row) ps = evalAll db row ps
  | [] => rfl
  | p :: rest => by
      rw [truthAll, evalAll, truth_eval db row p, truthAll_eval db row rest]

theorem truthAny_eval (db : Database) (row : Row) :
    ∀ ps : List Predicate, truthAny (Predicate.eval db row) ps = evalAny db row ps
  | [] => rfl
  | p :: rest => by
      rw [truthAny, evalAny, truth_eval db row p, truthAny_eval db row rest]

end

theorem andNull_eq_true {a b : Option Bool} :
    andNull a b = some true ↔ a = some true ∧ b = some true := by
  rcases a with _ | _ | _ <;> rcases b with _ | _ | _ <;> simp [andNull]

theorem orNull_eq_true {a b : Option Bool} :
    orNull a b = some true ↔ a = some true ∨ b = some true := by
  rcases a with _ | _ | _ <;> rcases b with _ | _ | _ <;> simp [orNull]

/-- A condition that holds wherever the other does, whatever the comparisons say. -/
def Implied (full necessary : Predicate) : Prop :=
  ∀ atom : Predicate → Option Bool,
    full.truth atom = some true → necessary.truth atom = some true

variable {necessaries fulls : List Predicate}

theorem truthAll_mono (implied : List.Forall₂ Implied fulls necessaries)
    (atom : Predicate → Option Bool) (holds : truthAll atom fulls = some true) :
    truthAll atom necessaries = some true := by
  induction implied with
  | nil => exact holds
  | cons first _ ih =>
    rw [truthAll, andNull_eq_true] at holds ⊢
    exact ⟨first atom holds.1, ih holds.2⟩

theorem truthAny_mono (implied : List.Forall₂ Implied fulls necessaries)
    (atom : Predicate → Option Bool) (holds : truthAny atom fulls = some true) :
    truthAny atom necessaries = some true := by
  induction implied with
  | nil => exact holds
  | cons first _ ih =>
    rw [truthAny, orNull_eq_true] at holds ⊢
    rcases holds with here | there
    · exact Or.inl (first atom here)
    · exact Or.inr (ih there)

mutual

theorem necessaryPredicate_implied (schema : Schema) (available : String → Bool) :
    ∀ {e : Expression String Json} {full : Predicate}, filterPredicate schema e = .ok full →
      ∃ necessary, necessaryPredicate schema available e = .ok necessary ∧ Implied full necessary
  | .compare field operator vs, full, spelled => by
      rw [filterPredicate] at spelled
      rw [necessaryPredicate]
      by_cases present : available field = true
      · refine ⟨full, ?_, fun _ holds => holds⟩
        simpa only [present, Bool.not_true, Bool.false_eq_true, if_false] using spelled
      · refine ⟨.constant true, by simp [present], fun _ _ => rfl⟩
  | .and children, full, spelled => by
      rw [filterPredicate, bind_eq_ok] at spelled
      obtain ⟨fulls, parts, done⟩ := spelled
      cases done
      obtain ⟨necessaries, built, implied⟩ :=
        necessaryPredicates_implied schema available parts
      refine ⟨.all necessaries, by rw [necessaryPredicate, built, ok_bind], ?_⟩
      intro atom holds
      exact truthAll_mono implied atom holds
  | .or children, full, spelled => by
      rw [filterPredicate, bind_eq_ok] at spelled
      obtain ⟨fulls, parts, done⟩ := spelled
      cases done
      obtain ⟨necessaries, built, implied⟩ :=
        necessaryPredicates_implied schema available parts
      refine ⟨.any necessaries, by rw [necessaryPredicate, built, ok_bind], ?_⟩
      intro atom holds
      exact truthAny_mono implied atom holds

theorem necessaryPredicates_implied (schema : Schema) (available : String → Bool) :
    ∀ {es : List (Expression String Json)} {fulls : List Predicate},
      filterPredicates schema es = .ok fulls →
      ∃ necessaries, necessaryPredicates schema available es = .ok necessaries ∧
        List.Forall₂ Implied fulls necessaries
  | [], fulls, spelled => by
      cases spelled
      exact ⟨[], rfl, .nil⟩
  | e :: rest, fulls, spelled => by
      rw [filterPredicates, bind_eq_ok] at spelled
      obtain ⟨full, first, others⟩ := spelled
      rw [bind_eq_ok] at others
      obtain ⟨fulls, later, done⟩ := others
      cases done
      obtain ⟨necessary, built, implied⟩ := necessaryPredicate_implied schema available first
      obtain ⟨necessaries, builtRest, impliedRest⟩ :=
        necessaryPredicates_implied schema available later
      refine ⟨necessary :: necessaries, ?_, .cons implied impliedRest⟩
      rw [necessaryPredicates, built, ok_bind, builtRest, ok_bind]

end

/-- The conditions of a query hold of a row: the WHERE clause is TRUE. -/
def met (atom : Predicate → Option Bool) (conditions : List Predicate) : Bool :=
  conditions.all (fun p => p.truth atom = some true)

theorem met_mono (implied : List.Forall₂ Implied fulls necessaries) (atom : Predicate → Option Bool)
    (holds : met atom fulls = true) : met atom necessaries = true := by
  induction implied with
  | nil => rfl
  | cons first _ ih =>
    rw [met, List.all_cons, Bool.and_eq_true, decide_eq_true_eq] at holds ⊢
    exact ⟨first atom holds.1, ih holds.2⟩

theorem prefilterConditions_implied {q : Query} {full : List Predicate}
    (available : String → Bool) (spelled : filterConditions q = .ok full) :
    ∃ necessary, prefilterConditions q available = .ok necessary ∧
      List.Forall₂ Implied full necessary := by
  unfold filterConditions at spelled
  unfold prefilterConditions
  cases stated : q.filter with
  | none =>
    rw [stated] at spelled
    cases spelled
    exact ⟨[], rfl, .nil⟩
  | some =>
    rw [stated] at spelled
    dsimp only at spelled ⊢
    rw [bind_eq_ok] at spelled
    obtain ⟨p, whole, done⟩ := spelled
    cases done
    obtain ⟨necessary, built, implied⟩ := necessaryPredicate_implied q.schema available whole
    exact ⟨[necessary], by rw [built, ok_bind], .cons implied .nil⟩

theorem filter_filter_of_imp {R : Type} {weak strong : R → Bool}
    (imp : ∀ r, strong r = true → weak r = true) (table : List R) :
    (table.filter weak).filter strong = table.filter strong := by
  rw [List.filter_filter]
  refine List.filter_congr fun r _ => ?_
  cases held : strong r with
  | false => rfl
  | true => rw [imp r held]; rfl

/-- The prefilter keeps every row of the filter, and filtering what it keeps restores it: for any
truth values of the comparisons on a row, and so for those of every database. -/
theorem prefilter_superset (q : Query) (columns : Columns) (available : String → Bool) {sql : Sql}
    (emitted : filter q columns = .ok sql) :
    ∃ full necessary : List Predicate,
      filterConditions q = .ok full ∧ sql = conjoined columns full ∧
      prefilterConditions q available = .ok necessary ∧
      prefilter q columns available = .ok (conjoined columns necessary) ∧
      (∀ atom : Predicate → Option Bool, met atom full = true → met atom necessary = true) ∧
      (∀ {R : Type} (atom : R → Predicate → Option Bool) (table : List R),
        (table.filter (fun r => met (atom r) necessary)).filter (fun r => met (atom r) full) =
          table.filter (fun r => met (atom r) full)) ∧
      ∀ (db : Database) (row : Row), (∀ p ∈ full, p.eval db row = some true) →
        ∀ p ∈ necessary, p.eval db row = some true := by
  rw [filter_render] at emitted
  obtain ⟨full, spelled, rfl⟩ := map_eq_ok.mp emitted
  obtain ⟨necessary, built, implied⟩ := prefilterConditions_implied available spelled
  have mono := met_mono implied
  refine ⟨full, necessary, spelled, rfl, built, ?_, mono, ?_, ?_⟩
  · rw [prefilter_render, built]
    rfl
  · intro R atom table
    exact filter_filter_of_imp (fun r => mono (atom r)) table
  · intro db row holds
    have all : met (Predicate.eval db row) full = true := by
      rw [met, List.all_eq_true]
      intro p member
      rw [truth_eval, holds p member, decide_eq_true_eq]
    have kept := mono _ all
    rw [met, List.all_eq_true] at kept
    intro p member
    have decided := kept p member
    rwa [truth_eval, decide_eq_true_eq] at decided

def mixedSchema : Schema where
  id := "devices"
  fields := [⟨"id", .integer, true, true, true⟩, ⟨"name", .text, true, true, true⟩]
  keys := ["id"]
  defaultLimit := 2
  maxLimit := 3

/-- A name is compared inside a disjunction, beside comparisons of the identity. -/
def mixedQuery : Query where
  schema := mixedSchema
  filter := some (.and [
    .or [.compare "id" .eq [.number (some 1)], .compare "name" .eq [.string "blocked"]],
    .compare "id" .gt [.number (some 0)]])
  sort := [⟨"id", false⟩]
  fields := ["id"]
  limit := 1
  cursor := none

def mixedFull : Predicate :=
  .all [.any [.compare "id" .eq [.int 1], .compare "name" .eq [.text "blocked"]],
    .compare "id" .gt [.int 0]]

theorem mixedQuery_spelled : filterConditions mixedQuery = .ok [mixedFull] := rfl

theorem mixedQuery_emits : filter mixedQuery (fun f => f) =
    .ok (conjoined (fun f => f) [mixedFull]) := by
  rw [filter_render, mixedQuery_spelled]
  rfl

/-- Names are compared later, inside a disjunction. -/
theorem prefilter_superset_mixed :
    ∃ full necessary : List Predicate,
      filterConditions mixedQuery = .ok full ∧
      prefilterConditions mixedQuery (fun f => f ≠ "name") = .ok necessary ∧
      ∀ (db : Database) (row : Row), (∀ p ∈ full, p.eval db row = some true) →
        ∀ p ∈ necessary, p.eval db row = some true := by
  obtain ⟨full, necessary, spelled, -, built, -, -, -, kept⟩ :=
    prefilter_superset mixedQuery (fun f => f) (fun f => f ≠ "name") mixedQuery_emits
  exact ⟨full, necessary, spelled, built, kept⟩

end RssMdm.Query.Directory
