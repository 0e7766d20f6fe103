/- module: Query/Continuation
   source: crates/query-postgres/src/lib.rs
   digest: The generated text spells a statement, and its continuation selects the rows strictly
   after the position. -/

import RssMdm.Query.FilterBounds
import RssMdm.Query.Sql

set_option autoImplicit false
set_option linter.dupNamespace false

namespace RssMdm.Query.Directory

open Lib.Fallible Lib.Outcome Lib.Keyset
open List (cons_append map_cons)

/-- The condition that a comparison of the filter spells. -/
def comparePredicate (schema : Schema) (field : String) (operator : Operator) (vs : List Json) :
    Except QueryError Predicate := do
  let spec ← schema.field field
  let bound ← values vs
  if spec.kind.isSet then .ok (.anyOf (operator = .ne || operator = .out) field bound)
  else if operator = .icontains then
    match bound with
    | v :: _ => .ok (.icontains field v)
    | [] => .error .invalid
  else do
    let _ ← Operator.sign operator
    .ok (.compare field operator bound)

mutual

def filterPredicate (schema : Schema) : Expression String Json → Except QueryError Predicate
  | .compare field operator vs => comparePredicate schema field operator vs
  | .and children => do
      let parts ← filterPredicates schema children
      .ok (.all parts)
  | .or children => do
      let parts ← filterPredicates schema children
      .ok (.any parts)

def filterPredicates (schema : Schema) :
    List (Expression String Json) → Except QueryError (List Predicate)
  | [] => .ok []
  | e :: rest => do
      let part ← filterPredicate schema e
      let parts ← filterPredicates schema rest
      .ok (part :: parts)

end

attribute [local simp] Except.map Predicate.render andNull Predicate.eval columnAfter evalAny

theorem comparison_render (schema : Schema) (columns : Columns) (field : String)
    (operator : Operator) (vs : List Json) :
    (do
      let inner ← comparison schema columns field operator vs
      .ok (push "(" ++ inner ++ push ")") : Except QueryError Sql) =
      (comparePredicate schema field operator vs).map (Predicate.render columns) := by
  unfold comparison comparePredicate
  cases schema.field field with
  | error => rfl
  | ok spec =>
    cases values vs with
    | error => rfl
    | ok bound =>
      simp only [ok_bind]
      by_cases set : spec.kind.isSet = true
      · simp [set]
      by_cases contains : operator = .icontains
      · cases bound with
        | nil => simp [set, contains]
        | cons => simp [set, contains]
      · cases sign : Operator.sign operator with
        | error => simp [set, contains]
        | ok =>
          simp [set, contains, sign, Except.toOption]

mutual

theorem expression_render (schema : Schema) (columns : Columns) :
    ∀ e : Expression String Json, expression schema columns (fun _ => true) e =
      (filterPredicate schema e).map (Predicate.render columns)
  | .compare field operator vs => by
      rw [expression, filterPredicate, ← comparison_render]
      rfl
  | .and children | .or children => by
      rw [expression, filterPredicate, expressions_render schema columns children]
      cases filterPredicates schema children <;> rfl

theorem expressions_render (schema : Schema) (columns : Columns) :
    ∀ es : List (Expression String Json), expressions schema columns (fun _ => true) es =
      (filterPredicates schema es).map (renderAll columns)
  | [] => rfl
  | e :: rest => by
      rw [expressions, filterPredicates, expression_render schema columns e,
        expressions_render schema columns rest]
      cases filterPredicate schema e with
      | error => rfl
      | ok => cases filterPredicates schema rest <;> rfl

end

def cell (v : Json) : Option Scalar := (value v).toOption

def equalTo (s : SortKey) : Option Scalar → Predicate
  | none => .isNull s.field
  | some v => .same s.field v

def strictlyAfter (s : SortKey) : Option Scalar → Predicate
  | none => .constant false
  | some v => .any [.beyond s.descending s.field v, .isNull s.field]

/-- The alternatives of the continuation, after the columns in `before`. -/
def alternatives (before : List (SortKey × Option Scalar)) :
    List (SortKey × Option Scalar) → List Predicate
  | [] => []
  | (s, v) :: rest => .all (before.map (fun x => equalTo x.1 x.2) ++ [strictlyAfter s v]) ::
      alternatives (before ++ [(s, v)]) rest

def seekPredicate (sort : List SortKey) (p : Position) : Predicate :=
  .any (alternatives [] (sort.zip (p.map cell)))

def Bindable (v : Json) : Prop := v.isNull = true ∨ ∃ x, value v = .ok x

variable {v : Json}

theorem cell_null (h : v.isNull = true) : cell v = none := by
  cases v <;> simp_all [Json.isNull, cell, value, Except.toOption]

theorem cell_value {x : Scalar} (h : value v = .ok x) : cell v = some x := by
  rw [cell, h]
  rfl

theorem not_null_of_value {x : Scalar} (h : value v = .ok x) : v.isNull = false := by
  cases v <;> simp_all [value, Json.isNull]

theorem prefixColumn_render (columns : Columns) (s : SortKey) (h : Bindable v) :
    prefixColumn columns s v = .ok ((equalTo s (cell v)).render columns) := by
  rcases h with null | ⟨x, hx⟩
  · simp [prefixColumn, null, cell_null null, equalTo]
  · simp [prefixColumn, not_null_of_value hx, hx, cell_value hx, equalTo]

theorem lastColumn_render (columns : Columns) (s : SortKey) (h : Bindable v) :
    lastColumn columns s v = .ok ((strictlyAfter s (cell v)).render columns) := by
  rcases h with null | ⟨x, hx⟩
  · simp [lastColumn, null, cell_null null, strictlyAfter]
  · have close : push " IS NULL)" = push " IS NULL" ++ push ")" := by decide
    simp [lastColumn, not_null_of_value hx, hx, cell_value hx, strictlyAfter, renderAll, joined, close]

theorem joined_append_last (separator : String) (parts : List Sql) (last : Sql) :
    joined separator (parts ++ [last]) =
      parts.flatMap (fun p => p ++ push separator) ++ last := by
  induction parts with
  | nil => rfl
  | cons part rest ih =>
    cases rest with
    | nil => simp [joined]
    | cons =>
      rw [cons_append, cons_append, joined, ← cons_append, ih]
      · simp
      · simp

theorem renderAll_eq_map (columns : Columns) (ps : List Predicate) :
    renderAll columns ps = ps.map (Predicate.render columns) := by
  induction ps with
  | nil => rfl
  | cons _ _ ih => rw [renderAll, ih, map_cons]

variable {xs : List (SortKey × Json)}

theorem prefixColumns_render (columns : Columns) (h : ∀ x ∈ xs, Bindable x.2) :
    prefixColumns columns xs = .ok (xs.flatMap (fun x =>
      (equalTo x.1 (cell x.2)).render columns ++ push " AND ")) := by
  induction xs with
  | nil => rfl
  | cons x _ ih =>
    obtain ⟨s, v⟩ := x
    rw [prefixColumns, prefixColumn_render columns s (h (s, v) (.head _)),
      ih (fun y hy => h y (.tail _ hy))]
    rfl

theorem joined_cons (separator : String) (part : Sql) (rest : List Sql) :
    joined separator (part :: rest) = part ++ rest.flatMap (fun p => push separator ++ p) := by
  induction rest generalizing part with
  | nil => simp [joined]
  | cons next rest ih =>
    rw [joined, ih next]
    · simp
    · simp

theorem alternative_render (columns : Columns) (before : List (SortKey × Json)) (s : SortKey)
    (v : Json) :
    (Predicate.all ((before.map (fun x => (x.1, cell x.2))).map (fun x => equalTo x.1 x.2) ++
      [strictlyAfter s (cell v)])).render columns =
      push "(" ++ (before.flatMap (fun x => (equalTo x.1 (cell x.2)).render columns ++
        push " AND ")) ++ (strictlyAfter s (cell v)).render columns ++ push ")" := by
  rw [Predicate.render, renderAll_eq_map, List.map_append, List.map_singleton, joined_append_last]
  simp [List.flatMap_map]

/-- The alternatives after the first are each preceded by their separator. -/
def spelled (columns : Columns) (first : Bool) (ps : List Predicate) : Sql :=
  if first then joined " OR " (renderAll columns ps)
  else ps.flatMap (fun p => push " OR " ++ p.render columns)

theorem spelled_cons (columns : Columns) (first : Bool) (p : Predicate) (ps : List Predicate) :
    spelled columns first (p :: ps) =
      (if first then [] else push " OR ") ++ p.render columns ++ spelled columns false ps := by
  cases first with
  | true =>
    rw [spelled, if_pos rfl, renderAll, joined_cons, renderAll_eq_map]
    simp [spelled, List.flatMap_map]
  | false => simp [spelled]

theorem seekTerms_render (columns : Columns) {before : List (SortKey × Json)}
    (hbefore : ∀ x ∈ before, Bindable x.2) (hxs : ∀ x ∈ xs, Bindable x.2) :
    seekTerms columns before xs = .ok (spelled columns before.isEmpty
      (alternatives (before.map (fun x => (x.1, cell x.2))) (xs.map (fun x => (x.1, cell x.2))))) := by
  induction xs generalizing before with
  | nil => cases before <;> rfl
  | cons x _ ih =>
    obtain ⟨s, v⟩ := x
    have bindable := hxs (s, v) (.head _)
    have longer : ∀ x ∈ before ++ [(s, v)], Bindable x.2 := by
      intro x hx
      rcases List.mem_append.mp hx with hx | hx
      · exact hbefore x hx
      · cases List.mem_singleton.mp hx
        exact bindable
    have rest := ih longer (fun y hy => hxs y (.tail _ hy))
    rw [seekTerms, prefixColumns_render columns hbefore, lastColumn_render columns s bindable, rest]
    have nonempty : (before ++ [(s, v)]).isEmpty = false := by cases before <;> rfl
    simp only [ok_bind, nonempty, map_cons, alternatives, spelled_cons, alternative_render,
      List.map_append, List.map_nil, List.append_assoc]

variable (parseUuid : ParseUuid) {kind : Kind}

theorem valid_bindable (h : valid parseUuid kind v = true) : ∃ x, value v = .ok x := by
  cases kind <;> cases v <;>
    simp_all [valid, value, Json.asStr, Json.asI64, Json.isBoolean]
  rename_i n
  obtain ⟨m, rfl⟩ := Option.isSome_iff_exists.mp h
  exact ⟨_, rfl⟩

theorem validatePosition_eq_ok {q : Query} {p : Position}
    (h : q.validatePosition parseUuid p = .ok ()) :
    p.length = q.sort.length ∧ ∀ x ∈ q.sort.zip p, Bindable x.2 := by
  rw [Query.validatePosition, guard_eq_ok, each_eq_ok] at h
  refine ⟨by simpa using h.1, ?_⟩
  intro x hx
  obtain ⟨s, v⟩ := x
  have checked := h.2 (s, v) hx
  by_cases null : v.isNull = true
  · exact .inl null
  simp only [null, Bool.false_eq_true, if_false] at checked
  obtain ⟨f, -, checked⟩ := of_bind checked
  rw [guard_eq_ok] at checked
  exact .inr (valid_bindable parseUuid (by simpa using checked.1))

theorem scalar_valid {s : String} (h : scalar parseUuid kind s = .ok v) :
    valid parseUuid kind v = true := by
  have checked_ok : ∀ w, checked parseUuid kind w = .ok v → valid parseUuid kind v = true := by
    intro w hw
    by_cases hvalid : valid parseUuid kind w = true
    · rw [checked, if_pos hvalid] at hw
      cases hw
      exact hvalid
    · rw [checked, if_neg hvalid] at hw
      cases hw
  unfold scalar at h
  split at h
  · split at h
    · exact checked_ok _ h
    · cases h
  · split at h
    · exact checked_ok _ h
    · split at h
      · exact checked_ok _ h
      · cases h
  · split at h
    · exact checked_ok _ h
    · cases h
  · split at h
    · exact checked_ok _ h
    · cases h
  · exact checked_ok _ h

theorem scalars_bind {ss : List String} {vs : List Json} (h : scalars parseUuid kind ss = .ok vs) :
    ∃ bound, values vs = .ok bound ∧ bound.length = ss.length := by
  induction ss generalizing vs with
  | nil =>
    cases h
    exact ⟨[], rfl, rfl⟩
  | cons _ _ ih =>
    obtain ⟨v, hv, h⟩ := of_bind h
    obtain ⟨rest, hrest, h⟩ := of_bind h
    cases h
    obtain ⟨x, hx⟩ := valid_bindable parseUuid (scalar_valid parseUuid hv)
    obtain ⟨bound, hbound, length⟩ := ih hrest
    refine ⟨x :: bound, ?_, by simp [length]⟩
    rw [values, hx, hbound]
    rfl

theorem directory_sign {operator : Operator} (h : operator.directory = true)
    (other : operator ≠ .icontains) : ∃ text, Operator.sign operator = .ok text := by
  cases operator <;> simp_all [Operator.directory, Operator.sign]

mutual

theorem filterPredicate_ok {schema : Schema} : ∀ {e : Expr} {bound : Expression String Json},
    Filter.Shape e → bindFilter parseUuid schema e = .ok bound →
      ∃ p, filterPredicate schema bound = .ok p
  | .compare field operator ss, bound, shape, h => by
      obtain ⟨spec, hspec, h⟩ := of_bind h
      rw [guard_eq_ok] at h
      obtain ⟨allowed, h⟩ := h
      obtain ⟨vs, hvs, h⟩ := of_bind h
      cases h
      obtain ⟨xs, hxs, length⟩ := scalars_bind parseUuid hvs
      have arity : 1 ≤ ss.length := by
        have := shape.2.2
        unfold Filter.ArityOk at this
        split at this <;> omega
      rw [filterPredicate, comparePredicate, hspec, ok_bind, hxs, ok_bind]
      by_cases set : spec.kind.isSet = true
      · rw [if_pos set]
        exact ⟨_, rfl⟩
      rw [if_neg set]
      by_cases icontains : operator = .icontains
      · rw [if_pos icontains]
        match xs, length with
        | x :: _, _ => exact ⟨_, rfl⟩
        | [], length => simp only [List.length_nil] at length; omega
      · rw [if_neg icontains]
        obtain ⟨text, htext⟩ := directory_sign (by simp_all) icontains
        rw [htext]
        exact ⟨_, rfl⟩
  | .and children, bound, shape, h | .or children, bound, shape, h => by
      obtain ⟨es, hes, h⟩ := of_bind h
      cases h
      obtain ⟨ps, hps⟩ := filterPredicates_ok shape.2 hes
      rw [filterPredicate, hps]
      exact ⟨_, rfl⟩

theorem filterPredicates_ok {schema : Schema} : ∀ {es : List Expr}
    {bounds : List (Expression String Json)},
    Filter.ShapeAll es → bindFilters parseUuid schema es = .ok bounds →
      ∃ ps, filterPredicates schema bounds = .ok ps
  | [], bounds, _, h => by
      cases h
      exact ⟨[], rfl⟩
  | e :: es, bounds, shape, h => by
      obtain ⟨bound, hbound, h⟩ := of_bind h
      obtain ⟨others, hothers, h⟩ := of_bind h
      cases h
      obtain ⟨p, hp⟩ := filterPredicate_ok shape.1 hbound
      obtain ⟨ps, hps⟩ := filterPredicates_ok shape.2 hothers
      rw [filterPredicates, hp, hps]
      exact ⟨_, rfl⟩

end

def filterConditions (q : Query) : Except QueryError (List Predicate) :=
  match q.filter with
  | none => .ok []
  | some e => do
      let p ← filterPredicate q.schema e
      .ok [p]

def seekConditions (q : Query) : Option Position → Except QueryError (List Predicate)
  | none => .ok []
  | some p => do
      q.validatePosition parseUuid p
      .ok [seekPredicate q.sort p]

def statement (q : Query) (after : Option Position) : Except QueryError Statement := do
  let conditions ← filterConditions q
  if q.limit.toNat > q.schema.maxLimit.toNat then .error .budget
  else do
    let seek ← seekConditions parseUuid q after
    .ok ⟨conditions ++ seek, q.sort, q.limit.toNat + 1⟩

theorem filter_render (q : Query) (columns : Columns) :
    filter q columns = (filterConditions q).map
      (fun ps => ps.flatMap (fun p => push " AND " ++ p.render columns)) := by
  unfold filter filterConditions
  cases q.filter with
  | none => rfl
  | some e =>
    simp only [expression_render]
    cases filterPredicate q.schema e with
    | error => rfl
    | ok => simp

theorem seekSql_render (q : Query) (columns : Columns) (after : Option Position) :
    seekSql parseUuid q columns after = (seekConditions parseUuid q after).map
      (fun ps => ps.flatMap (fun p => push " AND " ++ p.render columns)) := by
  cases after with
  | none => rfl
  | some p =>
    rw [seekSql, seekConditions]
    cases checked : q.validatePosition parseUuid p with
    | error => rfl
    | ok =>
      obtain ⟨-, bindable⟩ := validatePosition_eq_ok parseUuid checked
      have zipped : (q.sort.zip p).map (fun x => (x.1, cell x.2)) =
          q.sort.zip (p.map cell) := by
        rw [List.zip_map_right]
        rfl
      have paren : push " AND (" = push " AND " ++ push "(" := by decide
      rw [ok_bind, ok_bind, seekTerms_render columns (by simp) bindable, zipped]
      simp [seekPredicate, spelled, paren]

theorem append_render (q : Query) (columns : Columns) (after : Option Position) :
    append parseUuid q after columns =
      (statement parseUuid q after).map (Statement.render columns) := by
  rw [append, filter_render, page, pageLimit, seekSql_render, statement]
  cases filterConditions q with
  | error => rfl
  | ok =>
    by_cases fits : q.limit.toNat > q.schema.maxLimit.toNat
    · simp [fits]
    · cases seekConditions parseUuid q after with
      | error => simp [fits]
      | ok => simp [fits, Statement.render, order]

variable (db : Database) [Std.TransCmp db.collate] [Std.LawfulEqCmp db.collate]

omit [Std.LawfulEqCmp db.collate] in
theorem compare_trans : Std.TransCmp db.compare where
  eq_swap := by
    intro a b
    cases a <;> cases b <;> simp only [Database.compare] <;> exact Std.OrientedCmp.eq_swap
  isLE_trans := by
    intro a b c hab hbc
    cases a <;> cases b <;> cases c <;> simp only [Database.compare] at hab hbc ⊢ <;>
      first
        | exact Std.TransCmp.isLE_trans hab hbc
        | rfl
        | exact Bool.noConfusion hab
        | exact Bool.noConfusion hbc

omit [Std.TransCmp db.collate] in
theorem compare_lawful : Std.LawfulEqCmp db.compare where
  compare_self := by
    intro a
    cases a <;> simp only [Database.compare] <;> exact Std.ReflCmp.compare_self
  eq_of_compare := by
    intro a b h
    cases a <;> cases b <;> simp only [Database.compare] at h <;>
      first
        | cases h
        | exact congrArg _ (Std.LawfulEqCmp.eq_of_compare h)

theorem andNull_some (a b : Bool) : andNull (some a) (some b) = some (a && b) := by
  cases a <;> cases b <;> rfl

theorem orNull_some (a b : Bool) : orNull (some a) (some b) = some (a || b) := by
  cases a <;> cases b <;> rfl

omit [Std.TransCmp db.collate] [Std.LawfulEqCmp db.collate] in
theorem evalAll_append_last (row : Row) {ps : List Predicate} {last : Predicate} {b c : Bool}
    (hps : evalAll db row ps = some b) (hlast : last.eval db row = some c) :
    evalAll db row (ps ++ [last]) = some (b && c) := by
  induction ps generalizing b with
  | nil =>
    cases hps
    cases c <;> simp [evalAll, hlast]
  | cons p ps ih =>
    rw [cons_append, evalAll]
    rw [evalAll] at hps
    cases hrest : evalAll db row ps with
    | none => cases hp : p.eval db row with
      | none => simp [hp, hrest] at hps
      | some d =>
        cases d with
        | true => simp [hp, hrest] at hps
        | false =>
          simp [hp] at hps
          simp [← hps]
    | some d =>
      rw [ih hrest]
      rw [hrest] at hps
      cases hp : p.eval db row with
      | none => cases d <;> simp_all
      | some f => cases f <;> cases d <;> cases c <;> simp_all

omit [Std.TransCmp db.collate] [Std.LawfulEqCmp db.collate] in
theorem equalTo_eval (row : Row) (s : SortKey) (v : Option Scalar) :
    (equalTo s v).eval db row = some (decide (v = column row s.field)) := by
  cases v with
  | none => cases h : column row s.field <;> simp [equalTo, h]
  | some => simp [equalTo, eq_comm]

omit [Std.TransCmp db.collate] [Std.LawfulEqCmp db.collate] in
theorem strictlyAfter_eval (row : Row) (s : SortKey) (v : Option Scalar) :
    (strictlyAfter s v).eval db row =
      some (columnAfter db.compare s.descending v (column row s.field)) := by
  cases v with
  | none => simp [strictlyAfter]
  | some v =>
    cases h : column row s.field with
    | none => simp [strictlyAfter, h, orNull]
    | some w =>
      by_cases later : db.compare w v = if s.descending then .lt else .gt
      · simp [strictlyAfter, h, orNull, later]
      · simp [strictlyAfter, h, orNull, later]

def agrees (row : Row) (before : List (SortKey × Option Scalar)) : Bool :=
  before.all (fun x => decide (x.2 = column row x.1.field))

omit [Std.TransCmp db.collate] [Std.LawfulEqCmp db.collate] in
theorem evalAll_equalTo (row : Row) (before : List (SortKey × Option Scalar)) :
    evalAll db row (before.map (fun x => equalTo x.1 x.2)) = some (agrees row before) := by
  induction before with
  | nil => rfl
  | cons _ _ ih =>
    rw [map_cons, evalAll, ih, equalTo_eval, andNull_some, agrees, agrees, List.all_cons]

omit [Std.TransCmp db.collate] [Std.LawfulEqCmp db.collate] in
theorem alternatives_eval (row : Row) (before rest : List (SortKey × Option Scalar)) :
    evalAny db row (alternatives before rest) = some (agrees row before &&
      seek db.compare (rest.map (fun x => x.1.descending)) (rest.map Prod.snd)
        (rest.map (fun x => column row x.1.field))) := by
  induction rest generalizing before with
  | nil => simp [alternatives, seek]
  | cons x _ ih =>
    obtain ⟨s, v⟩ := x
    have head := evalAll_append_last db row (evalAll_equalTo db row before)
      (strictlyAfter_eval db row s v)
    have longer : agrees row (before ++ [(s, v)]) =
        (agrees row before && decide (v = column row s.field)) := by
      simp [agrees]
    rw [alternatives, evalAny, Predicate.eval, head, ih, longer, orNull_some]
    simp only [map_cons, seek, List.headD_cons, List.tail_cons, Bool.and_or_distrib_left,
      Bool.and_assoc]
    congr

theorem seekPredicate_eval (row : Row) {sort : List SortKey} {p : Position}
    (length : p.length = sort.length) :
    (seekPredicate sort p).eval db row = some (decide
      (keyOrder db.compare (sort.map SortKey.descending) (p.map cell) (rowKey sort row) = .lt)) := by
  have laws := compare_trans db
  have lawful := compare_lawful db
  have sorts : (sort.zip (p.map cell)).map Prod.fst = sort :=
    List.map_fst_zip (by simp [length])
  have cells : (sort.zip (p.map cell)).map Prod.snd = p.map cell :=
    List.map_snd_zip (by simp [length])
  have directions : (sort.zip (p.map cell)).map (fun x => x.1.descending) =
      sort.map SortKey.descending := by
    rw [← sorts, List.map_map, sorts]
    rfl
  have columns : (sort.zip (p.map cell)).map (fun x => column row x.1.field) = rowKey sort row := by
    rw [rowKey, ← sorts, List.map_map, sorts]
    rfl
  rw [seekPredicate, Predicate.eval, alternatives_eval, directions, cells, columns, seek_eq]
  rfl

end RssMdm.Query.Directory
