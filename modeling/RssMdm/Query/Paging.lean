/- module: Query/Paging
   source: crates/query/src/directory.rs, crates/query-postgres/src/lib.rs
   digest: Walking the pages of a directory returns each matching row once, in order. -/

import RssMdm.Lib.Base64
import RssMdm.Lib.Sha256
import RssMdm.Query.Continuation

set_option autoImplicit false
set_option linter.dupNamespace false

namespace RssMdm.Query.Directory

open Lib.Fallible Lib.Outcome Lib.Keyset
open List (filter_sublist length_append length_cons length_take mem_cons not_mem_nil
  perm_insertionSort)

section

variable (parseUuid : ParseUuid) (db : Database) (codec : CursorCodec) (binding : String)

/-- One request: the rows of its statement, cut to a page. -/
def servePage (table : List Row) (q : Query) : Except QueryError Query.Page := do
  let after ← q.after parseUuid codec binding
  let stmt ← statement parseUuid q after
  q.unprojectedPage parseUuid (stmt.execute db table) codec binding

def Parameters.next (params : Parameters) (limit : Option UInt16) (cursor : Option String) :
    Parameters :=
  { params with limit := limit, cursor := cursor }

/-- One request for each limit until a page has no continuation; `none` when the limits end first. -/
def walk (schema : Schema) (params : Parameters) (table : List Row) :
    List (Option UInt16) → Option String → Run QueryError (Option (List Row))
  | [], _ => .ok none
  | limit :: limits, cursor => do
      let q ← Query.new parseUuid schema (params.next limit cursor)
      let page ← (servePage parseUuid db codec binding table q).mapError Fault.error
      match page.nextCursor with
      | none => .ok (some page.items)
      | some token => do
          let rest ← walk schema params table limits (some token)
          .ok (rest.map (page.items ++ ·))

def Schema.allows (schema : Schema) (limit : Option UInt16) : Bool :=
  limit.getD schema.defaultLimit ≠ 0 && limit.getD schema.defaultLimit ≤ schema.maxLimit

def Query.matches (q : Query) (row : Row) : Bool :=
  match filterConditions q with
  | .ok conditions => conditions.all (fun p => p.eval db row = some true)
  | .error _ => false

def identity (schema : Schema) (row : Row) : List (Option Scalar) :=
  schema.keys.map (column row)

/-- What the owner's table holds: rows with valid ordering columns and unique identities. -/
structure Listed (q : Query) (table : List Row) : Prop where
  positions : ∀ row ∈ table, ∃ p, q.position parseUuid row = .ok p
  unique : table.Pairwise (fun a b => identity q.schema a ≠ identity q.schema b)

end

section

variable (parseUuid : ParseUuid) {schema : Schema}

theorem appendKeys_mem {keys : List String} {sort sort' : List SortKey}
    (h : appendKeys schema sort keys = .ok sort') :
    (∀ s ∈ sort, s ∈ sort') ∧ ∀ key ∈ keys, ∃ s ∈ sort', s.field = key := by
  induction keys generalizing sort with
  | nil =>
    cases h
    exact ⟨fun s hs => hs, by simp⟩
  | cons key _ ih =>
    obtain ⟨_, -, h⟩ := of_bind h
    by_cases present : sort.any (fun s => s.field = key) = true
    · rw [if_pos present] at h
      obtain ⟨kept, covered⟩ := ih h
      refine ⟨kept, ?_⟩
      intro k hk
      rcases mem_cons.mp hk with rfl | hk
      · obtain ⟨s, hs, eq⟩ := List.any_eq_true.mp present
        exact ⟨s, kept s hs, by simpa using eq⟩
      · exact covered k hk
    · rw [if_neg present] at h
      obtain ⟨kept, covered⟩ := ih h
      refine ⟨fun s hs => kept s (List.mem_append_left _ hs), ?_⟩
      intro k hk
      rcases mem_cons.mp hk with rfl | hk
      · exact ⟨⟨k, false⟩, kept _ (by simp), rfl⟩
      · exact covered k hk

structure Constructed (q : Query) : Prop where
  filter : ∃ conditions, filterConditions q = .ok conditions
  keys : ∀ key ∈ q.schema.keys, ∃ s ∈ q.sort, s.field = key
  positive : q.limit ≠ 0
  bounded : q.limit ≤ q.schema.maxLimit

theorem newFilter_conditions {text : Option String} {q : Query} (hschema : q.schema = schema)
    (h : newFilter parseUuid schema text = .ok q.filter) :
    ∃ conditions, filterConditions q = .ok conditions := by
  cases text with
  | none =>
    have none : q.filter = none := by
      injection h with h
      exact h.symm
    exact ⟨[], by rw [filterConditions, none]⟩
  | some text =>
    obtain ⟨bound, parsed, h⟩ := of_bind h
    have some : q.filter = some bound := by
      injection h with h
      exact h.symm
    obtain ⟨e, he, hbound⟩ := of_bind parsed
    rw [mapError_eq_ok] at hbound
    have shape := ((Filter.parse_safe text).of_eq_ok he).1.shape
    obtain ⟨p, hp⟩ := filterPredicate_ok parseUuid shape hbound
    refine ⟨[p], ?_⟩
    rw [filterConditions, some, hschema]
    simp only [hp, ok_bind]

theorem new_constructed {params : Parameters} {q : Query}
    (h : Query.new parseUuid schema params = .ok q) : Constructed q := by
  rw [Query.new, guard_eq_ok] at h
  obtain ⟨-, h⟩ := h
  obtain ⟨filter, hfilter, h⟩ := of_bind h
  obtain ⟨_, -, h⟩ := of_bind h
  obtain ⟨sort, hsort, h⟩ := of_bind h
  obtain ⟨_, -, h⟩ := of_bind h
  rw [guard_eq_ok] at h
  obtain ⟨hlimit, h⟩ := h
  rw [mapError_eq_ok] at hsort
  simp only [Bool.or_eq_true, decide_eq_true_eq, not_or] at hlimit
  cases h
  exact
    { filter := newFilter_conditions parseUuid rfl hfilter
      keys := (appendKeys_mem hsort).2
      positive := hlimit.1
      bounded := UInt16.not_lt.mp hlimit.2 }

theorem new_next {params : Parameters} {q : Query} (h : Query.new parseUuid schema params = .ok q)
    {limit : Option UInt16} (allowed : schema.allows limit = true) (cursor : Option String) :
    Query.new parseUuid schema (params.next limit cursor) =
      .ok { q with limit := limit.getD schema.defaultLimit, cursor := cursor } := by
  rw [Query.new, guard_eq_ok] at h
  obtain ⟨hschema, h⟩ := h
  obtain ⟨filter, hfilter, h⟩ := of_bind h
  obtain ⟨_, hfresh, h⟩ := of_bind h
  obtain ⟨sort, hsort, h⟩ := of_bind h
  obtain ⟨_, hfields, h⟩ := of_bind h
  rw [guard_eq_ok] at h
  cases h.2
  have hlimit : ¬(limit.getD schema.defaultLimit = 0 ||
      limit.getD schema.defaultLimit > schema.maxLimit) = true := by
    simp only [Schema.allows, Bool.and_eq_true, decide_eq_true_eq] at allowed
    simp only [Bool.or_eq_true, decide_eq_true_eq, not_or]
    exact ⟨allowed.1, UInt16.not_lt.mpr allowed.2⟩
  rw [Query.new, if_neg hschema]
  simp only [Parameters.next, hfilter, hfresh, hsort, hfields, ok_bind]
  exact if_neg hlimit

end

section

variable (parseUuid : ParseUuid) (db : Database) [Std.TransCmp db.collate]
  [Std.LawfulEqCmp db.collate] {q : Query} {table : List Row}

theorem position_cells {row : Row} {p : Position} (h : q.position parseUuid row = .ok p) :
    q.validatePosition parseUuid p = .ok () ∧ p.map cell = rowKey q.sort row := by
  obtain ⟨p', values, h⟩ := of_bind h
  obtain ⟨valid, h⟩ := of_check h
  cases h
  refine ⟨valid, ?_⟩
  have general : ∀ {sort : List SortKey} {p : Position}, Query.sortValues row sort = .ok p →
      p.map cell = rowKey sort row := by
    intro sort
    induction sort with
    | nil =>
      intro p h
      cases h
      rfl
    | cons s _ ih =>
      intro p h
      rw [Query.sortValues] at h
      cases found : row.get s.field with
      | none => simp [found] at h
      | some v =>
        simp only [found] at h
        obtain ⟨vs, hvs, h⟩ := of_bind h
        cases h
        have head : cell v = column row s.field := by
          rw [cell, column, found]
        rw [List.map_cons, ih hvs, head]
        rfl
  exact general values

omit [Std.LawfulEqCmp db.collate] in
instance rowOrder_trans (sort : List SortKey) : Std.TransCmp (rowOrder db sort) where
  eq_swap := by
    intro a b
    have laws := compare_trans db
    have swap : keyOrder db.compare (sort.map SortKey.descending) (rowKey sort a) (rowKey sort b) =
        (keyOrder db.compare (sort.map SortKey.descending) (rowKey sort b) (rowKey sort a)).swap :=
      Std.OrientedCmp.eq_swap
    exact swap
  isLE_trans := by
    intro a b c hab hbc
    have laws := compare_trans db
    have trans := keyOrder_trans db.compare (sort.map SortKey.descending)
    exact trans.isLE_trans hab hbc

omit [Std.LawfulEqCmp db.collate] in
instance rowOrder_isTrans (sort : List SortKey) :
    IsTrans Row (fun a b => rowOrder db sort a b ≠ .gt) where
  trans := by
    intro a b c hab hbc
    have first : (rowOrder db sort a b).isLE := Ordering.isLE_iff_ne_gt.mpr hab
    have second : (rowOrder db sort b c).isLE := Ordering.isLE_iff_ne_gt.mpr hbc
    exact Ordering.isLE_iff_ne_gt.mp (Std.TransCmp.isLE_trans first second)

omit [Std.LawfulEqCmp db.collate] in
instance rowOrder_total (sort : List SortKey) :
    Std.Total (fun a b : Row => rowOrder db sort a b ≠ .gt) where
  total := by
    intro a b
    have swap : rowOrder db sort a b = (rowOrder db sort b a).swap := Std.OrientedCmp.eq_swap
    rw [swap]
    cases rowOrder db sort b a <;> simp

omit [Std.TransCmp db.collate] in
theorem identity_eq (built : Constructed q) {a b : Row}
    (h : rowOrder db q.sort a b = .eq) : identity q.schema a = identity q.schema b := by
  have lawful := compare_lawful db
  have keys : rowKey q.sort a = rowKey q.sort b :=
    (keyOrder_eq_iff db.compare (by simp [rowKey]) (by simp [rowKey])).mp h
  apply List.map_congr_left
  intro key hkey
  obtain ⟨s, hs, rfl⟩ := built.keys key hkey
  exact List.map_inj_left.mp keys s hs

def sortedRows (sort : List SortKey) (rows : List Row) : List Row :=
  rows.insertionSort (fun a b => rowOrder db sort a b ≠ .gt)

theorem sortedRows_pairwise (built : Constructed q)
    (unique : table.Pairwise (fun a b => identity q.schema a ≠ identity q.schema b)) :
    (sortedRows db q.sort table).Pairwise (fun a b => rowOrder db q.sort a b = .lt) := by
  have perm : (sortedRows db q.sort table).Perm table := perm_insertionSort _ _
  have distinct : (sortedRows db q.sort table).Pairwise
      (fun a b => identity q.schema a ≠ identity q.schema b) :=
    (perm.pairwise_iff (fun h => h.symm)).mpr unique
  have ordered : (sortedRows db q.sort table).Pairwise (fun a b => rowOrder db q.sort a b ≠ .gt) :=
    List.pairwise_insertionSort _ _
  refine (ordered.and distinct).imp ?_
  intro a b h
  cases order : rowOrder db q.sort a b with
  | lt => rfl
  | gt => exact absurd order h.1
  | eq => exact absurd (identity_eq db built order) h.2

omit [Std.LawfulEqCmp db.collate] in
theorem rowOrder_asymm (sort : List SortKey) (a b : Row) (h : rowOrder db sort a b = .lt) :
    ¬rowOrder db sort b a = .lt := by
  have swap : rowOrder db sort b a = (rowOrder db sort a b).swap := Std.OrientedCmp.eq_swap
  rw [swap, h]
  simp

theorem sortedRows_filter (built : Constructed q)
    (unique : table.Pairwise (fun a b => identity q.schema a ≠ identity q.schema b))
    (f : Row → Bool) :
    sortedRows db q.sort (table.filter f) = (sortedRows db q.sort table).filter f := by
  have left := sortedRows_pairwise db built (unique.sublist (filter_sublist (p := f)))
  have right := (sortedRows_pairwise db built unique).sublist (filter_sublist (p := f))
  have perm : (sortedRows db q.sort (table.filter f)).Perm
      ((sortedRows db q.sort table).filter f) :=
    (perm_insertionSort _ _).trans ((perm_insertionSort _ _).symm.filter f)
  refine perm.eq_of_pairwise ?_ left right
  intro a b _ _ hab hba
  exact absurd hba (rowOrder_asymm db q.sort a b hab)

end

section

variable (parseUuid : ParseUuid) (db : Database) (codec : CursorCodec) (binding : String)
  [Std.TransCmp db.collate] [Std.LawfulEqCmp db.collate] {q : Query}

omit [Std.TransCmp db.collate] [Std.LawfulEqCmp db.collate] in
theorem statement_start (built : Constructed q) :
    ∃ stmt, statement parseUuid q none = .ok stmt ∧ stmt.orderBy = q.sort ∧
      stmt.limit = q.limit.toNat + 1 ∧ ∀ row, stmt.selects db row = q.matches db row := by
  obtain ⟨conditions, hconditions⟩ := built.filter
  have fits : ¬q.limit.toNat > q.schema.maxLimit.toNat := Nat.not_lt.mpr built.bounded
  refine ⟨⟨conditions, q.sort, q.limit.toNat + 1⟩, ?_, rfl, rfl, ?_⟩
  · simp [statement, hconditions, fits, seekConditions]
  · intro row
    rw [Statement.selects, Query.matches, hconditions]

omit [Std.TransCmp db.collate] [Std.LawfulEqCmp db.collate] in
theorem statement_after (built : Constructed q) {p : Position}
    (valid : q.validatePosition parseUuid p = .ok ()) :
    ∃ conditions, filterConditions q = .ok conditions ∧ statement parseUuid q (some p) =
      .ok ⟨conditions ++ [seekPredicate q.sort p], q.sort, q.limit.toNat + 1⟩ := by
  obtain ⟨conditions, hconditions⟩ := built.filter
  have fits : ¬q.limit.toNat > q.schema.maxLimit.toNat := Nat.not_lt.mpr built.bounded
  refine ⟨conditions, hconditions, ?_⟩
  simp [statement, hconditions, fits, seekConditions, valid]

theorem selects_after {p : Position} {conditions : List Predicate} (limit : Nat)
    (hconditions : filterConditions q = .ok conditions) (length : p.length = q.sort.length)
    (row : Row) :
    Statement.selects db ⟨conditions ++ [seekPredicate q.sort p], q.sort, limit⟩ row =
      (decide (keyOrder db.compare (q.sort.map SortKey.descending) (p.map cell)
        (rowKey q.sort row) = .lt) && q.matches db row) := by
  rw [Statement.selects, Query.matches, hconditions, Bool.and_comm, List.all_append, List.all_cons,
    List.all_nil, Bool.and_true, seekPredicate_eval db row length]
  simp

/-- The matching rows in order. -/
def listing (q : Query) (table : List Row) : List Row :=
  sortedRows db q.sort (table.filter (q.matches db))

/-- What is left of the listing at a continuation: the token opens to the last row passed. -/
def Remaining (q : Query) (rows : List Row) (cursor : Option String) (rest : List Row) : Prop :=
  ∃ passed, rows = passed ++ rest ∧
    match cursor with
    | none => passed = []
    | some token => ∃ row p, passed.getLast? = some row ∧ q.position parseUuid row = .ok p ∧
        codec.decode token binding = .ok p

variable {rest : List Row} {table : List Row}

theorem execute_remaining (built : Constructed q) (listed : Listed parseUuid q table)
    (remaining : Remaining parseUuid codec binding q (listing db q table) q.cursor rest) :
    ∃ after stmt, q.after parseUuid codec binding = .ok after ∧
      statement parseUuid q after = .ok stmt ∧
      stmt.execute db table = rest.take (q.limit.toNat + 1) := by
  have unique : (table.filter (q.matches db)).Pairwise
      (fun a b => identity q.schema a ≠ identity q.schema b) :=
    listed.unique.sublist filter_sublist
  obtain ⟨passed, split, opened⟩ := remaining
  cases hcursor : q.cursor with
  | none =>
    simp only [hcursor] at opened
    obtain ⟨stmt, hstmt, order, limit, selects⟩ := statement_start parseUuid db built
    refine ⟨none, stmt, by rw [Query.after, hcursor], hstmt, ?_⟩
    rw [opened, List.nil_append] at split
    rw [Statement.execute, order, limit, funext selects, ← split]
    rfl
  | some token =>
    simp only [hcursor] at opened
    obtain ⟨row, p, last, position, decoded⟩ := opened
    obtain ⟨valid, cells⟩ := position_cells parseUuid position
    obtain ⟨conditions, hconditions, hstmt⟩ := statement_after parseUuid built valid
    have selects := selects_after db (q.limit.toNat + 1) hconditions
      (validatePosition_eq_ok parseUuid valid).1
    refine ⟨some p, _, ?_, hstmt, ?_⟩
    · simp only [Query.after, hcursor, decoded, ok_bind, valid]
    · obtain ⟨before, hbefore⟩ := List.getLast?_eq_some_iff.mp last
      have split' : listing db q table = before ++ row :: rest := by
        rw [split, hbefore, List.append_assoc]
        rfl
      have ordered : (before ++ row :: rest).Pairwise
          (fun a b => rowOrder db q.sort a b = .lt) := by
        rw [← split']
        exact sortedRows_pairwise db built unique
      have later := filter_after (rowOrder_asymm db q.sort) ordered
      have selected := sortedRows_filter db built unique
        (fun x => decide (rowOrder db q.sort row x = .lt))
      change sortedRows db q.sort _ = (listing db q table).filter _ at selected
      rw [split', later, List.filter_filter] at selected
      rw [Statement.execute, funext selects, cells]
      exact congrArg (List.take _) selected

omit [Std.TransCmp db.collate] [Std.LawfulEqCmp db.collate] in
theorem encode_error {position : Position} {e : QueryError}
    (h : codec.encode binding position = .error e) : e = .budget := by
  rw [CursorCodec.encode] at h
  cases bounded : codec.encodeBounded binding position 4096 with
  | error =>
    simp only [bounded, error_bind, Except.error.injEq] at h
    rw [CursorCodec.encodeBounded] at bounded
    split at bounded
    · cases bounded
      exact h.symm
    · cases bounded
  | ok =>
    simp only [bounded, ok_bind] at h
    split at h
    · cases h
      rfl
    · cases h

theorem servePage_cut (built : Constructed q) (listed : Listed parseUuid q table)
    (remaining : Remaining parseUuid codec binding q (listing db q table) q.cursor rest) :
    (rest.length ≤ q.limit.toNat ∧
      servePage parseUuid db codec binding table q = .ok ⟨rest, none⟩) ∨
    (q.limit.toNat < rest.length ∧ ∃ row ∈ table, ∃ p,
      (rest.take q.limit.toNat).getLast? = some row ∧ q.position parseUuid row = .ok p ∧
      servePage parseUuid db codec binding table q =
        (codec.encode binding p).map (fun token => ⟨rest.take q.limit.toNat, some token⟩)) := by
  obtain ⟨after, stmt, hafter, hstmt, executed⟩ :=
    execute_remaining parseUuid db codec binding built listed remaining
  have page : servePage parseUuid db codec binding table q =
      q.unprojectedPage parseUuid (rest.take (q.limit.toNat + 1)) codec binding := by
    rw [servePage, hafter, ok_bind, hstmt, ok_bind, executed]
  have cut : (rest.take (q.limit.toNat + 1)).take q.limit.toNat = rest.take q.limit.toNat := by
    rw [List.take_take, Nat.min_eq_left (.step .refl)]
  rw [page, Query.unprojectedPage, cut]
  by_cases more : (rest.take (q.limit.toNat + 1)).length > q.limit.toNat
  · have long : q.limit.toNat < rest.length := by
      rw [length_take] at more
      omega
    have positive : 0 < q.limit.toNat :=
      Nat.pos_of_ne_zero (fun zero => built.positive (UInt16.toNat_inj.mp zero))
    have nonempty : rest.take q.limit.toNat ≠ [] := by
      intro empty
      have length := congrArg List.length empty
      rw [length_take, List.length_nil] at length
      omega
    obtain ⟨row, last⟩ := Option.ne_none_iff_exists'.mp
      (fun none => nonempty (List.getLast?_eq_none_iff.mp none))
    have mem : row ∈ rest := List.mem_of_mem_take (List.mem_of_getLast? last)
    obtain ⟨passed, split, -⟩ := remaining
    have inTable : row ∈ table := by
      have inListing : row ∈ listing db q table := by
        rw [split]
        exact List.mem_append_right _ mem
      exact List.mem_of_mem_filter ((perm_insertionSort _ _).mem_iff.mp inListing)
    obtain ⟨p, position⟩ := listed.positions row inTable
    refine .inr ⟨long, row, inTable, p, last, position, ?_⟩
    rw [if_pos more, last]
    simp only [position, ok_bind]
    cases codec.encode binding p <;> rfl
  · have short : rest.length ≤ q.limit.toNat := by
      rw [length_take] at more
      omega
    rw [if_neg more, List.take_of_length_le short]
    exact .inl ⟨short, rfl⟩

theorem servePage_remaining (built : Constructed q) (listed : Listed parseUuid q table)
    (faithful : ∀ row ∈ table, ∀ p, q.position parseUuid row = .ok p → codec.Faithful binding p)
    (remaining : Remaining parseUuid codec binding q (listing db q table) q.cursor rest) :
    servePage parseUuid db codec binding table q = .ok ⟨rest, none⟩ ∨
    (q.limit.toNat < rest.length ∧ ∃ token,
      servePage parseUuid db codec binding table q =
        .ok ⟨rest.take q.limit.toNat, some token⟩ ∧
      Remaining parseUuid codec binding q (listing db q table) (some token)
        (rest.drop q.limit.toNat)) ∨
    (servePage parseUuid db codec binding table q = .error .budget ∧
      ∃ row ∈ rest, ∃ p, q.position parseUuid row = .ok p ∧
        codec.encode binding p = .error .budget) := by
  rcases servePage_cut parseUuid db codec binding built listed remaining with
    ⟨-, page⟩ | ⟨long, row, inTable, p, last, position, page⟩
  · exact .inl page
  cases encoded : codec.encode binding p with
  | error =>
    cases encode_error codec binding encoded
    rw [encoded] at page
    have mem : row ∈ rest := List.mem_of_mem_take (List.mem_of_getLast? last)
    exact .inr (.inr ⟨page, row, mem, p, position, encoded⟩)
  | ok token =>
    rw [encoded] at page
    obtain ⟨passed, split, -⟩ := remaining
    refine .inr (.inl ⟨long, token, page, passed ++ rest.take q.limit.toNat, ?_, row, p, ?_,
      position, ?_⟩)
    · rw [List.append_assoc, List.take_append_drop, split]
    · rw [List.getLast?_append, last]
      rfl
    · exact codec.decode_encode (faithful row inTable p position) encoded

/-- Walking the pages from a continuation returns what is left of the listing, unless the limits
end first or a token would be too long. -/
theorem walk_remaining {schema : Schema} {params : Parameters} {q : Query} {table : List Row}
    (hq : Query.new parseUuid schema params = .ok q) (listed : Listed parseUuid q table)
    (faithful : ∀ row ∈ table, ∀ p, q.position parseUuid row = .ok p → codec.Faithful binding p)
    (limits : List (Option UInt16)) (allowed : ∀ limit ∈ limits, schema.allows limit = true)
    {cursor : Option String} {rest : List Row}
    (remaining : Remaining parseUuid codec binding q (listing db q table) cursor rest) :
    walk parseUuid db codec binding schema params table limits cursor = .ok (some rest) ∨
    (walk parseUuid db codec binding schema params table limits cursor = .ok none ∧
      limits.length ≤ rest.length) ∨
    (walk parseUuid db codec binding schema params table limits cursor =
        .error (.error .budget) ∧
      ∃ row ∈ rest, ∃ p, q.position parseUuid row = .ok p ∧
        codec.encode binding p = .error .budget) := by
  induction limits generalizing cursor rest with
  | nil => exact .inr (.inl ⟨rfl, Nat.zero_le _⟩)
  | cons limit limits ih =>
    have next := new_next parseUuid hq (allowed limit (.head _)) cursor
    -- the query of this request; it agrees with `q` in all but the limit and the cursor
    have built := new_constructed parseUuid next
    have here : Listed parseUuid { q with limit := limit.getD schema.defaultLimit, cursor } table :=
      ⟨listed.positions, listed.unique⟩
    rw [walk, next, ok_bind]
    rcases servePage_remaining parseUuid db codec binding built here faithful remaining with
      page | ⟨long, token, page, later⟩ | ⟨page, failing⟩
    · rw [page]
      exact .inl rfl
    · have positive : 0 < (limit.getD schema.defaultLimit).toNat := by
        refine Nat.pos_of_ne_zero (fun zero => built.positive ?_)
        exact UInt16.toNat_inj.mp zero
      have later : Remaining parseUuid codec binding q (listing db q table) (some token)
          (rest.drop (limit.getD schema.defaultLimit).toNat) := later
      rw [page]
      simp only [Except.mapError, ok_bind]
      rcases ih (fun l hl => allowed l (.tail _ hl)) later with
        done | ⟨ended, bound⟩ | ⟨failed, row, mem, p, hp⟩
      · rw [done]
        refine .inl ?_
        simp
      · rw [ended]
        refine .inr (.inl ⟨rfl, ?_⟩)
        simp only [List.length_drop, length_cons] at bound ⊢
        omega
      · rw [failed]
        exact .inr (.inr ⟨rfl, row, List.mem_of_mem_drop mem, p, hp⟩)
    · rw [page]
      exact .inr (.inr ⟨rfl, failing⟩)

/-- The appended text spells the statement, the continuation holds of the rows strictly after its
position, and walking the pages returns the matching rows once each and in order. -/
theorem paging_exact {schema : Schema} {params : Parameters} {q : Query} {table : List Row}
    (hq : Query.new parseUuid schema params = .ok q) (listed : Listed parseUuid q table)
    (faithful : ∀ row ∈ table, ∀ p, q.position parseUuid row = .ok p → codec.Faithful binding p) :
    (∀ columns after, append parseUuid q after columns =
      (statement parseUuid q after).map (Statement.render columns)) ∧
    (∀ p, q.validatePosition parseUuid p = .ok () → ∃ conditions,
      filterConditions q = .ok conditions ∧ statement parseUuid q (some p) =
        .ok ⟨conditions ++ [seekPredicate q.sort p], q.sort, q.limit.toNat + 1⟩ ∧
      ∀ row, (seekPredicate q.sort p).eval db row = some (decide (keyOrder db.compare
        (q.sort.map SortKey.descending) (p.map cell) (rowKey q.sort row) = .lt))) ∧
    ∀ limits, (∀ limit ∈ limits, schema.allows limit = true) →
      (∃ rows, walk parseUuid db codec binding schema params table limits none = .ok (some rows) ∧
        rows.Perm (table.filter (q.matches db)) ∧
        rows.Pairwise (fun a b => rowOrder db q.sort a b = .lt)) ∨
      (walk parseUuid db codec binding schema params table limits none = .ok none ∧
        limits.length ≤ (table.filter (q.matches db)).length) ∨
      (walk parseUuid db codec binding schema params table limits none =
          .error (.error .budget) ∧
        ∃ row ∈ table.filter (q.matches db), ∃ p, q.position parseUuid row = .ok p ∧
          codec.encode binding p = .error .budget) := by
  have built := new_constructed parseUuid hq
  have perm : (listing db q table).Perm (table.filter (q.matches db)) := perm_insertionSort _ _
  refine ⟨fun columns after => append_render parseUuid q columns after, ?_, ?_⟩
  · intro p valid
    obtain ⟨conditions, hconditions, hstmt⟩ := statement_after parseUuid built valid
    exact ⟨conditions, hconditions, hstmt,
      fun row => seekPredicate_eval db row (validatePosition_eq_ok parseUuid valid).1⟩
  · intro limits allowed
    have start : Remaining parseUuid codec binding q (listing db q table) none
        (listing db q table) := ⟨[], rfl, rfl⟩
    rcases walk_remaining parseUuid db codec binding hq listed faithful limits allowed start with
      done | ⟨ended, bound⟩ | ⟨failed, row, mem, p, hp⟩
    · refine .inl ⟨_, done, perm, ?_⟩
      exact sortedRows_pairwise db built (listed.unique.sublist filter_sublist)
    · exact .inr (.inl ⟨ended, perm.length_eq ▸ bound⟩)
    · exact .inr (.inr ⟨failed, row, perm.mem_iff.mp mem, p, hp⟩)

end

open Lib.Text

def jsonChar (c : Char) : List Char := if c = '"' || c = '\\' then ['\\', c] else [c]

def jsonText (s : String) : List Char := '"' :: s.toList.flatMap jsonChar ++ ['"']

def jsonValue : Json → List Char
  | .null => "null".toList
  | .bool b => (toString b).toList
  | .number (some n) => (toString n).toList
  | .string s => jsonText s
  | _ => []

def jsonOpening : List Char := "\x7b\"version\":1,\"context\":\"".toList

def jsonMiddle : List Char := ",\"position\":[".toList

def jsonPayload (p : Payload) : List Char :=
  jsonOpening ++ (jsonText p.context).tail ++ jsonMiddle ++
    (",".toList.intercalate (p.position.map jsonValue)) ++ "]\x7d".toList

def readText : List Char → Option (List Char × List Char)
  | [] => none
  | '"' :: rest => some ([], rest)
  | '\\' :: c :: rest => (readText rest).map (fun r => (c :: r.1, r.2))
  | c :: rest => (readText rest).map (fun r => (c :: r.1, r.2))

def readValue : List Char → Option (Json × List Char)
  | '"' :: rest => (readText rest).map (fun r => (.string (String.ofList r.1), r.2))
  | 'n' :: 'u' :: 'l' :: 'l' :: rest => some (.null, rest)
  | _ => none

def readValues : Nat → List Char → Option (List Json)
  | 0, _ => none
  | fuel + 1, cs => do
      let (v, rest) ← readValue cs
      match rest with
      | ',' :: rest => (readValues fuel rest).map (v :: ·)
      | [']', '\x7d'] => some [v]
      | _ => none

def readPayload (cs : List Char) : Option Payload :=
  if !jsonOpening.isPrefixOf cs then none
  else do
    let (context, rest) ← readText (cs.drop jsonOpening.length)
    if !jsonMiddle.isPrefixOf rest then none
    else do
      let position ← readValues rest.length (rest.drop jsonMiddle.length)
      some ⟨1, String.ofList context, position⟩

/-- The codec over texts without other characters than ASCII. -/
def sampleCodec : CursorCodec where
  sign := Lib.Sha256.hmac (List.replicate 32 7)
  verify message tag := Lib.Sha256.hmac (List.replicate 32 7) message = tag
  base64 octets := String.ofList (Lib.Base64.encode octets)
  unbase64 text := Lib.Base64.decode text.toList
  toJson p := (jsonPayload p).map (fun c => UInt8.ofNat c.toNat)
  fromJson octets := readPayload (octets.map (fun b => Char.ofNat b.toNat))
  pageCursor text := !text.isEmpty && text.utf8ByteSize ≤ 4096

theorem sampleCodec_faithful {context : String} {position : Position}
    (json : sampleCodec.fromJson (sampleCodec.toJson ⟨1, context, position⟩) =
      some ⟨1, context, position⟩) : sampleCodec.Faithful context position where
  tag_length := Lib.Sha256.digest_length _
  verifies := by simp [sampleCodec]
  base64 := by simp [sampleCodec, Lib.Base64.decode_encode]
  nonempty := by
    intro empty
    have length := Lib.Base64.length_le_encode (sampleCodec.message context position ++
      sampleCodec.sign (sampleCodec.message context position))
    have none : Lib.Base64.encode (sampleCodec.message context position ++
        sampleCodec.sign (sampleCodec.message context position)) = [] := by
      have eq := congrArg String.toList empty
      simpa [sampleCodec] using eq
    rw [none, length_append, show (sampleCodec.sign _).length = 32 from
      Lib.Sha256.digest_length _, List.length_nil] at length
    omega
  json := json

/-- Texts with a byte order, as under the "C" collation. -/
def sampleDatabase : Database := ⟨compare, fun s => s⟩

def sampleSchema : Schema where
  id := "device"
  fields := [⟨"id", .text, true, true, true⟩, ⟨"name", .text, true, true, true⟩]
  keys := ["id"]
  defaultLimit := 1
  maxLimit := 3

/-- By name in descending order; the identity is appended. -/
def sampleParameters : Parameters := ⟨none, [⟨"name", true⟩], some ["id"], none, none⟩

def sampleQuery : Query :=
  ⟨sampleSchema, none, [⟨"name", true⟩, ⟨"id", false⟩], ["id"], 1, none⟩

def sampleRow (id : String) (name : Json) : Row := [("id", .string id), ("name", name)]

def sampleTable : List Row :=
  [sampleRow "a" .null, sampleRow "b" (.string "x"), sampleRow "c" (.string "y"),
    sampleRow "d" (.string "x")]

instance : Std.TransCmp sampleDatabase.collate :=
  inferInstanceAs (Std.TransCmp (compare : String → String → Ordering))

instance : Std.LawfulEqCmp sampleDatabase.collate :=
  inferInstanceAs (Std.LawfulEqCmp (compare : String → String → Ordering))

def samplePosition (row : Row) : Position :=
  [(row.get "name").getD .null, (row.get "id").getD .null]

theorem sampleTable_positions : ∀ row ∈ sampleTable,
    sampleQuery.position (fun _ => none) row = .ok (samplePosition row) ∧
      sampleCodec.fromJson (sampleCodec.toJson ⟨1, "org", samplePosition row⟩) =
        some ⟨1, "org", samplePosition row⟩ := by
  intro row mem
  simp only [sampleTable, mem_cons, not_mem_nil, or_false] at mem
  rcases mem with rfl | rfl | rfl | rfl
  · exact ⟨rfl, rfl⟩
  · exact ⟨rfl, rfl⟩
  · exact ⟨rfl, rfl⟩
  · exact ⟨rfl, rfl⟩

theorem sampleTable_listed : Listed (fun _ => none) sampleQuery sampleTable where
  positions := fun row mem => ⟨_, (sampleTable_positions row mem).1⟩
  unique := by decide

/-- Four rows walked with the limits two, one and the default. -/
theorem paging_exact_sample :
    Query.new (fun _ => none) sampleSchema sampleParameters = .ok sampleQuery ∧
    Listed (fun _ => none) sampleQuery sampleTable ∧
    ((∃ rows, walk (fun _ => none) sampleDatabase sampleCodec "org" sampleSchema sampleParameters
          sampleTable [some 2, some 1, none, none, none] none = .ok (some rows) ∧
        rows.Perm (sampleTable.filter (sampleQuery.matches sampleDatabase)) ∧
        rows.Pairwise (fun a b => rowOrder sampleDatabase sampleQuery.sort a b = .lt)) ∨
      (walk (fun _ => none) sampleDatabase sampleCodec "org" sampleSchema sampleParameters
          sampleTable [some 2, some 1, none, none, none] none = .ok none ∧
        5 ≤ (sampleTable.filter (sampleQuery.matches sampleDatabase)).length) ∨
      (walk (fun _ => none) sampleDatabase sampleCodec "org" sampleSchema sampleParameters
          sampleTable [some 2, some 1, none, none, none] none = .error (.error .budget) ∧
        ∃ row ∈ sampleTable.filter (sampleQuery.matches sampleDatabase), ∃ p,
          sampleQuery.position (fun _ => none) row = .ok p ∧
          sampleCodec.encode "org" p = .error .budget)) := by
  have faithful : ∀ row ∈ sampleTable, ∀ p, sampleQuery.position (fun _ => none) row = .ok p →
      sampleCodec.Faithful "org" p := by
    intro row mem p position
    obtain ⟨here, json⟩ := sampleTable_positions row mem
    rw [here] at position
    cases position
    exact sampleCodec_faithful json
  refine ⟨rfl, sampleTable_listed, ?_⟩
  have built : Query.new (fun _ => none) sampleSchema sampleParameters = .ok sampleQuery := rfl
  exact (paging_exact (fun _ => none) sampleDatabase sampleCodec "org" built sampleTable_listed
    faithful).2.2 _ (List.all_eq_true.mp (by decide))

theorem repeated_valid {n : Nat} (h : n ≤ 4096) :
    valid (fun _ => none) .text (.string (String.ofList (List.replicate n 'a'))) = true := by
  have length : utf8Len (List.replicate n 'a') = n := by
    clear h
    induction n with
    | zero => rfl
    | succ n ih =>
      rw [List.replicate_succ, utf8Len_cons, ih]
      exact Nat.add_comm 1 n
  have plain : (List.replicate n 'a').any isControl = false := by
    rw [List.any_eq_false]
    intro c mem
    rw [List.eq_of_mem_replicate mem]
    decide
  simp only [valid, Json.asStr, Option.any_some, utf8ByteSize_eq, String.toList_ofList, length, plain]
  simpa using h

theorem length_le_jsonText (s : String) : s.toList.length ≤ (jsonText s).length := by
  have flat : ∀ cs : List Char, cs.length ≤ (cs.flatMap jsonChar).length := by
    intro cs
    induction cs with
    | nil => exact Nat.le_refl 0
    | cons c =>
      have one : 1 ≤ (jsonChar c).length := by
        unfold jsonChar
        split <;> simp
      rw [List.flatMap_cons, length_append, length_cons]
      omega
  have whole := flat s.toList
  simp only [jsonText, length_append, length_cons]
  omega

variable {name : String}

theorem sampleRow_position {id : String} (hid : valid (fun _ => none) .text (.string id) = true)
    (hname : valid (fun _ => none) .text (.string name) = true) :
    sampleQuery.position (fun _ => none) (sampleRow id (.string name)) =
      .ok [.string name, .string id] := by
  have values : Query.sortValues (sampleRow id (.string name)) sampleQuery.sort =
      .ok [.string name, .string id] := rfl
  have checked : sampleQuery.validatePosition (fun _ => none) [.string name, .string id] =
      .ok () := by
    rw [Query.validatePosition, if_neg (by simp [sampleQuery]), each_eq_ok]
    intro x mem
    simp only [sampleQuery, List.zip_cons_cons, List.zip_nil_left, mem_cons, not_mem_nil,
      or_false] at mem
    rcases mem with rfl | rfl
    · simp [Json.isNull, Schema.field, sampleQuery, sampleSchema, hname]
    · simp [Json.isNull, Schema.field, sampleQuery, sampleSchema, hid]
  rw [Query.position, values, ok_bind, checked]
  rfl

theorem longText_budget (id : String) (long : 4096 ≤ name.toList.length) :
    sampleCodec.encode "org" [.string name, .string id] = .error .budget := by
  have text := length_le_jsonText name
  have message : 4096 < (sampleCodec.message "org" [.string name, .string id]).length := by
    have json : (jsonText name).length ≤
        (jsonPayload ⟨1, "org", [.string name, .string id]⟩).length := by
      simp only [jsonPayload, List.map_cons, List.map_nil, jsonValue, List.intercalate_cons_cons,
        length_append]
      omega
    have opening : CursorCodec.domain.length = 24 := by decide
    simp only [CursorCodec.message, length_append, sampleCodec, List.length_map]
    omega
  generalize hoctets : sampleCodec.message "org" [.string name, .string id] ++
    sampleCodec.sign (sampleCodec.message "org" [.string name, .string id]) = octets
  have whole : 4096 < octets.length := by
    rw [← hoctets, length_append]
    omega
  have symbols := Lib.Base64.length_le_encode octets
  have bytes := length_le_utf8Len (Lib.Base64.encode octets)
  have refused : (sampleCodec.base64 octets).utf8ByteSize > 4096 := by
    rw [utf8ByteSize_eq, show (sampleCodec.base64 octets).toList = _ from String.toList_ofList]
    omega
  rw [CursorCodec.encode, CursorCodec.encodeBounded, hoctets]
  simp only [if_pos refused]
  rfl

def namesakes (name : String) : List Row :=
  [sampleRow "a" (.string name), sampleRow "b" (.string name)]

theorem namesakes_budget (hname : valid (fun _ => none) .text (.string name) = true)
    (long : 4096 ≤ name.toList.length) :
    ∀ row ∈ namesakes name, ∃ p, sampleQuery.position (fun _ => none) row = .ok p ∧
      sampleCodec.encode "org" p = .error .budget := by
  intro row mem
  simp only [namesakes, mem_cons, not_mem_nil, or_false] at mem
  rcases mem with rfl | rfl
  · exact ⟨_, sampleRow_position (by decide) hname, longText_budget _ long⟩
  · exact ⟨_, sampleRow_position (by decide) hname, longText_budget _ long⟩

theorem namesakes_walk (hname : valid (fun _ => none) .text (.string name) = true)
    (long : 4096 ≤ name.toList.length) :
    Listed (fun _ => none) sampleQuery (namesakes name) ∧
    walk (fun _ => none) sampleDatabase sampleCodec "org" sampleSchema sampleParameters
      (namesakes name) [none, none, none] none = .error (.error .budget) := by
  have built : Query.new (fun _ => none) sampleSchema sampleParameters = .ok sampleQuery := rfl
  have constructed := new_constructed _ built
  have listed : Listed (fun _ => none) sampleQuery (namesakes name) :=
    { positions := fun row mem => by
        obtain ⟨p, position, -⟩ := namesakes_budget hname long row mem
        exact ⟨p, position⟩
      unique := by
        refine List.Pairwise.cons ?_ (List.pairwise_singleton _ _)
        intro row mem
        rw [List.mem_singleton.mp mem]
        simp [identity, sampleQuery, sampleSchema, column, sampleRow, Row.get, value,
          Except.toOption] }
  have start : Remaining (fun _ => none) sampleCodec "org" sampleQuery
      (listing sampleDatabase sampleQuery (namesakes name)) sampleQuery.cursor
      (listing sampleDatabase sampleQuery (namesakes name)) := ⟨[], rfl, rfl⟩
  have two : (listing sampleDatabase sampleQuery (namesakes name)).length = 2 :=
    (perm_insertionSort _ _).length_eq
  refine ⟨listed, ?_⟩
  rw [walk, show Query.new (fun _ => none) sampleSchema (sampleParameters.next none none) =
    .ok sampleQuery from built, ok_bind]
  rcases servePage_cut (fun _ => none) sampleDatabase sampleCodec "org" constructed listed start with
    ⟨short, -⟩ | ⟨-, row, mem, p, -, position, page⟩
  · rw [two] at short
    exact absurd short (by decide)
  obtain ⟨p', position', refused⟩ := namesakes_budget hname long row mem
  rw [position] at position'
  cases position'
  rw [page, refused]
  rfl

/-- With the longest text a column may hold, the walk ends in a token that is refused. -/
theorem paging_refuses_long_token :
    Query.new (fun _ => none) sampleSchema sampleParameters = .ok sampleQuery ∧
    Listed (fun _ => none) sampleQuery (namesakes (String.ofList (List.replicate 4096 'a'))) ∧
    walk (fun _ => none) sampleDatabase sampleCodec "org" sampleSchema sampleParameters
      (namesakes (String.ofList (List.replicate 4096 'a'))) [none, none, none] none =
        .error (.error .budget) := by
  have length : 4096 ≤ (String.ofList (List.replicate 4096 'a')).toList.length := by
    rw [String.toList_ofList, List.length_replicate]
  exact ⟨rfl, namesakes_walk (repeated_valid (Nat.le_refl 4096)) length⟩

end RssMdm.Query.Directory
