/- module: Inventory/NativeRows
   source: crates/inventory/src/progress.rs
   digest: Native lists from mapped rows, and which rows they keep. -/

import RssMdm.Inventory.Budget
import RssMdm.Lib.Repetition

set_option autoImplicit false

namespace RssMdm.Inventory

open Lib Lib.Fallible Lib.Repetition
open List (getElem?_eq_none length_append length_cons length_map length_set length_singleton
  map_append)

section

variable [Environment]

/-- The rows seen so far: their qualities, their values and the identities with their last row. -/
structure RowScan where
  quality : List Quality
  values : List (Option Scalar)
  identities : List (Scalar × Nat)

/-- A later row of a known identity makes the previous one invalid too. -/
def RowScan.identify (s : RowScan) (identity : Scalar) (value : Scalar) : RowScan :=
  let index := s.quality.length
  let quality := s.quality ++ [.success]
  { quality := match s.identities.find? (fun e => identity.same e.1) with
      | some (_, previous) => (quality.set previous .invalid).set index .invalid
      | none => quality
    values := s.values ++ [some value]
    identities := (identity, index) :: s.identities }

def validatedRow (d : FieldDefinition) (row : Except Invalid Scalar) : Except Invalid Scalar := do
  let value ← row
  d.validateItem value
  .ok value

/-- One pass of the loop over the rows. -/
def scanRow (d : FieldDefinition) (s : RowScan) (row : Except Invalid Scalar) :
    Except Invalid RowScan :=
  match validatedRow d row with
  | .error _ => .ok { s with quality := s.quality ++ [.invalid], values := s.values ++ [none] }
  | .ok value =>
      match d.itemKey, value with
      | some key, .object properties =>
          match properties.lookup key with
          | none => .error .value
          | some identity => .ok (s.identify identity value)
      | _, _ =>
          .ok { s with quality := s.quality ++ [.success], values := s.values ++ [some value] }

def keptValues (values : List (Option Scalar)) (quality : List Quality) : List Scalar :=
  (values.zip quality).filterMap (fun p => if p.2 = .success then p.1 else none)

/-- Validate each mapped list row and duplicate identities without accepting a part of the list. -/
def NativeValue.list (d : FieldDefinition) (rows : List (Except Invalid Scalar)) :
    Except Invalid NativeValue :=
  match d.valueType with
  | .array _ maxItems =>
      if rows.length > maxItems.toNat then .ok .invalid
      else do
        let s ← rows.foldlM (scanRow d) ⟨[], [], []⟩
        let values := keptValues s.values s.quality
        if .invalid ∈ s.quality then .ok (.invalidItems s.quality values)
        else do
          let canonical ← d.canonicalValue (.array values)
          .ok (.value (.value canonical))
  | _ => .error .typeMismatch

end

section

variable [Environment]

def rowIdentity (d : FieldDefinition) (row : Except Invalid Scalar) : Option Scalar :=
  match validatedRow d row, d.itemKey with
  | .ok value, some key => itemIdentity key value
  | _, _ => none

def rowIdentities (d : FieldDefinition) (rows : List (Except Invalid Scalar)) :
    List (Option Scalar) := rows.map (rowIdentity d)

/-- The quality that a row deserves. -/
structure Marks (d : FieldDefinition) (rows : List (Except Invalid Scalar))
    (quality : List Quality) : Prop where
  length : quality.length = rows.length
  closed : ∀ q ∈ quality, q = .success ∨ q = .invalid
  invalid : ∀ (i : Nat) (row : Except Invalid Scalar), rows[i]? = some row →
    (quality[i]? = some .invalid ↔ (∀ v, validatedRow d row ≠ .ok v) ∨
      Repeats Scalar.same (rowIdentities d rows) i)

structure Scanned (d : FieldDefinition) (rows : List (Except Invalid Scalar)) (s : RowScan) :
    Prop where
  marks : Marks d rows s.quality
  values : s.values = rows.map (fun row => (validatedRow d row).toOption)
  known : ∀ identity e, s.identities.find? (fun e => identity.same e.1) = some e →
    At Scalar.same (rowIdentities d rows) identity e.2
  fresh : ∀ identity, s.identities.find? (fun e => identity.same e.1) = none →
    ∀ i, ¬ At Scalar.same (rowIdentities d rows) identity i

omit [Environment] in
theorem same_symm (a b : Scalar) (h : a.same b = true) : b.same a = true :=
  Scalar.same_iff.mpr (Scalar.same_iff.mp h).symm

omit [Environment] in
theorem same_trans (a b c : Scalar) (h : a.same b = true) (h' : b.same c = true) :
    a.same c = true :=
  Scalar.same_iff.mpr ((Scalar.same_iff.mp h).trans (Scalar.same_iff.mp h'))

theorem rowIdentities_snoc (d : FieldDefinition) (rows : List (Except Invalid Scalar))
    (row : Except Invalid Scalar) :
    rowIdentities d (rows ++ [row]) = rowIdentities d rows ++ [rowIdentity d row] :=
  map_append

theorem rowIdentities_length (d : FieldDefinition) (rows : List (Except Invalid Scalar)) :
    (rowIdentities d rows).length = rows.length := length_map _

end

section

variable [Environment] {d : FieldDefinition} {rows : List (Except Invalid Scalar)}
  {row : Except Invalid Scalar}

theorem Marks.nil (d : FieldDefinition) : Marks d [] [] where
  length := rfl
  closed := by simp
  invalid := by simp

variable {quality : List Quality}

theorem Marks.snoc {quality' : List Quality} (marks : Marks d rows quality) (touched : Nat → Prop)
    (length : quality'.length = rows.length + 1)
    (closed : ∀ q ∈ quality', q = .success ∨ q = .invalid)
    (now : ∀ i, quality'[i]? = some .invalid ↔ quality[i]? = some .invalid ∨ touched i)
    (repeats : ∀ i, (Repeats Scalar.same (rowIdentities d (rows ++ [row])) i ∨ i = rows.length ∧
      ∀ v, validatedRow d row ≠ .ok v) ↔ Repeats Scalar.same (rowIdentities d rows) i ∨ touched i) :
    Marks d (rows ++ [row]) quality' where
  length := by rw [length, length_append, length_singleton]
  closed := closed
  invalid := by
    intro i row' found
    rw [getElem?_snoc] at found
    split at found
    · rename_i inside
      have other : i ≠ rows.length := by omega
      rw [now, marks.invalid i row' found, or_assoc, ← repeats]
      constructor
      · rintro (wrong | again | ⟨last, -⟩)
        · exact .inl wrong
        · exact .inr again
        · exact absurd last other
      · rintro (wrong | again)
        · exact .inl wrong
        · exact .inr (.inl again)
    · split at found
      · rename_i last
        cases found
        have beyond : quality[i]? = none := getElem?_eq_none (by rw [marks.length]; omega)
        have unseen : ¬ Repeats Scalar.same (rowIdentities d rows) i := by
          intro again
          have bound := again.lt
          rw [rowIdentities_length] at bound
          omega
        have here := repeats i
        rw [now, beyond]
        constructor
        · rintro (none | touch)
          · cases none
          · rcases here.mpr (.inr touch) with again | ⟨-, wrong⟩
            · exact .inr again
            · exact .inl wrong
        · intro either
          have back : Repeats Scalar.same (rowIdentities d (rows ++ [row])) i ∨
              i = rows.length ∧ ∀ v, validatedRow d row ≠ .ok v := by
            rcases either with wrong | again
            · exact .inr ⟨last, wrong⟩
            · exact .inl again
          rcases here.mp back with again | touch
          · exact absurd again unseen
          · exact .inr touch
      · cases found

omit [Environment] in
theorem closed_snoc {q : Quality} (closed : ∀ q ∈ quality, q = .success ∨ q = .invalid)
    (last : q = .success ∨ q = .invalid) :
    ∀ q' ∈ quality ++ [q], q' = .success ∨ q' = .invalid := by
  intro q' member
  rcases List.mem_append.mp member with inside | own
  · exact closed q' inside
  · rw [List.mem_singleton.mp own]
    exact last

def Keyed (d : FieldDefinition) : Prop :=
  ∀ key v, d.itemKey = some key → d.validateItem v = .ok () →
    ∃ properties identity, v = .object properties ∧ properties.lookup key = some identity

theorem validatedRow_eq_ok {v : Scalar} :
    validatedRow d row = .ok v ↔ row = .ok v ∧ d.validateItem v = .ok () := by
  rw [validatedRow, bind_eq_ok]
  constructor
  · rintro ⟨w, own, h⟩
    obtain ⟨valid, same⟩ := of_check h
    cases same
    exact ⟨own, valid⟩
  · rintro ⟨own, valid⟩
    exact ⟨v, own, check_bind_eq_ok.mpr ⟨valid, rfl⟩⟩

theorem Scanned.nil (d : FieldDefinition) : Scanned d [] ⟨[], [], []⟩ where
  marks := Marks.nil d
  values := rfl
  known := by simp
  fresh := by
    intro identity _ i key
    exact absurd key.lt (Nat.not_lt_zero i)

theorem Scanned.snoc_none {s : RowScan} (scanned : Scanned d rows s)
    (anonymous : rowIdentity d row = none) {q : Quality}
    (deserved : q = .success ∧ (∃ v, validatedRow d row = .ok v) ∨
      q = .invalid ∧ ∀ v, validatedRow d row ≠ .ok v) :
    Scanned d (rows ++ [row]) { s with
      quality := s.quality ++ [q], values := s.values ++ [(validatedRow d row).toOption] } where
  marks := by
    have ids := rowIdentities_snoc d rows row
    rw [anonymous] at ids
    have valued : q = .invalid ↔ ∀ v, validatedRow d row ≠ .ok v := by
      rcases deserved with ⟨rfl, v, valid⟩ | ⟨rfl, wrong⟩
      · exact iff_of_false nofun fun wrong => wrong v valid
      · exact iff_of_true rfl wrong
    refine scanned.marks.snoc (fun i => i = rows.length ∧ q = .invalid) ?_ ?_ ?_ ?_
    · rw [length_append, scanned.marks.length, length_singleton]
    · exact closed_snoc scanned.marks.closed (deserved.imp And.left And.left)
    · intro i
      rw [getElem?_snoc, scanned.marks.length]
      split
      · rename_i inside
        have other : i ≠ rows.length := by omega
        simp [other]
      rename_i outside
      have beyond : s.quality[i]? = none :=
        getElem?_eq_none (by rw [scanned.marks.length]; omega)
      rw [beyond]
      split
      · rename_i last
        simp [last]
      · rename_i other
        simp [other]
    · intro i
      rw [ids, repeats_snoc_none, valued]
  values := by rw [scanned.values, map_append, List.map_singleton]
  known := by
    intro identity e found
    rw [rowIdentities_snoc, anonymous]
    exact at_snoc.mpr (.inl (scanned.known identity e found))
  fresh := by
    intro identity none i key
    rw [rowIdentities_snoc, anonymous, at_snoc] at key
    rcases key with old | ⟨-, b, own, -⟩
    · exact scanned.fresh identity none i old
    · cases own

end

section

variable [Environment] {d : FieldDefinition} {rows : List (Except Invalid Scalar)}
  {row : Except Invalid Scalar} {quality : List Quality}

omit [Environment] in
theorem mem_set_closed (n : Nat) (closed : ∀ q ∈ quality, q = .success ∨ q = .invalid) :
    ∀ q ∈ quality.set n .invalid, q = .success ∨ q = .invalid := by
  intro q member
  rcases List.mem_or_eq_of_mem_set member with inside | own
  · exact closed q inside
  · exact .inr own

omit [Environment] in
theorem getElem?_set_invalid {n : Nat} (inside : n < quality.length) (i : Nat) :
    (quality.set n Quality.invalid)[i]? = some Quality.invalid ↔
      quality[i]? = some Quality.invalid ∨ i = n := by
  rw [List.getElem?_set]
  by_cases same : n = i
  · subst same
    simp [inside]
  · have other : ¬ i = n := fun equal => same equal.symm
    rw [if_neg same]
    simp [other]

theorem Scanned.identify {s : RowScan} (scanned : Scanned d rows s) {identity value : Scalar}
    (identified : rowIdentity d row = some identity) (valid : validatedRow d row = .ok value) :
    Scanned d (rows ++ [row]) (s.identify identity value) := by
  have ids := rowIdentities_snoc d rows row
  rw [identified] at ids
  have length := scanned.marks.length
  have right : ¬ ∀ v, validatedRow d row ≠ .ok v := fun wrong => wrong value valid
  have appended : ∀ i : Nat, (s.quality ++ [Quality.success])[i]? = some Quality.invalid ↔
      s.quality[i]? = some Quality.invalid := by
    intro i
    rw [getElem?_snoc]
    split
    · rfl
    rename_i outside
    have beyond : s.quality[i]? = none := getElem?_eq_none (by omega)
    rw [beyond]
    split
    · simp
    · rfl
  constructor
  · unfold RowScan.identify
    split
    · rename_i e previous found
      have known := scanned.known identity _ found
      have before := known.lt
      rw [rowIdentities_length] at before
      refine scanned.marks.snoc (fun i => i = previous ∨ i = rows.length) ?_ ?_ ?_ ?_
      · rw [length_set, length_set, length_append, length, length_singleton]
      · exact mem_set_closed _ (mem_set_closed _ (closed_snoc scanned.marks.closed (.inl rfl)))
      · intro i
        have first : previous < (s.quality ++ [Quality.success]).length := by
          rw [length_append, length_singleton]
          omega
        have second : s.quality.length <
            ((s.quality ++ [Quality.success]).set previous Quality.invalid).length := by
          rw [length_set, length_append, length_singleton]
          omega
        rw [getElem?_set_invalid second, getElem?_set_invalid first, appended, length, or_assoc]
      · intro i
        rw [ids, repeats_snoc_of_at same_symm same_trans known, rowIdentities_length]
        constructor
        · rintro (again | ⟨-, wrong⟩)
          · exact again
          · exact absurd wrong right
        · exact .inl
    · rename_i none
      have fresh := scanned.fresh identity none
      refine scanned.marks.snoc (fun _ => False) ?_ ?_ ?_ ?_
      · rw [length_append, length, length_singleton]
      · exact closed_snoc scanned.marks.closed (.inl rfl)
      · intro i
        rw [appended, or_false]
      · intro i
        rw [ids, repeats_snoc_of_fresh same_symm fresh, or_false]
        constructor
        · rintro (again | ⟨-, wrong⟩)
          · exact again
          · exact absurd wrong right
        · exact .inl
  · have own : (validatedRow d row).toOption = some value := by
      rw [valid]
      rfl
    rw [RowScan.identify, scanned.values, map_append, List.map_singleton, own]
  · intro other e found
    rw [RowScan.identify, List.find?_cons] at found
    rw [ids, at_snoc]
    split at found
    · rename_i agrees
      cases found
      exact .inr ⟨by rw [rowIdentities_length, length], identity, rfl, agrees⟩
    · exact .inl (scanned.known other e found)
  · intro other none i key
    rw [RowScan.identify, List.find?_cons] at none
    rw [ids, at_snoc] at key
    split at none
    · cases none
    rename_i differs
    rcases key with old | ⟨-, b, own, agrees⟩
    · exact scanned.fresh other none i old
    · cases own
      rw [differs] at agrees
      cases agrees

theorem scanRow_ok (keyed : Keyed d) {s : RowScan} (scanned : Scanned d rows s) :
    ∃ s', scanRow d s row = .ok s' ∧ Scanned d (rows ++ [row]) s' := by
  unfold scanRow
  cases valid : validatedRow d row with
  | error e =>
    have anonymous : rowIdentity d row = none := by
      unfold rowIdentity
      rw [valid]
    have wrong : ∀ v, validatedRow d row ≠ .ok v := by
      intro v ok
      rw [valid] at ok
      cases ok
    have next := scanned.snoc_none anonymous (.inr ⟨rfl, wrong⟩)
    rw [valid] at next
    exact ⟨_, rfl, next⟩
  | ok value =>
    have right : ∃ v, validatedRow d row = .ok v := ⟨value, valid⟩
    cases key : d.itemKey with
    | none =>
      have anonymous : rowIdentity d row = none := by
        unfold rowIdentity
        rw [valid, key]
      have next := scanned.snoc_none anonymous (.inl ⟨rfl, right⟩)
      rw [valid] at next
      exact ⟨_, rfl, next⟩
    | some name =>
      obtain ⟨properties, identity, rfl, found⟩ :=
        keyed name value key (validatedRow_eq_ok.mp valid).2
      have identified : rowIdentity d row = some identity := by
        unfold rowIdentity
        rw [valid, key]
        exact found
      dsimp only
      rw [found]
      exact ⟨_, rfl, scanned.identify identified valid⟩

theorem foldlM_scanRow (keyed : Keyed d) (rows : List (Except Invalid Scalar)) :
    ∃ s, rows.foldlM (scanRow d) ⟨[], [], []⟩ = .ok s ∧ Scanned d rows s := by
  induction rows using List.reverseRecOn with
  | nil => exact ⟨_, rfl, Scanned.nil d⟩
  | append_singleton rows row ih =>
    obtain ⟨s, before, scanned⟩ := ih
    obtain ⟨s', step, next⟩ := scanRow_ok keyed scanned
    refine ⟨s', ?_, next⟩
    rw [List.foldlM_append, before, ok_bind, List.foldlM_cons, step, ok_bind]
    rfl

end

section

variable [Environment] {d : FieldDefinition} {rows : List (Except Invalid Scalar)} {ty : ValueType}
  {values : List (String × Scalar)} {key : String}

theorem validateRecord_lookup {properties : List (String × ValueType × Bool)}
    (h : ValueType.validateRecord properties values = .ok ())
    (member : (key, ty, true) ∈ properties) : ∃ v, values.lookup key = some v := by
  induction properties with
  | nil => exact nomatch member
  | cons p _ ih =>
    rw [ValueType.validateRecord, check_bind_eq_ok] at h
    rcases List.mem_cons.mp member with own | later
    · cases own
      cases found : values.lookup key with
      | some v => exact ⟨v, rfl⟩
      | none =>
        rw [found] at h
        cases h.1
    · exact ih h.2 later

theorem validateObject_lookup {properties : List (String × ValueType)}
    (h : ValueType.validateObject properties values = .ok ()) (member : (key, ty) ∈ properties) :
    ∃ v, values.lookup key = some v := by
  induction properties with
  | nil => exact nomatch member
  | cons p _ ih =>
    rw [ValueType.validateObject, check_bind_eq_ok] at h
    rcases List.mem_cons.mp member with own | later
    · cases own
      cases found : values.lookup key with
      | some v => exact ⟨v, rfl⟩
      | none =>
        rw [found] at h
        cases h.1
    · exact ih h.2 later

theorem validateValue_property {items : ValueType} {v : Scalar}
    (declared : (key, ty, true) ∈ items.properties) (fits : items.validateValue v = .ok ()) :
    ∃ properties identity, v = .object properties ∧ properties.lookup key = some identity := by
  cases items with
  | record properties =>
    have member : (key, ty, true) ∈ properties := declared
    cases v with
    | object values =>
      rw [ValueType.validateValue, check_bind_eq_ok] at fits
      obtain ⟨identity, found⟩ := validateRecord_lookup (of_guard fits.2).2 member
      exact ⟨values, identity, rfl, found⟩
    | _ => simp [ValueType.validateValue, check_bind_eq_ok] at fits
  | object =>
    obtain ⟨p, member, same⟩ := List.mem_map.mp declared
    cases same
    cases v with
    | object values =>
      rw [ValueType.validateValue, check_bind_eq_ok] at fits
      obtain ⟨identity, found⟩ := validateObject_lookup (of_guard fits.2).2 member
      exact ⟨values, identity, rfl, found⟩
    | _ => simp [ValueType.validateValue, check_bind_eq_ok] at fits
  | _ => cases declared

theorem keyed_of_validate (published : d.validate = .ok ()) : Keyed d := by
  intro key v keyed valid
  rw [FieldDefinition.validate, check_bind_eq_ok, check_bind_eq_ok] at published
  have checked : d.checkItemKey = .ok () := by
    obtain ⟨-, -, h⟩ := published
    rw [guard_eq_ok, guard_eq_ok] at h
    exact h.2.2
  unfold FieldDefinition.checkItemKey at checked
  rw [keyed] at checked
  rw [FieldDefinition.validateItem, guard_eq_ok] at valid
  obtain ⟨-, valid⟩ := valid
  cases ty : d.valueType with
  | array items =>
    rw [ty] at checked valid
    dsimp only at checked valid
    rw [check_bind_eq_ok] at valid
    cases found : items.properties.find? (fun p => p.1 = key && p.2.2) with
    | none =>
      rw [found] at checked
      cases checked
    | some p =>
      obtain ⟨name, ty', required⟩ := p
      have named := List.find?_some found
      simp only [Bool.and_eq_true, decide_eq_true_eq] at named
      have declared := List.mem_of_find?_eq_some found
      rw [named.1, named.2] at declared
      exact validateValue_property declared valid.1
  | _ =>
    rw [ty] at checked
    cases checked

theorem canonicalValue_list (d : FieldDefinition) (values : List Scalar) :
    (∃ c, d.canonicalValue (.array values) = .ok c) ↔
      d.validateScalar (.array values) = .ok () := by
  rw [FieldDefinition.canonicalValue]
  constructor
  · rintro ⟨c, h⟩
    obtain ⟨canonical, hardware, h⟩ := of_bind h
    rw [FieldDefinition.hardwareValue_array hardware] at h
    exact (of_check h).1
  · intro valid
    have hardware : d.hardwareValue (.array values) = .ok none := by
      have opened := valid
      rw [FieldDefinition.validateScalar, guard_eq_ok, check_bind_eq_ok] at opened
      obtain ⟨canonical, given, -⟩ := of_bind opened.2.2
      rw [given, FieldDefinition.hardwareValue_array given]
    have same : ((none : Option String).map Scalar.string).getD (.array values) =
        .array values := rfl
    rw [hardware, ok_bind, same]
    dsimp only
    rw [valid, ok_bind]
    split
    · exact ⟨_, rfl⟩
    · exact ⟨_, rfl⟩

end

section

variable [Environment]

def rowValues (rows : List (Except Invalid Scalar)) : List (Option Scalar) :=
  rows.map Except.toOption

structure ListOutcome (d : FieldDefinition) (rows : List (Except Invalid Scalar))
    (outcome : NativeValue) : Prop where
  value : (∃ v, outcome = .value v) ↔ (∀ row ∈ rows, ∃ v, validatedRow d row = .ok v) ∧
    (∀ i, ¬ Repeats Scalar.same (rowIdentities d rows) i) ∧
      d.validateScalar (.array ((rowValues rows).filterMap id)) = .ok ()
  rows : (∀ v, outcome ≠ .value v) →
    outcome = .invalid ∧ (∃ items maxItems, d.valueType = .array items maxItems ∧
      maxItems.toNat < rows.length) ∨
        ∃ quality, outcome = .invalidItems quality (keptValues (rowValues rows) quality) ∧
          Marks d rows quality

def Fits (d : FieldDefinition) (rows : List (Except Invalid Scalar)) : Prop :=
  (∃ items maxItems, d.valueType = .array items maxItems ∧ maxItems.toNat < rows.length) ∨
    ∀ quality, Marks d rows quality →
      d.validateScalar (.array (keptValues (rowValues rows) quality)) = .ok ()

variable {d : FieldDefinition} {rows : List (Except Invalid Scalar)} {quality : List Quality}

theorem Marks.getElem? (marks : Marks d rows quality) {i : Nat} {row : Except Invalid Scalar}
    (found : rows[i]? = some row) :
    quality[i]? = some .invalid ∨
      quality[i]? = some .success ∧ ∃ v, row = .ok v ∧ validatedRow d row = .ok v := by
  have inside := (List.getElem?_eq_some_iff.mp found).1
  have there : i < quality.length := by rw [marks.length]; exact inside
  have held : quality[i]? = some quality[i] := List.getElem?_eq_getElem there
  rcases marks.closed _ (List.getElem_mem there) with success | invalid
  · right
    rw [held, success]
    refine ⟨rfl, ?_⟩
    have right : ¬ quality[i]? = some .invalid := by
      rw [held, success]
      simp
    rw [marks.invalid i row found, not_or] at right
    push Not at right
    obtain ⟨⟨v, valid⟩, -⟩ := right
    exact ⟨v, (validatedRow_eq_ok.mp valid).1, valid⟩
  · left
    rw [held, invalid]

theorem Marks.unique {quality' : List Quality} (marks : Marks d rows quality)
    (marks' : Marks d rows quality') : quality = quality' := by
  apply List.ext_getElem?
  intro i
  cases found : rows[i]? with
  | none =>
    have beyond := List.getElem?_eq_none_iff.mp found
    rw [getElem?_eq_none (by rw [marks.length]; exact beyond),
      getElem?_eq_none (by rw [marks'.length]; exact beyond)]
  | some row =>
    have same := (marks.invalid i row found).trans (marks'.invalid i row found).symm
    rcases marks.getElem? found with wrong | ⟨right, -⟩
    · rw [wrong, same.mp wrong]
    rcases marks'.getElem? found with wrong | ⟨right', -⟩
    · have both := same.mpr wrong
      rw [right] at both
      cases both
    · rw [right, right']

theorem keptValues_congr (marks : Marks d rows quality) :
    keptValues (rows.map (fun row => (validatedRow d row).toOption)) quality =
      keptValues (rowValues rows) quality := by
  have zipped : ∀ p ∈ (rows.zip quality), (if p.2 = Quality.success then
      (validatedRow d p.1).toOption else none) = if p.2 = Quality.success then p.1.toOption
        else none := by
    rintro ⟨row, q⟩ member
    obtain ⟨i, bound, at_i⟩ := List.mem_iff_getElem.mp member
    have found : rows[i]? = some row ∧ quality[i]? = some q := by
      rw [List.getElem_zip] at at_i
      rw [List.length_zip] at bound
      obtain ⟨first, second⟩ := Prod.mk.inj at_i
      exact ⟨List.getElem?_eq_some_iff.mpr ⟨by omega, first⟩,
        List.getElem?_eq_some_iff.mpr ⟨by omega, second⟩⟩
    by_cases success : q = .success
    · rw [if_pos success, if_pos success]
      rcases marks.getElem? found.1 with wrong | ⟨-, v, own, valid⟩
      · rw [found.2, success] at wrong
        cases wrong
      · rw [valid, own]
    · rw [if_neg success, if_neg success]
  unfold keptValues rowValues
  rw [List.zip_map_left, List.filterMap_map, List.zip_map_left, List.filterMap_map]
  exact List.filterMap_congr zipped

theorem Marks.count (marks : Marks d rows quality) :
    (keptValues (rowValues rows) quality).length = successes quality := by
  have each : ∀ (l : List (Option Scalar)) (q : List Quality), q.length = l.length →
      (∀ (i : Nat), q[i]? = some .success → ∃ v, l[i]? = some (some v)) →
        (keptValues l q).length = successes q := by
    intro l
    induction l with
    | nil =>
      intro q length _
      rw [List.length_eq_zero_iff.mp length]
      rfl
    | cons v l ih =>
      intro q length held
      cases q with
      | nil => cases length
      | cons first q =>
        have rest := ih q (Nat.succ.inj length) fun i success => held (i + 1) success
        have zipped : keptValues (v :: l) (first :: q) =
            ((if first = .success then v else none).toList) ++ keptValues l q := by
          unfold keptValues
          rw [List.zip_cons_cons, List.filterMap_cons]
          split
          · rename_i none
            rw [none]
            rfl
          · rename_i w some
            rw [some]
            rfl
        rw [zipped, length_append, rest, successes, successes]
        by_cases success : first = .success
        · obtain ⟨w, own⟩ := held 0 (congrArg some success)
          cases own
          rw [if_pos success, List.filter_cons_of_pos (by simpa using success),
            length_cons, Nat.add_comm]
          rfl
        · rw [if_neg success, List.filter_cons_of_neg (by simpa using success)]
          exact Nat.zero_add _
  refine each _ _ (by rw [marks.length, rowValues, length_map]) ?_
  intro i success
  have bound := (List.getElem?_eq_some_iff.mp success).1
  rw [marks.length] at bound
  have found : rows[i]? = some rows[i] := List.getElem?_eq_getElem bound
  rcases marks.getElem? found with wrong | ⟨-, v, own, -⟩
  · rw [success] at wrong
    cases wrong
  · refine ⟨v, ?_⟩
    rw [rowValues, List.getElem?_map, found, own]
    rfl

theorem keptValues_all (marks : Marks d rows quality) (all : .invalid ∉ quality) :
    keptValues (rowValues rows) quality = (rowValues rows).filterMap id := by
  have successes : quality = List.replicate rows.length .success := by
    rw [List.eq_replicate_iff]
    refine ⟨marks.length, fun q member => ?_⟩
    rcases marks.closed q member with success | invalid
    · exact success
    · exact absurd (invalid ▸ member) all
  have each : ∀ (l : List (Option Scalar)),
      (l.zip (List.replicate l.length Quality.success)).filterMap
        (fun p => if p.2 = .success then p.1 else none) = l.filterMap id := by
    intro l
    induction l with
    | nil => rfl
    | cons _ _ ih =>
      rw [length_cons, List.replicate_succ, List.zip_cons_cons, List.filterMap_cons,
        List.filterMap_cons, ih]
      rfl
  have length : (rowValues rows).length = rows.length := length_map _
  rw [keptValues, successes, ← length]
  exact each (rowValues rows)

theorem Marks.no_invalid (marks : Marks d rows quality) :
    .invalid ∉ quality ↔ (∀ row ∈ rows, ∃ v, validatedRow d row = .ok v) ∧
      ∀ i, ¬ Repeats Scalar.same (rowIdentities d rows) i := by
  constructor
  · intro all
    have none : ∀ (i : Nat) row, rows[i]? = some row → ¬ quality[i]? = some .invalid :=
      fun i row _ wrong => all (List.mem_of_getElem? wrong)
    constructor
    · intro row member
      obtain ⟨i, found⟩ := List.mem_iff_getElem?.mp member
      rcases marks.getElem? found with wrong | ⟨-, v, -, valid⟩
      · exact absurd wrong (none i row found)
      · exact ⟨v, valid⟩
    · intro i again
      have bound := again.lt
      rw [rowIdentities_length] at bound
      have found : rows[i]? = some rows[i] := List.getElem?_eq_getElem bound
      exact none i _ found ((marks.invalid i _ found).mpr (.inr again))
  · rintro ⟨valid, distinct⟩ member
    obtain ⟨i, wrong⟩ := List.mem_iff_getElem?.mp member
    have bound := (List.getElem?_eq_some_iff.mp wrong).1
    rw [marks.length] at bound
    have found : rows[i]? = some rows[i] := List.getElem?_eq_getElem bound
    rcases (marks.invalid i _ found).mp wrong with bad | again
    · obtain ⟨v, ok⟩ := valid _ (List.getElem_mem bound)
      exact bad v ok
    · exact distinct i again

end

variable [Environment] {d : FieldDefinition} {rows : List (Except Invalid Scalar)}
  {maxItems : UInt32} {items : ValueType}

theorem list_many (listed : d.valueType = .array items maxItems)
    (many : maxItems.toNat < rows.length) : NativeValue.list d rows = .ok .invalid := by
  rw [NativeValue.list, listed]
  exact if_pos many

variable (rows) in
theorem list_few (keyed : Keyed d) (listed : d.valueType = .array items maxItems)
    (few : ¬ maxItems.toNat < rows.length) :
    ∃ quality, Marks d rows quality ∧ NativeValue.list d rows =
      if .invalid ∈ quality then
        .ok (.invalidItems quality (keptValues (rowValues rows) quality))
      else d.canonicalValue (.array (keptValues (rowValues rows) quality)) >>= fun canonical =>
        .ok (.value (.value canonical)) := by
  obtain ⟨s, run, scanned⟩ := foldlM_scanRow keyed rows
  refine ⟨s.quality, scanned.marks, ?_⟩
  rw [NativeValue.list, listed]
  dsimp only
  rw [if_neg few, run, ok_bind, scanned.values, keptValues_congr scanned.marks]

theorem length_rowValues (valid : ∀ row ∈ rows, ∃ v, validatedRow d row = .ok v) :
    ((rowValues rows).filterMap id).length = rows.length := by
  induction rows with
  | nil => rfl
  | cons row rows ih =>
    obtain ⟨v, ok⟩ := valid row (.head _)
    have own := (validatedRow_eq_ok.mp ok).1
    have rest := ih fun row' member => valid row' (List.mem_cons_of_mem row member)
    have first : (rowValues (row :: rows)).filterMap id = v :: (rowValues rows).filterMap id := by
      rw [rowValues, List.map_cons, own]
      rfl
    rw [first, length_cons, length_cons, rest]

variable {outcome : NativeValue}

theorem list_outcome (keyed : Keyed d) (listed : d.valueType = .array items maxItems)
    (h : NativeValue.list d rows = .ok outcome) : ListOutcome d rows outcome := by
  by_cases many : maxItems.toNat < rows.length
  · rw [list_many listed many] at h
    cases h
    constructor
    · constructor
      · rintro ⟨v, equal⟩
        cases equal
      · rintro ⟨valid, -, whole⟩
        rw [FieldDefinition.validateScalar, guard_eq_ok, check_bind_eq_ok] at whole
        obtain ⟨-, items', maxItems', type, few⟩ := ValueType.validateValue_array whole.2.1
        rw [listed] at type
        cases type
        rw [length_rowValues valid] at few
        omega
    · exact fun _ => .inl ⟨rfl, items, maxItems, listed, many⟩
  · obtain ⟨quality, marks, equal⟩ := list_few rows keyed listed many
    rw [equal] at h
    by_cases wrong : .invalid ∈ quality
    · rw [if_pos wrong] at h
      cases h
      constructor
      · constructor
        · rintro ⟨v, other⟩
          cases other
        · rintro ⟨valid, distinct, -⟩
          exact absurd wrong (marks.no_invalid.mpr ⟨valid, distinct⟩)
      · exact fun _ => .inr ⟨quality, rfl, marks⟩
    · rw [if_neg wrong, keptValues_all marks wrong] at h
      obtain ⟨canonical, given, h⟩ := of_bind h
      cases h
      have whole := (canonicalValue_list d _).mp ⟨canonical, given⟩
      obtain ⟨valid, distinct⟩ := marks.no_invalid.mp wrong
      exact ⟨iff_of_true ⟨_, rfl⟩ ⟨valid, distinct, whole⟩, fun none => absurd rfl (none _)⟩

theorem list_of_fits (keyed : Keyed d) (listed : d.valueType = .array items maxItems)
    (fits : Fits d rows) : ∃ outcome, NativeValue.list d rows = .ok outcome := by
  by_cases many : maxItems.toNat < rows.length
  · exact ⟨_, list_many listed many⟩
  obtain ⟨quality, marks, equal⟩ := list_few rows keyed listed many
  rw [equal]
  split
  · exact ⟨_, rfl⟩
  rcases fits with ⟨items', maxItems', type, beyond⟩ | together
  · rw [listed] at type
    cases type
    exact absurd beyond many
  · obtain ⟨canonical, given⟩ := (canonicalValue_list d _).mpr (together quality marks)
    rw [given]
    exact ⟨_, rfl⟩

theorem fits_of_list (keyed : Keyed d) (listed : d.valueType = .array items maxItems)
    (h : NativeValue.list d rows = .ok outcome)
    (together : ∀ quality values, outcome = .invalidItems quality values → d.validateScalar (.array values) = .ok ()) :
    Fits d rows := by
  by_cases many : maxItems.toNat < rows.length
  · exact .inl ⟨items, maxItems, listed, many⟩
  obtain ⟨quality, marks, equal⟩ := list_few rows keyed listed many
  right
  intro quality' marks'
  rw [marks'.unique marks]
  rw [equal] at h
  split at h
  · cases h
    exact together _ _ rfl
  · obtain ⟨canonical, given, -⟩ := of_bind h
    exact (canonicalValue_list d _).mp ⟨canonical, given⟩

end RssMdm.Inventory
