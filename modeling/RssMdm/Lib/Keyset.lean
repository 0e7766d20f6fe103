/- module: Lib/Keyset
   generality: library
   digest: Orderings by several nullable columns, the rows strictly after a position, sorted lists. -/

import Mathlib.Data.List.Sort

set_option autoImplicit false

namespace RssMdm.Lib.Keyset

variable {α : Type}

def columnOrder (cmp : α → α → Ordering) (descending : Bool) : Option α → Option α → Ordering
  | none, none => .eq
  | none, some _ => .gt
  | some _, none => .lt
  | some a, some b => if descending then cmp b a else cmp a b

/-- Column by column; a missing column counts as absent. -/
def keyOrder (cmp : α → α → Ordering) : List Bool → List (Option α) → List (Option α) → Ordering
  | [], _, _ => .eq
  | d :: ds, a, b =>
      (columnOrder cmp d (a.headD none) (b.headD none)).then (keyOrder cmp ds a.tail b.tail)

section

variable (cmp : α → α → Ordering) [Std.TransCmp cmp]

instance columnOrder_trans (d : Bool) : Std.TransCmp (columnOrder cmp d) where
  eq_swap := by
    intro a b
    cases a with
    | none => cases b <;> rfl
    | some a =>
        cases b with
        | none => rfl
        | some b =>
            cases d
            · exact (Std.OrientedCmp.eq_swap : cmp a b = (cmp b a).swap)
            · exact (Std.OrientedCmp.eq_swap : cmp b a = (cmp a b).swap)
  isLE_trans := by
    intro a b c hab hbc
    cases a with
    | none =>
        cases b with
        | none => exact hbc
        | some => cases hab
    | some a =>
        cases c with
        | none => rfl
        | some c =>
            cases b with
            | none => cases hbc
            | some b =>
                cases d
                · have first : (cmp a b).isLE := hab
                  have second : (cmp b c).isLE := hbc
                  exact (Std.TransCmp.isLE_trans first second : (cmp a c).isLE)
                · have first : (cmp b a).isLE := hab
                  have second : (cmp c b).isLE := hbc
                  exact (Std.TransCmp.isLE_trans second first : (cmp c a).isLE)

omit [Std.TransCmp cmp] in
theorem keyOrder_cons (d : Bool) (ds : List Bool) :
    keyOrder cmp (d :: ds) = compareLex
      (fun a b => columnOrder cmp d (a.headD none) (b.headD none))
      (fun a b => keyOrder cmp ds a.tail b.tail) := rfl

instance keyOrder_trans (ds : List Bool) : Std.TransCmp (keyOrder cmp ds) := by
  induction ds with
  | nil => exact { eq_swap := rfl, isLE_trans := fun _ _ => rfl }
  | cons d ds =>
      rw [keyOrder_cons]
      have head : Std.TransCmp (fun a b : List (Option α) =>
          columnOrder cmp d (a.headD none) (b.headD none)) :=
        { eq_swap := Std.OrientedCmp.eq_swap, isLE_trans := Std.TransCmp.isLE_trans }
      have tail : Std.TransCmp (fun a b : List (Option α) => keyOrder cmp ds a.tail b.tail) :=
        { eq_swap := Std.OrientedCmp.eq_swap, isLE_trans := Std.TransCmp.isLE_trans }
      infer_instance

end

section

variable (cmp : α → α → Ordering)

def columnAfter (descending : Bool) : Option α → Option α → Bool
  | none, _ => false
  | some _, none => true
  | some v, some w => cmp w v = if descending then .lt else .gt

/-- After in some column and equal in all columns before it. -/
def seek [DecidableEq α] : List Bool → List (Option α) → List (Option α) → Bool
  | [], _, _ => false
  | d :: ds, p, x => columnAfter cmp d (p.headD none) (x.headD none) ||
      (decide (p.headD none = x.headD none) && seek ds p.tail x.tail)

variable [Std.TransCmp cmp] [Std.LawfulEqCmp cmp]

omit [Std.TransCmp cmp] in
theorem columnOrder_eq_iff (d : Bool) (a b : Option α) : columnOrder cmp d a b = .eq ↔ a = b := by
  cases a with
  | none => cases b <;> simp [columnOrder]
  | some a =>
    cases b with
    | none => simp [columnOrder]
    | some b =>
      cases d
      · simp [columnOrder]
      · have same : cmp b a = .eq ↔ b = a := Std.LawfulEqCmp.compare_eq_iff_eq
        simp only [columnOrder, if_true, same, Option.some.injEq]
        exact eq_comm

omit [Std.LawfulEqCmp cmp] in
theorem columnAfter_eq (d : Bool) (p x : Option α) :
    columnAfter cmp d p x = decide (columnOrder cmp d p x = .lt) := by
  cases p with
  | none => cases x <;> rfl
  | some v =>
    cases x with
    | none => rfl
    | some w =>
      cases d
      · have swap : cmp v w = (cmp w v).swap := Std.OrientedCmp.eq_swap
        simp only [columnAfter, columnOrder, swap, Bool.false_eq_true, if_false]
        cases cmp w v <;> rfl
      · rfl

theorem seek_eq [DecidableEq α] (ds : List Bool) (p x : List (Option α)) :
    seek cmp ds p x = decide (keyOrder cmp ds p x = .lt) := by
  induction ds generalizing p x with
  | nil => rfl
  | cons d _ ih =>
    rw [seek, keyOrder, ih, columnAfter_eq]
    have same := columnOrder_eq_iff cmp d (p.headD none) (x.headD none)
    cases column : columnOrder cmp d (p.headD none) (x.headD none) with
    | lt => rfl
    | gt =>
      have different : ¬p.headD none = x.headD none := fun eq => by
        rw [same.mpr eq] at column
        cases column
      rw [decide_eq_false different]
      rfl
    | eq =>
      rw [decide_eq_true (same.mp column)]
      rfl

omit [Std.TransCmp cmp] in
theorem keyOrder_eq_iff {ds : List Bool} {a b : List (Option α)} (ha : a.length = ds.length)
    (hb : b.length = ds.length) : keyOrder cmp ds a b = .eq ↔ a = b := by
  induction ds generalizing a b with
  | nil =>
    rw [List.length_eq_zero_iff.mp ha, List.length_eq_zero_iff.mp hb]
    simp [keyOrder]
  | cons _ _ ih =>
    match a, b, ha, hb with
    | x :: a, y :: b, ha, hb =>
      have tails := ih (Nat.succ.inj ha) (Nat.succ.inj hb)
      simp [keyOrder, Ordering.then_eq_eq, columnOrder_eq_iff, tails]

end

variable {R : α → α → Prop}

theorem filter_after [DecidableRel R] (asymm : ∀ a b, R a b → ¬R b a) {before rest : List α}
    {a : α} (sorted : (before ++ a :: rest).Pairwise R) :
    (before ++ a :: rest).filter (fun x => decide (R a x)) = rest := by
  obtain ⟨-, tail, cross⟩ := List.pairwise_append.mp sorted
  obtain ⟨later, -⟩ := List.pairwise_cons.mp tail
  have earlier : before.filter (fun x => decide (R a x)) = [] := by
    rw [List.filter_eq_nil_iff]
    intro x hx
    simpa using asymm x a (cross x hx a List.mem_cons_self)
  have self : ¬R a a := fun h => asymm a a h h
  have after : rest.filter (fun x => decide (R a x)) = rest := by
    rw [List.filter_eq_self]
    intro x hx
    simpa using later x hx
  rw [List.filter_append, earlier, List.nil_append, List.filter_cons, after]
  simp [self]

end RssMdm.Lib.Keyset
