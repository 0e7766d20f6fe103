/- module: Lib/KeySort
   generality: library
   digest: Sorting by a key and refusing adjacent equal keys does not depend on the order of the
   input. -/

import Mathlib.Data.List.Sort

set_option autoImplicit false

namespace RssMdm.Lib.KeySort

variable {α κ : Type}

def adjacentEqual [DecidableEq κ] (key : α → κ) (l : List α) : Bool :=
  (l.zip l.tail).any (fun w => key w.1 == key w.2)

theorem pairwise_lt_of_sorted [LinearOrder κ] (key : α → κ) :
    ∀ l : List α, l.Pairwise (fun a b => key a ≤ key b) → adjacentEqual key l = false →
      l.Pairwise (fun a b => key a < key b)
  | [], _, _ => List.Pairwise.nil
  | [a], _, _ => List.pairwise_singleton _ a
  | a :: b :: rest, hsorted, hadjacent => by
      obtain ⟨hle, htail⟩ := List.pairwise_cons.mp hsorted
      simp only [adjacentEqual, List.tail_cons, List.zip_cons_cons, List.any_cons,
        Bool.or_eq_false_iff, beq_eq_false_iff_ne] at hadjacent
      have hstrict := pairwise_lt_of_sorted key (b :: rest) htail
        (by simpa [adjacentEqual] using hadjacent.2)
      have hab : key a < key b := lt_of_le_of_ne (hle b (by simp)) hadjacent.1
      refine List.pairwise_cons.mpr ⟨?_, hstrict⟩
      intro c hc
      rcases List.mem_cons.mp hc with rfl | hc
      · exact hab
      · exact hab.trans ((List.pairwise_cons.mp hstrict).1 c hc)

theorem adjacentEqual_of_nodup [DecidableEq κ] (key : α → κ) :
    ∀ l : List α, (l.map key).Nodup → adjacentEqual key l = false
  | [], _ | [_], _ => rfl
  | a :: b :: rest, hnodup => by
      obtain ⟨hfresh, htail⟩ := List.nodup_cons.mp hnodup
      have hrest := adjacentEqual_of_nodup key (b :: rest) htail
      simp only [adjacentEqual, List.tail_cons, List.zip_cons_cons, List.any_cons,
        Bool.or_eq_false_iff, beq_eq_false_iff_ne] at hrest ⊢
      exact ⟨fun same => hfresh (by simp [same]), hrest⟩

variable [LinearOrder κ]

theorem pairwise_sort (key : α → κ) (l : List α) :
    (l.insertionSort (fun a b => key a ≤ key b)).Pairwise (fun a b => key a ≤ key b) := by
  have : Std.Total (fun a b : α => key a ≤ key b) := ⟨fun a b => le_total (key a) (key b)⟩
  have : IsTrans α (fun a b => key a ≤ key b) := ⟨fun _ _ _ => le_trans⟩
  exact List.pairwise_insertionSort _ l

theorem adjacentEqual_sort (key : α → κ) (l : List α) :
    adjacentEqual key (l.insertionSort (fun a b => key a ≤ key b)) = false ↔
      (l.map key).Nodup := by
  have perm := List.perm_insertionSort (fun a b => key a ≤ key b) l
  rw [← (perm.map key).nodup_iff]
  constructor
  · intro apart
    have strict := pairwise_lt_of_sorted key _ (pairwise_sort key l) apart
    exact (List.pairwise_map.mpr strict).imp (fun less => ne_of_lt less)
  · exact adjacentEqual_of_nodup key _

variable {l : List α}

theorem sort_perm (key : α → κ) {l' : List α} (perm : l.Perm l') :
    adjacentEqual key (l.insertionSort (fun a b => key a ≤ key b)) =
        adjacentEqual key (l'.insertionSort (fun a b => key a ≤ key b)) ∧
      (adjacentEqual key (l.insertionSort (fun a b => key a ≤ key b)) = false →
        l.insertionSort (fun a b => key a ≤ key b) =
          l'.insertionSort (fun a b => key a ≤ key b)) := by
  have same : adjacentEqual key (l.insertionSort (fun a b => key a ≤ key b)) =
      adjacentEqual key (l'.insertionSort (fun a b => key a ≤ key b)) := by
    rw [Bool.eq_iff_iff, ← Bool.not_eq_false, ← Bool.not_eq_false, adjacentEqual_sort,
      adjacentEqual_sort, (perm.map key).nodup_iff]
  refine ⟨same, ?_⟩
  intro apart
  have left := pairwise_lt_of_sorted key _ (pairwise_sort key l) apart
  have right := pairwise_lt_of_sorted key _ (pairwise_sort key l') (same ▸ apart)
  have sorted : (l.insertionSort (fun a b => key a ≤ key b)).Perm
      (l'.insertionSort (fun a b => key a ≤ key b)) :=
    (List.perm_insertionSort _ l).trans (perm.trans (List.perm_insertionSort _ l').symm)
  exact sorted.eq_of_pairwise (fun _ _ _ _ less more => absurd less (lt_asymm more)) left right

variable {β : Type} {R : α → β → Prop} {key : α → κ} {key' : β → κ} {l' : List β}

theorem forall₂_orderedInsert (keys : ∀ a b, R a b → key a = key' b) {a : α} {b : β} (head : R a b)
    (h : List.Forall₂ R l l') :
    List.Forall₂ R (l.orderedInsert (fun a b => key a ≤ key b) a)
      (l'.orderedInsert (fun a b => key' a ≤ key' b) b) := by
  induction h with
  | nil => exact .cons head .nil
  | @cons c d l l' next tail ih =>
    rw [List.orderedInsert, List.orderedInsert, ← keys a b head, ← keys c d next]
    split
    · exact .cons head (.cons next tail)
    · exact .cons next ih

theorem forall₂_sort (keys : ∀ a b, R a b → key a = key' b) (h : List.Forall₂ R l l') :
    List.Forall₂ R (l.insertionSort (fun a b => key a ≤ key b))
      (l'.insertionSort (fun a b => key' a ≤ key' b)) := by
  induction h with
  | nil => exact .nil
  | cons head _ ih => exact forall₂_orderedInsert keys head ih

theorem adjacentEqual_forall₂ (keys : ∀ a b, R a b → key a = key' b) (h : List.Forall₂ R l l') :
    adjacentEqual key l = adjacentEqual key' l' := by
  have heads : l.map key = l'.map key' := by
    rw [← List.forall₂_eq_eq_eq, List.forall₂_map_left_iff, List.forall₂_map_right_iff]
    exact h.imp keys
  have mapped : ∀ {γ : Type} (f : γ → κ) (l : List γ), adjacentEqual f l = adjacentEqual id (l.map f) := by
    intro γ f l
    rw [adjacentEqual, adjacentEqual, ← List.map_tail, List.zip_map, List.any_map]
    rfl
  rw [mapped, heads, ← mapped]

end RssMdm.Lib.KeySort
