/- module: Lib/Forest
   generality: library
   digest: Climbing from a node to its root by parent links, and when the climb ends. -/

import Mathlib.Data.List.Basic
import RssMdm.Lib.Graph

set_option autoImplicit false

namespace RssMdm.Lib.Forest

open Relation
open Lib.Graph (Acyclic)

variable {α : Type*} [DecidableEq α]

/-- The second node is the parent of the first. -/
def ParentOf (parent : α → Option α) (a b : α) : Prop := parent a = some b

/-- Visit the nodes up to the sought one or past a root; none when the visits run out. -/
def climb (parent : α → Option α) (sought : α) : Nat → Option α → Option Bool
  | 0, _ => none
  | _ + 1, none => some false
  | n + 1, some a => if a = sought then some true else climb parent sought n (parent a)

variable {parent : α → Option α} {sought : α}

theorem climb_iff {n : Nat} {a : α} {answer : Bool} (h : climb parent sought n (some a) = some answer) :
    answer = true ↔ ReflTransGen (ParentOf parent) a sought := by
  induction n generalizing a with
  | zero => cases h
  | succ n ih =>
    rw [climb] at h
    split at h
    · rename_i found
      cases h
      simp only [found, true_iff]
      exact .refl
    · rename_i other
      cases up : parent a with
      | none =>
        rw [up] at h
        have stops : answer = false := by
          cases n with
          | zero => cases h
          | succ => exact (Option.some.inj h).symm
        constructor
        · intro found
          rw [stops] at found
          cases found
        · intro path
          rcases path.cases_head with same | ⟨b, edge, -⟩
          · exact absurd same other
          · rw [ParentOf, up] at edge
            cases edge
      | some =>
        rw [up] at h
        constructor
        · intro found
          exact .head up ((ih h).mp found)
        · intro path
          rcases path.cases_head with same | ⟨c, edge, rest⟩
          · exact absurd same other
          · rw [ParentOf, up] at edge
            cases edge
            exact (ih h).mpr rest

theorem climb_ends (acyclic : Acyclic (ParentOf parent)) {n : Nat} (inner : List α) {a : α}
    (linked : ∀ b, ReflTransGen (ParentOf parent) a b → parent b ≠ none → b ∈ inner)
    (enough : inner.length + 2 ≤ n) : ∃ answer, climb parent sought n (some a) = some answer := by
  induction n generalizing inner a with
  | zero => omega
  | succ n ih =>
    rw [climb]
    split
    · exact ⟨true, rfl⟩
    cases up : parent a with
    | none =>
      obtain ⟨k, rfl⟩ : ∃ k, n = k + 1 := ⟨n - 1, by omega⟩
      exact ⟨false, rfl⟩
    | some =>
      have mem : a ∈ inner := linked a .refl (by rw [up]; simp)
      have shorter : (inner.erase a).length = inner.length - 1 := List.length_erase_of_mem mem
      have positive : 0 < inner.length := List.length_pos_of_mem mem
      refine ih (inner.erase a) ?_ (by omega)
      intro c path above
      have away : c ≠ a := by
        rintro rfl
        exact acyclic c (TransGen.head' up path)
      exact (List.mem_erase_of_ne away).mpr (linked c (.head up path) above)

end RssMdm.Lib.Forest
