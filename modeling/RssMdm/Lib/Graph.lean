/- module: Lib/Graph
   generality: library
   digest: Relations without cycles, and what one node may point to without closing one. -/

import Mathlib.Data.Set.Basic

set_option autoImplicit false

namespace RssMdm.Lib.Graph

open Relation

variable {α : Type*} {r r' : α → α → Prop} {g : α} {V : Set α}

def Acyclic (r : α → α → Prop) : Prop := ∀ a, ¬TransGen r a a

theorem acyclic_mono (acyclic : Acyclic r) (fewer : ∀ a b, r' a b → r a b) : Acyclic r' :=
  fun a cycle => acyclic a (TransGen.mono fewer a a cycle)

theorem acyclic_of_rank (rank : α → Nat) (down : ∀ a b, r a b → rank b < rank a) : Acyclic r := by
  have lower : ∀ a b, TransGen r a b → rank b < rank a := by
    intro a b path
    induction path with
    | single edge => exact down _ _ edge
    | tail _ edge ih => exact (down _ _ edge).trans ih
  exact fun a cycle => absurd (lower a a cycle) (Nat.lt_irrefl _)

theorem reach_closed (closed : ∀ a ∈ V, ∀ b, r a b → b ∈ V) {a b : α} (mem : a ∈ V)
    (path : ReflTransGen r a b) : b ∈ V := by
  induction path with
  | refl => exact mem
  | tail _ edge ih => exact closed _ ih _ edge

theorem path_split (edges : ∀ a b, r' a b → a = g ∨ r a b) {a b : α} (path : TransGen r' a b) :
    TransGen r a b ∨ (ReflTransGen r' a g ∧ TransGen r' g b) := by
  induction path with
  | single edge =>
    rcases edges _ _ edge with rfl | old
    · exact .inr ⟨.refl, .single edge⟩
    · exact .inl (.single old)
  | tail front edge ih =>
    rcases ih with old | ⟨before, after⟩
    · rcases edges _ _ edge with rfl | kept
      · exact .inr ⟨front.to_reflTransGen, .single edge⟩
      · exact .inl (old.tail kept)
    · exact .inr ⟨before, after.tail edge⟩

theorem acyclic_redirect (acyclic : Acyclic r) (closed : ∀ a ∈ V, ∀ b, r a b → b ∈ V)
    (outside : g ∉ V) (edges : ∀ a b, r' a b → (a = g ∧ b ∈ V) ∨ (a ≠ g ∧ r a b)) : Acyclic r' := by
  have closed' : ∀ a ∈ V, ∀ b, r' a b → b ∈ V := by
    intro a mem b edge
    rcases edges a b edge with ⟨rfl, -⟩ | ⟨-, old⟩
    · exact absurd mem outside
    · exact closed a mem b old
  have away : ¬TransGen r' g g := by
    intro cycle
    obtain ⟨b, edge, back⟩ := TransGen.head'_iff.mp cycle
    rcases edges g b edge with ⟨-, mem⟩ | ⟨other, -⟩
    · exact outside (reach_closed closed' mem back)
    · exact other rfl
  intro a cycle
  have split := path_split (r := r) (g := g) (fun x y edge => (edges x y edge).imp And.left And.right) cycle
  rcases split with old | ⟨before, after⟩
  · exact acyclic a old
  · exact away (after.trans_left before)

end RssMdm.Lib.Graph
