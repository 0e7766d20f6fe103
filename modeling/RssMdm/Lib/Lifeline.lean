/- module: Lib/Lifeline
   generality: library
   digest: Values that appear once, change along a preorder and stay away once they are gone. -/

import Mathlib.Order.Basic

set_option autoImplicit false

namespace RssMdm.Lib.Lifeline

variable {σ : Type} (Step : σ → σ → Prop)

/-- The value at each time up to `last`: it changes by steps, and appears only where it never was
before. -/
structure Line (f : Nat → Option σ) (last : Nat) : Prop where
  changes : ∀ i < last, ∀ x y, f i = some x → f (i + 1) = some y → Step x y
  appears : ∀ i < last, f i = none → f (i + 1) ≠ none → ∀ j ≤ i, f j = none

variable {Step} {f : Nat → Option σ} {last : Nat}

theorem Line.between (life : Line Step f last) {u v w : Nat} (uv : u ≤ v) (vw : v ≤ w)
    (bound : w ≤ last) (before : f u ≠ none) (after : f w ≠ none) : f v ≠ none := by
  induction vw with
  | refl => exact after
  | @step w vw ih =>
    apply ih (Nat.le_of_succ_le bound)
    intro gone
    exact before (life.appears w bound gone after u (Nat.le_trans uv vw))

theorem Line.gone (life : Line Step f last) {u v w : Nat} (uv : u ≤ v) (vw : v ≤ w)
    (bound : w ≤ last) (before : f u ≠ none) (gone : f v = none) : f w = none := by
  by_contra after
  exact life.between uv vw bound before after gone

theorem Line.related (refl : ∀ x, Step x x) (trans : ∀ x y z, Step x y → Step y z → Step x z)
    (life : Line Step f last) {u w : Nat} (uw : u ≤ w) (bound : w ≤ last) {x y : σ}
    (before : f u = some x) (after : f w = some y) : Step x y := by
  induction uw generalizing y with
  | refl =>
    cases before.symm.trans after
    exact refl x
  | @step w uw ih =>
    have present : f w ≠ none := by
      refine life.between uw (Nat.le_succ w) bound ?_ (by rw [after]; simp)
      rw [before]
      simp
    obtain ⟨z, held⟩ := Option.ne_none_iff_exists'.mp present
    exact trans x z y (ih (Nat.le_of_succ_le bound) held) (life.changes w bound z y held after)

theorem Line.congr (life : Line Step f last) {g : Nat → Option σ} (same : ∀ i ≤ last, g i = f i) :
    Line Step g last where
  changes i bound x y before after := by
    rw [same i (Nat.le_of_lt bound)] at before
    rw [same (i + 1) bound] at after
    exact life.changes i bound x y before after
  appears i bound gone after j le := by
    rw [same i (Nat.le_of_lt bound)] at gone
    rw [same (i + 1) bound] at after
    rw [same j (Nat.le_trans le (Nat.le_of_lt bound))]
    exact life.appears i bound gone after j le

theorem Line.extend (life : Line Step f last)
    (changes : ∀ x y, f last = some x → f (last + 1) = some y → Step x y)
    (appears : f last = none → f (last + 1) ≠ none → ∀ j ≤ last, f j = none) :
    Line Step f (last + 1) where
  changes i bound x y before after := by
    by_cases here : i = last
    · subst here
      exact changes x y before after
    · exact life.changes i (by omega) x y before after
  appears i bound gone after j le := by
    by_cases here : i = last
    · subst here
      exact appears gone after j le
    · exact life.appears i (by omega) gone after j le

end RssMdm.Lib.Lifeline
