/- module: Lib/Meter
   generality: library
   digest: Fallible computations over a meter that only rises and only refuses what is too high. -/

import Mathlib.Order.Basic
import RssMdm.Lib.Fallible

set_option autoImplicit false

namespace RssMdm.Lib.Meter

open Lib.Fallible

variable {ε σ α : Type} [Preorder σ]

/-- The meter never falls, and what passes at some reading passes at every lower one and leaves a
lower reading behind. -/
structure Metered (f : σ → Except ε σ) : Prop where
  grows : ∀ {s t : σ}, f s = .ok t → s ≤ t
  eases : ∀ {r s t : σ}, r ≤ s → f s = .ok t → ∃ u, f r = .ok u ∧ u ≤ t

/-- A check that refuses only readings that are too high. -/
def Eased (c : σ → Except ε Unit) : Prop := ∀ r s : σ, r ≤ s → c s = .ok () → c r = .ok ()

theorem Metered.ok : Metered (.ok : σ → Except ε σ) where
  grows h := by
    cases h
    exact le_refl _
  eases le h := by
    cases h
    exact ⟨_, rfl, le⟩

theorem Metered.error (e : ε) : Metered (fun _ : σ => .error e) where
  grows h := by cases h
  eases _ h := by cases h

theorem Metered.bind {f g : σ → Except ε σ} (hf : Metered f) (hg : Metered g) :
    Metered (fun s => f s >>= g) where
  grows h := by
    obtain ⟨s₁, first, second⟩ := of_bind h
    exact le_trans (hf.grows first) (hg.grows second)
  eases le h := by
    obtain ⟨s₁, first, second⟩ := of_bind h
    obtain ⟨r₁, first', le₁⟩ := hf.eases le first
    obtain ⟨u, second', le₂⟩ := hg.eases le₁ second
    exact ⟨u, bind_eq_ok.mpr ⟨r₁, first', second'⟩, le₂⟩

theorem Metered.check {c : σ → Except ε Unit} {f : σ → Except ε σ} (hc : Eased c)
    (hf : Metered f) : Metered (fun s => c s >>= fun _ => f s) where
  grows h := hf.grows (of_check h).2
  eases le h := by
    obtain ⟨checked, rest⟩ := of_check h
    obtain ⟨u, rest', le'⟩ := hf.eases le rest
    exact ⟨u, check_bind_eq_ok.mpr ⟨hc _ _ le checked, rest'⟩, le'⟩

theorem Eased.const (x : Except ε Unit) : Eased (fun _ : σ => x) := fun _ _ _ h => h

theorem Metered.guard {p : Prop} [Decidable p] {e : ε} {f : σ → Except ε σ} (hf : Metered f) :
    Metered (fun s => if p then .error e else f s) := by
  by_cases h : p
  · simp only [if_pos h]
    exact .error e
  · simp only [if_neg h]
    exact hf

theorem Metered.foldlM {f : σ → α → Except ε σ} (hf : ∀ a, Metered (fun s => f s a))
    (as : List α) : Metered (fun s => as.foldlM f s) := by
  induction as with
  | nil => exact .ok
  | cons a _ ih =>
    simp only [List.foldlM_cons]
    exact (hf a).bind ih

theorem Metered.stretch {f : σ → α → Except ε σ} (hf : ∀ a, Metered (fun s => f s a))
    {as bs cs : List α} {r s t : σ} (le : r ≤ s) (h : (as ++ bs ++ cs).foldlM f s = .ok t) :
    ∃ u, bs.foldlM f r = .ok u := by
  rw [List.foldlM_append, List.foldlM_append] at h
  obtain ⟨s₂, h, -⟩ := of_bind h
  obtain ⟨s₁, earlier, stretch⟩ := of_bind h
  have le₁ : r ≤ s₁ := le_trans le ((Metered.foldlM hf as).grows earlier)
  obtain ⟨u, passes, -⟩ := (Metered.foldlM hf bs).eases le₁ stretch
  exact ⟨u, passes⟩

end RssMdm.Lib.Meter
