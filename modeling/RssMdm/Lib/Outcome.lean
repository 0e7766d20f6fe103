/- module: Lib/Outcome
   generality: library
   digest: Computations that may return, report an error, panic or exhaust their fuel. -/

import RssMdm.Lib.Fallible

set_option autoImplicit false

namespace RssMdm.Lib.Outcome

variable {ε α β : Type}

/-- What ends a computation without a value. -/
inductive Fault (ε : Type) where
  | error (e : ε)
  | panic
  | fuel
deriving DecidableEq

abbrev Run (ε α : Type) : Type := Except (Fault ε) α

/-- The computation neither panics nor runs out of fuel, and what it returns meets the condition. -/
def Safe (x : Run ε α) (Q : α → Prop) : Prop :=
  match x with
  | .ok a => Q a
  | .error (.error _) => True
  | .error _ => False

@[simp] theorem safe_ok (a : α) (Q : α → Prop) : Safe (.ok a : Run ε α) Q ↔ Q a := Iff.rfl

@[simp] theorem safe_error (e : ε) (Q : α → Prop) : Safe (.error (.error e) : Run ε α) Q := trivial

variable {x : Run ε α} {Q : α → Prop}

theorem Safe.mono {P : α → Prop} (h : Safe x P) (hPQ : ∀ a, P a → Q a) :
    Safe x Q := by
  match x, h with
  | .ok a, h => exact hPQ a h
  | .error (.error _), _ => trivial

theorem Safe.bind {f : α → Run ε β} {P : α → Prop} {Q : β → Prop} (h : Safe x P)
    (hf : ∀ a, P a → Safe (f a) Q) : Safe (x >>= f) Q := by
  match x, h with
  | .ok a, h => exact hf a h
  | .error (.error _), _ => trivial

theorem Safe.guard {c : Prop} [Decidable c] {e : ε} (h : ¬c → Safe x Q) :
    Safe (if c then .error (.error e) else x) Q := by
  by_cases hc : c
  · rw [if_pos hc]
    trivial
  · rw [if_neg hc]
    exact h hc

theorem Safe.lift {δ : Type} {x : Except δ α} {f : δ → ε} (h : ∀ a, x = .ok a → Q a) :
    Safe (x.mapError (fun e => Fault.error (f e))) Q := by
  cases x with
  | error => trivial
  | ok a => exact h a rfl

theorem Safe.of_eq_ok {a : α} (h : Safe x Q) (hx : x = .ok a) : Q a := by
  rw [hx] at h
  exact h

theorem Safe.returns (h : Safe x Q) :
    (∃ a, x = .ok a) ∨ ∃ e, x = .error (.error e) := by
  match x, h with
  | .ok a, _ => exact .inl ⟨a, rfl⟩
  | .error (.error e), _ => exact .inr ⟨e, rfl⟩

end RssMdm.Lib.Outcome
