/- module: Lib/Int64
   generality: library
   digest: Signed 64-bit integers that carry their range; checked and trapping arithmetic. -/

import Mathlib.Algebra.Order.Ring.Int
import RssMdm.Lib.Outcome

set_option autoImplicit false

namespace RssMdm.Lib.Int64

open Lib.Outcome

@[ext] structure I64 where
  val : Int
  lo : -2 ^ 63 ≤ val
  hi : val < 2 ^ 63
deriving DecidableEq

namespace I64

theorem zero_lo : -2 ^ 63 ≤ (0 : Int) := by decide

theorem zero_hi : (0 : Int) < 2 ^ 63 := by decide

theorem one_lo : -2 ^ 63 ≤ (1 : Int) := by decide

theorem one_hi : (1 : Int) < 2 ^ 63 := by decide

theorem sixty_lo : -2 ^ 63 ≤ (60 : Int) := by decide

theorem sixty_hi : (60 : Int) < 2 ^ 63 := by decide

/-- The value when it is representable. -/
def ofInt (n : Int) : Option I64 :=
  if h : -2 ^ 63 ≤ n ∧ n < 2 ^ 63 then some ⟨n, h.1, h.2⟩ else none

theorem ofInt_eq_some {n : Int} {a : I64} : ofInt n = some a ↔ a.val = n := by
  unfold ofInt
  constructor
  · intro h
    split at h
    · rw [← Option.some.inj h]
    · cases h
  · rintro rfl
    rw [dif_pos ⟨a.lo, a.hi⟩]

def ofUInt32 (n : UInt32) : I64 :=
  ⟨n.toNat, by omega, by have := n.toNat_lt; omega⟩

@[simp] theorem ofUInt32_val (n : UInt32) : (ofUInt32 n).val = n.toNat := rfl

def max : I64 := ⟨2 ^ 63 - 1, by omega, by omega⟩

def checkedAdd (a b : I64) : Option I64 := ofInt (a.val + b.val)

def checkedSub (a b : I64) : Option I64 := ofInt (a.val - b.val)

def checkedMul (a b : I64) : Option I64 := ofInt (a.val * b.val)

def saturatingSub (a b : I64) : I64 :=
  if h : a.val - b.val < -2 ^ 63 then ⟨-2 ^ 63, by omega, by omega⟩
  else if h' : a.val - b.val < 2 ^ 63 then ⟨a.val - b.val, by omega, h'⟩
  else I64.max

variable {ε : Type}

/-- An operator whose result must be representable. -/
def trap (n : Int) : Run ε I64 :=
  match ofInt n with
  | some a => .ok a
  | none => .error .panic

def add (a b : I64) : Run ε I64 := trap (a.val + b.val)

def sub (a b : I64) : Run ε I64 := trap (a.val - b.val)

def mul (a b : I64) : Run ε I64 := trap (a.val * b.val)

/-- Division rounds towards zero and traps on a zero divisor. -/
def div (a b : I64) : Run ε I64 := if b.val = 0 then .error .panic else trap (a.val.tdiv b.val)

theorem trap_safe {n : Int} (h : -2 ^ 63 ≤ n ∧ n < 2 ^ 63) :
    Safe (trap n : Run ε I64) fun a => a.val = n := by
  unfold trap ofInt
  rw [dif_pos h]
  exact rfl

theorem div_safe {a b : I64} (ha : 0 ≤ a.val) (hb : 0 < b.val) :
    Safe (div a b : Run ε I64) fun q => q.val = a.val / b.val := by
  have hne : ¬b.val = 0 := by omega
  have hdiv : a.val.tdiv b.val = a.val / b.val := Int.tdiv_eq_ediv_of_nonneg ha
  have hlo : 0 ≤ a.val / b.val := Int.ediv_nonneg ha (by omega)
  have hle : a.val / b.val ≤ a.val := Int.ediv_le_self _ ha
  have hhi : a.val < 2 ^ 63 := a.hi
  unfold div
  rw [if_neg hne, hdiv]
  exact trap_safe ⟨by omega, by omega⟩

end I64

end RssMdm.Lib.Int64
