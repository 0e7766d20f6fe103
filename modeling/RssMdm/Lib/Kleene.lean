/- module: Lib/Kleene
   generality: library
   digest: Strong three-valued logic and its information order. -/

import Mathlib.Data.List.Perm.Basic

set_option autoImplicit false

namespace RssMdm.Lib.Kleene

inductive Truth where
  | no
  | unknown
  | yes
deriving DecidableEq, Repr

namespace Truth

def not : Truth → Truth
  | .no => .yes
  | .unknown => .unknown
  | .yes => .no

def conj : Truth → Truth → Truth
  | .no, _ => .no
  | .yes, b => b
  | .unknown, .no => .no
  | .unknown, _ => .unknown

def disj : Truth → Truth → Truth
  | .yes, _ => .yes
  | .no, b => b
  | .unknown, .yes => .yes
  | .unknown, _ => .unknown

def allOf (l : List Truth) : Truth := l.foldr conj .yes

def anyOf (l : List Truth) : Truth := l.foldr disj .no

theorem foldl_conj (l : List Truth) (a : Truth) : l.foldl conj a = conj a (allOf l) := by
  induction l generalizing a with
  | nil => cases a <;> rfl
  | cons b l ih =>
    rw [List.foldl_cons, ih]
    show conj (conj a b) (allOf l) = conj a (conj b (allOf l))
    cases a <;> cases b <;> cases allOf l <;> rfl

theorem foldl_disj (l : List Truth) (a : Truth) : l.foldl disj a = disj a (anyOf l) := by
  induction l generalizing a with
  | nil => cases a <;> rfl
  | cons b l ih =>
    rw [List.foldl_cons, ih]
    show disj (disj a b) (anyOf l) = disj a (disj b (anyOf l))
    cases a <;> cases b <;> cases anyOf l <;> rfl

theorem conj_left_comm (a b c : Truth) : conj a (conj b c) = conj b (conj a c) := by
  cases a <;> cases b <;> cases c <;> rfl

theorem disj_left_comm (a b c : Truth) : disj a (disj b c) = disj b (disj a c) := by
  cases a <;> cases b <;> cases c <;> rfl

variable {l l' : List Truth}

theorem allOf_perm (perm : l.Perm l') : allOf l = allOf l' := by
  induction perm with
  | nil => rfl
  | cons a _ ih => exact congrArg (conj a) ih
  | swap a b l => exact conj_left_comm b a (allOf l)
  | trans _ _ ih ih' => exact ih.trans ih'

theorem anyOf_perm (perm : l.Perm l') : anyOf l = anyOf l' := by
  induction perm with
  | nil => rfl
  | cons a _ ih => exact congrArg (disj a) ih
  | swap a b l => exact disj_left_comm b a (anyOf l)
  | trans _ _ ih ih' => exact ih.trans ih'

theorem conj_assoc (a b c : Truth) : conj (conj a b) c = conj a (conj b c) := by
  cases a <;> cases b <;> cases c <;> rfl

theorem disj_assoc (a b c : Truth) : disj (disj a b) c = disj a (disj b c) := by
  cases a <;> cases b <;> cases c <;> rfl

theorem allOf_append (xs ys : List Truth) : allOf (xs ++ ys) = conj (allOf xs) (allOf ys) := by
  induction xs with
  | nil =>
    show allOf ys = conj .yes (allOf ys)
    cases allOf ys <;> rfl
  | cons x xs ih =>
    show conj x (allOf (xs ++ ys)) = conj (conj x (allOf xs)) (allOf ys)
    rw [ih, conj_assoc]

theorem anyOf_append (xs ys : List Truth) : anyOf (xs ++ ys) = disj (anyOf xs) (anyOf ys) := by
  induction xs with
  | nil =>
    show anyOf ys = disj .no (anyOf ys)
    cases anyOf ys <;> rfl
  | cons x xs ih =>
    show disj x (anyOf (xs ++ ys)) = disj (disj x (anyOf xs)) (anyOf ys)
    rw [ih, disj_assoc]

theorem allOf_singleton (t : Truth) : allOf [t] = t := by cases t <;> rfl

theorem anyOf_singleton (t : Truth) : anyOf [t] = t := by cases t <;> rfl

/-- The second value settles the first: only an unknown value may change. -/
def Refines (a b : Truth) : Prop := a = .unknown ∨ a = b

variable {a : Truth}

theorem Refines.self : Refines a a := .inr rfl

theorem Refines.not {b : Truth} (h : Refines a b) : Refines a.not b.not := by
  rcases h with rfl | rfl
  · exact .inl rfl
  · exact .self

theorem Refines.conj {b c d : Truth} (h : Refines a b) (h' : Refines c d) :
    Refines (conj a c) (conj b d) := by
  rcases h with rfl | rfl <;> rcases h' with rfl | rfl
  · exact .inl rfl
  · cases b <;> cases c <;> simp [Refines, Truth.conj]
  · cases a <;> cases d <;> simp [Refines, Truth.conj]
  · exact .self

theorem Refines.disj {b c d : Truth} (h : Refines a b) (h' : Refines c d) :
    Refines (disj a c) (disj b d) := by
  rcases h with rfl | rfl <;> rcases h' with rfl | rfl
  · exact .inl rfl
  · cases b <;> cases c <;> simp [Refines, Truth.disj]
  · cases a <;> cases d <;> simp [Refines, Truth.disj]
  · exact .self

theorem Refines.allOf (h : List.Forall₂ Refines l l') :
    Refines (allOf l) (allOf l') := by
  induction h with
  | nil => exact .self
  | cons head _ ih => exact head.conj ih

theorem Refines.anyOf (h : List.Forall₂ Refines l l') :
    Refines (anyOf l) (anyOf l') := by
  induction h with
  | nil => exact .self
  | cons head _ ih => exact head.disj ih

end Truth

end RssMdm.Lib.Kleene
