/- module: Lib/Commuting
   generality: library
   digest: Folds of actions that commute and do not count, the same folds under a budget, and the least keys
   of a set. -/

import Mathlib.Algebra.Order.Ring.Int
import Mathlib.Data.List.Infix

set_option autoImplicit false

namespace RssMdm.Lib.Commuting

open List (foldl_cons take_succ_cons)

section

variable {α σ : Type*}

/-- The order of actions does not matter, nor how often one is taken. -/
structure Settles (f : σ → α → σ) : Prop where
  comm : ∀ s a b, f (f s a) b = f (f s b) a
  idem : ∀ s a, f (f s a) a = f s a

variable {f : σ → α → σ} {l l' : List α} {a : α}

theorem Settles.foldl_comm (settles : Settles f) (s : σ) :
    l.foldl f (f s a) = f (l.foldl f s) a := by
  induction l generalizing s with
  | nil => rfl
  | cons _ _ ih => rw [foldl_cons, foldl_cons, settles.comm, ih]

theorem Settles.foldl_mem (settles : Settles f) (mem : a ∈ l) (s : σ) : l.foldl f (f s a) = l.foldl f s := by
  induction l generalizing s with
  | nil => cases mem
  | cons _ _ ih =>
    rw [foldl_cons, foldl_cons]
    rcases List.mem_cons.mp mem with rfl | later
    · rw [settles.idem]
    · rw [settles.comm, ih later]

theorem Settles.foldl_subset (settles : Settles f) (sub : ∀ a ∈ l, a ∈ l') (s : σ) :
    l'.foldl f (l.foldl f s) = l'.foldl f s := by
  induction l generalizing s with
  | nil => rfl
  | cons a _ ih =>
    rw [foldl_cons, ih (fun b mem => sub b (.tail _ mem)),
      settles.foldl_mem (sub a (.head _))]

theorem Settles.foldl_swap (settles : Settles f) (s : σ) : l'.foldl f (l.foldl f s) = l.foldl f (l'.foldl f s) := by
  induction l generalizing s with
  | nil => rfl
  | cons _ _ ih => rw [foldl_cons, foldl_cons, ih, settles.foldl_comm]

theorem Settles.foldl_congr (settles : Settles f) (same : ∀ a, a ∈ l ↔ a ∈ l') (s : σ) :
    l.foldl f s = l'.foldl f s := by
  calc l.foldl f s = l.foldl f (l'.foldl f s) := (settles.foldl_subset (fun a mem => (same a).mpr mem) s).symm
    _ = l'.foldl f (l.foldl f s) := settles.foldl_swap s
    _ = l'.foldl f s := settles.foldl_subset (fun a mem => (same a).mp mem) s

theorem Settles.flat {β : Type*} (settles : Settles f) (parts : β → List α) :
    Settles (fun s b => (parts b).foldl f s) where
  comm := fun s _ _ => settles.foldl_swap s
  idem := fun s _ => settles.foldl_subset (fun _ mem => mem) s

end

section

variable {α σ : Type*} (f : σ → α → σ) (big : σ → Bool)

/-- One action under a budget; nothing is left once it is exceeded. -/
def spend : Option σ → α → Option σ
  | none, _ => none
  | some s, a => if big (f s a) then none else some (f s a)

variable {f big} {s t : σ} {l : List α}

theorem foldl_spend_none : l.foldl (spend f big) none = none := by
  induction l with
  | nil => rfl
  | cons _ _ ih => rw [foldl_cons, spend, ih]

theorem foldl_spend_eq_some : l.foldl (spend f big) (some s) = some t ↔
    l.foldl f s = t ∧ ∀ y, y ≠ [] → y <+: l → big (y.foldl f s) = false := by
  induction l generalizing s with
  | nil =>
    constructor
    · intro h
      cases h
      exact ⟨rfl, fun y nonempty front => absurd (List.prefix_nil.mp front) nonempty⟩
    · rintro ⟨rfl, -⟩
      rfl
  | cons a _ ih =>
    rw [foldl_cons, foldl_cons, spend]
    cases here : big (f s a) with
    | true =>
      rw [if_pos rfl, foldl_spend_none]
      constructor
      · intro h
        cases h
      · rintro ⟨-, small⟩
        have first := small [a] (by simp) (by simp)
        rw [foldl_cons, List.foldl_nil, here] at first
        cases first
    | false =>
      rw [if_neg Bool.false_ne_true, ih]
      refine and_congr_right fun _ => ?_
      constructor
      · intro small y nonempty front
        cases y with
        | nil => exact absurd rfl nonempty
        | cons _ more =>
          obtain ⟨rfl, rest'⟩ := List.cons_prefix_cons.mp front
          rw [foldl_cons]
          cases more with
          | nil => exact here
          | cons => exact small _ (by simp) rest'
      · intro small y nonempty front
        exact small (a :: y) (by simp) (List.cons_prefix_cons.mpr ⟨rfl, front⟩)

theorem foldl_spend_eq_none : l.foldl (spend f big) (some s) = none ↔
    ∃ y, y ≠ [] ∧ y <+: l ∧ big (y.foldl f s) = true := by
  constructor
  · intro h
    by_contra none
    have small : ∀ y, y ≠ [] → y <+: l → big (y.foldl f s) = false := by
      intro y nonempty front
      by_contra beyond
      exact none ⟨y, nonempty, front, by simpa using beyond⟩
    rw [foldl_spend_eq_some.mpr ⟨rfl, small⟩] at h
    cases h
  · rintro ⟨y, nonempty, front, beyond⟩
    cases h : l.foldl (spend f big) (some s) with
    | none => rfl
    | some =>
      have small := (foldl_spend_eq_some.mp h).2 y nonempty front
      rw [beyond] at small
      cases small

/-- Under a budget the result is one for all orders exactly when the budget holds for every part of the
actions, or for no order of them. -/
theorem Settles.spend_congr_iff (settles : Settles f) :
    (∀ l' : List α, (∀ a, a ∈ l' ↔ a ∈ l) → l'.foldl (spend f big) (some s) = l.foldl (spend f big) (some s)) ↔
      (∀ y : List α, y ≠ [] → (∀ a ∈ y, a ∈ l) → big (y.foldl f s) = false) ∨
      (∀ l' : List α, (∀ a, a ∈ l' ↔ a ∈ l) → ∃ y, y ≠ [] ∧ y <+: l' ∧ big (y.foldl f s) = true) := by
  constructor
  · intro all
    cases h : l.foldl (spend f big) (some s) with
    | none =>
      refine .inr fun l' same => ?_
      exact foldl_spend_eq_none.mp ((all l' same).trans h)
    | some =>
      refine .inl fun y nonempty sub => ?_
      -- What is a part of the actions is the beginning of an order of them.
      have same : ∀ a, a ∈ y ++ l ↔ a ∈ l := by
        intro a
        rw [List.mem_append]
        exact ⟨fun mem => mem.elim (sub a) id, .inr⟩
      exact (foldl_spend_eq_some.mp ((all (y ++ l) same).trans h)).2 y nonempty (List.prefix_append y l)
  · rintro (small | beyond) l' same
    · have fits : ∀ l' : List α, (∀ a, a ∈ l' ↔ a ∈ l) → l'.foldl (spend f big) (some s) = some (l.foldl f s) := by
        intro l' same
        refine foldl_spend_eq_some.mpr ⟨settles.foldl_congr same s, fun y nonempty front => ?_⟩
        exact small y nonempty (fun a mem => (same a).mp (front.subset mem))
      rw [fits l' same, fits l (fun _ => Iff.rfl)]
    · rw [foldl_spend_eq_none.mpr (beyond l' same), foldl_spend_eq_none.mpr (beyond l (fun _ => Iff.rfl))]

end

variable {κ : Type*} [LinearOrder κ]

/-- The key goes before the first greater one; a key that is there stays. -/
def insertKey (k : κ) : List κ → List κ
  | [] => [k]
  | a :: rest => if k < a then k :: a :: rest else if k = a then a :: rest else a :: insertKey k rest

@[simp] theorem insertKey_nil (k : κ) : insertKey k [] = [k] := rfl

@[simp] theorem insertKey_cons (k a : κ) (rest : List κ) : insertKey k (a :: rest) =
    if k < a then k :: a :: rest else if k = a then a :: rest else a :: insertKey k rest := rfl

theorem insertKey_idem (k : κ) (keys : List κ) : insertKey k (insertKey k keys) = insertKey k keys := by
  induction keys with
  | nil => simp
  | cons a _ ih =>
    rcases lt_trichotomy k a with before | same | after
    · simp [before]
    · simp [same]
    · simp [after.not_gt, after.ne', ih]

theorem insertKey_comm (j k : κ) (keys : List κ) :
    insertKey j (insertKey k keys) = insertKey k (insertKey j keys) := by
  induction keys with
  | nil =>
    rcases lt_trichotomy j k with before | same | after
    · simp [before, before.not_gt, before.ne']
    · rw [same]
    · simp [after, after.not_gt, after.ne']
  | cons a _ ih =>
    rcases lt_trichotomy j a with jBefore | jSame | jAfter <;>
      rcases lt_trichotomy k a with kBefore | kSame | kAfter
    · rcases lt_trichotomy j k with before | same | after
      · simp [jBefore, kBefore, before, before.not_gt, before.ne']
      · rw [same]
      · simp [jBefore, kBefore, after, after.not_gt, after.ne']
    · simp [jBefore, kSame, jBefore.not_gt, jBefore.ne']
    · have between := jBefore.trans kAfter
      simp [jBefore, kAfter.not_gt, kAfter.ne', between.not_gt, between.ne']
    · simp [jSame, kBefore, kBefore.not_gt, kBefore.ne']
    · simp [jSame, kSame]
    · simp [jSame, kAfter.not_gt, kAfter.ne']
    · have between := kBefore.trans jAfter
      simp [kBefore, jAfter.not_gt, jAfter.ne', between.not_gt, between.ne']
    · simp [kSame, jAfter.not_gt, jAfter.ne']
    · simp [jAfter.not_gt, jAfter.ne', kAfter.not_gt, kAfter.ne', ih]

theorem take_insertKey_take (k : κ) (n : Nat) (keys : List κ) :
    (insertKey k (keys.take n)).take n = (insertKey k keys).take n := by
  induction keys generalizing n with
  | nil => simp
  | cons _ _ ih =>
    cases n with
    | zero => simp
    | succ n =>
      rw [take_succ_cons]
      rw [insertKey_cons, insertKey_cons]
      split
      · rw [take_succ_cons, take_succ_cons]
        congr 1
        cases n with
        | zero => rfl
        | succ =>
          rw [take_succ_cons, take_succ_cons, List.take_take]
          simp
      · split
        · rw [take_succ_cons, take_succ_cons, List.take_take, Nat.min_self]
        · rw [take_succ_cons, take_succ_cons, ih]

theorem length_insertKey (k : κ) (keys : List κ) : (insertKey k keys).length ≤ keys.length + 1 := by
  induction keys with
  | nil => simp
  | cons _ _ ih =>
    rw [insertKey_cons]
    split
    · simp
    · split
      · simp
      · simpa using ih

/-- At most `n` keys. -/
structure Least (n : Nat) (κ : Type*) where
  keys : List κ
  few : keys.length ≤ n

variable {n : Nat}

def Least.empty : Least n κ := ⟨[], Nat.zero_le n⟩

/-- Insert a key, and pop the last one if there are too many. -/
def Least.claim (s : Least n κ) (k : κ) : Least n κ where
  keys := if (insertKey k s.keys).length > n then (insertKey k s.keys).dropLast else insertKey k s.keys
  few := by
    have most := length_insertKey k s.keys
    have few := s.few
    split
    · rw [List.length_dropLast]
      omega
    · omega

omit [LinearOrder κ] in
theorem Least.ext {s t : Least n κ} (same : s.keys = t.keys) : s = t := by
  cases s
  cases t
  simp_all

theorem Least.keys_claim (s : Least n κ) (k : κ) : (s.claim k).keys = (insertKey k s.keys).take n := by
  have most := length_insertKey k s.keys
  have few := s.few
  unfold Least.claim
  dsimp only
  split
  · rw [List.dropLast_eq_take]
    congr 1
    omega
  · rw [List.take_of_length_le (by omega)]

theorem Least.settles : Settles (Least.claim : Least n κ → κ → Least n κ) where
  comm := by
    intro s a b
    apply Least.ext
    rw [keys_claim, keys_claim, keys_claim, keys_claim, take_insertKey_take, take_insertKey_take, insertKey_comm]
  idem := by
    intro s a
    apply Least.ext
    rw [keys_claim, keys_claim, take_insertKey_take, insertKey_idem]

end RssMdm.Lib.Commuting
