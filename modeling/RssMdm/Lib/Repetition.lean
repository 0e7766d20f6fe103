/- module: Lib/Repetition
   generality: library
   digest: The positions of a list whose key stands at another position too, by one scan. -/

import Mathlib.Data.List.Basic

set_option autoImplicit false

namespace RssMdm.Lib.Repetition

variable {α : Type} {same : α → α → Bool} {ids : List (Option α)}

/-- The position has a key that is the same as this one; positions may have none. -/
def At (same : α → α → Bool) (ids : List (Option α)) (a : α) (i : Nat) : Prop :=
  ∃ b, ids[i]? = some (some b) ∧ same a b = true

/-- The key of the position stands at another one too. -/
def Repeats (same : α → α → Bool) (ids : List (Option α)) (i : Nat) : Prop :=
  ∃ a, ids[i]? = some (some a) ∧ ∃ j, j ≠ i ∧ At same ids a j

variable {i : Nat} {a : α}

theorem At.lt (h : At same ids a i) : i < ids.length := by
  obtain ⟨b, found, -⟩ := h
  exact (List.getElem?_eq_some_iff.mp found).1

theorem Repeats.lt (h : Repeats same ids i) : i < ids.length := by
  obtain ⟨a, found, -⟩ := h
  exact (List.getElem?_eq_some_iff.mp found).1

theorem getElem?_snoc {β : Type} (l : List β) (k : β) (i : Nat) :
    (l ++ [k])[i]? = if i < l.length then l[i]? else if i = l.length then some k else none := by
  by_cases inside : i < l.length
  · rw [if_pos inside, List.getElem?_append_left inside]
  rw [if_neg inside, List.getElem?_append_right (by omega)]
  by_cases last : i = l.length
  · rw [if_pos last, last, Nat.sub_self]
    rfl
  · obtain ⟨n, beyond⟩ : ∃ n, i - l.length = n + 1 := ⟨i - l.length - 1, by omega⟩
    rw [if_neg last, beyond]
    rfl

theorem at_snoc {k : Option α} : At same (ids ++ [k]) a i ↔
    At same ids a i ∨ i = ids.length ∧ ∃ b, k = some b ∧ same a b = true := by
  rw [At, getElem?_snoc]
  by_cases inside : i < ids.length
  · have other : i ≠ ids.length := by omega
    rw [if_pos inside]
    constructor
    · exact fun h => .inl h
    · rintro (h | ⟨last, -⟩)
      · exact h
      · exact absurd last other
  · rw [if_neg inside]
    have beyond : ¬ At same ids a i := fun h => inside h.lt
    by_cases last : i = ids.length
    · rw [if_pos last]
      constructor
      · rintro ⟨b, found, agrees⟩
        exact .inr ⟨last, b, Option.some.inj found, agrees⟩
      · rintro (h | ⟨-, b, rfl, agrees⟩)
        · exact absurd h beyond
        · exact ⟨b, rfl, agrees⟩
    · rw [if_neg last]
      constructor
      · rintro ⟨b, found, -⟩
        cases found
      · rintro (h | ⟨equal, -⟩)
        · exact absurd h beyond
        · exact absurd equal last

theorem repeats_snoc_none :
    Repeats same (ids ++ [none]) i ↔ Repeats same ids i := by
  have keys : ∀ a j, At same (ids ++ [none]) a j ↔ At same ids a j := by
    intro a j
    rw [at_snoc]
    constructor
    · rintro (h | ⟨-, b, none, -⟩)
      · exact h
      · cases none
    · exact .inl
  constructor
  · rintro ⟨a, found, j, other, key⟩
    rw [getElem?_snoc] at found
    split at found
    · exact ⟨a, found, j, other, (keys a j).mp key⟩
    · split at found
      · cases found
      · cases found
  · rintro ⟨a, found, j, other, key⟩
    have inside := (List.getElem?_eq_some_iff.mp found).1
    refine ⟨a, ?_, j, other, (keys a j).mpr key⟩
    rw [getElem?_snoc, if_pos inside]
    exact found

theorem repeats_snoc (symm : ∀ x y, same x y = true → same y x = true) :
    Repeats same (ids ++ [some a]) i ↔ Repeats same ids i ∨ At same ids a i ∨
      i = ids.length ∧ ∃ j, At same ids a j := by
  constructor
  · rintro ⟨b, found, j, other, key⟩
    rw [getElem?_snoc] at found
    rw [at_snoc] at key
    split at found
    · rcases key with old | ⟨last, c, equal, agrees⟩
      · exact .inl ⟨b, found, j, other, old⟩
      · cases equal
        exact .inr (.inl ⟨b, found, symm _ _ agrees⟩)
    · split at found
      · rename_i last
        cases found
        rcases key with old | ⟨own, -⟩
        · exact .inr (.inr ⟨last, j, old⟩)
        · exact absurd (own.trans last.symm) other
      · cases found
  · rintro (⟨b, found, j, other, key⟩ | key | ⟨rfl, j, key⟩)
    · have inside := (List.getElem?_eq_some_iff.mp found).1
      refine ⟨b, ?_, j, other, at_snoc.mpr (.inl key)⟩
      rw [getElem?_snoc, if_pos inside]
      exact found
    · have inside := key.lt
      obtain ⟨b, found, agrees⟩ := key
      refine ⟨b, ?_, ids.length, by omega, at_snoc.mpr (.inr ⟨rfl, a, rfl, symm _ _ agrees⟩)⟩
      rw [getElem?_snoc, if_pos inside]
      exact found
    · have inside := key.lt
      refine ⟨a, ?_, j, by omega, at_snoc.mpr (.inl key)⟩
      rw [getElem?_snoc, if_neg (by omega), if_pos rfl]

theorem repeats_snoc_of_at (symm : ∀ x y, same x y = true → same y x = true)
    (trans : ∀ x y z, same x y = true → same y z = true → same x z = true) {p : Nat}
    (previous : At same ids a p) : Repeats same (ids ++ [some a]) i ↔
      Repeats same ids i ∨ i = p ∨ i = ids.length := by
  rw [repeats_snoc symm]
  constructor
  · rintro (old | key | ⟨last, -⟩)
    · exact .inl old
    · by_cases own : i = p
      · exact .inr (.inl own)
      · obtain ⟨b, found, agrees⟩ := key
        obtain ⟨c, there, agrees'⟩ := previous
        have both := trans _ _ _ (symm _ _ agrees) agrees'
        exact .inl ⟨b, found, p, fun equal => own equal.symm, c, there, both⟩
    · exact .inr (.inr last)
  · rintro (old | rfl | last)
    · exact .inl old
    · exact .inr (.inl previous)
    · exact .inr (.inr ⟨last, p, previous⟩)

theorem repeats_snoc_of_fresh (symm : ∀ x y, same x y = true → same y x = true)
    (fresh : ∀ j, ¬ At same ids a j) : Repeats same (ids ++ [some a]) i ↔ Repeats same ids i := by
  rw [repeats_snoc symm]
  constructor
  · rintro (old | key | ⟨-, j, key⟩)
    · exact old
    · exact absurd key (fresh i)
    · exact absurd key (fresh j)
  · exact .inl

end RssMdm.Lib.Repetition
