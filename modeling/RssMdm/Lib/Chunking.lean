/- module: Lib/Chunking
   generality: library
   digest: Cutting a list into pieces of one length, and recognising the cut from the lengths. -/

import Mathlib.Data.List.Basic

set_option autoImplicit false

namespace RssMdm.Lib.Chunking

variable {α : Type}

/-- Pieces of `n` members in order; the last one holds what is left. -/
def slices (n : Nat) (l : List α) : List (List α) :=
  (List.range ((l.length + n - 1) / n)).map (fun i => (l.drop (i * n)).take n)

@[simp] theorem length_slices (n : Nat) (l : List α) :
    (slices n l).length = (l.length + n - 1) / n := by
  rw [slices, List.length_map, List.length_range]

theorem getElem_slices (n : Nat) (l : List α) (i : Nat) (h : i < (slices n l).length) :
    (slices n l)[i] = (l.drop (i * n)).take n := by
  simp only [slices, List.getElem_map, List.getElem_range]

variable {n total : Nat}

theorem start_lt {i : Nat} (h : i < (total + n - 1) / n) : i * n < total := by
  have positive : 0 < n := by
    rcases Nat.eq_zero_or_pos n with rfl | positive
    · simp at h
    · exact positive
  have bound := (Nat.lt_div_iff_mul_lt positive).mp h
  omega

theorem le_count_mul (positive : 0 < n) (total : Nat) : total ≤ (total + n - 1) / n * n := by
  have split := Nat.div_add_mod (total + n - 1) n
  have rest := Nat.mod_lt (total + n - 1) positive
  rw [Nat.mul_comm] at split
  omega

theorem flatten_starts (n : Nat) (l : List α) (k : Nat) :
    ((List.range k).map (fun i => (l.drop (i * n)).take n)).flatten = l.take (k * n) := by
  induction k with
  | zero => simp
  | succ _ ih =>
    rw [List.range_succ, List.map_append, List.flatten_append, ih, List.map_singleton,
      List.flatten_singleton, Nat.succ_mul, List.take_add]

theorem flatten_slices (positive : 0 < n) (l : List α) : (slices n l).flatten = l := by
  rw [slices, flatten_starts]
  exact List.take_of_length_le (le_count_mul positive l.length)

/-- The lengths the pieces of a list of `total` members have. -/
def Cut (n total : Nat) (pieces : List (List α)) : Prop :=
  pieces.length = (total + n - 1) / n ∧
    ∀ i, (h : i < pieces.length) → pieces[i].length = min (total - i * n) n

variable {pieces : List (List α)}

theorem Cut.length_flatten_take (cut : Cut n total pieces) {i : Nat} (h : i < pieces.length) :
    (pieces.take i).flatten.length = i * n := by
  induction i with
  | zero => simp
  | succ i ih =>
    have before : i < pieces.length := Nat.lt_of_succ_lt h
    have start := start_lt (cut.1 ▸ h)
    have full : pieces[i].length = n := by
      rw [cut.2 i before]
      rw [Nat.succ_mul] at start
      omega
    rw [List.take_succ_eq_append_getElem before, List.flatten_append, List.length_append,
      ih before, List.flatten_singleton, full, Nat.succ_mul]

theorem Cut.eq_slices (cut : Cut n total pieces) (whole : pieces.flatten.length = total) :
    pieces = slices n pieces.flatten := by
  have count : pieces.length = (slices n pieces.flatten).length := by
    rw [length_slices, whole, cut.1]
  refine List.ext_getElem count ?_
  intro i h h'
  rw [getElem_slices]
  have parts : pieces.flatten =
      (pieces.take i).flatten ++ (pieces[i] ++ (pieces.drop (i + 1)).flatten) := by
    rw [← List.flatten_cons, ← List.drop_eq_getElem_cons h, ← List.flatten_append,
      List.take_append_drop]
  have before := cut.length_flatten_take h
  have here := cut.2 i h
  have rest : pieces.flatten.drop (i * n) = pieces[i] ++ (pieces.drop (i + 1)).flatten := by
    rw [parts, ← before, List.drop_left]
  rw [rest]
  by_cases full : pieces[i].length = n
  · rw [← full, List.take_left]
  -- a short piece reaches the end of the list, so nothing follows it
  have lengths := congrArg List.length rest
  rw [List.length_drop, List.length_append, whole] at lengths
  have last : (pieces.drop (i + 1)).flatten = [] := by
    apply List.eq_nil_of_length_eq_zero
    omega
  rw [last, List.append_nil, List.take_of_length_le]
  omega

end RssMdm.Lib.Chunking
