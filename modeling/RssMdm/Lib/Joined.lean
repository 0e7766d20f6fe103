/- module: Lib/Joined
   generality: library
   digest: Parts joined with a separator that is written only after a text that is not empty. -/

import Mathlib.Data.List.Basic

set_option autoImplicit false

namespace RssMdm.Lib.Joined

variable {α : Type}

/-- The text so far, continued by the parts. -/
def joined (separator : α) : List α → List (List α) → List α
  | text, [] => text
  | text, part :: parts =>
      joined separator ((if text.isEmpty then text else text ++ [separator]) ++ part) parts

theorem joined_cons (separator : α) (text part : List α) (parts : List (List α)) :
    joined separator text (part :: parts) =
      joined separator ((if text.isEmpty then text else text ++ [separator]) ++ part) parts := rfl

theorem joined_append (separator : α) (text : List α) (parts others : List (List α)) :
    joined separator text (parts ++ others) =
      joined separator (joined separator text parts) others := by
  induction parts generalizing text with
  | nil => rfl
  | cons _ _ ih => exact ih _

theorem joined_blank (separator : α) (parts : List (List α)) :
    joined separator [] ([] :: parts) = joined separator [] parts := rfl

theorem joined_inhabited (separator : α) {text : List α} (inhabited : text ≠ [])
    (parts : List (List α)) :
    joined separator text parts = [separator].intercalate (text :: parts) := by
  induction parts generalizing text with
  | nil => simp [joined]
  | cons part parts ih =>
    have longer : text ++ [separator] ++ part ≠ [] := by simp
    have plain : text.isEmpty = false := by simp [inhabited]
    rw [joined_cons, plain, if_neg Bool.false_ne_true, ih longer]
    cases parts with
    | nil | cons => simp [List.intercalate_cons_cons]

theorem joined_front (separator : α) {part : List α} (inhabited : part ≠ [])
    (parts : List (List α)) :
    joined separator [] (part :: parts) = [separator].intercalate (part :: parts) :=
  joined_inhabited separator inhabited parts

section

variable [BEq α] [LawfulBEq α] {separator : α}

theorem not_mem_of_mem_splitOn {text part : List α} (member : part ∈ text.splitOn separator) :
    separator ∉ part := by
  induction text generalizing part with
  | nil =>
    rw [List.splitOn_nil, List.mem_singleton] at member
    rw [member]
    exact List.not_mem_nil
  | cons a text ih =>
    rw [List.splitOn_cons_eq_if_modifyHead] at member
    split at member
    · rcases List.mem_cons.mp member with rfl | later
      · exact List.not_mem_nil
      · exact ih later
    rename_i other
    cases pieces : text.splitOn separator with
    | nil => exact absurd pieces (List.splitOn_ne_nil separator text)
    | cons first =>
      rw [pieces, List.modifyHead_cons] at member
      rcases List.mem_cons.mp member with rfl | later
      · have clean := ih (pieces ▸ List.mem_cons_self)
        have differs : separator ≠ a := by
          rintro rfl
          exact other (beq_self_eq_true separator)
        exact List.not_mem_cons_of_ne_of_not_mem differs clean
      · exact ih (pieces ▸ List.mem_cons_of_mem first later)

theorem splitOn_front {text : List α} (start : text.head? ≠ some separator) :
    text = [] ∨ ∃ part parts, text.splitOn separator = part :: parts ∧ part ≠ [] := by
  cases text with
  | nil => exact .inl rfl
  | cons a text =>
    have differs : (a == separator) = false := by
      rw [beq_eq_false_iff_ne]
      rintro rfl
      exact start rfl
    cases pieces : text.splitOn separator with
    | nil => exact absurd pieces (List.splitOn_ne_nil separator text)
    | cons first rest =>
      refine .inr ⟨a :: first, rest, ?_, List.cons_ne_nil a first⟩
      rw [List.splitOn_cons_eq_if_modifyHead, differs, if_neg Bool.false_ne_true, pieces,
        List.modifyHead_cons]

theorem splitOn_separator (text : List α) :
    (separator :: text).splitOn separator = [] :: text.splitOn separator := by
  rw [List.splitOn_cons_eq_if_modifyHead, if_pos (beq_self_eq_true separator)]

theorem splitOn_joined {part : List α} {parts : List (List α)} (inhabited : part ≠ [])
    (clean : ∀ p ∈ part :: parts, separator ∉ p) :
    (joined separator [] (part :: parts)).splitOn separator = part :: parts := by
  rw [joined_front separator inhabited]
  exact List.splitOn_intercalate separator clean (List.cons_ne_nil part parts)

theorem splitOn_joined_length_le {parts : List (List α)} (inhabited : parts ≠ [])
    (clean : ∀ p ∈ parts, separator ∉ p) :
    ((joined separator [] parts).splitOn separator).length ≤ parts.length := by
  induction parts with
  | nil => exact absurd rfl inhabited
  | cons part parts ih =>
    by_cases blank : part = []
    · subst blank
      cases parts with
      | nil => exact Nat.le_refl 1
      | cons next parts =>
        have fewer := ih (List.cons_ne_nil next parts)
          fun p member => clean p (List.mem_cons_of_mem [] member)
        rw [joined_blank]
        exact Nat.le_succ_of_le fewer
    · exact Nat.le_of_eq (congrArg List.length (splitOn_joined blank clean))

theorem joined_injective {parts others : List (List α)}
    (shape : List.Forall₂ (fun p q => p = [] ↔ q = []) parts others)
    (clean : ∀ p ∈ parts, separator ∉ p) (cleanOthers : ∀ p ∈ others, separator ∉ p)
    (same : joined separator [] parts = joined separator [] others) : parts = others := by
  induction shape with
  | nil => rfl
  | @cons part other parts others blank _ ih =>
    by_cases empty : part = []
    · have emptyOther := blank.mp empty
      subst empty
      subst emptyOther
      have rest := ih (fun p member => clean p (List.mem_cons_of_mem [] member))
        (fun p member => cleanOthers p (List.mem_cons_of_mem [] member)) same
      rw [rest]
    · have inhabited : other ≠ [] := fun none => empty (blank.mpr none)
      calc part :: parts
          = (joined separator [] (part :: parts)).splitOn separator :=
            (splitOn_joined empty clean).symm
        _ = (joined separator [] (other :: others)).splitOn separator := by rw [same]
        _ = other :: others := splitOn_joined inhabited cleanOthers

end

theorem mem_intercalate {x : α} {between : List α} {parts : List (List α)}
    (h : x ∈ between.intercalate parts) : x ∈ between ∨ ∃ part ∈ parts, x ∈ part := by
  induction parts with
  | nil => cases h
  | cons part parts ih =>
    cases parts with
    | nil => exact .inr ⟨part, .head _, by simpa using h⟩
    | cons =>
      rw [List.intercalate_cons_cons, List.mem_append, List.mem_append] at h
      rcases h with (h | h) | h
      · exact .inr ⟨part, .head _, h⟩
      · exact .inl h
      · exact (ih h).imp_right fun ⟨other, mem, h⟩ => ⟨other, .tail _ mem, h⟩

end RssMdm.Lib.Joined
