/- module: Lib/Rows
   generality: library
   digest: Tables as lists of rows with a key: looking a row up, replacing it, appending one. -/

import Mathlib.Data.List.Basic

set_option autoImplicit false

namespace RssMdm.Lib.Rows

open List (find?_cons_of_neg find?_cons_of_pos)

variable {α κ : Type*} [DecidableEq κ] (key : α → κ)

def lookup (rows : List α) (k : κ) : Option α := rows.find? (fun row => key row = k)

def replace (rows : List α) (row : α) : List α := rows.map (fun old => if key old = key row then row else old)

def update (rows : List α) (k : κ) (f : α → α) : List α := rows.map (fun row => if key row = k then f row else row)

variable {key} {rows : List α} {row : α} {k : κ}

theorem key_of_lookup (found : lookup key rows k = some row) : key row = k := by
  have same := List.find?_some found
  exact decide_eq_true_eq.mp same

theorem mem_of_lookup (found : lookup key rows k = some row) : row ∈ rows :=
  List.mem_of_find?_eq_some found

theorem lookup_replace : lookup key (replace key rows row) k =
    if k = key row then (lookup key rows k).map (fun _ => row) else lookup key rows k := by
  unfold lookup replace
  induction rows with
  | nil => split <;> rfl
  | cons old _ ih =>
    rw [List.map_cons]
    by_cases here : key old = key row
    · rw [if_pos here]
      by_cases wanted : k = key row
      · rw [if_pos wanted, find?_cons_of_pos (by simp [wanted]),
          find?_cons_of_pos (by simp [here, wanted])]
        rfl
      have absent : ¬key old = k := fun same => wanted (same.symm.trans here)
      rw [if_neg wanted] at ih ⊢
      rw [find?_cons_of_neg (by simpa using fun same => wanted same.symm),
        find?_cons_of_neg (by simpa using absent)]
      exact ih
    · rw [if_neg here]
      by_cases wanted : key old = k
      · rw [find?_cons_of_pos (by simpa using wanted), find?_cons_of_pos (by simpa using wanted),
          if_neg]
        exact fun same => here (wanted.trans same)
      · rw [find?_cons_of_neg (by simpa using wanted), find?_cons_of_neg (by simpa using wanted)]
        exact ih

theorem lookup_update {f : α → α} {j : κ} (keeps : ∀ row, key (f row) = key row) :
    lookup key (update key rows j f) k = (lookup key rows k).map (fun row => if k = j then f row else row) := by
  unfold lookup update
  induction rows with
  | nil => rfl
  | cons first _ ih =>
    rw [List.map_cons]
    have same : key (if key first = j then f first else first) = key first := by
      split
      · exact keeps first
      · rfl
    by_cases wanted : key first = k
    · rw [find?_cons_of_pos (by simpa [same] using wanted),
        find?_cons_of_pos (by simpa using wanted), wanted]
      rfl
    · rw [find?_cons_of_neg (by simpa [same] using wanted),
        find?_cons_of_neg (by simpa using wanted)]
      exact ih

theorem mem_update {f : α → α} {j : κ} {x : α} (mem : x ∈ update key rows j f) :
    (∃ old ∈ rows, key old = j ∧ x = f old) ∨ x ∈ rows := by
  obtain ⟨old, there, is⟩ := List.mem_map.mp mem
  by_cases same : key old = j
  · rw [if_pos same] at is
    exact .inl ⟨old, there, same, is.symm⟩
  · rw [if_neg same] at is
    exact .inr (is ▸ there)

theorem lookup_append_found {more : List α} (found : lookup key rows k = some row) :
    lookup key (rows ++ more) k = some row := by
  unfold lookup at *
  rw [List.find?_append, found]
  rfl

theorem lookup_append_ne (other : k ≠ key row) : lookup key (rows ++ [row]) k = lookup key rows k := by
  unfold lookup
  rw [List.find?_append, find?_cons_of_neg (by simpa using fun same => other same.symm)]
  simp

theorem lookup_append_new (fresh : lookup key rows (key row) = none) :
    lookup key (rows ++ [row]) (key row) = some row := by
  unfold lookup at *
  rw [List.find?_append, fresh]
  simp

end RssMdm.Lib.Rows
