/- module: Lib/Slots
   generality: library
   digest: Values that are taken out of a list of slots at given places, each at most once. -/

import Mathlib.Data.List.Forall2
import Mathlib.Data.List.Count

set_option autoImplicit false

namespace RssMdm.Lib.Slots

variable {α : Type*} {slots slots' : List (Option α)} {a : α}

def take (slots : List (Option α)) (i : Nat) : Option (α × List (Option α)) :=
  match slots[i]? with
  | some (some a) => some (a, slots.set i none)
  | _ => none

def takeAll (slots : List (Option α)) : List Nat → Option (List α × List (Option α))
  | [] => some ([], slots)
  | i :: rest => do
      let (a, slots) ← take slots i
      let (taken, slots) ← takeAll slots rest
      some (a :: taken, slots)

def held (slots : List (Option α)) (k : Nat) : Nat := if slots[k]?.join.isSome then 1 else 0

theorem take_eq_some {i : Nat} :
    take slots i = some (a, slots') ↔ slots[i]? = some (some a) ∧ slots' = slots.set i none := by
  unfold take
  split
  · rename_i b found
    simp [found, eq_comm]
  · rename_i other
    simp only [reduceCtorEq, false_iff, not_and]
    exact fun found => absurd found (other a)

section

theorem held_take {i : Nat} (h : take slots i = some (a, slots')) (k : Nat) :
    [i].count k + held slots' k = held slots k := by
  obtain ⟨found, rfl⟩ := take_eq_some.mp h
  by_cases own : i = k
  · subst own
    have inside : i < slots.length := (List.getElem?_eq_some_iff.mp found).1
    simp [held, found, List.getElem?_set_self inside]
  · rw [List.count_singleton, if_neg (by simpa using own), Nat.zero_add, held, held,
      List.getElem?_set_ne own]

theorem held_concat (slots : List (Option α)) (a : α) (k : Nat) :
    held (slots ++ [some a]) k = held slots k + if k = slots.length then 1 else 0 := by
  rcases Nat.lt_trichotomy k slots.length with early | rfl | late
  · simp [held, List.getElem?_append_left early, Nat.ne_of_lt early]
  · simp [held]
  · simp [held, List.getElem?_append_right (Nat.le_of_lt late), Nat.ne_of_gt late,
      Nat.sub_ne_zero_of_lt late, List.getElem?_eq_none (Nat.le_of_lt late)]

/-- What taking values out of slots does: each comes from its slot, and no slot gives two. -/
structure Takes (slots : List (Option α)) (places : List Nat) (taken : List α)
    (slots' : List (Option α)) : Prop where
  found : List.Forall₂ (fun (i : Nat) a => slots[i]? = some (some a)) places taken
  length : slots'.length = slots.length
  left : ∀ (k : Nat) a, slots'[k]? = some (some a) → slots[k]? = some (some a)
  conserved : ∀ k, places.count k + held slots' k = held slots k

theorem takes_of_takeAll {places : List Nat} {taken : List α}
    (h : takeAll slots places = some (taken, slots')) : Takes slots places taken slots' := by
  induction places generalizing slots taken with
  | nil =>
    cases h
    exact ⟨.nil, rfl, fun _ _ found => found, fun k => by rw [List.count_nil, Nat.zero_add]⟩
  | cons i rest ih =>
    obtain ⟨⟨a, middle⟩, first, h⟩ := Option.bind_eq_some_iff.mp h
    obtain ⟨⟨later, last⟩, rest', h⟩ := Option.bind_eq_some_iff.mp h
    cases h
    have takes := ih rest'
    have kept : ∀ (k : Nat) b, middle[k]? = some (some b) → slots[k]? = some (some b) := by
      obtain ⟨-, rfl⟩ := take_eq_some.mp first
      intro k b found
      rw [List.getElem?_set] at found
      split at found
      · split at found <;> cases found
      · exact found
    constructor
    · exact .cons (take_eq_some.mp first).1 (takes.found.imp fun i b found => kept i b found)
    · rw [takes.length, (take_eq_some.mp first).2, List.length_set]
    · exact fun k b found => kept k b (takes.left k b found)
    · intro k
      have own := held_take first k
      have later := takes.conserved k
      have split : (i :: rest).count k = [i].count k + rest.count k := by
        rw [← List.count_append, List.singleton_append]
      omega

end

/-- Slots of which only the last holds a value. -/
def block (s : Nat × α) : List (Option α) := List.replicate s.1 none ++ [some s.2]

/-- The places of the values of consecutive blocks. -/
def ends (start : Nat) : List (Nat × α) → List Nat
  | [] => []
  | s :: rest => (start + s.1) :: ends (start + s.1 + 1) rest

@[simp] theorem length_block (s : Nat × α) : (block s).length = s.1 + 1 := by simp [block]

theorem take_block (before after : List (Option α)) (s : Nat × α) :
    take (before ++ block s ++ after) (before.length + s.1) =
      some (s.2, before ++ List.replicate (s.1 + 1) none ++ after) := by
  have place : before.length + s.1 = (before ++ List.replicate s.1 (none : Option α)).length := by simp
  have split : before ++ block s ++ after =
      (before ++ List.replicate s.1 none) ++ some s.2 :: after := by simp [block]
  rw [take_eq_some, split, place]
  constructor
  · simp
  · rw [List.set_append_right _ _ (Nat.le_refl _), Nat.sub_self, List.set_cons_zero, List.replicate_succ']
    simp

theorem takeAll_blocks (before : List (Option α)) (blocks : List (Nat × α)) :
    takeAll (before ++ blocks.flatMap block) (ends before.length blocks) =
      some (blocks.map Prod.snd,
        before ++ List.replicate (blocks.flatMap block).length none) := by
  induction blocks generalizing before with
  | nil => simp [takeAll, ends]
  | cons s _ ih =>
    rw [List.flatMap_cons, ends, takeAll, ← List.append_assoc, take_block]
    have start : before.length + s.1 + 1 =
        (before ++ List.replicate (s.1 + 1) (none : Option α)).length := by
      simp [Nat.add_assoc]
    simp only [Option.bind_eq_bind, Option.bind_some]
    rw [start, ih]
    rw [List.length_append, length_block, List.append_assoc before, List.replicate_append_replicate,
      List.map_cons]
    rfl

end RssMdm.Lib.Slots
