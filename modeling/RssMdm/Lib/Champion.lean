/- module: Lib/Champion
   generality: library
   digest: One scan for the entry of the greatest score, with a mark for a tie. -/

import Mathlib.Algebra.Order.Ring.Int

set_option autoImplicit false

namespace RssMdm.Lib.Champion

variable {α β : Type} [LinearOrder β]

/-- The entry in front, its score, and whether another one has that score. -/
structure Scan (α β : Type) where
  best : Option α
  score : β
  tie : Bool

def Scan.add (s : Scan α β) (a : α) (score : β) : Scan α β :=
  if s.best.isNone || s.score < score then ⟨some a, score, false⟩
  else if score = s.score then ⟨s.best, s.score, true⟩
  else s

def run (s : Scan α β) (entries : List (α × β)) : Scan α β :=
  entries.foldl (fun s entry => s.add entry.1 entry.2) s

theorem run_cons (s : Scan α β) (entry : α × β) (entries : List (α × β)) :
    run s (entry :: entries) = run (s.add entry.1 entry.2) entries := rfl

/-- Nothing in front reaches the score. -/
def Below (s : Scan α β) (bound : β) : Prop := s.best = none ∨ s.score < bound

variable {score : β} {s : Scan α β}

theorem Scan.add_below {a : α} {bound : β} (below : Below s bound) (less : score < bound) :
    Below (s.add a score) bound := by
  unfold Scan.add
  split
  · exact .inr less
  · split <;> exact below

variable {entries : List (α × β)}

theorem run_below {bound : β} (below : Below s bound) (less : ∀ entry ∈ entries, entry.2 < bound) :
    Below (run s entries) bound := by
  induction entries generalizing s with
  | nil => exact below
  | cons entry _ ih =>
    have first : Below (s.add entry.1 entry.2) bound :=
      Scan.add_below below (less entry (.head _))
    exact ih first fun later member => less later (List.mem_cons_of_mem entry member)

theorem Scan.add_wins (below : Below s score) (a : α) :
    s.add a score = ⟨some a, score, false⟩ := by
  unfold Scan.add
  rcases below with empty | less
  · rw [empty]
    rfl
  · rw [decide_eq_true less, Bool.or_true]
    rfl

theorem Scan.add_loses {other : β} (less : other < score) (a b : α) :
    (Scan.mk (some a) score false).add b other = ⟨some a, score, false⟩ := by
  have behind : ¬ score < other := lt_asymm less
  simp only [Scan.add, Option.isNone_some, Bool.false_or, decide_eq_true_eq, if_neg behind,
    if_neg less.ne]

theorem run_stays {a : α} (less : ∀ entry ∈ entries, entry.2 < score) :
    run ⟨some a, score, false⟩ entries = ⟨some a, score, false⟩ := by
  induction entries with
  | nil => rfl
  | cons entry _ ih =>
    have first := Scan.add_loses (less entry (.head _)) a entry.1
    have rest := ih fun later member => less later (List.mem_cons_of_mem entry member)
    rw [run_cons, first, rest]

theorem run_leads {a : α} {before after : List (α × β)} (start : s.best = none)
    (less : ∀ entry ∈ before ++ after, entry.2 < score) :
    run s (before ++ (a, score) :: after) = ⟨some a, score, false⟩ := by
  have below : Below (run s before) score :=
    run_below (.inl start) fun entry member => less entry (List.mem_append_left after member)
  have behind : ∀ entry ∈ after, entry.2 < score := fun entry member =>
    less entry (List.mem_append_right before member)
  have wins := Scan.add_wins below a
  calc run s (before ++ (a, score) :: after)
      = run ((run s before).add a score) after := by rw [run, List.foldl_append]; rfl
    _ = ⟨some a, score, false⟩ := by rw [wins, run_stays behind]

theorem mem_of_run {a : α} (front : (run s entries).best = some a) :
    (∃ score, (a, score) ∈ entries) ∨ s.best = some a := by
  induction entries generalizing s with
  | nil => exact .inr front
  | cons entry _ ih =>
    rcases ih front with ⟨score, later⟩ | first
    · exact .inl ⟨score, List.mem_cons_of_mem entry later⟩
    dsimp only [Scan.add] at first
    split at first
    · cases first
      exact .inl ⟨entry.2, .head _⟩
    · split at first <;> exact .inr first

end RssMdm.Lib.Champion
