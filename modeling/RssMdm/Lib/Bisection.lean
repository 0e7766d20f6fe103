/- module: Lib/Bisection
   generality: library
   digest: Binary search for the last admissible position that an attempt accepts. -/

import RssMdm.Lib.Fallible

set_option autoImplicit false

namespace RssMdm.Lib.Bisection

open Lib.Fallible

section

variable (admissible : Nat → Bool)

/-- The last admissible position up to the given one; zero always counts. -/
def snap : Nat → Nat
  | 0 => 0
  | n + 1 => if admissible (n + 1) then n + 1 else snap n

variable {admissible}

theorem snap_le (n : Nat) : snap admissible n ≤ n := by
  induction n with
  | zero => exact Nat.le_refl 0
  | succ =>
    rw [snap]
    split
    · exact Nat.le_refl _
    · omega

theorem admissible_snap (zero : admissible 0 = true) (n : Nat) :
    admissible (snap admissible n) = true := by
  induction n with
  | zero => exact zero
  | succ _ ih =>
    rw [snap]
    split
    · assumption
    · exact ih

theorem le_snap {e n : Nat} (he : admissible e = true) (bound : e ≤ n) : e ≤ snap admissible n := by
  induction n with
  | zero => exact bound
  | succ n ih =>
    rw [snap]
    split
    · exact bound
    rename_i refused
    have other : e ≠ n + 1 := by
      rintro rfl
      exact refused he
    exact ih (by omega)

end

variable {ε β : Type} (admissible : Nat → Bool) (offset : Nat) (attempt : Nat → Except ε (Option β))

/-- The loop; an attempt answers with a result, refuses the position, or fails altogether. Every
round narrows the interval, so its length bounds the rounds. -/
def search : Nat → Nat → Nat → Option β → Except ε (Option β)
  | 0, _, _, best => .ok best
  | fuel + 1, low, high, best =>
      if low ≤ high then
        let midpoint := low + (high - low) / 2
        let stop := snap admissible midpoint
        if stop ≤ offset then search fuel (midpoint + 1) high best
        else do
          match ← attempt stop with
          | some found => search fuel (midpoint + 1) high (some found)
          | none => search fuel low (stop - 1) best
      else .ok best

variable {admissible offset attempt}

/-- The loop leaves after so many rounds, with this answer. -/
inductive Exits (admissible : Nat → Bool) (offset : Nat) (attempt : Nat → Except ε (Option β)) :
    Nat → Nat → Nat → Option β → Except ε (Option β) → Prop where
  | ended {low high : Nat} {best : Option β} (past : high < low) :
      Exits admissible offset attempt 0 low high best (.ok best)
  | early {rounds low high stop : Nat} {best : Option β} {answer : Except ε (Option β)}
      (inside : low ≤ high) (snapped : stop = snap admissible (low + (high - low) / 2))
      (before : stop ≤ offset)
      (later : Exits admissible offset attempt rounds (low + (high - low) / 2 + 1) high best answer) :
      Exits admissible offset attempt (rounds + 1) low high best answer
  | failed {low high stop : Nat} {best : Option β} {e : ε} (inside : low ≤ high)
      (snapped : stop = snap admissible (low + (high - low) / 2)) (after : offset < stop)
      (tried : attempt stop = .error e) :
      Exits admissible offset attempt 1 low high best (.error e)
  | accepted {rounds low high stop : Nat} {best : Option β} {found : β}
      {answer : Except ε (Option β)} (inside : low ≤ high)
      (snapped : stop = snap admissible (low + (high - low) / 2)) (after : offset < stop)
      (tried : attempt stop = .ok (some found))
      (later : Exits admissible offset attempt rounds (low + (high - low) / 2 + 1) high (some found)
        answer) :
      Exits admissible offset attempt (rounds + 1) low high best answer
  | refused {rounds low high stop : Nat} {best : Option β} {answer : Except ε (Option β)}
      (inside : low ≤ high) (snapped : stop = snap admissible (low + (high - low) / 2))
      (after : offset < stop) (tried : attempt stop = .ok none)
      (later : Exits admissible offset attempt rounds low (stop - 1) best answer) :
      Exits admissible offset attempt (rounds + 1) low high best answer

theorem search_exits {fuel low high : Nat} (enough : high + 1 - low ≤ fuel) (best : Option β) :
    ∃ rounds ≤ fuel, Exits admissible offset attempt rounds low high best
      (search admissible offset attempt fuel low high best) := by
  induction fuel generalizing low high best with
  | zero => exact ⟨0, Nat.le_refl 0, .ended (by omega)⟩
  | succ fuel ih =>
    rw [search]
    have back : snap admissible (low + (high - low) / 2) ≤ low + (high - low) / 2 := snap_le _
    by_cases inside : low ≤ high
    · rw [if_pos inside]
      have upper : high + 1 - (low + (high - low) / 2 + 1) ≤ fuel := by omega
      by_cases early : snap admissible (low + (high - low) / 2) ≤ offset
      · simp only [if_pos early]
        obtain ⟨rounds, few, later⟩ := ih upper best
        exact ⟨rounds + 1, Nat.succ_le_succ few, .early inside rfl early later⟩
      simp only [if_neg early]
      have after := Nat.lt_of_not_le early
      cases tried : attempt (snap admissible (low + (high - low) / 2)) with
      | error => exact ⟨1, by omega, .failed inside rfl after tried⟩
      | ok answer =>
        cases answer with
        | some found =>
          obtain ⟨rounds, few, later⟩ := ih upper (some found)
          exact ⟨rounds + 1, Nat.succ_le_succ few, .accepted inside rfl after tried later⟩
        | none =>
          have narrower : snap admissible (low + (high - low) / 2) - 1 + 1 - low ≤ fuel := by
            omega
          obtain ⟨rounds, few, later⟩ := ih narrower best
          exact ⟨rounds + 1, Nat.succ_le_succ few, .refused inside rfl after tried later⟩
    · rw [if_neg inside]
      exact ⟨0, Nat.zero_le _, .ended (Nat.lt_of_not_le inside)⟩

/-- What the search knows: below `low` the best position is the last one, above `high` nothing is
accepted. -/
structure Narrowed (admissible : Nat → Bool) (offset : Nat) (attempt : Nat → Except ε (Option β))
    (top low high : Nat) (best : Option β) : Prop where
  above : ∀ e found, admissible e = true → high < e → e ≤ top → attempt e ≠ .ok (some found)
  empty : best = none → ∀ e, admissible e = true → offset < e → ¬e < low
  held : ∀ found, best = some found → ∃ e, admissible e = true ∧ offset < e ∧ e < low ∧
    e ≤ top ∧ attempt e = .ok (some found) ∧ ∀ e', admissible e' = true → e < e' → ¬e' < low

theorem Narrowed.last {top low high : Nat} {found : β}
    (known : Narrowed admissible offset attempt top low high (some found)) (past : high < low) :
    ∃ e, admissible e = true ∧ offset < e ∧ e ≤ top ∧ attempt e = .ok (some found) ∧
      ∀ e' found', admissible e' = true → e < e' → e' ≤ top → attempt e' ≠ .ok (some found') := by
  obtain ⟨e, he, after, -, bounded, accepted, next⟩ := known.held found rfl
  refine ⟨e, he, after, bounded, accepted, ?_⟩
  intro e' found' he' later bounded'
  have beyond : ¬e' < low := next e' he' later
  exact known.above e' found' he' (by omega) bounded'

theorem search_last {top : Nat} (zero : admissible 0 = true)
    (closed : ∀ e e' found, admissible e = true → admissible e' = true → offset < e → e ≤ e' →
      e' ≤ top → attempt e' = .ok (some found) → attempt e ≠ .ok none)
    {fuel low high : Nat} (enough : high + 1 - low ≤ fuel) (bounded : high ≤ top)
    {best : Option β} {found : β}
    (known : Narrowed admissible offset attempt top low high best)
    (h : search admissible offset attempt fuel low high best = .ok (some found)) :
    ∃ e, admissible e = true ∧ offset < e ∧ e ≤ top ∧ attempt e = .ok (some found) ∧
      ∀ e' found', admissible e' = true → e < e' → e' ≤ top → attempt e' ≠ .ok (some found') := by
  induction fuel generalizing low high best with
  | zero =>
    cases h
    exact known.last (by omega)
  | succ _ ih =>
    rw [search] at h
    by_cases inside : low ≤ high
    · rw [if_pos inside] at h
      simp only at h
      have lower : low ≤ low + (high - low) / 2 := by omega
      have upper : low + (high - low) / 2 ≤ high := by omega
      generalize low + (high - low) / 2 = midpoint at h lower upper
      have back : snap admissible midpoint ≤ midpoint := snap_le _
      have start := admissible_snap zero midpoint
      have nearest : ∀ e, admissible e = true → e < midpoint + 1 → e ≤ snap admissible midpoint :=
        fun e he bound => le_snap he (by omega)
      by_cases early : snap admissible midpoint ≤ offset
      · rw [if_pos early] at h
        apply ih (by omega) bounded _ h
        have none : ∀ e, admissible e = true → offset < e → ¬e < midpoint + 1 := by
          intro e he after less
          have := nearest e he less
          omega
        refine ⟨known.above, fun _ => none, ?_⟩
        intro found' held
        obtain ⟨e, he, after, less, -⟩ := known.held found' held
        exact absurd (by omega) (none e he after)
      · rw [if_neg early] at h
        obtain ⟨answer, tried, h⟩ := of_bind h
        cases answer with
        | some =>
          apply ih (by omega) bounded _ h
          refine ⟨known.above, nofun, ?_⟩
          rintro _ ⟨rfl⟩
          refine ⟨snap admissible midpoint, start, by omega, by omega, by omega, tried, ?_⟩
          intro e he later less
          have := nearest e he less
          omega
        | none =>
          apply ih (by omega) (by omega) _ h
          refine ⟨?_, known.empty, known.held⟩
          intro e found' he above within
          by_cases past : high < e
          · exact known.above e found' he past within
          · intro accepted
            exact closed _ e found' start he (by omega) (by omega) within accepted tried
    · rw [if_neg inside] at h
      cases h
      exact known.last (by omega)

end RssMdm.Lib.Bisection
