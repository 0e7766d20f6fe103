/- module: Lib/Tiling
   generality: library
   digest: Segments that lie one after another, and the values they hold in order. -/

import Mathlib.Algebra.Order.Ring.Int
import Mathlib.Data.List.Basic

set_option autoImplicit false

namespace RssMdm.Lib

variable {σ β : Type*} (offset length : σ → ℕ)

/-- The segments fill the space from `pos` to `stop` in order, and none is empty. -/
def Tiled : ℕ → List σ → ℕ → Prop
  | pos, [], stop => pos = stop
  | pos, s :: rest, stop => offset s = pos ∧ 0 < length s ∧ Tiled (pos + length s) rest stop

/-- Every segment but the last has the full size. -/
def Chunked (size : ℕ) : List σ → Prop
  | [] => True
  | s :: rest => length s ≤ size ∧ (rest ≠ [] → length s = size) ∧ Chunked size rest

variable {offset length} {l : List σ} {stop : ℕ}

theorem tiled_snoc {pos : ℕ} {s : σ} :
    Tiled offset length pos (l ++ [s]) stop ↔
      Tiled offset length pos l (offset s) ∧ 0 < length s ∧ offset s + length s = stop := by
  induction l generalizing pos with
  | nil =>
    constructor
    · rintro ⟨rfl, pos, rfl⟩
      exact ⟨rfl, pos, rfl⟩
    · rintro ⟨rfl, pos, rfl⟩
      exact ⟨rfl, pos, rfl⟩
  | cons _ rest ih =>
    show _ ∧ _ ∧ Tiled offset length _ (rest ++ [s]) stop ↔ (_ ∧ _ ∧ Tiled offset length _ rest _) ∧ _
    rw [ih]
    tauto

theorem Tiled.stop_eq {pos : ℕ} (tiled : Tiled offset length pos l stop) :
    stop = pos + (l.map length).sum := by
  induction l generalizing pos with
  | nil => exact tiled.symm
  | cons _ _ ih => simpa [Nat.add_assoc] using ih tiled.2.2

theorem Tiled.last_stop (tiled : Tiled offset length 0 l stop) :
    (l.getLast?.map (fun s => offset s + length s)).getD 0 = stop := by
  rcases List.eq_nil_or_concat l with rfl | ⟨l, s, rfl⟩
  · exact tiled
  · simpa using (tiled_snoc.mp (by simpa using tiled)).2.2

theorem Tiled.pos {pos : ℕ} (tiled : Tiled offset length pos l stop) {s : σ} (mem : s ∈ l) :
    0 < length s := by
  induction l generalizing pos with
  | nil => cases mem
  | cons _ _ ih =>
    rcases List.mem_cons.mp mem with rfl | mem
    · exact tiled.2.1
    · exact ih tiled.2.2 mem

theorem Tiled.covered {pos here : ℕ} (tiled : Tiled offset length pos l stop) (values : σ → List β)
    (sized : ∀ s ∈ l, (values s).length = length s) (after : pos ≤ here) (before : here < stop) :
    ∃ s ∈ l, l.find? (fun s => offset s ≤ here ∧ here < offset s + length s) = some s ∧ offset s ≤ here ∧
      here < offset s + length s ∧ ∃ rest, (l.flatMap values).drop (here - pos) =
        (values s).drop (here - offset s) ++ rest := by
  induction l generalizing pos with
  | nil =>
    have : pos = stop := tiled
    omega
  | cons t rest ih =>
    obtain ⟨start, -, tiled⟩ := tiled
    have size := sized t (.head _)
    by_cases inside : here < pos + length t
    · have fits : here - pos ≤ (values t).length := by omega
      refine ⟨t, .head _, ?_, by omega, by omega, rest.flatMap values, ?_⟩
      · rw [List.find?_cons_of_pos]
        simp only [start, after, inside, and_self, decide_true]
      · rw [List.flatMap_cons, List.drop_append_of_le_length fits, start]
    · obtain ⟨s, mem, found, low, high, more, eq⟩ :=
        ih tiled (fun s mem => sized s (.tail _ mem)) (by omega)
      refine ⟨s, .tail _ mem, ?_, low, high, more, ?_⟩
      · rw [List.find?_cons_of_neg, found]
        simp only [start, inside, and_false, decide_false, Bool.false_eq_true, not_false_eq_true]
      · have past : here - pos = (values t).length + (here - (pos + length t)) := by omega
        rw [List.flatMap_cons, past, List.drop_length_add_append, eq]

variable {size : ℕ}

theorem chunked_snoc {s : σ} :
    Chunked length size (l ++ [s]) ↔ (∀ t ∈ l, length t = size) ∧ length s ≤ size := by
  induction l with
  | nil => simp [Chunked]
  | cons _ rest ih =>
    show _ ∧ (rest ++ [s] ≠ [] → _) ∧ Chunked length size (rest ++ [s]) ↔ _
    rw [ih, List.forall_mem_cons]
    constructor
    · rintro ⟨-, full, others, last⟩
      exact ⟨⟨full (by simp), others⟩, last⟩
    · rintro ⟨⟨full, others⟩, last⟩
      exact ⟨full.le, fun _ => full, others, last⟩

theorem chunked_of_full (full : ∀ t ∈ l, length t = size) : Chunked length size l := by
  rcases List.eq_nil_or_concat l with rfl | ⟨l, s, rfl⟩
  · trivial
  · rw [List.concat_eq_append] at full ⊢
    exact chunked_snoc.mpr ⟨fun t mem => full t (List.mem_append_left _ mem), (full s (by simp)).le⟩

theorem Chunked.le (chunked : Chunked length size l) {s : σ} (mem : s ∈ l) : length s ≤ size := by
  induction l with
  | nil => cases mem
  | cons _ _ ih =>
    rcases List.mem_cons.mp mem with rfl | mem
    · exact chunked.1
    · exact ih chunked.2.2 mem

theorem Chunked.getElem (chunked : Chunked length size l) {i : ℕ} {s : σ} (there : l[i]? = some s)
    (more : i + 1 < l.length) : length s = size := by
  induction l generalizing i with
  | nil => cases there
  | cons _ _ ih =>
    cases i with
    | zero =>
      cases there
      exact chunked.2.1 (by rintro rfl; simp at more)
    | succ => exact ih chunked.2.2 there (by simpa using more)

end RssMdm.Lib
