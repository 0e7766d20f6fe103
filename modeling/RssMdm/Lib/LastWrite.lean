/- module: Lib/LastWrite
   generality: library
   digest: Writes over a map, each touching any set of keys; a key has what its last write left. -/

import Mathlib.Data.List.Basic

set_option autoImplicit false

namespace RssMdm.Lib.LastWrite

variable {κ ω ν : Type} (touch : ω → κ → Option ν)

/-- What a write leaves at each key: its own value where it touches one. -/
def apply (m : κ → ν) (w : ω) : κ → ν := fun k => (touch w k).getD (m k)

def applyAll (m : κ → ν) (ws : List ω) : κ → ν := ws.foldl (apply touch) m

variable {touch}

theorem applyAll_cons (m : κ → ν) (w : ω) (ws : List ω) :
    applyAll touch m (w :: ws) = applyAll touch (apply touch m w) ws := rfl

theorem applyAll_append (m : κ → ν) (ws later : List ω) :
    applyAll touch m (ws ++ later) = applyAll touch (applyAll touch m ws) later := by
  rw [applyAll, List.foldl_append]
  rfl

theorem applyAll_untouched {m : κ → ν} {ws : List ω} {k : κ}
    (untouched : ∀ w ∈ ws, touch w k = none) : applyAll touch m ws k = m k := by
  induction ws generalizing m with
  | nil => rfl
  | cons w _ ih =>
    have first : apply touch m w k = m k := by
      rw [apply, untouched w (.head _), Option.getD_none]
    rw [applyAll_cons, ih fun later member => untouched later (List.mem_cons_of_mem w member),
      first]

theorem applyAll_last {m : κ → ν} {before after : List ω} {w : ω} {k : κ} {v : ν}
    (touched : touch w k = some v) (untouched : ∀ later ∈ after, touch later k = none) :
    applyAll touch m (before ++ w :: after) k = v := by
  have left : apply touch (applyAll touch m before) w k = v := by
    rw [apply, touched, Option.getD_some]
  calc applyAll touch m (before ++ w :: after) k
      = applyAll touch (apply touch (applyAll touch m before) w) after k := by
        rw [applyAll_append, applyAll_cons]
    _ = v := (applyAll_untouched untouched).trans left

theorem exists_last {ws : List ω} {k : κ} (touched : ∃ w ∈ ws, (touch w k).isSome) :
    ∃ before w after v, ws = before ++ w :: after ∧ touch w k = some v ∧
      ∀ later ∈ after, touch later k = none := by
  induction ws with
  | nil =>
    obtain ⟨w, member, -⟩ := touched
    exact nomatch member
  | cons first ws ih =>
    by_cases later : ∃ w ∈ ws, (touch w k).isSome
    · obtain ⟨before, w, after, v, rfl, value, untouched⟩ := ih later
      exact ⟨first :: before, w, after, v, rfl, value, untouched⟩
    have untouched : ∀ w ∈ ws, touch w k = none := by
      intro w member
      by_contra some
      exact later ⟨w, member, Option.isSome_iff_ne_none.mpr some⟩
    obtain ⟨w, member, some⟩ := touched
    rcases List.mem_cons.mp member with rfl | member
    · obtain ⟨v, value⟩ := Option.isSome_iff_exists.mp some
      exact ⟨[], w, ws, v, rfl, value, untouched⟩
    · exact absurd ⟨w, member, some⟩ later

end RssMdm.Lib.LastWrite
