/- module: Inventory/SourcePolicy
   source: crates/inventory/src/assets.rs
   digest: A field is settled by its best sources alone, in whatever order the facts arrive. -/

import RssMdm.Inventory.ArrayResolution

set_option autoImplicit false

namespace RssMdm.Inventory

open Lib.Fallible Lib.KeySort

/-- A fact that takes part at the best priority. -/
def Foremost (d : FieldDefinition) (facts : Set SourceFact) (fact : SourceFact) : Prop :=
  fact ∈ facts ∧ fact.state.selectable = true ∧ ∃ p, d.sources.get? fact.evidence.source = some p ∧
    ∀ other ∈ facts, other.state.selectable = true →
      ∃ q, d.sources.get? other.evidence.source = some q ∧ p ≤ q

variable [Environment]

/-- The policy of a field, over facts without an order. -/
inductive Decides (d : FieldDefinition) (facts : Set SourceFact) : State → Prop where
  | unordered {f : SourceFact} : Foremost d facts f → f.state = .unknown .unorderedConflict →
      Decides d facts (.unknown .unorderedConflict)
  | unknown {f : SourceFact} : Foremost d facts f → f.state.isUnknown = true →
      (∀ g, Foremost d facts g → g.state ≠ .unknown .unorderedConflict) →
      Decides d facts (.unknown .nativeStatus)
  | conflict {f g : SourceFact} {s t : State} :
      (∀ e, Foremost d facts e → e.state.isUnknown = false) → Foremost d facts f →
      Foremost d facts g → canonicalState d f = .ok s → canonicalState d g = .ok t →
      s.same t = false → Decides d facts .conflict
  | agreed {f : SourceFact} {s : State} :
      (∀ e, Foremost d facts e → e.state.isUnknown = false) → Foremost d facts f →
      canonicalState d f = .ok s →
      (∀ g, Foremost d facts g → ∃ t, canonicalState d g = .ok t ∧ t.same s = true) →
      Decides d facts s
  | deleted {f : SourceFact} : (∀ e ∈ facts, e.state.selectable = false) → f ∈ facts →
      f.state = .deleted → Decides d facts .deleted
  | unsupported : facts.Nonempty → (∀ e ∈ facts, e.state = .unsupported) →
      Decides d facts .unsupported
  | missing : facts = ∅ → Decides d facts .missing

variable {d : FieldDefinition} {sources : List SourceFact} {state : State} {fact : SourceFact}

theorem checkFact_sourced (h : checkFact d fact = .ok ()) :
    ∃ p, d.sources.get? fact.evidence.source = some p := by
  obtain ⟨valid, -⟩ := of_check (of_check h).2
  obtain ⟨allowed, -⟩ := of_guard (of_check valid).2
  rw [Bool.not_eq_true', Bool.not_eq_false] at allowed
  exact Option.isSome_iff_exists.mp allowed

theorem checkFact_unselectable (h : checkFact d fact = .ok ())
    (idle : fact.state.selectable = false) : fact.state = .deleted ∨ fact.state = .unsupported := by
  obtain ⟨valid, -⟩ := of_check (of_check (of_check h).2).2
  rw [checkState] at valid
  cases form : fact.state <;> simp_all [State.selectable]

omit [Environment] in
theorem mem_competing
    (sourced : ∀ f ∈ sources, ∃ p, d.sources.get? f.evidence.source = some p) :
    fact ∈ competing d sources ↔ Foremost d {f | f ∈ sources} fact := by
  rw [competing, List.mem_filter, Bool.and_eq_true, decide_eq_true_eq]
  refine and_congr_right fun mem => and_congr_right fun live => ?_
  obtain ⟨p, found⟩ := sourced fact mem
  rw [found, eq_comm, selectedPriority, List.min?_eq_some_iff]
  simp only [List.mem_filterMap, List.mem_filter, Option.some.injEq, exists_eq_left']
  constructor
  · rintro ⟨-, least⟩ other inside selectable
    obtain ⟨q, given⟩ := sourced other inside
    exact ⟨q, given, least q ⟨other, ⟨inside, selectable⟩, given⟩⟩
  · intro least
    refine ⟨⟨fact, ⟨mem, live⟩, found⟩, ?_⟩
    rintro q ⟨other, ⟨inside, selectable⟩, given⟩
    obtain ⟨q', given', better⟩ := least other inside selectable
    cases given.symm.trans given'
    exact better

theorem canonicalState_unknown (h : canonicalState d fact = .ok state) :
    (state.isUnknown = true ↔ fact.state.isUnknown = true) ∧
      (state.isUnordered = true ↔ fact.state = .unknown .unorderedConflict) := by
  rw [canonicalState] at h
  cases form : fact.state with
  | known =>
    rw [form] at h
    obtain ⟨c, -, rfl⟩ := map_eq_ok.mp h
    simp [State.isUnknown, State.isUnordered]
  | unknown reason =>
    rw [form] at h
    cases h
    cases reason <;> simp [State.isUnknown, State.isUnordered]
  | _ =>
    rw [form] at h
    cases h
    simp [State.isUnknown, State.isUnordered]

omit [Environment] in
theorem unselectable_of_competing (none : competing d sources = [])
    (sourced : ∀ f ∈ sources, ∃ p, d.sources.get? f.evidence.source = some p) :
    ∀ f ∈ sources, f.state.selectable = false := by
  intro f mem
  by_contra live
  rw [Bool.not_eq_false] at live
  obtain ⟨p, found⟩ := sourced f mem
  cases best : selectedPriority d sources with
  | none =>
    rw [selectedPriority, List.min?_eq_none_iff, List.filterMap_eq_nil_iff] at best
    cases found.symm.trans (best f (List.mem_filter.mpr ⟨mem, live⟩))
  | some q =>
    obtain ⟨chosen, -⟩ := List.min?_eq_some_iff.mp best
    obtain ⟨g, inside, given⟩ := List.mem_filterMap.mp chosen
    obtain ⟨inside, selectable⟩ := List.mem_filter.mp inside
    have competes : g ∈ competing d sources :=
      List.mem_filter.mpr ⟨inside, by rw [selectable, given, best]; simp⟩
    rw [none] at competes
    cases competes

theorem resolveState_decides (h : resolveState d sources = .ok state) :
    Decides d {f | f ∈ sources} state := by
  have checked := resolveState_checked h
  have sourced := fun f mem => checkFact_sourced (checked f mem)
  obtain ⟨-, h⟩ := of_guard h
  obtain ⟨-, h⟩ := of_check h
  obtain ⟨-, h⟩ := of_guard h
  obtain ⟨-, h⟩ := of_check h
  obtain ⟨values, forms, h⟩ := of_bind h
  cases h
  have forms := mapM_eq_ok.mp forms
  have led : ∀ s ∈ values, ∃ f, Foremost d {f | f ∈ sources} f ∧ canonicalState d f = .ok s := by
    intro s mem
    obtain ⟨f, competes, form⟩ := exists_left_of_mem forms mem
    exact ⟨f, (mem_competing sourced).mp competes, form⟩
  have valued : ∀ f, Foremost d {f | f ∈ sources} f → ∃ s ∈ values, canonicalState d f = .ok s :=
    fun f leads => exists_right_of_mem forms ((mem_competing sourced).mpr leads)
  cases values with
  | nil =>
    have idle := unselectable_of_competing (List.forall₂_nil_right_iff.mp forms) sourced
    have rest := fun f mem => checkFact_unselectable (checked f mem) (idle f mem)
    rw [settle]
    split
    · rename_i some
      obtain ⟨f, mem, is⟩ := List.any_eq_true.mp some
      refine .deleted idle mem ?_
      cases rest f mem with
      | inl deleted => exact deleted
      | inr unsupported =>
        rw [unsupported] at is
        cases is
    · rename_i undeleted
      have all : ∀ f ∈ sources, f.state = .unsupported := by
        intro f mem
        refine (rest f mem).resolve_left fun deleted => undeleted ?_
        exact List.any_eq_true.mpr ⟨f, mem, by rw [deleted]; rfl⟩
      split
      · rename_i some
        obtain ⟨f, mem, -⟩ := List.any_eq_true.mp some
        exact .unsupported ⟨f, mem⟩ all
      · rename_i none
        refine .missing (Set.eq_empty_of_forall_notMem fun f mem => none ?_)
        exact List.any_eq_true.mpr ⟨f, mem, by rw [all f mem]; rfl⟩
  | cons first rest =>
    obtain ⟨f, leads, form⟩ := led first (.head _)
    rw [settle]
    split
    · rename_i some
      obtain ⟨s, mem, unknown⟩ := List.any_eq_true.mp some
      split
      · rename_i unordered
        obtain ⟨s, mem, unordered⟩ := List.any_eq_true.mp unordered
        obtain ⟨g, leads, form⟩ := led s mem
        exact .unordered leads ((canonicalState_unknown form).2.mp unordered)
      · rename_i ordered
        obtain ⟨g, leads, form⟩ := led s mem
        refine .unknown leads ((canonicalState_unknown form).1.mp unknown) ?_
        intro e leads is
        obtain ⟨t, mem, form⟩ := valued e leads
        exact ordered (List.any_eq_true.mpr ⟨t, mem, (canonicalState_unknown form).2.mpr is⟩)
    · rename_i none
      have known : ∀ e, Foremost d {f | f ∈ sources} e → e.state.isUnknown = false := by
        intro e leads
        obtain ⟨t, mem, form⟩ := valued e leads
        by_contra unknown
        rw [Bool.not_eq_false, ← (canonicalState_unknown form).1] at unknown
        exact none (List.any_eq_true.mpr ⟨t, mem, unknown⟩)
      split
      · rename_i differ
        obtain ⟨t, mem, apart⟩ := List.any_eq_true.mp differ
        obtain ⟨g, leads', form'⟩ := led t mem
        exact .conflict known leads' leads form' form (Bool.not_eq_true' _ ▸ apart)
      · rename_i alike
        refine .agreed known leads form ?_
        intro g leads
        obtain ⟨t, mem, form⟩ := valued g leads
        refine ⟨t, form, ?_⟩
        by_contra apart
        exact alike (List.any_eq_true.mpr ⟨t, mem, by simp [apart]⟩)

/-- The policy decides, and neither the state nor an error depends on the order of the facts. -/
theorem source_policy (d : FieldDefinition) :
    (∀ facts out, resolve d facts = .ok out →
      out.sources.Perm facts ∧ Decides d {f | f ∈ facts} out.state) ∧
    (∀ facts out, resolveDevice d facts = .ok out →
      out.sources.Perm facts ∧ Decides d {f | ∃ s ∈ facts, s.fact = f} out.state) ∧
    (∀ facts facts' : List SourceFact, facts.Perm facts' → resolve d facts = resolve d facts') ∧
    ∀ facts facts' : List EndpointSourceFact, facts.Perm facts' →
      resolveDevice d facts = resolveDevice d facts' := by
  refine ⟨?_, ?_, ?_, ?_⟩
  · intro facts out h
    obtain ⟨-, h⟩ := of_guard h
    obtain ⟨-, h⟩ := of_guard h
    obtain ⟨state, settled, h⟩ := of_bind h
    cases h
    have perm := List.perm_insertionSort (fun a b : SourceFact => a.key ≤ b.key) facts
    have decided := resolveState_decides settled
    simp only [perm.mem_iff] at decided
    exact ⟨perm, decided⟩
  · intro facts out h
    obtain ⟨-, h⟩ := of_guard h
    obtain ⟨-, h⟩ := of_guard h
    obtain ⟨state, settled, h⟩ := of_bind h
    cases h
    have perm := List.perm_insertionSort (fun a b : EndpointSourceFact => a.key ≤ b.key) facts
    have decided := resolveState_decides settled
    simp only [List.mem_map, perm.mem_iff] at decided
    exact ⟨perm, decided⟩
  · intro facts facts' perm
    obtain ⟨same, sorted⟩ := sort_perm SourceFact.key perm
    simp only [resolve, perm.length_eq, same]
    cases apart : adjacentEqual SourceFact.key
        (facts'.insertionSort fun a b => a.key ≤ b.key) with
    | true => rfl
    | false => rw [sorted (same.trans apart)]
  · intro facts facts' perm
    obtain ⟨same, sorted⟩ := sort_perm EndpointSourceFact.key perm
    simp only [resolveDevice, perm.any_eq, same]
    cases apart : adjacentEqual EndpointSourceFact.key
        (facts'.insertionSort fun a b => a.key ≤ b.key) with
    | true => rfl
    | false => rw [sorted (same.trans apart)]

end RssMdm.Inventory
