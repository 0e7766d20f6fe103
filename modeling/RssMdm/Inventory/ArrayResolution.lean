/- module: Inventory/ArrayResolution
   source: crates/inventory/src/array.rs, crates/inventory/src/assets.rs
   digest: Summaries resolve as their values do, unless two values differ in the sign of a zero. -/

import RssMdm.Inventory.Arrays
import RssMdm.Inventory.Publication

set_option autoImplicit false

namespace RssMdm.Inventory

open Lib Lib.Fallible Lib.Int64 Lib.KeySort

section

variable [Environment]

omit [Environment] in
theorem Scalar.finiteAll_iff {vs : List Scalar} : Scalar.FiniteAll vs ↔ ∀ v ∈ vs, v.Finite := by
  induction vs with
  | nil => simp [Scalar.FiniteAll]
  | cons _ _ ih => rw [Scalar.FiniteAll, ih, List.forall_mem_cons]

theorem canonicalValue_array {d : FieldDefinition} {itemType : ValueType} {maxItems : UInt32}
    (type : d.valueType = .array itemType maxItems) {v : Scalar} (valid : d.validateScalar v = .ok ()) :
    ∃ items, d.canonicalValue v = .ok (.array items) ∧ items.length ≤ maxItems.toNat ∧
      (Scalar.array items).Finite := by
  obtain ⟨-, checks⟩ := of_guard valid
  obtain ⟨typed, checks⟩ := of_check checks
  obtain ⟨canonical, hardware, -⟩ := of_bind checks
  have finite := Scalar.validate_finite (ValueType.validateValue_valid typed)
  rw [type] at typed
  cases v with
  | array items =>
    obtain ⟨-, itemType', maxItems', same, fits⟩ := ValueType.validateValue_array typed
    cases same
    cases FieldDefinition.hardwareValue_array hardware
    unfold FieldDefinition.canonicalValue
    rw [hardware, ok_bind]
    simp only [Option.map_none, Option.getD_none, valid, ok_bind]
    cases d.itemKey with
    | none => exact ⟨items, rfl, fits, finite⟩
    | some key =>
      have perm : (sortItems key items).Perm items := List.perm_insertionSort _ items
      refine ⟨sortItems key items, rfl, perm.length_eq ▸ fits, ?_⟩
      refine Scalar.finiteAll_iff.mpr ?_
      intro item mem
      exact Scalar.finiteAll_iff.mp finite item (perm.mem_iff.mp mem)
  | _ => simp [ValueType.validateValue, check_bind_eq_ok] at typed

end

section

variable [Environment]

structure Summary (v : Scalar) (a : ArrayValue) : Prop where
  count : ∃ items, v = .array items ∧ a.count = items.length
  bytes : a.bytes = v.toVec.length
  digest : a.digest = hexDigest v.toVec

/-- What is stored for a list: the metadata of its canonical form, under some version. -/
def Stored (d : FieldDefinition) (v : Scalar) (a : ArrayValue) : Prop :=
  ∃ c, d.canonicalValue v = .ok c ∧ Summary c a ∧ isHash a.version = true

end

inductive StateSummary (R : Scalar → ArrayValue → Prop) : State → ArrayState → Prop where
  | unknown (reason : UnknownReason) : StateSummary R (.unknown reason) (.unknown reason)
  | known {v : Scalar} {a : ArrayValue} (value : R v a) : StateSummary R (.known v) (.known a)
  | null : StateSummary R .null .null
  | missing : StateSummary R .missing .missing
  | unsupported : StateSummary R .unsupported .unsupported
  | deleted : StateSummary R .deleted .deleted
  | conflict : StateSummary R .conflict .conflict

variable {R : Scalar → ArrayValue → Prop} {s : State} {a : ArrayState}

theorem StateSummary.selectable (h : StateSummary R s a) : s.selectable = a.selectable := by
  cases h <;> rfl

theorem StateSummary.isUnknown (h : StateSummary R s a) : s.isUnknown = a.isUnknown := by
  cases h <;> rfl

theorem StateSummary.isUnordered (h : StateSummary R s a) : s.isUnordered = a.isUnordered := by
  cases h with
  | unknown reason => cases reason <;> rfl
  | _ => rfl

theorem StateSummary.deleted_iff (h : StateSummary R s a) :
    s.same .deleted = a.same .deleted := by
  cases h <;> rfl

theorem StateSummary.unsupported_iff (h : StateSummary R s a) :
    s.same .unsupported = a.same .unsupported := by
  cases h <;> rfl

section

variable [Environment]

structure KnownSummary (d : FieldDefinition) (k : KnownValue) (k' : ArrayKnownValue) : Prop where
  value : Stored d k.value k'.value
  evidence : k.evidence = k'.evidence

/-- A fact with its array values, current and last known, replaced by their metadata. -/
structure FactSummary (d : FieldDefinition) (fact : SourceFact) (array : ArrayFact) : Prop where
  state : StateSummary (Stored d) fact.state array.state
  lastKnown : Option.Rel (KnownSummary d) fact.lastKnown array.lastKnown
  evidence : fact.evidence = array.evidence

structure EndpointSummary (d : FieldDefinition) (s : EndpointSourceFact) (a : EndpointArrayFact) :
    Prop where
  endpoint : s.endpoint = a.endpoint
  fact : FactSummary d s.fact a.fact

theorem FactSummary.key {d : FieldDefinition} {fact : SourceFact} {array : ArrayFact}
    (h : FactSummary d fact array) : fact.key = array.key := by
  rw [SourceFact.key, ArrayFact.key, h.evidence]

theorem EndpointSummary.key {d : FieldDefinition} {s : EndpointSourceFact} {a : EndpointArrayFact}
    (h : EndpointSummary d s a) : s.key = a.key := by
  rw [EndpointSourceFact.key, EndpointArrayFact.key, h.endpoint, h.fact.key]

end

section

variable [Environment]

omit [Environment] in
theorem hexDigest_isHash (bytes : List UInt8) : isHash (hexDigest bytes) = true := by
  obtain ⟨-, digits⟩ := hexDigest_text bytes
  have size := hexDigest_hexDigits bytes
  rw [hexDigits, Bool.and_eq_true] at size
  rw [isHash, Bool.and_eq_true, List.all_eq_true]
  exact ⟨size.1, digits⟩

omit [Environment] in
theorem write_tagged_array (items : List Json.Json) :
    (Json.write (tagged "array" (.array items))).length =
      25 + (Json.write (.array items)).length := by
  have kind : (Json.quoted "kind").length = 6 := by decide
  have name : (Json.quoted "array").length = 7 := by decide
  have value : (Json.quoted "value").length = 7 := by decide
  simp only [tagged, Json.write, Json.writeMembers, List.length_cons, List.length_append, kind, name,
    value, List.length_nil]
  omega

theorem toVec_array (items : List Scalar) : 27 ≤ (Scalar.array items).toVec.length ∧
    (items = [] → (Scalar.array items).toVec.length = 27) := by
  constructor
  · have brackets : 2 ≤ (Json.write (.array (Scalar.jsonAll items))).length := by
      cases Scalar.jsonAll items with
      | nil => exact Nat.le_refl 2
      | cons _ rest =>
        cases rest with
        | nil => simp [Json.write, Json.writeItems]
        | cons =>
          simp only [Json.write, Json.writeItems, List.length_cons, List.length_append]
          omega
    have written := write_tagged_array (Scalar.jsonAll items)
    have encoded := Json.length_le_bytes (tagged "array" (.array (Scalar.jsonAll items)))
    rw [Scalar.toVec, Scalar.json]
    omega
  · rintro rfl
    have empty : (Scalar.array []).json = tagged "array" (.array []) := by
      rw [Scalar.json, Scalar.jsonAll]
    rw [Scalar.toVec, empty]
    decide

theorem Stored.valid {d : FieldDefinition} {itemType : ValueType} {maxItems : UInt32}
    (type : d.valueType = .array itemType maxItems) {v : Scalar} {a : ArrayValue} (stored : Stored d v a)
    (valid : d.validateScalar v = .ok ()) : validateArrayValue d a = .ok () := by
  obtain ⟨c, canonical, ⟨⟨items, rfl, count⟩, bytes, digest⟩, version⟩ := stored
  obtain ⟨items', canonical', fits, -⟩ := canonicalValue_array type valid
  cases canonical.symm.trans canonical'
  obtain ⟨least, empty⟩ := toVec_array items
  unfold validateArrayValue
  rw [type]
  simp only
  rw [if_neg]
  rw [not_or, not_or, not_or, not_or, version, digest, hexDigest_isHash, bytes, count]
  refine ⟨not_lt.mpr fits, not_lt.mpr least, Bool.false_ne_true, Bool.false_ne_true, ?_⟩
  rintro ⟨none, other⟩
  exact other (empty (List.length_eq_zero_iff.mp none))

variable {d : FieldDefinition} {maxItems : UInt32} {itemType : ValueType} {fact : SourceFact}

theorem FactSummary.checkState (type : d.valueType = .array itemType maxItems) {array : ArrayFact}
    (h : FactSummary d fact array) (checked : checkState d fact = .ok ()) :
    checkArrayState d array = .ok () := by
  unfold Inventory.checkState at checked
  unfold checkArrayState
  rw [h.evidence] at checked
  have related := h.state
  generalize fact.state = s at related checked
  generalize array.state = a at related
  cases related with
  | known stored => exact stored.valid type checked
  | unknown => rfl
  | null | missing | unsupported => exact checked
  | deleted => rfl
  | conflict => exact checked

theorem FactSummary.checkLastKnown (type : d.valueType = .array itemType maxItems)
    {array : ArrayFact} (h : FactSummary d fact array) (checked : checkLastKnown d fact = .ok ()) :
    checkArrayLastKnown d array = .ok () := by
  unfold Inventory.checkLastKnown at checked
  unfold checkArrayLastKnown
  rw [h.evidence] at checked
  have related := h.lastKnown
  generalize fact.lastKnown = k at related checked
  generalize array.lastKnown = k' at related
  cases related with
  | none => rfl
  | some known =>
    obtain ⟨valid, checked⟩ := of_check checked
    obtain ⟨evidence, checked⟩ := of_check checked
    obtain ⟨same, -⟩ := of_guard checked
    rw [known.evidence] at evidence same
    rw [not_not] at same
    simp only [Prod.mk.injEq, Source.asStr_injective.eq_iff] at same
    simp only [known.value.valid type valid, evidence, ok_bind]
    rw [if_neg]
    rw [not_not]
    simp only [Prod.mk.injEq]
    exact same

variable {sources : List SourceFact}

omit [Environment] in
theorem scope_of_not_mixed (same : mixedScopes (sources.map (fun s => s.evidence.scope)) = false)
    {first : SourceFact} (head : sources.head? = some first) (mem : fact ∈ sources) :
    first.evidence.scope = fact.evidence.scope := by
  cases sources with
  | nil => cases head
  | cons s rest =>
    cases head
    have listed : fact.evidence.scope ∈ (first :: rest).map (fun s => s.evidence.scope) :=
      List.mem_map.mpr ⟨fact, mem, rfl⟩
    simp only [mixedScopes, List.map_cons, List.head?_cons, Option.any_some, List.any_eq_false,
      decide_eq_true_eq, not_not] at same listed
    exact (same _ listed).symm

theorem checkArrayFacts (type : d.valueType = .array itemType maxItems) {arrays : List ArrayFact}
    (h : List.Forall₂ (FactSummary d) sources arrays)
    (same : mixedScopes (sources.map (fun s => s.evidence.scope)) = false)
    (checked : each (checkFact d) sources = .ok ()) :
    each (checkArrayFact d arrays.head?) arrays = .ok () := by
  rw [each_eq_ok] at checked ⊢
  intro array mem
  obtain ⟨fact, source, summary⟩ := exists_left_of_mem h mem
  obtain ⟨-, passed⟩ := of_check (checked fact source)
  obtain ⟨evidence, passed⟩ := of_check passed
  obtain ⟨state, lastKnown⟩ := of_check passed
  unfold checkArrayFact
  rw [← summary.evidence, evidence, ok_bind, if_neg, summary.checkState type state, ok_bind,
    summary.checkLastKnown type lastKnown]
  rw [Bool.not_eq_true, ← Bool.not_eq_true, Option.any_eq_true]
  rintro ⟨first, head, other⟩
  cases h with
  | nil => cases head
  | @cons _ _ _ _ summary₀ =>
    cases head
    rw [decide_eq_true_eq, ← summary₀.evidence] at other
    exact other (scope_of_not_mixed same rfl source)

end

section

variable [Environment] {d : FieldDefinition} {sources : List SourceFact} {arrays : List ArrayFact}

theorem forall₂_filter {p : SourceFact → Bool} {q : ArrayFact → Bool}
    (agree : ∀ s a, FactSummary d s a → p s = q a)
    (h : List.Forall₂ (FactSummary d) sources arrays) :
    List.Forall₂ (FactSummary d) (sources.filter p) (arrays.filter q) := by
  apply List.rel_filter (R := FactSummary d) _ h
  intro s a summary
  show p s = true ↔ q a = true
  rw [agree s a summary]

theorem priority_eq (h : List.Forall₂ (FactSummary d) sources arrays) :
    selectedPriority d sources = arrayPriority d arrays := by
  have selected := forall₂_filter (fun s a summary => summary.state.selectable) h
  unfold selectedPriority arrayPriority
  congr 1
  generalize sources.filter (fun s => s.state.selectable) = chosen at selected
  generalize arrays.filter (fun s => s.state.selectable) = chosen' at selected
  induction selected with
  | nil => rfl
  | cons summary _ ih => rw [List.filterMap_cons, List.filterMap_cons, summary.evidence, ih]

theorem canonicalState_summary {s : SourceFact} {a : ArrayFact} (summary : FactSummary d s a)
    {state : State} (canonical : canonicalState d s = .ok state) :
    StateSummary Summary state a.state := by
  have related := summary.state
  unfold canonicalState at canonical
  generalize s.state = current at related canonical
  generalize a.state = metadata at related
  cases related with
  | known stored =>
    obtain ⟨c, form, summary, -⟩ := stored
    simp only [form] at canonical
    cases canonical
    exact .known summary
  | unknown reason =>
    cases canonical
    exact .unknown reason
  | null =>
    cases canonical
    exact .null
  | missing =>
    cases canonical
    exact .missing
  | unsupported =>
    cases canonical
    exact .unsupported
  | deleted =>
    cases canonical
    exact .deleted
  | conflict =>
    cases canonical
    exact .conflict

theorem values_related (h : List.Forall₂ (FactSummary d) sources arrays) {values : List State}
    (canonical : (competing d sources).mapM (canonicalState d) = .ok values) :
    List.Forall₂ (StateSummary Summary) values (arrayValuesOf d arrays) := by
  have facts : List.Forall₂ (FactSummary d) (competing d sources)
      ((arrays.filter (fun s => s.state.selectable)).filter
        (fun s => d.sources.get? s.evidence.source = arrayPriority d arrays)) := by
    rw [List.filter_filter]
    apply forall₂_filter _ h
    intro s a summary
    rw [summary.state.selectable, summary.evidence, priority_eq h, Bool.and_comm]
  unfold arrayValuesOf
  have forms := mapM_eq_ok.mp canonical
  clear canonical
  generalize competing d sources = chosen at forms facts
  generalize List.filter _ _ = metadata at facts ⊢
  induction facts generalizing values with
  | nil =>
    cases forms
    exact .nil
  | cons summary _ ih =>
    cases forms with
    | cons head tail => exact .cons (canonicalState_summary summary head) (ih tail)

end

section

variable [Environment]

def State.unsigned : State → State
  | .known v => .known v.unsigned
  | s => s

omit [Environment] in
theorem State.same_iff {s t : State} : s.same t = true ↔ s.unsigned = t.unsigned := by
  cases s <;> cases t <;> simp [State.same, State.unsigned, Scalar.same_iff]

/-- The competing states are all known and equal but for the sign of a zero, in which two of them
differ. -/
structure SignSplit (competes : State → Prop) : Prop where
  equal : ∀ s t, competes s → competes t →
    ∃ a b, s = .known a ∧ t = .known b ∧ a.unsigned = b.unsigned
  differ : ∃ a b, competes (.known a) ∧ competes (.known b) ∧ a ≠ b

/-- The competing values are finite, and no two of them with other bytes share a digest. -/
structure Separated (competes : State → Prop) : Prop where
  finite : ∀ a, competes (.known a) → a.Finite
  digest : ∀ a b, competes (.known a) → competes (.known b) →
    hexDigest a.toVec = hexDigest b.toVec → a.toVec = b.toVec

theorem same_summary (lawful : LawfulNumbers) {competes : State → Prop}
    (separated : Separated competes) {t : State} {b : ArrayState} (hs : competes s)
    (ht : competes t) (left : StateSummary Summary s a) (right : StateSummary Summary t b) :
    a.same b = true ↔ s = t := by
  cases left with
  | @known v _ left =>
    cases right with
    | @known w _ right =>
      rw [ArrayState.same, ArrayValue.same, decide_eq_true_eq, State.known.injEq]
      constructor
      · intro equal
        simp only [Prod.mk.injEq] at equal
        have digests := equal.2.2
        rw [left.digest, right.digest] at digests
        exact Scalar.toVec_injective lawful (separated.finite v hs)
          (separated.digest v w hs ht digests)
      · rintro rfl
        obtain ⟨items, rfl, count⟩ := left.count
        obtain ⟨items', same, count'⟩ := right.count
        cases same
        rw [count, count', left.bytes, right.bytes, left.digest, right.digest]
    | _ => simp [ArrayState.same]
  | unknown | _ => cases right <;> simp [ArrayState.same]

variable {sources : List SourceFact} {arrays : List ArrayFact}

theorem settle_empty {d : FieldDefinition} (h : List.Forall₂ (FactSummary d) sources arrays) :
    StateSummary Summary (settle sources []) (settleArray arrays []) := by
  have deleted := any_congr (p := fun s : SourceFact => s.state.same .deleted)
    (q := fun a : ArrayFact => a.state.same .deleted)
    (fun s a summary => summary.state.deleted_iff) h
  have unsupported := any_congr (p := fun s : SourceFact => s.state.same .unsupported)
    (q := fun a : ArrayFact => a.state.same .unsupported)
    (fun s a summary => summary.state.unsupported_iff) h
  unfold settle settleArray
  rw [deleted, unsupported]
  simp only
  split
  · exact .deleted
  · split
    · exact .unsupported
    · exact .missing

theorem any_differs (lawful : LawfulNumbers) {first : State} {rest : List State} {head : ArrayState}
    {tail : List ArrayState}
    (h : List.Forall₂ (StateSummary Summary) (first :: rest) (head :: tail))
    (separated : Separated (· ∈ first :: rest)) :
    (head :: tail).any (fun v => !v.same head) = true ↔ ∃ s ∈ first :: rest, s ≠ first := by
  have summary : StateSummary Summary first head := (List.forall₂_cons.mp h).1
  have same : ∀ s a, s ∈ first :: rest → StateSummary Summary s a →
      (a.same head = true ↔ s = first) := by
    intro s a mem related
    exact same_summary lawful separated mem (.head _) related summary
  rw [List.any_eq_true]
  constructor
  · rintro ⟨a, mem, other⟩
    obtain ⟨s, mem, related⟩ := exists_left_of_mem h mem
    refine ⟨s, mem, ?_⟩
    intro equal
    rw [(same s a mem related).mpr equal] at other
    cases other
  · rintro ⟨s, mem, other⟩
    obtain ⟨a, mem', related⟩ := exists_right_of_mem h mem
    refine ⟨a, mem', ?_⟩
    rw [Bool.not_eq_true', ← Bool.not_eq_true, same s a mem related]
    exact other

omit [Environment] in
theorem any_unequal {first : State} {rest : List State} :
    (first :: rest).any (fun v => !v.same first) = true ↔
      ∃ s ∈ first :: rest, s.unsigned ≠ first.unsigned := by
  simp only [List.any_eq_true, Bool.not_eq_true', ← Bool.not_eq_true, State.same_iff, ne_eq]

omit [Environment] in
theorem known_of_unsigned {t : State} (equal : s.unsigned = t.unsigned) (other : s ≠ t) :
    ∃ a b, s = .known a ∧ t = .known b ∧ a ≠ b := by
  cases s with
  | known a =>
    cases t with
    | known b => exact ⟨a, b, rfl, rfl, fun same => other (congrArg State.known same)⟩
    | _ => cases equal
  | _ => cases t <;> first | exact absurd equal other | cases equal

omit [Environment] in
theorem unsigned_known {a : Scalar} (h : s.unsigned = (State.known a).unsigned) :
    ∃ b, s = .known b ∧ b.unsigned = a.unsigned := by
  cases s with
  | known b => exact ⟨b, rfl, State.known.inj h⟩
  | _ => cases h

theorem settle_related (lawful : LawfulNumbers) {d : FieldDefinition}
    (facts : List.Forall₂ (FactSummary d) sources arrays) {values : List State}
    {metadata : List ArrayState} (h : List.Forall₂ (StateSummary Summary) values metadata)
    (separated : Separated (· ∈ values)) :
    StateSummary Summary (settle sources values) (settleArray arrays metadata) ↔
      ¬SignSplit (· ∈ values) := by
  have unknown := any_congr (fun s a summary => summary.isUnknown) h
  have unordered := any_congr (fun s a summary => summary.isUnordered) h
  cases values with
  | nil =>
    cases h
    refine iff_of_true (settle_empty facts) ?_
    rintro ⟨-, a, b, mem, -⟩
    cases mem
  | cons first rest =>
    obtain ⟨head, tail, summary, others, rfl⟩ := List.forall₂_cons_left_iff.mp h
    unfold settle settleArray
    simp only
    rw [← unknown, ← unordered]
    by_cases undecided : (first :: rest).any State.isUnknown = true
    · rw [if_pos undecided, if_pos undecided]
      refine iff_of_true (.unknown _) ?_
      rintro ⟨equal, -⟩
      obtain ⟨s, mem, isUnknown⟩ := List.any_eq_true.mp undecided
      obtain ⟨a, b, rfl, -⟩ := equal s s mem mem
      cases isUnknown
    · rw [if_neg undecided, if_neg undecided]
      by_cases unequal : ∃ s ∈ first :: rest, s.unsigned ≠ first.unsigned
      · -- The values already disagree, so their metadata does.
        have differs : ∃ s ∈ first :: rest, s ≠ first := by
          obtain ⟨s, mem, other⟩ := unequal
          exact ⟨s, mem, fun same => other (congrArg State.unsigned same)⟩
        rw [if_pos (any_unequal.mpr unequal), if_pos ((any_differs lawful h separated).mpr differs)]
        refine iff_of_true .conflict ?_
        rintro ⟨equal, -⟩
        obtain ⟨s, mem, other⟩ := unequal
        obtain ⟨a, b, rfl, rfl, same⟩ := equal s first mem (.head _)
        exact other (congrArg State.known same)
      · rw [if_neg (mt any_unequal.mp unequal)]
        simp only [not_exists, not_and, not_not] at unequal
        by_cases differs : ∃ s ∈ first :: rest, s ≠ first
        · -- Equal values with other bytes: only their metadata disagrees.
          rw [if_pos ((any_differs lawful h separated).mpr differs)]
          obtain ⟨s, mem, other⟩ := differs
          obtain ⟨a, b, rfl, rfl, apart⟩ := known_of_unsigned (unequal s mem) other
          refine iff_of_false nofun (not_not.mpr ⟨?_, a, b, mem, .head _, apart⟩)
          intro s t mems memt
          obtain ⟨a', rfl, left⟩ := unsigned_known (unequal s mems)
          obtain ⟨b', rfl, right⟩ := unsigned_known (unequal t memt)
          exact ⟨a', b', rfl, rfl, left.trans right.symm⟩
        · rw [if_neg (mt (any_differs lawful h separated).mp differs)]
          refine iff_of_true summary ?_
          simp only [not_exists, not_and, not_not] at differs
          rintro ⟨-, a, b, left, right, apart⟩
          exact apart (State.known.inj ((differs _ left).trans (differs _ right).symm))

end

section

variable [Environment]

/-- A state among those that compete at the best priority, in its canonical form. -/
def Competes (d : FieldDefinition) (facts : List SourceFact) (state : State) : Prop :=
  ∃ fact ∈ competing d facts, canonicalState d fact = .ok state

def CollisionFree (d : FieldDefinition) (facts : List SourceFact) : Prop :=
  ∀ a b, Competes d facts (.known a) → Competes d facts (.known b) →
    hexDigest a.toVec = hexDigest b.toVec → a.toVec = b.toVec

variable {d : FieldDefinition} {facts : List SourceFact} {facts' : List SourceFact}

omit [Environment] in
theorem selectedPriority_perm (perm : facts.Perm facts') :
    selectedPriority d facts = selectedPriority d facts' := by
  unfold selectedPriority
  have same := (perm.filter (fun s => s.state.selectable)).filterMap
    (fun s => d.sources.get? s.evidence.source)
  ext p
  rw [List.min?_eq_some_iff, List.min?_eq_some_iff]
  simp only [same.mem_iff]

variable {state : State}

theorem competes_perm (perm : facts.Perm facts') :
    Competes d facts state ↔ Competes d facts' state := by
  unfold Competes competing
  rw [selectedPriority_perm perm]
  simp only [(perm.filter _).mem_iff]

variable {maxItems : UInt32} {sources : List SourceFact} {itemType : ValueType}

theorem competes_finite (type : d.valueType = .array itemType maxItems)
    (checked : each (checkFact d) sources = .ok ()) {a : Scalar}
    (h : Competes d sources (.known a)) :
    a.Finite := by
  obtain ⟨fact, chosen, form⟩ := h
  obtain ⟨-, passed⟩ := of_check (each_eq_ok.mp checked fact (List.mem_of_mem_filter chosen))
  obtain ⟨-, passed⟩ := of_check passed
  obtain ⟨state, -⟩ := of_check passed
  unfold canonicalState at form
  unfold checkState at state
  generalize fact.state = current at form state
  cases current with
  | known =>
    obtain ⟨items, canonical, -, finite⟩ := canonicalValue_array type state
    simp only [canonical] at form
    cases form
    exact finite
  | _ => cases form

variable {arrays : List ArrayFact}

theorem arrayState_related (lawful : LawfulNumbers) (type : d.valueType = .array itemType maxItems)
    (h : List.Forall₂ (FactSummary d) sources arrays) (free : CollisionFree d sources)
    (resolved : resolveState d sources = .ok state) :
    ∃ metadata, arrayState d arrays = .ok metadata ∧
      (StateSummary Summary state metadata ↔ ¬SignSplit (Competes d sources)) := by
  obtain ⟨-, resolved⟩ := of_guard resolved
  obtain ⟨valid, resolved⟩ := of_check resolved
  obtain ⟨scopes, resolved⟩ := of_guard resolved
  obtain ⟨checked, resolved⟩ := of_check resolved
  obtain ⟨values, canonical, resolved⟩ := of_bind resolved
  cases resolved
  rw [Bool.not_eq_true] at scopes
  refine ⟨settleArray arrays (arrayValuesOf d arrays), ?_, ?_⟩
  · unfold arrayState
    rw [valid, ok_bind, if_neg (by rw [type]; exact Bool.false_ne_true),
      checkArrayFacts type h scopes checked, ok_bind]
  · have forms := mapM_eq_ok.mp canonical
    have members : ∀ s, s ∈ values ↔ Competes d sources s := by
      intro s
      constructor
      · intro mem
        exact exists_left_of_mem forms mem
      · rintro ⟨fact, mem, form⟩
        obtain ⟨s', mem', form'⟩ := exists_right_of_mem forms mem
        cases form.symm.trans form'
        exact mem'
    have same : (· ∈ values) = Competes d sources := funext (fun s => propext (members s))
    rw [← same]
    apply settle_related lawful h (values_related h canonical)
    constructor
    · intro a mem
      exact competes_finite type checked ((members _).mp mem)
    · intro a b left right
      exact free a b ((members _).mp left) ((members _).mp right)

omit [Environment] in
theorem signSplit_congr {p q : State → Prop} (h : ∀ s, p s ↔ q s) : SignSplit p ↔ SignSplit q := by
  have same : p = q := funext (fun s => propext (h s))
  rw [same]

theorem Stored.exists (type : d.valueType = .array itemType maxItems) {v : Scalar}
    (valid : d.validateScalar v = .ok ()) :
    ∃ a, Stored d v a := by
  obtain ⟨items, canonical, -, -⟩ := canonicalValue_array type valid
  refine ⟨⟨hexDigest [], items.length, (Scalar.array items).toVec.length,
    hexDigest (Scalar.array items).toVec⟩, .array items, canonical, ⟨⟨items, rfl, rfl⟩, rfl, rfl⟩,
    hexDigest_isHash []⟩

theorem FactSummary.exists (type : d.valueType = .array itemType maxItems) {fact : SourceFact}
    (checked : checkFact d fact = .ok ()) : ∃ array, FactSummary d fact array := by
  obtain ⟨-, passed⟩ := of_check checked
  obtain ⟨-, passed⟩ := of_check passed
  obtain ⟨state, lastKnown⟩ := of_check passed
  obtain ⟨current, old, evidence⟩ := fact
  have first : ∃ metadata, StateSummary (Stored d) current metadata := by
    cases current with
    | known =>
      obtain ⟨a, stored⟩ := Stored.exists type state
      exact ⟨.known a, .known stored⟩
    | unknown reason => exact ⟨_, .unknown reason⟩
    | null => exact ⟨_, .null⟩
    | missing => exact ⟨_, .missing⟩
    | unsupported => exact ⟨_, .unsupported⟩
    | deleted => exact ⟨_, .deleted⟩
    | conflict => exact ⟨_, .conflict⟩
  have second : ∃ metadata, Option.Rel (KnownSummary d) old metadata := by
    cases old with
    | none => exact ⟨none, .none⟩
    | some k =>
      obtain ⟨a, stored⟩ := Stored.exists type (of_check lastKnown).1
      exact ⟨some ⟨a, k.evidence⟩, .some ⟨stored, rfl⟩⟩
  obtain ⟨metadata, summary⟩ := first
  obtain ⟨metadata', summary'⟩ := second
  exact ⟨⟨metadata, metadata', evidence⟩, summary, summary', rfl⟩

theorem resolveState_checked (resolved : resolveState d sources = .ok state) :
    ∀ fact ∈ sources, checkFact d fact = .ok () := by
  obtain ⟨-, resolved⟩ := of_guard resolved
  obtain ⟨-, resolved⟩ := of_check resolved
  obtain ⟨-, resolved⟩ := of_guard resolved
  exact each_eq_ok.mp (of_check resolved).1

theorem resolve_checked {resolved : ResolvedField} (h : resolve d facts = .ok resolved) :
    ∀ fact ∈ facts, checkFact d fact = .ok () := by
  obtain ⟨-, h⟩ := of_guard h
  obtain ⟨-, h⟩ := of_guard h
  obtain ⟨state, settled, -⟩ := of_bind h
  intro fact mem
  exact resolveState_checked settled fact ((List.perm_insertionSort _ facts).mem_iff.mpr mem)

variable {resolved : ResolvedDeviceField}

theorem resolveDevice_checked {facts : List EndpointSourceFact}
    (h : resolveDevice d facts = .ok resolved) : ∀ s ∈ facts, checkFact d s.fact = .ok () := by
  obtain ⟨-, h⟩ := of_guard h
  obtain ⟨-, h⟩ := of_guard h
  obtain ⟨state, settled, -⟩ := of_bind h
  intro s mem
  exact resolveState_checked settled s.fact
    (List.mem_map_of_mem ((List.perm_insertionSort _ facts).mem_iff.mpr mem))

theorem resolveArray_related (lawful : LawfulNumbers)
    (type : d.valueType = .array itemType maxItems) {resolved : ResolvedField}
    (h : resolve d facts = .ok resolved) (free : CollisionFree d facts)
    (summaries : List.Forall₂ (FactSummary d) facts arrays) :
    ∃ metadata, resolveArray d arrays = .ok metadata ∧ metadata.field = resolved.field ∧
      List.Forall₂ (FactSummary d) resolved.sources metadata.sources ∧
      (StateSummary Summary resolved.state metadata.state ↔ ¬SignSplit (Competes d facts)) := by
  obtain ⟨fits, h⟩ := of_guard h
  obtain ⟨apart, h⟩ := of_guard h
  obtain ⟨state, settled, h⟩ := of_bind h
  cases h
  have keys : ∀ s a, FactSummary d s a → s.key = a.key := fun s a summary => summary.key
  have sorted := forall₂_sort keys summaries
  have perm := List.perm_insertionSort (fun a b : SourceFact => a.key ≤ b.key) facts
  have free : CollisionFree d (facts.insertionSort (fun a b => a.key ≤ b.key)) := by
    intro a b left right
    exact free a b ((competes_perm perm).mp left) ((competes_perm perm).mp right)
  obtain ⟨metadata, resolves, alike⟩ := arrayState_related lawful type sorted free settled
  refine ⟨⟨d.key, metadata, arrays.insertionSort (fun a b => a.key ≤ b.key)⟩, ?_, rfl, sorted, ?_⟩
  · unfold resolveArray
    rw [summaries.length_eq] at fits
    rw [adjacentEqual_forall₂ keys sorted] at apart
    simp only [if_neg fits, if_neg apart, resolves, ok_bind]
  · rw [alike, signSplit_congr (fun s => competes_perm perm)]

theorem resolveDeviceArray_related (lawful : LawfulNumbers)
    (type : d.valueType = .array itemType maxItems) {facts : List EndpointSourceFact}
    (h : resolveDevice d facts = .ok resolved)
    (free : CollisionFree d (facts.map EndpointSourceFact.fact)) {arrays : List EndpointArrayFact}
    (summaries : List.Forall₂ (EndpointSummary d) facts arrays) :
    ∃ metadata, resolveDeviceArray d arrays = .ok metadata ∧ metadata.field = resolved.field ∧
      List.Forall₂ (EndpointSummary d) resolved.sources metadata.sources ∧
      (StateSummary Summary resolved.state metadata.state ↔
        ¬SignSplit (Competes d (facts.map EndpointSourceFact.fact))) := by
  obtain ⟨endpoints, h⟩ := of_guard h
  obtain ⟨apart, h⟩ := of_guard h
  obtain ⟨state, settled, h⟩ := of_bind h
  cases h
  have keys : ∀ s a, EndpointSummary d s a → s.key = a.key := fun s a summary => summary.key
  have sorted := forall₂_sort keys summaries
  have parts : List.Forall₂ (FactSummary d)
      ((facts.insertionSort (fun a b => a.key ≤ b.key)).map EndpointSourceFact.fact)
      ((arrays.insertionSort (fun a b => a.key ≤ b.key)).map EndpointArrayFact.fact) := by
    rw [List.forall₂_map_left_iff, List.forall₂_map_right_iff]
    exact sorted.imp (fun s a summary => summary.fact)
  have perm := (List.perm_insertionSort (fun a b : EndpointSourceFact => a.key ≤ b.key) facts).map
    EndpointSourceFact.fact
  have free : CollisionFree d
      ((facts.insertionSort (fun a b => a.key ≤ b.key)).map EndpointSourceFact.fact) := by
    intro a b left right
    exact free a b ((competes_perm perm).mp left) ((competes_perm perm).mp right)
  obtain ⟨metadata, resolves, alike⟩ := arrayState_related lawful type parts free settled
  have fits := (of_guard settled).1
  refine ⟨⟨d.key, metadata, arrays.insertionSort (fun a b => a.key ≤ b.key)⟩, ?_, rfl, sorted, ?_⟩
  · unfold resolveDeviceArray
    rw [List.length_map, List.length_insertionSort, summaries.length_eq] at fits
    rw [adjacentEqual_forall₂ keys sorted] at apart
    have ends := any_congr (p := fun s : EndpointSourceFact => !bounded s.endpoint)
      (q := fun a : EndpointArrayFact => !bounded a.endpoint)
      (fun s a summary => by rw [summary.endpoint]) summaries
    rw [ends] at endpoints
    simp only [if_neg fits, if_neg endpoints, if_neg apart, resolves, ok_bind]
  · rw [alike, signSplit_congr (fun s => competes_perm perm)]

/-- Replacing the arrays of a field by their metadata keeps the resolution and the order of the
sources, and the resolved state is the summary of the resolved value unless the competing values
differ in nothing but the sign of a zero; on one endpoint and across endpoints. -/
theorem array_resolution (lawful : LawfulNumbers) (d : FieldDefinition) (itemType : ValueType)
    (maxItems : UInt32) (type : d.valueType = .array itemType maxItems) :
    (∀ facts resolved, resolve d facts = .ok resolved → CollisionFree d facts →
      (∃ arrays, List.Forall₂ (FactSummary d) facts arrays) ∧
      ∀ arrays, List.Forall₂ (FactSummary d) facts arrays → ∃ metadata,
        resolveArray d arrays = .ok metadata ∧ metadata.field = resolved.field ∧
        List.Forall₂ (FactSummary d) resolved.sources metadata.sources ∧
        (StateSummary Summary resolved.state metadata.state ↔ ¬SignSplit (Competes d facts))) ∧
    (∀ facts resolved, resolveDevice d facts = .ok resolved →
      CollisionFree d (facts.map EndpointSourceFact.fact) →
      (∃ arrays, List.Forall₂ (EndpointSummary d) facts arrays) ∧
      ∀ arrays, List.Forall₂ (EndpointSummary d) facts arrays → ∃ metadata,
        resolveDeviceArray d arrays = .ok metadata ∧ metadata.field = resolved.field ∧
        List.Forall₂ (EndpointSummary d) resolved.sources metadata.sources ∧
        (StateSummary Summary resolved.state metadata.state ↔
          ¬SignSplit (Competes d (facts.map EndpointSourceFact.fact)))) := by
  constructor
  · intro facts resolved h free
    constructor
    · apply forall₂_exists
      intro fact mem
      exact FactSummary.exists type (resolve_checked h fact mem)
    · intro arrays summaries
      exact resolveArray_related lawful type h free summaries
  · intro facts resolved h free
    constructor
    · apply forall₂_exists
      intro s mem
      obtain ⟨array, summary⟩ := FactSummary.exists type (resolveDevice_checked h s mem)
      exact ⟨⟨s.endpoint, array⟩, rfl, summary⟩
    · intro arrays summaries
      exact resolveDeviceArray_related lawful type h free summaries

end

namespace Sample

/-- Numbers that two sources report at one priority. -/
def readings : FieldDefinition :=
  { flag with
    key := ⟨"custom.readings"⟩
    valueType := .array .number 8
    sources := (OrdMap.empty.insert .agentNative 1).insert .agentBuiltin 1 }

theorem plus_number : (0 : BitVec 64).toNat % 2 ^ 63 ≤ 0x7ff0000000000000 := by decide

def plus : Scalar := .array [.number ⟨0, plus_number⟩]

def minus : Scalar := .array [.number ⟨0x8000000000000000#64, by decide⟩]

def reportedBy (source : Source) : Evidence where
  scope := .device
  source := source
  dataset := some "readings"
  registration := some "registration"
  registrationGeneration := some 1
  epoch := some "epoch"
  snapshotId := "batch"
  observedAt := time
  receivedAt := time
  actor := none

def zero : SourceFact := ⟨.known plus, none, reportedBy .agentNative⟩

def negativeZero : SourceFact := ⟨.known minus, none, reportedBy .agentBuiltin⟩

def metadata (v : Scalar) : ArrayValue := ⟨hexDigest [], 1, v.toVec.length, hexDigest v.toVec⟩

def zeroArray : ArrayFact := ⟨.known (metadata plus), none, reportedBy .agentNative⟩

def negativeZeroArray : ArrayFact := ⟨.known (metadata minus), none, reportedBy .agentBuiltin⟩

theorem zero_summary : FactSummary readings zero zeroArray :=
  ⟨.known ⟨plus, rfl, ⟨⟨_, rfl, rfl⟩, rfl, rfl⟩, hexDigest_isHash []⟩, .none, rfl⟩

theorem negativeZero_summary : FactSummary readings negativeZero negativeZeroArray :=
  ⟨.known ⟨minus, rfl, ⟨⟨_, rfl, rfl⟩, rfl, rfl⟩, hexDigest_isHash []⟩, .none, rfl⟩

set_option maxRecDepth 4000 in
theorem collisionFree_zeros : CollisionFree readings [zero, negativeZero] := by
  have apart : hexDigest plus.toVec ≠ hexDigest minus.toVec := by decide
  have values : ∀ a, Competes readings [zero, negativeZero] (.known a) → a = plus ∨ a = minus := by
    rintro a ⟨fact, mem, form⟩
    rcases List.mem_pair.mp mem with rfl | rfl
    · cases form
      exact .inl rfl
    · cases form
      exact .inr rfl
  intro a b left right equal
  rcases values a left with rfl | rfl
  · rcases values b right with rfl | rfl
    · rfl
    · exact absurd equal apart
  · rcases values b right with rfl | rfl
    · exact absurd equal.symm apart
    · rfl

/-- The two zeros are one value to the resolution of values and a conflict to that of metadata. -/
theorem signed_zeros_disagree :
    resolve readings [zero, negativeZero] =
        .ok ⟨readings.key, .known plus, [zero, negativeZero]⟩ ∧
      List.Forall₂ (FactSummary readings) [zero, negativeZero] [zeroArray, negativeZeroArray] ∧
      CollisionFree readings [zero, negativeZero] ∧
      (match resolveArray readings [zeroArray, negativeZeroArray] with
        | .ok r => r.state.same .conflict
        | .error _ => false) = true := by
  refine ⟨rfl, .cons zero_summary (.cons negativeZero_summary .nil), collisionFree_zeros, ?_⟩
  set_option maxRecDepth 4000 in
  decide

def again : SourceFact := ⟨.known plus, none, reportedBy .agentBuiltin⟩

def againArray : ArrayFact := ⟨.known (metadata plus), none, reportedBy .agentBuiltin⟩

theorem again_summary : FactSummary readings again againArray :=
  ⟨.known ⟨plus, rfl, ⟨⟨_, rfl, rfl⟩, rfl, rfl⟩, hexDigest_isHash []⟩, .none, rfl⟩

theorem collisionFree_again : CollisionFree readings [zero, again] ∧
    ¬SignSplit (Competes readings [zero, again]) := by
  have value : ∀ a, Competes readings [zero, again] (.known a) → a = plus := by
    rintro a ⟨fact, mem, form⟩
    rcases List.mem_pair.mp (List.mem_of_mem_filter mem) with rfl | rfl <;> cases form <;> rfl
  constructor
  · intro a b left right _
    rw [value a left, value b right]
  · rintro ⟨-, a, b, left, right, apart⟩
    exact apart ((value a left).trans (value b right).symm)

/-- Two sources that report the same zero agree. -/
theorem array_resolution_zero :
    resolve readings [zero, again] = .ok ⟨readings.key, .known plus, [zero, again]⟩ ∧
      ∃ resolved, resolveArray readings [zeroArray, againArray] = .ok resolved ∧
        StateSummary Summary (.known plus) resolved.state := by
  refine ⟨rfl, ?_⟩
  obtain ⟨free, unsplit⟩ := collisionFree_again
  obtain ⟨-, related⟩ := (array_resolution lawful readings .number 8 rfl).1 [zero, again] _ rfl free
  obtain ⟨resolved, resolves, -, -, alike⟩ := related [zeroArray, againArray]
    (.cons zero_summary (.cons again_summary .nil))
  exact ⟨resolved, resolves, alike.mpr unsplit⟩

end Sample

end RssMdm.Inventory
