/- module: Inventory/NativeReport
   source: crates/inventory/src/progress.rs
   digest: A native report is captured field by field; a list too long as a whole stops it. -/

import RssMdm.Inventory.NativeRows

set_option autoImplicit false

namespace RssMdm.Inventory

open RssMdm.Lib RssMdm.Lib.Fallible RssMdm.Lib.Int64 RssMdm.Lib.Repetition
open List (foldlM_cons mem_cons mem_cons_of_mem mem_cons_self)

section

variable [Environment]

namespace CollectionProgress

variable {definition : CollectionDefinition} {values : OrdMap FieldKey NativeValue} {time : I64}

/-- A field that the loop of the adapter has not come to. -/
structure Untouched (p : CollectionProgress) (key : FieldKey) : Prop where
  unfinished : p.finished = false
  encodes : p.Encodes
  field : p.fields.get? key = some FieldAttempt.default

structure Takable (definition : CollectionDefinition) (key : FieldKey) (items : List Quality)
    (values : List Scalar) : Prop where
  list : ∃ d type maxItems, definition.field key = .ok d ∧ d.valueType = .array type maxItems ∧
    items.length ≤ maxItems.toNat ∧ d.validateScalar (.array values) = .ok ()
  broken : .invalid ∈ items
  closed : ∀ q ∈ items, q = .success ∨ q = .invalid
  count : values.length = successes items

theorem takable_of_list {key : FieldKey} {d : FieldDefinition} {rows : List (Except Invalid Scalar)}
    (keyed : Keyed d) {type : ValueType} {maxItems : UInt32}
    (listed : d.valueType = .array type maxItems) (known : definition.field key = .ok d)
    (fits : Fits d rows) {items : List Quality} {values : List Scalar}
    (h : NativeValue.list d rows = .ok (.invalidItems items values)) :
    Takable definition key items values := by
  by_cases many : maxItems.toNat < rows.length
  · rw [list_many listed many] at h
    cases h
  obtain ⟨quality, marks, equal⟩ := list_few rows keyed listed many
  rw [equal] at h
  split at h
  · rename_i broken
    cases h
    have few : items.length ≤ maxItems.toNat := by
      rw [marks.length]
      omega
    have together : d.validateScalar (.array (keptValues (rowValues rows) items)) = .ok () := by
      rcases fits with ⟨type', maxItems', array, beyond⟩ | all
      · rw [listed] at array
        cases array
        exact absurd beyond many
      · exact all items marks
    exact ⟨⟨d, type, maxItems, known, listed, few, together⟩, broken, marks.closed, marks.count⟩
  · obtain ⟨canonical, -, h⟩ := of_bind h
    cases h

theorem checkTime_ok (valid : Environment.timepoint time = true) : checkTime time = .ok () :=
  if_pos valid

theorem Untouched.observeInvalid {p : CollectionProgress} {key : FieldKey}
    (untouched : p.Untouched key) (valid : Environment.timepoint time = true) :
    ∃ f, p.observeInvalid key time = (.ok (), p.write key f) := by
  have got : p.get key .unknownField = .ok FieldAttempt.default := get_eq_ok.mpr untouched.field
  have idle : ¬ (p.finished = true ∨ FieldAttempt.default.value.isSome = true ∨
      FieldAttempt.default.terminal.isSome = true) := by
    rw [untouched.unfinished]
    decide
  rw [CollectionProgress.observeInvalid, checkTime_ok valid, got]
  exact ⟨_, if_neg idle⟩

theorem Untouched.confirm {p : CollectionProgress} {key : FieldKey} (untouched : p.Untouched key)
    (f : FieldAttempt) : ∃ p', (p.write key f).confirm key = .ok p' := by
  have got : (p.write key f).get key .unknownField = .ok f := by
    rw [get_eq_ok, get?_write, if_pos rfl, untouched.field]
    rfl
  rw [CollectionProgress.confirm, got]
  exact ⟨_, rfl⟩

theorem Untouched.observeValue {p : CollectionProgress} {key : FieldKey}
    (untouched : p.Untouched key) (valid : Environment.timepoint time = true)
    (known : ∃ d, p.definition.field key = .ok d) (v : CollectedValue) :
    p.observeValue key v time = (.error .value, p) ∧ aggregateBytes < p.weight + v.toVec.length ∨
      ∃ f, p.observeValue key v time = (.ok (), p.write key f) := by
  obtain ⟨d, known⟩ := known
  have got : p.get key .unknownField = .ok FieldAttempt.default := get_eq_ok.mpr untouched.field
  have retained : retainedBytes d (p.fields.get? key) = .ok 0 := by
    rw [untouched.field]
    rfl
  have idle : ¬ (FieldAttempt.default.terminal.isSome = true ∨
      FieldAttempt.default.digest.any (· ≠ hexDigest v.toVec) = true ∨
        FieldAttempt.default.status.any (fun c => !accepted c) = true) := by
    simp [FieldAttempt.default]
  have goes : ∀ {α : Type} (a : α) (next : α → Call), p.attempt (.ok a) next = next a :=
    fun _ _ => rfl
  rw [CollectionProgress.observeValue, checkTime_ok valid, goes, untouched.unfinished,
    if_neg Bool.false_ne_true, known, goes, retained, goes, valueBytes_eq untouched.encodes]
  by_cases small : p.weight < 2 ^ 64
  · rw [if_pos small, goes, got, goes, if_neg idle]
    split
    · exact .inl ⟨rfl, by unfold aggregateBytes; omega⟩
    · exact .inr ⟨_, rfl⟩
  · rw [if_neg small]
    exact .inl ⟨rfl, by unfold aggregateBytes; omega⟩

end CollectionProgress

end

section

variable [Environment]

namespace CollectionProgress

variable {definition : CollectionDefinition} {values : OrdMap FieldKey NativeValue} {time : I64}

theorem Untouched.observeInvalidItems {p : CollectionProgress} {key : FieldKey}
    (untouched : p.Untouched key) (valid : Environment.timepoint time = true)
    (items : List Quality) (rows : List Scalar) :
    (∃ p', p.observeInvalidItems key items rows time = (.ok (), p')) ↔
      Takable p.definition key items rows := by
  have goes : ∀ {α : Type} (a : α) (next : α → Call), p.attempt (.ok a) next = next a :=
    fun _ _ => rfl
  have stops : ∀ {α : Type} (e : Invalid) (next : α → Call),
      p.attempt (.error e) next = (.error e, p) := fun _ _ => rfl
  rw [CollectionProgress.observeInvalidItems]
  constructor
  · rintro ⟨p', h⟩
    cases known : p.definition.field key with
    | error =>
      rw [known, stops] at h
      cases h
    | ok d =>
      rw [known, goes] at h
      cases listed : d.valueType with
      | array type maxItems =>
        have budget : maxItemsOf d = .ok maxItems := by rw [maxItemsOf, listed]
        rw [budget, goes] at h
        split at h
        · cases h
        rename_i shape
        split at h
        · cases h
        rename_i count
        cases together : d.validateScalar (.array rows) with
        | error e =>
          have refused : (CollectedValue.value (.array rows)).encode d = .error e := by
            rw [CollectedValue.encode, CollectedValue.validate, together]
            rfl
          dsimp only at h
          rw [refused, stops] at h
          cases h
        | ok =>
          push Not at shape
          refine ⟨⟨d, type, maxItems, known, listed, shape.1, together⟩, shape.2.1, ?_,
            not_not.mp count⟩
          intro q member
          have closed := shape.2.2
          rw [ne_eq, Bool.not_eq_true, List.any_eq_false] at closed
          simpa [or_iff_not_imp_left] using closed q member
      | _ =>
        have budget : maxItemsOf d = .error .typeMismatch := by rw [maxItemsOf, listed]
        rw [budget, stops] at h
        cases h
  · rintro ⟨⟨d, type, maxItems, known, listed, few, together⟩, broken, closed, count⟩
    have budget : maxItemsOf d = .ok maxItems := by rw [maxItemsOf, listed]
    have shape : ¬ (items.length > maxItems.toNat ∨ .invalid ∉ items ∨
        items.any (fun q => !(q = .success || q = .invalid)) = true) := by
      push Not
      refine ⟨few, broken, ?_⟩
      rw [ne_eq, Bool.not_eq_true, List.any_eq_false]
      intro q member
      simpa [or_iff_not_imp_left] using closed q member
    have encoded : (CollectedValue.value (.array rows)).encode d =
        .ok (CollectedValue.value (.array rows)).toVec := by
      rw [CollectedValue.encode, CollectedValue.validate, together]
      rfl
    obtain ⟨f, observed⟩ := untouched.observeInvalid valid
    have got : (p.write key f).get key .unknownField = .ok f := by
      rw [get_eq_ok, get?_write, if_pos rfl, untouched.field]
      rfl
    rw [known, goes, budget, goes, if_neg shape, if_neg (not_not.mpr count)]
    dsimp only
    rw [encoded, goes, observed]
    dsimp only
    rw [got]
    exact ⟨_, rfl⟩

variable (values) in
theorem nativeField_ok {p : CollectionProgress} {key : FieldKey} (untouched : p.Untouched key)
    (valid : Environment.timepoint time = true) (known : ∃ d, p.definition.field key = .ok d) :
    (∃ p', nativeField values time p key = .ok p') ↔ ∀ items rows,
      (values.get? key).getD .missing = .invalidItems items rows →
        Takable p.definition key items rows := by
  have ends : ∀ terminal, ∃ p', p.terminate key terminal time = .ok p' := by
    intro terminal
    have got : p.get key .unknownField = .ok FieldAttempt.default :=
      get_eq_ok.mpr untouched.field
    rw [CollectionProgress.terminate, checkTime_ok valid, got]
    exact ⟨_, rfl⟩
  unfold nativeField
  cases (values.get? key).getD .missing with
  | value v =>
    refine iff_of_true ?_ nofun
    dsimp only
    rcases untouched.observeValue valid known v with ⟨refused, -⟩ | ⟨f, taken⟩
    · obtain ⟨f, observed⟩ := untouched.observeInvalid valid
      rw [refused]
      dsimp only
      rw [observed]
      exact ⟨_, rfl⟩
    · rw [taken]
      exact untouched.confirm f
  | invalidItems items rows =>
    dsimp only
    have exactly := untouched.observeInvalidItems valid items rows
    constructor
    · rintro ⟨p', h⟩ items' rows' same
      cases same
      exact exactly.mp ⟨p', sequel_eq_ok h⟩
    · intro all
      obtain ⟨p', taken⟩ := exactly.mpr (all items rows rfl)
      rw [taken]
      exact ⟨p', rfl⟩
  | invalid => exact iff_of_true (ends .invalid) nofun
  | missing => exact iff_of_true (ends .missing) nofun
  | failed => exact iff_of_true (ends .failed) nofun

theorem nativeField_untouched {p p' : CollectionProgress} {key : FieldKey}
    (untouched : p.Untouched key) (known : ∃ d, p.definition.field key = .ok d)
    (step : nativeField values time p key = .ok p') : p'.definition = p.definition ∧
      p.weight ≤ p'.weight ∧ ∀ other, other ≠ key → p.Untouched other → p'.Untouched other := by
  obtain ⟨d, found⟩ := known
  obtain ⟨f, written, -⟩ := nativeField_captured step untouched.unfinished untouched.field found
  have empty : ∀ f, p.fields.get? key = some f → f.value = none := by
    intro f held
    rw [untouched.field] at held
    cases held
    rfl
  have captures := nativeField_captures untouched.encodes empty step
  refine ⟨?_, captures.grows, ?_⟩
  · rw [written]
    rfl
  · intro other apart old
    refine ⟨?_, captures.encodes, ?_⟩
    · rw [written]
      exact old.unfinished
    · rw [nativeField_others apart step]
      exact old.field

variable (values) in
theorem foldlM_nativeField_ok (keys : List FieldKey) {p : CollectionProgress}
    (distinct : keys.Nodup) (untouched : ∀ key ∈ keys, p.Untouched key)
    (valid : Environment.timepoint time = true)
    (known : ∀ key ∈ keys, ∃ d, p.definition.field key = .ok d) :
    (∃ p', keys.foldlM (nativeField values time) p = .ok p') ↔ ∀ key ∈ keys, ∀ items rows,
      (values.get? key).getD .missing = .invalidItems items rows →
        Takable p.definition key items rows := by
  induction keys generalizing p with
  | nil => exact iff_of_true ⟨p, rfl⟩ (by simp)
  | cons key keys ih =>
    obtain ⟨fresh, distinct'⟩ := List.nodup_cons.mp distinct
    have here := untouched key (.head _)
    have field := known key (.head _)
    have first := nativeField_ok values here valid field
    have later : ∀ p₁, nativeField values time p key = .ok p₁ →
        ((∃ p', keys.foldlM (nativeField values time) p₁ = .ok p') ↔ ∀ other ∈ keys,
          ∀ items rows, (values.get? other).getD .missing = .invalidItems items rows →
            Takable p.definition other items rows) := by
      intro p₁ step
      obtain ⟨same, -, rest⟩ := nativeField_untouched here field step
      rw [← same]
      refine ih distinct' (fun other member => ?_) (fun other member => ?_)
      · exact rest other (fun equal => fresh (equal ▸ member))
          (untouched other (mem_cons_of_mem key member))
      · rw [same]
        exact known other (mem_cons_of_mem key member)
    rw [foldlM_cons]
    constructor
    · rintro ⟨p', h⟩
      obtain ⟨p₁, step, run⟩ := of_bind h
      intro other member
      rcases mem_cons.mp member with rfl | inside
      · exact first.mp ⟨p₁, step⟩
      · exact (later p₁ step).mp ⟨p', run⟩ other inside
    · intro all
      obtain ⟨p₁, step⟩ := first.mpr (all key (.head _))
      obtain ⟨p', run⟩ := (later p₁ step).mpr
        fun other member => all other (mem_cons_of_mem key member)
      exact ⟨p', by rw [step]; exact run⟩

theorem new_untouched (definition : CollectionDefinition) :
    ∀ key ∈ (new definition).fields.keys, (new definition).Untouched key ∧
      ∃ d, (new definition).definition.field key = .ok d := by
  intro key member
  obtain ⟨f, found⟩ := OrdMap.mem_keys.mp member
  have listed := (get?_new.mp found).1
  exact ⟨⟨rfl, new_encodes definition, get?_new.mpr ⟨listed, rfl⟩⟩, field_of_key listed⟩

variable (definition values) in
theorem native_ok (valid : Environment.timepoint time = true)
    (expected : ∀ key ∈ values.keys, ∃ d, definition.field key = .ok d) :
    (∃ p, native definition values time = .ok p) ↔ ∀ key items rows,
      values.get? key = some (.invalidItems items rows) → Takable definition key items rows := by
  have listed : each (fun key => (definition.field key).map (fun _ => ())) values.keys =
      .ok () := by
    rw [each_eq_ok]
    intro key member
    obtain ⟨d, known⟩ := expected key member
    rw [known]
    rfl
  have fresh := new_untouched definition
  have run := foldlM_nativeField_ok values _ (OrdMap.nodup_keys _)
    (fun key member => (fresh key member).1) valid fun key member => (fresh key member).2
  have whole : (∃ p, native definition values time = .ok p) ↔ ∃ p,
      (new definition).fields.keys.foldlM (nativeField values time) (new definition) = .ok p := by
    rw [native, listed, ok_bind]
    constructor
    · rintro ⟨p, h⟩
      obtain ⟨p', captured, -⟩ := of_bind h
      exact ⟨p', captured⟩
    · rintro ⟨p, captured⟩
      refine ⟨p.finish, ?_⟩
      rw [captured]
      rfl
  rw [whole, run]
  constructor
  · intro all key items rows given
    obtain ⟨d, known⟩ := expected key (OrdMap.mem_keys.mpr ⟨_, given⟩)
    have listed := CollectionDefinition.mem_of_field known
    have member : key ∈ (new definition).fields.keys :=
      OrdMap.mem_keys.mpr ⟨_, get?_new.mpr ⟨listed, rfl⟩⟩
    refine all key member items rows ?_
    rw [given]
    rfl
  · intro all key _ items rows given
    cases found : values.get? key with
    | none =>
      rw [found] at given
      cases given
    | some =>
      rw [found] at given
      cases given
      exact all key items rows found

end CollectionProgress

end

section

variable [Environment]

namespace CollectionProgress

variable {definition : CollectionDefinition} {values : OrdMap FieldKey NativeValue} {time : I64}

/-- The field holds its own outcome; a value is invalid by itself, or with all that the report holds it
exceeds the 16 MiB of a report. -/
def Isolated (definition : CollectionDefinition) (total : Nat) (key : FieldKey) (outcome : NativeValue)
    (f : FieldAttempt) : Prop :=
  match outcome with
  | .value v => f.value = some v ∨ f.quality = .invalid ∧
      ((∃ d, definition.field key = .ok d ∧ validated d v = none) ∨
        aggregateBytes < total + v.toVec.length)
  | .invalidItems _ _ => f.quality = .invalid
  | .invalid => f.quality = .invalid
  | .missing => f.quality = .missing
  | .failed => f.quality = .failed

theorem Isolated.mono {total total' : Nat} (grows : total ≤ total') {key : FieldKey}
    {outcome : NativeValue} {f : FieldAttempt} (isolated : Isolated definition total key outcome f) :
    Isolated definition total' key outcome f := by
  cases outcome with
  | value =>
    refine isolated.imp_right fun ⟨invalid, why⟩ => ⟨invalid, why.imp_right fun big => ?_⟩
    exact big.trans_le (Nat.add_le_add_right grows _)
  | _ => exact isolated

theorem isolated_value {total : Nat} {key : FieldKey} {f : FieldAttempt} {v : CollectedValue}
    {d : FieldDefinition} (known : definition.field key = .ok d) (value : f.value = validated d v)
    (digest : f.digest.isSome = true) (status : f.status = none) (terminal : f.terminal = none) :
    Isolated definition total key (.value v) (f.requalify true) := by
  cases valid : validated d v with
  | some w =>
    left
    have same : w = v := by
      rw [validated] at valid
      split at valid
      · exact (Option.some.inj valid).symm
      · cases valid
    rw [← same, ← valid]
    exact value
  | none =>
    have nothing : f.value = none := value.trans valid
    refine .inr ⟨?_, .inl ⟨d, known, valid⟩⟩
    simp [FieldAttempt.requalify, Inventory.quality, terminal, nothing, digest, status, isUnknown,
      isDeleted, isUnsupported]

theorem nativeField_isolated {p p' : CollectionProgress} {key : FieldKey}
    (untouched : p.Untouched key) (valid : Environment.timepoint time = true)
    (known : ∃ d, p.definition.field key = .ok d) (h : nativeField values time p key = .ok p') :
    ∃ f, p'.fields.get? key = some f ∧
      Isolated p.definition p.weight key ((values.get? key).getD .missing) (f.requalify true) := by
  have got : p.get key .unknownField = .ok FieldAttempt.default := get_eq_ok.mpr untouched.field
  have written : ∀ f, (p.write key f).fields.get? key = some f := by
    intro f
    rw [get?_write, if_pos rfl, untouched.field]
    rfl
  have ends : ∀ terminal, p.terminate key terminal time = .ok p' → ∃ f,
      p'.fields.get? key = some f ∧ (f.requalify true).quality = terminal := by
    intro terminal h
    rw [CollectionProgress.terminate, checkTime_ok valid, got] at h
    cases h
    exact ⟨_, written _, rfl⟩
  have stops : ∀ call, p.observeInvalid key time = call → sequel call = .ok p' → ∃ f,
      p'.fields.get? key = some f ∧ (f.requalify true).quality = .invalid := by
    rintro call rfl done
    have idle : ¬ (p.finished = true ∨ FieldAttempt.default.value.isSome = true ∨
        FieldAttempt.default.terminal.isSome = true) := by
      rw [untouched.unfinished]
      decide
    have same := sequel_eq_ok done
    rw [CollectionProgress.observeInvalid, checkTime_ok valid, got] at same
    dsimp only [attempt] at same
    rw [if_neg idle] at same
    cases same
    exact ⟨_, written _, rfl⟩
  unfold nativeField at h
  cases outcome : (values.get? key).getD .missing with
  | value v =>
    rw [outcome] at h
    dsimp only at h
    obtain ⟨_, field⟩ := known
    rcases untouched.observeValue valid ⟨_, field⟩ v with ⟨refused, big⟩ | ⟨f, taken⟩
    · rw [refused] at h
      obtain ⟨f, found, bad⟩ := stops _ rfl h
      exact ⟨f, found, .inr ⟨bad, .inr big⟩⟩
    have answers := p.observeValue_answers key v time
    rw [taken] at answers h
    obtain ⟨f', same, taken, -⟩ :=
      answers.captured rfl untouched.unfinished untouched.field field
    rw [same] at h
    obtain ⟨g, held, h⟩ := of_bind h
    rw [get_eq_ok, written] at held
    cases held
    cases h
    rw [write_write]
    refine ⟨_, written _, ?_⟩
    cases taken with
    | value _ _ field => exact isolated_value field rfl rfl rfl rfl
  | invalidItems items rows =>
    rw [outcome] at h
    obtain ⟨d, field⟩ := known
    have answers := p.observeInvalidItems_answers key items rows time
    rw [sequel_eq_ok h] at answers
    obtain ⟨f, rfl, taken, -⟩ := answers.captured rfl untouched.unfinished untouched.field field
    refine ⟨f, written f, ?_⟩
    cases taken
    rfl
  | invalid =>
    rw [outcome] at h
    exact ends .invalid h
  | missing =>
    rw [outcome] at h
    exact ends .missing h
  | failed =>
    rw [outcome] at h
    exact ends .failed h

end CollectionProgress

end

section

variable [Environment]

/-- What an adapter has for a field: the mapped rows of its list, or an outcome. -/
inductive Response where
  | rows (rows : List (Except Invalid Scalar))
  | outcome (outcome : NativeValue)

structure Answered (definition : CollectionDefinition) (responses : OrdMap FieldKey Response) :
    Prop where
  expected : ∀ key ∈ responses.keys, ∃ d, definition.field key = .ok d
  lists : ∀ key rows d, responses.get? key = some (.rows rows) → definition.field key = .ok d →
    ∃ items maxItems, d.valueType = .array items maxItems
  others : ∀ key outcome, responses.get? key = some (.outcome outcome) →
    ∀ items values, outcome ≠ .invalidItems items values

/-- The outcome of a response; a list that is refused has none. -/
def deliver (definition : CollectionDefinition) (key : FieldKey) : Response → NativeValue
  | .outcome outcome => outcome
  | .rows rows =>
      match definition.field key >>= fun d => NativeValue.list d rows with
      | .ok outcome => outcome
      | .error _ => .missing

namespace CollectionProgress

variable {definition : CollectionDefinition} {values : OrdMap FieldKey NativeValue} {time : I64}

theorem register_published (definitions : List FieldDefinition)
    {fields fields' : OrdMap FieldKey FieldDefinition}
    (h : definitions.foldlM register fields = .ok fields') :
    ∀ d ∈ definitions, d.validate = .ok () := by
  induction definitions generalizing fields with
  | nil => exact fun d member => nomatch member
  | cons e rest ih =>
    obtain ⟨next, first, later⟩ := of_bind h
    intro d member
    rcases mem_cons.mp member with rfl | inside
    · exact (of_check first).1
    · exact ih later d inside

theorem field_published {key : FieldKey} {d : FieldDefinition} (h : definition.field key = .ok d) :
    d.validate = .ok () := by
  obtain ⟨supplied, built⟩ := definition.built
  obtain ⟨⟨catalog, admitted⟩, sorted⟩ := Definition.new_eq_ok built
  obtain ⟨-, admitted⟩ := of_guard admitted
  obtain ⟨fields, registered, -⟩ := of_bind admitted
  unfold CollectionDefinition.field at h
  split at h
  · rename_i f found
    cases h
    have member := List.mem_of_find?_eq_some found
    rw [sorted] at member
    have given := (List.perm_insertionSort _ supplied).mem_iff.mp member
    exact register_published _ registered _ (List.mem_map_of_mem given)
  · cases h

theorem foldlM_nativeField_isolated (keys : List FieldKey) {p p' : CollectionProgress}
    (distinct : keys.Nodup) (untouched : ∀ key ∈ keys, p.Untouched key)
    (valid : Environment.timepoint time = true)
    (known : ∀ key ∈ keys, ∃ d, p.definition.field key = .ok d)
    (h : keys.foldlM (nativeField values time) p = .ok p') :
    p.weight ≤ p'.weight ∧ (∀ key ∉ keys, p'.fields.get? key = p.fields.get? key) ∧
      ∀ key ∈ keys, ∃ f, p'.fields.get? key = some f ∧ Isolated p.definition p'.weight key
        ((values.get? key).getD .missing) (f.requalify true) := by
  induction keys generalizing p with
  | nil =>
    cases h
    exact ⟨le_rfl, fun _ _ => rfl, fun key member => nomatch member⟩
  | cons key keys ih =>
    obtain ⟨fresh, distinct'⟩ := List.nodup_cons.mp distinct
    obtain ⟨p₁, step, later⟩ := of_bind h
    have here := untouched key (.head _)
    have field := known key (.head _)
    obtain ⟨f, found, own⟩ := nativeField_isolated here valid field step
    obtain ⟨same, heavier, rest⟩ := nativeField_untouched here field step
    have rest' : ∀ other ∈ keys, p₁.Untouched other := by
      intro other member
      exact rest other (fun equal => fresh (equal ▸ member))
        (untouched other (mem_cons_of_mem key member))
    have known' : ∀ other ∈ keys, ∃ d, p₁.definition.field other = .ok d := by
      rw [same]
      exact fun other member => known other (mem_cons_of_mem key member)
    obtain ⟨grows, outside, inside⟩ := ih distinct' rest' known' later
    rw [same] at inside
    refine ⟨heavier.trans grows, ?_, ?_⟩
    · intro other apart
      rw [mem_cons, not_or] at apart
      rw [outside other apart.2, nativeField_others apart.1 step]
    · intro other member
      rcases mem_cons.mp member with rfl | further
      · exact ⟨f, (outside _ fresh).trans found, own.mono (heavier.trans grows)⟩
      · exact inside other further

theorem native_isolated (valid : Environment.timepoint time = true) {p : CollectionProgress}
    (h : native definition values time = .ok p) (key : FieldKey) (f : FieldAttempt)
    (found : p.fields.get? key = some f) :
    Isolated definition p.weight key ((values.get? key).getD .missing) f := by
  obtain ⟨-, h⟩ := of_check h
  obtain ⟨p₁, captured, h⟩ := of_bind h
  cases h
  have fresh := new_untouched definition
  obtain ⟨-, outside, inside⟩ := foldlM_nativeField_isolated _ (OrdMap.nodup_keys _)
    (fun key member => (fresh key member).1) valid (fun key member => (fresh key member).2) captured
  rw [finish, OrdMap.get?_mapValues] at found
  obtain ⟨g, old, rfl⟩ := Option.map_eq_some_iff.mp found
  by_cases member : key ∈ (new definition).fields.keys
  · obtain ⟨f, now, own⟩ := inside key member
    rw [now] at old
    cases old
    rw [weight_finish]
    exact own
  · rw [outside key member, OrdMap.get?_eq_none.mpr member] at old
    cases old

end CollectionProgress

open CollectionProgress

/-- Every list has an outcome that its rows describe, and the report is captured with each field's
quality its own, exactly when the rows that each list keeps validate together. -/
theorem fields_isolated (definition : CollectionDefinition) (responses : OrdMap FieldKey Response)
    (time : I64) (valid : Environment.timepoint time = true)
    (answered : Answered definition responses) :
    ((∀ key rows d, responses.get? key = some (.rows rows) → definition.field key = .ok d →
        ∃ outcome, NativeValue.list d rows = .ok outcome ∧ ListOutcome d rows outcome) ∧
      ∃ p, native definition (responses.mapValues (deliver definition)) time = .ok p ∧
        ∀ key f, p.fields.get? key = some f → Isolated definition p.weight key
          (((responses.mapValues (deliver definition)).get? key).getD .missing) f) ↔
    ∀ key rows d, responses.get? key = some (.rows rows) → definition.field key = .ok d →
      Fits d rows := by
  have expected : ∀ key ∈ (responses.mapValues (deliver definition)).keys,
      ∃ d, definition.field key = .ok d := by
    intro key member
    rw [OrdMap.keys_mapValues] at member
    exact answered.expected key member
  have captured := native_ok definition (responses.mapValues (deliver definition)) valid
    expected
  -- The rows of a list are the only source of row results.
  have source : ∀ key items values,
      (responses.mapValues (deliver definition)).get? key = some (.invalidItems items values) →
        ∃ rows d, responses.get? key = some (.rows rows) ∧ definition.field key = .ok d ∧
          NativeValue.list d rows = .ok (.invalidItems items values) := by
    intro key items values found
    rw [OrdMap.get?_mapValues] at found
    obtain ⟨response, held, delivered⟩ := Option.map_eq_some_iff.mp found
    cases response with
    | outcome outcome => exact absurd delivered (answered.others key outcome held items values)
    | rows rows =>
      obtain ⟨d, known⟩ := answered.expected key (OrdMap.mem_keys.mpr ⟨_, held⟩)
      refine ⟨rows, d, held, known, ?_⟩
      rw [deliver, known, ok_bind] at delivered
      split at delivered
      · rename_i outcome listed
        rw [listed, delivered]
      · cases delivered
  constructor
  · rintro ⟨lists, p, taken, -⟩ key rows d held known
    obtain ⟨outcome, listed, -⟩ := lists key rows d held known
    obtain ⟨items, maxItems, type⟩ := answered.lists key rows d held known
    refine fits_of_list (keyed_of_validate (field_published known)) type listed ?_
    rintro quality values rfl
    have delivered : (responses.mapValues (deliver definition)).get? key =
        some (.invalidItems quality values) := by
      rw [OrdMap.get?_mapValues, held, Option.map_some, deliver, known, ok_bind, listed]
    obtain ⟨d', -, -, known', -, -, together⟩ :=
      (captured.mp ⟨p, taken⟩ key quality values delivered).list
    cases known.symm.trans known'
    exact together
  · intro fits
    have lists : ∀ key rows d, responses.get? key = some (.rows rows) →
        definition.field key = .ok d →
          ∃ outcome, NativeValue.list d rows = .ok outcome ∧ ListOutcome d rows outcome := by
      intro key rows d held known
      obtain ⟨items, maxItems, type⟩ := answered.lists key rows d held known
      have keyed := keyed_of_validate (field_published known)
      obtain ⟨outcome, listed⟩ := list_of_fits keyed type (fits key rows d held known)
      exact ⟨outcome, listed, list_outcome keyed type listed⟩
    refine ⟨lists, ?_⟩
    have takable : ∀ key items values,
        (responses.mapValues (deliver definition)).get? key = some (.invalidItems items values) →
          Takable definition key items values := by
      intro key items values found
      obtain ⟨rows, d, held, known, listed⟩ := source key items values found
      obtain ⟨type, maxItems, array⟩ := answered.lists key rows d held known
      have keyed := keyed_of_validate (field_published known)
      exact takable_of_list keyed array known (fits key rows d held known) listed
    obtain ⟨p, taken⟩ := captured.mpr takable
    exact ⟨p, taken, native_isolated valid taken⟩

end

section

variable [Environment]

theorem ScalarBudget.visitAll_append (depth : Nat) (as bs : List Scalar) (b : ScalarBudget) :
    ScalarBudget.visitAll depth (as ++ bs) b =
      ScalarBudget.visitAll depth as b >>= ScalarBudget.visitAll depth bs := by
  induction as generalizing b with
  | nil => rfl
  | cons a _ ih =>
    rw [List.cons_append, ScalarBudget.visitAll, ScalarBudget.visitAll]
    cases ScalarBudget.visit depth a b with
    | error => rfl
    | ok b' =>
      exact ih b'

end

namespace Sample

/-- Valid rows that are 64 KiB longer together than a value may be. -/
def longRows : List (Except Invalid Scalar) := List.replicate 257 (.ok (.string line))

theorem line_row : validatedRow lines (.ok (.string line)) = .ok (.string line) := by
  have item : lines.validateItem (.string line) = .ok () := by
    show (ValueType.validateValue (.string 65536 true) (.string line) >>= _) = _
    rw [line_valid, ok_bind, if_neg (by decide)]
  exact validatedRow_eq_ok.mpr ⟨rfl, item⟩

theorem longRows_valid : ∀ row ∈ longRows, ∃ v, validatedRow lines row = .ok v := by
  intro row member
  rw [List.eq_of_mem_replicate member]
  exact ⟨_, line_row⟩

theorem longRows_values :
    (rowValues longRows).filterMap id = List.replicate 257 (.string line) := by
  have values : rowValues longRows = List.replicate 257 (some (.string line)) := by
    rw [rowValues, longRows, List.map_replicate]
    rfl
  have all : ∀ n, (List.replicate n (some (Scalar.string line))).filterMap id =
      List.replicate n (.string line) := by
    intro n
    induction n with
    | zero => rfl
    | succ _ ih =>
      rw [List.replicate_succ, List.replicate_succ, List.filterMap_cons, ih]
      rfl
  rw [values, all]

theorem longRows_refused (b : ScalarBudget) :
    ScalarBudget.visit 0 (.array (List.replicate 257 (.string line))) ⟨0, 0⟩ ≠ .ok b := by
  have split : List.replicate 257 (Scalar.string line) =
      List.replicate 256 (.string line) ++ [.string line] := List.replicate_succ'
  have entered : ScalarBudget.enter 0 ⟨0, 0⟩ = .ok ⟨1, 0⟩ := rfl
  have one : (0 : Nat) + 1 = 1 := rfl
  have first : ScalarBudget.visitAll 1 (List.replicate 256 (.string line)) ⟨1, 0⟩ =
      .ok ⟨257, 16777216⟩ := visitAll_lines (by omega) 256 ⟨1, 0⟩ (by decide) (by decide)
  have node : checkedAdd 257 1 = .ok 258 := rfl
  have text : checkedAdd 16777216 65536 = .ok 16842752 := rfl
  have last : ScalarBudget.visitAll 1 [.string line] ⟨257, 16777216⟩ = .error .value := by
    have over_limit : line.toList.any (· = '\x00') = true ∨ 16842752 > 16 * 1024 * 1024 :=
      .inr (by decide)
    rw [ScalarBudget.visitAll, ScalarBudget.visit, ScalarBudget.enter]
    rw [node, ok_bind, if_neg (by decide), ok_bind, ScalarBudget.addBytes, line_size]
    rw [text, ok_bind, ok_bind]
    rw [if_pos over_limit]
    rfl
  rw [ScalarBudget.visit, entered, ok_bind, one, split, ScalarBudget.visitAll_append, first,
    ok_bind, last]
  intro h
  cases h

theorem lines_keyed : Keyed lines := by
  intro key v keyed
  cases keyed

/-- A list of valid, different rows is an error. -/
theorem long_list_refused : listing.field lines.key = .ok lines ∧ longRows.length ≤ 300 ∧
    (∀ row ∈ longRows, ∃ v, validatedRow lines row = .ok v) ∧
      ∀ outcome, NativeValue.list lines longRows ≠ .ok outcome := by
  have length : longRows.length = 257 := List.length_replicate
  refine ⟨rfl, by omega, longRows_valid, ?_⟩
  intro outcome h
  have few : ¬ (300 : UInt32).toNat < longRows.length := by
    rw [length]
    decide
  have type : lines.valueType = .array (.string 65536 true) 300 := rfl
  obtain ⟨quality, marks, equal⟩ := list_few longRows lines_keyed type few
  have anonymous : ∀ i, ¬ Repeats Scalar.same (rowIdentities lines longRows) i := by
    rintro i ⟨a, found, -⟩
    rw [rowIdentities, List.getElem?_map, Option.map_eq_some_iff] at found
    obtain ⟨row, held, identified⟩ := found
    have own := List.eq_of_mem_replicate (List.mem_of_getElem? held)
    rw [own, rowIdentity, line_row] at identified
    cases identified
  have all := marks.no_invalid.mpr ⟨longRows_valid, anonymous⟩
  rw [equal, if_neg all, keptValues_all marks all, longRows_values] at h
  obtain ⟨canonical, given, -⟩ := of_bind h
  have whole := (canonicalValue_list lines _).mp ⟨canonical, given⟩
  rw [FieldDefinition.validateScalar, guard_eq_ok, check_bind_eq_ok] at whole
  obtain ⟨b, visited, -⟩ := of_bind (ValueType.validateValue_valid whole.2.1)
  exact longRows_refused b visited

def shortResponses : OrdMap FieldKey Response :=
  OrdMap.empty.insert lines.key (.rows [.ok (.string "a"), .error .typeMismatch])

theorem shortResponses_answered : Answered listing shortResponses := by
  have only : ∀ key response, shortResponses.get? key = some response →
      key = lines.key ∧ response = .rows [.ok (.string "a"), .error .typeMismatch] := by
    intro key response held
    rw [shortResponses] at held
    rcases OrdMap.get?_insert_cases held with ⟨same, rfl⟩ | ⟨-, held⟩
    · exact ⟨same, rfl⟩
    · cases held
  have known : listing.field lines.key = .ok lines := rfl
  constructor
  · intro key member
    obtain ⟨response, held⟩ := OrdMap.mem_keys.mp member
    rw [(only key response held).1]
    exact ⟨lines, known⟩
  · intro key rows d held field
    rw [(only key _ held).1, known] at field
    cases field
    exact ⟨_, _, rfl⟩
  · intro key outcome held
    cases (only key _ held).2

/-- A list with an invalid row is captured exactly when the others fit. -/
theorem short_list_isolated :
    ((∀ key rows d, shortResponses.get? key = some (.rows rows) → listing.field key = .ok d →
        ∃ outcome, NativeValue.list d rows = .ok outcome ∧ ListOutcome d rows outcome) ∧
      ∃ p, CollectionProgress.native listing (shortResponses.mapValues (deliver listing)) time =
          .ok p ∧ ∀ key f, p.fields.get? key = some f → CollectionProgress.Isolated listing p.weight key
          (((shortResponses.mapValues (deliver listing)).get? key).getD .missing) f) ↔
    ∀ key rows d, shortResponses.get? key = some (.rows rows) → listing.field key = .ok d →
      Fits d rows :=
  fields_isolated listing shortResponses time rfl shortResponses_answered

end Sample

end RssMdm.Inventory
