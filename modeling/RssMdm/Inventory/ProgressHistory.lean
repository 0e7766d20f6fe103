/- module: Inventory/ProgressHistory
   source: crates/inventory/src/progress.rs
   digest: Every progress that can come about passes its own restoration check. -/

import RssMdm.Inventory.Restoration

set_option autoImplicit false

namespace RssMdm.Inventory

open Lib Lib.Fallible Lib.Int64
open List (mem_cons mem_cons_self)

section

variable [Environment]

namespace CollectionProgress

variable {key : FieldKey} {definition : CollectionDefinition}

theorem get?_new {f : FieldAttempt} :
    (new definition).fields.get? key = some f ↔
      key ∈ definition.fields.map CollectionField.key ∧ f = FieldAttempt.default := by
  rw [new, OrdMap.get?_mapValues, Option.map_eq_some_iff, ← OrdSet.mem_ofList, OrdMap.mem_keys]
  constructor
  · rintro ⟨u, found, rfl⟩
    exact ⟨⟨u, found⟩, rfl⟩
  · rintro ⟨⟨u, found⟩, rfl⟩
    exact ⟨u, found, rfl⟩

theorem field_of_key (mem : key ∈ definition.fields.map CollectionField.key) :
    ∃ d, definition.field key = .ok d := by
  obtain ⟨field, listed, rfl⟩ := List.mem_map.mp mem
  exact ⟨field.definition, CollectionDefinition.field_of_mem listed⟩

attribute [local simp] FieldAttempt.default

theorem default_sound (d : FieldDefinition) : Sound d false FieldAttempt.default where
  reason := by simp
  rows := by simp [arrayValues]
  items := rfl
  retained := rfl
  terminal := rfl
  received := by simp
  digest := by simp
  quality := rfl

theorem size_new (definition : CollectionDefinition) :
    (new definition).fields.size = definition.fields.length := by
  have keys : (OrdSet.ofList (definition.fields.map CollectionField.key)).keys.Perm
      (definition.fields.map CollectionField.key) :=
    (List.perm_ext_iff_of_nodup (OrdMap.nodup_keys _) definition.nodup_keys).mpr
      (fun key => OrdSet.mem_ofList)
  have length := keys.length_eq
  simpa [new, OrdMap.size, OrdMap.mapValues, OrdMap.keys] using length

theorem new_restorable (definition : CollectionDefinition) : Restorable (new definition) := by
  refine ⟨size_new definition, ?_⟩
  intro key f h
  obtain ⟨mem, rfl⟩ := get?_new.mp h
  obtain ⟨d, found⟩ := field_of_key mem
  exact ⟨d, found, default_sound d⟩

structure Captured (d : FieldDefinition) (outcome : NativeValue) (f : FieldAttempt) : Prop where
  sound : Sound d false f
  given : f.confirmed = true → ∃ v, outcome = .value v
  bare : (∀ v, outcome ≠ .value v) → (∀ items values, outcome ≠ .invalidItems items values) →
    f.value = none ∧ f.confirmed = false ∧ f.items = []
  live : f.terminal ≠ some .deleted

variable {p' p : CollectionProgress} {time : I64}

theorem terminate_captured {terminal : Quality} (h : p.terminate key terminal time = .ok p')
    (untouched : p.fields.get? key = some FieldAttempt.default)
    (ends : terminal ∈ [Quality.missing, .failed, .invalid]) (d : FieldDefinition)
    {outcome : NativeValue} : ∃ f, p' = p.write key f ∧ Captured d outcome f := by
  obtain ⟨valid, h⟩ := of_check h
  obtain ⟨f, old, h⟩ := of_bind h
  rw [get_eq_ok, untouched] at old
  cases old
  cases h
  have sound := default_sound d
  refine ⟨_, rfl, ⟨sound.reason, ?_, rfl, rfl, ?_, ?_, sound.digest, rfl⟩, ?_, ?_, ?_⟩
  · intro values list
    cases list
  · simp only [mem_cons, List.not_mem_nil, or_false] at ends
    rcases ends with rfl | rfl | rfl <;> rfl
  · intro t eq
    cases eq
    exact checkTime_eq_ok valid
  · intro confirmed
    cases confirmed
  · exact fun _ _ => ⟨rfl, rfl, rfl⟩
  · intro eq
    cases Option.some.inj eq
    simp at ends

theorem sequel_eq_ok {call : Call} (h : sequel call = .ok p') :
    call = (.ok (), p') := by
  obtain ⟨result, p⟩ := call
  cases result with
  | error => cases h
  | ok =>
    cases h
    rfl

theorem Answers.written {p p' : CollectionProgress} {op : Operation}
    (h : p.Answers op (.ok (), p')) : ∃ key f f', p.fields.get? key = some f ∧
      Written p.definition p.finished op key f f' ∧ p' = p.write key f' := by
  rcases h with ⟨e, failed⟩ | ⟨key, f, f', old, written, done⟩
  · cases (Prod.mk.inj failed).1
  · exact ⟨key, f, f', old, written, (Prod.mk.inj done).2⟩

variable {d : FieldDefinition}

theorem Sound.confirm {f : FieldAttempt} (sound : Sound d false f) (unsettled : f.terminal = none) :
    Sound d false ({ f with confirmed := true }.requalify false) := by
  refine ⟨sound.reason, sound.rows, sound.items, sound.retained, ?_, sound.received, sound.digest,
    rfl⟩
  simp [badTerminal, FieldAttempt.requalify, unsettled]

theorem Answers.captured {op : Operation} (h : p.Answers op (.ok (), p'))
    (about : op.key = some key) (unfinished : p.finished = false)
    (untouched : p.fields.get? key = some FieldAttempt.default)
    (found : p.definition.field key = .ok d) :
    ∃ f, p' = p.write key f ∧ Written p.definition false op key FieldAttempt.default f ∧
      Sound d false f := by
  obtain ⟨k, f, f', old, written, rfl⟩ := h.written
  cases Option.some.inj (about.symm.trans written.key_eq)
  rw [untouched] at old
  cases old
  rw [unfinished] at written
  exact ⟨f', rfl, written, written.sound found (default_sound d)⟩

variable {values : OrdMap FieldKey NativeValue}

theorem nativeField_captured (h : nativeField values time p key = .ok p')
    (unfinished : p.finished = false) (untouched : p.fields.get? key = some FieldAttempt.default)
    (found : p.definition.field key = .ok d) :
    ∃ f, p' = p.write key f ∧ Captured d ((values.get? key).getD .missing) f := by
  unfold nativeField at h
  cases outcome : (values.get? key).getD .missing with
  | value v =>
    simp only [outcome] at h
    cases call : p.observeValue key v time with
    | mk result =>
      have answers := p.observeValue_answers key v time
      simp only [call] at answers h
      cases result with
      | ok =>
        obtain ⟨f, rfl, written, sound⟩ := answers.captured rfl unfinished untouched found
        have unsettled : f.terminal = none := by
          cases written
          rfl
        obtain ⟨f₁, old, h⟩ := of_bind h
        rw [get_eq_ok, get?_write, if_pos rfl, untouched] at old
        cases old
        cases h
        refine ⟨_, write_write p key _ _, Sound.confirm sound unsettled, fun _ => ⟨v, rfl⟩,
          fun none => absurd rfl (none v), ?_⟩
        intro ended
        rw [FieldAttempt.requalify, unsettled] at ended
        cases ended
      | error e =>
        rcases answers with ⟨e', failed⟩ | ⟨k, f, f', -, -, done⟩
        · cases (Prod.mk.inj failed).2
          by_cases value : e = .value
          · -- The budget was exceeded, nothing was written and the field becomes invalid.
            subst value
            have invalid := p.observeInvalid_answers key time
            rw [sequel_eq_ok h] at invalid
            obtain ⟨f, rfl, written, sound⟩ := invalid.captured rfl unfinished untouched found
            cases written
            exact ⟨_, rfl, sound, nofun, fun none => absurd rfl (none v), nofun⟩
          · cases e <;> first | cases h | exact absurd rfl value
        · cases (Prod.mk.inj done).1
  | invalidItems items rows =>
    simp only [outcome] at h
    have answers := p.observeInvalidItems_answers key items rows time
    rw [sequel_eq_ok h] at answers
    obtain ⟨f, rfl, written, sound⟩ := answers.captured rfl unfinished untouched found
    cases written
    exact ⟨_, rfl, sound, nofun, fun _ none => absurd rfl (none items rows), nofun⟩
  | invalid | missing | failed =>
    simp only [outcome] at h
    exact terminate_captured h untouched (by simp) d

theorem foldlM_nativeField (keys : List FieldKey)
    (h : keys.foldlM (nativeField values time) p = .ok p') (distinct : keys.Nodup)
    (unfinished : p.finished = false)
    (untouched : ∀ key ∈ keys, p.fields.get? key = some FieldAttempt.default)
    (known : ∀ key ∈ keys, ∃ d, p.definition.field key = .ok d) :
    (p'.definition = p.definition ∧ p'.completeCoverage = p.completeCoverage ∧
        p'.fields.size = p.fields.size) ∧
      (∀ key ∉ keys, p'.fields.get? key = p.fields.get? key) ∧
      ∀ key ∈ keys, ∃ d f, p.definition.field key = .ok d ∧ p'.fields.get? key = some f ∧
        Captured d ((values.get? key).getD .missing) f := by
  induction keys generalizing p with
  | nil =>
    cases h
    exact ⟨⟨rfl, rfl, rfl⟩, fun _ _ => rfl, by simp⟩
  | cons key _ ih =>
    obtain ⟨p₁, first, later⟩ := of_bind h
    obtain ⟨d, found⟩ := known key (.head _)
    obtain ⟨f, rfl, captured⟩ := nativeField_captured first unfinished
      (untouched key (.head _)) found
    obtain ⟨fresh, distinct⟩ := List.nodup_cons.mp distinct
    have others : ∀ k, k ≠ key → (p.write key f).fields.get? k = p.fields.get? k := by
      intro k other
      rw [get?_write, if_neg other]
    have written : (p.write key f).fields.get? key = some f := by
      rw [get?_write, if_pos rfl, untouched key mem_cons_self]
      rfl
    obtain ⟨⟨definition, coverage, size⟩, outside, inside⟩ := ih later distinct unfinished
      (fun k mem => (others k (fun same => fresh (same ▸ mem))).trans
        (untouched k (.tail _ mem)))
      (fun k mem => known k (.tail _ mem))
    refine ⟨⟨definition, coverage, ?_⟩, ?_, ?_⟩
    · rw [size]
      simp [write, OrdMap.size, OrdMap.modify, OrdMap.mapValues]
    · intro k notMem
      rw [mem_cons, not_or] at notMem
      rw [outside k notMem.2, others k notMem.1]
    · intro k mem
      rcases mem_cons.mp mem with rfl | mem
      · exact ⟨d, f, found, (outside _ fresh).trans written, captured⟩
      · exact inside k mem

/-- What a native capture leaves behind. -/
structure NativeResult (definition : CollectionDefinition) (values : OrdMap FieldKey NativeValue)
    (p : CollectionProgress) : Prop where
  frozen : p.definition = definition
  finished : p.finished = true
  size : p.fields.size = definition.fields.length
  fields : ∀ key f, p.fields.get? key = some f → ∃ d f₀, definition.field key = .ok d ∧
    Captured d ((values.get? key).getD .missing) f₀ ∧ f = f₀.requalify true

theorem native_result (h : native definition values time = .ok p) :
    NativeResult definition values p := by
  obtain ⟨-, h⟩ := of_check h
  obtain ⟨p₁, captured, h⟩ := of_bind h
  cases h
  have listed : ∀ key ∈ (new definition).fields.keys,
      key ∈ definition.fields.map CollectionField.key := by
    intro key mem
    obtain ⟨f, found⟩ := OrdMap.mem_keys.mp mem
    exact (get?_new.mp found).1
  obtain ⟨⟨same, -, size⟩, outside, inside⟩ := foldlM_nativeField _ captured (OrdMap.nodup_keys _) rfl
    (fun key mem => get?_new.mpr ⟨listed key mem, rfl⟩) (fun key mem => field_of_key (listed key mem))
  refine ⟨same, rfl, ?_, ?_⟩
  · have finished : p₁.finish.fields.size = p₁.fields.size := by
      simp [finish, OrdMap.size, OrdMap.mapValues]
    rw [finished, size, size_new]
  · intro key f h
    rw [finish, OrdMap.get?_mapValues] at h
    obtain ⟨f₁, old, rfl⟩ := Option.map_eq_some_iff.mp h
    by_cases mem : key ∈ (new definition).fields.keys
    · obtain ⟨d, f₀, found, now, captured⟩ := inside key mem
      rw [now] at old
      cases old
      exact ⟨d, _, found, captured, rfl⟩
    · rw [outside key mem, OrdMap.get?_eq_none.mpr mem] at old
      cases old

theorem NativeResult.restorable (result : NativeResult definition values p) : Restorable p := by
  refine ⟨result.frozen ▸ result.size, ?_⟩
  intro key f h
  obtain ⟨d, f₀, found, captured, rfl⟩ := result.fields key f h
  rw [result.frozen, result.finished]
  exact ⟨d, found, captured.sound.requalify true⟩

omit [Environment] in
theorem parse_eq_ok {text : String} (h : FieldKey.parse text = .ok key) :
    key = ⟨text⟩ := by
  unfold FieldKey.parse at h
  split at h
  · cases h
  · rw [guard_eq_ok, guard_eq_ok, guard_eq_ok] at h
    exact (Except.ok.inj h.2.2.2).symm

theorem foldlM_readChange (changes : List Change) {values' : OrdMap FieldKey NativeValue}
    (h : changes.foldlM (readChange definition) values = .ok values') :
    (∀ key outcome, values.get? key = some outcome → values'.get? key = some outcome) ∧
      (∀ c ∈ changes, ∃ d outcome, reportedValue d c = .ok outcome ∧
        values'.get? ⟨c.key⟩ = some outcome) ∧
      ∀ key outcome, values'.get? key = some outcome → values.get? key = some outcome ∨
        ∃ c ∈ changes, c.key = key.asStr ∧ ∃ d, reportedValue d c = .ok outcome := by
  induction changes generalizing values with
  | nil =>
    cases h
    exact ⟨fun _ _ h => h, by simp, fun _ _ h => .inl h⟩
  | cons c _ ih =>
    obtain ⟨values₁, first, later⟩ := of_bind h
    obtain ⟨key, parsed, first⟩ := of_bind first
    obtain ⟨d, -, first⟩ := of_bind first
    obtain ⟨outcome, read, first⟩ := of_bind first
    obtain ⟨fresh, first⟩ := of_guard first
    cases first
    cases parse_eq_ok parsed
    obtain ⟨kept, given, only⟩ := ih later
    have unread : values.get? ⟨c.key⟩ = none := by simpa [OrdMap.contains] using fresh
    refine ⟨?_, ?_, ?_⟩
    · intro key outcome' old
      apply kept
      exact OrdMap.get?_insert_absent unread old
    · intro c' mem
      rcases mem_cons.mp mem with rfl | mem
      · exact ⟨d, outcome, read, kept _ _ (by rw [OrdMap.get?_insert, if_pos rfl])⟩
      · exact given c' mem
    · intro key outcome' now
      rcases only key outcome' now with old | ⟨c', mem, same, read'⟩
      · rw [OrdMap.get?_insert] at old
        by_cases here : key = ⟨c.key⟩
        · rw [if_pos here] at old
          cases old
          exact .inr ⟨c, .head _, here ▸ rfl, d, read⟩
        · rw [if_neg here] at old
          exact .inl old
      · exact .inr ⟨c', .tail _ mem, same, read'⟩

theorem reportedValues_deletes {body : Body} (h : reportedValues definition body = .ok values)
    (mem : key ∈ definition.fields.map CollectionField.key) (deleted : deletes body key = true) :
    (values.get? key).getD .missing = .missing ∨ (values.get? key).getD .missing = .failed := by
  obtain ⟨read, changes, h⟩ := of_bind h
  obtain ⟨-, given, only⟩ := foldlM_readChange _ changes
  cases h
  by_cases failed : body.isFailed = true
  · right
    obtain ⟨u, found⟩ := OrdMap.mem_keys.mp (OrdSet.mem_ofList.mpr mem)
    rw [if_pos failed, OrdMap.get?_mapValues, found]
    rfl
  · left
    rw [if_neg failed]
    simp only [deletes, Bool.or_eq_true, Bool.and_eq_true, Bool.not_eq_true', List.any_eq_false,
      List.any_eq_true, decide_eq_true_eq, Option.isNone_iff_eq_none] at deleted
    rcases deleted with ⟨-, absent⟩ | ⟨c, mem, same, none⟩
    · cases found : read.get? key with
      | none => rfl
      | some outcome =>
        rcases only key outcome found with old | ⟨c, mem, same, -⟩
        · cases old
        · exact absurd same (absent c mem)
    · obtain ⟨d, outcome, value, found⟩ := given c mem
      simp only [reportedValue, none] at value
      cases value
      have here : (⟨c.key⟩ : FieldKey) = key := by rw [same]; rfl
      rw [← here, found]
      rfl

theorem reportedValues_cases {body : Body} (h : reportedValues definition body = .ok values)
    (key : FieldKey) :
    (values.get? key).getD .missing = .missing ∨ (values.get? key).getD .missing = .failed ∨
      (∃ v, (values.get? key).getD .missing = .value v) ∧
        ∃ c ∈ body.changes, c.key = key.asStr ∧ c.value.isSome = true := by
  obtain ⟨read, changes, h⟩ := of_bind h
  obtain ⟨-, -, only⟩ := foldlM_readChange _ changes
  cases h
  by_cases failed : body.isFailed = true
  · rw [if_pos failed, OrdMap.get?_mapValues]
    cases (OrdSet.ofList (definition.fields.map CollectionField.key)).get? key with
    | none => exact .inl rfl
    | some => exact .inr (.inl rfl)
  rw [if_neg failed]
  cases found : read.get? key with
  | none => exact .inl rfl
  | some =>
    rcases only key _ found with old | ⟨c, mem, same, d, value⟩
    · cases old
    unfold reportedValue at value
    cases bytes : c.value with
    | none =>
      rw [bytes] at value
      cases value
      exact .inl rfl
    | some =>
      rw [bytes] at value
      obtain ⟨v, -, rfl⟩ := map_eq_ok.mp value
      exact .inr (.inr ⟨⟨v, rfl⟩, c, mem, same, congrArg Option.isSome bytes⟩)

theorem reportedValues_value {body : Body} (h : reportedValues definition body = .ok values)
    {v : CollectedValue} (given : (values.get? key).getD .missing = .value v) :
    ∃ c ∈ body.changes, c.key = key.asStr ∧ c.value.isSome = true := by
  rcases reportedValues_cases h key with missing | failed | ⟨-, sent⟩
  · cases given.symm.trans missing
  · cases given.symm.trans failed
  · exact sent

end CollectionProgress

/-- How a progress comes to be. -/
inductive Origin where
  | new
  | native (values : OrdMap FieldKey NativeValue) (time : I64)
  | nativePartial (values : OrdMap FieldKey NativeValue) (time : I64)
  | reported (body : Body) (time : I64)

namespace Origin

def start (definition : CollectionDefinition) : Origin → Except Invalid CollectionProgress
  | .new => .ok (CollectionProgress.new definition)
  | .native values time => CollectionProgress.native definition values time
  | .nativePartial values time => CollectionProgress.nativePartial definition values time
  | .reported body time => CollectionProgress.reported definition body time

/-- A native adapter or a report gave a value for the field. -/
def gives : Origin → FieldKey → Prop
  | .new, _ => False
  | .native values _, key => ∃ v, values.get? key = some (.value v)
  | .nativePartial values _, key => ∃ v, values.get? key = some (.value v)
  | .reported body _, key => ∃ c ∈ body.changes, c.key = key.asStr ∧ c.value.isSome = true

def deletes : Origin → FieldKey → Prop
  | .reported body _, key => CollectionProgress.deletes body key = true
  | _, _ => False

structure Started (definition : CollectionDefinition) (origin : Origin) (p : CollectionProgress) :
    Prop where
  frozen : p.definition = definition
  restorable : Restorable p
  confirmed : ∀ key f, p.fields.get? key = some f → f.confirmed = true → origin.gives key
  tombstones : ∀ key f, p.fields.get? key = some f → f.terminal = some .deleted → origin.deletes key

variable {values : OrdMap FieldKey NativeValue}

omit [Environment] in
theorem getD_value {key : FieldKey} {v : CollectedValue}
    (h : (values.get? key).getD .missing = .value v) : values.get? key = some (.value v) := by
  cases found : values.get? key with
  | none =>
    rw [found] at h
    cases h
  | some =>
    rw [found] at h
    cases h
    rfl

variable {p : CollectionProgress} {definition : CollectionDefinition}

theorem native_started {origin : Origin}
    (result : CollectionProgress.NativeResult definition values p)
    (gives : ∀ key v, values.get? key = some (.value v) → origin.gives key) :
    Started definition origin p := by
  refine ⟨result.frozen, result.restorable, ?_, ?_⟩
  · intro key f h confirmed
    obtain ⟨d, f₀, -, captured, rfl⟩ := result.fields key f h
    obtain ⟨v, given⟩ := captured.given confirmed
    exact gives key v (getD_value given)
  · intro key f h ended
    obtain ⟨d, f₀, -, captured, rfl⟩ := result.fields key f h
    exact absurd ended captured.live

theorem reported_field {body : Body}
    (read : CollectionProgress.reportedValues definition body = .ok values) {key : FieldKey}
    {d : FieldDefinition} (found : definition.field key = .ok d) {f₀ : FieldAttempt}
    (captured : CollectionProgress.Captured d ((values.get? key).getD .missing) f₀) :
    let f := if CollectionProgress.deletes body key then
        { f₀.requalify true with terminal := some .deleted, quality := .deleted }
      else f₀.requalify true
    Sound d true f ∧
      (f.confirmed = true → ∃ c ∈ body.changes, c.key = key.asStr ∧ c.value.isSome = true) ∧
      (f.terminal = some .deleted → CollectionProgress.deletes body key = true) := by
  cases deleted : CollectionProgress.deletes body key with
  | false =>
    refine ⟨captured.sound.requalify true, ?_, fun ended => absurd ended captured.live⟩
    intro confirmed
    obtain ⟨v, given⟩ := captured.given confirmed
    exact CollectionProgress.reportedValues_value read given
  | true =>
    have bare : f₀.value = none ∧ f₀.confirmed = false ∧ f₀.items = [] := by
      have missing := captured.bare
      rcases CollectionProgress.reportedValues_deletes read (CollectionDefinition.mem_of_field found)
        deleted with none | none
      · rw [none] at missing
        exact missing nofun nofun
      · rw [none] at missing
        exact missing nofun nofun
    obtain ⟨value, confirmed, items⟩ := bare
    refine ⟨⟨captured.sound.reason, ?_, ?_, ?_, ?_, captured.sound.received, captured.sound.digest,
      rfl⟩, ?_, fun _ => rfl⟩
    · intro values list
      simp [FieldAttempt.requalify, value, arrayValues] at list
    · simp [checkItems, FieldAttempt.requalify, items]
    · simp [checkRetained, FieldAttempt.requalify, value]
    · simp [badTerminal, FieldAttempt.requalify, value, confirmed]
    · intro given
      have given : f₀.confirmed = true := given
      rw [confirmed] at given
      cases given

theorem reported_started {body : Body} {time : I64}
    (h : CollectionProgress.reported definition body time = .ok p) :
    Started definition (.reported body time) p := by
  obtain ⟨values, read, h⟩ := of_bind h
  obtain ⟨p₀, captured, h⟩ := of_bind h
  have result := CollectionProgress.native_result captured
  cases h
  have fields : ∀ {key f}, (p₀.fields.mapValues (fun key f =>
      if CollectionProgress.deletes body key then { f with terminal := some .deleted, quality := .deleted }
      else f)).get? key = some f → ∃ d, definition.field key = .ok d ∧ Sound d true f ∧
        (f.confirmed = true → ∃ c ∈ body.changes, c.key = key.asStr ∧ c.value.isSome = true) ∧
        (f.terminal = some .deleted → CollectionProgress.deletes body key = true) := by
    intro key f h
    rw [OrdMap.get?_mapValues] at h
    obtain ⟨f₁, old, rfl⟩ := Option.map_eq_some_iff.mp h
    obtain ⟨d, f₀, found, captured, rfl⟩ := result.fields key f₁ old
    exact ⟨d, found, reported_field read found captured⟩
  refine ⟨result.frozen, ⟨?_, ?_⟩, ?_, ?_⟩
  · have same : ∀ g : FieldKey → FieldAttempt → FieldAttempt,
        (p₀.fields.mapValues g).size = p₀.fields.size := by
      intro g
      simp [OrdMap.size, OrdMap.mapValues]
    exact (same _).trans (result.frozen ▸ result.size)
  · intro key f h
    obtain ⟨d, found, sound, -⟩ := fields h
    show ∃ d, p₀.definition.field key = .ok d ∧ Sound d p₀.finished f
    rw [result.frozen, result.finished]
    exact ⟨d, found, sound⟩
  · intro key f h
    obtain ⟨d, -, -, confirmed, -⟩ := fields h
    exact confirmed
  · intro key f h
    obtain ⟨d, -, -, -, tombstone⟩ := fields h
    exact tombstone

theorem started {origin : Origin} (h : origin.start definition = .ok p) :
    Started definition origin p := by
  cases origin with
  | new =>
    cases h
    refine ⟨rfl, CollectionProgress.new_restorable definition, ?_, ?_⟩
    · intro key f found confirmed
      obtain ⟨-, rfl⟩ := CollectionProgress.get?_new.mp found
      cases confirmed
    · intro key f found ended
      obtain ⟨-, rfl⟩ := CollectionProgress.get?_new.mp found
      cases ended
  | native =>
    exact native_started (CollectionProgress.native_result h) (fun key v given => ⟨v, given⟩)
  | nativePartial values time =>
    obtain ⟨p₀, captured, h⟩ := of_bind h
    cases h
    have captured : Started definition (.native values time) p₀ :=
      native_started (CollectionProgress.native_result captured) (fun key v given => ⟨v, given⟩)
    obtain ⟨frozen, restorable, confirmed, tombstones⟩ := captured
    exact ⟨frozen, ⟨restorable.size, restorable.fields⟩, confirmed, tombstones⟩
  | reported => exact reported_started h

end Origin

/-- Whatever calls are made after a start, the progress restores to itself, the quality of each field
follows from its evidence, and a call that fails changes nothing. -/
theorem progress_restorable (definition : CollectionDefinition) (origin : Origin)
    (p : CollectionProgress) (start : origin.start definition = .ok p) (ops : List Operation) :
    CollectionProgress.tryFrom (p.run ops).toDocument = .ok (p.run ops) ∧
      (∀ key f, (p.run ops).fields.get? key = some f →
        f.quality = quality f (p.run ops).finished) ∧
      ∀ op e p', (p.run ops).apply op = (.error e, p') → p' = p.run ops := by
  have restorable : Restorable (p.run ops) := (Origin.started start).restorable.run ops
  refine ⟨tryFrom_eq_ok.mpr restorable, ?_, ?_⟩
  · intro key f found
    obtain ⟨d, -, sound⟩ := restorable.fields key f found
    exact sound.quality
  · intro op e p' failed
    exact CollectionProgress.apply_error failed

end

namespace Sample

/-- The two zeros as they are written; any other double by its bits. -/
def numberText (n : NotNan) : List Char :=
  if n.bits = 0 then "0.0".toList
  else if n.bits = 0x8000000000000000#64 then "-0.0".toList
  else Json.decimal n.bits.toNat

/-- Nonnegative seconds and plain identifiers; no report is read here. -/
scoped instance environment : Environment where
  timepoint time := 0 ≤ time.val
  toUppercase := String.toUpper
  parseUuid _ := none
  observationId s := 1 ≤ s.utf8ByteSize && s.utf8ByteSize ≤ 256
  seriesId s := 1 ≤ s.utf8ByteSize && s.utf8ByteSize ≤ 256
  numberText := numberText
  fromSlice _ := none

def flag : FieldDefinition where
  timeSeries := none
  key := ⟨"custom.flag"⟩
  version := 1
  valueType := .boolean
  nullable := false
  manual := false
  sources := OrdMap.empty.insert .agentBuiltin 1
  platforms := [.windows]
  sensitivity := .standard
  unit := none
  searchable := false
  itemKey := none

def flagField : CollectionField := ⟨flag, .device⟩

theorem built_of_isOk [Environment] {dataset version : String} {source : Source} {fields : List CollectionField}
    (h : (Definition.new dataset version source fields).isOk = true) :
    Definition.new dataset version source fields =
      .ok { dataset, version, source, fields := fields.insertionSort (fun a b => a.key ≤ b.key) } := by
  cases new : Definition.new dataset version source fields with
  | error =>
    rw [new] at h
    cases h
  | ok => rw [(Definition.new_eq_ok new).2]

def definition : CollectionDefinition where
  dataset := "flags"
  version := "1"
  source := .agentBuiltin
  fields := [flagField]
  built := ⟨[flagField], built_of_isOk (by decide)⟩

def time : I64 := ⟨60, I64.sixty_lo, I64.sixty_hi⟩

/-- The value arrives before its status. -/
def calls : List Operation :=
  [.observeValue flag.key (.value (.boolean true)) time, .observeStatus flag.key 200 time, .finish]

theorem progress_restorable_flag :
    Origin.new.start definition = .ok (CollectionProgress.new definition) ∧
      CollectionProgress.tryFrom ((CollectionProgress.new definition).run calls).toDocument =
        .ok ((CollectionProgress.new definition).run calls) :=
  ⟨rfl, (progress_restorable definition .new _ rfl calls).1⟩

end Sample

end RssMdm.Inventory
