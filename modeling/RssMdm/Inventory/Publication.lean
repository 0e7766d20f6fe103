/- module: Inventory/Publication
   source: crates/inventory/src/progress.rs
   digest: What a progress publishes is confirmed, and a snapshot leaves only deletions out. -/

import RssMdm.Inventory.ProgressHistory

set_option autoImplicit false

namespace RssMdm.Inventory

open Lib Lib.Fallible Lib.Int64

section

variable [Environment]

namespace CollectionProgress

theorem apply_definition (p : CollectionProgress) (op : Operation) :
    (p.apply op).2.definition = p.definition := by
  rcases p.apply_cases op with (⟨e, failed⟩ | ⟨key, f, f', -, -, done⟩) | ⟨-, done⟩
  · rw [failed]
  · rw [done]
    rfl
  · rw [done]
    rfl

theorem run_definition (p : CollectionProgress) (ops : List Operation) :
    (p.run ops).definition = p.definition := by
  unfold run
  induction ops generalizing p with
  | nil => rfl
  | cons op _ ih =>
    rw [List.foldl_cons, ih]
    exact p.apply_definition op

theorem apply_field (p : CollectionProgress) (op : Operation) (key : FieldKey) :
    (p.apply op).2.fields.get? key = p.fields.get? key ∨
      ∃ f f', p.fields.get? key = some f ∧ (p.apply op).2.fields.get? key = some f' ∧
        (Written p.definition p.finished op key f f' ∨ f' = f.requalify true) := by
  rcases p.apply_cases op with (⟨e, failed⟩ | ⟨k, f, f', old, written, done⟩) | ⟨-, done⟩
  · rw [failed]
    exact .inl rfl
  · rw [done, get?_write]
    by_cases here : key = k
    · subst here
      rw [if_pos rfl, old]
      exact .inr ⟨f, f', rfl, rfl, .inl written⟩
    · rw [if_neg here]
      exact .inl rfl
  · have ended : (p.apply op).2.fields.get? key =
        (p.fields.get? key).map (fun f => f.requalify true) := by
      rw [done, finish, OrdMap.get?_mapValues]
    cases old : p.fields.get? key with
    | none =>
      rw [old] at ended
      exact .inl ended
    | some f =>
      rw [old] at ended
      exact .inr ⟨f, _, rfl, ended, .inr rfl⟩

variable {p : CollectionProgress}

theorem run_field {Q : Option FieldAttempt → Prop} {key : FieldKey} (restorable : Restorable p)
    {ops : List Operation}
    (written : ∀ op ∈ ops, ∀ d finished f f', Sound d finished f → p.definition.field key = .ok d →
      Written p.definition finished op key f f' → Q (some f) → Q (some f'))
    (ended : ∀ f, Q (some f) → Q (some (f.requalify true))) (start : Q (p.fields.get? key)) :
    Q ((p.run ops).fields.get? key) := by
  unfold run
  induction ops generalizing p with
  | nil => exact start
  | cons op _ ih =>
    apply ih (restorable.apply op)
    · rw [p.apply_definition op]
      exact fun later mem => written later (.tail _ mem)
    · rcases p.apply_field op key with same | ⟨f, f', old, new, step⟩
      · rw [same]
        exact start
      · rw [old] at start
        rw [new]
        obtain ⟨d, found, sound⟩ := restorable.fields key f old
        rcases step with step | rfl
        · exact written op (.head _) d _ f f' sound found step start
        · exact ended f start

theorem field_present (restorable : Restorable p) {field : CollectionField}
    (mem : field ∈ p.definition.fields) : ∃ f, p.fields.get? field.key = some f := by
  have inside : p.fields.keys ⊆ p.definition.fields.map CollectionField.key := by
    intro key mem
    obtain ⟨f, found⟩ := OrdMap.mem_keys.mp mem
    obtain ⟨d, known, -⟩ := restorable.fields key f found
    exact CollectionDefinition.mem_of_field known
  have length : (p.definition.fields.map CollectionField.key).length ≤ p.fields.keys.length := by
    rw [List.length_map, OrdMap.keys, List.length_map]
    exact restorable.size.ge
  have perm := (List.subperm_of_subset p.fields.nodup_keys inside).perm_of_length_le length
  exact OrdMap.mem_keys.mp (perm.mem_iff.mpr (List.mem_map.mpr ⟨field, mem, rfl⟩))

end CollectionProgress

end

section

variable [Environment]

/-- A protocol status, a native adapter or a report stands behind the field. -/
def Vouched (origin : Origin) (key : FieldKey) (f : FieldAttempt) : Prop :=
  (∃ code, f.status = some code ∧ accepted code = true) ∨ origin.gives key

structure Caused (origin : Origin) (key : FieldKey) (f : FieldAttempt) : Prop where
  confirmed : f.confirmed = true → Vouched origin key f
  deleted : f.terminal = some .deleted → origin.deletes key

theorem Written.caused {definition : CollectionDefinition} {finished : Bool} {op : Operation}
    {key : FieldKey} {f f' : FieldAttempt} (written : Written definition finished op key f f')
    {origin : Origin} (caused : Caused origin key f) : Caused origin key f' := by
  cases written with
  | @status _ code =>
    refine ⟨fun confirmed => .inl ⟨code, rfl, confirmed⟩, caused.deleted⟩
  | value => exact ⟨caused.confirmed, caused.deleted⟩
  | invalid => exact ⟨nofun, nofun⟩
  | invalidItems =>
    exact ⟨nofun, nofun⟩
  | reason => exact ⟨caused.confirmed, caused.deleted⟩

theorem run_caused {definition : CollectionDefinition} {origin : Origin} {p : CollectionProgress}
    (started : Origin.Started definition origin p) (ops : List Operation) (key : FieldKey)
    (f : FieldAttempt) (found : (p.run ops).fields.get? key = some f) : Caused origin key f := by
  have all : ∀ f, (p.run ops).fields.get? key = some f → Caused origin key f := by
    apply CollectionProgress.run_field (Q := fun o => ∀ f, o = some f → Caused origin key f)
      started.restorable
    · rintro op - d finished f f' - - written before _ ⟨rfl⟩
      exact written.caused (before f rfl)
    · rintro f before _ ⟨rfl⟩
      exact ⟨(before f rfl).confirmed, (before f rfl).deleted⟩
    · intro f found
      exact ⟨fun confirmed => .inr (started.confirmed key f found confirmed),
        started.tombstones key f found⟩
  exact all f found

end

/-- A confirmed value that is not a marker, with no refusing status. -/
structure Read (f : FieldAttempt) : Prop where
  live : f.terminal = none
  confirmed : f.confirmed = true
  value : f.value.isSome = true
  known : isUnknown f.value = false
  present : isDeleted f.value = false
  supported : isUnsupported f.value = false
  passed : ∀ code, f.status = some code → accepted code = true

theorem Read.quality {f : FieldAttempt} (read : Read f) (finished : Bool) :
    Inventory.quality f finished = .success := by
  have implemented : f.status ≠ some 501 := by
    intro refused
    cases read.passed 501 refused
  have passed : f.status.any (fun c => !accepted c) = false := by
    rw [← Bool.not_eq_true, Option.any_eq_true]
    rintro ⟨code, status, refused⟩
    rw [read.passed code status] at refused
    cases refused
  have retained : f.value.isNone = false := by
    rw [← Option.not_isSome, read.value]
    rfl
  simp [Inventory.quality, read.live, read.confirmed, read.value, read.known, read.present,
    read.supported, implemented, passed, retained]

theorem quality_evidence {f : FieldAttempt} (live : f.terminal = none) (finished : Bool) :
    match quality f finished with
    | .unknown => f.confirmed = true ∧ isUnknown f.value = true
    | .deleted => f.confirmed = true ∧ isDeleted f.value = true
    | .unsupported => f.status = some 501 ∨ (f.confirmed = true ∧ isUnsupported f.value = true)
    | .success => Read f
    | _ => True := by
  by_cases unknown : (f.confirmed && isUnknown f.value) = true
  · have computed : quality f finished = .unknown := by simp [quality, live, unknown]
    rw [computed]
    exact Bool.and_eq_true_iff.mp unknown
  by_cases deleted : (f.confirmed && isDeleted f.value) = true
  · have computed : quality f finished = .deleted := by simp [quality, live, unknown, deleted]
    rw [computed]
    exact Bool.and_eq_true_iff.mp deleted
  by_cases unsupported : (f.status = some 501 || (f.confirmed && isUnsupported f.value)) = true
  · have computed : quality f finished = .unsupported := by
      simp [quality, live, unknown, deleted, unsupported]
    rw [computed]
    simpa only [Bool.or_eq_true, decide_eq_true_eq, Bool.and_eq_true] using unsupported
  by_cases failed : f.status.any (fun c => !accepted c) = true
  · simp [quality, live, unknown, deleted, unsupported, failed]
  by_cases invalid : (f.digest.isSome && f.value.isNone) = true
  · simp [quality, live, unknown, deleted, unsupported, failed, invalid]
  by_cases success : (f.confirmed && f.value.isSome) = true
  · have computed : quality f finished = .success := by
      simp [quality, live, unknown, deleted, unsupported, failed, invalid, success]
    rw [computed]
    obtain ⟨confirmed, value⟩ := Bool.and_eq_true_iff.mp success
    rw [confirmed, Bool.true_and, Bool.not_eq_true] at unknown deleted unsupported
    rw [Bool.or_eq_false_iff] at unsupported
    refine ⟨live, confirmed, value, unknown, deleted, unsupported.2, ?_⟩
    intro code status
    by_contra refused
    exact failed ((Option.any_eq_true _ _).mpr ⟨code, status, by simp [refused]⟩)
  · cases finished <;>
      simp [quality, live, unknown, deleted, unsupported, failed, invalid, success]

section

variable [Environment]

theorem Sound.ended {d : FieldDefinition} {finished : Bool} {f : FieldAttempt} {q : Quality}
    (sound : Sound d finished f) (ended : f.terminal = some q) :
    f.quality = q ∧ q ∈ [.missing, .failed, .invalid, .deleted] ∧ f.confirmed = false := by
  have allowed := sound.terminal
  simp only [badTerminal, ended, Option.any_some, Option.isSome_some, Bool.true_and,
    Bool.or_eq_false_iff, Bool.not_eq_false', decide_eq_true_eq] at allowed
  refine ⟨?_, allowed.1, allowed.2.1⟩
  rw [sound.quality]
  simp [Inventory.quality, ended]

theorem Sound.kept {d : FieldDefinition} {finished : Bool} {f : FieldAttempt} {v : CollectedValue}
    (sound : Sound d finished f) (kept : f.value = some v) :
    v.validate d = .ok () ∧ f.digest = some (hexDigest v.toVec) := by
  have retained := sound.retained
  rw [checkRetained, kept] at retained
  obtain ⟨bytes, encoded, retained⟩ := of_bind retained
  obtain ⟨valid, rfl⟩ := encode_eq_ok.mp encoded
  exact ⟨valid, not_not.mp (of_guard retained).1⟩

variable {d : FieldDefinition}

theorem Sound.read {finished : Bool} {f : FieldAttempt} (sound : Sound d finished f)
    (success : f.quality = .success) : Read f := by
  cases ended : f.terminal with
  | none =>
    have evidence := quality_evidence ended finished
    rw [← sound.quality, success] at evidence
    exact evidence
  | some =>
    obtain ⟨same, allowed, -⟩ := sound.ended ended
    rw [← same, success] at allowed
    simp at allowed

/-- No value presented later has other bytes with the digest of this one. -/
def Separates (v : CollectedValue) (ops : List Operation) : Prop :=
  ∀ key value time, Operation.observeValue key value time ∈ ops →
    hexDigest value.toVec = hexDigest v.toVec → value.toVec = v.toVec

structure Holds (v : CollectedValue) (f : FieldAttempt) : Prop where
  read : Read f
  quality : f.quality = .success
  value : f.value = some v
  digest : f.digest = some (hexDigest v.toVec)

variable {v : CollectedValue}

theorem Holds.requalify {f : FieldAttempt} (read : Read f) (value : f.value = some v)
    (digest : f.digest = some (hexDigest v.toVec)) (finished : Bool) :
    Holds v (f.requalify finished) :=
  ⟨⟨read.live, read.confirmed, read.value, read.known, read.present, read.supported, read.passed⟩,
    read.quality finished, value, digest⟩

theorem validated_of_valid (valid : v.validate d = .ok ()) :
    CollectionProgress.validated d v = some v := by
  rw [CollectionProgress.validated, encode_eq_ok.mpr ⟨valid, rfl⟩]

theorem Written.holds {definition : CollectionDefinition} {finished : Bool} {op : Operation}
    {key : FieldKey} {f f' : FieldAttempt} (written : Written definition finished op key f f')
    {d : FieldDefinition} (found : definition.field key = .ok d) (lawful : LawfulNumbers)
    {ops : List Operation} (mem : op ∈ ops) {v : CollectedValue} (finite : v.Finite)
    (valid : v.validate d = .ok ()) (separates : Separates v ops) (holds : Holds v f) :
    Holds v f' := by
  have read := holds.read
  cases written with
  | @status _ code _ _ _ _ _ _ fits =>
    have passes : accepted code = true := by
      rcases fits with passes | empty
      · exact passes
      · rw [holds.digest] at empty
        cases empty
    apply Holds.requalify
    · refine ⟨read.live, passes, read.value, read.known, read.present, read.supported, ?_⟩
      rintro _ ⟨rfl⟩
      exact passes
    · exact holds.value
    · exact holds.digest
  | @value key value time f _ _ _ found' _ same =>
    -- The digest agrees, so the bytes do, and so does the value.
    have bytes := separates key value time mem (same _ holds.digest).symm
    cases CollectedValue.toVec_injective lawful finite bytes.symm
    cases Except.ok.inj (found.symm.trans found')
    have again : CollectionProgress.validated d v = f.value := by
      rw [validated_of_valid valid, holds.value]
    apply Holds.requalify
    · constructor
      · exact read.live
      · exact read.confirmed
      · exact again ▸ read.value
      · exact again ▸ read.known
      · exact again ▸ read.present
      · exact again ▸ read.supported
      · exact read.passed
    · exact again.trans holds.value
    · rfl
  | invalid _ _ empty | invalidItems _ _ _ _ _ _ _ _ _ empty =>
    rw [holds.value] at empty
    cases empty
  | reason =>
    exact ⟨⟨read.live, read.confirmed, read.value, read.known, read.present, read.supported,
      read.passed⟩, holds.quality, holds.value, holds.digest⟩

theorem run_holds {p : CollectionProgress} (restorable : Restorable p) (lawful : LawfulNumbers)
    {key : FieldKey} (found : p.definition.field key = .ok d) (finite : v.Finite)
    (valid : v.validate d = .ok ()) {ops : List Operation} (separates : Separates v ops)
    (start : ∃ f, p.fields.get? key = some f ∧ Holds v f) :
    ∃ f, (p.run ops).fields.get? key = some f ∧ Holds v f := by
  apply CollectionProgress.run_field (Q := fun o => ∃ f, o = some f ∧ Holds v f) restorable
  · rintro op mem d' finished _ f' - found' written ⟨f, ⟨rfl⟩, holds⟩
    exact ⟨f', rfl, written.holds found lawful mem finite valid separates holds⟩
  · rintro _ ⟨f, ⟨rfl⟩, holds⟩
    exact ⟨_, rfl, .requalify holds.read holds.value holds.digest true⟩
  · exact start

end

section

variable [Environment]

/-- Why an outcome may be published for a field. -/
inductive Warranted (origin : Origin) (key : FieldKey) (f : FieldAttempt) : CollectedValue → Prop where
  | confirmed {v : CollectedValue} (kept : f.value = some v) (confirmed : f.confirmed = true)
      (vouched : Vouched origin key f) : Warranted origin key f v
  | unsupported (status : f.status = some 501) : Warranted origin key f .unsupported
  | deleted (reported : origin.deletes key) : Warranted origin key f .deleted

omit [Environment] in
theorem marker_eq {value : Option CollectedValue} :
    (isDeleted value = true → value = some .deleted) ∧
      (isUnsupported value = true → value = some .unsupported) := by
  constructor
  · unfold isDeleted
    split <;> simp
  · unfold isUnsupported
    split <;> simp

variable {d : FieldDefinition} {finished : Bool} {f : FieldAttempt}

theorem marker_warranted {origin : Origin} {key : FieldKey} (sound : Sound d finished f)
    (caused : Caused origin key f) :
    (f.quality = .unsupported → Warranted origin key f .unsupported) ∧
      (f.quality = .deleted → Warranted origin key f .deleted) := by
  cases ended : f.terminal with
  | some =>
    obtain ⟨same, allowed, -⟩ := sound.ended ended
    constructor
    · intro unsupported
      rw [← same, unsupported] at allowed
      simp at allowed
    · intro deleted
      rw [same] at deleted
      exact .deleted (caused.deleted (ended.trans (congrArg some deleted)))
  | none =>
    have evidence := quality_evidence ended finished
    rw [← sound.quality] at evidence
    constructor
    · intro unsupported
      rw [unsupported] at evidence
      rcases evidence with status | ⟨confirmed, marker⟩
      · exact .unsupported status
      · exact .confirmed (marker_eq.2 marker) confirmed (caused.confirmed confirmed)
    · intro deleted
      rw [deleted] at evidence
      exact .confirmed (marker_eq.1 evidence.2) evidence.1 (caused.confirmed evidence.1)

theorem published_warranted {complete : Bool} {origin : Origin} {key : FieldKey}
    (sound : Sound d finished f) (caused : Caused origin key f) {v : CollectedValue}
    (h : CollectionProgress.published complete f = some v) :
    Warranted origin key f v := by
  have live : f.quality = .success ∨ f.quality = .unknown → f.confirmed = true := by
    intro read
    cases ended : f.terminal with
    | some =>
      obtain ⟨same, allowed, -⟩ := sound.ended ended
      rw [← same] at allowed
      rcases read with read | read <;> simp [read] at allowed
    | none =>
      have evidence := quality_evidence ended finished
      rw [← sound.quality] at evidence
      rcases read with read | read
      · rw [read] at evidence
        exact evidence.confirmed
      · rw [read] at evidence
        exact evidence.1
  unfold CollectionProgress.published at h
  split at h
  · rename_i success
    have confirmed := live (.inl success)
    exact .confirmed h confirmed (caused.confirmed confirmed)
  · rename_i unknown
    have confirmed := live (.inr unknown)
    exact .confirmed h confirmed (caused.confirmed confirmed)
  · rename_i unsupported
    cases h
    exact (marker_warranted sound caused).1 unsupported
  · rename_i deleted
    split at h
    · cases h
    · cases h
      exact (marker_warranted sound caused).2 deleted
  · cases h

namespace CollectionProgress

def change (p : CollectionProgress) (entry : FieldKey × FieldAttempt) : Option Change :=
  (published p.covered entry.2).map (fun v => ⟨entry.1.asStr, some v.toVec⟩)

variable {p : CollectionProgress} {changes : List Change}

theorem foldlM_publish {entries : List (FieldKey × FieldAttempt)} {changes' : List Change}
    (h : entries.foldlM p.publish changes = .ok changes') :
    changes' = changes ++ entries.filterMap p.change ∧
      ∀ entry ∈ entries, ∀ v, published p.covered entry.2 = some v →
        ∃ d, p.definition.field entry.1 = .ok d ∧ v.validate d = .ok () := by
  induction entries generalizing changes with
  | nil =>
    cases h
    refine ⟨(List.append_nil _).symm, ?_⟩
    intro entry mem
    cases mem
  | cons entry _ ih =>
    obtain ⟨changes₁, first, later⟩ := of_bind h
    obtain ⟨rfl, rest⟩ := ih later
    unfold publish at first
    cases outcome : published p.covered entry.2 with
    | none =>
      rw [outcome] at first
      cases first
      have skipped : p.change entry = none := by rw [change, outcome, Option.map_none]
      refine ⟨by rw [List.filterMap_cons_none skipped], ?_⟩
      intro e mem v published
      rcases List.mem_cons.mp mem with rfl | mem
      · rw [outcome] at published
        cases published
      · exact rest e mem v published
    | some value =>
      rw [outcome] at first
      obtain ⟨-, first⟩ := of_guard first
      obtain ⟨d, found, first⟩ := of_bind first
      obtain ⟨bytes, encoded, first⟩ := of_bind first
      obtain ⟨valid, rfl⟩ := encode_eq_ok.mp encoded
      cases first
      have added : p.change entry = some ⟨entry.1.asStr, some value.toVec⟩ := by
        rw [change, outcome, Option.map_some]
      refine ⟨by rw [List.filterMap_cons_some added, List.append_assoc]; rfl, ?_⟩
      intro e mem v published
      rcases List.mem_cons.mp mem with rfl | mem
      · rw [outcome] at published
        cases published
        exact ⟨d, found, valid⟩
      · exact rest e mem v published

theorem body_eq_some {body : Body} (h : p.body = .ok (some body)) :
    ∃ changes, p.fields.entries.foldlM p.publish [] = .ok changes ∧ body.changes ⊆ changes ∧
      (body.isSnapshot = true → p.covered = true ∧ body.changes = changes) := by
  unfold CollectionProgress.body at h
  split at h
  · cases h
  obtain ⟨changes, collected, h⟩ := of_bind h
  refine ⟨changes, collected, ?_⟩
  split at h
  · rename_i covered
    cases h
    exact ⟨List.Subset.refl _, fun _ => ⟨covered, rfl⟩⟩
  split at h
  · split at h
    · cases h
      exact ⟨List.nil_subset _, nofun⟩
    · cases h
  · cases h
    exact ⟨List.Subset.refl _, nofun⟩

theorem mem_changes (collected : p.fields.entries.foldlM p.publish [] = .ok changes) {c : Change}
    (mem : c ∈ changes) :
    ∃ key f v d, p.fields.get? key = some f ∧ p.definition.field key = .ok d ∧
      v.validate d = .ok () ∧ published p.covered f = some v ∧ c = ⟨key.asStr, some v.toVec⟩ := by
  obtain ⟨rfl, checked⟩ := foldlM_publish collected
  obtain ⟨⟨key, f⟩, entry, contributes⟩ := List.mem_filterMap.mp mem
  obtain ⟨v, outcome, rfl⟩ := Option.map_eq_some_iff.mp contributes
  obtain ⟨d, found, valid⟩ := checked (key, f) entry v outcome
  exact ⟨key, f, v, d, OrdMap.get?_eq_some.mpr entry, found, valid, outcome, rfl⟩

theorem change_mem (collected : p.fields.entries.foldlM p.publish [] = .ok changes) {key : FieldKey}
    (entry : p.fields.get? key = some f) {v : CollectedValue}
    (outcome : published p.covered f = some v) : ⟨key.asStr, some v.toVec⟩ ∈ changes := by
  obtain ⟨rfl, -⟩ := foldlM_publish collected
  rw [List.nil_append, List.mem_filterMap]
  refine ⟨(key, f), OrdMap.get?_eq_some.mp entry, ?_⟩
  rw [change, outcome, Option.map_some]

theorem covered_iff : p.covered = true ↔
    p.completeCoverage = true ∧ ∀ key f, p.fields.get? key = some f → f.quality.settled = true := by
  unfold covered OrdMap.values
  rw [Bool.and_eq_true, List.all_map, List.all_eq_true]
  constructor
  · rintro ⟨flag, all⟩
    exact ⟨flag, fun key f found => all (key, f) (OrdMap.get?_eq_some.mp found)⟩
  · rintro ⟨flag, all⟩
    exact ⟨flag, fun entry mem => all entry.1 entry.2 (OrdMap.get?_eq_some.mpr mem)⟩

end CollectionProgress

theorem settled_published (sound : Sound d finished f) (settled : f.quality.settled = true) :
    f.quality = .deleted ∨ ∃ v, CollectionProgress.published true f = some v := by
  simp only [Quality.settled, Bool.or_eq_true, decide_eq_true_eq] at settled
  rcases settled with (success | unsupported) | deleted
  · obtain ⟨v, value⟩ := Option.isSome_iff_exists.mp (sound.read success).value
    refine .inr ⟨v, ?_⟩
    rw [CollectionProgress.published, success]
    exact value
  · refine .inr ⟨.unsupported, ?_⟩
    rw [CollectionProgress.published, unsupported]
  · exact .inl deleted

theorem validate_finite {v : CollectedValue} (valid : v.validate d = .ok ()) :
    v.Finite := by
  cases v with
  | value =>
    obtain ⟨-, valid⟩ := of_guard valid
    obtain ⟨typed, -⟩ := of_check valid
    exact Scalar.validate_finite (ValueType.validateValue_valid typed)
  | null | unknown | unsupported | deleted => trivial

/-- Only a warranted outcome is upserted; a field that was read successfully keeps its value and
digest; and a snapshot leaves out no field but a deleted one. -/
theorem publication_confirmed (lawful : LawfulNumbers) (definition : CollectionDefinition)
    (origin : Origin) (p : CollectionProgress) (start : origin.start definition = .ok p)
    (ops : List Operation) :
    (∀ body, (p.run ops).body = .ok (some body) → ∀ c ∈ body.changes, ∃ key f v d,
      (p.run ops).fields.get? key = some f ∧ definition.field key = .ok d ∧ v.validate d = .ok () ∧
        Warranted origin key f v ∧ c = ⟨key.asStr, some v.toVec⟩) ∧
    (∀ key f v, (p.run ops).fields.get? key = some f → f.quality = .success → f.value = some v →
      ∀ later, Separates v later → ∃ f', ((p.run ops).run later).fields.get? key = some f' ∧
        f'.quality = .success ∧ f'.value = some v ∧ f'.digest = f.digest) ∧
    (∀ changes, (p.run ops).body = .ok (some (.snapshot changes)) →
      (p.run ops).completeCoverage = true ∧ (p.run ops).coverageComplete = (p.run ops).finished ∧
        ∀ field ∈ definition.fields, ∃ f, (p.run ops).fields.get? field.key = some f ∧
          (f.quality = .deleted ∧ Warranted origin field.key f .deleted ∨
            (f.quality = .success ∨ f.quality = .unsupported) ∧
              ∃ v, Warranted origin field.key f v ∧ ⟨field.key.asStr, some v.toVec⟩ ∈ changes)) := by
  have started := Origin.started start
  have restorable : Restorable (p.run ops) := started.restorable.run ops
  have frozen : (p.run ops).definition = definition :=
    (p.run_definition ops).trans started.frozen
  have caused := run_caused started ops
  refine ⟨?_, ?_, ?_⟩
  · intro body emitted c mem
    obtain ⟨changes, collected, inside, -⟩ := CollectionProgress.body_eq_some emitted
    obtain ⟨key, f, v, d, found, known, valid, outcome, rfl⟩ :=
      CollectionProgress.mem_changes collected (inside mem)
    obtain ⟨d', -, sound⟩ := restorable.fields key f found
    exact ⟨key, f, v, d, found, frozen ▸ known, valid,
      published_warranted sound (caused key f found) outcome, rfl⟩
  · intro key f v found success value later separates
    obtain ⟨d, known, sound⟩ := restorable.fields key f found
    obtain ⟨valid, digest⟩ := sound.kept value
    obtain ⟨f', found', holds⟩ := run_holds restorable lawful known (validate_finite valid) valid
      separates ⟨f, found, sound.read success, success, value, digest⟩
    exact ⟨f', found', holds.quality, holds.value, holds.digest.trans digest.symm⟩
  · intro changes emitted
    obtain ⟨all, collected, -, snapshot⟩ := CollectionProgress.body_eq_some emitted
    obtain ⟨covered, same⟩ := snapshot rfl
    have same : changes = all := same
    subst same
    obtain ⟨flag, settled⟩ := CollectionProgress.covered_iff.mp covered
    refine ⟨flag, by rw [CollectionProgress.coverageComplete, covered, Bool.and_true], ?_⟩
    intro field mem
    obtain ⟨f, found⟩ := CollectionProgress.field_present restorable (frozen ▸ mem)
    obtain ⟨d, -, sound⟩ := restorable.fields field.key f found
    have qualified := settled field.key f found
    refine ⟨f, found, ?_⟩
    by_cases deleted : f.quality = .deleted
    · exact .inl ⟨deleted, (marker_warranted sound (caused field.key f found)).2 deleted⟩
    obtain ⟨v, outcome⟩ := (settled_published sound qualified).resolve_left deleted
    rw [← covered] at outcome
    refine .inr ⟨?_, v, published_warranted sound (caused field.key f found) outcome,
      CollectionProgress.change_mem collected found outcome⟩
    simpa [Quality.settled, deleted] using qualified

end

namespace Sample

open Lib.Json

theorem point_not_mem (n : Nat) : '.' ∉ decimal n := by
  intro mem
  unfold decimal at mem
  cases Nat.isDigit_of_mem_toDigits (by decide) (by decide) mem

theorem lawful : LawfulNumbers where
  numeric n _ := by
    show numberText n ≠ [] ∧ ∀ c ∈ numberText n, numeric c = true
    have zero : ∀ c ∈ ['0', '.', '0'], numeric c = true := by
      simp only [List.forall_mem_cons]
      exact ⟨rfl, rfl, rfl, List.forall_mem_nil _⟩
    unfold numberText
    split
    · exact ⟨List.cons_ne_nil _ _, zero⟩
    · split
      · exact ⟨List.cons_ne_nil _ _, List.forall_mem_cons.mpr ⟨rfl, zero⟩⟩
      · exact decimal_numeric _
  injective m n _ _ h := by
    have point : ∀ k : Nat, "0.0".toList ≠ decimal k ∧ "-0.0".toList ≠ decimal k := by
      intro k
      have none := point_not_mem k
      constructor
      · intro same
        exact none (same ▸ by decide)
      · intro same
        exact none (same ▸ by decide)
    have bits : m.bits = n.bits := by
      have h : numberText m = numberText n := h
      unfold numberText at h
      split at h
      · rename_i zero
        split at h
        · rename_i zero'
          rw [zero, zero']
        · split at h
          · cases h
          · exact absurd h (point _).1
      · split at h
        · rename_i sign
          split at h
          · cases h
          split at h
          · rename_i sign'
            rw [sign, sign']
          · exact absurd h (point _).2
        · split at h
          · exact absurd h.symm (point _).1
          · split at h
            · exact absurd h.symm (point _).2
            · exact BitVec.eq_of_toNat_eq (Int.ofNat.inj (decimal_injective h))
    cases m
    cases bits
    rfl

/-- The device answers that it does not implement the node. -/
def refusal : List Operation := [.observeStatus flag.key 501 time]

/-- A field without a value and without a confirmation is upserted. -/
theorem unsupported_upserted :
    ((CollectionProgress.new definition).run refusal).body =
        .ok (some (.snapshot [⟨flag.key.asStr, some CollectedValue.unsupported.toVec⟩])) ∧
      ((CollectionProgress.new definition).run refusal).fields.values.all
        (fun f => f.value.isNone && !f.confirmed && f.status = some 501) = true ∧
      ¬Origin.new.gives flag.key := by
  refine ⟨?_, ?_, ?_⟩
  · decide
  · decide
  · exact fun gives => gives

def raised : CollectedValue := .value (.boolean true)

/-- The flag is read while the collection goes on. -/
def reading : List Operation :=
  [.observeValue flag.key raised time, .observeStatus flag.key 200 time]

/-- The flag is presented again, and the collection ends. -/
def ending : List Operation := [.observeValue flag.key raised time, .finish]

def upsert : Change := ⟨flag.key.asStr, some raised.toVec⟩

theorem separates_ending : Separates raised ending := by
  intro key value time mem _
  simp only [ending, List.mem_cons, Operation.observeValue.injEq, reduceCtorEq, List.not_mem_nil,
    or_false] at mem
  rw [mem.2.1]

theorem publication_confirmed_flag :
    ((CollectionProgress.new definition).run reading).body = .ok (some (.snapshot [upsert])) ∧
      ((CollectionProgress.new definition).run reading).completeCoverage = true ∧
      ∃ f, (((CollectionProgress.new definition).run reading).run ending).fields.get? flag.key =
        some f ∧ f.quality = .success ∧ f.value = some raised := by
  obtain ⟨-, stable, snapshot⟩ :=
    publication_confirmed lawful definition .new (CollectionProgress.new definition) rfl reading
  have emitted : ((CollectionProgress.new definition).run reading).body =
      .ok (some (.snapshot [upsert])) := by
    decide
  obtain ⟨complete, -, fields⟩ := snapshot _ emitted
  refine ⟨emitted, complete, ?_⟩
  obtain ⟨f, found, -⟩ := fields flagField List.mem_cons_self
  have success : f.quality = .success ∧ f.value = some raised := by
    have read : ((CollectionProgress.new definition).run reading).fields.get? flag.key =
        some { FieldAttempt.default with
          status := some 200, confirmed := true, receivedAt := some time, value := some raised
          digest := some (hexDigest raised.toVec), quality := .success } := rfl
    cases found.symm.trans read
    exact ⟨rfl, rfl⟩
  obtain ⟨f', found', quality, value, -⟩ :=
    stable flag.key f raised found success.1 success.2 ending separates_ending
  exact ⟨f', found', quality, value⟩

end Sample

end RssMdm.Inventory
