/- module: Inventory/Budget
   source: crates/inventory/src/progress.rs
   digest: The retained values stay within the aggregate budget exactly while no list with invalid rows
   needs more than what is left of it. -/

import RssMdm.Inventory.ProgressHistory

set_option autoImplicit false

namespace RssMdm.Inventory

open RssMdm.Lib RssMdm.Lib.Fallible RssMdm.Lib.Int64
open List (length_cons length_replicate map_map mem_cons_self replicate_succ)

section

variable [Environment]

/-- Bytes of the value that a field retains. -/
def FieldAttempt.weight (f : FieldAttempt) : Nat :=
  match f.value with
  | none => 0
  | some v => v.toVec.length

/-- The budget that `observe_value` checks. -/
def aggregateBytes : Nat := 16 * 1024 * 1024

namespace CollectionProgress

def weight (p : CollectionProgress) : Nat := (p.fields.values.map FieldAttempt.weight).sum

/-- Every retained value fits its definition. -/
def Encodes (p : CollectionProgress) : Prop :=
  ∀ key f v, p.fields.get? key = some f → f.value = some v →
    ∃ d, p.definition.field key = .ok d ∧ v.validate d = .ok ()

def Within (p : CollectionProgress) : Prop := ∃ n, p.valueBytes = .ok n ∧ n ≤ aggregateBytes

variable {key : FieldKey} {f : FieldAttempt} {p : CollectionProgress}

theorem addRetained_eq (encodes : p.Encodes) (found : p.fields.get? key = some f) (total : Nat) :
    p.addRetained total (key, f) =
      if total + f.weight < 2 ^ 64 then .ok (total + f.weight) else .error .value := by
  unfold addRetained
  cases value : f.value with
  | none =>
    have nothing : f.weight = 0 := by rw [FieldAttempt.weight, value]
    rw [nothing]
    rfl
  | some v =>
    obtain ⟨d, known, fits⟩ := encodes key f v found value
    have bytes : v.encode d = .ok v.toVec := encode_eq_ok.mpr ⟨fits, rfl⟩
    have length : f.weight = v.toVec.length := by rw [FieldAttempt.weight, value]
    dsimp only
    rw [known, ok_bind, bytes, length]
    rfl

theorem foldlM_addRetained (encodes : p.Encodes) :
    ∀ (l : List (FieldKey × FieldAttempt)) (total : Nat), total < 2 ^ 64 →
      (∀ e ∈ l, p.fields.get? e.1 = some e.2) →
        l.foldlM p.addRetained total =
          if total + (l.map (fun e => e.2.weight)).sum < 2 ^ 64 then
            .ok (total + (l.map (fun e => e.2.weight)).sum)
          else .error .value := by
  intro l
  induction l with
  | nil =>
    intro total small _
    rw [List.map_nil, List.sum_nil, Nat.add_zero, if_pos small]
    rfl
  | cons e rest ih =>
    intro total small listed
    have here := addRetained_eq encodes (listed e (.head _)) total
    rw [List.foldlM_cons, List.map_cons, List.sum_cons, here]
    by_cases fits : total + e.2.weight < 2 ^ 64
    · rw [if_pos fits, ok_bind, ih _ fits (fun e mem => listed e (.tail _ mem)),
        Nat.add_assoc]
    · have beyond : ¬ total + (e.2.weight + (rest.map (fun e => e.2.weight)).sum) < 2 ^ 64 := by
        omega
      rw [if_neg fits, if_neg beyond]
      rfl

theorem valueBytes_eq (encodes : p.Encodes) :
    p.valueBytes = if p.weight < 2 ^ 64 then .ok p.weight else .error .value := by
  have listed : ∀ e ∈ p.fields.entries, p.fields.get? e.1 = some e.2 := by
    intro e mem
    exact OrdMap.get?_eq_some.mpr mem
  have sums : (p.fields.entries.map (fun e => e.2.weight)).sum = p.weight := by
    rw [weight, OrdMap.values, map_map]
    rfl
  have total := foldlM_addRetained encodes p.fields.entries 0 (by omega) listed
  rw [Nat.zero_add, sums] at total
  exact total

theorem within_iff (encodes : p.Encodes) : p.Within ↔ p.weight ≤ aggregateBytes := by
  have small : aggregateBytes < 2 ^ 64 := by decide
  rw [Within, valueBytes_eq encodes]
  constructor
  · rintro ⟨n, added, few⟩
    split at added
    · cases added
      exact few
    · cases added
  · intro few
    exact ⟨p.weight, if_pos (by omega), few⟩

theorem weight_write (found : p.fields.get? key = some f) (f' : FieldAttempt) :
    (p.write key f').weight + f.weight = p.weight + f'.weight :=
  OrdMap.sum_modify FieldAttempt.weight found (fun _ => f')

variable {f' : FieldAttempt}

theorem weight_write_le {n most : Nat} (found : p.fields.get? key = some f) (few : f'.weight ≤ n)
    (room : p.weight - f.weight + n ≤ most) : (p.write key f').weight ≤ most := by
  have replaced := weight_write found f'
  omega

theorem weight_write_same (found : p.fields.get? key = some f) (same : f'.value = f.value) :
    (p.write key f').weight = p.weight := by
  have replaced := weight_write found f'
  have equal : f'.weight = f.weight := by rw [FieldAttempt.weight, FieldAttempt.weight, same]
  omega

theorem weight_write_fresh (found : p.fields.get? key = some f) (fresh : f.value = none)
    (f' : FieldAttempt) : (p.write key f').weight = p.weight + f'.weight := by
  have replaced := weight_write found f'
  have nothing : f.weight = 0 := by rw [FieldAttempt.weight, fresh]
  omega

theorem encodes_write (encodes : p.Encodes) (found : p.fields.get? key = some f)
    (fits : ∀ v, f'.value = some v → f.value = some v ∨ ∃ d, p.definition.field key = .ok d ∧ v.validate d = .ok ()) :
    (p.write key f').Encodes := by
  intro key' g v held value
  rw [get?_write] at held
  by_cases same : key' = key
  · subst same
    rw [if_pos rfl, found] at held
    cases held
    rcases fits v value with old | new
    · exact encodes key' f v found old
    · exact new
  · rw [if_neg same] at held
    exact encodes key' g v held value

end CollectionProgress

end

section

variable [Environment]

namespace CollectionProgress

theorem Written.fits {definition : CollectionDefinition} {finished : Bool} {op : Operation}
    {key : FieldKey} {f f' : FieldAttempt} (written : Written definition finished op key f f')
    {v : CollectedValue} (value : f'.value = some v) : f.value = some v ∨
      ∃ d, definition.field key = .ok d ∧ v.validate d = .ok () := by
  cases written with
  | value _ _ found =>
    obtain ⟨rfl, fits⟩ := validated_eq_some value
    exact .inr ⟨_, found, fits⟩
  | invalidItems _ _ found _ _ _ _ _ validates =>
    cases Option.some.inj value
    exact .inr ⟨_, found, validates⟩
  | status | invalid | reason => exact .inl value

theorem Answers.encodes {p : CollectionProgress} {op : Operation} {call : Call}
    (answers : p.Answers op call) (encodes : p.Encodes) : call.2.Encodes := by
  rcases answers with ⟨e, rfl⟩ | ⟨key, f, f', found, written, rfl⟩
  · exact encodes
  · exact encodes_write encodes found (fun _ value => Written.fits written value)

theorem weight_finish (p : CollectionProgress) : p.finish.weight = p.weight := by
  unfold weight finish OrdMap.values OrdMap.mapValues
  rw [map_map, map_map, map_map]
  rfl

variable {p : CollectionProgress}

theorem finish_encodes (encodes : p.Encodes) : p.finish.Encodes := by
  intro key f v found value
  rw [finish, OrdMap.get?_mapValues, Option.map_eq_some_iff] at found
  obtain ⟨g, old, rfl⟩ := found
  exact encodes key g v old value

theorem apply_encodes (encodes : p.Encodes) (op : Operation) : (p.apply op).2.Encodes := by
  rcases p.apply_cases op with answers | ⟨rfl, done⟩
  · exact Answers.encodes answers encodes
  · rw [done]
    exact finish_encodes encodes

variable {p' : CollectionProgress}

theorem attempt_eq_ok {α : Type} {x : Except Invalid α} {next : α → Call}
    (h : p.attempt x next = (.ok (), p')) : ∃ a, x = .ok a ∧ next a = (.ok (), p') := by
  unfold attempt at h
  cases x with
  | error => cases (Prod.mk.inj h).1
  | ok a => exact ⟨a, rfl, h⟩

theorem refuse_eq_ok {c : Prop} [Decidable c] {e : Invalid} {call : Call}
    (h : (if c then (.error e, p) else call) = (.ok (), p')) : ¬ c ∧ call = (.ok (), p') := by
  by_cases hc : c
  · rw [if_pos hc] at h
    cases (Prod.mk.inj h).1
  · rw [if_neg hc] at h
    exact ⟨hc, h⟩

end CollectionProgress

end

section

variable [Environment]

/-- A field whose native value was invalid. -/
def FieldAttempt.spoiled (f : FieldAttempt) (time : I64) : FieldAttempt :=
  { f with confirmed := false, receivedAt := some time, terminal := some .invalid }.requalify false

namespace CollectionProgress

variable {key : FieldKey} {f : FieldAttempt} {p : CollectionProgress}

theorem retainedBytes_weight (encodes : p.Encodes) {d : FieldDefinition} {n : Nat}
    (found : p.fields.get? key = some f) (known : p.definition.field key = .ok d)
    (h : retainedBytes d (p.fields.get? key) = .ok n) : n = f.weight := by
  rw [retainedBytes, found, Option.bind_some] at h
  rw [FieldAttempt.weight]
  cases value : f.value with
  | none =>
    rw [value] at h
    exact (Except.ok.inj h).symm
  | some v =>
    obtain ⟨d', known', fits⟩ := encodes key f v found value
    cases Except.ok.inj (known.symm.trans known')
    rw [value] at h
    have bytes : v.encode d = .ok v.toVec := encode_eq_ok.mpr ⟨fits, rfl⟩
    dsimp only at h
    rw [bytes] at h
    exact (Except.ok.inj h).symm

theorem validated_weight (d : FieldDefinition) (v : CollectedValue) :
    (match validated d v with
      | none => 0
      | some w => w.toVec.length) ≤ v.toVec.length := by
  cases kept : validated d v with
  | none => exact Nat.zero_le _
  | some =>
    obtain ⟨rfl, -⟩ := validated_eq_some kept
    exact le_rfl

variable {time : I64}

theorem observeValue_within {p' : CollectionProgress} (encodes : p.Encodes) {value : CollectedValue}
    (h : p.observeValue key value time = (.ok (), p')) : p'.weight ≤ aggregateBytes := by
  unfold observeValue at h
  obtain ⟨-, -, h⟩ := attempt_eq_ok h
  obtain ⟨-, h⟩ := refuse_eq_ok h
  obtain ⟨d, known, h⟩ := attempt_eq_ok h
  obtain ⟨previous, before, h⟩ := attempt_eq_ok h
  obtain ⟨total, added, h⟩ := attempt_eq_ok h
  obtain ⟨room, h⟩ := refuse_eq_ok h
  obtain ⟨f, held, h⟩ := attempt_eq_ok h
  obtain ⟨-, h⟩ := refuse_eq_ok h
  have found := get_eq_ok.mp held
  have old : previous = f.weight := retainedBytes_weight encodes found known before
  have sum : total = p.weight := by
    rw [valueBytes_eq encodes] at added
    split at added
    · exact (Except.ok.inj added).symm
    · cases added
  have most : ¬ total - previous + value.toVec.length > aggregateBytes := by
    have limit : aggregateBytes = 16 * 1024 * 1024 := rfl
    omega
  rw [← (Prod.mk.inj h).2]
  exact weight_write_le found (validated_weight d value) (by omega)

theorem observeInvalid_of_empty (found : p.fields.get? key = some f)
    (valid : Environment.timepoint time = true) (unfinished : p.finished = false)
    (empty : f.value = none) (unsettled : f.terminal = none) :
    p.observeInvalid key time = (.ok (), p.write key (f.spoiled time)) := by
  have there : p.get key .unknownField = .ok f := get_eq_ok.mpr found
  have now : checkTime time = .ok () := by rw [checkTime, if_pos valid]
  simp [observeInvalid, attempt, now, there, unfinished, empty, unsettled, FieldAttempt.spoiled]

theorem observeInvalidItems_of_written {items : List Quality} {values : List Scalar}
    {f' : FieldAttempt} (found : p.fields.get? key = some f)
    (written : Written p.definition p.finished (.observeInvalidItems key items values time) key f f') :
    p.observeInvalidItems key items values time = (.ok (), p.write key f') := by
  cases written with
  | invalidItems valid unfinished known type fits broken rows count validates empty unsettled =>
    have bytes := encode_eq_ok.mpr ⟨validates, rfl⟩
    rename_i d itemType maxItems
    have size : maxItemsOf d = .ok maxItems := by rw [maxItemsOf, type]
    have others : ¬ items.any (fun q => !(q = .success || q = .invalid)) = true := by
      rw [List.any_eq_true]
      rintro ⟨q, mem, other⟩
      rcases rows q mem with rfl | rfl <;> simp at other
    have shape : ¬ (items.length > maxItems.toNat ∨ .invalid ∉ items ∨
        items.any (fun q => !(q = .success || q = .invalid)) = true) := by
      rw [not_or, not_or]
      exact ⟨Nat.not_lt.mpr fits, not_not.mpr broken, others⟩
    have first := observeInvalid_of_empty found valid unfinished empty unsettled
    have again : (p.write key (f.spoiled time)).get key .unknownField = .ok (f.spoiled time) := by
      rw [get_eq_ok, get?_write, if_pos rfl, found]
      rfl
    unfold observeInvalidItems
    simp only [attempt, known, size]
    rw [if_neg shape, if_neg (not_not.mpr count)]
    simp only [bytes, first, again, write_write]
    rfl

def Takes (p : CollectionProgress) (op : Operation) : Prop :=
  ∃ key f f', p.fields.get? key = some f ∧ Written p.definition p.finished op key f f'

end CollectionProgress

/-- The rows of a list with invalid rows fit into what the other values leave of the budget. -/
def Operation.Funded (p : CollectionProgress) : Operation → Prop
  | .observeInvalidItems key items values time =>
      p.Takes (.observeInvalidItems key items values time) → ∀ total, p.valueBytes = .ok total →
        total + (CollectedValue.value (.array values)).toVec.length ≤ aggregateBytes
  | _ => True

namespace CollectionProgress

variable {p : CollectionProgress}

theorem observeInvalidItems_within (encodes : p.Encodes) (within : p.weight ≤ aggregateBytes)
    (key : FieldKey) (items : List Quality) (values : List Scalar) (time : I64) :
    (p.observeInvalidItems key items values time).2.weight ≤ aggregateBytes ↔
      (Operation.observeInvalidItems key items values time).Funded p := by
  have total : p.valueBytes = .ok p.weight := by
    have small : aggregateBytes < 2 ^ 64 := by decide
    rw [valueBytes_eq encodes, if_pos (by omega)]
  have heavier : ∀ f f', p.fields.get? key = some f →
      Written p.definition p.finished (.observeInvalidItems key items values time) key f f' →
        (p.write key f').weight =
          p.weight + (CollectedValue.value (.array values)).toVec.length := by
    intro f f' found written
    cases written with
    | invalidItems _ _ _ _ _ _ _ _ _ empty => exact weight_write_fresh found empty _
  constructor
  · rintro few ⟨k, f, f', found, written⟩ n added
    cases Option.some.inj written.key_eq
    rw [observeInvalidItems_of_written found written, heavier f f' found written] at few
    cases Except.ok.inj (total.symm.trans added)
    exact few
  · intro funded
    rcases p.observeInvalidItems_answers key items values time with
      ⟨e, failed⟩ | ⟨k, f, f', found, written, done⟩
    · rw [failed]
      exact within
    · have sum := funded ⟨k, f, f', found, written⟩ p.weight total
      cases Option.some.inj written.key_eq
      rw [done]
      exact (heavier f f' found written).trans_le sum

theorem Written.same_value {definition : CollectionDefinition} {finished : Bool} {op : Operation}
    {key : FieldKey} {f f' : FieldAttempt} (written : Written definition finished op key f f')
    (light : ∀ k v time, op ≠ .observeValue k v time)
    (light' : ∀ k items values time, op ≠ .observeInvalidItems k items values time) :
    f'.value = f.value := by
  cases written with
  | value => exact absurd rfl (light _ _ _)
  | invalidItems => exact absurd rfl (light' _ _ _ _)
  | status | invalid | reason => rfl

theorem Answers.weight_eq {op : Operation} {call : Call} (answers : p.Answers op call)
    (light : ∀ k v time, op ≠ .observeValue k v time)
    (light' : ∀ k items values time, op ≠ .observeInvalidItems k items values time) :
    call.2.weight = p.weight := by
  rcases answers with ⟨e, rfl⟩ | ⟨key, f, f', found, written, rfl⟩
  · rfl
  · exact weight_write_same found (Written.same_value written light light')

theorem apply_within (encodes : p.Encodes) (within : p.weight ≤ aggregateBytes) (op : Operation) :
    (p.apply op).2.weight ≤ aggregateBytes ↔ op.Funded p := by
  cases op with
  | observeValue key value time =>
    refine iff_of_true ?_ trivial
    rcases p.observeValue_answers key value time with ⟨e, failed⟩ | ⟨k, f, f', -, -, done⟩
    · exact (congrArg (fun call : Call => call.2.weight) failed).trans_le within
    · exact (congrArg (fun call : Call => call.2.weight) done).trans_le
        (observeValue_within encodes done)
  | observeInvalidItems key items values time =>
    exact observeInvalidItems_within encodes within key items values time
  | observeStatus key code time =>
    have same := Answers.weight_eq (p.observeStatus_answers key code time) (by simp) (by simp)
    exact iff_of_true (same.trans_le within) trivial
  | observeInvalid key time =>
    have same := Answers.weight_eq (p.observeInvalid_answers key time) (by simp) (by simp)
    exact iff_of_true (same.trans_le within) trivial
  | reason key text =>
    have same := Answers.weight_eq (p.reason_answers key text) (by simp) (by simp)
    exact iff_of_true (same.trans_le within) trivial
  | finish => exact iff_of_true (p.weight_finish.trans_le within) trivial

theorem exceeds_of_unfunded (encodes : p.Encodes) (within : p.weight ≤ aggregateBytes)
    {key : FieldKey} {items : List Quality} {values : List Scalar} {time : I64}
    {f f' : FieldAttempt} {total : Nat} (found : p.fields.get? key = some f)
    (written : Written p.definition p.finished (.observeInvalidItems key items values time) key f f')
    (bytes : p.valueBytes = .ok total)
    (beyond : aggregateBytes < total + (CollectedValue.value (.array values)).toVec.length) :
    ¬ (p.run [.observeInvalidItems key items values time]).Within := by
  intro fits
  have next := apply_encodes encodes (.observeInvalidItems key items values time)
  have few := (within_iff next).mp fits
  have funded := (observeInvalidItems_within encodes within key items values time).mp few
  have small := funded ⟨key, f, f', found, written⟩ total bytes
  omega

/-- Every call of the sequence is funded when it is made. -/
def FundedRun : CollectionProgress → List Operation → Prop
  | _, [] => True
  | p, op :: rest => op.Funded p ∧ FundedRun (p.apply op).2 rest

theorem run_within (encodes : p.Encodes) (within : p.weight ≤ aggregateBytes)
    (ops : List Operation) : (∀ n, (p.run (ops.take n)).Within) ↔ p.FundedRun ops := by
  induction ops generalizing p with
  | nil =>
    refine iff_of_true (fun n => ?_) trivial
    rw [List.take_nil]
    exact (within_iff encodes).mpr within
  | cons op rest ih =>
    have next := apply_encodes encodes op
    have one := apply_within encodes within op
    constructor
    · intro all
      have first : (p.apply op).2.weight ≤ aggregateBytes := (within_iff next).mp (all 1)
      exact ⟨one.mp first, (ih next first).mp (fun n => all (n + 1))⟩
    · rintro ⟨funded, later⟩ n
      cases n with
      | zero => exact (within_iff encodes).mpr within
      | succ n => exact (ih next (one.mpr funded)).mpr later n

end CollectionProgress

end

section

variable [Environment]

namespace CollectionProgress

/-- Every list with invalid rows is funded when the adapter comes to its field. -/
def FundedCapture (values : OrdMap FieldKey NativeValue) (time : I64) :
    CollectionProgress → List FieldKey → Prop
  | _, [] => True
  | p, key :: rest =>
      (∀ items rows, (values.get? key).getD .missing = .invalidItems items rows →
        (Operation.observeInvalidItems key items rows time).Funded p) ∧
      ∀ p', nativeField values time p key = .ok p' → FundedCapture values time p' rest

variable {key : FieldKey} {time : I64} {p' p : CollectionProgress}

theorem terminate_weight {terminal : Quality} (encodes : p.Encodes)
    (h : p.terminate key terminal time = .ok p') : p'.Encodes ∧ p'.weight = p.weight := by
  obtain ⟨-, -, h⟩ := of_bind h
  obtain ⟨f, held, h⟩ := of_bind h
  cases Except.ok.inj h
  have found := get_eq_ok.mp held
  exact ⟨encodes_write encodes found (fun _ value => .inl value), weight_write_same found rfl⟩

theorem confirm_weight (encodes : p.Encodes) (h : p.confirm key = .ok p') :
    p'.Encodes ∧ p'.weight = p.weight := by
  obtain ⟨f, held, h⟩ := of_bind h
  cases Except.ok.inj h
  have found := get_eq_ok.mp held
  exact ⟨encodes_write encodes found (fun _ value => .inl value), weight_write_same found rfl⟩

/-- What one pass of the adapter does to the weight of the progress. -/
structure Captures (values : OrdMap FieldKey NativeValue) (time : I64) (p p' : CollectionProgress)
    (key : FieldKey) : Prop where
  encodes : p'.Encodes
  grows : p.weight ≤ p'.weight
  within : p.weight ≤ aggregateBytes → (p'.weight ≤ aggregateBytes ↔
    ∀ items rows, (values.get? key).getD .missing = .invalidItems items rows →
      (Operation.observeInvalidItems key items rows time).Funded p)

variable {values : OrdMap FieldKey NativeValue}

theorem Captures.of_same (encodes : p'.Encodes) (same : p'.weight = p.weight)
    (other : ∀ items rows, (values.get? key).getD .missing ≠ .invalidItems items rows) :
    Captures values time p p' key where
  encodes := encodes
  grows := same.ge
  within := fun few => iff_of_true (same.trans_le few)
    (fun items rows given => absurd given (other items rows))

theorem Answers.grows {op : Operation} (answers : p.Answers op (.ok (), p'))
    (fresh : ∀ key f, op.key = some key → p.fields.get? key = some f → f.value = none) :
    p.weight ≤ p'.weight := by
  obtain ⟨key, f, f', found, written, rfl⟩ := answers.written
  have sum := weight_write_fresh found (fresh key f written.key_eq found) f'
  omega

theorem nativeField_captures (encodes : p.Encodes)
    (fresh : ∀ f, p.fields.get? key = some f → f.value = none)
    (h : nativeField values time p key = .ok p') : Captures values time p p' key := by
  have about : ∀ k f, some key = some k → p.fields.get? k = some f → f.value = none := by
    rintro k f same found
    cases same
    exact fresh f found
  unfold nativeField at h
  cases given : (values.get? key).getD .missing with
  | value v =>
    have other : ∀ items rows, (values.get? key).getD .missing ≠ .invalidItems items rows := by
      rw [given]
      simp
    rw [given] at h
    dsimp only at h
    cases observed : p.observeValue key v time with
    | mk result p₁ =>
      rw [observed] at h
      cases result with
      | ok =>
        have answers := p.observeValue_answers key v time
        rw [observed] at answers
        obtain ⟨encodes', same⟩ := confirm_weight (Answers.encodes answers encodes) h
        have grows := Answers.grows answers about
        have few := observeValue_within encodes observed
        exact ⟨encodes', same ▸ grows, fun _ => iff_of_true (same.trans_le few)
          (fun items rows list => absurd list (other items rows))⟩
      | error e =>
        have refused : p.apply (.observeValue key v time) = (.error e, p₁) := observed
        have kept : p₁ = p := apply_error refused
        subst kept
        cases e with
        | value =>
          have done := sequel_eq_ok h
          have answers := p₁.observeInvalid_answers key time
          rw [done] at answers
          exact .of_same (Answers.encodes answers encodes)
            (Answers.weight_eq answers (by simp) (by simp)) other
        | _ => cases h
  | invalidItems items rows =>
    rw [given] at h
    have done := sequel_eq_ok h
    have answers := p.observeInvalidItems_answers key items rows time
    rw [done] at answers
    refine ⟨Answers.encodes answers encodes, Answers.grows answers about, fun few => ?_⟩
    have exactly := observeInvalidItems_within encodes few key items rows time
    rw [done] at exactly
    rw [exactly]
    constructor
    · intro funded items' rows' same
      cases given.symm.trans same
      exact funded
    · intro all
      exact all items rows given
  | invalid | failed | missing =>
    rw [given] at h
    obtain ⟨encodes', same⟩ := terminate_weight encodes h
    exact .of_same encodes' same (by rw [given]; simp)

theorem nativeField_others {key' : FieldKey} (other : key' ≠ key)
    (h : nativeField values time p key = .ok p') : p'.fields.get? key' = p.fields.get? key' := by
  have unchanged : ∀ (q : CollectionProgress) f, (q.write key f).fields.get? key' =
      q.fields.get? key' := by
    intro q f
    rw [get?_write, if_neg other]
  have called : ∀ (q : CollectionProgress) (op : Operation) (call : Call), op.key = some key →
      q.Answers op call → call.2.fields.get? key' = q.fields.get? key' := by
    rintro q op call about (⟨e, rfl⟩ | ⟨k, f, f', -, written, rfl⟩)
    · rfl
    · cases Option.some.inj (about.symm.trans written.key_eq)
      exact unchanged q f'
  unfold nativeField at h
  cases given : (values.get? key).getD .missing with
  | value v =>
    rw [given] at h
    dsimp only at h
    have first := called p _ _ rfl (p.observeValue_answers key v time)
    cases observed : p.observeValue key v time with
    | mk result p₁ =>
      rw [observed] at h first
      cases result with
      | ok =>
        obtain ⟨f, -, h⟩ := of_bind h
        cases Except.ok.inj h
        exact (unchanged p₁ _).trans first
      | error e =>
        cases e with
        | value =>
          have second := called p₁ _ _ rfl (p₁.observeInvalid_answers key time)
          rw [sequel_eq_ok h] at second
          exact second.trans first
        | _ => cases h
  | invalidItems items rows =>
    rw [given] at h
    have only := called p _ _ rfl (p.observeInvalidItems_answers key items rows time)
    rwa [sequel_eq_ok h] at only
  | invalid | failed | missing =>
    rw [given] at h
    obtain ⟨-, -, h⟩ := of_bind h
    obtain ⟨f, -, h⟩ := of_bind h
    cases Except.ok.inj h
    exact unchanged p _

def Fresh (p : CollectionProgress) (keys : List FieldKey) : Prop :=
  ∀ key ∈ keys, ∀ f, p.fields.get? key = some f → f.value = none

theorem foldlM_nativeField_within (keys : List FieldKey) (distinct : keys.Nodup)
    (encodes : p.Encodes) (fresh : p.Fresh keys)
    (h : keys.foldlM (nativeField values time) p = .ok p') :
    p'.Encodes ∧ p.weight ≤ p'.weight ∧ (p.weight ≤ aggregateBytes →
      (p'.weight ≤ aggregateBytes ↔ FundedCapture values time p keys)) := by
  induction keys generalizing p with
  | nil =>
    cases Except.ok.inj h
    exact ⟨encodes, le_rfl, fun few => iff_of_true few trivial⟩
  | cons key rest ih =>
    obtain ⟨p₁, one, later⟩ := of_bind h
    obtain ⟨apart, distinct'⟩ := List.nodup_cons.mp distinct
    have step := nativeField_captures encodes (fresh key (.head _)) one
    have fresh' : p₁.Fresh rest := by
      intro key' mem f found
      have other : key' ≠ key := by
        rintro rfl
        exact apart mem
      rw [nativeField_others other one] at found
      exact fresh key' (.tail _ mem) f found
    obtain ⟨encodes', grows, exactly⟩ := ih distinct' step.encodes fresh' later
    refine ⟨encodes', step.grows.trans grows, fun few => ?_⟩
    rw [FundedCapture, ← step.within few]
    constructor
    · intro final
      have here := grows.trans final
      refine ⟨here, ?_⟩
      intro q same
      cases Except.ok.inj (one.symm.trans same)
      exact (exactly here).mp final
    · rintro ⟨here, all⟩
      exact (exactly here).mpr (all p₁ one)

theorem new_encodes (definition : CollectionDefinition) : (new definition).Encodes := by
  intro key f v found value
  obtain ⟨-, rfl⟩ := get?_new.mp found
  cases value

theorem new_weight (definition : CollectionDefinition) : (new definition).weight = 0 := by
  unfold weight
  rw [List.sum_eq_zero_iff_forall_eq_nat]
  intro n mem
  obtain ⟨f, listed, rfl⟩ := List.mem_map.mp mem
  obtain ⟨e, inside, rfl⟩ := List.mem_map.mp listed
  obtain ⟨-, same⟩ := get?_new.mp (OrdMap.get?_eq_some.mpr inside)
  rw [same]
  rfl

variable {definition : CollectionDefinition}

theorem native_within (h : native definition values time = .ok p) :
    p.Encodes ∧ (p.weight ≤ aggregateBytes ↔
      FundedCapture values time (new definition) (new definition).fields.keys) := by
  obtain ⟨-, -, h⟩ := of_bind h
  obtain ⟨q, captured, h⟩ := of_bind h
  cases Except.ok.inj h
  have fresh : (new definition).Fresh (new definition).fields.keys := by
    intro key _ f found
    obtain ⟨-, rfl⟩ := get?_new.mp found
    rfl
  obtain ⟨encodes, -, exactly⟩ := foldlM_nativeField_within _ (OrdMap.nodup_keys _)
    (new_encodes definition) fresh captured
  refine ⟨finish_encodes encodes, ?_⟩
  rw [weight_finish]
  apply exactly
  rw [new_weight]
  exact Nat.zero_le _

theorem funded_of_none
    (none : ∀ key items rows, (values.get? key).getD .missing ≠ .invalidItems items rows) :
    ∀ (keys : List FieldKey) (p : CollectionProgress), FundedCapture values time p keys := by
  intro keys
  induction keys with
  | nil => exact fun _ => trivial
  | cons key _ ih =>
    intro p
    exact ⟨fun items rows given => absurd given (none key items rows), fun p' _ => ih p'⟩

theorem reportedValues_list {body : Body} (h : reportedValues definition body = .ok values)
    (key : FieldKey) (items : List Quality) (rows : List Scalar) :
    (values.get? key).getD .missing ≠ .invalidItems items rows := by
  intro given
  rcases reportedValues_cases h key with other | other | ⟨⟨_, other⟩, -⟩
  all_goals cases given.symm.trans other

end CollectionProgress

namespace Origin

open CollectionProgress

def Funded (definition : CollectionDefinition) : Origin → Prop
  | .native values time => FundedCapture values time (CollectionProgress.new definition)
      (CollectionProgress.new definition).fields.keys
  | .nativePartial values time => FundedCapture values time (CollectionProgress.new definition)
      (CollectionProgress.new definition).fields.keys
  | _ => True

theorem start_within {definition : CollectionDefinition} {origin : Origin} {p : CollectionProgress}
    (h : origin.start definition = .ok p) :
    p.Encodes ∧ (p.weight ≤ aggregateBytes ↔ origin.Funded definition) := by
  cases origin with
  | new =>
    cases Except.ok.inj h
    refine ⟨new_encodes definition, iff_of_true ?_ trivial⟩
    rw [new_weight]
    exact Nat.zero_le _
  | native => exact native_within h
  | nativePartial =>
    obtain ⟨q, captured, h⟩ := of_bind h
    cases Except.ok.inj h
    obtain ⟨encodes, exactly⟩ := native_within captured
    exact ⟨encodes, exactly⟩
  | reported body =>
    obtain ⟨values, read, h⟩ := of_bind h
    obtain ⟨q, captured, h⟩ := of_bind h
    cases Except.ok.inj h
    obtain ⟨encodes, exactly⟩ := native_within captured
    have few := exactly.mpr (funded_of_none (reportedValues_list read) _ _)
    have values_eq : ∀ key (f : FieldAttempt), (if CollectionProgress.deletes body key = true then
        { f with terminal := some .deleted, quality := .deleted } else f).value = f.value := by
      intro key f
      split <;> rfl
    constructor
    · intro key f v found value
      rw [OrdMap.get?_mapValues, Option.map_eq_some_iff] at found
      obtain ⟨g, old, rfl⟩ := found
      exact encodes key g v old ((values_eq key g).symm.trans value)
    · refine iff_of_true ?_ trivial
      refine le_trans (le_of_eq ?_) few
      unfold CollectionProgress.weight OrdMap.values OrdMap.mapValues
      rw [map_map, map_map, map_map]
      congr 1
      apply List.map_congr_left
      intro e _
      simp only [Function.comp_apply, FieldAttempt.weight, values_eq]

end Origin

/-- From any origin and in any order of calls, the retained values are within the budget in every state
exactly when every list with invalid rows that is taken fits into what the others leave of it. -/
theorem aggregate_budget (definition : CollectionDefinition) (origin : Origin)
    (p : CollectionProgress) (started : origin.start definition = .ok p) (ops : List Operation) :
    (∀ n, (p.run (ops.take n)).Within) ↔ origin.Funded definition ∧ p.FundedRun ops := by
  obtain ⟨encodes, exactly⟩ := Origin.start_within started
  constructor
  · intro all
    have first : p.weight ≤ aggregateBytes := (CollectionProgress.within_iff encodes).mp (all 0)
    exact ⟨exactly.mp first, (CollectionProgress.run_within encodes first ops).mp all⟩
  · rintro ⟨funded, later⟩
    exact (CollectionProgress.run_within encodes (exactly.mpr funded) ops).mpr later

end

namespace Sample

def lines : FieldDefinition :=
  { flag with key := ⟨"custom.lines"⟩, valueType := .array (.string 65536 true) 300 }

def linesField : CollectionField := ⟨lines, .device⟩

def listing : CollectionDefinition where
  dataset := "lines"
  version := "1"
  source := .agentBuiltin
  fields := [linesField]
  built := ⟨[linesField], built_of_isOk (by decide)⟩

@[irreducible] def line : String := String.ofList (List.replicate 65536 'a')

/-- Lines of 16 MiB of text, and one more row that is invalid. -/
@[irreducible] def rows : List Scalar := List.replicate 256 (.string line)

@[irreducible] def rowQualities : List Quality := List.replicate 256 .success ++ [.invalid]

theorem line_toList : line.toList = List.replicate 65536 'a' := by
  unfold line
  exact String.toList_ofList

theorem line_length : line.length = 65536 := by
  rw [← String.length_toList, line_toList, length_replicate]

theorem line_size : line.utf8ByteSize = 65536 := by
  have letters : ∀ n, Text.utf8Len (List.replicate n 'a') = n := by
    intro n
    induction n with
    | zero => rfl
    | succ _ ih =>
      have one : Char.utf8Size 'a' = 1 := rfl
      rw [replicate_succ, Text.utf8Len_cons, ih, one, Nat.add_comm]
  rw [Text.utf8ByteSize_eq, line_toList, letters]

theorem visit_line {depth : Nat} {b : ScalarBudget} (shallow : depth ≤ 6)
    (few : b.nodes + 1 ≤ 200000) (small : b.bytes + 65536 ≤ 16 * 1024 * 1024) :
    ScalarBudget.visit depth (.string line) b = .ok ⟨b.nodes + 1, b.bytes + 65536⟩ := by
  have node : checkedAdd b.nodes 1 = .ok (b.nodes + 1) := if_pos (by omega)
  have text : checkedAdd b.bytes 65536 = .ok (b.bytes + 65536) := if_pos (by omega)
  have entered : ¬ (depth > 6 ∨ b.nodes + 1 > 200000) := by omega
  have plain : line.toList.any (· = '\x00') = false := by
    rw [line_toList, List.any_replicate]
    decide
  have fits : ¬ (line.toList.any (· = '\x00') = true ∨ b.bytes + 65536 > 16 * 1024 * 1024) := by
    rintro (null | beyond)
    · rw [plain] at null
      cases null
    · omega
  rw [ScalarBudget.visit, ScalarBudget.enter, node, ok_bind, if_neg entered, ok_bind,
    ScalarBudget.addBytes, line_size, text, ok_bind, ok_bind]
  exact if_neg fits

theorem visitAll_lines {depth : Nat} (shallow : depth ≤ 6) : ∀ (n : Nat) (b : ScalarBudget),
    b.nodes + n ≤ 200000 → b.bytes + n * 65536 ≤ 16 * 1024 * 1024 →
      ScalarBudget.visitAll depth (List.replicate n (.string line)) b =
        .ok ⟨b.nodes + n, b.bytes + n * 65536⟩ := by
  intro n
  induction n with
  | zero => exact fun b _ _ => by simp [ScalarBudget.visitAll]
  | succ n ih =>
    intro b few small
    have one := visit_line (b := b) shallow (by omega) (by omega)
    have later := ih ⟨b.nodes + 1, b.bytes + 65536⟩ (by dsimp only; omega) (by dsimp only; omega)
    have nodes : b.nodes + 1 + n = b.nodes + (n + 1) := by omega
    have bytes : b.bytes + 65536 + n * 65536 = b.bytes + (n + 1) * 65536 := by omega
    rw [replicate_succ, ScalarBudget.visitAll, one, ok_bind, later, nodes, bytes]

theorem line_valid : ValueType.validateValue (.string 65536 true) (.string line) = .ok () := by
  have visited : ScalarBudget.visit 0 (.string line) ⟨0, 0⟩ = .ok ⟨0 + 1, 0 + 65536⟩ :=
    visit_line (by omega) (by decide) (by decide)
  have checked : (Scalar.string line).validate = .ok () := by
    rw [Scalar.validate, visited]
    rfl
  have short : (true || !line.isEmpty) && decide (line.length ≤ (65536 : UInt32).toNat) := by
    rw [line_length]
    decide
  rw [ValueType.validateValue, checked, ok_bind]
  exact if_pos short

theorem rows_valid : (CollectedValue.value (.array rows)).validate lines = .ok () := by
  have rows_eq : rows = List.replicate 256 (.string line) := by unfold rows; rfl
  have length : rows.length = 256 := by rw [rows_eq, length_replicate]
  have only : ∀ v ∈ rows, v = .string line := by
    intro v mem
    rw [rows_eq] at mem
    exact List.eq_of_mem_replicate mem
  have visited : ScalarBudget.visit 0 (.array rows) ⟨0, 0⟩ = .ok ⟨257, 16777216⟩ := by
    rw [ScalarBudget.visit, rows_eq]
    have entered : ScalarBudget.enter 0 ⟨0, 0⟩ = .ok ⟨1, 0⟩ := rfl
    rw [entered, ok_bind, visitAll_lines (by omega) 256 ⟨1, 0⟩ (by decide) (by decide)]
  have checked : (Scalar.array rows).validate = .ok () := by
    rw [Scalar.validate, visited]
    rfl
  have typed : lines.valueType.validateValue (.array rows) = .ok () := by
    have few : rows.length ≤ (300 : UInt32).toNat := by
      rw [length]
      decide
    show ValueType.validateValue (.array (.string 65536 true) 300) _ = _
    rw [ValueType.validateValue, checked, ok_bind, if_pos few, each_eq_ok]
    intro v mem
    rw [only v mem]
    exact line_valid
  have items : lines.validateItems (.array rows) = .ok () := by
    have each_ok : each lines.validateItem rows = .ok () := by
      rw [each_eq_ok]
      intro v mem
      rw [only v mem, FieldDefinition.validateItem, if_neg (by decide)]
      show (ValueType.validateValue (.string 65536 true) (.string line) >>= _) = _
      rw [line_valid, ok_bind, if_neg (by decide)]
    rw [FieldDefinition.validateItems, each_ok]
    rfl
  have plain : lines.hardwareValue (.array rows) = .ok none := by
    unfold FieldDefinition.hardwareValue
    rw [if_neg (by decide), if_neg (by decide)]
  show lines.validateScalar (.array rows) = .ok ()
  rw [FieldDefinition.validateScalar, if_neg (by decide), typed, ok_bind, plain, ok_bind]
  exact items

theorem repeated_length {a : Json.Json} {size : Nat} (large : size ≤ (Json.write a).length) (n : Nat) :
    n * (size + 1) + 1 ≤ (Json.writeItems (List.replicate n a)).length := by
  induction n with
  | zero =>
    rw [List.replicate_zero, Json.writeItems, List.length_singleton]
    omega
  | succ =>
    rw [replicate_succ, Json.writeItems, length_cons, List.length_append, Nat.succ_mul]
    omega

theorem jsonAll_replicate (n : Nat) (v : Scalar) :
    Scalar.jsonAll (List.replicate n v) = List.replicate n v.json := by
  induction n with
  | zero => rfl
  | succ _ ih => rw [replicate_succ, replicate_succ, Scalar.jsonAll, ih]

theorem tagged_length (kind : String) (a : Json.Json) :
    (Json.write a).length ≤ (Json.write (tagged kind a)).length :=
  Json.length_le_object (.tail _ (.head _))

theorem line_heavy : 65536 ≤ (Json.write (Scalar.string line).json).length := by
  have text := Json.length_le_string line
  rw [line_toList, length_replicate] at text
  exact text.trans (tagged_length "string" _)

theorem rows_heavy : aggregateBytes < (CollectedValue.value (.array rows)).toVec.length := by
  have rows_eq : rows = List.replicate 256 (.string line) := by unfold rows; rfl
  have items := repeated_length line_heavy 256
  have array : (Json.writeItems (Scalar.jsonAll rows)).length ≤
      (Json.write (.array (Scalar.jsonAll rows))).length := by
    rw [rows_eq, jsonAll_replicate, replicate_succ, Json.writeItems, Json.write,
      length_cons, length_cons]
  rw [rows_eq, jsonAll_replicate] at array
  have list := tagged_length "array" (.array (Scalar.jsonAll rows))
  have whole := tagged_length "value" (Scalar.array rows).json
  have encoded := Json.length_le_bytes (CollectedValue.value (.array rows)).json
  rw [rows_eq, jsonAll_replicate] at list
  have budget : aggregateBytes = 256 * 65536 := rfl
  rw [CollectedValue.toVec, budget]
  rw [CollectedValue.json] at encoded ⊢
  rw [Scalar.json, rows_eq, jsonAll_replicate] at whole encoded
  rw [Scalar.json, rows_eq, jsonAll_replicate]
  omega

/-- One list with an invalid row retains more than the budget. -/
theorem invalid_rows_exceed : Origin.new.start listing = .ok (CollectionProgress.new listing) ∧
    ¬ ((CollectionProgress.new listing).run
      [.observeInvalidItems lines.key rowQualities rows time]).Within := by
  refine ⟨rfl, ?_⟩
  have found : (CollectionProgress.new listing).fields.get? lines.key = some FieldAttempt.default :=
    CollectionProgress.get?_new.mpr ⟨mem_cons_self, rfl⟩
  have known : (CollectionProgress.new listing).definition.field lines.key = .ok lines := rfl
  have qualities : rowQualities = List.replicate 256 .success ++ [.invalid] := by
    unfold rowQualities
    rfl
  have length : rowQualities.length ≤ (300 : UInt32).toNat := by
    rw [qualities, List.length_append, length_replicate]
    decide
  have closed : ∀ q ∈ rowQualities, q = .success ∨ q = .invalid := by
    intro q mem
    rw [qualities] at mem
    rcases List.mem_append.mp mem with good | bad
    · exact .inl (List.eq_of_mem_replicate good)
    · exact .inr (List.mem_singleton.mp bad)
  have broken : Quality.invalid ∈ rowQualities := by
    rw [qualities]
    exact List.mem_append_right _ (List.mem_singleton.mpr rfl)
  have count : rows.length = successes rowQualities := by
    have rows_eq : rows = List.replicate 256 (.string line) := by unfold rows; rfl
    have one : [Quality.invalid].filter (· = .success) = [] := by decide
    rw [rows_eq, qualities, successes, List.filter_append, one, List.append_nil,
      List.filter_replicate, if_pos (by decide), length_replicate, length_replicate]
  have written : Written (CollectionProgress.new listing).definition
      (CollectionProgress.new listing).finished (.observeInvalidItems lines.key rowQualities rows time)
      lines.key FieldAttempt.default _ :=
    Written.invalidItems rfl rfl known rfl length broken closed count rows_valid rfl rfl
  have encodes := CollectionProgress.new_encodes listing
  have empty := CollectionProgress.new_weight listing
  have bytes : (CollectionProgress.new listing).valueBytes = .ok 0 := by
    rw [CollectionProgress.valueBytes_eq encodes, empty]
    rfl
  have funded := CollectionProgress.exceeds_of_unfunded encodes (by rw [empty]; omega) found written bytes
  apply funded
  have heavy := rows_heavy
  omega

/-- A full run over a list with one invalid row. -/
theorem small_rows_within : ((CollectionProgress.new listing).run
    [.observeInvalidItems lines.key [.success, .invalid] [.string "a"] time]).Within := by
  have funded : Origin.new.Funded listing ∧ (CollectionProgress.new listing).FundedRun
      [.observeInvalidItems lines.key [.success, .invalid] [.string "a"] time] := by
    refine ⟨trivial, ?_, trivial⟩
    rintro - total bytes
    have empty : (CollectionProgress.new listing).valueBytes = .ok 0 := by
      rw [CollectionProgress.valueBytes_eq (CollectionProgress.new_encodes listing),
        CollectionProgress.new_weight listing]
      rfl
    cases Except.ok.inj (empty.symm.trans bytes)
    decide
  exact (aggregate_budget listing .new (CollectionProgress.new listing) rfl _).mpr funded 1

end Sample

end RssMdm.Inventory
