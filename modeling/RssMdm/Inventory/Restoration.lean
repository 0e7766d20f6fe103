/- module: Inventory/Restoration
   source: crates/inventory/src/progress.rs
   digest: What restoration checks, and that every call keeps it. -/

import RssMdm.Inventory.Progress

set_option autoImplicit false

namespace RssMdm.Inventory

open Lib Lib.Fallible Lib.Int64
open Lib.Text (hexDigit utf8ByteSize_eq utf8Len utf8Len_cons)
open Option (any_eq_true)

variable [Environment]

structure Sound (d : FieldDefinition) (finished : Bool) (f : FieldAttempt) : Prop where
  reason : ∀ r, f.reason = some r → r ∈ reasons
  rows : ∀ values, arrayValues f.value = some values → values.length = expectedRows f
  items : checkItems d f = .ok ()
  retained : checkRetained d f = .ok ()
  terminal : badTerminal f = false
  received : ∀ time, f.receivedAt = some time → Environment.timepoint time = true
  digest : ∀ s, f.digest = some s → hexDigits s = true
  quality : f.quality = Inventory.quality f finished

variable {definition : CollectionDefinition}

theorem restoreField_eq_ok {finished : Bool} {key : FieldKey} {f : FieldAttempt} :
    restoreField definition finished (key, f) = .ok () ↔
      ∃ d, definition.field key = .ok d ∧ Sound d finished f := by
  unfold restoreField
  constructor
  · intro h
    obtain ⟨d, found, h⟩ := of_bind h
    obtain ⟨reason, h⟩ := of_guard h
    obtain ⟨rows, h⟩ := of_guard h
    obtain ⟨items, h⟩ := of_check h
    obtain ⟨retained, h⟩ := of_check h
    obtain ⟨terminal, h⟩ := of_guard h
    obtain ⟨last, -⟩ := of_guard h
    simp only [not_or, any_eq_true, not_exists, not_and, decide_eq_true_eq, not_not,
      Bool.not_eq_true, Bool.not_eq_false'] at reason rows terminal last
    exact ⟨d, found, reason, rows, items, retained, terminal, last.1, last.2.1, last.2.2⟩
  · rintro ⟨d, found, sound⟩
    rw [found, ok_bind, guard_eq_ok, guard_eq_ok]
    refine ⟨?_, ?_, ?_⟩
    · simp only [any_eq_true, not_exists, not_and, decide_eq_true_eq, not_not]
      exact sound.reason
    · simp only [any_eq_true, not_exists, not_and, decide_eq_true_eq, ne_eq, not_not]
      exact sound.rows
    · rw [sound.items, ok_bind, sound.retained, ok_bind, guard_eq_ok, guard_eq_ok]
      refine ⟨?_, ?_, rfl⟩
      · rw [sound.terminal]
        exact Bool.false_ne_true
      · simp only [not_or, any_eq_true, not_exists, not_and, not_not, Bool.not_eq_true,
          Bool.not_eq_false']
        exact ⟨sound.received, sound.digest, sound.quality⟩

structure Restorable (p : CollectionProgress) : Prop where
  size : p.fields.size = p.definition.fields.length
  fields : ∀ key f, p.fields.get? key = some f →
    ∃ d, p.definition.field key = .ok d ∧ Sound d p.finished f

theorem tryFrom_eq_ok {p : CollectionProgress} :
    CollectionProgress.tryFrom p.toDocument = .ok p ↔ Restorable p := by
  unfold CollectionProgress.tryFrom
  rw [guard_eq_ok, check_bind_eq_ok, each_eq_ok]
  constructor
  · rintro ⟨size, fields, -⟩
    refine ⟨not_not.mp size, ?_⟩
    intro key f found
    exact restoreField_eq_ok.mp (fields (key, f) (OrdMap.get?_eq_some.mp found))
  · intro restorable
    refine ⟨not_not.mpr restorable.size, ?_, rfl⟩
    intro entry mem
    exact restoreField_eq_ok.mpr (restorable.fields entry.1 entry.2 (OrdMap.get?_eq_some.mpr mem))

theorem encode_eq_ok {v : CollectedValue} {d : FieldDefinition} {bytes : List UInt8} :
    v.encode d = .ok bytes ↔ v.validate d = .ok () ∧ bytes = v.toVec := by
  unfold CollectedValue.encode
  rw [check_bind_eq_ok, Except.ok.injEq, eq_comm (a := v.toVec)]

theorem validate_array {d : FieldDefinition} {values : List Scalar}
    (h : (CollectedValue.value (.array values)).validate d = .ok ()) :
    ∃ items maxItems, d.valueType = .array items maxItems ∧ values.length ≤ maxItems.toNat := by
  obtain ⟨-, h⟩ := of_guard h
  obtain ⟨typed, -⟩ := of_check h
  exact (ValueType.validateValue_array typed).2

omit [Environment] in
theorem hex_ascii {c : Char} (h : (c.isDigit || ('a' ≤ c && c ≤ 'f')) = true) :
    c.utf8Size = 1 ∧ (hexDigit c).isSome = true := by
  rw [Bool.or_eq_true, Bool.and_eq_true, decide_eq_true_eq, decide_eq_true_eq] at h
  have range : ('0' ≤ c ∧ c ≤ '9') ∨ ('a' ≤ c ∧ c ≤ 'f') := by
    rcases h with digit | letter
    · simp only [Char.isDigit, Bool.and_eq_true, decide_eq_true_eq] at digit
      exact .inl digit
    · exact .inr letter
  constructor
  · apply Char.utf8Size_eq_one_iff.mpr
    rcases range with ⟨-, high⟩ | ⟨-, high⟩
    · have bound : c.val ≤ '9'.val := high
      exact UInt32.le_trans bound (by decide)
    · have bound : c.val ≤ 'f'.val := high
      exact UInt32.le_trans bound (by decide)
  · unfold hexDigit
    rcases range with low | high
    · simp [low]
    · by_cases digit : ('0' ≤ c && c ≤ '9') = true
      · simp [digit]
      · simp [digit, high]

omit [Environment] in
theorem hexDigest_hexDigits (bytes : List UInt8) : hexDigits (hexDigest bytes) = true := by
  obtain ⟨length, digits⟩ := hexDigest_text bytes
  have size : ∀ cs : List Char, (∀ c ∈ cs, (c.isDigit || ('a' ≤ c && c ≤ 'f')) = true) →
      utf8Len cs = cs.length := by
    intro cs all
    induction cs with
    | nil => rfl
    | cons c _ ih =>
      rw [utf8Len_cons, (hex_ascii (all c (.head _))).1,
        ih (fun d mem => all d (.tail _ mem)), List.length_cons, Nat.add_comm]
  unfold hexDigits
  rw [Bool.and_eq_true, decide_eq_true_eq, utf8ByteSize_eq, size _ digits, List.all_eq_true]
  exact ⟨length, fun c mem => (hex_ascii (digits c mem)).2⟩

inductive Operation where
  | observeStatus (key : FieldKey) (code : UInt16) (time : I64)
  | observeValue (key : FieldKey) (value : CollectedValue) (time : I64)
  | observeInvalid (key : FieldKey) (time : I64)
  | observeInvalidItems (key : FieldKey) (items : List Quality) (values : List Scalar) (time : I64)
  | reason (key : FieldKey) (text : String)
  | finish

namespace CollectionProgress

def apply (p : CollectionProgress) : Operation → Call
  | .observeStatus key code time => p.observeStatus key code time
  | .observeValue key value time => p.observeValue key value time
  | .observeInvalid key time => p.observeInvalid key time
  | .observeInvalidItems key items values time => p.observeInvalidItems key items values time
  | .reason key text => p.reason key text
  | .finish => (.ok (), p.finish)

def run (p : CollectionProgress) (ops : List Operation) : CollectionProgress :=
  ops.foldl (fun p op => (p.apply op).2) p

end CollectionProgress

/-- What an accepted call writes in place of a field. -/
inductive Written (definition : CollectionDefinition) (finished : Bool) :
    Operation → FieldKey → FieldAttempt → FieldAttempt → Prop where
  | status {key : FieldKey} {code : UInt16} {time : I64} {f : FieldAttempt}
      (valid : Environment.timepoint time = true) (unfinished : finished = false)
      (unsettled : f.terminal = none) (same : ∀ c, f.status = some c → c = code)
      (fits : accepted code = true ∨ f.digest = none) :
      Written definition finished (.observeStatus key code time) key f
        ({ f with status := some code, confirmed := accepted code, receivedAt := some time }.requalify
          false)
  | value {key : FieldKey} {value : CollectedValue} {time : I64} {f : FieldAttempt}
      {d : FieldDefinition} (valid : Environment.timepoint time = true)
      (unfinished : finished = false) (found : definition.field key = .ok d)
      (unsettled : f.terminal = none) (same : ∀ s, f.digest = some s → s = hexDigest value.toVec)
      (fits : ∀ c, f.status = some c → accepted c = true) :
      Written definition finished (.observeValue key value time) key f
        ({ f with value := CollectionProgress.validated d value
                  items := CollectionProgress.rowsOf (CollectionProgress.validated d value)
                  digest := some (hexDigest value.toVec)
                  receivedAt := some time }.requalify false)
  | invalid {key : FieldKey} {time : I64} {f : FieldAttempt}
      (valid : Environment.timepoint time = true) (unfinished : finished = false)
      (empty : f.value = none) (unsettled : f.terminal = none) :
      Written definition finished (.observeInvalid key time) key f
        ({ f with confirmed := false, receivedAt := some time, terminal := some .invalid }.requalify
          false)
  | invalidItems {key : FieldKey} {items : List Quality} {values : List Scalar} {time : I64}
      {f : FieldAttempt} {d : FieldDefinition} {itemType : ValueType} {maxItems : UInt32}
      (valid : Environment.timepoint time = true) (unfinished : finished = false)
      (found : definition.field key = .ok d) (type : d.valueType = .array itemType maxItems)
      (fits : items.length ≤ maxItems.toNat) (broken : .invalid ∈ items)
      (rows : ∀ q ∈ items, q = .success ∨ q = .invalid) (count : values.length = successes items)
      (validates : (CollectedValue.value (.array values)).validate d = .ok ())
      (empty : f.value = none) (unsettled : f.terminal = none) :
      Written definition finished (.observeInvalidItems key items values time) key f
        { { f with confirmed := false, receivedAt := some time,
                   terminal := some .invalid }.requalify false with
          items, digest := some (hexDigest (CollectedValue.value (.array values)).toVec)
          value := some (.value (.array values)) }
  | reason {key : FieldKey} {text : String} {f : FieldAttempt} (closed : text ∈ reasons) :
      Written definition finished (.reason key text) key f { f with reason := some text }

def Operation.key : Operation → Option FieldKey
  | .observeStatus key _ _ => some key
  | .observeValue key _ _ => some key
  | .observeInvalid key _ => some key
  | .observeInvalidItems key _ _ _ => some key
  | .reason key _ => some key
  | .finish => none

theorem Written.key_eq {finished : Bool} {op : Operation} {key : FieldKey} {f f' : FieldAttempt}
    (written : Written definition finished op key f f') : op.key = some key := by
  cases written <;> rfl

namespace CollectionProgress

/-- A call that fails leaves the progress unchanged; one that succeeds writes one field. -/
def Answers (p : CollectionProgress) (op : Operation) (call : Call) : Prop :=
  (∃ e, call = (.error e, p)) ∨
    ∃ key f f', p.fields.get? key = some f ∧ Written p.definition p.finished op key f f' ∧
      call = (.ok (), p.write key f')

variable {op : Operation} {p : CollectionProgress}

theorem Answers.attempt {α : Type} {x : Except Invalid α} {next : α → Call}
    (h : ∀ a, x = .ok a → p.Answers op (next a)) :
    p.Answers op (p.attempt x next) := by
  unfold CollectionProgress.attempt
  cases x with
  | error e => exact .inl ⟨e, rfl⟩
  | ok a => exact h a rfl

variable {e : Invalid}

theorem Answers.refuse {c : Prop} [Decidable c] {call : Call} (h : ¬c → p.Answers op call) :
    p.Answers op (if c then (.error e, p) else call) := by
  by_cases hc : c
  · rw [if_pos hc]
    exact .inl ⟨e, rfl⟩
  · rw [if_neg hc]
    exact h hc

theorem checkTime_eq_ok {time : I64} {u : Unit} (h : checkTime time = .ok u) :
    Environment.timepoint time = true := by
  unfold checkTime at h
  by_cases valid : Environment.timepoint time = true
  · exact valid
  · rw [if_neg valid] at h
    cases h

theorem get_eq_ok {key : FieldKey} {f : FieldAttempt} :
    p.get key e = .ok f ↔ p.fields.get? key = some f := by
  unfold CollectionProgress.get
  cases p.fields.get? key <;> simp

theorem observeStatus_answers (p : CollectionProgress) (key : FieldKey) (code : UInt16) (time : I64) :
    p.Answers (.observeStatus key code time) (p.observeStatus key code time) := by
  unfold observeStatus
  apply Answers.attempt
  intro _ valid
  apply Answers.refuse
  intro open_
  apply Answers.attempt
  intro f found
  apply Answers.refuse
  intro fits
  simp only [not_or, not_and, Bool.not_eq_true, Option.isSome_eq_false_iff, Option.isNone_iff_eq_none,
    any_eq_true, not_exists, decide_eq_true_eq, ne_eq, not_not] at open_ fits
  refine .inr ⟨key, f, _, get_eq_ok.mp found, .status (checkTime_eq_ok valid) open_.1 fits.1
    fits.2.1 ?_, rfl⟩
  by_cases code_ : accepted code = true
  · exact .inl code_
  · exact .inr (fits.2.2 (by simpa using code_))

theorem observeValue_answers (p : CollectionProgress) (key : FieldKey) (value : CollectedValue)
    (time : I64) : p.Answers (.observeValue key value time) (p.observeValue key value time) := by
  unfold observeValue
  apply Answers.attempt
  intro _ valid
  apply Answers.refuse
  intro unfinished
  apply Answers.attempt
  intro d found
  apply Answers.attempt
  intro previous _
  apply Answers.attempt
  intro total _
  apply Answers.refuse
  intro _
  apply Answers.attempt
  intro f old
  apply Answers.refuse
  intro fits
  simp only [not_or, Bool.not_eq_true, Option.isSome_eq_false_iff, Option.isNone_iff_eq_none,
    any_eq_true, not_exists, not_and, decide_eq_true_eq, ne_eq, not_not, Bool.not_eq_false']
    at fits
  exact .inr ⟨key, f, _, get_eq_ok.mp old, .value (checkTime_eq_ok valid) (by simpa using unfinished)
    found fits.1 fits.2.1 (by simpa using fits.2.2), rfl⟩

theorem observeInvalid_answers (p : CollectionProgress) (key : FieldKey) (time : I64) :
    p.Answers (.observeInvalid key time) (p.observeInvalid key time) := by
  unfold observeInvalid
  apply Answers.attempt
  intro _ valid
  apply Answers.attempt
  intro f found
  apply Answers.refuse
  intro fits
  simp only [not_or, Bool.not_eq_true, Option.isSome_eq_false_iff, Option.isNone_iff_eq_none] at fits
  exact .inr ⟨key, f, _, get_eq_ok.mp found, .invalid (checkTime_eq_ok valid) fits.1 fits.2.1
    fits.2.2, rfl⟩

theorem reason_answers (p : CollectionProgress) (key : FieldKey) (text : String) :
    p.Answers (.reason key text) (p.reason key text) := by
  unfold reason
  apply Answers.refuse
  intro closed
  apply Answers.attempt
  intro f found
  exact .inr ⟨key, f, _, get_eq_ok.mp found, .reason (not_not.mp closed), rfl⟩

theorem get?_write (p : CollectionProgress) (key key' : FieldKey) (f : FieldAttempt) :
    (p.write key f).fields.get? key' =
      if key' = key then (p.fields.get? key').map (fun _ => f) else p.fields.get? key' := by
  rw [write, OrdMap.get?_modify]

theorem write_write (p : CollectionProgress) (key : FieldKey) (f f' : FieldAttempt) :
    (p.write key f).write key f' = p.write key f' := by
  unfold write
  congr 2
  apply OrdMap.ext
  intro key'
  simp only [OrdMap.get?_modify]
  by_cases same : key' = key
  · simp [same, Function.comp_def]
  · simp [same]

omit [Environment] in
theorem maxItemsOf_eq_ok {d : FieldDefinition} {maxItems : UInt32}
    (h : maxItemsOf d = .ok maxItems) : ∃ itemType, d.valueType = .array itemType maxItems := by
  unfold maxItemsOf at h
  split at h
  · rename_i itemType _ type
    cases h
    exact ⟨itemType, type⟩
  · cases h

theorem observeInvalidItems_answers (p : CollectionProgress) (key : FieldKey) (items : List Quality)
    (values : List Scalar) (time : I64) :
    p.Answers (.observeInvalidItems key items values time)
      (p.observeInvalidItems key items values time) := by
  unfold observeInvalidItems
  apply Answers.attempt
  intro d found
  apply Answers.attempt
  intro maxItems list
  apply Answers.refuse
  intro shape
  apply Answers.refuse
  intro count
  apply Answers.attempt
  intro bytes encoded
  obtain ⟨validates, rfl⟩ := encode_eq_ok.mp encoded
  rcases p.observeInvalid_answers key time with ⟨e, failed⟩ | ⟨k, f, f₁, old, written, done⟩
  · rw [failed]
    exact .inl ⟨e, rfl⟩
  -- The first write found the field, so the second one does too.
  have again : (p.write k f₁).get k .unknownField = .ok f₁ := by
    rw [get_eq_ok, get?_write, if_pos rfl, old]
    rfl
  obtain ⟨itemType, type⟩ := maxItemsOf_eq_ok list
  rw [not_or, not_or, not_lt, not_not, List.any_eq_true] at shape
  have rows : ∀ q ∈ items, q = .success ∨ q = .invalid := by
    intro q mem
    by_contra other
    exact shape.2.2 ⟨q, mem, by simpa using other⟩
  rw [done]
  cases written with
  | invalid valid unfinished empty unsettled =>
    simp only [CollectionProgress.attempt, again, write_write]
    exact .inr ⟨key, f, _, old, .invalidItems valid unfinished found type shape.1 shape.2.1 rows
      (not_not.mp count) validates empty unsettled, rfl⟩

theorem apply_cases (p : CollectionProgress) (op : Operation) :
    p.Answers op (p.apply op) ∨ (op = .finish ∧ p.apply op = (.ok (), p.finish)) := by
  cases op with
  | observeStatus key code time => exact .inl (p.observeStatus_answers key code time)
  | observeValue key value time => exact .inl (p.observeValue_answers key value time)
  | observeInvalid key time => exact .inl (p.observeInvalid_answers key time)
  | observeInvalidItems key items values time =>
    exact .inl (p.observeInvalidItems_answers key items values time)
  | reason key text => exact .inl (p.reason_answers key text)
  | finish => exact .inr ⟨rfl, rfl⟩

theorem apply_error {p' : CollectionProgress} (h : p.apply op = (.error e, p')) : p' = p := by
  rcases p.apply_cases op with (⟨e', failed⟩ | ⟨key, f, f', -, -, done⟩) | ⟨-, done⟩
  · rw [failed] at h
    exact (Prod.mk.inj h).2.symm
  · rw [done] at h
    cases (Prod.mk.inj h).1
  · rw [done] at h
    cases (Prod.mk.inj h).1

end CollectionProgress

variable {d : FieldDefinition} {f : FieldAttempt}

omit [Environment] in
theorem items_nil (items : checkItems d f = .ok ()) (empty : f.value = none)
    (unsettled : f.terminal = none) : f.items = [] := by
  unfold checkItems at items
  by_cases none : f.items.isEmpty = true
  · exact List.isEmpty_iff.mp none
  rw [if_neg none] at items
  split at items
  · rw [guard_eq_ok, empty] at items
    simp [unsettled] at items
  · cases items

theorem checkItems_rowsOf (rows : f.items = CollectionProgress.rowsOf f.value)
    (valid : ∀ v, f.value = some v → v.validate d = .ok ()) : checkItems d f = .ok () := by
  unfold checkItems
  by_cases none : f.items.isEmpty = true
  · rw [if_pos none]
  rw [if_neg none]
  cases list : arrayValues f.value with
  | none =>
    rw [rows, CollectionProgress.rowsOf, list] at none
    exact absurd rfl none
  | some values =>
    have value : f.value = some (.value (.array values)) := by
      revert list
      unfold arrayValues
      split <;> simp_all
    obtain ⟨items, maxItems, type, fits⟩ := validate_array (valid _ value)
    have all : f.items = List.replicate values.length .success := by
      rw [rows, CollectionProgress.rowsOf, list]
    rw [type, value]
    simp only [all, List.length_replicate]
    rw [if_neg, if_pos]
    · exact ⟨trivial, by simp⟩
    · simp [fits]

theorem validated_eq_some {v w : CollectedValue} (h : CollectionProgress.validated d v = some w) :
    w = v ∧ v.validate d = .ok () := by
  unfold CollectionProgress.validated at h
  split at h
  · rename_i bytes encoded
    exact ⟨(Option.some.inj h).symm, (encode_eq_ok.mp encoded).1⟩
  · cases h

attribute [local simp] badTerminal FieldAttempt.requalify

theorem Written.sound {definition : CollectionDefinition} {finished : Bool} {op : Operation}
    {key : FieldKey} {f f' : FieldAttempt} (written : Written definition finished op key f f')
    {d : FieldDefinition} (found : definition.field key = .ok d) (sound : Sound d finished f) :
    Sound d finished f' := by
  cases written with
  | status valid unfinished unsettled =>
    refine ⟨sound.reason, sound.rows, sound.items, sound.retained, ?_, ?_, sound.digest, ?_⟩
    · simp [unsettled]
    · intro t eq
      cases eq
      exact valid
    · rw [unfinished]
      rfl
  | @value _ value _ _ _ valid unfinished found' unsettled =>
    cases Except.ok.inj (found.symm.trans found')
    have checked : ∀ v, CollectionProgress.validated d value = some v → v.validate d = .ok () := by
      intro v h
      obtain ⟨rfl, valid⟩ := validated_eq_some h
      exact valid
    refine ⟨sound.reason, ?_, checkItems_rowsOf rfl checked, ?_, ?_, ?_, ?_, ?_⟩
    · intro values list
      have rows : CollectionProgress.rowsOf (CollectionProgress.validated d value) =
          List.replicate values.length .success := by
        rw [CollectionProgress.rowsOf]
        exact list ▸ rfl
      simp [expectedRows, unsettled, rows]
    · unfold checkRetained
      simp only [FieldAttempt.requalify]
      cases kept : CollectionProgress.validated d value with
      | none => rfl
      | some =>
        obtain ⟨rfl, valid⟩ := validated_eq_some kept
        simp only [encode_eq_ok.mpr ⟨valid, rfl⟩, ok_bind]
        exact if_neg (not_not.mpr rfl)
    · simp [unsettled]
    · intro t eq
      cases eq
      exact valid
    · intro s eq
      cases eq
      exact hexDigest_hexDigits _
    · rw [unfinished]
      rfl
  | invalid valid unfinished empty unsettled =>
    have none := items_nil sound.items empty unsettled
    refine ⟨sound.reason, ?_, ?_, ?_, ?_, ?_, sound.digest, ?_⟩
    · intro values list
      simp [empty, arrayValues] at list
    · simp [checkItems, none]
    · simp [checkRetained, empty]
    · simp [empty]
    · intro t eq
      cases eq
      exact valid
    · rw [unfinished]
      rfl
  | @invalidItems _ items values _ _ _ _ maxItems valid unfinished found' type fits broken rows count validates =>
      cases Except.ok.inj (found.symm.trans found')
      refine ⟨sound.reason, ?_, ?_, ?_, ?_, ?_, ?_, ?_⟩
      · intro kept list
        cases list
        simpa [expectedRows] using count
      · have some : items.isEmpty = false := by
          cases items with
          | nil => cases broken
          | cons => rfl
        have invalid : ¬(values.length = items.length ∧ items.all (· = .success) = true) := by
          rintro ⟨-, all⟩
          have success := List.all_eq_true.mp all _ broken
          cases of_decide_eq_true success
        have shape : ¬(items.length > maxItems.toNat ∨
            items.any (fun q => !(q = .success || q = .invalid)) = true) := by
          rw [not_or, not_lt]
          refine ⟨fits, ?_⟩
          rw [List.any_eq_true]
          rintro ⟨q, mem, other⟩
          rcases rows q mem with rfl | rfl
          · cases other
          · cases other
        unfold checkItems
        simp only [FieldAttempt.requalify, some, type]
        rw [if_neg Bool.false_ne_true, if_neg shape, if_neg invalid, if_pos ⟨trivial, broken, count⟩]
      · simp only [checkRetained, encode_eq_ok.mpr ⟨validates, rfl⟩, ok_bind]
        exact if_neg (not_not.mpr rfl)
      · simp [broken]
      · intro t eq
        cases eq
        exact valid
      · intro s eq
        cases eq
        exact hexDigest_hexDigits _
      · rw [unfinished]
        rfl
  | reason closed =>
    refine ⟨?_, sound.rows, sound.items, sound.retained, sound.terminal, sound.received,
      sound.digest, sound.quality⟩
    intro r eq
    cases eq
    exact closed

theorem Sound.requalify {finished : Bool} (sound : Sound d finished f) (finished' : Bool) :
    Sound d finished' (f.requalify finished') :=
  ⟨sound.reason, sound.rows, sound.items, sound.retained, sound.terminal, sound.received,
    sound.digest, rfl⟩

namespace Restorable

variable {p : CollectionProgress}

theorem write (restorable : Restorable p) {key : FieldKey} {f : FieldAttempt} {d : FieldDefinition}
    (found : p.definition.field key = .ok d) (sound : Sound d p.finished f) :
    Restorable (p.write key f) := by
  constructor
  · have same : (p.write key f).fields.size = p.fields.size := by
      simp [CollectionProgress.write, OrdMap.size, OrdMap.modify, OrdMap.mapValues]
    rw [same]
    exact restorable.size
  · intro key' f' h
    rw [CollectionProgress.get?_write] at h
    by_cases here : key' = key
    · rw [if_pos here] at h
      obtain ⟨old, -, rfl⟩ := Option.map_eq_some_iff.mp h
      exact ⟨d, here ▸ found, sound⟩
    · rw [if_neg here] at h
      exact restorable.fields key' f' h

theorem finish (restorable : Restorable p) : Restorable p.finish := by
  constructor
  · have same : p.finish.fields.size = p.fields.size := by
      simp [CollectionProgress.finish, OrdMap.size, OrdMap.mapValues]
    rw [same]
    exact restorable.size
  · intro key f h
    rw [CollectionProgress.finish, OrdMap.get?_mapValues] at h
    obtain ⟨old, before, rfl⟩ := Option.map_eq_some_iff.mp h
    obtain ⟨d, found, sound⟩ := restorable.fields key old before
    exact ⟨d, found, sound.requalify true⟩

theorem apply (restorable : Restorable p) (op : Operation) :
    Restorable (p.apply op).2 := by
  rcases p.apply_cases op with (⟨e, failed⟩ | ⟨key, f, f', old, written, done⟩) | ⟨-, done⟩
  · rw [failed]
    exact restorable
  · rw [done]
    obtain ⟨d, found, sound⟩ := restorable.fields key f old
    exact restorable.write found (written.sound found sound)
  · rw [done]
    exact restorable.finish

theorem run (restorable : Restorable p) (ops : List Operation) :
    Restorable (p.run ops) := by
  unfold CollectionProgress.run
  induction ops generalizing p with
  | nil => exact restorable
  | cons op _ ih => exact ih (restorable.apply op)

end Restorable

end RssMdm.Inventory
