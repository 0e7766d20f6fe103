/- module: Inventory/ReportRoundTrip
   source: crates/inventory/src/progress.rs, crates/inventory/src/collected.rs
   digest: A published body reads back as a progress that publishes the same body, exactly when every
   value in it reads back. -/

import RssMdm.Inventory.Budget
import RssMdm.Inventory.Publication

set_option autoImplicit false

namespace RssMdm.Inventory

open Lib Lib.Fallible Lib.Int64
open List (filterMap_cons_none filterMap_cons_some foldlM_cons forall_mem_cons map_cons mem_cons
  mem_map nodup_cons sum_cons)
open Option (bind_eq_some_iff bind_some map_eq_some_iff map_none map_some)

section

/-- A definition as the code can hold it: a key is only made by the parser. -/
structure ParsedDefinition [Environment] extends CollectionDefinition where
  parsed : ∀ f ∈ fields, FieldKey.parse f.key.asStr = .ok f.key

def Body.size (B : Body) : Nat := (B.changes.map (fun c => (c.value.getD []).length)).sum

variable [Environment]

def ReadsBack (v : CollectedValue) : Prop := Environment.fromSlice v.toVec = some v

def Change.upserts (e : FieldKey × CollectedValue) : Change := ⟨e.1.asStr, some e.2.toVec⟩

namespace CollectionProgress

def said (p : CollectionProgress) (key : FieldKey) : Option CollectedValue :=
  (p.fields.get? key).bind (published p.covered)

def sayings (p : CollectionProgress) : List (FieldKey × CollectedValue) :=
  p.fields.keys.filterMap (fun key => (p.said key).map (fun v => (key, v)))

/-- Some field failed or is invalid. -/
def broken (p : CollectionProgress) : Bool :=
  p.fields.values.any (fun f => f.quality = .failed || f.quality = .invalid)

def shape (p : CollectionProgress) : Body :=
  if p.covered then .snapshot (p.sayings.map Change.upserts)
  else if p.sayings.isEmpty && p.broken then .failed "collection_failed"
  else .partially (p.sayings.map Change.upserts)

def Presentable (p : CollectionProgress) (key : FieldKey) (v : CollectedValue) : Prop :=
  Environment.observationId key.asStr = true ∧
    ∃ d, p.definition.field key = .ok d ∧ v.validate d = .ok ()

def Publishable (p : CollectionProgress) : Prop :=
  ∀ key v, p.said key = some v → p.Presentable key v

variable {p : CollectionProgress}

theorem mem_sayings {key : FieldKey} {v : CollectedValue} :
    (key, v) ∈ p.sayings ↔ p.said key = some v := by
  rw [sayings, List.mem_filterMap]
  constructor
  · rintro ⟨k, -, same⟩
    obtain ⟨w, said, pair⟩ := map_eq_some_iff.mp same
    cases pair
    exact said
  · intro said
    obtain ⟨f, found, -⟩ := bind_eq_some_iff.mp said
    exact ⟨key, OrdMap.mem_keys.mpr ⟨f, found⟩, by rw [said]; rfl⟩

theorem nodup_sayings (p : CollectionProgress) : (p.sayings.map Prod.fst).Nodup := by
  have keys : p.sayings.map Prod.fst = p.fields.keys.filter (fun key => (p.said key).isSome) := by
    unfold sayings
    induction p.fields.keys with
    | nil => rfl
    | cons key rest ih =>
      cases said : p.said key with
      | none =>
        have none : (p.said key).isSome = false := by rw [said]; rfl
        rw [filterMap_cons_none (by rw [said]; rfl), ih, List.filter_cons_of_neg (by simp [none])]
      | some =>
        have some : (p.said key).isSome = true := by rw [said]; rfl
        have kept : List.filter (fun key => (p.said key).isSome) (key :: rest) =
            key :: List.filter (fun key => (p.said key).isSome) rest :=
          List.filter_cons_of_pos some
        rw [filterMap_cons_some (by rw [said]; rfl), map_cons, ih, kept]
  rw [keys]
  exact p.fields.nodup_keys.filter _

theorem publish_eq_ok {changes changes' : List Change} {e : FieldKey × FieldAttempt} :
    p.publish changes e = .ok changes' ↔
      (∀ v, published p.covered e.2 = some v → p.Presentable e.1 v) ∧
        changes' = changes ++ (p.change e).toList := by
  unfold publish
  cases outcome : published p.covered e.2 with
  | none =>
    have skipped : p.change e = none := by rw [change, outcome, map_none]
    rw [skipped, Option.toList_none, List.append_nil, Except.ok.injEq, eq_comm]
    exact ⟨fun same => ⟨fun v absent => absurd absent.symm (Option.some_ne_none v), same⟩, fun h => h.2⟩
  | some v =>
    have added : p.change e = some (.upserts (e.1, v)) := by
      rw [change, outcome, map_some]
      rfl
    rw [added, Option.toList_some, guard_eq_ok]
    constructor
    · rintro ⟨name, h⟩
      obtain ⟨d, known, h⟩ := of_bind h
      obtain ⟨bytes, encoded, h⟩ := of_bind h
      obtain ⟨fits, rfl⟩ := encode_eq_ok.mp encoded
      refine ⟨?_, (Except.ok.inj h).symm⟩
      rintro _ ⟨rfl⟩
      exact ⟨by simpa using name, d, known, fits⟩
    · rintro ⟨presentable, rfl⟩
      obtain ⟨name, d, known, fits⟩ := presentable v rfl
      refine ⟨by simp [name], ?_⟩
      rw [known, ok_bind, encode_eq_ok.mpr ⟨fits, rfl⟩, ok_bind]
      rfl

theorem foldlM_publish_eq_ok (entries : List (FieldKey × FieldAttempt)) :
    ∀ {changes changes' : List Change}, entries.foldlM p.publish changes = .ok changes' ↔
      (∀ e ∈ entries, ∀ v, published p.covered e.2 = some v → p.Presentable e.1 v) ∧
        changes' = changes ++ entries.filterMap p.change := by
  induction entries with
  | nil =>
    intro changes changes'
    rw [List.filterMap_nil, List.append_nil, List.foldlM_nil]
    exact ⟨fun same => ⟨List.forall_mem_nil _, (Except.ok.inj same).symm⟩, fun h => congrArg Except.ok h.2.symm⟩
  | cons e rest ih =>
    intro changes changes'
    have split : (e :: rest).filterMap p.change = (p.change e).toList ++ rest.filterMap p.change := by
      cases outcome : p.change e with
      | none => rw [filterMap_cons_none outcome, Option.toList_none, List.nil_append]
      | some =>
        rw [filterMap_cons_some outcome, Option.toList_some]
        rfl
    rw [foldlM_cons, bind_eq_ok, split, ← List.append_assoc, forall_mem_cons]
    constructor
    · rintro ⟨changes₁, first, later⟩
      obtain ⟨here, rfl⟩ := publish_eq_ok.mp first
      obtain ⟨there, rfl⟩ := ih.mp later
      exact ⟨⟨here, there⟩, rfl⟩
    · rintro ⟨⟨here, there⟩, rfl⟩
      exact ⟨_, publish_eq_ok.mpr ⟨here, rfl⟩, ih.mpr ⟨there, rfl⟩⟩

theorem changes_eq (p : CollectionProgress) :
    p.fields.entries.filterMap p.change = p.sayings.map Change.upserts := by
  have said : ∀ e ∈ p.fields.entries, p.said e.1 = published p.covered e.2 := by
    intro e mem
    rw [CollectionProgress.said, OrdMap.get?_eq_some.mpr mem, bind_some]
  rw [sayings, OrdMap.keys]
  revert said
  induction p.fields.entries with
  | nil => exact fun _ => rfl
  | cons e _ ih =>
    intro said
    have later := ih (fun e mem => said e (.tail _ mem))
    have here := said e (.head _)
    cases outcome : published p.covered e.2 with
    | none =>
      rw [outcome] at here
      have skipped : p.change e = none := by rw [change, outcome, map_none]
      rw [filterMap_cons_none skipped, map_cons,
        filterMap_cons_none (by rw [here]; rfl), later]
    | some v =>
      rw [outcome] at here
      have added : p.change e = some (.upserts (e.1, v)) := by
        rw [change, outcome, map_some]
        rfl
      rw [filterMap_cons_some added, map_cons,
        filterMap_cons_some (by rw [here]; rfl), map_cons, later]

theorem body_eq_shape {B : Body} :
    p.body = .ok (some B) ↔ (p.fields.values.all (fun f => f.receivedAt.isNone) = false ∧
      p.Publishable ∧ B = p.shape ∧
      (B.isFailed = true → Environment.observationId "collection_failed" = true)) := by
  have listed : (∀ e ∈ p.fields.entries, ∀ v, published p.covered e.2 = some v →
      p.Presentable e.1 v) ↔ p.Publishable := by
    constructor
    · intro all key v said
      obtain ⟨f, found, outcome⟩ := bind_eq_some_iff.mp said
      exact all (key, f) (OrdMap.get?_eq_some.mp found) v outcome
    · intro all e mem v outcome
      apply all e.1 v
      rw [said, OrdMap.get?_eq_some.mpr mem, bind_some]
      exact outcome
  have collects : ∀ changes, p.fields.entries.foldlM p.publish [] = .ok changes ↔
      p.Publishable ∧ changes = p.sayings.map Change.upserts := by
    intro changes
    rw [foldlM_publish_eq_ok, listed, List.nil_append, changes_eq]
  have empty : (p.sayings.map Change.upserts).isEmpty = p.sayings.isEmpty := by
    cases p.sayings <;> rfl
  have any : p.fields.values.any (fun f => f.quality = .failed || f.quality = .invalid) = p.broken := rfl
  unfold body shape
  by_cases silent : p.fields.values.all (fun f => f.receivedAt.isNone) = true
  · rw [if_pos silent, silent]
    constructor
    · intro h
      cases Except.ok.inj h
    · rintro ⟨heard, -⟩
      cases heard
  · rw [if_neg silent, bind_eq_ok]
    have heard := Bool.eq_false_iff.mpr silent
    constructor
    · rintro ⟨changes, collected, h⟩
      obtain ⟨publishable, rfl⟩ := (collects changes).mp collected
      refine ⟨heard, publishable, ?_⟩
      rw [empty, any] at h
      by_cases covered : p.covered = true
      · rw [if_pos covered] at h ⊢
        cases h
        exact ⟨rfl, fun failed => (by cases failed)⟩
      rw [if_neg covered] at h ⊢
      by_cases failed : (p.sayings.isEmpty && p.broken) = true
      · rw [if_pos failed]
        rw [if_pos failed] at h
        by_cases named : Environment.observationId "collection_failed" = true
        · rw [if_pos named] at h
          cases h
          exact ⟨rfl, fun _ => named⟩
        · rw [if_neg named] at h
          cases h
      · rw [if_neg failed]
        rw [if_neg failed] at h
        cases h
        exact ⟨rfl, fun failed => (by cases failed)⟩
    · rintro ⟨-, publishable, rfl, named⟩
      refine ⟨_, (collects _).mpr ⟨publishable, rfl⟩, ?_⟩
      rw [empty, any]
      by_cases covered : p.covered = true
      · rw [if_pos covered, if_pos covered]
      rw [if_neg covered, if_neg covered] at *
      by_cases failed : (p.sayings.isEmpty && p.broken) = true
      · rw [if_pos failed] at named ⊢
        rw [if_pos failed, if_pos (named rfl)]
      · rw [if_neg failed]
        rw [if_neg failed]

end CollectionProgress

end

section

variable [Environment]

namespace CollectionProgress

structure Readable (definition : CollectionDefinition) (key : FieldKey) (v : CollectedValue) : Prop where
  parsed : FieldKey.parse key.asStr = .ok key
  fits : ∃ d, definition.field key = .ok d ∧ v.validate d = .ok ()
  back : ReadsBack v

variable {definition : CollectionDefinition}

theorem Readable.decode {key : FieldKey} {v : CollectedValue}
    (readable : Readable definition key v) :
    ∃ d, definition.field key = .ok d ∧
      CollectedValue.decode d v.toVec = .ok v := by
  obtain ⟨d, known, fits⟩ := readable.fits
  refine ⟨d, known, ?_⟩
  have back : Environment.fromSlice v.toVec = some v := readable.back
  rw [CollectedValue.decode, back]
  dsimp only
  rw [fits, ok_bind]

theorem foldlM_readChange_ok (sayings : List (FieldKey × CollectedValue)) :
    ∀ values : OrdMap FieldKey NativeValue,
      (∀ e ∈ sayings, Readable definition e.1 e.2) → (sayings.map Prod.fst).Nodup →
      (∀ e ∈ sayings, values.get? e.1 = none) →
      ∃ values', (sayings.map Change.upserts).foldlM (readChange definition) values = .ok values' ∧
        (∀ e ∈ sayings, values'.get? e.1 = some (.value e.2)) ∧
        ∀ key, key ∉ sayings.map Prod.fst → values'.get? key = values.get? key := by
  induction sayings with
  | nil => exact fun values _ _ _ => ⟨values, rfl, List.forall_mem_nil _, fun _ _ => rfl⟩
  | cons e rest ih =>
    intro values readable distinct unread
    obtain ⟨fresh, distinct⟩ := nodup_cons.mp distinct
    obtain ⟨here, there⟩ := forall_mem_cons.mp readable
    obtain ⟨free, others⟩ := forall_mem_cons.mp unread
    obtain ⟨d, known, decoded⟩ := here.decode
    have one : readChange definition values (.upserts e) =
        .ok (values.insert e.1 (.value e.2)) := by
      have outcome : reportedValue d (.upserts e) = .ok (.value e.2) := by
        show (CollectedValue.decode d e.2.toVec).map NativeValue.value = _
        rw [decoded]
        rfl
      have absent : values.contains e.1 = false := by
        rw [OrdMap.contains, free]
        rfl
      have parsed : FieldKey.parse (Change.upserts e).key = .ok e.1 := here.parsed
      rw [readChange, parsed, ok_bind, known, ok_bind, outcome, ok_bind, absent]
      rfl
    have unread' : ∀ e' ∈ rest, (values.insert e.1 (.value e.2)).get? e'.1 = none := by
      intro e' mem
      rw [OrdMap.get?_insert, if_neg, others e' mem]
      intro same
      exact fresh (same ▸ List.mem_map_of_mem mem)
    obtain ⟨values', read, given, kept⟩ := ih _ there distinct unread'
    refine ⟨values', ?_, ?_, ?_⟩
    · rw [map_cons, foldlM_cons, one, ok_bind, read]
    · rw [forall_mem_cons]
      refine ⟨?_, given⟩
      rw [kept e.1 fresh, OrdMap.get?_insert, if_pos rfl]
    · intro key out
      rw [map_cons, mem_cons, not_or] at out
      rw [kept key out.2, OrdMap.get?_insert, if_neg out.1]

end CollectionProgress

def FieldAttempt.holding (v : CollectedValue) (time : I64) : FieldAttempt :=
  { FieldAttempt.default with
    value := some v, items := CollectionProgress.rowsOf (some v), digest := some (hexDigest v.toVec)
    receivedAt := some time }.requalify false

def FieldAttempt.reads (v : CollectedValue) (time : I64) : FieldAttempt :=
  { FieldAttempt.holding v time with confirmed := true }.requalify false

/-- A field that ended without a value. -/
def FieldAttempt.ends (terminal : Quality) (time : I64) : FieldAttempt :=
  { FieldAttempt.default with receivedAt := some time, terminal := some terminal }.requalify false

/-- What an outcome other than an invalid list makes of a field. -/
def NativeValue.leaves (time : I64) : NativeValue → FieldAttempt
  | .value v => .reads v time
  | .missing => .ends .missing time
  | .failed => .ends .failed time
  | .invalid => .ends .invalid time
  | .invalidItems _ _ => .default

def NativeValue.Plain (definition : CollectionDefinition) (key : FieldKey) : NativeValue → Prop
  | .value v => ∃ d, definition.field key = .ok d ∧ v.validate d = .ok ()
  | .missing => True
  | .failed => True
  | _ => False

namespace CollectionProgress

variable {key : FieldKey} {p : CollectionProgress} {time : I64}

theorem observeValue_fresh {v : CollectedValue} {d : FieldDefinition}
    (valid : Environment.timepoint time = true) (unfinished : p.finished = false)
    (untouched : p.fields.get? key = some FieldAttempt.default)
    (known : p.definition.field key = .ok d) (fits : v.validate d = .ok ()) (encodes : p.Encodes)
    (room : p.weight + v.toVec.length ≤ aggregateBytes) :
    p.observeValue key v time = (.ok (), p.write key (.holding v time)) := by
  have budget : aggregateBytes = 16 * 1024 * 1024 := rfl
  have total : p.valueBytes = .ok p.weight := by rw [valueBytes_eq encodes, if_pos (by omega)]
  have nothing : retainedBytes d (p.fields.get? key) = .ok 0 := by
    rw [retainedBytes, untouched]
    rfl
  have passed : checkTime time = .ok () := if_pos valid
  have held : p.get key .unknownField = .ok FieldAttempt.default := get_eq_ok.mpr untouched
  have kept : validated d v = some v := validated_of_valid fits
  have small : ¬ min (p.weight - 0 + v.toVec.length) (2 ^ 64 - 1) > 16 * 1024 * 1024 := by omega
  unfold observeValue attempt
  rw [passed, if_neg (by rw [unfinished]; exact Bool.false_ne_true), known]
  dsimp only
  rw [nothing, total]
  dsimp only
  rw [if_neg small, held]
  dsimp only
  rw [if_neg (by simp [FieldAttempt.default]), kept]
  rfl

theorem terminate_fresh {terminal : Quality} (valid : Environment.timepoint time = true)
    (untouched : p.fields.get? key = some FieldAttempt.default) :
    p.terminate key terminal time = .ok (p.write key (.ends terminal time)) := by
  have passed : checkTime time = .ok () := if_pos valid
  have held : p.get key .unknownField = .ok FieldAttempt.default := get_eq_ok.mpr untouched
  rw [terminate, passed, ok_bind, held, ok_bind]
  rfl

variable {values : OrdMap FieldKey NativeValue}

theorem nativeField_plain (valid : Environment.timepoint time = true)
    (unfinished : p.finished = false) (untouched : p.fields.get? key = some FieldAttempt.default)
    (encodes : p.Encodes) (plain : ((values.get? key).getD .missing).Plain p.definition key)
    (room : p.weight + (((values.get? key).getD .missing).leaves time).weight ≤ aggregateBytes) :
    nativeField values time p key =
      .ok (p.write key (((values.get? key).getD .missing).leaves time)) := by
  unfold nativeField
  cases outcome : (values.get? key).getD .missing with
  | value v =>
    rw [outcome] at plain room
    obtain ⟨d, known, fits⟩ := plain
    have taken := observeValue_fresh valid unfinished untouched known fits encodes room
    have held : (p.write key (.holding v time)).get key .unknownField = .ok (.holding v time) := by
      rw [get_eq_ok, get?_write, if_pos rfl, untouched]
      rfl
    dsimp only
    rw [taken]
    dsimp only
    rw [confirm, held, ok_bind, write_write]
    rfl
  | missing | failed => exact terminate_fresh valid untouched
  | invalid | invalidItems =>
    rw [outcome] at plain
    exact plain.elim

/-- Bytes that the outcomes of some keys retain. -/
def load (values : OrdMap FieldKey NativeValue) (time : I64) (keys : List FieldKey) : Nat :=
  (keys.map (fun key => (((values.get? key).getD .missing).leaves time).weight)).sum

theorem foldlM_nativeField_plain (valid : Environment.timepoint time = true)
    (keys : List FieldKey) :
    ∀ p : CollectionProgress, keys.Nodup → p.finished = false → p.Encodes →
      (∀ key ∈ keys, p.fields.get? key = some FieldAttempt.default) →
      (∀ key ∈ keys, ((values.get? key).getD .missing).Plain p.definition key) →
      p.weight + load values time keys ≤ aggregateBytes →
      ∃ p', keys.foldlM (nativeField values time) p = .ok p' ∧ p'.definition = p.definition ∧
        p'.completeCoverage = p.completeCoverage ∧
        (∀ key ∈ keys, p'.fields.get? key = some (((values.get? key).getD .missing).leaves time)) ∧
        ∀ key, key ∉ keys → p'.fields.get? key = p.fields.get? key := by
  induction keys with
  | nil => exact fun p _ _ _ _ _ _ => ⟨p, rfl, rfl, rfl, List.forall_mem_nil _, fun _ _ => rfl⟩
  | cons key rest ih =>
    intro p distinct unfinished encodes untouched plain room
    obtain ⟨fresh, distinct⟩ := nodup_cons.mp distinct
    obtain ⟨here, there⟩ := forall_mem_cons.mp untouched
    obtain ⟨first, others⟩ := forall_mem_cons.mp plain
    rw [load, map_cons, sum_cons] at room
    have one := nativeField_plain valid unfinished here encodes first (by omega)
    generalize out : ((values.get? key).getD .missing).leaves time = f at one room
    have grown : (p.write key f).weight = p.weight + f.weight := weight_write_fresh here rfl f
    have encodes' : (p.write key f).Encodes := by
      refine encodes_write encodes here (fun v value => .inr ?_)
      rw [← out] at value
      cases outcome : (values.get? key).getD .missing with
      | value =>
        rw [outcome] at first value
        cases Option.some.inj value
        exact first
      | missing | failed => rw [outcome] at value; cases value
      | invalid | invalidItems => rw [outcome] at first; exact first.elim
    have untouched' : ∀ k ∈ rest, (p.write key f).fields.get? k = some FieldAttempt.default := by
      intro k mem
      have other : k ≠ key := fun same => fresh (same ▸ mem)
      rw [get?_write, if_neg other, there k mem]
    obtain ⟨p', run, definition, coverage, given, kept⟩ :=
      ih (p.write key f) distinct unfinished encodes' untouched' others
        (by rw [grown, load]; omega)
    refine ⟨p', ?_, definition, coverage, ?_, ?_⟩
    · rw [foldlM_cons, one, ok_bind, run]
    · rw [forall_mem_cons]
      refine ⟨?_, given⟩
      rw [kept key fresh, get?_write, if_pos rfl, here, out]
      rfl
    · intro k out'
      rw [mem_cons, not_or] at out'
      rw [kept k out'.2, get?_write, if_neg out'.1]

end CollectionProgress

end

section

variable [Environment]

def NativeValue.seals (time : I64) (deleted : Bool) (outcome : NativeValue) : FieldAttempt :=
  if deleted then
    { (outcome.leaves time).requalify true with terminal := some .deleted, quality := .deleted }
  else (outcome.leaves time).requalify true

namespace CollectionProgress

variable {v : CollectedValue}

theorem seals_value (time : I64) (complete : Bool) (live : complete = true → v ≠ .deleted) :
    published complete ((NativeValue.value v).seals time false) = some v := by
  cases v with
  | deleted =>
    cases complete with
    | false => rfl
    | true => exact absurd rfl (live rfl)
  | unknown | value | null | unsupported => rfl

theorem seals_value_settled (time : I64) (known : isUnknown (some v) = false) :
    ((NativeValue.value v).seals time false).quality.settled = true := by
  cases v with
  | unknown => cases known
  | deleted | value | null | unsupported => rfl

theorem shape_changes (p : CollectionProgress) : p.shape.changes = p.sayings.map Change.upserts := by
  unfold shape
  by_cases covered : p.covered = true
  · rw [if_pos covered]
    rfl
  rw [if_neg covered]
  by_cases failed : (p.sayings.isEmpty && p.broken) = true
  · rw [if_pos failed, List.isEmpty_iff.mp (Bool.and_eq_true_iff.mp failed).1]
    rfl
  · rw [if_neg failed]
    rfl

theorem shape_isSnapshot (p : CollectionProgress) : p.shape.isSnapshot = p.covered := by
  unfold shape
  cases covered : p.covered with
  | true => rfl
  | false =>
    rw [if_neg Bool.false_ne_true]
    split <;> rfl

variable {p : CollectionProgress}

theorem shape_isFailed : p.shape.isFailed = true ↔
    p.covered = false ∧ p.sayings = [] ∧ p.broken = true := by
  unfold shape
  cases covered : p.covered with
  | true => exact ⟨fun failed => (by cases failed), fun h => (by cases h.1)⟩
  | false =>
    by_cases failed : (p.sayings.isEmpty && p.broken) = true
    · rw [if_pos failed]
      obtain ⟨empty, broken⟩ := Bool.and_eq_true_iff.mp failed
      exact ⟨fun _ => ⟨rfl, List.isEmpty_iff.mp empty, broken⟩, fun _ => rfl⟩
    · rw [if_neg failed]
      refine ⟨fun failed => (by cases failed), ?_⟩
      rintro ⟨-, empty, broken⟩
      exact absurd (by rw [empty, broken]; rfl) failed

def outcome (p : CollectionProgress) (key : FieldKey) : NativeValue :=
  match p.said key with
  | some v => .value v
  | none => if p.shape.isFailed then .failed else .missing

theorem deletes_shape (p : CollectionProgress) (key : FieldKey) :
    deletes p.shape key = (p.covered && (p.said key).isNone) := by
  have given : (p.shape.changes.any (fun c => c.key = key.asStr && c.value.isNone)) = false := by
    rw [shape_changes, List.any_map, List.any_eq_false]
    intro e _
    simp [Change.upserts]
  have present : (p.shape.changes.any (fun c => c.key = key.asStr)) = (p.said key).isSome := by
    rw [shape_changes, List.any_map, Bool.eq_iff_iff, List.any_eq_true, Option.isSome_iff_exists]
    constructor
    · rintro ⟨⟨k, v⟩, mem, same⟩
      have same : k = key := FieldKey.mk.injEq _ _ ▸ of_decide_eq_true same
      exact ⟨v, same ▸ mem_sayings.mp mem⟩
    · rintro ⟨v, said⟩
      exact ⟨(key, v), mem_sayings.mpr said, decide_eq_true rfl⟩
  rw [deletes, given, present, shape_isSnapshot, Bool.or_false]
  cases p.said key <;> rfl

theorem said_covered (restorable : Restorable p) (covered : p.covered = true) {key : FieldKey}
    (said : p.said key = some v) :
    isUnknown (some v) = false ∧ v ≠ .deleted := by
  obtain ⟨f, found, outcome⟩ := bind_eq_some_iff.mp said
  obtain ⟨d, -, sound⟩ := restorable.fields key f found
  have settled := (covered_iff.mp covered).2 key f found
  rw [covered] at outcome
  simp only [Quality.settled, Bool.or_eq_true, decide_eq_true_eq] at settled
  rcases settled with (success | unsupported) | deleted
  · have read := sound.read success
    rw [published, success] at outcome
    have value : f.value = some v := outcome
    refine ⟨value ▸ read.known, ?_⟩
    rintro rfl
    have present := read.present
    rw [value] at present
    cases present
  · rw [published, unsupported] at outcome
    cases outcome
    exact ⟨rfl, by simp⟩
  · rw [published, deleted] at outcome
    cases outcome

theorem shape_of_outcomes {q : CollectionProgress} (restorable : Restorable p) (time : I64)
    (coverage : q.completeCoverage = p.shape.isSnapshot) (keys : q.fields.keys = p.fields.keys)
    (fields : ∀ key ∈ p.fields.keys, q.fields.get? key = some ((p.outcome key).seals time (deletes p.shape key)))
    (filled : p.fields.keys ≠ []) :
    (∀ key, q.said key = p.said key) ∧ q.shape = p.shape := by
  have absent : ∀ key, key ∉ p.fields.keys → q.fields.get? key = none ∧ p.fields.get? key = none :=
    fun key out => ⟨OrdMap.get?_eq_none.mpr (keys ▸ out), OrdMap.get?_eq_none.mpr out⟩
  have covered : q.covered = p.covered := by
    rw [Bool.eq_iff_iff, covered_iff, coverage, shape_isSnapshot]
    refine ⟨fun h => h.1, fun all => ⟨all, ?_⟩⟩
    intro key f found
    have mem : key ∈ p.fields.keys := keys ▸ OrdMap.mem_keys.mpr ⟨f, found⟩
    cases (fields key mem).symm.trans found
    rw [deletes_shape, all, outcome]
    cases said : p.said key with
    | none => rfl
    | some => exact seals_value_settled time (said_covered restorable all said).1
  have same : ∀ key, q.said key = p.said key := by
    intro key
    by_cases mem : key ∈ p.fields.keys
    · have here : q.said key =
          published p.covered ((p.outcome key).seals time (deletes p.shape key)) := by
        rw [CollectionProgress.said, fields key mem, covered, bind_some]
      rw [here, deletes_shape, outcome]
      cases said : p.said key with
      | some v =>
        have live : p.covered = true → v ≠ .deleted :=
          fun all => (said_covered restorable all said).2
        rw [Option.isNone_some, Bool.and_false]
        exact seals_value time _ live
      | none =>
        cases p.covered <;> cases p.shape.isFailed <;> rfl
    · obtain ⟨left, right⟩ := absent key mem
      rw [CollectionProgress.said, CollectionProgress.said, left, right]
      rfl
  have sayings : q.sayings = p.sayings := by
    rw [CollectionProgress.sayings, CollectionProgress.sayings, keys]
    simp only [same]
  refine ⟨same, ?_⟩
  have broken : p.covered = false → p.sayings = [] → q.broken = p.broken := by
    intro uncovered empty
    have silent : ∀ key, p.said key = none := by
      intro key
      cases said : p.said key with
      | none => rfl
      | some =>
        have mem := mem_sayings.mpr said
        rw [empty] at mem
        cases mem
    have failed : p.shape.isFailed = p.broken := by
      rw [Bool.eq_iff_iff, shape_isFailed]
      exact ⟨fun h => h.2.2, fun h => ⟨uncovered, empty, h⟩⟩
    have left : ∀ key ∈ p.fields.keys, q.fields.get? key =
        some ((if p.broken then NativeValue.failed else .missing).seals time false) := by
      intro key mem
      rw [fields key mem, deletes_shape, uncovered, Bool.false_and, outcome, silent key]
      rw [failed]
    obtain ⟨key, mem⟩ := List.exists_mem_of_ne_nil _ filled
    rw [Bool.eq_iff_iff, CollectionProgress.broken, OrdMap.any_values]
    constructor
    · rintro ⟨k, f, found, bad⟩
      have inside : k ∈ p.fields.keys := keys ▸ OrdMap.mem_keys.mpr ⟨f, found⟩
      cases (left k inside).symm.trans found
      cases whole : p.broken with
      | true => rfl
      | false =>
        rw [whole] at bad
        cases bad
    · intro whole
      refine ⟨key, _, left key mem, ?_⟩
      rw [whole]
      rfl
  unfold shape
  rw [covered, sayings]
  by_cases all : p.covered = true
  · rw [if_pos all, if_pos all]
  rw [if_neg all, if_neg all]
  cases empty : p.sayings with
  | nil => rw [broken (Bool.not_eq_true _ ▸ all) empty]
  | cons => rfl

end CollectionProgress

end

section

variable [Environment]

namespace CollectionProgress

variable {p : CollectionProgress}

theorem keys_new (restorable : Restorable p) :
    p.fields.keys = (new p.definition).fields.keys := by
  apply OrdMap.keys_ext
  intro key
  rw [OrdMap.mem_keys, OrdMap.mem_keys]
  constructor
  · rintro ⟨f, found⟩
    obtain ⟨d, known, -⟩ := restorable.fields key f found
    exact ⟨_, get?_new.mpr ⟨CollectionDefinition.mem_of_field known, rfl⟩⟩
  · rintro ⟨f, found⟩
    obtain ⟨field, mem, rfl⟩ := mem_map.mp (get?_new.mp found).1
    exact field_present restorable mem

theorem reportedValues_shape (restorable : Restorable p)
    (readable : ∀ key v, p.said key = some v → Readable p.definition key v) :
    ∃ values, reportedValues p.definition p.shape = .ok values ∧
      (∀ key ∈ values.keys, key ∈ p.fields.keys) ∧
      ∀ key ∈ p.fields.keys, (values.get? key).getD .missing = p.outcome key := by
  have all : ∀ e ∈ p.sayings, Readable p.definition e.1 e.2 :=
    fun e mem => readable e.1 e.2 (mem_sayings.mp mem)
  obtain ⟨values, read, given, kept⟩ :=
    foldlM_readChange_ok p.sayings .empty all p.nodup_sayings (fun _ _ => rfl)
  have inside : ∀ key ∈ p.fields.keys, (OrdSet.ofList (p.definition.fields.map CollectionField.key)).get?
      key = some () := by
    intro key mem
    rw [keys_new restorable] at mem
    obtain ⟨f, found⟩ := OrdMap.mem_keys.mp mem
    obtain ⟨u, listed⟩ := OrdMap.mem_keys.mp (OrdSet.mem_ofList.mpr (get?_new.mp found).1)
    exact listed
  have changes : p.shape.changes.foldlM (readChange p.definition) .empty = .ok values := by
    rw [shape_changes]
    exact read
  cases failed : p.shape.isFailed with
  | true =>
    refine ⟨_, by rw [reportedValues, changes, ok_bind, failed, if_pos rfl], ?_, ?_⟩
    · intro key mem
      obtain ⟨o, found⟩ := OrdMap.mem_keys.mp mem
      rw [OrdMap.get?_mapValues] at found
      obtain ⟨u, listed, -⟩ := map_eq_some_iff.mp found
      rw [keys_new restorable]
      exact OrdMap.mem_keys.mpr ⟨_, get?_new.mpr
        ⟨OrdSet.mem_ofList.mp (OrdMap.mem_keys.mpr ⟨u, listed⟩), rfl⟩⟩
    · intro key mem
      have silent : p.said key = none := by
        cases said : p.said key with
        | none => rfl
        | some =>
          have mem := mem_sayings.mpr said
          rw [(shape_isFailed.mp failed).2.1] at mem
          cases mem
      rw [OrdMap.get?_mapValues, inside key mem, outcome, silent]
      rw [failed]
      rfl
  | false =>
    refine ⟨values, by rw [reportedValues, changes, ok_bind, failed]; rfl, ?_, ?_⟩
    · intro key mem
      obtain ⟨o, found⟩ := OrdMap.mem_keys.mp mem
      by_cases said : key ∈ p.sayings.map Prod.fst
      · obtain ⟨⟨k, v⟩, saying, rfl⟩ := mem_map.mp said
        obtain ⟨f, present, -⟩ := bind_eq_some_iff.mp (mem_sayings.mp saying)
        exact OrdMap.mem_keys.mpr ⟨f, present⟩
      · rw [kept key said] at found
        cases found
    · intro key mem
      rw [outcome]
      cases said : p.said key with
      | some v =>
        rw [given (key, v) (mem_sayings.mpr said)]
        rfl
      | none =>
        have out : key ∉ p.sayings.map Prod.fst := by
          intro inside
          obtain ⟨⟨k, v⟩, saying, rfl⟩ := mem_map.mp inside
          cases said.symm.trans (mem_sayings.mp saying)
        rw [kept key out, failed]
        rfl

theorem leaves_weight (time : I64) (o : NativeValue) : (o.leaves time).weight =
    match o with
    | .value v => v.toVec.length
    | _ => 0 := by
  cases o <;> rfl

variable {values : OrdMap FieldKey NativeValue}

theorem load_shape (time : I64)
    (outcomes : ∀ key ∈ p.fields.keys, (values.get? key).getD .missing = p.outcome key) :
    load values time p.fields.keys = p.shape.size := by
  rw [Body.size, shape_changes, sayings, load, List.map_map]
  revert outcomes
  induction p.fields.keys with
  | nil => exact fun _ => rfl
  | cons key _ ih =>
    intro outcomes
    obtain ⟨here, there⟩ := forall_mem_cons.mp outcomes
    rw [map_cons, sum_cons, ih there, here, outcome, leaves_weight]
    cases said : p.said key with
    | none =>
      rw [filterMap_cons_none (by rw [said]; rfl)]
      cases p.shape.isFailed <;> exact Nat.zero_add _
    | some =>
      rw [filterMap_cons_some (by rw [said]; rfl), map_cons, sum_cons]
      rfl

theorem native_outcomes (restorable : Restorable p) (publishable : p.Publishable) {time : I64}
    (valid : Environment.timepoint time = true) (small : p.shape.size ≤ aggregateBytes)
    (inside : ∀ key ∈ values.keys, key ∈ p.fields.keys)
    (outcomes : ∀ key ∈ p.fields.keys, (values.get? key).getD .missing = p.outcome key) :
    ∃ p', native p.definition values time = .ok p' ∧ p'.definition = p.definition ∧
      p'.fields.keys = p.fields.keys ∧
      ∀ key ∈ p.fields.keys,
        p'.fields.get? key = some (((p.outcome key).leaves time).requalify true) := by
  have keys := keys_new restorable
  have known : each (fun key => (p.definition.field key).map (fun _ => ())) values.keys = .ok () := by
    rw [each_eq_ok]
    intro key mem
    obtain ⟨f, found⟩ := OrdMap.mem_keys.mp (inside key mem)
    obtain ⟨d, field, -⟩ := restorable.fields key f found
    rw [field]
    rfl
  have untouched : ∀ key ∈ p.fields.keys,
      (new p.definition).fields.get? key = some FieldAttempt.default := by
    intro key mem
    rw [keys] at mem
    obtain ⟨f, found⟩ := OrdMap.mem_keys.mp mem
    cases (get?_new.mp found).2
    exact found
  have plain : ∀ key ∈ p.fields.keys, ((values.get? key).getD .missing).Plain p.definition key := by
    intro key mem
    rw [outcomes key mem, outcome]
    cases said : p.said key with
    | some v => exact (publishable key v said).2
    | none => cases p.shape.isFailed <;> trivial
  obtain ⟨p', run, definition, -, given, kept⟩ := foldlM_nativeField_plain valid p.fields.keys
    (new p.definition) p.fields.nodup_keys rfl (new_encodes _) untouched plain
    (by rw [new_weight, load_shape time outcomes]; omega)
  rw [keys] at run
  refine ⟨p'.finish, by rw [native, known, ok_bind, run, ok_bind], definition, ?_, ?_⟩
  · apply OrdMap.keys_ext
    intro key
    rw [finish, OrdMap.keys_mapValues, OrdMap.mem_keys]
    constructor
    · rintro ⟨f, found⟩
      by_contra out
      rw [kept key out] at found
      rw [keys] at out
      exact out (OrdMap.mem_keys.mpr ⟨f, found⟩)
    · intro mem
      exact ⟨_, given key mem⟩
  · intro key mem
    rw [finish, OrdMap.get?_mapValues, given key mem, outcomes key mem]
    rfl

theorem seals_received (p : CollectionProgress) (key : FieldKey) (time : I64) (deleted : Bool) :
    ((p.outcome key).seals time deleted).receivedAt = some time := by
  rw [outcome]
  cases p.said key with
  | some => cases deleted <;> rfl
  | none => cases deleted <;> cases p.shape.isFailed <;> rfl

theorem reported_shape (restorable : Restorable p) (emitted : p.body = .ok (some p.shape))
    {time : I64} (valid : Environment.timepoint time = true) (small : p.shape.size ≤ aggregateBytes)
    (readable : ∀ key v, p.said key = some v → Readable p.definition key v) :
    ∃ q, reported p.definition p.shape time = .ok q ∧ q.body = .ok (some p.shape) := by
  obtain ⟨heard, publishable, -, named⟩ := body_eq_shape.mp emitted
  obtain ⟨values, read, inside, outcomes⟩ := reportedValues_shape restorable readable
  obtain ⟨p', captured, definition, keys, fields⟩ :=
    native_outcomes restorable publishable valid small inside outcomes
  refine ⟨_, by rw [reported, read, ok_bind, captured, ok_bind], ?_⟩
  generalize made : ({ p' with
    completeCoverage := p.shape.isSnapshot
    fields := p'.fields.mapValues (fun key f =>
      if deletes p.shape key then { f with terminal := some .deleted, quality := .deleted } else f) } :
      CollectionProgress) = q
  have written : ∀ key ∈ p.fields.keys,
      q.fields.get? key = some ((p.outcome key).seals time (deletes p.shape key)) := by
    intro key mem
    rw [← made]
    show (p'.fields.mapValues _).get? key = _
    rw [OrdMap.get?_mapValues, fields key mem]
    rfl
  have filled : p.fields.keys ≠ [] := by
    intro none
    have empty : p.fields.entries = [] := List.map_eq_nil_iff.mp none
    rw [OrdMap.values, empty] at heard
    cases heard
  have same : q.fields.keys = p.fields.keys := by
    rw [← made]
    show (p'.fields.mapValues _).keys = _
    rw [OrdMap.keys_mapValues, keys]
  have frozen : q.definition = p.definition := by
    rw [← made]
    exact definition
  obtain ⟨said, shape⟩ := shape_of_outcomes restorable time (made ▸ rfl) same written filled
  rw [body_eq_shape, shape]
  refine ⟨?_, ?_, rfl, named⟩
  · obtain ⟨key, mem⟩ := List.exists_mem_of_ne_nil _ filled
    rw [OrdMap.values, List.all_map, List.all_eq_false]
    refine ⟨_, OrdMap.get?_eq_some.mp (written key mem), ?_⟩
    rw [Function.comp_apply, seals_received]
    exact Bool.false_ne_true
  · intro key v saying
    rw [said key] at saying
    obtain ⟨name, d, known, fits⟩ := publishable key v saying
    exact ⟨name, d, frozen ▸ known, fits⟩

end CollectionProgress

end

section

variable [Environment]

namespace CollectionProgress

variable {key : FieldKey} {p : CollectionProgress}
  {values : OrdMap FieldKey NativeValue} {time : I64} {p' : CollectionProgress}

theorem foldlM_nativeField_at (keys : List FieldKey)
    (h : keys.foldlM (nativeField values time) p = .ok p') (distinct : keys.Nodup)
    (unfinished : p.finished = false)
    (untouched : ∀ key ∈ keys, p.fields.get? key = some FieldAttempt.default)
    (known : ∀ key ∈ keys, ∃ d, p.definition.field key = .ok d) (mem : key ∈ keys) :
    ∃ p₀ p₁, p₀.finished = false ∧ p₀.fields.get? key = some FieldAttempt.default ∧
      nativeField values time p₀ key = .ok p₁ ∧ p'.fields.get? key = p₁.fields.get? key := by
  induction keys generalizing p with
  | nil => cases mem
  | cons k rest ih =>
    obtain ⟨p₁, first, later⟩ := of_bind h
    obtain ⟨d, found⟩ := known k (.head _)
    obtain ⟨fresh, distinct⟩ := nodup_cons.mp distinct
    have here := untouched k (.head _)
    obtain ⟨f, rfl, -⟩ := nativeField_captured first unfinished here found
    have untouched' : ∀ j ∈ rest, (p.write k f).fields.get? j = some FieldAttempt.default := by
      intro j inside
      have other : j ≠ k := fun same => fresh (same ▸ inside)
      rw [get?_write, if_neg other, untouched j (.tail _ inside)]
    have known' : ∀ j ∈ rest, ∃ d, (p.write k f).definition.field j = .ok d :=
      fun j inside => known j (.tail _ inside)
    obtain ⟨-, outside, -⟩ := foldlM_nativeField rest later distinct unfinished untouched' known'
    rcases mem_cons.mp mem with rfl | inside
    · exact ⟨p, p.write key f, unfinished, here, first, outside key fresh⟩
    · exact ih later distinct unfinished untouched' known' inside

variable {v : CollectedValue}

omit [Environment] in
theorem published_live {complete : Bool} {g : FieldAttempt} (live : g.terminal = none)
    (silent : g.status = none) (said : published complete (g.requalify true) = some v) :
    g.value = some v := by
  have evidence := quality_evidence live true
  have quality_eq : (g.requalify true).quality = quality g true := rfl
  rw [← quality_eq] at evidence
  unfold published at said
  split at said
  · exact said
  · exact said
  · rename_i unsupported
    cases said
    rw [unsupported] at evidence
    rcases evidence with refused | ⟨-, marker⟩
    · rw [silent] at refused
      cases refused
    · exact marker_eq.2 marker
  · rename_i deleted
    split at said
    · cases said
    · cases said
      rw [deleted] at evidence
      exact marker_eq.1 evidence.2
  · cases said

theorem nativeField_published {w : CollectedValue} {g : FieldAttempt} {complete : Bool}
    (h : nativeField values time p key = .ok p')
    (untouched : p.fields.get? key = some FieldAttempt.default)
    (given : (values.get? key).getD .missing = .value w) (found : p'.fields.get? key = some g)
    (said : published complete (g.requalify true) = some v) : v = w := by
  unfold nativeField at h
  rw [given] at h
  dsimp only at h
  have answers := p.observeValue_answers key w time
  cases call : p.observeValue key w time with
  | mk result =>
    rw [call] at answers h
    cases result with
    | ok =>
      obtain ⟨k, f, f', old, written, rfl⟩ := Answers.written answers
      cases Option.some.inj written.key_eq
      cases old.symm.trans untouched
      obtain ⟨f₁, held, h⟩ := of_bind h
      rw [get_eq_ok, get?_write, if_pos rfl, untouched] at held
      cases held
      cases h
      rw [get?_write, if_pos rfl, get?_write, if_pos rfl, untouched] at found
      cases found
      cases written with
      | value =>
        have kept := published_live rfl rfl said
        exact (validated_eq_some kept).1
    | error e =>
      rcases answers with ⟨e', failed⟩ | ⟨k, f, f', -, -, done⟩
      · cases (Prod.mk.inj failed).2
        by_cases value : e = .value
        · -- The budget was exceeded, and the field is invalid.
          subst value
          have invalid := p.observeInvalid_answers key time
          rw [sequel_eq_ok h] at invalid
          obtain ⟨k, f, f', old, written, rfl⟩ := Answers.written invalid
          cases Option.some.inj written.key_eq
          rw [get?_write, if_pos rfl, old] at found
          cases found
          cases written
          cases said
        · cases e <;> first | cases h | exact absurd rfl value
      · cases (Prod.mk.inj done).1

theorem reported_reads_back (lawful : LawfulNumbers) {q : CollectionProgress}
    (publishable : p.Publishable) (read : reported p.definition p.shape time = .ok q)
    (again : q.body = .ok (some p.shape)) (said : p.said key = some v) : ReadsBack v := by
  obtain ⟨outcomes, given, rest⟩ := of_bind read
  obtain ⟨p', captured, last⟩ := of_bind rest
  obtain ⟨values, changes, chosen⟩ := of_bind given
  have mem := mem_sayings.mpr said
  have spoken : p.shape.isFailed = false := by
    rw [← Bool.not_eq_true, shape_isFailed]
    rintro ⟨-, none, -⟩
    rw [none] at mem
    cases mem
  rw [spoken] at chosen
  have same_values : values = outcomes := Except.ok.inj chosen
  subst same_values
  have listed : Change.upserts (key, v) ∈ p.shape.changes := by
    rw [shape_changes]
    exact List.mem_map_of_mem mem
  obtain ⟨-, told, -⟩ := foldlM_readChange _ changes
  obtain ⟨d, outcome, decoded, held⟩ := told _ listed
  obtain ⟨w, taken, rfl⟩ := map_eq_ok.mp decoded
  -- What the field publishes now is what was decoded, and it has the bytes of `v`.
  have shape : p.shape = q.shape := (body_eq_shape.mp again).2.2.1
  rw [shape, shape_changes] at listed
  obtain ⟨⟨k, x⟩, saying, same⟩ := mem_map.mp listed
  obtain ⟨name, bytes⟩ := Change.mk.inj same
  have name : k = key := FieldKey.mk.injEq _ _ ▸ name
  subst name
  obtain ⟨-, d', presented, fits⟩ := publishable k v said
  have equal : v = x :=
    CollectedValue.toVec_injective lawful (validate_finite fits) (Option.some.inj bytes).symm
  subst equal
  have now := mem_sayings.mp saying
  obtain ⟨g, found, published⟩ := bind_eq_some_iff.mp now
  have made := (Except.ok.inj last).symm
  rw [made] at found
  rw [OrdMap.get?_mapValues, map_eq_some_iff] at found
  obtain ⟨f, held', same⟩ := found
  have kept : deletes p.shape k = false := by
    rw [deletes_shape, said]
    exact Bool.and_false _
  rw [kept] at same
  cases same
  obtain ⟨-, captured⟩ := of_check captured
  obtain ⟨p₂, run, finished⟩ := of_bind captured
  cases finished
  rw [finish, OrdMap.get?_mapValues, map_eq_some_iff] at held'
  obtain ⟨f₀, held', rfl⟩ := held'
  have listed_keys : ∀ j ∈ (new p.definition).fields.keys,
      j ∈ p.definition.fields.map CollectionField.key := by
    intro j inside
    obtain ⟨f, there⟩ := OrdMap.mem_keys.mp inside
    exact (get?_new.mp there).1
  have inside : k ∈ (new p.definition).fields.keys :=
    OrdMap.mem_keys.mpr ⟨_, get?_new.mpr ⟨CollectionDefinition.mem_of_field presented, rfl⟩⟩
  obtain ⟨p₀, p₁, -, untouched, pass, stays⟩ := foldlM_nativeField_at _ run (OrdMap.nodup_keys _) rfl
    (fun j mem => get?_new.mpr ⟨listed_keys j mem, rfl⟩) (fun j mem => field_of_key (listed_keys j mem))
    inside
  have outcome : (values.get? k).getD .missing = .value w := by
    have held : values.get? k = some (.value w) := held
    rw [held]
    rfl
  have equal : v = w := nativeField_published pass untouched outcome (stays ▸ held') published
  subst equal
  unfold CollectedValue.decode at taken
  split at taken
  · cases taken
  rename_i back
  obtain ⟨-, last⟩ := of_check taken
  cases last
  exact back

end CollectionProgress

/-- A body is read as a progress that publishes the same body exactly when every value in it reads
back; the progress is any that passes its own restoration check. -/
theorem report_round_trip (lawful : LawfulNumbers) (definition : ParsedDefinition)
    (p : CollectionProgress) (frozen : p.definition = definition.toCollectionDefinition)
    (valid : CollectionProgress.tryFrom p.toDocument = .ok p) (B : Body)
    (emitted : p.body = .ok (some B)) (small : B.size ≤ 16 * 1024 * 1024) (time : I64)
    (point : Environment.timepoint time = true) :
    (∃ q, CollectionProgress.reported definition.toCollectionDefinition B time = .ok q ∧
        q.body = .ok (some B)) ↔
      ∀ key f v, p.fields.get? key = some f → CollectionProgress.published p.covered f = some v →
        ReadsBack v := by
  obtain ⟨-, publishable, rfl, -⟩ := CollectionProgress.body_eq_shape.mp emitted
  have restorable := tryFrom_eq_ok.mp valid
  rw [← frozen]
  constructor
  · rintro ⟨q, read, again⟩ key f v found outcome
    have said : p.said key = some v := by
      rw [CollectionProgress.said, found, bind_some, outcome]
    exact CollectionProgress.reported_reads_back lawful publishable read again said
  · intro back
    apply CollectionProgress.reported_shape restorable emitted point small
    intro key v said
    obtain ⟨f, found, outcome⟩ := bind_eq_some_iff.mp said
    obtain ⟨-, d, known, fits⟩ := publishable key v said
    refine ⟨?_, ⟨d, known, fits⟩, back key f v found outcome⟩
    rw [frozen] at known
    obtain ⟨field, mem, rfl⟩ := mem_map.mp (CollectionDefinition.mem_of_field known)
    exact definition.parsed field mem

end

namespace Thermometer

/-- A temperature with all its digits, and the one next to it. -/
def hot : NotNan := ⟨0x4058a66666666667#64, by decide⟩

def near : NotNan := ⟨0x4058a66666666666#64, by decide⟩

def numberText (n : NotNan) : List Char :=
  if n = hot then "98.60000000000001".toList
  else if n = near then "98.6".toList
  else Sample.numberText n

def hotText : List UInt8 := Text.asBytes
  "\x7b\"kind\":\"value\",\"value\":\x7b\"kind\":\"number\",\"value\":98.60000000000001\x7d\x7d"

def nearText : List UInt8 := Text.asBytes
  "\x7b\"kind\":\"value\",\"value\":\x7b\"kind\":\"number\",\"value\":98.6\x7d\x7d"

/-- Without `float_roundtrip` the digits are rounded to 9860000000000000 before they are divided. -/
scoped instance environment : Environment :=
  { Sample.environment with
    numberText
    fromSlice := fun bytes =>
      if bytes = hotText ∨ bytes = nearText then some (.value (.number near)) else none }

def temperature : FieldDefinition :=
  { Sample.flag with key := ⟨"custom.temperature"⟩, valueType := .number }

def temperatureField : CollectionField := ⟨temperature, .device⟩

def definition : CollectionDefinition where
  dataset := "temperatures"
  version := "1"
  source := .agentBuiltin
  fields := [temperatureField]
  built := ⟨[temperatureField], Sample.built_of_isOk (by decide)⟩

def time : I64 := ⟨60, I64.sixty_lo, I64.sixty_hi⟩

/-- The temperature is observed, confirmed, and the collection ends. -/
def observing (n : NotNan) : List Operation :=
  [.observeValue temperature.key (.value (.number n)) time, .observeStatus temperature.key 200 time,
    .finish]

def measured (n : NotNan) : CollectionProgress := (CollectionProgress.new definition).run (observing n)

theorem measured_valid (n : NotNan) :
    CollectionProgress.tryFrom (measured n).toDocument = .ok (measured n) := by
  have started : Origin.Started definition .new (.new definition) :=
    Origin.started rfl
  exact tryFrom_eq_ok.mpr (started.restorable.run (observing n))

def upsert (n : NotNan) : Change :=
  ⟨temperature.key.asStr, some (CollectedValue.value (.number n)).toVec⟩

/-- The temperature that is read back is another one. -/
theorem temperature_changed : (measured hot).definition = definition ∧ (measured hot).finished = true ∧
    CollectionProgress.tryFrom (measured hot).toDocument = .ok (measured hot) ∧
    (measured hot).body = .ok (some (.snapshot [upsert hot])) ∧
    (Body.snapshot [upsert hot]).size ≤ 16 * 1024 * 1024 ∧ Environment.timepoint time = true ∧
    ¬ ∃ q, CollectionProgress.reported definition (.snapshot [upsert hot]) time = .ok q ∧
      q.body = .ok (some (.snapshot [upsert hot])) := by
  refine ⟨rfl, rfl, measured_valid hot, ?_, ?_, ?_, ?_⟩
  · decide
  · decide
  · decide
  · have read : (CollectionProgress.reported definition (.snapshot [upsert hot]) time).bind
        CollectionProgress.body = .ok (some (.snapshot [upsert near])) := by
      decide
    rintro ⟨q, taken, again⟩
    have same : q.body = .ok (some (.snapshot [upsert near])) := by
      rw [taken] at read
      exact read
    rw [again] at same
    revert same
    decide

theorem point_mem {cs : List Char} (point : '.' ∈ cs) (zero : cs ≠ "0.0".toList)
    (negative : cs ≠ "-0.0".toList) (n : NotNan) : cs ≠ Sample.numberText n := by
  unfold Sample.numberText
  split
  · exact zero
  split
  · exact negative
  · intro same
    exact Sample.point_not_mem _ (same ▸ point)

theorem plain_text {cs : List Char} (point : '.' ∈ cs) (all : cs.all Json.numeric = true) :
    cs ≠ [] ∧ ∀ c ∈ cs, Json.numeric c = true :=
  ⟨List.ne_nil_of_mem point, List.all_eq_true.mp all⟩

theorem lawful : LawfulNumbers where
  numeric n finite := by
    show numberText n ≠ [] ∧ ∀ c ∈ numberText n, Json.numeric c = true
    unfold numberText
    split
    · exact plain_text (by decide) (by decide)
    · split
      · exact plain_text (by decide) (by decide)
      · exact @LawfulNumbers.numeric Sample.environment Sample.lawful n finite
  injective m n finite finite' h := by
    have high := point_mem (by decide : '.' ∈ "98.60000000000001".toList) (by decide) (by decide)
    have low := point_mem (by decide : '.' ∈ "98.6".toList) (by decide) (by decide)
    have h : numberText m = numberText n := h
    unfold numberText at h
    split at h
    · rename_i left
      split at h
      · rename_i right
        rw [left, right]
      · split at h
        · exact absurd h (by decide)
        · exact absurd h (high n)
    · split at h
      · rename_i left
        split at h
        · exact absurd h (by decide)
        split at h
        · rename_i right
          rw [left, right]
        · exact absurd h (low n)
      · split at h
        · exact absurd h.symm (high m)
        · split at h
          · exact absurd h.symm (low m)
          · exact @LawfulNumbers.injective Sample.environment Sample.lawful m n finite finite' h

/-- The digits of a shorter temperature read back. -/
theorem temperature_round_trip : ∃ q,
    CollectionProgress.reported definition (.snapshot [upsert near]) time = .ok q ∧
      q.body = .ok (some (.snapshot [upsert near])) := by
  have parsed : ∀ f ∈ definition.fields, FieldKey.parse f.key.asStr = .ok f.key := by
    intro f mem
    cases List.mem_singleton.mp mem
    decide
  apply (report_round_trip lawful ⟨definition, parsed⟩ (measured near) rfl (measured_valid near)
    (.snapshot [upsert near]) (by decide) (by decide) time (by decide)).mpr
  intro key f v found outcome
  have mem := CollectionProgress.mem_sayings.mpr (bind_eq_some_iff.mpr ⟨f, found, outcome⟩)
  have only : (measured near).sayings = [(temperature.key, .value (.number near))] := rfl
  rw [only] at mem
  cases List.mem_singleton.mp mem
  show (if _ then _ else _) = _
  exact if_pos (by decide)

end Thermometer

end RssMdm.Inventory
