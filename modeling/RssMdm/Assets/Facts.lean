/- module: Assets/Facts
   source: crates/inventory-service/src/assets/planning.rs, crates/inventory-service/src/assets/filter.rs,
     crates/inventory-service/src/assets/evaluation.rs
   digest: The isolated contexts that a rule reads for one page of devices. -/

import RssMdm.Assets.Criteria
import RssMdm.Inventory.Arrays

set_option autoImplicit false

namespace RssMdm.Assets

open Inventory Lib Lib.Fallible Lib.Int64
open List (map_cons map_map mem_cons)

/-- What one collection scope holds of a device: its runs, scalar fields and array metadata. -/
structure Snapshot where
  hasQuality : Bool
  fields : OrdMap FieldKey ResolvedField
  arrays : OrdMap FieldKey ResolvedArray

structure DeviceSummary extends Snapshot where
  device : String

/-- A resolved field of a summary, a value or array metadata. -/
inductive Recorded where
  | scalar (field : ResolvedField)
  | array (field : ResolvedArray)

def Recorded.evidence : Recorded → List Evidence
  | .scalar field => field.sources.map SourceFact.evidence
  | .array field => field.sources.map ArrayFact.evidence

/-- The latest observation, zero when there is none. -/
def Recorded.observedAt (r : Recorded) : I64 :=
  (r.evidence.map Evidence.observedAt).max?.getD ⟨0, by decide, by decide⟩

namespace Snapshot

/-- Array metadata is looked up before values. -/
def recorded (s : Snapshot) (root : FieldKey) : Option Recorded :=
  match s.arrays.get? root with
  | some field => some (.array field)
  | none => (s.fields.get? root).map Recorded.scalar

/-- A namespace in which something was observed. -/
def observed (s : Snapshot) : Bool :=
  s.hasQuality || s.fields.values.any (fun f => !f.sources.isEmpty) ||
    s.arrays.values.any (fun f => !f.sources.isEmpty)

end Snapshot

variable {TenantId Timepoint Number : Type} [LinearOrder TenantId] [LinearOrder Timepoint]
  [Group.Floating Number] [Inventory.Environment] [Conversion Timepoint Number]

variable (TenantId Timepoint Number) in
/-- Digests, and the value that a recorded state gives to a rule: the leaves of its path that the
rule has operands for. -/
class Reading where
  digest : CollectionScope → Except Error String
  manifest : Recorded → Except Error String
  value : Group.Rule Timepoint Number TenantId → FieldKey → FieldPath → Recorded →
    Except Error (Group.FactState Timepoint Number)

variable [Reading TenantId Timepoint Number]

variable (TenantId Number) in
/-- One pass of the loop over the fields of a rule. -/
def readFact (catalog : Catalog) (rule : Group.Rule Timepoint Number TenantId) (s : Snapshot)
    (name : String) (expected : Group.Field) : Except Error (Group.Fact Timepoint Number) := do
  let key ← checkedInput (FieldKey.parse name)
  let path ← checkedInput (catalog.path key)
  let definition ← dictionaryField key path
  if definition ≠ expected then .error .malformed
  else match s.recorded path.root.key with
  | none => .error .malformed
  | some found => do
      let snapshotId ← Reading.manifest TenantId Timepoint Number found
      let state ← Reading.value rule key path found
      match Conversion.timepoint Number found.observedAt with
      | none => .error .malformed
      | some observedAt => .ok ⟨state, "resolved-inventory", snapshotId, observedAt⟩

def readFacts (catalog : Catalog) (rule : Group.Rule Timepoint Number TenantId) (s : Snapshot) :
    List (String × Group.Field) → Group.Facts Timepoint Number →
    Except Error (Group.Facts Timepoint Number)
  | [], facts => .ok facts
  | (name, expected) :: rest, facts => do
      let fact ← readFact TenantId Number catalog rule s name expected
      readFacts catalog rule s rest (facts.insert name fact)

/-- `group::ObjectKey::new`. -/
def objectKey (tenant : TenantId) (id : String) : Except Error (Group.ObjectKey TenantId) :=
  match h : (Group.Budget.new .batchBytes).identity id with
  | .ok b => .ok ⟨tenant, id, ⟨b, h⟩⟩
  | .error _ => .error .malformed

def page (tenant : TenantId) (catalog : Catalog) (rule : Group.Rule Timepoint Number TenantId)
    (devices : List DeviceSummary) :
    Except Error (List (DeviceSummary × Group.Facts Timepoint Number)) :=
  devices.mapM (fun device => do
    let facts ← readFacts catalog rule device.toSnapshot rule.fields.entries .empty
    let _ ← objectKey tenant device.device
    .ok (device, facts))

/-- Secret fields cannot enter ordinary conditions. -/
def requireVisibleRule (catalog : Catalog) (rule : Group.Rule Timepoint Number TenantId) :
    Except Error Unit :=
  each (fun name => do
    let key ← checkedInput (FieldKey.parse name)
    let path ← checkedInput (catalog.path key)
    if path.root.sensitivity = .secret then .error .forbidden else .ok ()) rule.fields.keys

/-- Without fields there is one empty context; `raw` are the scopes found in the history. -/
def scopesOf (rule : Group.Rule Timepoint Number TenantId) (condition : InventoryCondition)
    (raw : List CollectionScope) : Except Error (List CollectionScope) :=
  if rule.fields.entries.isEmpty then .ok [.device]
  else match condition.selector with
  | .device => .ok [.device]
  | .exact scope => .ok [scope]
  | .localUser _ _ =>
      if raw.length > 128 then .error (.unavailable .assetSourceLimit)
      else .ok (raw.foldl (fun scopes s => if s ∈ scopes then scopes else scopes ++ [s]) [])
  | .allAuthorized =>
      if raw.length > 128 then .error (.unavailable .assetSourceLimit)
      else .ok (raw.foldl (fun scopes s => if s ∈ scopes then scopes else scopes ++ [s]) [.device])

def quantifierOf (rule : Group.Rule Timepoint Number TenantId) (condition : InventoryCondition) :
    Group.Quantifier :=
  if rule.fields.entries.isEmpty then .one
  else match condition.quantifier with
  | .one => .one
  | .any => .any
  | .all => .all

def versions (catalog : Catalog) (rule : Group.Rule Timepoint Number TenantId)
    (devices : List DeviceSummary) : Except Error (List String) := do
  let roots ← rule.fields.keys.mapM (fun name => do
    let key ← checkedInput (FieldKey.parse name)
    let path ← checkedInput (catalog.path key)
    .ok path.root.key)
  let known : ArrayState → List String
    | .known value => [value.version]
    | _ => []
  .ok (devices.flatMap (fun device => device.arrays.entries.flatMap (fun (key, field) =>
    if key ∉ roots then []
    else known field.state ++ field.sources.flatMap (fun source =>
      known source.state ++ (source.lastKnown.map (fun old => old.value.version)).toList))))

/-- What the frozen cut answers: the scopes found for the page, the snapshot of each device in a
scope, and whether the array scans are done. -/
structure Answers where
  raw : List CollectionScope
  snapshots : CollectionScope → Except Error (String → Snapshot)
  advanced : Except Error Bool

variable (TenantId Timepoint Number) in
structure FactPage where
  contexts : OrdMap (String ×ₗ String) DeviceSummary
  coverage : OrdSet String
  objects : List (Group.ObjectSnapshot TenantId Timepoint Number)

variable (TenantId Timepoint Number) in
inductive EvaluationStep where
  | pending
  | ready (facts : FactPage TenantId Timepoint Number)

variable (TenantId Timepoint Number) in
/-- The contexts of the page and its objects so far. -/
structure Gathered where
  contexts : OrdMap (String ×ₗ String) DeviceSummary
  objects : List (Group.ObjectSnapshot TenantId Timepoint Number)

/-- One device in one scope; several scopes hold only the namespaces observed for the device. -/
def addContext (quantifier : Group.Quantifier) (scope : String)
    (contexts : OrdMap (String ×ₗ String) DeviceSummary)
    (object : Group.ObjectSnapshot TenantId Timepoint Number)
    (input : DeviceSummary × Group.Facts Timepoint Number) :
    OrdMap (String ×ₗ String) DeviceSummary × Group.ObjectSnapshot TenantId Timepoint Number :=
  if quantifier ≠ .one ∧ !input.1.observed then (contexts, object)
  else (contexts.insert (toLex (input.1.device, scope)) input.1,
    { object with contexts := object.contexts.insert scope input.2 })

def addContexts (quantifier : Group.Quantifier) (scope : String) :
    OrdMap (String ×ₗ String) DeviceSummary →
    List (Group.ObjectSnapshot TenantId Timepoint Number) →
    List (DeviceSummary × Group.Facts Timepoint Number) → Gathered TenantId Timepoint Number
  | contexts, object :: objects, input :: inputs =>
      let (contexts, object) := addContext quantifier scope contexts object input
      let rest := addContexts quantifier scope contexts objects inputs
      { rest with objects := object :: rest.objects }
  | contexts, objects, _ => ⟨contexts, objects⟩

/-- The page in one scope after another. -/
def addScopes (tenant : TenantId) (catalog : Catalog)
    (rule : Group.Rule Timepoint Number TenantId) (quantifier : Group.Quantifier) :
    List (CollectionScope × List DeviceSummary) → Gathered TenantId Timepoint Number →
    Except Error (Gathered TenantId Timepoint Number)
  | [], g => .ok g
  | (scope, summaries) :: rest, g => do
      let inputs ← page tenant catalog rule summaries
      let digest ← Reading.digest TenantId Timepoint Number scope
      addScopes tenant catalog rule quantifier rest
        (addContexts quantifier digest g.contexts g.objects inputs)

def freshObject (tenant : TenantId) (quantifier : Group.Quantifier) (device : String) :
    Except Error (Group.ObjectSnapshot TenantId Timepoint Number) := do
  let key ← objectKey tenant device
  .ok ⟨key, .empty, quantifier, true, .empty⟩

/-- Supply isolated contexts; the rule engine owns complete predicate evaluation. -/
def conditionInputs (tenant : TenantId) (catalog : Catalog) (devices : List String)
    (condition : InventoryCondition) (rule : Group.Rule Timepoint Number TenantId)
    (answers : Answers) : Except Error (EvaluationStep TenantId Timepoint Number) := do
  condition.validate
  requireVisibleRule catalog rule
  let scopes ← scopesOf rule condition answers.raw
  let objects ← devices.mapM (freshObject tenant (quantifierOf rule condition))
  let prepared ← scopes.mapM (fun scope => do
    let snapshot ← answers.snapshots scope
    let summaries := devices.map (fun device => DeviceSummary.mk (snapshot device) device)
    let known ← versions catalog rule summaries
    .ok ((scope, summaries), known))
  if prepared.any (fun p => !p.2.isEmpty) ∧ objects.length > 1 then
    .error (.unavailable .assetSourceLimit)
  else do
    let ready ← answers.advanced
    if !ready then .ok .pending
    else do
      let g ← addScopes tenant catalog rule (quantifierOf rule condition)
        (prepared.map Prod.fst) ⟨.empty, objects⟩
      .ok (.ready ⟨g.contexts, OrdSet.ofList rule.fields.keys, g.objects⟩)

variable {catalog : Catalog} {rule : Group.Rule Timepoint Number TenantId} {answers : Answers}
  {tenant : TenantId}

def Supplied (answers : Answers) (s : DeviceSummary) : Prop :=
  ∃ scope snapshot, answers.snapshots scope = .ok snapshot ∧ s.toSnapshot = snapshot s.device

/-- The root of every field of a rule is recorded. -/
def Readable (catalog : Catalog) (rule : Group.Rule Timepoint Number TenantId) (s : Snapshot) :
    Prop :=
  ∀ name ∈ rule.fields.keys, ∃ key path, FieldKey.parse name = .ok key ∧
    catalog.path key = .ok path ∧ (s.recorded path.root.key).isSome

/-- The contexts of an object are contexts of the page, and hold the fields of the rule. -/
def Held (rule : Group.Rule Timepoint Number TenantId)
    (contexts : OrdMap (String ×ₗ String) DeviceSummary)
    (o : Group.ObjectSnapshot TenantId Timepoint Number) : Prop :=
  ∀ scope facts, o.contexts.get? scope = some facts →
    (contexts.get? (toLex (o.key.id, scope))).isSome ∧
      ∀ name ∈ rule.fields.keys, name ∈ facts.keys

/-- What holds of the contexts of a page. -/
def Sourced (catalog : Catalog) (rule : Group.Rule Timepoint Number TenantId) (answers : Answers)
    (contexts : OrdMap (String ×ₗ String) DeviceSummary) : Prop :=
  ∀ place s, contexts.get? place = some s → Readable catalog rule s.toSnapshot ∧ Supplied answers s

omit [LinearOrder TenantId] [Inventory.Environment] in
theorem readFact_recorded {s : Snapshot} {name : String} {expected : Group.Field}
    {fact : Group.Fact Timepoint Number}
    (h : readFact TenantId Number catalog rule s name expected = .ok fact) :
    ∃ key path, FieldKey.parse name = .ok key ∧ catalog.path key = .ok path ∧
      (s.recorded path.root.key).isSome := by
  obtain ⟨key, parsed, h⟩ := of_bind h
  obtain ⟨path, found, h⟩ := of_bind h
  obtain ⟨definition, -, h⟩ := of_bind h
  obtain ⟨-, h⟩ := of_guard h
  refine ⟨key, path, mapError_eq_ok.mp parsed, mapError_eq_ok.mp found, ?_⟩
  cases recorded : s.recorded path.root.key with
  | none =>
    rw [recorded] at h
    cases h
  | some => rfl

omit [LinearOrder TenantId] [Inventory.Environment] in
theorem readFacts_reads {s : Snapshot} {entries : List (String × Group.Field)}
    {facts facts' : Group.Facts Timepoint Number}
    (h : readFacts catalog rule s entries facts = .ok facts') :
    (∀ name ∈ entries.map Prod.fst, ∃ key path, FieldKey.parse name = .ok key ∧
      catalog.path key = .ok path ∧ (s.recorded path.root.key).isSome) ∧
    ∀ name, name ∈ facts.keys ∨ name ∈ entries.map Prod.fst → name ∈ facts'.keys := by
  induction entries generalizing facts with
  | nil =>
    cases h
    simp
  | cons _ _ ih =>
    obtain ⟨fact, read, h⟩ := of_bind h
    obtain ⟨recorded, kept⟩ := ih h
    constructor
    · intro name mem
      rcases mem_cons.mp mem with rfl | mem
      · exact readFact_recorded read
      · exact recorded name mem
    · intro name mem
      refine kept name ?_
      rw [OrdMap.mem_keys]
      simp only [OrdMap.get?_insert]
      rcases mem with before | among
      · left
        obtain ⟨old, found⟩ := OrdMap.mem_keys.mp before
        split
        · exact ⟨fact, rfl⟩
        · exact ⟨old, found⟩
      · rcases mem_cons.mp among with rfl | later
        · exact .inl ⟨fact, by simp⟩
        · exact .inr later

variable {inputs : List (DeviceSummary × Group.Facts Timepoint Number)}

omit [LinearOrder TenantId] [Inventory.Environment] in
theorem page_reads {devices : List DeviceSummary}
    (h : page tenant catalog rule devices = .ok inputs) :
    inputs.map Prod.fst = devices ∧ ∀ input ∈ inputs, Readable catalog rule input.1.toSnapshot ∧
      ∀ name ∈ rule.fields.keys, name ∈ input.2.keys := by
  have each := mapM_eq_ok.mp h
  have step : ∀ (device : DeviceSummary) (input : DeviceSummary × Group.Facts Timepoint Number),
      (do
        let facts ← readFacts catalog rule device.toSnapshot rule.fields.entries .empty
        let _ ← objectKey tenant device.device
        Except.ok (device, facts)) = .ok input →
      input.1 = device ∧ Readable catalog rule device.toSnapshot ∧
        ∀ name ∈ rule.fields.keys, name ∈ input.2.keys := by
    intro device input done
    obtain ⟨facts, read, done⟩ := of_bind done
    obtain ⟨key, -, done⟩ := of_bind done
    cases done
    obtain ⟨recorded, kept⟩ := readFacts_reads read
    exact ⟨rfl, recorded, fun name mem => kept name (.inr mem)⟩
  clear h
  induction each with
  | nil => simp
  | @cons device input _ _ head _ ih =>
    obtain ⟨same, readable, names⟩ := step device input head
    refine ⟨by rw [map_cons, same, ih.1], ?_⟩
    intro other mem
    rcases mem_cons.mp mem with rfl | mem
    · exact ⟨same ▸ readable, names⟩
    · exact ih.2 other mem

variable {o : Group.ObjectSnapshot TenantId Timepoint Number}
  {contexts : OrdMap (String ×ₗ String) DeviceSummary}

omit [LinearOrder TenantId] [Inventory.Environment] [Conversion Timepoint Number]
  [Reading TenantId Timepoint Number] in
theorem Held.grow {contexts' : OrdMap (String ×ₗ String) DeviceSummary}
    (held : Held rule contexts o)
    (grown : ∀ place, (contexts.get? place).isSome → (contexts'.get? place).isSome) :
    Held rule contexts' o :=
  fun scope facts found => ⟨grown _ (held scope facts found).1, (held scope facts found).2⟩

omit [LinearOrder TenantId] [Inventory.Environment] [Conversion Timepoint Number]
  [Reading TenantId Timepoint Number] in
theorem addContext_sound (quantifier : Group.Quantifier) (scope : String)
    {input : DeviceSummary × Group.Facts Timepoint Number}
    (sourced : Sourced catalog rule answers contexts) (held : Held rule contexts o)
    (here : input.1.device = o.key.id) (readable : Readable catalog rule input.1.toSnapshot)
    (supplied : Supplied answers input.1) (names : ∀ name ∈ rule.fields.keys, name ∈ input.2.keys) :
    Sourced catalog rule answers (addContext quantifier scope contexts o input).1 ∧
      Held rule (addContext quantifier scope contexts o input).1
        (addContext quantifier scope contexts o input).2 ∧
      (addContext quantifier scope contexts o input).2.key = o.key ∧
      ∀ place, (contexts.get? place).isSome →
        ((addContext quantifier scope contexts o input).1.get? place).isSome := by
  unfold addContext
  split
  · exact ⟨sourced, held, rfl, fun _ h => h⟩
  have grown : ∀ place, (contexts.get? place).isSome →
      ((contexts.insert (toLex (input.1.device, scope)) input.1).get? place).isSome := by
    intro place found
    rw [OrdMap.get?_insert]
    split
    · rfl
    · exact found
  refine ⟨?_, ?_, rfl, grown⟩
  · intro place s found
    rcases OrdMap.get?_insert_cases found with ⟨-, rfl⟩ | ⟨-, found⟩
    · exact ⟨readable, supplied⟩
    · exact sourced place s found
  · intro scope' facts found
    have placed : (o.contexts.insert scope input.2).get? scope' = some facts := found
    rcases OrdMap.get?_insert_cases placed with ⟨same, rfl⟩ | ⟨-, placed⟩
    · refine ⟨?_, names⟩
      show ((contexts.insert (toLex (input.1.device, scope)) input.1).get?
        (toLex (o.key.id, scope'))).isSome
      rw [OrdMap.get?_insert, if_pos (by rw [here, same])]
      rfl
    · exact (held.grow grown) scope' facts placed

variable {objects : List (Group.ObjectSnapshot TenantId Timepoint Number)}

omit [LinearOrder TenantId] [Inventory.Environment] [Conversion Timepoint Number]
  [Reading TenantId Timepoint Number] in
theorem addContexts_sound (quantifier : Group.Quantifier) (scope : String)
    (sourced : Sourced catalog rule answers contexts) (held : ∀ o ∈ objects, Held rule contexts o)
    (aligned : inputs.map (fun i => i.1.device) = objects.map (fun o => o.key.id))
    (sound : ∀ i ∈ inputs, Readable catalog rule i.1.toSnapshot ∧ Supplied answers i.1 ∧
      ∀ name ∈ rule.fields.keys, name ∈ i.2.keys) :
    Sourced catalog rule answers (addContexts quantifier scope contexts objects inputs).contexts ∧
      (∀ o ∈ (addContexts quantifier scope contexts objects inputs).objects,
        Held rule (addContexts quantifier scope contexts objects inputs).contexts o) ∧
      (addContexts quantifier scope contexts objects inputs).objects.map (fun o => o.key) =
        objects.map (fun o => o.key) ∧
      ∀ place, (contexts.get? place).isSome →
        ((addContexts quantifier scope contexts objects inputs).contexts.get? place).isSome := by
  induction objects generalizing inputs contexts with
  | nil =>
    rw [addContexts]
    · exact ⟨sourced, held, rfl, fun _ h => h⟩
    · intro object objects input inputs absurd
      cases absurd
  | cons o objects ih =>
    cases inputs with
    | nil => cases aligned
    | cons i inputs =>
      obtain ⟨here, aligned⟩ := List.cons.inj aligned
      obtain ⟨readable, supplied, names⟩ := sound i (.head _)
      obtain ⟨sourced', first, key, grown⟩ := addContext_sound quantifier scope sourced
        (held o (.head _)) here readable supplied names
      obtain ⟨all, rest, keys, later⟩ := @ih inputs (addContext quantifier scope contexts o i).1
        sourced' (fun o' mem => (held o' (.tail _ mem)).grow grown) aligned
        (fun i' mem => sound i' (.tail _ mem))
      refine ⟨all, ?_, ?_, fun place found => later place (grown place found)⟩
      · show ∀ o' ∈ (addContext quantifier scope contexts o i).2 :: _, _
        intro o' mem
        rcases mem_cons.mp mem with rfl | mem
        · exact first.grow later
        · exact rest o' mem
      · show (addContext quantifier scope contexts o i).2.key ::
          (addContexts quantifier scope (addContext quantifier scope contexts o i).1 objects
            inputs).objects.map (fun o => o.key) = o.key :: objects.map (fun o => o.key)
        rw [key, keys]

variable {quantifier : Group.Quantifier} {devices : List String}

omit [LinearOrder TenantId] [Inventory.Environment] in
theorem addScopes_sound {scopes : List (CollectionScope × List DeviceSummary)}
    {g g' : Gathered TenantId Timepoint Number} (sourced : Sourced catalog rule answers g.contexts)
    (held : ∀ o ∈ g.objects, Held rule g.contexts o)
    (aligned : g.objects.map (fun o => o.key.id) = devices)
    (supplied : ∀ entry ∈ scopes, entry.2.map DeviceSummary.device = devices ∧ ∀ s ∈ entry.2, Supplied answers s)
    (h : addScopes tenant catalog rule quantifier scopes g = .ok g') :
    Sourced catalog rule answers g'.contexts ∧ (∀ o ∈ g'.objects, Held rule g'.contexts o) ∧
      g'.objects.map (fun o => o.key) = g.objects.map (fun o => o.key) := by
  induction scopes generalizing g with
  | nil =>
    cases h
    exact ⟨sourced, held, rfl⟩
  | cons entry _ ih =>
    obtain ⟨scope, summaries⟩ := entry
    obtain ⟨inputs, read, h⟩ := of_bind h
    obtain ⟨digest, -, h⟩ := of_bind h
    obtain ⟨same, reads⟩ := page_reads read
    obtain ⟨named, given⟩ := supplied (scope, summaries) (.head _)
    have names : inputs.map (fun i => i.1.device) = g.objects.map (fun o => o.key.id) := by
      rw [aligned, ← named, ← same, map_map]
      rfl
    obtain ⟨sourced', held', keys, -⟩ := addContexts_sound quantifier digest sourced held names
      (fun i mem => ⟨(reads i mem).1,
        given i.1 (same ▸ List.mem_map_of_mem mem), (reads i mem).2⟩)
    have aligned' : (addContexts quantifier digest g.contexts g.objects inputs).objects.map
        (fun o => o.key.id) = devices := by
      have ids := congrArg (List.map (fun k : Group.ObjectKey TenantId => k.id)) keys
      rw [map_map, map_map] at ids
      rw [← aligned]
      exact ids
    obtain ⟨all, rest, keys'⟩ := ih sourced' held' aligned'
      (fun e mem => supplied e (.tail _ mem)) h
    exact ⟨all, rest, keys'.trans keys⟩

omit [LinearOrder TenantId] [Inventory.Environment] [Conversion Timepoint Number]
  [Reading TenantId Timepoint Number] in
theorem freshObjects_keys
    (each : List.Forall₂ (fun device o => freshObject tenant quantifier device = .ok o) devices objects) :
    objects.map (fun o => o.key.id) = devices ∧ ∀ o ∈ objects, o.contexts = .empty := by
  induction each with
  | nil => simp
  | @cons device _ _ _ head _ ih =>
    obtain ⟨key, made, head⟩ := of_bind head
    cases head
    have id : key.id = device := by
      unfold objectKey at made
      split at made <;> cases made
      rfl
    refine ⟨by rw [map_cons, id, ih.1], ?_⟩
    intro o' mem
    rcases mem_cons.mp mem with rfl | mem
    · rfl
    · exact ih.2 o' mem

omit [LinearOrder TenantId] in
/-- A finished page: its objects are the devices in order, and every context of an object is a
recorded summary of its device. -/
theorem conditionInputs_sound {condition : InventoryCondition}
    {facts : FactPage TenantId Timepoint Number}
    (h : conditionInputs tenant catalog devices condition rule answers = .ok (.ready facts)) :
    facts.objects.map (fun o => o.key.id) = devices ∧
      facts.coverage = OrdSet.ofList rule.fields.keys ∧
      Sourced catalog rule answers facts.contexts ∧
      ∀ o ∈ facts.objects, Held rule facts.contexts o := by
  obtain ⟨-, h⟩ := of_check h
  obtain ⟨-, h⟩ := of_check h
  obtain ⟨scopes, -, h⟩ := of_bind h
  obtain ⟨objects, keyed, h⟩ := of_bind h
  obtain ⟨prepared, read, h⟩ := of_bind h
  obtain ⟨-, h⟩ := of_guard h
  obtain ⟨ready, -, h⟩ := of_bind h
  split at h
  · cases h
  obtain ⟨g, gathered, h⟩ := of_bind h
  cases h
  have fresh := freshObjects_keys (mapM_eq_ok.mp keyed)
  have supplied : ∀ entry ∈ prepared.map Prod.fst, entry.2.map DeviceSummary.device = devices ∧
      ∀ s ∈ entry.2, Supplied answers s := by
    intro entry mem
    obtain ⟨p, among, rfl⟩ := List.mem_map.mp mem
    obtain ⟨scope, -, made⟩ := exists_left_of_mem (mapM_eq_ok.mp read) among
    obtain ⟨snapshot, answered, made⟩ := of_bind made
    obtain ⟨known, -, made⟩ := of_bind made
    cases made
    constructor
    · rw [map_map]
      exact List.map_id _
    · intro s inside
      obtain ⟨device, -, rfl⟩ := List.mem_map.mp inside
      exact ⟨scope, snapshot, answered, rfl⟩
  obtain ⟨sourced, held, keys⟩ := addScopes_sound
    (g := ⟨.empty, objects⟩)
    (fun place s found => by cases found)
    (fun o mem => by
      intro scope facts found
      rw [fresh.2 o mem] at found
      cases found)
    fresh.1 supplied gathered
  refine ⟨?_, rfl, sourced, held⟩
  have ids := congrArg (List.map (fun k : Group.ObjectKey TenantId => k.id)) keys
  rw [map_map, map_map] at ids
  exact ids.trans fresh.1

end RssMdm.Assets
