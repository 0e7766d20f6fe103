/- module: Compliance/Assessment
   source: crates/inventory-service/src/compliance/evaluation.rs, crates/compliance/src/model.rs
   digest: The evaluator's budgets exceed those of a stored assessment; a page is stored exactly when
   its contexts stay within the latter. -/

import RssMdm.Compliance.Evaluation

set_option autoImplicit false

namespace RssMdm.Compliance

open Assets (Answers Conversion DeviceSummary Error FactPage InventoryCondition Reading
  conditionInputs conditionInputs_sound stored)
open Inventory (Catalog Environment Evidence FieldDefinition FieldKey)
open Lib Lib.Fallible Lib.Kleene Lib.Outcome
open Lib.Text (Uuid blank isControl isWhitespace startsWith)
open List (all_eq_true foldl_cons length_cons length_map map_cons mem_map mem_map_of_mem)

/-- The three-valued combination that an assessment reports, with its reason. -/
def verdict (platform groups condition : Truth) : Status × Reason :=
  match platform.conj groups, condition with
  | .no, _ =>
      (.notApplicable, if platform = .no then .platformNotApplicable else .groupNotApplicable)
  | .unknown, _ => (.unknown, if platform = .unknown then .platformUnknown else .groupUnknown)
  | .yes, .yes => (.compliant, .ruleSatisfied)
  | .yes, .no => (.nonCompliant, .ruleFailed)
  | .yes, .unknown => (.unknown, .factsUnknown)

def targeted (groups : List GroupEvidence) : Truth :=
  if groups.isEmpty then .yes else Truth.anyOf (groups.map (fun g => g.decision.truth))

theorem groupDecision_truth (a : Applicability) : a.groupDecision.truth = targeted a.groups := by
  have fold : ∀ (gs : List GroupEvidence) (d : Decision),
      (gs.foldl (fun old g => union old g.decision) d).truth =
        (gs.map (fun g => g.decision.truth)).foldl Truth.disj d.truth := by
    intro gs
    induction gs with
    | nil => exact fun d => rfl
    | cons _ _ ih =>
      intro d
      rw [foldl_cons, map_cons, foldl_cons, ih, union_truth]
  unfold Applicability.groupDecision targeted
  split
  · rfl
  · rw [fold, Truth.foldl_disj]
    rfl

theorem conclusion_eq (a : Applicability) (condition : Decision) :
    conclusion a condition =
      verdict a.platformDecision.truth (targeted a.groups) condition.truth := by
  rw [← groupDecision_truth]
  unfold conclusion Applicability.decision
  cases a.platformDecision <;> cases a.groupDecision <;> cases condition <;> rfl

section

variable {C F : Type}

/-- The limits of a stored assessment that do not follow from the frozen input. -/
structure Storable (explanations : List Explanation) (evidence : List FieldEvidence) : Prop where
  explained : explanations.length ≤ 1024
  evidenced : evidence.length ≤ 256
  provenanced : ∀ e ∈ evidence, Assessment.provenanced e = true

variable {input : Input C F}

theorem Input.validate_eq_ok (h : input.validate = .ok ()) :
    input.definition.validate = .ok () ∧ input.rule ≠ 0 ∧ 1 ≤ input.revision ∧
      0 ≤ input.evaluatedAt ∧ input.groups.length ≤ 16 := by
  obtain ⟨valid, h⟩ := of_check h
  obtain ⟨identity, h⟩ := of_guard h
  obtain ⟨same, -⟩ := of_guard h
  obtain ⟨-, targets⟩ := of_guard valid
  obtain ⟨targets, -⟩ := of_guard targets
  have length : input.groups.length = input.definition.groups.dedup.length := by
    by_contra differ
    exact same (.inl differ)
  have few : input.definition.groups.dedup.length ≤ 16 := by
    have shorter := (List.dedup_sublist input.definition.groups).length_le
    unfold Definition.groups at shorter ⊢
    cases target : input.definition.target with
    | all => simp
    | groups =>
      rw [target] at shorter
      simp only [target, Target.valid, Bool.not_eq_true', Bool.not_eq_false, Bool.and_eq_true,
        decide_eq_true_eq] at targets
      exact shorter.trans targets.1.1.2
  refine ⟨valid, ?_, ?_, ?_, ?_⟩
  · exact fun zero => identity (.inl zero)
  · by_contra less
    exact identity (.inr (.inl (by omega)))
  · by_contra less
    exact identity (.inr (.inr (by omega)))
  · rw [length]
    exact few

def Aligned (input : Input C F) (groups : List GroupEvidence) : Prop :=
  groups.map (fun g => (g.id, g.memberSet)) = input.groups.map (fun g => (g.id, g.memberSet))

theorem aligned_zip {gs : List (GroupInput F)} {ps : List GroupEvidence}
    (same : ps.map (fun g => (g.id, g.memberSet)) = gs.map (fun g => (g.id, g.memberSet))) :
    gs.length = ps.length ∧ (gs.zip ps).any (fun p => !Assessment.aligned p.1 p.2) = false := by
  induction gs generalizing ps with
  | nil =>
    obtain rfl : ps = [] := List.map_eq_nil_iff.mp same
    exact ⟨rfl, rfl⟩
  | cons _ _ ih =>
    cases ps with
    | nil => cases same
    | cons =>
      obtain ⟨here, rest⟩ := List.cons.inj same
      obtain ⟨id, memberSet⟩ := Prod.mk.inj here
      obtain ⟨length, none⟩ := ih rest
      refine ⟨by rw [length_cons, length_cons, length], ?_⟩
      rw [List.zip_cons_cons, List.any_cons, none]
      simp [Assessment.aligned, id, memberSet]

theorem validate_iff {a : Assessment F} (rule : a.ruleId ≠ 0) (version : 1 ≤ a.ruleVersion)
    (time : 0 ≤ a.evaluatedAt) (named : text a.dictionaryVersion 128 = true)
    (few : a.groups.length ≤ 16) (ready : ∀ g ∈ a.groups, g.ready = true)
    (aligned : a.applicability.groups.map (fun g => (g.id, g.memberSet)) =
      a.groups.map (fun g => (g.id, g.memberSet)))
    (platform : a.applicability.platformDecision =
      platformDecision a.applicability.platform a.applicability.sources)
    (concluded : conclusion a.applicability a.condition = (a.status, a.reason)) :
    a.validate = .ok () ↔ Storable a.explanations a.evidence := by
  obtain ⟨length, zipped⟩ := aligned_zip aligned
  have notReady : a.groups.any (fun g => !g.ready) = false := by
    rw [List.any_eq_false]
    intro g mem
    simp [ready g mem]
  have identity : ¬(a.ruleId = 0 ∨ a.ruleVersion < 1 ∨ a.evaluatedAt < 0 ∨
      (!text a.dictionaryVersion 128) = true) := by
    rintro (zero | less | less | blank)
    · exact rule zero
    · omega
    · omega
    · simp [named] at blank
  have shaped : ¬(a.groups.length > 16 ∨ (a.groups.any (fun g => !g.ready)) = true ∨
      a.groups.length ≠ a.applicability.groups.length) := by
    rintro (more | unready | differ)
    · omega
    · rw [notReady] at unready
      cases unready
    · exact differ length
  have decided : ¬(a.applicability.platformDecision ≠
      platformDecision a.applicability.platform a.applicability.sources ∨
      conclusion a.applicability a.condition ≠ (a.status, a.reason)) := by
    rintro (differ | differ)
    · exact differ platform
    · exact differ concluded
  unfold Assessment.validate
  rw [if_neg identity, if_neg shaped, zipped, if_neg Bool.false_ne_true, guard_eq_ok,
    if_neg decided, guard_eq_ok]
  constructor
  · rintro ⟨bounded, provenanced, -⟩
    refine ⟨by omega, by omega, ?_⟩
    simpa using provenanced
  · rintro ⟨explained, evidenced, provenanced⟩
    refine ⟨by omega, ?_, rfl⟩
    simpa using provenanced

/-- The assessment that the code builds before it checks it. -/
def document (input : Input C F) (dictionary : String) (condition : Decision)
    (applicability : Applicability) (explanations : List Explanation)
    (evidence : List FieldEvidence) : Assessment F where
  ruleId := input.rule
  ruleVersion := input.revision
  dictionaryVersion := dictionary
  assetCut := input.assetCut
  evaluatedAt := input.evaluatedAt
  groups := input.groups
  status := (conclusion applicability condition).1
  reason := (conclusion applicability condition).2
  condition := condition
  applicability := applicability
  explanations := explanations
  evidence := evidence

variable {evidence : List FieldEvidence} {explanations : List Explanation} {result : Assessment F}

theorem evaluate_eq_ok (valid : input.validate = .ok ())
    (ready : ∀ g ∈ input.groups, g.ready = true) {dictionary : String}
    (named : text dictionary 128 = true) {condition : Decision} {a : Applicability}
    (platform : a.platformDecision = platformDecision a.platform a.sources)
    (aligned : Aligned input a.groups) :
    Assessment.evaluate input dictionary condition a explanations evidence = .ok result ↔
      Storable explanations evidence ∧
        result = document input dictionary condition a explanations evidence := by
  obtain ⟨-, rule, revision, evaluated, few⟩ := Input.validate_eq_ok valid
  have checked : (document input dictionary condition a explanations evidence).validate = .ok () ↔
      Storable explanations evidence :=
    validate_iff (a := document input dictionary condition a explanations evidence) rule revision
      evaluated named few ready aligned platform rfl
  have built : Assessment.evaluate input dictionary condition a explanations evidence =
      (document input dictionary condition a explanations evidence).validate >>= fun _ =>
        .ok (document input dictionary condition a explanations evidence) := by
    unfold Assessment.evaluate
    rw [valid, ok_bind]
    rfl
  rw [built, check_bind_eq_ok, checked, Except.ok.injEq]
  exact and_congr_right (fun _ => eq_comm)

theorem evaluate_validates {dictionary : String} {condition : Decision} {a : Applicability}
    (h : Assessment.evaluate input dictionary condition a explanations evidence = .ok result) :
    result.validate = .ok () := by
  obtain ⟨-, h⟩ := of_check h
  obtain ⟨valid, h⟩ := of_check h
  cases h
  exact valid

end

section

variable {C F : Type} {input : Input C F}

theorem map_modify {α β : Type} (f : α → β) (change : α → α) (same : ∀ a, f (change a) = f a)
    (l : List α) (index : Nat) : (l.modify index change).map f = l.map f := by
  induction l generalizing index with
  | nil => cases index <;> rfl
  | cons _ _ ih =>
    cases index with
    | zero => rw [List.modify_zero_cons, map_cons, map_cons, same]
    | succ => rw [List.modify_succ_cons, map_cons, map_cons, ih]

theorem Aligned.merge {target : List GroupEvidence} (aligned : Aligned input target) (index : Nat)
    (decision : Decision) : Aligned input (mergeTarget index decision target) := by
  have kept := map_modify (fun g : GroupEvidence => (g.id, g.memberSet))
    (fun g => { g with decision }) (fun _ => rfl) target index
  exact kept.trans aligned

def Targeted (input : Input C F) (devices : List String)
    (targets : OrdMap String (List GroupEvidence)) : Prop :=
  ∀ device ∈ devices, ∃ target, targets.get? device = some target ∧ Aligned input target

theorem Targeted.merge {devices : List String} {index : Nat} {records : List DecisionRecord}
    {targets : OrdMap String (List GroupEvidence)} (h : Targeted input devices targets) :
    Targeted input devices (mergeTargets index records targets) := by
  unfold mergeTargets
  induction records generalizing targets with
  | nil => exact h
  | cons _ _ ih =>
    apply ih
    intro device mem
    obtain ⟨target, found, aligned⟩ := h device mem
    rw [OrdMap.get?_modify, found]
    split
    · exact ⟨_, rfl, aligned.merge index _⟩
    · exact ⟨target, rfl, aligned⟩

theorem Targeted.foldl {devices : List String} {records : Uuid → List DecisionRecord}
    {entries : List (GroupInput F × Nat)} {targets : OrdMap String (List GroupEvidence)}
    (h : Targeted input devices targets) :
    Targeted input devices (entries.foldl (fun targets entry =>
      match entry.1.memberSet with
      | some set => mergeTargets entry.2 (records set) targets
      | none => targets) targets) := by
  induction entries generalizing targets with
  | nil => exact h
  | cons _ _ ih =>
    rw [foldl_cons]
    apply ih
    split
    · exact h.merge
    · exact h

theorem groupTargets_targeted (input : Input C F) (devices : List String)
    (records : Uuid → List DecisionRecord) :
    Targeted input devices (groupTargets input devices records) := by
  have initial : Aligned input (initialTarget input) := by
    unfold Aligned initialTarget
    rw [List.map_map]
    rfl
  have started : ∀ (ds : List String) (targets : OrdMap String (List GroupEvidence)),
      (∀ device, (∃ target, targets.get? device = some target ∧ Aligned input target) ∨ device ∈ ds →
        ∃ target, (ds.foldl (fun targets d => targets.insert d (initialTarget input)) targets).get?
          device = some target ∧ Aligned input target) := by
    intro ds
    induction ds with
    | nil => simp
    | cons _ _ ih =>
      intro targets device known
      apply ih
      rw [OrdMap.get?_insert]
      rcases known with ⟨target, found, aligned⟩ | mem
      · left
        split
        · exact ⟨_, rfl, initial⟩
        · exact ⟨target, found, aligned⟩
      · rcases List.mem_cons.mp mem with same | mem
        · left
          rw [if_pos same]
          exact ⟨_, rfl, initial⟩
        · exact .inr mem
  exact Targeted.foldl (fun device mem => started devices .empty device (.inr mem))

end

theorem keyChar_printable {c : Char} (h : Inventory.keyChar c = true) :
    isWhitespace c = false ∧ isControl c = false := by
  have bounds : (97 ≤ c.toNat ∧ c.toNat ≤ 122) ∨ (48 ≤ c.toNat ∧ c.toNat ≤ 57) ∨ c.toNat = 95 ∨
      c.toNat = 46 := by
    simp only [Inventory.keyChar, Bool.or_eq_true, Bool.and_eq_true, decide_eq_true_eq] at h
    rcases h with ((letter | digit) | rfl) | rfl
    · exact .inl letter
    · simp only [Char.isDigit, Bool.and_eq_true, decide_eq_true_eq] at digit
      exact .inr (.inl digit)
    · exact .inr (.inr (.inl rfl))
    · exact .inr (.inr (.inr rfl))
  constructor
  · simp only [isWhitespace, Bool.or_eq_false_iff, Bool.and_eq_false_iff, decide_eq_false_iff_not]
    omega
  · simp only [isControl, Bool.or_eq_false_iff, Bool.and_eq_false_iff, decide_eq_false_iff_not]
    omega

theorem key_text {name : String} {key : FieldKey} (h : FieldKey.parse name = .ok key) :
    text name 256 = true := by
  obtain ⟨-, nonempty, short, chars⟩ := FieldKey.parse_eq_ok h
  have filled : blank name = false := by
    obtain ⟨c, rest, split⟩ := List.exists_cons_of_ne_nil nonempty
    have printable := keyChar_printable (chars c (by rw [split]; exact .head _))
    rw [blank, split, List.all_cons, printable.1, Bool.false_and]
  have plain : name.toList.any isControl = false := by
    rw [List.any_eq_false]
    intro c mem
    simp [(keyChar_printable (chars c mem)).2]
  have length : name.length ≤ 256 := by
    have units := Text.length_le_utf8Len name.toList
    rw [Text.utf8ByteSize_eq] at short
    rw [String.length_toList] at units
    omega
  simp [text, filled, plain, length]

theorem source_text (s : Inventory.Source) : text s.asStr 128 = true := by
  cases s <;> decide

section

theorem length_flatMap_same {α β : Type} {f : α → List β} {n : Nat} {l : List α}
    (each : ∀ a ∈ l, (f a).length = n) : (l.flatMap f).length = l.length * n := by
  induction l with
  | nil => simp
  | cons a _ ih =>
    rw [List.flatMap_cons, List.length_append, each a (.head _),
      ih (fun b mem => each b (.tail _ mem)), length_cons, Nat.succ_mul,
      Nat.add_comm]

variable {TenantId Timepoint Number : Type} [LinearOrder TenantId] [LinearOrder Timepoint]
  [Group.Floating Number] {rule : Group.Rule Timepoint Number TenantId}
  {o : Group.ObjectSnapshot TenantId Timepoint Number}

/-- Every context of the object holds the fields that the rule reads. -/
def Complete (rule : Group.Rule Timepoint Number TenantId)
    (o : Group.ObjectSnapshot TenantId Timepoint Number) : Prop :=
  ∀ scope facts, o.contexts.get? scope = some facts →
    ∀ field ∈ rule.required.keys, field ∈ facts.keys

omit [LinearOrder TenantId] in
theorem mem_evaluations {entry : String × Group.ContextEvaluation Timepoint}
    (mem : entry ∈ (Group.objectEvaluation rule o).contexts.entries) :
    ∃ facts, o.contexts.get? entry.1 = some facts ∧
      entry.2 = Group.contextEvaluation rule o.memberships facts := by
  obtain ⟨⟨scope, facts⟩, inside, rfl⟩ := mem_map.mp mem
  exact ⟨facts, OrdMap.get?_eq_some.mpr inside, rfl⟩

omit [LinearOrder TenantId] in
theorem evaluations_length :
    (Group.objectEvaluation rule o).contexts.entries.length = o.contexts.size :=
  length_map _

omit [LinearOrder TenantId] in
theorem explanationsOf_length (admitted : Group.Admitted rule o) (complete : Complete rule o) :
    (explanationsOf (Group.objectEvaluation rule o)).length =
      o.contexts.size * Group.leafCount rule.criteria := by
  rw [explanationsOf, length_flatMap_same (n := Group.leafCount rule.criteria), evaluations_length]
  intro entry mem
  obtain ⟨facts, found, same⟩ := mem_evaluations mem
  rw [length_map, same]
  exact (Group.contextEvaluation_counts (admitted.fit _ facts found) admitted.named
    (complete _ facts found)).1

omit [LinearOrder TenantId] in
theorem provenanceKeys_length (admitted : Group.Admitted rule o) (complete : Complete rule o) :
    (provenanceKeys (Group.objectEvaluation rule o)).length =
      o.contexts.size * rule.required.size := by
  rw [provenanceKeys, length_flatMap_same (n := rule.required.size), evaluations_length]
  intro entry mem
  obtain ⟨facts, found, same⟩ := mem_evaluations mem
  rw [length_map, same, (Group.contextEvaluation_counts (admitted.fit _ facts found)
    admitted.named (complete _ facts found)).2.length_eq]
  exact length_map _

omit [LinearOrder TenantId] in
theorem mem_provenanceKeys (admitted : Group.Admitted rule o) (complete : Complete rule o)
    {scope field : String} :
    (scope, field) ∈ provenanceKeys (Group.objectEvaluation rule o) ↔
      scope ∈ o.contexts.keys ∧ field ∈ rule.required.keys := by
  unfold provenanceKeys
  rw [List.mem_flatMap]
  constructor
  · rintro ⟨entry, mem, inside⟩
    obtain ⟨key, present, same⟩ := mem_map.mp inside
    cases same
    obtain ⟨facts, found, evaluated⟩ := mem_evaluations mem
    rw [evaluated] at present
    exact ⟨OrdMap.mem_keys.mpr ⟨facts, found⟩,
      ((Group.contextEvaluation_counts (admitted.fit _ facts found) admitted.named
        (complete _ facts found)).2.mem_iff).mp present⟩
  · rintro ⟨held, required⟩
    obtain ⟨facts, found⟩ := OrdMap.mem_keys.mp held
    refine ⟨(scope, Group.contextEvaluation rule o.memberships facts),
      mem_map.mpr ⟨(scope, facts), OrdMap.get?_eq_some.mp found, rfl⟩,
      mem_map.mpr ⟨field, ?_, rfl⟩⟩
    exact ((Group.contextEvaluation_counts (admitted.fit _ facts found) admitted.named
      (complete _ facts found)).2.mem_iff).mpr required

end

section

variable [Environment] {definitions : List FieldDefinition} {catalog : Catalog}
  {summary : DeviceSummary}

theorem evidenceOf_isSome (registered : Catalog.new definitions = .ok catalog) {name : String}
    {key : FieldKey} {path : Inventory.FieldPath} (parsed : FieldKey.parse name = .ok key)
    (found : catalog.path key = .ok path) (recorded : (summary.recorded path.root.key).isSome) :
    (evidenceOf summary name).isSome := by
  have value : key.value = name := (FieldKey.parse_eq_ok parsed).1
  have root : covers path.root.key name = true := by
    unfold covers FieldKey.asStr
    rcases Catalog.path_root registered found with same | below
    · rw [same, value]
      simp
    · rw [value] at below
      rw [below, Bool.or_true]
  have present : ∀ {ν : Type} {m : OrdMap FieldKey ν} {v : ν}, m.get? path.root.key = some v →
      (m.entries.find? (fun entry => covers entry.1 name)).isSome := by
    intro ν m v here
    rw [List.find?_isSome]
    exact ⟨(path.root.key, v), OrdMap.get?_eq_some.mp here, root⟩
  unfold evidenceOf
  split
  · rfl
  rename_i missing
  rw [Option.isSome_map]
  unfold Assets.Snapshot.recorded at recorded
  split at recorded
  · rename_i field here
    exact present here
  rw [Option.isSome_map] at recorded
  obtain ⟨field, here⟩ := Option.isSome_iff_exists.mp recorded
  have some_ := present here
  rw [missing] at some_
  cases some_

def TwoSources (s : Assets.Snapshot) : Prop :=
  (∀ entry ∈ s.fields.entries, entry.2.sources.length ≤ 2) ∧
    ∀ entry ∈ s.arrays.entries, entry.2.sources.length ≤ 2

omit [Environment] in
theorem evidenceOf_length (two : TwoSources summary.toSnapshot) {name : String}
    {found : List Evidence} (h : evidenceOf summary name = some found) : found.length ≤ 2 := by
  unfold evidenceOf at h
  split at h
  · rename_i key field here
    cases h
    rw [length_map]
    exact two.1 _ (List.mem_of_find?_eq_some here)
  · obtain ⟨entry, here, same⟩ := Option.map_eq_some_iff.mp h
    cases same
    rw [length_map]
    exact two.2 _ (List.mem_of_find?_eq_some here)

end

section

variable {TenantId Timepoint Number F : Type} [LinearOrder TenantId] [LinearOrder Timepoint]
  [Group.Floating Number] [Environment] [Conversion Timepoint Number]
  [Reading TenantId Timepoint Number]

structure PageRun (tenant : TenantId) (input : Input InventoryCondition F) (catalog : Catalog)
    (rule : Group.Rule Timepoint Number TenantId) (devices : List String) (answers : Answers)
    (facts : FactPage TenantId Timepoint Number)
    (page : Group.PageInput TenantId Timepoint Number) (asOf : Timepoint)
    (evaluated : Group.PageEvaluation TenantId Timepoint) : Prop where
  registered : ∃ definitions, Catalog.new definitions = .ok catalog
  accepted : ∃ earlier size roots, validateDefinition Timepoint Number input.definition size tenant
    input.rule earlier = .ok roots
  valid : input.validate = .ok ()
  ready : ∀ g ∈ input.groups, g.ready = true
  compiled : Assets.rule tenant input.rule input.definition.criteria.criteria catalog = .ok rule
  twoSources : ∀ scope snapshot, answers.snapshots scope = .ok snapshot →
    ∀ device, TwoSources (snapshot device)
  gathered : conditionInputs tenant catalog devices input.definition.criteria rule answers =
    .ok (.ready facts)
  coverage : page.coverage = facts.coverage
  objects : page.objects = facts.objects
  evaluated : Group.evaluatePage rule page asOf = .ok evaluated

/-- The device's contexts stay within the limits of an assessment, and its evidence names
snapshots that an assessment may name. -/
structure Fits (rule : Group.Rule Timepoint Number TenantId)
    (contexts : OrdMap (String ×ₗ String) DeviceSummary)
    (o : Group.ObjectSnapshot TenantId Timepoint Number) : Prop where
  explained : o.contexts.size * Group.leafCount rule.criteria ≤ 1024
  evidenced : o.contexts.size * rule.required.size ≤ 256
  identified : ∀ scope ∈ o.contexts.keys, ∀ field ∈ rule.required.keys, ∀ summary found,
    contexts.get? (toLex (o.key.id, scope)) = some summary → evidenceOf summary field = some found →
      ∀ e ∈ found, text e.snapshotId 1024 = true

/-- The assessment reports the three-valued combination and every explanation, and is accepted
when it is read back. -/
structure Faithful (input : Input InventoryCondition F) (groups : List GroupEvidence)
    (sources : List SourceReference) (e : Group.ObjectEvaluation TenantId Timepoint)
    (a : Assessment F) : Prop where
  concluded : (a.status, a.reason) =
    verdict (platformDecision input.definition.platform sources).truth (targeted groups)
      (decisionOf e.decision).truth
  explained : a.explanations = explanationsOf e
  readBack : a.validate = .ok ()

variable {tenant : TenantId} {input : Input InventoryCondition F} {catalog : Catalog}
  {rule : Group.Rule Timepoint Number TenantId} {devices : List String} {answers : Answers}
  {facts : FactPage TenantId Timepoint Number} {page : Group.PageInput TenantId Timepoint Number}
  {asOf : Timepoint} {evaluated : Group.PageEvaluation TenantId Timepoint}

namespace PageRun

theorem evaluations (run : PageRun tenant input catalog rule devices answers facts page asOf
    evaluated) : devices.zip evaluated.objects =
      facts.objects.map (fun o => (o.key.id, Group.objectEvaluation rule o)) := by
  obtain ⟨-, rfl⟩ := Group.evaluatePage_eq_ok.mp run.evaluated
  obtain ⟨ids, -⟩ := conditionInputs_sound run.gathered
  show devices.zip (page.objects.map _) = _
  rw [run.objects, ← ids, List.zip_map']

theorem admitted (run : PageRun tenant input catalog rule devices answers facts page asOf
    evaluated) {o : Group.ObjectSnapshot TenantId Timepoint Number} (mem : o ∈ facts.objects) :
    Group.Admitted rule o := by
  obtain ⟨admitted, -⟩ := Group.evaluatePage_eq_ok.mp run.evaluated
  exact Group.admission_objects admitted o (run.objects ▸ mem)

theorem required_fields (run : PageRun tenant input catalog rule devices answers facts page asOf
    evaluated) {field : String} (mem : field ∈ rule.required.keys) : field ∈ rule.fields.keys := by
  obtain ⟨admitted, -⟩ := Group.evaluatePage_eq_ok.mp run.evaluated
  obtain ⟨framed, -⟩ := of_check admitted
  obtain ⟨-, framed⟩ := of_check framed
  obtain ⟨covered, -⟩ := of_guard framed
  obtain ⟨-, coverage, -⟩ := conditionInputs_sound run.gathered
  have all : rule.required.keys.all page.coverage.contains = true := by simpa using covered
  have here := all_eq_true.mp all field mem
  rw [run.coverage, coverage] at here
  obtain ⟨entry, found⟩ := Option.isSome_iff_exists.mp here
  exact OrdSet.mem_ofList.mp (OrdMap.mem_keys.mpr ⟨entry, found⟩)

variable {o : Group.ObjectSnapshot TenantId Timepoint Number}

theorem complete (run : PageRun tenant input catalog rule devices answers facts page asOf evaluated)
    (mem : o ∈ facts.objects) : Complete rule o := by
  obtain ⟨-, -, -, held⟩ := conditionInputs_sound run.gathered
  intro scope found here field required
  exact (held o mem scope found here).2 field (run.required_fields required)

theorem recorded (run : PageRun tenant input catalog rule devices answers facts page asOf evaluated)
    (mem : o ∈ facts.objects) {scope field : String} (held : scope ∈ o.contexts.keys)
    (required : field ∈ rule.required.keys) :
    ∃ summary found, facts.contexts.get? (toLex (o.key.id, scope)) = some summary ∧
      evidenceOf summary field = some found ∧ found.length ≤ 2 ∧ text field 256 = true := by
  obtain ⟨-, -, sourced, kept⟩ := conditionInputs_sound run.gathered
  obtain ⟨read, here⟩ := OrdMap.mem_keys.mp held
  obtain ⟨summary, placed⟩ := Option.isSome_iff_exists.mp (kept o mem scope read here).1
  obtain ⟨readable, scope', snapshot, answered, same⟩ := sourced _ summary placed
  obtain ⟨key, path, parsed, found, present⟩ := readable field (run.required_fields required)
  obtain ⟨definitions, registered⟩ := run.registered
  obtain ⟨evidence, listed⟩ := Option.isSome_iff_exists.mp
    (evidenceOf_isSome registered parsed found present)
  have two : TwoSources summary.toSnapshot := same ▸ run.twoSources scope' snapshot answered _
  exact ⟨summary, evidence, placed, listed, evidenceOf_length two listed, key_text parsed⟩

theorem storable_iff
    (run : PageRun tenant input catalog rule devices answers facts page asOf evaluated)
    (mem : o ∈ facts.objects) :
    Storable (explanationsOf (Group.objectEvaluation rule o))
        ((provenanceKeys (Group.objectEvaluation rule o)).filterMap
          (fieldEvidence facts.contexts o.key.id)) ↔
      Fits rule facts.contexts o := by
  have admitted := run.admitted mem
  have complete := run.complete mem
  have listed : ∀ place ∈ provenanceKeys (Group.objectEvaluation rule o),
      ∃ summary found, facts.contexts.get? (toLex (o.key.id, place.1)) = some summary ∧
        evidenceOf summary place.2 = some found ∧ found.length ≤ 2 ∧ text place.2 256 = true := by
    rintro ⟨scope, field⟩ inside
    obtain ⟨held, required⟩ := (mem_provenanceKeys admitted complete).mp inside
    exact run.recorded mem held required
  have full : ((provenanceKeys (Group.objectEvaluation rule o)).filterMap
      (fieldEvidence facts.contexts o.key.id)).length = o.contexts.size * rule.required.size := by
    rw [← provenanceKeys_length admitted complete, List.filterMap_length_eq_length]
    intro place inside
    obtain ⟨summary, found, placed, here, -⟩ := listed place inside
    simp [fieldEvidence, placed, here]
  have explained := explanationsOf_length admitted complete
  constructor
  · rintro ⟨few, evidenced, provenanced⟩
    refine ⟨explained ▸ few, full ▸ evidenced, ?_⟩
    intro scope held field required summary found placed here e among
    have member : (⟨scope, field, found.map factReference⟩ : FieldEvidence) ∈
        (provenanceKeys (Group.objectEvaluation rule o)).filterMap
          (fieldEvidence facts.contexts o.key.id) := by
      refine List.mem_filterMap.mpr ⟨(scope, field),
        (mem_provenanceKeys admitted complete).mpr ⟨held, required⟩, ?_⟩
      simp [fieldEvidence, placed, here]
    have checked := provenanced _ member
    simp only [Assessment.provenanced, Bool.and_eq_true, all_eq_true] at checked
    exact (checked.2 (factReference e) (mem_map_of_mem among)).2
  · rintro ⟨few, evidenced, identified⟩
    refine ⟨explained ▸ few, full ▸ evidenced, ?_⟩
    intro item inside
    obtain ⟨⟨scope, field⟩, among, made⟩ := List.mem_filterMap.mp inside
    obtain ⟨held, required⟩ := (mem_provenanceKeys admitted complete).mp among
    obtain ⟨summary, found, placed, here, two, named⟩ := listed (scope, field) among
    have known : item = ⟨scope, field, found.map factReference⟩ := by
      simpa [fieldEvidence, placed, here] using made.symm
    subst known
    simp only [Assessment.provenanced, named, length_map, two, decide_true, Bool.true_and,
      all_eq_true]
    intro reference mem'
    obtain ⟨e, inside', rfl⟩ := mem_map.mp mem'
    have identifier := identified scope held field required summary found placed here e inside'
    simp only [factReference, source_text, Bool.true_and]
    exact identifier

theorem assessed_iff
    (run : PageRun tenant input catalog rule devices answers facts page asOf evaluated)
    (pageAnswers : PageAnswers) (mem : o ∈ facts.objects) {a : Assessment F} :
    assessDevice input devices pageAnswers facts.contexts o.key.id
        (Group.objectEvaluation rule o) = .ok a ↔
      Fits rule facts.contexts o ∧ a = document input Assets.dictionary
        (decisionOf (Group.objectEvaluation rule o).decision)
        { platform := input.definition.platform
          platformDecision := platformDecision input.definition.platform
            ((pageAnswers.platforms.get? o.key.id).getD [])
          sources := (pageAnswers.platforms.get? o.key.id).getD []
          groups := ((groupTargets input devices pageAnswers.records).get? o.key.id).getD [] }
        (explanationsOf (Group.objectEvaluation rule o))
        ((provenanceKeys (Group.objectEvaluation rule o)).filterMap
          (fieldEvidence facts.contexts o.key.id)) := by
  have device : o.key.id ∈ devices := by
    obtain ⟨ids, -⟩ := conditionInputs_sound run.gathered
    exact ids ▸ mem_map_of_mem mem
  obtain ⟨target, found, aligned⟩ := groupTargets_targeted input devices pageAnswers.records _ device
  rw [← run.storable_iff mem]
  unfold assessDevice assessment stored
  rw [mapError_eq_ok]
  exact evaluate_eq_ok run.valid run.ready (by decide) rfl (by rw [found]; exact aligned)

end PageRun

/-- A page that the rule engine has evaluated is assessed, stored and read back exactly when every
device keeps within 1024 explanations and 256 fields of evidence. -/
theorem page_stored_iff (run : PageRun tenant input catalog rule devices answers facts page asOf
    evaluated) (pageAnswers : PageAnswers) :
    ((∀ p ∈ devices.zip evaluated.objects, ∃ a,
        assessDevice input devices pageAnswers facts.contexts p.1 p.2 = .ok a ∧
          Faithful input (((groupTargets input devices pageAnswers.records).get? p.1).getD [])
            ((pageAnswers.platforms.get? p.1).getD []) p.2 a) ∧
      ∃ documents, storePage input devices pageAnswers facts.contexts evaluated.objects =
        .ok documents) ↔
    ∀ o ∈ facts.objects, Fits rule facts.contexts o := by
  rw [run.evaluations]
  constructor
  · rintro ⟨assessed, -⟩ o mem
    obtain ⟨a, done, -⟩ := assessed _ (mem_map_of_mem mem)
    exact ((run.assessed_iff pageAnswers mem).mp done).1
  · intro fits
    have assessed : ∀ p ∈ facts.objects.map (fun o => (o.key.id, Group.objectEvaluation rule o)),
        ∃ a, assessDevice input devices pageAnswers facts.contexts p.1 p.2 = .ok a ∧
          Faithful input (((groupTargets input devices pageAnswers.records).get? p.1).getD [])
            ((pageAnswers.platforms.get? p.1).getD []) p.2 a := by
      intro p inside
      obtain ⟨o, mem, rfl⟩ := mem_map.mp inside
      have done := (run.assessed_iff pageAnswers mem).mpr ⟨fits o mem, rfl⟩
      refine ⟨_, done, conclusion_eq _ _, rfl, ?_⟩
      unfold assessDevice assessment stored at done
      exact evaluate_validates (mapError_eq_ok.mp done)
    refine ⟨assessed, ?_⟩
    obtain ⟨documents, each⟩ := forall₂_exists
      (R := fun p d => storeDevice input devices pageAnswers facts.contexts p = .ok d)
      (fun p inside => by
        obtain ⟨a, done, faithful⟩ := assessed p inside
        refine ⟨(p.1, a), ?_⟩
        unfold storeDevice
        rw [done, ok_bind, faithful.readBack]
        rfl)
    refine ⟨documents, ?_⟩
    unfold storePage
    rw [run.evaluations]
    exact mapM_eq_ok.mpr each

end

namespace Sample

scoped instance environment : Environment where
  timepoint time := 0 ≤ time.val
  toUppercase := String.toUpper
  parseUuid _ := none
  observationId s := 1 ≤ s.utf8ByteSize && s.utf8ByteSize ≤ 256
  seriesId s := 1 ≤ s.utf8ByteSize && s.utf8ByteSize ≤ 256
  numberText n := Json.decimal n.bits.toNat
  fromSlice _ := none

scoped instance floating : Group.Floating Int where
  isFinite _ := true

/-- Nonnegative seconds; only booleans are compared here. -/
scoped instance conversion : Conversion Int Int where
  timepoint time := if 0 ≤ time.val then some time.val else none
  number n := n.order

def scopeText : Inventory.CollectionScope → String
  | .nativeUser (.windows sid) => sid
  | _ => "device"

scoped instance reading : Reading Nat Int Int where
  digest scope := .ok (scopeText scope)
  manifest _ := .ok "manifest"
  value _ _ _ found :=
    match found with
    | .scalar ⟨_, .known (.boolean v), _⟩ => .ok (.known (.scalar (.boolean v)))
    | _ => .ok .missing

/-- A flag that the native collector reports for each local user. -/
def administrator : FieldDefinition where
  timeSeries := none
  key := ⟨"device.administrator"⟩
  version := 1
  valueType := .boolean
  nullable := false
  manual := false
  sources := OrdMap.empty.insert .agentNative 1
  platforms := [.windows]
  sensitivity := .standard
  unit := none
  searchable := true
  itemKey := none

def catalog : Catalog := OrdMap.empty.insert administrator.key administrator

def user (n : Nat) : Inventory.CollectionScope := .nativeUser (.windows ("S-1-5-21-" ++ toString n))

def reported (scope : Inventory.CollectionScope) : Inventory.ResolvedField where
  field := administrator.key
  state := .known (.boolean false)
  sources := [{
    state := .known (.boolean false)
    lastKnown := none
    evidence := {
      scope := scope
      source := .agentNative
      dataset := some "accounts"
      registration := some "registration"
      registrationGeneration := some 1
      epoch := some "epoch"
      snapshotId := "batch"
      observedAt := ⟨60, by decide, by decide⟩
      receivedAt := ⟨61, by decide, by decide⟩
      actor := none } }]

/-- A shared device: the flag was collected for itself and four of its users. -/
def answers : Answers where
  raw := [user 1, user 2, user 3, user 4]
  snapshots scope := .ok (fun _ => {
    hasQuality := true
    fields := OrdMap.empty.insert administrator.key (reported scope)
    arrays := .empty })
  advanced := .ok true

/-- Some user is an administrator, asked a number of times. -/
def input (leaves : Nat) : Input InventoryCondition Nat where
  rule := 7
  revision := 1
  definition := {
    presentation := [("name", .string "rule")]
    severity := .high
    enabled := true
    platform := .all
    target := .all
    criteria := {
      selector := .allAuthorized
      quantifier := .any
      criteria := .or (List.replicate leaves
        (.predicate administrator.key .eq (some (.boolean true)) none)) } }
  assetCut := 1
  evaluatedAt := 100
  groups := []

def compiled (leaves : Nat) : Except Error (Group.Rule Int Int Nat) :=
  Assets.rule 1 (input leaves).rule (input leaves).definition.criteria.criteria catalog

def readyFacts {TenantId Timepoint Number : Type} [LinearOrder Timepoint] [Group.Floating Number] :
    Except Error (Assets.EvaluationStep TenantId Timepoint Number) →
      Option (FactPage TenantId Timepoint Number)
  | .ok (.ready facts) => some facts
  | _ => none

def page (facts : FactPage Nat Int Int) : Group.PageInput Nat Int Int where
  tenant := 1
  id := "task"
  version := "cut"
  dictionaryVersion := Assets.dictionary
  coverage := facts.coverage
  objects := facts.objects
  after := none

/-- Every snapshot that the evidence names has an identifier. -/
def identifies (rule : Group.Rule Int Int Nat) (facts : FactPage Nat Int Int) : Bool :=
  facts.contexts.values.all (fun summary => rule.required.keys.all (fun field =>
    (evidenceOf summary field).all (fun found => found.all (fun e => text e.snapshotId 1024))))

/-- The checks that a run of the sample passes, and the sizes of its one object. -/
def passes (leaves : Nat) (rule : Group.Rule Int Int Nat) (facts : FactPage Nat Int Int) : Bool :=
  (validateDefinition Int Int (input leaves).definition 60000 1 (input leaves).rule catalog).isOk &&
    (input leaves).validate.isOk && (Group.admission rule (page facts)).isOk &&
    identifies rule facts && facts.objects.map (fun o => o.contexts.size) = [5] &&
    Group.leafCount rule.criteria = leaves && rule.required.size = 1

def accepted (leaves : Nat) : Bool :=
  match compiled leaves with
  | .error _ => false
  | .ok rule =>
      match readyFacts (conditionInputs 1 catalog ["device-1"] (input leaves).definition.criteria rule
        answers) with
      | none => false
      | some facts => passes leaves rule facts

/-- A run over the shared device, with what decides whether it can be stored. -/
structure SharedRun (leaves : Nat) (rule : Group.Rule Int Int Nat) (facts : FactPage Nat Int Int) :
    Prop where
  run : PageRun 1 (input leaves) catalog rule ["device-1"] answers facts (page facts) 100
    (Group.pageEvaluation rule (page facts) 100)
  sizes : facts.objects.map (fun o => o.contexts.size) = [5]
  leaves : Group.leafCount rule.criteria = leaves
  required : rule.required.size = 1
  identified : identifies rule facts = true

theorem ok_of_isOk {ε : Type} {x : Except ε Unit} (h : x.isOk = true) : x = .ok () := by
  cases x with
  | error => cases h
  | ok => rfl

theorem answers_twoSources (scope : Inventory.CollectionScope) (snapshot : String → Assets.Snapshot)
    (h : answers.snapshots scope = .ok snapshot) (device : String) : TwoSources (snapshot device) := by
  cases h
  constructor
  · intro entry mem
    obtain rfl : entry = (administrator.key, reported scope) := List.mem_singleton.mp mem
    exact Nat.le_succ 1
  · intro entry mem
    cases mem

theorem shared_run (leaves : Nat) (h : accepted leaves = true) :
    ∃ rule facts, SharedRun leaves rule facts := by
  unfold accepted at h
  split at h
  · cases h
  rename_i rule built
  split at h
  · cases h
  rename_i facts read
  refine ⟨rule, facts, ?_⟩
  simp only [passes, Bool.and_eq_true, decide_eq_true_eq] at h
  obtain ⟨⟨⟨⟨⟨⟨definition, valid⟩, admitted⟩, identified⟩, sizes⟩, leafCount⟩, required⟩ := h
  have gathered : conditionInputs 1 catalog ["device-1"] (input leaves).definition.criteria rule
      answers = .ok (.ready facts) := by
    unfold readyFacts at read
    split at read
    · rename_i found
      rw [found, Option.some.inj read]
    · cases read
  refine ⟨⟨⟨[administrator], by rfl⟩, ?_, ok_of_isOk valid, ?_, built, answers_twoSources, gathered,
    rfl, rfl, Group.evaluatePage_eq_ok.mpr ⟨ok_of_isOk admitted, rfl⟩⟩, sizes, leafCount, required,
    identified⟩
  · refine ⟨catalog, 60000, ?_⟩
    cases checked : validateDefinition Int Int (input leaves).definition 60000 1
        (input leaves).rule catalog with
    | error =>
      rw [checked] at definition
      cases definition
    | ok roots => exact ⟨roots, rfl⟩
  · intro g mem
    cases mem

/-- What the page's step reads besides its facts: an enrolled device in no group. -/
def pageAnswers : PageAnswers := ⟨fun _ => [], .empty⟩

/-- Two hundred and five questions about five contexts are evaluated and cannot be stored. -/
theorem shared_device_refused : ∃ rule facts,
    PageRun 1 (input 205) catalog rule ["device-1"] answers facts (page facts) 100
      (Group.pageEvaluation rule (page facts) 100) ∧
    storePage (input 205) ["device-1"] pageAnswers facts.contexts
      (Group.pageEvaluation rule (page facts) 100).objects =
        .error (.unavailable .planningStorage) := by
  obtain ⟨rule, facts, run, sizes, leaves, -, -⟩ := shared_run 205 (by decide +kernel)
  refine ⟨rule, facts, run, ?_⟩
  obtain ⟨o, rest, objects⟩ : ∃ o rest, facts.objects = o :: rest := by
    cases listed : facts.objects with
    | nil =>
      rw [listed] at sizes
      cases sizes
    | cons o rest => exact ⟨o, rest, rfl⟩
  have mem : o ∈ facts.objects := objects ▸ List.mem_cons_self
  have size : o.contexts.size = 5 := by
    rw [objects] at sizes
    exact (List.cons.inj sizes).1
  have refused : ∀ a, assessDevice (input 205) ["device-1"] pageAnswers facts.contexts o.key.id
      (Group.objectEvaluation rule o) ≠ .ok a := by
    intro a done
    have fits := ((run.assessed_iff pageAnswers mem).mp done).1.explained
    rw [size, leaves] at fits
    omega
  have failed : assessDevice (input 205) ["device-1"] pageAnswers facts.contexts o.key.id
      (Group.objectEvaluation rule o) = .error (.unavailable .planningStorage) := by
    have only := refused
    unfold assessDevice assessment stored at only ⊢
    cases evaluated : Assessment.evaluate (F := Nat) _ _ _ _ _ _ with
    | error => rfl
    | ok a => exact absurd (by rw [evaluated]; rfl) (only a)
  unfold storePage
  rw [run.evaluations, objects, map_cons, List.mapM_cons]
  unfold storeDevice
  rw [failed]
  rfl

/-- Three questions about the same contexts are stored. -/
theorem page_stored_iff_shared : ∃ rule facts,
    Assets.rule 1 (input 3).rule (input 3).definition.criteria.criteria catalog = .ok rule ∧
    conditionInputs 1 catalog ["device-1"] (input 3).definition.criteria rule answers =
      .ok (.ready facts) ∧
    ∃ documents, storePage (input 3) ["device-1"] pageAnswers facts.contexts
      (Group.pageEvaluation rule (page facts) 100).objects = .ok documents := by
  obtain ⟨rule, facts, run, sizes, leaves, required, identified⟩ :=
    shared_run 3 (by decide)
  refine ⟨rule, facts, run.compiled, run.gathered, ((page_stored_iff run pageAnswers).mpr ?_).2⟩
  intro o mem
  have size : o.contexts.size = 5 := by
    have among : o.contexts.size ∈ facts.objects.map (fun o => o.contexts.size) :=
      mem_map_of_mem mem
    rw [sizes] at among
    exact List.mem_singleton.mp among
  refine ⟨by rw [size, leaves]; decide, by rw [size, required]; decide, ?_⟩
  intro scope held field needed summary found placed listed e inside
  have all := all_eq_true.mp identified summary
    (mem_map_of_mem (OrdMap.get?_eq_some.mp placed))
  have each := all_eq_true.mp all field needed
  rw [listed] at each
  exact all_eq_true.mp each e inside

end Sample

end RssMdm.Compliance
