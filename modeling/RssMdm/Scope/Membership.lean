/- module: Scope/Membership
   source: crates/scope/src/device.rs
   digest: Resolving a device decides whether it is in scope under every reading of the unknown
   sources. -/

import RssMdm.Scope.Device

set_option autoImplicit false

namespace RssMdm.Scope

open Lib Lib.Fallible

variable {TenantId Timepoint : Type} [LinearOrder TenantId] [LinearOrder Timepoint]

/-- A truth value for each snapshot of a source, the same in every role. -/
abbrev World (TenantId : Type) := SourceId TenantId ×ₗ Nat → Bool

def DeviceInput.sources (input : DeviceInput TenantId Timepoint) :
    List (SourceMembership TenantId Timepoint) :=
  input.targets ++ input.limitations.getD [] ++ input.exclusions

/-- The world gives the confirmed sources their confirmed values. -/
def Agrees (world : World TenantId) (input : DeviceInput TenantId Timepoint) : Prop :=
  ∀ m ∈ input.sources, ∀ value, m.contains = .known value → world m.source.snapshot = value

def InUnion (world : World TenantId) (sources : List (SourceMembership TenantId Timepoint)) : Prop :=
  ∃ m ∈ sources, world m.source.snapshot = true

/-- In the targets, in the limitations unless there are none, and not in the exclusions. -/
def InScope (world : World TenantId) (input : DeviceInput TenantId Timepoint) : Prop :=
  InUnion world input.targets ∧ (∀ limits, input.limitations = some limits → InUnion world limits) ∧
    ¬InUnion world input.exclusions

/-- In scope under every reading of the unknown sources. -/
def Certain (input : DeviceInput TenantId Timepoint) : Prop :=
  ∀ world : World TenantId, Agrees world input → InScope world input

def recorded : Membership → Option Bool
  | .known value => some value
  | _ => none

def SourceMembership.entry (m : SourceMembership TenantId Timepoint) :
    (SourceId TenantId ×ₗ Nat) × Option Bool :=
  (m.source.snapshot, recorded m.contains)

structure Accepted (device : DeviceId TenantId) (m : SourceMembership TenantId Timepoint) : Prop where
  tenant : m.source.id.tenant = device.1.tenant
  resolved : m.contains ≠ .incomplete ∧ m.contains ≠ .failed
  direct : ∀ id, m.source.id = .direct id → m.contains = .known (decide (id = device))

omit [LinearOrder Timepoint] in
theorem checkSource_eq_ok {device : DeviceId TenantId}
    {seen seen' : OrdMap (SourceId TenantId ×ₗ Nat) (Option Bool)}
    {m : SourceMembership TenantId Timepoint} : checkSource device seen m = .ok seen' ↔
      Accepted device m ∧ seen.insertSame m.entry.1 m.entry.2 = some seen' := by
  have confirms : ∀ c, confirmed m = .ok c ↔
      (m.contains ≠ .incomplete ∧ m.contains ≠ .failed) ∧ c = recorded m.contains := by
    intro c
    unfold confirmed
    cases m.contains <;> simp [recorded, eq_comm]
  have agrees : directAgrees device m.source.id (recorded m.contains) = true ↔
      ∀ id, m.source.id = .direct id → m.contains = .known (decide (id = device)) := by
    unfold directAgrees
    cases m.source.id with
    | direct => cases m.contains <;> simp [recorded]
    | group => simp
  unfold checkSource
  simp only [guard_eq_ok, bind_eq_ok, confirms, not_not, Bool.not_eq_true', Bool.not_eq_false]
  constructor
  · rintro ⟨tenant, _, ⟨resolved, rfl⟩, direct, inserted⟩
    refine ⟨⟨tenant, resolved, agrees.mp direct⟩, ?_⟩
    split at inserted
    · cases inserted
    · rename_i found
      rw [← Except.ok.inj inserted]
      exact found
  · rintro ⟨accepted, inserted⟩
    refine ⟨accepted.tenant, _, ⟨accepted.resolved, rfl⟩, agrees.mpr accepted.direct, ?_⟩
    change seen.insertSame m.source.snapshot (recorded m.contains) = some seen' at inserted
    rw [inserted]

/-- What the resolution returns once every source has passed. -/
def decided (input : DeviceInput TenantId Timepoint) :
    Option (MemberExplanation TenantId Timepoint) :=
  let limits := input.limitations.getD []
  let targets := matching input.targets
  if targets.entries.isEmpty && !unknown input.targets then none
  else
    let result := explanation input.device targets (matching limits) (matching input.exclusions)
      input.limitations.isSome
    if !result.exclusions.isEmpty then some result
    else some { result with reasons := unknownReasons input limits result }

structure Passes (input : DeviceInput TenantId Timepoint) : Prop where
  total : input.sources.length ≤ 3000
  accepted : ∀ m ∈ input.sources, Accepted input.device m
  agree : OrdMap.Agree (input.sources.map SourceMembership.entry)
  distinct : ((input.sources.map SourceMembership.entry).map Prod.fst).toFinset.card ≤ 1000

theorem resolveDevice_eq (input : DeviceInput TenantId Timepoint) :
    resolveDevice input = (if saturatingAdd (saturatingAdd input.targets.length
        (input.limitations.getD []).length) input.exclusions.length > 3000 then .error .sourceLimit
      else do
        let seen ← input.sources.foldlM (checkSource input.device) .empty
        if seen.size > 1000 then .error .sourceLimit else .ok (decided input)) := by
  unfold resolveDevice decided DeviceInput.sources
  refine if_congr Iff.rfl rfl (bind_congr (fun seen => ?_))
  dsimp only
  split_ifs <;> rfl

theorem resolveDevice_eq_ok {input : DeviceInput TenantId Timepoint}
    {r : Option (MemberExplanation TenantId Timepoint)} :
    resolveDevice input = .ok r ↔ Passes input ∧ r = decided input := by
  have total : ¬saturatingAdd (saturatingAdd input.targets.length
      (input.limitations.getD []).length) input.exclusions.length > 3000 ↔
        input.sources.length ≤ 3000 := by
    simp only [saturatingAdd, DeviceInput.sources, List.length_append]
    omega
  obtain ⟨sound, complete⟩ := OrdMap.Holds.foldlM (fun _ _ _ => checkSource_eq_ok)
    input.sources (OrdMap.holds_empty (κ := SourceId TenantId ×ₗ Nat) (ν := Option Bool))
    (P := Accepted input.device)
  simp only [resolveDevice_eq, guard_eq_ok, total, bind_eq_ok, Nat.not_lt, Except.ok.injEq]
  constructor
  · rintro ⟨total, seen, loop, size, rfl⟩
    obtain ⟨accepted, holds⟩ := sound seen loop
    exact ⟨⟨total, accepted, holds.agree, holds.size ▸ size⟩, rfl⟩
  · rintro ⟨passes, rfl⟩
    obtain ⟨seen, loop⟩ := complete passes.accepted passes.agree
    obtain ⟨-, holds⟩ := sound seen loop
    exact ⟨passes.total, seen, loop, holds.size ▸ passes.distinct, rfl⟩

section

variable {sources : List (SourceMembership TenantId Timepoint)}

theorem mem_matching {s : SourceRef TenantId Timepoint} :
    s ∈ (matching sources).keys ↔ ∃ m ∈ sources, m.contains = .known true ∧ m.source = s := by
  simp [matching, OrdSet.mem_ofList, and_assoc]

def Confirmed (sources : List (SourceMembership TenantId Timepoint)) : Prop :=
  ∃ m ∈ sources, m.contains = .known true

theorem matching_empty :
    (matching sources).entries.isEmpty = true ↔ ¬Confirmed sources := by
  simp only [OrdSet.keys_eq_nil, mem_matching, Confirmed]
  constructor
  · rintro none ⟨m, member, known⟩
    exact none m.source ⟨m, member, known, rfl⟩
  · rintro none s ⟨m, member, known, -⟩
    exact none ⟨m, member, known⟩

omit [LinearOrder TenantId] [LinearOrder Timepoint] in
theorem unknown_iff :
    unknown sources = true ↔ ∃ m ∈ sources, m.contains = .unknown := by
  simp [unknown]

variable {input : DeviceInput TenantId Timepoint}

theorem decided_eq_none :
    decided input = none ↔ ¬Confirmed input.targets ∧ ∀ m ∈ input.targets, m.contains ≠ .unknown := by
  have none : decided input = none ↔
      (matching input.targets).entries.isEmpty = true ∧ unknown input.targets = false := by
    simp only [decided]
    split_ifs <;> simp_all
  rw [none, matching_empty, ← Bool.not_eq_true, unknown_iff]
  simp

theorem decided_reasons :
    (∃ e, decided input = some e ∧ e.reasons = []) ↔ Confirmed input.targets ∧
      (input.limitations.isSome = true → Confirmed (input.limitations.getD [])) ∧
      ¬Confirmed input.exclusions ∧ ∀ m ∈ input.exclusions, m.contains ≠ .unknown := by
  have keys : ∀ s : OrdSet (SourceRef TenantId Timepoint), s.keys.isEmpty = s.entries.isEmpty := by
    intro s
    simp [OrdMap.keys]
  have unknowns : (∀ m ∈ input.exclusions, m.contains ≠ .unknown) ↔
      unknown input.exclusions = false := by
    rw [← Bool.not_eq_true, unknown_iff]
    simp
  have confirmed : ∀ sources : List (SourceMembership TenantId Timepoint),
      Confirmed sources ↔ (matching sources).entries.isEmpty = false := by
    intro sources
    rw [← Bool.not_eq_true, matching_empty, not_not]
  rw [unknowns, confirmed, confirmed, confirmed]
  simp only [decided, explanation, unknownReasons, keys]
  generalize (matching input.targets).entries.isEmpty = targets
  generalize (matching (input.limitations.getD [])).entries.isEmpty = limits
  generalize (matching input.exclusions).entries.isEmpty = exclusions
  generalize unknown input.targets = unknownTargets
  generalize unknown (input.limitations.getD []) = unknownLimits
  generalize unknown input.exclusions = unknownExclusions
  generalize input.limitations.isSome = restricted
  cases targets <;> cases limits <;> cases exclusions <;> cases unknownTargets <;>
    cases unknownLimits <;> cases unknownExclusions <;> cases restricted <;> simp

end

section

open Classical in
/-- The world in which an unknown source contains the device exactly when `fill` says so. -/
noncomputable def filled (fill : Bool) (input : DeviceInput TenantId Timepoint) : World TenantId :=
  fun k => if (k, some true) ∈ input.sources.map SourceMembership.entry then true
    else if (k, some false) ∈ input.sources.map SourceMembership.entry then false else fill

variable {input : DeviceInput TenantId Timepoint} {m : SourceMembership TenantId Timepoint}

omit [LinearOrder Timepoint] in
theorem filled_recorded {fill : Bool}
    (agree : OrdMap.Agree (input.sources.map SourceMembership.entry)) (member : m ∈ input.sources) :
    filled fill input m.source.snapshot = (recorded m.contains).getD fill := by
  have own : (m.source.snapshot, recorded m.contains) ∈
      input.sources.map SourceMembership.entry := List.mem_map_of_mem member
  have only : ∀ v, (m.source.snapshot, v) ∈ input.sources.map SourceMembership.entry →
      v = recorded m.contains := fun v hv => agree _ hv _ own rfl
  unfold filled
  split
  · rename_i yes
    rw [← only _ yes]
    rfl
  rename_i notTrue
  split
  · rename_i no
    rw [← only _ no]
    rfl
  rename_i notFalse
  cases value : recorded m.contains with
  | none => rfl
  | some b =>
    rw [value] at own
    cases b with
    | true => exact absurd own notTrue
    | false => exact absurd own notFalse

omit [LinearOrder Timepoint] in
theorem filled_agrees {fill : Bool}
    (agree : OrdMap.Agree (input.sources.map SourceMembership.entry)) :
    Agrees (filled fill input) input := by
  intro m member value known
  rw [filled_recorded agree member, known]
  rfl

omit [LinearOrder TenantId] [LinearOrder Timepoint] in
theorem recorded_getD_false {c : Membership} (h : (recorded c).getD false = true) :
    c = .known true := by
  cases c with
  | known => exact congrArg Membership.known h
  | unknown | incomplete | failed => cases h

omit [LinearOrder TenantId] [LinearOrder Timepoint] in
theorem mem_sources : m ∈ input.sources ↔
      m ∈ input.targets ∨ m ∈ input.limitations.getD [] ∨ m ∈ input.exclusions := by
  simp [DeviceInput.sources]

omit [LinearOrder Timepoint] in
/-- Certainty is decided role by role: reading every unknown source as absent refutes unconfirmed
targets and limitations, reading it as present refutes an unknown exclusion. -/
theorem certain_iff (passes : Passes input) :
    Certain input ↔ Confirmed input.targets ∧
      (input.limitations.isSome = true → Confirmed (input.limitations.getD [])) ∧
      ¬Confirmed input.exclusions ∧ ∀ m ∈ input.exclusions, m.contains ≠ .unknown := by
  have present : ∀ world, Agrees world input → ∀ sources,
      (∀ m ∈ sources, m ∈ input.sources) → Confirmed sources → InUnion world sources := by
    rintro world agrees sources sub ⟨m, member, known⟩
    exact ⟨m, member, agrees m (sub m member) true known⟩
  have absent : ∀ sources, (∀ m ∈ sources, m ∈ input.sources) →
      InUnion (filled false input) sources → Confirmed sources := by
    rintro sources sub ⟨m, member, inside⟩
    rw [filled_recorded passes.agree (sub m member)] at inside
    exact ⟨m, member, recorded_getD_false inside⟩
  have inTargets : ∀ m ∈ input.targets, m ∈ input.sources := fun m hm => mem_sources.mpr (.inl hm)
  have inLimits : ∀ m ∈ input.limitations.getD [], m ∈ input.sources :=
    fun m hm => mem_sources.mpr (.inr (.inl hm))
  have inExclusions : ∀ m ∈ input.exclusions, m ∈ input.sources :=
    fun m hm => mem_sources.mpr (.inr (.inr hm))
  constructor
  · intro certain
    obtain ⟨targets, limits, -⟩ := certain (filled false input) (filled_agrees passes.agree)
    obtain ⟨-, -, outside⟩ := certain (filled true input) (filled_agrees passes.agree)
    refine ⟨absent _ inTargets targets, ?_, ?_, ?_⟩
    · intro some
      obtain ⟨list, same⟩ := Option.isSome_iff_exists.mp some
      apply absent _ inLimits
      rw [same]
      exact limits list same
    · intro confirmed
      exact outside (present _ (filled_agrees passes.agree) _ inExclusions confirmed)
    · intro m member missing
      refine outside ⟨m, member, ?_⟩
      rw [filled_recorded passes.agree (inExclusions m member), missing]
      rfl
  · rintro ⟨targets, limits, outside, decided⟩ world agrees
    refine ⟨present world agrees _ inTargets targets, ?_, ?_⟩
    · intro list same
      have confirmed := limits (by rw [same]; rfl)
      rw [same] at confirmed inLimits
      exact present world agrees list inLimits confirmed
    · rintro ⟨m, member, inside⟩
      have resolved := (passes.accepted m (inExclusions m member)).resolved
      cases contains : m.contains with
      | known value =>
        have value_eq := agrees m (inExclusions m member) value contains
        rw [inside] at value_eq
        exact outside ⟨m, member, by rw [contains, value_eq]⟩
      | unknown => exact decided m member contains
      | incomplete => exact resolved.1 contains
      | failed => exact resolved.2 contains

end

/-- The same sources in each role, in any order and number. -/
structure SameRoles (input input' : DeviceInput TenantId Timepoint) : Prop where
  device : input.device = input'.device
  targets : ∀ m, m ∈ input.targets ↔ m ∈ input'.targets
  restricted : input.limitations.isSome = input'.limitations.isSome
  limitations : ∀ m, m ∈ input.limitations.getD [] ↔ m ∈ input'.limitations.getD []
  exclusions : ∀ m, m ∈ input.exclusions ↔ m ∈ input'.exclusions

variable {input : DeviceInput TenantId Timepoint}

omit [LinearOrder TenantId] [LinearOrder Timepoint] in
theorem SameRoles.symm {input' : DeviceInput TenantId Timepoint} (h : SameRoles input input') :
    SameRoles input' input :=
  ⟨h.device.symm, fun m => (h.targets m).symm, h.restricted.symm, fun m => (h.limitations m).symm,
    fun m => (h.exclusions m).symm⟩

variable {sources' sources : List (SourceMembership TenantId Timepoint)}

theorem matching_congr (h : ∀ m, m ∈ sources ↔ m ∈ sources') :
    matching sources = matching sources' := by
  apply OrdSet.ext_keys
  intro s
  simp only [mem_matching, h]

omit [LinearOrder TenantId] [LinearOrder Timepoint] in
theorem unknown_congr (h : ∀ m, m ∈ sources ↔ m ∈ sources') :
    unknown sources = unknown sources' := by
  rw [Bool.eq_iff_iff, unknown_iff, unknown_iff]
  simp only [h]

theorem SameRoles.decided {input' : DeviceInput TenantId Timepoint} (h : SameRoles input input') :
    decided input = decided input' := by
  simp only [Scope.decided, unknownReasons, matching_congr h.targets, matching_congr h.limitations,
    matching_congr h.exclusions, unknown_congr h.targets, unknown_congr h.limitations,
    unknown_congr h.exclusions, h.device, h.restricted]

omit [LinearOrder Timepoint] in
theorem SameRoles.passes {input input' : DeviceInput TenantId Timepoint}
    (h : SameRoles input input') (total : input'.sources.length ≤ 3000) (passes : Passes input) :
    Passes input' := by
  have sources : ∀ m, m ∈ input'.sources ↔ m ∈ input.sources := by
    intro m
    rw [mem_sources, mem_sources, h.targets, h.limitations, h.exclusions]
  have entries : ∀ e, e ∈ input'.sources.map SourceMembership.entry ↔
      e ∈ input.sources.map SourceMembership.entry := by
    intro e
    simp only [List.mem_map, sources]
  refine ⟨total, ?_, passes.agree.of_subset (fun e he => (entries e).mp he), ?_⟩
  · intro m member
    rw [← h.device]
    exact passes.accepted m ((sources m).mp member)
  · have same : ((input'.sources.map SourceMembership.entry).map Prod.fst).toFinset =
        ((input.sources.map SourceMembership.entry).map Prod.fst).toFinset := by
      ext k
      simp only [List.mem_toFinset, List.mem_map (f := Prod.fst), entries]
    rw [same]
    exact passes.distinct

theorem decided_sources {e : MemberExplanation TenantId Timepoint} (h : decided input = some e) :
    e.targets = (matching input.targets).keys ∧
      e.limitations = (matching (input.limitations.getD [])).keys ∧
      e.exclusions = (matching input.exclusions).keys := by
  simp only [decided] at h
  split_ifs at h
  all_goals
    cases Option.some.inj h
    exact ⟨rfl, rfl, rfl⟩

def Refused (input : DeviceInput TenantId Timepoint) (m : SourceMembership TenantId Timepoint) :
    Prop :=
  m.contains = .incomplete ∨ m.contains = .failed ∨ m.source.id.tenant ≠ input.device.1.tenant ∨
    (∃ id, m.source.id = .direct id ∧ m.contains ≠ .known (decide (id = input.device))) ∨
    ∃ other ∈ input.sources, other.source.id = m.source.id ∧
      other.source.version = m.source.version ∧ other.contains ≠ m.contains

/-- The listed sources are exactly the confirmed ones, sorted and without repetition. -/
def Lists (list : List (SourceRef TenantId Timepoint))
    (sources : List (SourceMembership TenantId Timepoint)) : Prop :=
  list.Pairwise (· < ·) ∧ ∀ s, s ∈ list ↔ ∃ m ∈ sources, m.contains = .known true ∧ m.source = s

/-- A resolution is exactly certain membership, explains itself by the confirmed sources, does not
depend on the order or number of the sources in a role, and refuses every doubtful source. -/
theorem resolveDevice_certain (input : DeviceInput TenantId Timepoint) :
    (∀ r, resolveDevice input = .ok r →
      ((∃ e, r = some e ∧ e.reasons = []) ↔ Certain input) ∧
      (r = none ↔ (∀ m ∈ input.targets, m.contains ≠ .known true ∧ m.contains ≠ .unknown)) ∧
      (∀ e, r = some e → Lists e.targets input.targets ∧
        Lists e.limitations (input.limitations.getD []) ∧ Lists e.exclusions input.exclusions)) ∧
    (∀ input', SameRoles input input' → input.sources.length ≤ 3000 →
      input'.sources.length ≤ 3000 →
      (∃ r, resolveDevice input = .ok r ∧ resolveDevice input' = .ok r) ∨
      (∃ e e', resolveDevice input = .error e ∧ resolveDevice input' = .error e')) ∧
    ((∃ m ∈ input.sources, Refused input m) → ∃ e, resolveDevice input = .error e) := by
  refine ⟨?_, ?_, ?_⟩
  · intro r resolved
    obtain ⟨passes, rfl⟩ := resolveDevice_eq_ok.mp resolved
    refine ⟨?_, ?_, ?_⟩
    · rw [certain_iff passes, ← decided_reasons]
    · rw [decided_eq_none]
      constructor
      · rintro ⟨unconfirmed, known⟩ m member
        exact ⟨fun confirmed => unconfirmed ⟨m, member, confirmed⟩, known m member⟩
      · intro absent
        refine ⟨?_, fun m member => (absent m member).2⟩
        rintro ⟨m, member, confirmed⟩
        exact (absent m member).1 confirmed
    · intro e some
      obtain ⟨targets, limitations, exclusions⟩ := decided_sources some
      rw [targets, limitations, exclusions]
      exact ⟨⟨OrdSet.pairwise_keys _, fun s => mem_matching⟩,
        ⟨OrdSet.pairwise_keys _, fun s => mem_matching⟩,
        ⟨OrdSet.pairwise_keys _, fun s => mem_matching⟩⟩
  · intro input' same total total'
    cases first : resolveDevice input with
    | ok =>
      obtain ⟨passes, rfl⟩ := resolveDevice_eq_ok.mp first
      exact .inl ⟨_, rfl, resolveDevice_eq_ok.mpr ⟨same.passes total' passes, same.decided⟩⟩
    | error e =>
      cases second : resolveDevice input' with
      | ok =>
        obtain ⟨passes, rfl⟩ := resolveDevice_eq_ok.mp second
        cases first.symm.trans (resolveDevice_eq_ok.mpr
          ⟨same.symm.passes total passes, same.symm.decided⟩)
      | error e' => exact .inr ⟨e, e', rfl, rfl⟩
  · rintro ⟨m, member, refused⟩
    cases resolved : resolveDevice input with
    | error e => exact ⟨e, rfl⟩
    | ok =>
      obtain ⟨passes, -⟩ := resolveDevice_eq_ok.mp resolved
      have accepted := passes.accepted m member
      rcases refused with incomplete | failed | foreign | ⟨id, direct, contradicts⟩ |
        ⟨other, member', id, version, differ⟩
      · exact absurd incomplete accepted.resolved.1
      · exact absurd failed accepted.resolved.2
      · exact absurd accepted.tenant foreign
      · exact absurd (accepted.direct id direct) contradicts
      have accepted' := passes.accepted other member'
      have same : other.source.snapshot = m.source.snapshot := by
        rw [SourceRef.snapshot, SourceRef.snapshot, id, version]
      have values : recorded other.contains = recorded m.contains :=
        passes.agree _ (List.mem_map_of_mem member') _ (List.mem_map_of_mem member) same
      have resolved := accepted.resolved
      have resolved' := accepted'.resolved
      cases mine : m.contains <;> cases theirs : other.contains <;>
        simp_all [recorded]

end RssMdm.Scope
