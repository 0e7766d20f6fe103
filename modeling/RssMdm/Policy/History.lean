/- module: Policy/History
   source: crates/policy/src/model.rs, crates/policy/tests/model.rs
   digest: What every sequence of configuration writes preserves, lost races included. -/

import Mathlib.Data.List.Nodup
import Mathlib.Data.List.Range
import RssMdm.Policy.Model

set_option autoImplicit false
set_option linter.dupNamespace false

namespace RssMdm.Policy

open Lib.Fallible Lib.Outcome Lib.Int64

variable {Login Windows Zone : Type} {tz : TimeZones Zone} {env : Serializers Login Windows}

theorem reject_eq_ok {c : Bool} : reject c = .ok () ↔ c = false := by
  cases c <;> simp [reject]

theorem orNotFound_eq_ok {α : Type} {o : Option α} {a : α} :
    Policy.orNotFound o = .ok a ↔ o = some a := by
  cases o <;> simp [Policy.orNotFound]

theorem orConflict_eq_ok {α : Type} {o : Option α} {a : α} :
    Policy.orConflict o = .ok a ↔ o = some a := by
  cases o <;> simp [Policy.orConflict, Policy.conflict]

structure Attempt (Login Windows : Type) where
  id : Uuid
  expected : UInt64
  input : Change Login Windows
  nextVersion : Uuid
  binding : Option Digest

def Attempt.applyTo (tz : TimeZones Zone) (env : Serializers Login Windows)
    (a : Attempt Login Windows) (old : Option (Policy Login Windows)) :
    Decision (Changed Login Windows) :=
  Policy.apply tz env a.id old a.expected a.input a.nextVersion a.binding

structure Applied (tz : TimeZones Zone) (env : Serializers Login Windows)
    (old : Option (Policy Login Windows)) (a : Attempt Login Windows)
    (c : Changed Login Windows) : Prop where
  expected : Policy.currentRevision old = a.expected.toNat
  unarchived : ∀ p, old = some p → p.state ≠ .archived
  revision : c.policy.revision.val = a.expected.toNat + 1
  definition : ∃ d, Policy.requested old a.input = .ok (d, c.policy.state) ∧
    c.policy.definition = Policy.normalized old d
  validates : c.policy.definition.validate tz env = .ok ()
  binding : c.policy.executionBinding = Policy.boundTo old a.input a.binding
  bound : c.policy.definition.action.isEnsureAgentInstalled = c.policy.executionBinding.isSome
  semantic : boundSemantic env c.policy.definition c.policy.executionBinding = .ok c.semantic
  changed : ∃ previous, previousSemantic env old = .ok previous ∧
    c.semanticChanged = decide (previous ≠ some c.semantic)
  fresh : c.semanticChanged = true → ∀ p, old = some p → p.version ≠ a.nextVersion
  number : Policy.nextNumber old c.semanticChanged = .ok c.policy.number
  version : Policy.versionAfter old c.semanticChanged a.nextVersion = .ok c.policy.version

variable {c : Changed Login Windows} {a : Attempt Login Windows}
  {old : Option (Policy Login Windows)}

theorem applied_of_ok (h : a.applyTo tz env old = .ok c) : Applied tz env old a c := by
  simp only [Attempt.applyTo, Policy.apply, check_bind_eq_ok] at h
  obtain ⟨-, -, h⟩ := h
  split at h
  · cases h
  rename_i hcurrent
  split at h
  · cases h
  rename_i harchived
  obtain ⟨revision, hrevision, h⟩ := of_bind h
  obtain ⟨⟨d, state⟩, hrequested, h⟩ := of_bind h
  simp only [Policy.commit, check_bind_eq_ok, reject_eq_ok] at h
  obtain ⟨hvalidates, hbound, h⟩ := h
  obtain ⟨semantic, hsemantic, h⟩ := of_bind h
  obtain ⟨previous, hprevious, h⟩ := of_bind h
  simp only [check_bind_eq_ok, reject_eq_ok] at h
  obtain ⟨hfresh, h⟩ := h
  obtain ⟨number, hnumber, h⟩ := of_bind h
  obtain ⟨version, hversion, h⟩ := of_bind h
  obtain rfl := Except.ok.inj h
  simp only [Bool.or_eq_true, not_or, decide_eq_true_eq, not_not] at hcurrent
  have hsuccessor : revision.val = a.expected.toNat + 1 := by
    rw [Policy.nextRevision, orConflict_eq_ok] at hrevision
    split at hrevision
    · exact I64.ofInt_eq_some.mp hrevision
    · cases hrevision
  refine
    { expected := hcurrent.2
      unarchived := ?_
      revision := hsuccessor
      definition := ⟨d, hrequested, rfl⟩
      validates := hvalidates
      binding := rfl
      bound := by simpa using hbound
      semantic := hsemantic
      changed := ⟨previous, hprevious, rfl⟩
      fresh := ?_
      number := hnumber
      version := hversion }
  · rintro p rfl hstate
    exact harchived (by simp [hstate])
  · rintro hchanged p rfl
    have hne : ¬previous = some semantic := by simpa using hchanged
    have hversions : ¬previous = some semantic → ¬p.version = a.nextVersion := by simpa using hfresh
    exact hversions hne

/-- What every reachable aggregate satisfies after a number of successful writes. -/
def Sound (tz : TimeZones Zone) (env : Serializers Login Windows) (writes : Nat) :
    Option (Policy Login Windows) → Prop
  | none => writes = 0
  | some p => p.revision.val = writes ∧ 1 ≤ p.number.val ∧ p.number.val ≤ p.revision.val ∧
      p.definition.validate tz env = .ok () ∧
      (p.executionBinding.isSome = true ↔ p.definition.action.isEnsureAgentInstalled = true)

variable {writes : Nat}

theorem Sound.currentRevision (h : Sound tz env writes old) :
    Policy.currentRevision old = writes := by
  cases old with
  | none => exact h.symm
  | some p =>
    obtain ⟨hrevision, -⟩ := h
    have hhi : p.revision.val < 2 ^ 63 := p.revision.hi
    simp only [Policy.currentRevision]
    omega

theorem Sound.number_bounds {changed : Bool} {number : I64} (hsound : Sound tz env writes old)
    (h : Policy.nextNumber old changed = .ok number) :
    1 ≤ number.val ∧ number.val ≤ writes + 1 := by
  cases old with
  | none =>
    cases changed with
    | true =>
      rw [← Except.ok.inj h]
      simp only
      omega
    | false => cases h
  | some p =>
    obtain ⟨hrevision, hpos, hle, -, -⟩ := hsound
    cases changed with
    | true =>
      simp only [Policy.nextNumber, if_true, orConflict_eq_ok, I64.checkedAdd, I64.ofInt_eq_some] at h
      omega
    | false =>
      rw [← Except.ok.inj h]
      omega

theorem Sound.apply (hsound : Sound tz env writes old) (h : Applied tz env old a c) :
    Sound tz env (writes + 1) (some c.policy) := by
  have hcurrent : a.expected.toNat = writes := by
    rw [← h.expected, hsound.currentRevision]
  have hrevision : c.policy.revision.val = (writes : Int) + 1 := by
    rw [h.revision, hcurrent]
  obtain ⟨hpos, hle⟩ := hsound.number_bounds h.number
  exact ⟨by rw [hrevision]; rfl, hpos, by omega, h.validates, by rw [h.bound]⟩

def Action.setRollout (rollout : SoftwareRollout) : Action Login Windows → Action Login Windows
  | .software channel delivery resource intent schedule lifetime _ =>
    .software channel delivery resource intent schedule lifetime rollout
  | action => action

theorem semanticBytes_setRollout (rollout : SoftwareRollout) (action : Action Login Windows) :
    (action.setRollout rollout).semanticBytes env = action.semanticBytes env := by
  cases action <;> rfl

theorem boundSemantic_congr {d d' : Definition Login Windows} {binding : Option Digest}
    {rollout : SoftwareRollout} (h : d'.action = d.action.setRollout rollout) :
    boundSemantic env d' binding = boundSemantic env d binding := by
  simp only [boundSemantic, Definition.semantic, h, semanticBytes_setRollout]

variable {p : Policy Login Windows}

theorem Applied.version_iff (h : Applied tz env (some p) a c) :
    (c.policy.version ≠ p.version ↔ boundSemantic env c.policy.definition c.policy.executionBinding ≠
      boundSemantic env p.definition p.executionBinding) ∧
    (c.policy.number ≠ p.number ↔ boundSemantic env c.policy.definition c.policy.executionBinding ≠
      boundSemantic env p.definition p.executionBinding) ∧
    (c.policy.number ≠ p.number → c.policy.number.val = p.number.val + 1) := by
  obtain ⟨previous, hprevious, hchanged⟩ := h.changed
  obtain ⟨digest, hdigest, hprevious⟩ := of_bind hprevious
  obtain rfl := Except.ok.inj hprevious
  have hdiffers : boundSemantic env c.policy.definition c.policy.executionBinding ≠
      boundSemantic env p.definition p.executionBinding ↔ c.semanticChanged = true := by
    rw [h.semantic, hdigest, hchanged]
    simp only [ne_eq, Except.ok.injEq, decide_not, Bool.not_eq_true', decide_eq_false_iff_not,
      Option.some.injEq]
    exact not_congr eq_comm
  rw [hdiffers]
  have hnumber := h.number
  have hversion := h.version
  cases hcase : c.semanticChanged with
  | true =>
    rw [hcase] at hnumber hversion
    have hnew : a.nextVersion = c.policy.version := Except.ok.inj hversion
    have hfresh : p.version ≠ a.nextVersion := h.fresh hcase p rfl
    simp only [Policy.nextNumber, if_true, orConflict_eq_ok, I64.checkedAdd, I64.ofInt_eq_some]
      at hnumber
    have hne : c.policy.number ≠ p.number := by
      intro heq
      rw [heq] at hnumber
      omega
    refine ⟨iff_of_true ?_ rfl, iff_of_true hne rfl, fun _ => hnumber⟩
    rw [← hnew]
    exact hfresh.symm
  | false =>
    rw [hcase] at hnumber hversion
    have hsame : p.number = c.policy.number := Except.ok.inj hnumber
    have hkept : p.version = c.policy.version := Except.ok.inj hversion
    exact ⟨iff_of_false (fun hne => hne hkept.symm) Bool.false_ne_true,
      iff_of_false (fun hne => hne hsame.symm) Bool.false_ne_true, fun hne => absurd hsame.symm hne⟩

theorem Applied.kept (h : Applied tz env (some p) a c)
    (hinput : ∀ d enabled, a.input ≠ .put d enabled) :
    c.policy.definition.action = p.definition.action ∧
      c.policy.executionBinding = p.executionBinding := by
  obtain ⟨d, hrequested, hdefinition⟩ := h.definition
  rw [hdefinition, h.binding]
  cases hcase : a.input with
  | put d enabled => exact absurd hcase (hinput d enabled)
  | enable | disable =>
    rw [hcase] at hrequested
    obtain rfl := (Prod.mk.inj (Except.ok.inj hrequested)).1
    exact ⟨rfl, rfl⟩
  | archive =>
    rw [hcase] at hrequested
    obtain ⟨q, hq, hrequested⟩ := of_bind hrequested
    rw [orNotFound_eq_ok] at hq
    obtain rfl := Option.some.inj hq
    obtain ⟨-, hrequested⟩ := of_check hrequested
    obtain rfl := (Prod.mk.inj (Except.ok.inj hrequested)).1
    exact ⟨rfl, rfl⟩

theorem Applied.archived (h : Applied tz env old a c) (hstate : c.policy.state = .archived) :
    ∃ p, old = some p ∧ p.state = .disabled := by
  obtain ⟨d, hrequested, -⟩ := h.definition
  rw [hstate] at hrequested
  cases hcase : a.input with
  | put _ enabled =>
    rw [hcase] at hrequested
    have hnot := (Prod.mk.inj (Except.ok.inj hrequested)).2
    cases enabled <;> cases hnot
  | enable | disable =>
    rw [hcase] at hrequested
    obtain ⟨q, -, hrequested⟩ := of_bind hrequested
    cases (Prod.mk.inj (Except.ok.inj hrequested)).2
  | archive =>
    rw [hcase] at hrequested
    obtain ⟨q, hq, hrequested⟩ := of_bind hrequested
    obtain ⟨hdisabled, -⟩ := of_check hrequested
    refine ⟨q, orNotFound_eq_ok.mp hq, ?_⟩
    by_contra hne
    simp [Policy.requireDisabled, hne, Policy.conflict] at hdisabled

section

variable (tz env)

def Attempt.after (old : Option (Policy Login Windows)) (a : Attempt Login Windows) :
    Option (Policy Login Windows) :=
  match a.applyTo tz env old with
  | .ok c => some c.policy
  | .error _ => old

def acceptedFrom (old : Option (Policy Login Windows)) :
    List (Attempt Login Windows) → List (Attempt Login Windows)
  | [] => []
  | a :: attempts =>
    match a.applyTo tz env old with
    | .ok c => a :: acceptedFrom (some c.policy) attempts
    | .error _ => acceptedFrom old attempts

def run (attempts : List (Attempt Login Windows)) : Option (Policy Login Windows) :=
  attempts.foldl (Attempt.after tz env) none

def accepted (attempts : List (Attempt Login Windows)) : List (Attempt Login Windows) :=
  acceptedFrom tz env none attempts

end

theorem run_sound_from (hsound : Sound tz env writes old)
    (attempts : List (Attempt Login Windows)) :
    Sound tz env (writes + (acceptedFrom tz env old attempts).length)
        (attempts.foldl (Attempt.after tz env) old) ∧
      (acceptedFrom tz env old attempts).map (fun a => a.expected.toNat) =
        List.range' writes (acceptedFrom tz env old attempts).length := by
  induction attempts generalizing writes old with
  | nil => exact ⟨by simpa [acceptedFrom] using hsound, by simp [acceptedFrom]⟩
  | cons a attempts ih =>
    simp only [List.foldl_cons, Attempt.after, acceptedFrom]
    cases happly : a.applyTo tz env old with
    | error => exact ih hsound
    | ok c =>
      have happlied : Applied tz env old a c := applied_of_ok happly
      have hcurrent : a.expected.toNat = writes := by
        rw [← happlied.expected, hsound.currentRevision]
      obtain ⟨hnext, hexpected⟩ := ih (hsound.apply happlied)
      refine ⟨?_, ?_⟩
      · have hcount : writes + (acceptedFrom tz env (some c.policy) attempts).length.succ =
            writes + 1 + (acceptedFrom tz env (some c.policy) attempts).length := by omega
        simp only [List.length_cons]
        rw [hcount]
        exact hnext
      · simp only [List.map_cons, List.length_cons, List.range'_succ, hexpected, hcurrent]

/-- What a successful write may change. -/
structure Advances (env : Serializers Login Windows) (p : Policy Login Windows)
    (a : Attempt Login Windows) (next : Policy Login Windows) : Prop where
  unarchived : p.state ≠ .archived
  archived : next.state = .archived → p.state = .disabled
  version : next.version ≠ p.version ↔ boundSemantic env next.definition next.executionBinding ≠
    boundSemantic env p.definition p.executionBinding
  number : next.number ≠ p.number ↔ boundSemantic env next.definition next.executionBinding ≠
    boundSemantic env p.definition p.executionBinding
  byOne : next.number ≠ p.number → next.number.val = p.number.val + 1
  enablement : (∀ d enabled, a.input ≠ .put d enabled) →
    next.version = p.version ∧ next.number = p.number
  sameExecution : ∀ rollout, next.definition.action = p.definition.action.setRollout rollout →
    next.executionBinding = p.executionBinding → next.version = p.version ∧ next.number = p.number

theorem Applied.advances (h : Applied tz env (some p) a c) : Advances env p a c.policy := by
  obtain ⟨hversion, hnumber, hone⟩ := h.version_iff
  -- equal digests keep both the version and the number
  have hsame : boundSemantic env c.policy.definition c.policy.executionBinding =
      boundSemantic env p.definition p.executionBinding →
      c.policy.version = p.version ∧ c.policy.number = p.number := by
    intro heq
    exact ⟨not_not.mp fun hne => hversion.mp hne heq, not_not.mp fun hne => hnumber.mp hne heq⟩
  refine ⟨h.unarchived p rfl, ?_, hversion, hnumber, hone, ?_, ?_⟩
  · intro harchived
    obtain ⟨q, hq, hdisabled⟩ := h.archived harchived
    rwa [Option.some.inj hq]
  · intro hinput
    obtain ⟨haction, hbinding⟩ := h.kept hinput
    apply hsame
    simp only [boundSemantic, Definition.semantic, haction, hbinding]
  · intro rollout haction hbinding
    apply hsame
    rw [hbinding, boundSemantic_congr haction]

/-- Every configuration history: what the aggregate satisfies, that a revision has one winner, and
what the next successful write may change. -/
theorem policy_configuration_history (tz : TimeZones Zone) (env : Serializers Login Windows)
    (attempts : List (Attempt Login Windows)) :
    Sound tz env (accepted tz env attempts).length (run tz env attempts) ∧
    ((accepted tz env attempts).map fun a => a.expected).Nodup ∧
    (∀ a : Attempt Login Windows, a.expected.toNat ≠ (accepted tz env attempts).length →
      ∀ c, a.applyTo tz env (run tz env attempts) ≠ .ok c) ∧
    (∀ (a : Attempt Login Windows) c, a.applyTo tz env (run tz env attempts) = .ok c →
      match run tz env attempts with
      | some p => Advances env p a c.policy
      | none => c.policy.state ≠ .archived ∧ c.policy.number.val = 1) := by
  have hstart : Sound tz env 0 (none : Option (Policy Login Windows)) := rfl
  obtain ⟨hsound, hexpected⟩ := run_sound_from hstart attempts
  rw [Nat.zero_add] at hsound
  refine ⟨hsound, ?_, ?_, ?_⟩
  · have hnodup : ((accepted tz env attempts).map fun a => a.expected.toNat).Nodup := by
      rw [accepted, hexpected]
      exact List.nodup_range'
    have hmap : ((accepted tz env attempts).map fun a => a.expected.toNat) =
        ((accepted tz env attempts).map fun a => a.expected).map UInt64.toNat := by
      simp [List.map_map, Function.comp_def]
    rw [hmap] at hnodup
    exact List.Nodup.of_map _ hnodup
  · intro a hne c happly
    have hcurrent : Policy.currentRevision (run tz env attempts) = a.expected.toNat :=
      (applied_of_ok happly).expected
    have hwrites : Policy.currentRevision (run tz env attempts) = (accepted tz env attempts).length :=
      hsound.currentRevision
    exact hne (hcurrent.symm.trans hwrites)
  · intro a c happly
    cases hrun : run tz env attempts with
    | some =>
      rw [hrun] at happly
      exact (applied_of_ok happly).advances
    | none =>
      rw [hrun] at happly
      have happlied : Applied tz env none a c := applied_of_ok happly
      refine ⟨?_, ?_⟩
      · intro harchived
        obtain ⟨p, hp, -⟩ := happlied.archived harchived
        cases hp
      · obtain ⟨hpos, hle⟩ := hstart.number_bounds happlied.number
        omega

end RssMdm.Policy
