/- module: AgentWire/TaskTrust
   source: crates/agent-wire/src/task_trust.rs
   digest: Task-signing trust sets, their checks and the updates an Agent installs. -/

import Mathlib.Data.List.Nodup
import Mathlib.Data.String.Basic
import RssMdm.Lib.Base64
import RssMdm.Lib.Fallible
import RssMdm.Lib.Text

set_option autoImplicit false

namespace RssMdm.AgentWire

open Lib Lib.Fallible
open Lib.Text (Uuid)

inductive WireError where
  | invalidValue
deriving DecidableEq

inductive KeyState where
  | prepared | active | verifyOnly
deriving DecidableEq

structure PublicKey where
  id : String
  publicKey : String
  state : KeyState
deriving DecidableEq

/-- The complete trust of one tenant and service. -/
structure Trust where
  version : Nat
  serviceId : Uuid
  tenant : Uuid
  revision : Nat
  keys : List PublicKey
deriving DecidableEq

def maxKeys : Nat := 16

def maxRevision : Nat := 2 ^ 63 - 1

structure Acknowledgement where
  operation : Uuid
  version : Nat
  registration : Uuid
  generation : Nat
  revision : Nat
  digest : String

def Acknowledgement.validate (a : Acknowledgement) : Except WireError Unit :=
  if a.operation = 0 || a.registration = 0 || a.version ≠ 1 ||
      !(1 ≤ a.generation && a.generation ≤ maxRevision) ||
      !(1 ≤ a.revision && a.revision ≤ maxRevision) || a.digest.utf8ByteSize ≠ 64 ||
      !a.digest.toList.all (fun c => c.isDigit || ('a' ≤ c && c ≤ 'f')) then
    .error .invalidValue
  else .ok ()

def idChar (c : Char) : Bool := c.isAlphanum || c = '.' || c = '_' || c = '-'

/-- One pass of the loop over the keys, with the identities and the material seen before. -/
def checkKeys : List String → List (List UInt8) → List PublicKey → Except WireError Unit
  | _, _, [] => .ok ()
  | ids, publicKeys, key :: keys =>
      if key.id.isEmpty || 128 < key.id.utf8ByteSize || !key.id.toList.all idChar ||
          ids.contains key.id then
        .error .invalidValue
      else
        match Base64.decode key.publicKey.toList with
        | none => .error .invalidValue
        | some decoded =>
            if decoded.length ≠ 32 || String.ofList (Base64.encode decoded) ≠ key.publicKey ||
                publicKeys.contains decoded then
              .error .invalidValue
            else checkKeys (key.id :: ids) (decoded :: publicKeys) keys

/-- Two neighbours out of order. -/
def descends (keys : List PublicKey) : Bool :=
  (keys.zip keys.tail).any (fun pair => pair.2.id ≤ pair.1.id)

def Trust.validate (t : Trust) : Except WireError Unit :=
  if t.version ≠ 1 || t.tenant = 0 || t.serviceId = 0 ||
      !(1 ≤ t.revision && t.revision ≤ maxRevision) ||
      !(1 ≤ t.keys.length && t.keys.length ≤ maxKeys) ||
      t.keys.countP (fun key => key.state = .active) ≠ 1 then
    .error .invalidValue
  else do
    checkKeys [] [] t.keys
    if descends t.keys then .error .invalidValue else .ok ()

def Trust.lookup (t : Trust) (id : String) : Option PublicKey :=
  t.keys.find? (fun key => key.id = id)

/-- Whether a key may go from one state to another, or leave the set. -/
def permitted : KeyState → Option KeyState → Bool
  | .active, some .active | .active, some .verifyOnly => true
  | .prepared, some .prepared | .prepared, some .active | .prepared, none => true
  | .verifyOnly, some .verifyOnly | .verifyOnly, none => true
  | _, _ => false

def checkPrevious (t : Trust) (previous : PublicKey) : Except WireError Unit :=
  let next := t.lookup previous.id
  if next.any (fun key => key.publicKey ≠ previous.publicKey) then .error .invalidValue
  else if permitted previous.state (next.map PublicKey.state) then .ok ()
  else .error .invalidValue

/-- An update against the installed set. -/
def Trust.validateSuccessor (t installed : Trust) : Except WireError Unit := do
  t.validate
  installed.validate
  if t.tenant ≠ installed.tenant || t.serviceId ≠ installed.serviceId ||
      t.revision < installed.revision || (t.revision = installed.revision && t ≠ installed) then
    .error .invalidValue
  else do
    each (checkPrevious t) installed.keys
    if t.keys.any (fun key => !installed.keys.any (fun old => old.id = key.id) &&
        key.state ≠ .prepared) then
      .error .invalidValue
    else .ok ()

variable {t installed : Trust} {id : String} {k : PublicKey}

theorem pairwise_of_ascending {keys : List PublicKey} (h : descends keys = false) :
    keys.Pairwise (fun a b => a.id < b.id) := by
  induction keys with
  | nil => exact List.Pairwise.nil
  | cons a keys ih =>
    cases keys with
    | nil => exact List.pairwise_singleton _ a
    | cons =>
      simp only [descends, List.tail_cons, List.zip_cons_cons, List.any_cons,
        Bool.or_eq_false_iff, decide_eq_false_iff_not, not_le] at h ih
      have later := ih h.2
      refine List.pairwise_cons.mpr ⟨?_, later⟩
      intro c member
      rcases List.mem_cons.mp member with rfl | member
      · exact h.1
      · exact h.1.trans ((List.pairwise_cons.mp later).1 c member)

/-- What a checked set promises. -/
structure Trust.Valid (t : Trust) : Prop where
  tenant : t.tenant ≠ 0
  revision : 1 ≤ t.revision ∧ t.revision ≤ maxRevision
  size : 1 ≤ t.keys.length ∧ t.keys.length ≤ maxKeys
  active : t.keys.countP (fun key => key.state = .active) = 1
  sorted : t.keys.Pairwise (fun a b => a.id < b.id)

theorem validate_valid (h : t.validate = .ok ()) : t.Valid := by
  unfold Trust.validate at h
  obtain ⟨shape, h⟩ := of_guard h
  obtain ⟨-, h⟩ := of_check h
  obtain ⟨order, -⟩ := of_guard h
  simp only [ne_eq, Bool.or_eq_true, decide_eq_true_eq, Bool.not_eq_true', Bool.and_eq_false_imp,
    decide_eq_false_iff_not, not_or, not_not, Classical.not_imp] at shape
  obtain ⟨⟨⟨⟨⟨-, tenant⟩, -⟩, revision⟩, size⟩, active⟩ := shape
  exact ⟨tenant, revision, size, active, pairwise_of_ascending (Bool.not_eq_true _ ▸ order)⟩

theorem Trust.Valid.nodup (valid : t.Valid) : (t.keys.map PublicKey.id).Nodup := by
  refine List.pairwise_map.mpr (valid.sorted.imp ?_)
  intro a b less same
  exact absurd (same ▸ less) (lt_irrefl _)

theorem lookup_eq_some (h : t.lookup id = some k) : k ∈ t.keys ∧ k.id = id := by
  have found := List.find?_some h
  exact ⟨List.mem_of_find?_eq_some h, of_decide_eq_true found⟩

theorem lookup_eq_none : t.lookup id = none ↔ ∀ k ∈ t.keys, k.id ≠ id := by
  unfold Trust.lookup
  simp [List.find?_eq_none]

theorem find_of_mem {keys : List PublicKey} (nodup : (keys.map PublicKey.id).Nodup)
    (member : k ∈ keys) : keys.find? (fun key => key.id = k.id) = some k := by
  induction keys with
  | nil => cases member
  | cons a _ ih =>
    obtain ⟨fresh, nodup⟩ := List.nodup_cons.mp nodup
    rcases List.mem_cons.mp member with rfl | member
    · rw [List.find?_cons_of_pos (by simp)]
    · have other : a.id ≠ k.id := fun same => fresh (same ▸ List.mem_map_of_mem member)
      rw [List.find?_cons_of_neg (by simpa using other)]
      exact ih nodup member

theorem Trust.Valid.lookup (valid : t.Valid) (member : k ∈ t.keys) : t.lookup k.id = some k :=
  find_of_mem valid.nodup member

theorem permitted_of_validateSuccessor (h : t.validateSuccessor installed = .ok ())
    (held : installed.lookup id = some k) :
    permitted k.state ((t.lookup id).map PublicKey.state) = true := by
  obtain ⟨-, h⟩ := of_check h
  obtain ⟨-, h⟩ := of_check h
  obtain ⟨-, h⟩ := of_guard h
  obtain ⟨kept, -⟩ := of_check h
  obtain ⟨member, here⟩ := lookup_eq_some held
  obtain ⟨-, checked⟩ := of_guard (each_eq_ok.mp kept k member)
  rw [here] at checked
  by_contra refused
  rw [if_neg refused] at checked
  cases checked

/-- How one identity may stand in a set and in an update of it. -/
def Carries (old new : Option PublicKey) : Prop :=
  match old, new with
  | some k, some k' => k'.publicKey = k.publicKey ∧ permitted k.state (some k'.state) = true
  | some k, none => permitted k.state none = true
  | none, some k' => k'.state = .prepared
  | none, none => True

theorem carries_refl (k : Option PublicKey) : Carries k k := by
  cases k with
  | none => trivial
  | some key =>
    refine ⟨rfl, ?_⟩
    cases key.state <;> rfl

theorem validateSuccessor_of (valid : t.validate = .ok ()) (valid' : installed.validate = .ok ())
    (tenant : t.tenant = installed.tenant) (service : t.serviceId = installed.serviceId)
    (revision : installed.revision ≤ t.revision)
    (same : t.revision = installed.revision → t = installed)
    (carried : ∀ id, Carries (installed.lookup id) (t.lookup id)) :
    t.validateSuccessor installed = .ok () := by
  have coordinates : ¬(decide (t.tenant ≠ installed.tenant) || decide (t.serviceId ≠ installed.serviceId) ||
      decide (t.revision < installed.revision) ||
      (decide (t.revision = installed.revision) && decide (t ≠ installed))) = true := by
    simp only [tenant, service, ne_eq, not_true_eq_false, decide_false, Bool.or_self, Bool.false_or,
      Bool.or_eq_true, decide_eq_true_eq, Bool.and_eq_true, not_or, not_lt, not_and, not_not]
    exact ⟨revision, same⟩
  have previous : each (checkPrevious t) installed.keys = .ok () := by
    refine each_eq_ok.mpr ?_
    intro k member
    have step := carried k.id
    rw [(validate_valid valid').lookup member] at step
    unfold checkPrevious
    cases next : t.lookup k.id with
    | none =>
      rw [next] at step
      have left : permitted k.state none = true := step
      simp only [Option.any_none, Bool.false_eq_true, if_false, Option.map_none, left, if_true]
    | some k' =>
      rw [next] at step
      have state : permitted k.state (some k'.state) = true := step.2
      simp only [Option.any_some, step.1, ne_eq, not_true_eq_false, decide_false,
        Bool.false_eq_true, if_false, Option.map_some, state, if_true]
  have fresh : ¬(t.keys.any (fun key => !installed.keys.any (fun old => old.id = key.id) &&
      key.state ≠ .prepared)) = true := by
    rw [List.any_eq_true]
    rintro ⟨k, member, fresh⟩
    simp only [Bool.and_eq_true, Bool.not_eq_true', List.any_eq_false, decide_eq_true_eq] at fresh
    have step := carried k.id
    rw [(validate_valid valid).lookup member, lookup_eq_none.mpr fresh.1] at step
    exact fresh.2 step
  rw [Trust.validateSuccessor, valid, ok_bind, valid', ok_bind, if_neg coordinates, previous, ok_bind,
    if_neg fresh]

end RssMdm.AgentWire
