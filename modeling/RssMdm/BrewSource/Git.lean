/- module: BrewSource/Git
   source: crates/brew-source/src/git.rs, crates/brew-source/src/lib.rs
   digest: The references of a bare repository, and the calls that publish and withdraw through them. -/

import RssMdm.Lib.Interleaving
import RssMdm.Lib.Text

set_option autoImplicit false

namespace RssMdm.BrewSource

open Lib.Interleaving (Prog)
open Lib.Text (Uuid)

def validCommit (s : String) : Bool :=
  s.utf8ByteSize = 40 && s.toList.all (fun c => c.isDigit || ('a' ≤ c && c ≤ 'f')) &&
    !s.toList.all (· = '0')

/-- A commit identity; the all-zero one stands for an absent reference and is none. -/
structure CommitId where
  text : String
  valid : validCommit text = true
deriving DecidableEq

inductive Error where
  | invalidInput | unsupported | duplicate | identityMismatch | tenantMismatch | digestMismatch
  | pathDenied | conflict | notFound | git | gitFailure (exitCode : Option Int) | gitTimeout
  | budgetExceeded | outcomeUnknown
deriving DecidableEq

/-- What running a git command may report. -/
def Error.provider : Error → Bool
  | .invalidInput | .pathDenied | .git | .gitFailure _ | .gitTimeout | .budgetExceeded => true
  | _ => false

structure Document where
  tenant : Uuid
  tap : String
deriving DecidableEq

/-- A prepared commit, bound to its repository and to the head it replaces. -/
structure Prepared where
  snapshot : Bool
  repository : String
  tenant : Uuid
  tap : String
  base : Option CommitId
  target : CommitId
  document : Document
deriving DecidableEq

inductive PublishResult where
  | applied | alreadyApplied
deriving DecidableEq

structure Repository where
  path : String
  tenant : Uuid
  tap : String
deriving DecidableEq

/-- `refs/heads/main`, and `refs/namespaces/{target}/refs/heads/main` of a snapshot. -/
inductive RefName where
  | main | snapshot (target : CommitId)
deriving DecidableEq

abbrev Refs := RefName → Option CommitId

structure Edit where
  name : RefName
  old : Option CommitId
  new : Option CommitId

def Refs.transact (refs : Refs) (edits : List Edit) : Option Refs :=
  if edits.all (fun e => refs e.name = e.old) then
    some fun name => match edits.find? (fun e => e.name = name) with
      | some e => e.new
      | none => refs name
  else none

/-- A change that became the head, and the call whose update made it. -/
structure Swap where
  caller : Nat
  change : Prepared
deriving DecidableEq

/-- The references, and the changes of main so far, latest first. -/
structure Store where
  refs : Refs
  swaps : List Swap

def Store.main (s : Store) : Option CommitId := s.refs .main

def Store.namespaceRef (s : Store) (target : CommitId) : Option CommitId := s.refs (.snapshot target)

abbrev Answer := Except Error (Option CommitId)

/-- A command that failed without an effect. -/
def Failed (s : Store) (answer : Answer) (s' : Store) : Prop :=
  s' = s ∧ ∃ e, answer = .error e ∧ e.provider = true

/-- `for-each-ref refs/heads/main`. -/
def readMain (s : Store) (answer : Answer) (s' : Store) : Prop :=
  (s' = s ∧ answer = .ok s.main) ∨ Failed s answer s'

/-- `rev-parse --verify --quiet`: the exit code 1 is for an absent reference. -/
def readSnapshot (target : CommitId) (s : Store) (answer : Answer) (s' : Store) : Prop :=
  (s' = s ∧ ∃ id, s.namespaceRef target = some id ∧ answer = .ok (some id)) ∨
    (s' = s ∧ s.namespaceRef target = none ∧ answer = .error (.gitFailure (some 1))) ∨
    (Failed s answer s' ∧ answer ≠ .error (.gitFailure (some 1)))

/-- `update-ref`: swapped at once or not at all; only the answer of a swap may be lost. -/
def updateRefs (edits : List Edit) (swap : Option Swap) (s : Store) (answer : Answer) (s' : Store) : Prop :=
  (∃ refs, s.refs.transact edits = some refs ∧ s' = ⟨refs, swap.toList ++ s.swaps⟩ ∧
    (answer = .ok none ∨ ∃ e, answer = .error e ∧ e.provider = true)) ∨ Failed s answer s'

abbrev Program (α : Type) := Prog Store Answer (Except Error α)

/-- Whether the exact reference of the snapshot is there. -/
def snapshotExists (target : CommitId) : Program Bool :=
  .act (readSnapshot target) fun answer => match answer with
    | .ok (some id) => .done (.ok (id = target))
    | .ok none => .done (.error .git)
    | .error (.gitFailure (some 1)) => .done (.ok false)
    | .error e => .done (.error e)

def head : Program (Option CommitId) := .act readMain .done

/-- The edits that make a change the head; a snapshot gets its reference with them. -/
def updateRef (p : Prepared) : List Edit :=
  if p.snapshot then
    [⟨.main, p.base, some p.target⟩, ⟨.snapshot p.target, none, some p.target⟩]
  else [⟨.main, p.base, some p.target⟩]

def Repository.checkDocument (r : Repository) (doc : Document) : Except Error Unit :=
  if doc.tenant ≠ r.tenant then .error .tenantMismatch
  else if doc.tap ≠ r.tap then .error .identityMismatch
  else .ok ()

def Repository.prepared (r : Repository) (p : Prepared) : Except Error Unit :=
  if p.tenant ≠ r.tenant then .error .tenantMismatch
  else if p.repository ≠ r.path || p.tap ≠ r.tap then .error .identityMismatch
  else r.checkDocument p.document

/-- After a failed update the head tells what became of it, if it can. -/
def readBack (p : Prepared) : Program PublishResult :=
  head.bind fun read => match read with
    | .ok current =>
        if current = some p.target then .done (.ok .alreadyApplied)
        else if current ≠ p.base then .done (.error .conflict)
        else .done (.error .outcomeUnknown)
    | .error _ => .done (.error .outcomeUnknown)

/-- The update itself, recorded as the one of the given call. -/
def swapHead (id : Nat) (p : Prepared) : Program PublishResult :=
  .act (updateRefs (updateRef p) (some ⟨id, p⟩)) fun answer => match answer with
    | .ok _ => .done (.ok .applied)
    | .error _ => readBack p

def applyHead (id : Nat) (p : Prepared) : Program PublishResult :=
  head.bind fun read => match read with
    | .error e => .done (.error e)
    | .ok current =>
        if current = some p.target then .done (.ok .alreadyApplied)
        else if current ≠ p.base then .done (.error .conflict)
        else swapHead id p

def apply (id : Nat) (r : Repository) (p : Prepared) : Program PublishResult :=
  match r.prepared p with
  | .error e => .done (.error e)
  | .ok () =>
      if p.snapshot then
        (snapshotExists p.target).bind fun found => match found with
          | .error e => .done (.error e)
          | .ok true => .done (.ok .alreadyApplied)
          | .ok false => applyHead id p
      else applyHead id p

def withdrawSnapshot (target : CommitId) : Program Unit :=
  (snapshotExists target).bind fun found => match found with
    | .error e => .done (.error e)
    | .ok false => .done (.ok ())
    | .ok true =>
        .act (updateRefs [⟨.snapshot target, some target, none⟩] none) fun answer => match answer with
          | .ok _ => .done (.ok ())
          | .error _ => (snapshotExists target).bind fun found => match found with
              | .error e => .done (.error e)
              | .ok false => .done (.ok ())
              | .ok true => .done (.error .outcomeUnknown)

inductive Job where
  | apply (handle : Repository) (change : Prepared)
  | withdraw (target : CommitId)

inductive Reply where
  | published (result : PublishResult)
  | withdrawn
deriving DecidableEq

/-- The call of a job; the writers of a repository are such calls. -/
def Job.program (job : Nat → Job) (id : Nat) : Program Reply :=
  match job id with
  | .apply handle change => (BrewSource.apply id handle change).bind fun result => .done (result.map .published)
  | .withdraw target => (withdrawSnapshot target).bind fun result => .done (result.map fun _ => .withdrawn)

def Store.empty : Store := ⟨fun _ => none, []⟩

end RssMdm.BrewSource
