/- module: BrewSource/Publication
   source: crates/brew-source/src/git.rs
   digest: What publishing and withdrawing report is true of the references, whatever runs next to them. -/

import RssMdm.BrewSource.Git

set_option autoImplicit false

namespace RssMdm.BrewSource

open Lib.Interleaving
open List (isChain_cons_cons mem_cons_of_mem mem_cons_self)

section

def headOf : List Swap → Option CommitId
  | [] => none
  | swap :: _ => some swap.change.target

/-- Every change took over the head that it was prepared for, and made another one. -/
def Chained : List Swap → Prop
  | [] => True
  | swap :: older =>
      swap.change.base = headOf older ∧ swap.change.base ≠ some swap.change.target ∧ Chained older

structure Sound (s : Store) : Prop where
  head : s.main = headOf s.swaps
  chained : Chained s.swaps
  named : ∀ target id, s.namespaceRef target = some id →
    id = target ∧ ∃ swap ∈ s.swaps, swap.change.target = target

inductive Moved (job : Nat → Job) (id : Nat) (s : Store) : Store → Prop
  | stays : Moved job id s s
  | publishes {handle : Repository} {p : Prepared} {refs : Refs} (is : job id = .apply handle p)
      (differs : p.base ≠ some p.target) (swapped : s.refs.transact (updateRef p) = some refs) :
      Moved job id s ⟨refs, ⟨id, p⟩ :: s.swaps⟩
  | withdraws {target : CommitId} {refs : Refs} (is : job id = .withdraw target)
      (swapped : s.refs.transact [⟨.snapshot target, some target, none⟩] = some refs) :
      Moved job id s ⟨refs, s.swaps⟩

variable {job : Nat → Job} {id : Nat} {s s' : Store} {refs : Refs} {p : Prepared} {target : CommitId}

theorem transact_publish {before : Refs} (swapped : before.transact (updateRef p) = some refs) :
    before .main = p.base ∧ refs .main = some p.target ∧
      ∀ t, refs (.snapshot t) =
        if p.snapshot = true ∧ t = p.target then some p.target else before (.snapshot t) := by
  rw [Refs.transact] at swapped
  split at swapped
  · rename_i agree
    cases swapped
    cases kind : p.snapshot with
    | false =>
      simp only [updateRef, kind, Bool.false_eq_true, if_false, List.all_cons, List.all_nil, Bool.and_true,
        decide_eq_true_eq] at agree ⊢
      exact ⟨agree, by simp, fun t => by simp⟩
    | true =>
      simp only [updateRef, kind, if_true, List.all_cons, List.all_nil, Bool.and_true, Bool.and_eq_true,
        decide_eq_true_eq] at agree ⊢
      refine ⟨agree.1, by simp, fun t => ?_⟩
      by_cases same : t = p.target
      · simp [same]
      · simp [same, Ne.symm same]
  · cases swapped

theorem transact_withdraw {before : Refs}
    (swapped : before.transact [⟨.snapshot target, some target, none⟩] = some refs) :
    refs .main = before .main ∧ refs (.snapshot target) = none ∧
      ∀ t, t ≠ target → refs (.snapshot t) = before (.snapshot t) := by
  rw [Refs.transact] at swapped
  split at swapped
  · cases swapped
    exact ⟨by simp, by simp, fun t other => by simp [Ne.symm other]⟩
  · cases swapped

theorem Sound.swapped (sound : Sound s) {t : CommitId} (head : s.main = some t) :
    ∃ swap ∈ s.swaps, swap.change.target = t := by
  rw [sound.head] at head
  cases listed : s.swaps with
  | nil =>
    rw [listed] at head
    cases head
  | cons swap =>
    rw [listed] at head
    exact ⟨swap, .head _, Option.some.inj head⟩

theorem Sound.empty : Sound Store.empty where
  head := rfl
  chained := trivial
  named := fun _ _ there => by cases there

theorem Sound.moved (sound : Sound s) (moved : Moved job id s s') : Sound s' := by
  cases moved with
  | stays => exact sound
  | @publishes handle p refs is differs swapped =>
    obtain ⟨base, head, named⟩ := transact_publish swapped
    refine ⟨head, ⟨base.symm.trans sound.head, differs, sound.chained⟩, ?_⟩
    intro t found there
    change refs (.snapshot t) = some found at there
    rw [named] at there
    split at there
    · rename_i own
      cases there
      exact ⟨own.2.symm, _, .head _, own.2.symm⟩
    · obtain ⟨same, swap, mem, made⟩ := sound.named t found there
      exact ⟨same, swap, .tail _ mem, made⟩
  | @withdraws target refs _ swapped =>
    obtain ⟨head, gone, others⟩ := transact_withdraw swapped
    refine ⟨head.trans sound.head, sound.chained, ?_⟩
    intro t found there
    change refs (.snapshot t) = some found at there
    by_cases own : t = target
    · rw [own, gone] at there
      cases there
    · rw [others t own] at there
      exact sound.named t found there

end

section

variable {job : Nat → Job} {id : Nat} {seen seen' : List Store} {s : Store} {t : CommitId}

/-- Each of the stores, latest first, came out of the one after it. -/
def Path (job : Nat → Job) (seen : List Store) : Prop :=
  seen.IsChain fun newer older => ∃ j, Moved job j older newer

theorem Path.later (path : Path job seen) (later : Later (Others (Moved job) id) seen seen') :
    Path job seen' := by
  induction later with
  | refl => exact path
  | step _ moved ih =>
    obtain ⟨j, -, moved⟩ := moved
    exact isChain_cons_cons.mpr ⟨⟨j, moved⟩, ih⟩

theorem Path.again (path : Path job (s :: seen)) : Path job (s :: s :: seen) :=
  isChain_cons_cons.mpr ⟨⟨0, .stays⟩, path⟩

/-- The target became the head while the call ran. -/
def SwappedIn (seen : List Store) (t : CommitId) (snapshot : Bool) : Prop :=
  ∃ before ∈ seen, ∃ after ∈ seen, ∃ swap, after.swaps = swap :: before.swaps ∧
    swap.change.target = t ∧ swap.change.snapshot = snapshot

/-- The reference of a snapshot was there while the call ran. -/
def Present (seen : List Store) (t : CommitId) : Prop := ∃ s ∈ seen, s.namespaceRef t = some t

theorem Path.arrived (path : Path job (s :: seen)) (head : s.main = some t) :
    Present (s :: seen) t ∨ (∃ first ∈ (s :: seen).getLast?, first.main = some t) ∨
      SwappedIn (s :: seen) t false := by
  induction seen generalizing s with
  | nil => exact .inr (.inl ⟨s, rfl, head⟩)
  | cons older rest ih =>
    obtain ⟨⟨j, moved⟩, path⟩ := isChain_cons_cons.mp path
    have earlier : older.main = some t →
        Present (s :: older :: rest) t ∨ (∃ first ∈ (s :: older :: rest).getLast?, first.main = some t) ∨
          SwappedIn (s :: older :: rest) t false := by
      intro head
      rcases ih path head with ⟨there, mem, named⟩ | first | ⟨before, mem, after, mem', swapped⟩
      · exact .inl ⟨there, .tail _ mem, named⟩
      · exact .inr (.inl first)
      · exact .inr (.inr ⟨before, .tail _ mem, after, .tail _ mem', swapped⟩)
    cases moved with
    | stays => exact earlier head
    | @withdraws _ _ _ swapped => exact earlier ((transact_withdraw swapped).1.symm.trans head)
    | @publishes _ p _ _ _ swapped =>
      obtain ⟨-, made, named⟩ := transact_publish swapped
      obtain rfl : p.target = t := Option.some.inj (made.symm.trans head)
      cases kind : p.snapshot with
      | true => exact .inl ⟨_, .head _, (named p.target).trans (if_pos ⟨kind, rfl⟩)⟩
      | false =>
        exact .inr (.inr ⟨older, .tail _ (.head _), _, .head _, _,
          rfl, rfl, kind⟩)

end

section

variable {job : Nat → Job} {id : Nat} {seen : List Store} {target : CommitId}

/-- What a call may rely on, and must keep. -/
abbrev Keeps {α : Type} (job : Nat → Job) (id : Nat) (post : Except Error α → List Store → Prop)
    (program : Program α) (seen : List Store) : Prop :=
  program.Meets Sound (Others (Moved job) id) (Moved job id) post seen

theorem head_keeps {post : Except Error (Option CommitId) → List Store → Prop} (path : Path job seen)
    (read : ∀ s rest, Sound s → Path job (s :: rest) →
      post (.ok s.main) (s :: rest) ∧ ∀ e, e.provider = true → post (.error e) (s :: rest)) :
    Keeps job id post head seen := by
  intro s rest answer s' later sound took
  have here := path.later later
  rcases took with ⟨rfl, rfl⟩ | ⟨rfl, e, rfl, known⟩
  · exact ⟨.stays, (read s' _ sound here.again).1⟩
  · exact ⟨.stays, (read s' _ sound here.again).2 e known⟩

theorem snapshotExists_keeps {post : Except Error Bool → List Store → Prop} (path : Path job seen)
    (read : ∀ s rest, Sound s → Path job (s :: rest) →
      (s.namespaceRef target = some target → post (.ok true) (s :: rest)) ∧
      (s.namespaceRef target = none → post (.ok false) (s :: rest)) ∧
      ∀ e, e.provider = true → post (.error e) (s :: rest)) :
    Keeps job id post (snapshotExists target) seen := by
  intro s rest answer s' later sound took
  have here := path.later later
  rcases took with ⟨rfl, found, named, rfl⟩ | ⟨rfl, absent, rfl⟩ | ⟨⟨rfl, e, rfl, known⟩, other⟩
  · obtain ⟨same, -⟩ := sound.named target found named
    subst same
    refine ⟨.stays, ?_⟩
    simp only [decide_true]
    exact (read s' _ sound here.again).1 named
  · exact ⟨.stays, (read s' _ sound here.again).2.1 absent⟩
  · refine ⟨.stays, ?_⟩
    have told := (read s' _ sound here.again).2.2 e known
    simp only
    split
    · rename_i same
      cases same
    · rename_i same
      cases same
    · rename_i same
      exact absurd same other
    · rename_i same
      cases same
      exact told

theorem updateRefs_keeps {α : Type} {post : Except Error α → List Store → Prop} {edits : List Edit}
    {swap : Option Swap} {next : Answer → Program α} (path : Path job seen)
    (moved : ∀ s refs, s.refs.transact edits = some refs → Moved job id s ⟨refs, swap.toList ++ s.swaps⟩)
    (swapped : ∀ s refs rest, s.refs.transact edits = some refs → Sound s →
      Path job (⟨refs, swap.toList ++ s.swaps⟩ :: s :: rest) →
      Keeps job id post (next (.ok none)) (⟨refs, swap.toList ++ s.swaps⟩ :: s :: rest))
    (lost : ∀ s rest e, Sound s → Path job (s :: rest) → Keeps job id post (next (.error e)) (s :: rest)) :
    Keeps job id post (.act (updateRefs edits swap) next) seen := by
  intro s rest answer s' later sound took
  have here := path.later later
  rcases took with ⟨refs, transacted, rfl, rfl | ⟨e, rfl, -⟩⟩ | ⟨rfl, e, rfl, -⟩
  · have step := moved s refs transacted
    exact ⟨step, swapped s refs rest transacted sound (isChain_cons_cons.mpr ⟨⟨id, step⟩, here⟩)⟩
  · have step := moved s refs transacted
    exact ⟨step, lost _ _ e (sound.moved step) (isChain_cons_cons.mpr ⟨⟨id, step⟩, here⟩)⟩
  · exact ⟨.stays, lost _ _ e sound here.again⟩

end

section

variable {job : Nat → Job} {id : Nat} {seen : List Store} {p : Prepared} {target : CommitId}

/-- The update of the call is among the changes of main. -/
def TookEffect (now : Store) (id : Nat) (p : Prepared) : Prop := ⟨id, p⟩ ∈ now.swaps

/-- What a result tells about the stores that the call saw, the last of them the one it returned at. -/
def Told (id : Nat) (p : Prepared) (result : Except Error PublishResult) (seen : List Store) : Prop :=
  match result with
  | .ok .applied =>
      (∃ now ∈ seen.head?, TookEffect now id p) ∧ (p.snapshot = true → Present seen p.target)
  | .ok .alreadyApplied =>
      (∃ now ∈ seen.head?, ∃ swap ∈ now.swaps, swap.change.target = p.target) ∧
        (p.snapshot = true → Present seen p.target ∨
          (∃ first ∈ seen.getLast?, first.main = some p.target) ∨ SwappedIn seen p.target false)
  | .error .conflict =>
      ∃ now ∈ seen.head?, now.main ≠ p.base ∧ now.main ≠ some p.target ∧
        ∀ newer older, now.swaps = newer ++ ⟨id, p⟩ :: older → newer ≠ []
  | _ => True

theorem told_provider {e : Error} (known : e.provider = true) : Told id p (.error e) seen := by
  cases e <;> trivial

theorem told_target {s : Store} {rest : List Store} (sound : Sound s) (path : Path job (s :: rest))
    (head : s.main = some p.target) : Told id p (.ok .alreadyApplied) (s :: rest) :=
  ⟨⟨s, rfl, sound.swapped head⟩, fun _ => path.arrived head⟩

theorem told_conflict {s : Store} {rest : List Store} (sound : Sound s) (target : s.main ≠ some p.target)
    (base : s.main ≠ p.base) : Told id p (.error .conflict) (s :: rest) := by
  refine ⟨s, rfl, base, target, ?_⟩
  rintro newer older listed rfl
  rw [sound.head, listed] at target
  exact target rfl

theorem readBack_keeps (path : Path job seen) : Keeps job id (Told id p) (readBack p) seen := by
  refine Prog.meets_bind (head_keeps path fun s rest sound path => ⟨?_, fun e _ => trivial⟩)
  simp only
  split
  · rename_i head
    exact told_target sound path head
  rename_i target
  split
  · rename_i base
    exact told_conflict sound target base
  · trivial

variable {handle : Repository}

theorem swapHead_keeps (is : job id = .apply handle p) (differs : p.base ≠ some p.target)
    (path : Path job seen) : Keeps job id (Told id p) (swapHead id p) seen := by
  refine updateRefs_keeps path (fun s refs swapped => .publishes is differs swapped) ?_ ?_
  · intro s refs rest swapped sound path
    obtain ⟨-, -, named⟩ := transact_publish swapped
    refine ⟨⟨_, rfl, .head _⟩, fun kind => ⟨_, .head _, ?_⟩⟩
    exact (named p.target).trans (if_pos ⟨kind, rfl⟩)
  · intro s rest e sound path
    exact readBack_keeps path

theorem applyHead_keeps (is : job id = .apply handle p) (path : Path job seen) :
    Keeps job id (Told id p) (applyHead id p) seen := by
  refine Prog.meets_bind (head_keeps path fun s rest sound path => ⟨?_, fun e known => told_provider known⟩)
  simp only
  split
  · rename_i head
    exact told_target sound path head
  rename_i target
  split
  · rename_i base
    exact told_conflict sound target base
  · rename_i base
    have differs : p.base ≠ some p.target := fun same => target ((not_not.mp base).trans same)
    exact swapHead_keeps is differs path

theorem apply_keeps (is : job id = .apply handle p) (path : Path job seen) :
    Keeps job id (Told id p) (apply id handle p) seen := by
  rw [apply]
  split
  · rename_i e refused
    have known : Told id p (.error e) seen := by
      simp only [Repository.prepared, Repository.checkDocument] at refused
      split_ifs at refused <;> cases refused <;> trivial
    exact known
  · split
    · refine Prog.meets_bind (snapshotExists_keeps path fun s rest sound path =>
        ⟨fun there => ?_, fun _ => applyHead_keeps is path, fun e known => told_provider known⟩)
      obtain ⟨-, swap, mem, made⟩ := sound.named _ _ there
      exact ⟨⟨s, rfl, swap, mem, made⟩, fun _ => .inl ⟨s, .head _, there⟩⟩
    · exact applyHead_keeps is path

/-- A withdrawal that returns saw its reference gone. -/
def Gone (target : CommitId) (result : Except Error Unit) (seen : List Store) : Prop :=
  result = .ok () → ∃ s ∈ seen, s.namespaceRef target = none

theorem withdrawSnapshot_keeps (is : job id = .withdraw target) (path : Path job seen) :
    Keeps job id (Gone target) (withdrawSnapshot target) seen := by
  refine Prog.meets_bind (snapshotExists_keeps path fun s rest sound path =>
    ⟨fun there => ?_, fun absent _ => ⟨s, .head _, absent⟩, fun e _ failed => (nomatch failed)⟩)
  refine updateRefs_keeps path (fun s refs swapped => .withdraws is swapped) ?_ ?_
  · intro s refs rest swapped sound path _
    exact ⟨_, .head _, (transact_withdraw swapped).2.1⟩
  · intro s rest e sound path
    exact Prog.meets_bind (snapshotExists_keeps path fun s rest sound path =>
      ⟨fun there failed => (nomatch failed), fun absent _ => ⟨s, .head _, absent⟩,
        fun e _ failed => (nomatch failed)⟩)

end

section

variable {job : Nat → Job} {w : World Store Answer (Except Error Reply)}

def Reported (job : Nat → Job) (id : Nat) (reply : Except Error Reply) (seen : List Store) : Prop :=
  match job id with
  | .apply _ p => ∃ result : Except Error PublishResult, reply = result.map .published ∧ Told id p result seen
  | .withdraw target =>
      ∃ result : Except Error Unit, (reply = result.map fun _ => .withdrawn) ∧ Gone target result seen

theorem program_keeps (job : Nat → Job) (id : Nat) (s : Store) :
    Keeps job id (Reported job id) (Job.program job id) [s] := by
  have path : Path job [s] := .singleton s
  rw [Job.program]
  split
  · rename_i handle p is
    refine Prog.meets_bind ((apply_keeps is path).weaken fun result seen told => ?_)
    change Reported job id _ seen
    rw [Reported, is]
    exact ⟨result, rfl, told⟩
  · rename_i target is
    refine Prog.meets_bind ((withdrawSnapshot_keeps is path).weaken fun result seen gone => ?_)
    change Reported job id _ seen
    rw [Reported, is]
    exact ⟨result, rfl, gone⟩

/-- The worlds that calls of the jobs lead to in a fresh repository. -/
abbrev Runs (job : Nat → Job) (w : World Store Answer (Except Error Reply)) : Prop :=
  Reachable (Job.program job) Store.empty w

theorem Runs.ready (run : Runs job w) : Ready Sound (Moved job) (Reported job) w :=
  .of_reachable Sound.empty (fun _ _ _ sound moved => sound.moved moved)
    (fun id s _ => program_keeps job id s) run

theorem Chained.returns {newer between older : List Swap} {first second : Swap}
    (chained : Chained (newer ++ second :: (between ++ first :: older)))
    (same : second.change.base = first.change.base) :
    ∃ back ∈ between, some back.change.target = first.change.base := by
  induction newer with
  | cons _ _ ih => exact ih chained.2.2
  | nil =>
    obtain ⟨taken, -, rest⟩ := chained
    cases between with
    | nil =>
      rw [same] at taken
      exact absurd taken rest.2.1
    | cons back => exact ⟨back, .head _, by rw [← same, taken]; rfl⟩

/-- In every run: main moves from the base of a change to its target, once for each time that it holds
the base, and what the calls return is true of the references that they saw. -/
theorem publications_truthful (run : Runs job w) :
    (∀ id w', Step (Job.program job) id w w' →
      (w'.shared.main = w.shared.main ∧ w'.shared.swaps = w.shared.swaps) ∨
        ∃ handle p, job id = .apply handle p ∧ w.shared.main = p.base ∧ p.base ≠ some p.target ∧
          w'.shared.main = some p.target ∧ w'.shared.swaps = ⟨id, p⟩ :: w.shared.swaps) ∧
    (∀ newer second between first older,
      w.shared.swaps = newer ++ second :: (between ++ first :: older) →
      second.change.base = first.change.base →
      ∃ back ∈ between, some back.change.target = first.change.base) ∧
    (∀ id handle p call result, job id = .apply handle p → w.calls id = some call →
      call.left = .done (Except.map .published result) → Told id p result call.seen) ∧
    (∀ id target call, job id = .withdraw target → w.calls id = some call →
      call.left = .done (.ok .withdrawn) → ∃ s ∈ call.seen, s.namespaceRef target = none) ∧
    (∀ id target w', job id = .withdraw target → Step (Job.program job) id w w' →
      w'.shared.main = w.shared.main ∧
        ∀ other, other ≠ target → w'.shared.namespaceRef other = w.shared.namespaceRef other) := by
  have ready := run.ready
  have moves : ∀ id w', Step (Job.program job) id w w' → Moved job id w.shared w'.shared := by
    intro id w' step
    rcases (ready.step (fun _ _ _ sound moved => sound.moved moved)
      (fun id s _ => program_keeps job id s) step).1 with same | moved
    · rw [same]
      exact .stays
    · exact moved
  refine ⟨?_, ?_, ?_, ?_, ?_⟩
  · intro id w' step
    generalize w'.shared = after, moves id w' step = moved
    cases moved with
    | stays => exact .inl ⟨rfl, rfl⟩
    | withdraws _ swapped => exact .inl ⟨(transact_withdraw swapped).1, rfl⟩
    | @publishes handle p _ is differs swapped =>
      obtain ⟨base, made, -⟩ := transact_publish swapped
      exact .inr ⟨handle, p, is, base, differs, made, rfl⟩
  · intro newer second between first older listed same
    exact Chained.returns (listed ▸ ready.sound.chained) same
  · intro id handle p call result is here left
    have told := ready.returned here left
    rw [Reported, is] at told
    obtain ⟨result', same, told⟩ := told
    have equal : result = result' := by
      cases result <;> cases result' <;> cases same <;> rfl
    exact equal ▸ told
  · intro id target call is here left
    have told := ready.returned here left
    rw [Reported, is] at told
    obtain ⟨result, same, gone⟩ := told
    cases result with
    | error => cases same
    | ok => exact gone rfl
  · intro id target w' is step
    generalize w'.shared = after, moves id w' step = moved
    cases moved with
    | stays => exact ⟨rfl, fun _ _ => rfl⟩
    | publishes is' => rw [is] at is'; cases is'
    | @withdraws _ _ is' swapped =>
      rw [is] at is'
      cases is'
      obtain ⟨head, -, others⟩ := transact_withdraw swapped
      exact ⟨head, others⟩

end

namespace Sample

def first : CommitId := ⟨"1111111111111111111111111111111111111111", by decide⟩

def second : CommitId := ⟨"2222222222222222222222222222222222222222", by decide⟩

def repository : Repository := ⟨"/tap.git", 5, "acme/private"⟩

def founding : Prepared := ⟨true, "/tap.git", 5, "acme/private", none, first, ⟨5, "acme/private"⟩⟩

def following : Prepared := ⟨false, "/tap.git", 5, "acme/private", some first, second, ⟨5, "acme/private"⟩⟩

def job : Nat → Job
  | 0 => .apply repository founding
  | 1 => .apply repository following
  | 2 => .withdraw first
  | _ => .apply repository founding

/-- The second call builds on the first one while the answer of the first update is lost. -/
theorem publications_truthful_following :
    ∃ w call, Runs job w ∧ w.calls 1 = some call ∧ Told 1 following (.ok .applied) call.seen := by
  have r0 : Runs job ⟨Store.empty, fun _ => none⟩ := .refl
  have r1 := r0.start 0 rfl
  have r2 := r1.act 0 rfl rfl (.inr (.inl ⟨rfl, rfl, rfl⟩))
  have r3 := r2.act 0 rfl rfl (.inl ⟨rfl, rfl⟩)
  have r4 := r3.act 0 rfl rfl (.inl ⟨_, rfl, rfl, .inr ⟨.gitTimeout, rfl, rfl⟩⟩)
  have r5 := r4.start 1 rfl
  have r6 := r5.act 1 rfl rfl (.inl ⟨rfl, rfl⟩)
  have r7 := r6.act 1 rfl rfl (.inl ⟨_, rfl, rfl, .inl rfl⟩)
  exact ⟨_, _, r7, rfl, (publications_truthful r7).2.2.1 1 repository following _ (.ok .applied) rfl rfl rfl⟩

/-- A call whose update took effect returns a conflict, once another change has followed; and a change
that is applied again after its withdrawal is reported as applied without its reference. -/
theorem reports_can_mislead :
    (∃ w call, Runs job w ∧ w.calls 0 = some call ∧ call.left = .done (.error .conflict) ∧
      ∃ now ∈ call.seen.head?, TookEffect now 0 founding) ∧
    (∃ w call, Runs job w ∧ w.calls 3 = some call ∧ founding.snapshot = true ∧
      call.left = .done (.ok (.published .alreadyApplied)) ∧
      ∀ s ∈ call.seen, s.namespaceRef founding.target = none) := by
  have r0 : Runs job ⟨Store.empty, fun _ => none⟩ := .refl
  have r1 := r0.start 0 rfl
  have r2 := r1.act 0 rfl rfl (.inr (.inl ⟨rfl, rfl, rfl⟩))
  have r3 := r2.act 0 rfl rfl (.inl ⟨rfl, rfl⟩)
  constructor
  · have r4 := r3.act 0 rfl rfl (.inl ⟨_, rfl, rfl, .inr ⟨.gitTimeout, rfl, rfl⟩⟩)
    have r5 := r4.start 1 rfl
    have r6 := r5.act 1 rfl rfl (.inl ⟨rfl, rfl⟩)
    have r7 := r6.act 1 rfl rfl (.inl ⟨_, rfl, rfl, .inl rfl⟩)
    have r8 := r7.act 0 rfl rfl (.inl ⟨rfl, rfl⟩)
    exact ⟨_, _, r8, rfl, rfl, _, rfl, by simp [TookEffect]⟩
  · have r4 := r3.act 0 rfl rfl (.inl ⟨_, rfl, rfl, .inl rfl⟩)
    have r5 := r4.start 2 rfl
    have r6 := r5.act 2 rfl rfl (.inl ⟨rfl, _, rfl, rfl⟩)
    have r7 := r6.act 2 rfl rfl (.inl ⟨_, rfl, rfl, .inl rfl⟩)
    have r8 := r7.start 3 rfl
    have r9 := r8.act 3 rfl rfl (.inr (.inl ⟨rfl, rfl, rfl⟩))
    have r10 := r9.act 3 rfl rfl (.inl ⟨rfl, rfl⟩)
    refine ⟨_, _, r10, rfl, rfl, rfl, ?_⟩
    intro s mem
    rcases List.mem_cons.mp mem with rfl | mem
    · rfl
    rcases List.mem_cons.mp mem with rfl | mem
    · rfl
    · obtain rfl := List.mem_singleton.mp mem
      rfl

end Sample

end RssMdm.BrewSource
