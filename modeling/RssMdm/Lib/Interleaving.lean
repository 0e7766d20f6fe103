/- module: Lib/Interleaving
   generality: library
   digest: Calls that share data run interleaved; a rule of rely and guarantee for what they return. -/

import Mathlib.Data.List.Basic
import Mathlib.Logic.Relation

set_option autoImplicit false

namespace RssMdm.Lib.Interleaving

open Relation

variable {σ ρ α β : Type}

/-- A program over shared data: each act happens at once and gets an answer. -/
inductive Prog (σ ρ α : Type) : Type
  | done (value : α)
  | act (take : σ → ρ → σ → Prop) (next : ρ → Prog σ ρ α)

def Prog.bind : Prog σ ρ α → (α → Prog σ ρ β) → Prog σ ρ β
  | .done value, f => f value
  | .act take next, f => .act take fun answer => (next answer).bind f

/-- What is left of a call, and the shared data while it ran, latest first. -/
structure Call (σ ρ α : Type) where
  left : Prog σ ρ α
  seen : List σ

/-- A call that has not returned sees the data change. -/
def Call.watch (call : Call σ ρ α) (s : σ) : Call σ ρ α :=
  match call.left with
  | .done _ => call
  | .act _ _ => { call with seen := s :: call.seen }

structure World (σ ρ α : Type) where
  shared : σ
  calls : Nat → Option (Call σ ρ α)

/-- A call starts, or the next act of a running call happens. -/
inductive Step (program : Nat → Prog σ ρ α) (id : Nat) : World σ ρ α → World σ ρ α → Prop
  | start {w : World σ ρ α} (fresh : w.calls id = none) :
      Step program id w ⟨w.shared, fun j => if j = id then some ⟨program id, [w.shared]⟩ else w.calls j⟩
  | act {w : World σ ρ α} {call : Call σ ρ α} {take : σ → ρ → σ → Prop} {next : ρ → Prog σ ρ α}
      {answer : ρ} {after : σ} (running : w.calls id = some call) (left : call.left = .act take next)
      (took : take w.shared answer after) :
      Step program id w ⟨after, fun j =>
        if j = id then some ⟨next answer, after :: call.seen⟩ else (w.calls j).map (·.watch after)⟩

/-- Worlds that calls can lead to from given data. -/
def Reachable (program : Nat → Prog σ ρ α) (first : σ) (w : World σ ρ α) : Prop :=
  ReflTransGen (fun a b => ∃ id, Step program id a b) ⟨first, fun _ => none⟩ w

theorem Reachable.start {program : Nat → Prog σ ρ α} {first : σ} {w : World σ ρ α}
    (run : Reachable program first w) (id : Nat) (fresh : w.calls id = none) :
    Reachable program first
      ⟨w.shared, fun j => if j = id then some ⟨program id, [w.shared]⟩ else w.calls j⟩ :=
  .tail run ⟨id, .start fresh⟩

theorem Reachable.act {program : Nat → Prog σ ρ α} {first : σ} {w : World σ ρ α}
    (run : Reachable program first w) (id : Nat) {call : Call σ ρ α} {take : σ → ρ → σ → Prop}
    {next : ρ → Prog σ ρ α} {answer : ρ} {after : σ} (running : w.calls id = some call)
    (left : call.left = .act take next) (took : take w.shared answer after) :
    Reachable program first ⟨after, fun j =>
      if j = id then some ⟨next answer, after :: call.seen⟩ else (w.calls j).map (·.watch after)⟩ :=
  .tail run ⟨id, .act running left took⟩

/-- What was seen, and what others have done to the data since. -/
inductive Later (rely : σ → σ → Prop) (seen : List σ) : List σ → Prop
  | refl : Later rely seen seen
  | step {s s' : σ} {rest : List σ} (before : Later rely seen (s :: rest)) (moved : rely s s') :
      Later rely seen (s' :: s :: rest)

/-- Whatever others do within the rely, every act keeps the guarantee and the program returns as told. -/
def Prog.Meets (inv : σ → Prop) (rely guar : σ → σ → Prop) (post : α → List σ → Prop) :
    Prog σ ρ α → List σ → Prop
  | .done value, seen => post value seen
  | .act take next, seen => ∀ s rest answer s', Later rely seen (s :: rest) → inv s → take s answer s' →
      guar s s' ∧ (next answer).Meets inv rely guar post (s' :: s :: rest)

section

variable {inv : σ → Prop} {rely guar : σ → σ → Prop} {post post' : α → List σ → Prop}

theorem Prog.Meets.weaken {p : Prog σ ρ α} {seen : List σ} (meets : p.Meets inv rely guar post seen)
    (weaker : ∀ value seen, post value seen → post' value seen) : p.Meets inv rely guar post' seen := by
  induction p generalizing seen with
  | done value => exact weaker value seen meets
  | act _ _ ih =>
    intro s rest answer s' later sound took
    obtain ⟨kept, meets⟩ := meets s rest answer s' later sound took
    exact ⟨kept, ih answer meets⟩

theorem Prog.meets_bind {p : Prog σ ρ α} {f : α → Prog σ ρ β} {post : β → List σ → Prop} {seen : List σ}
    (meets : p.Meets inv rely guar (fun value seen => (f value).Meets inv rely guar post seen) seen) :
    (p.bind f).Meets inv rely guar post seen := by
  induction p generalizing seen with
  | done => exact meets
  | act _ _ ih =>
    intro s rest answer s' later sound took
    obtain ⟨kept, meets⟩ := meets s rest answer s' later sound took
    exact ⟨kept, ih answer meets⟩

end

variable {program : Nat → Prog σ ρ α} {inv : σ → Prop} {guar : Nat → σ → σ → Prop}
  {post : Nat → α → List σ → Prop} {first : σ}

def Others (guar : Nat → σ → σ → Prop) (id : Nat) (s s' : σ) : Prop := ∃ j, j ≠ id ∧ guar j s s'

/-- A returned call kept its promise, a running one still can. -/
def Call.Ready (inv : σ → Prop) (guar : Nat → σ → σ → Prop) (post : Nat → α → List σ → Prop) (id : Nat)
    (now : σ) (call : Call σ ρ α) : Prop :=
  match call.left with
  | .done value => post id value call.seen
  | .act take next => (∃ rest, call.seen = now :: rest) ∧ ∃ seen, Later (Others guar id) seen call.seen ∧
      (Prog.act take next).Meets inv (Others guar id) (guar id) (post id) seen

variable {id : Nat}

theorem Call.Ready.of_meets {now : σ} {left : Prog σ ρ α} {rest : List σ}
    (meets : left.Meets inv (Others guar id) (guar id) (post id) (now :: rest)) :
    Call.Ready inv guar post id now ⟨left, now :: rest⟩ := by
  cases left with
  | done => exact meets
  | act => exact ⟨⟨rest, rfl⟩, _, .refl, meets⟩

variable {call : Call σ ρ α}

theorem Call.Ready.watch {now after : σ} (ready : call.Ready inv guar post id now)
    (moved : Others guar id now after) : (call.watch after).Ready inv guar post id after := by
  obtain ⟨left, seen⟩ := call
  cases left with
  | done => exact ready
  | act =>
    obtain ⟨⟨rest, rfl⟩, start, later, meets⟩ := ready
    exact ⟨⟨_, rfl⟩, start, .step later moved, meets⟩

theorem Call.Ready.act {now after : σ} {take : σ → ρ → σ → Prop} {next : ρ → Prog σ ρ α}
    {answer : ρ} (ready : call.Ready inv guar post id now) (left : call.left = .act take next)
    (sound : inv now) (took : take now answer after) :
    guar id now after ∧
      Call.Ready inv guar post id after ⟨next answer, after :: call.seen⟩ := by
  obtain ⟨_, seen⟩ := call
  cases left
  obtain ⟨⟨rest, rfl⟩, start, later, meets⟩ := ready
  obtain ⟨kept, meets⟩ := meets now rest answer after later sound took
  exact ⟨kept, .of_meets meets⟩

/-- Every call of a world is ready, and its data is sound. -/
structure Ready (inv : σ → Prop) (guar : Nat → σ → σ → Prop) (post : Nat → α → List σ → Prop)
    (w : World σ ρ α) : Prop where
  sound : inv w.shared
  calls : ∀ id call, w.calls id = some call → call.Ready inv guar post id w.shared

theorem Ready.step {w w' : World σ ρ α} {id : Nat} (ready : Ready inv guar post w)
    (keeps : ∀ id s s', inv s → guar id s s' → inv s')
    (meets : ∀ id s, inv s → (program id).Meets inv (Others guar id) (guar id) (post id) [s])
    (step : Step program id w w') :
    (w'.shared = w.shared ∨ guar id w.shared w'.shared) ∧ Ready inv guar post w' := by
  cases step with
  | start fresh =>
    refine ⟨.inl rfl, ready.sound, ?_⟩
    intro j call here
    simp only at here
    split at here
    · rename_i same
      subst same
      cases here
      exact .of_meets (meets j w.shared ready.sound)
    · exact ready.calls j call here
  | @act call take next answer after running left took =>
    obtain ⟨kept, own⟩ := (ready.calls id call running).act left ready.sound took
    refine ⟨.inr kept, keeps id _ _ ready.sound kept, ?_⟩
    intro j other here
    simp only at here
    split at here
    · rename_i same
      subst same
      cases here
      exact own
    · rename_i differs
      obtain ⟨before, found, rfl⟩ := Option.map_eq_some_iff.mp here
      exact (ready.calls j before found).watch ⟨id, Ne.symm differs, kept⟩

theorem Ready.of_reachable {w : World σ ρ α} (sound : inv first)
    (keeps : ∀ id s s', inv s → guar id s s' → inv s')
    (meets : ∀ id s, inv s → (program id).Meets inv (Others guar id) (guar id) (post id) [s])
    (run : Reachable program first w) : Ready inv guar post w := by
  induction run with
  | refl => exact ⟨sound, fun id call here => by cases here⟩
  | tail _ last ih =>
    obtain ⟨id, step⟩ := last
    exact (ih.step keeps meets step).2

theorem Ready.returned {w : World σ ρ α} (ready : Ready inv guar post w) {value : α}
    (here : w.calls id = some call) (left : call.left = .done value) : post id value call.seen := by
  have own := ready.calls id call here
  rw [Call.Ready, left] at own
  exact own

end RssMdm.Lib.Interleaving
