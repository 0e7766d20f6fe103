/- module: WindowsMdm/Syncml/Flattening
   source: crates/windows-mdm/src/syncml.rs
   digest: Exactly which command forests are flattened; atomic groups of one id count as one. -/

import RssMdm.WindowsMdm.Syncml.Message

set_option autoImplicit false

namespace RssMdm.WindowsMdm.Syncml

open Lib.Fallible

/-- Device replies and reports. -/
def Command.isReply : Command → Bool
  | .status _ | .results _ | .alert _ _ | .devInfo _ _ => true
  | _ => false

/-- The restrictions on one command at its depth and inside its atomic group. -/
structure Fits (x : Command × Nat × Option UInt32) : Prop where
  group : x.1.name = .atomic ∨ x.1.name = .sequence → x.1.children ≠ []
  single : x.1.name = .atomic ∨ x.1.name = .get → x.2.2 = none
  reply : x.1.isReply = true → x.2.1 = 0

/-- The targets that a command adds in its atomic group. -/
def added : Command × Nat × Option UInt32 → List (UInt32 × String)
  | (.add _ _ items, _, some group) => (itemTargets items).map (fun uri => (group, uri))
  | _ => []

def replaced : Command × Nat × Option UInt32 → List (UInt32 × String)
  | (.replace _ _ items, _, some group) => (itemTargets items).map (fun uri => (group, uri))
  | _ => []

/-- No replacement of a target that an earlier addition of the same group has. -/
def Apart (placed : List (Command × Nat × Option UInt32)) : Prop :=
  placed.Pairwise (fun a b => (replaced b).Disjoint (added a))

theorem flattenVisit_eq_ok {p : Pending} {additions after : List (UInt32 × String)} :
    flattenVisit p additions = .ok after ↔ Fits (p.command, p.depth, p.atomic) ∧
      (replaced (p.command, p.depth, p.atomic)).Disjoint additions ∧
      additions ++ added (p.command, p.depth, p.atomic) = after := by
  obtain ⟨c, depth, atomic⟩ := p
  have fits : Fits (c, depth, atomic) ↔
      (c.name = .atomic ∨ c.name = .sequence → c.children ≠ []) ∧
        (c.name = .atomic ∨ c.name = .get → atomic = none) ∧ (c.isReply = true → depth = 0) :=
    ⟨fun h => ⟨h.group, h.single, h.reply⟩, fun h => ⟨h.1, h.2.1, h.2.2⟩⟩
  rw [fits]
  cases c <;> cases atomic <;>
    simp [flattenVisit, Command.name, Command.children, Command.isReply, added, replaced,
      List.Disjoint]
  all_goals
    split <;> grind

theorem Pending.flatMap_cons (p : Pending) (pending : List Pending) :
    (p :: pending).flatMap Pending.preorder =
      (p.command, p.depth, p.atomic) :: (p.children ++ pending).flatMap Pending.preorder := by
  rw [List.flatMap_cons, p.preorder_eq, List.flatMap_append, List.cons_append]

theorem Pending.length_le (pending : List Pending) :
    pending.length ≤ (pending.flatMap Pending.preorder).length := by
  induction pending with
  | nil => exact Nat.le_refl 0
  | cons =>
    rw [Pending.flatMap_cons, List.length_cons, List.length_cons, List.flatMap_append,
      List.length_append]
    omega

theorem flattenLoop_iff {l : CodecLimits} {fuel : Nat} {pending : List Pending}
    {output out : List Command} {additions : List (UInt32 × String)}
    (enough : pendingSize pending ≤ fuel) (room : output.length + pending.length ≤ l.commands) :
    flattenLoop l fuel pending output additions = .ok out ↔
      out = output ++ (pending.flatMap Pending.preorder).map Prod.fst ∧
      out.length ≤ l.commands ∧
      (∀ x ∈ pending.flatMap Pending.preorder, x.2.1 ≤ min l.depth 32 ∧ Fits x) ∧
      (∀ x ∈ pending.flatMap Pending.preorder, (replaced x).Disjoint additions) ∧
      Apart (pending.flatMap Pending.preorder) := by
  induction fuel generalizing pending output additions with
  | zero =>
    cases pending with
    | nil =>
      rw [flattenLoop]
      simp only [Except.ok.injEq, Apart, List.flatMap_nil, List.map_nil, List.append_nil]
      grind
    | cons p =>
      have positive := p.command.size_pos
      simp only [pendingSize, List.map_cons, forestSize] at enough
      omega
  | succ fuel ih =>
    cases pending with
    | nil =>
      rw [flattenLoop]
      simp only [Except.ok.injEq, Apart, List.flatMap_nil, List.map_nil, List.append_nil]
      grind
    | cons p pending =>
      have smaller : pendingSize (p.children ++ pending) ≤ fuel := by
        have size := p.size_children
        simp only [pendingSize, List.map_cons, List.map_append, forestSize, forestSize_append]
          at enough size ⊢
        omega
      have pushed : p.children.length = p.command.children.length := by
        rw [Pending.children, List.length_map]
      have roomy : (output ++ [p.command]).length + (p.children ++ pending).length =
          output.length + pending.length + p.command.children.length + 1 := by
        rw [List.length_append, List.length_append, List.length_singleton, pushed]
        omega
      rw [flattenLoop, Pending.flatMap_cons, check_bind_eq_ok, check_bind_eq_ok, bind_eq_ok]
      simp only [check_bind_eq_ok, bound_eq_ok, flattenVisit_eq_ok]
      generalize placed : (p.children ++ pending).flatMap Pending.preorder = rest at ih
      constructor
      · rintro ⟨depth, -, after, ⟨fits, free, rfl⟩, room', returned⟩
        obtain ⟨rfl, short, places, frees, apart⟩ :=
          (ih smaller (roomy.trans_le room')).mp returned
        rw [placed] at short places frees apart ⊢
        refine ⟨by simp, short, ?_, ?_, ?_⟩
        · exact List.forall_mem_cons.mpr ⟨⟨depth, fits⟩, places⟩
        · exact List.forall_mem_cons.mpr
            ⟨free, fun x hx => (List.disjoint_append_right.mp (frees x hx)).1⟩
        · exact List.pairwise_cons.mpr
            ⟨fun x hx => (List.disjoint_append_right.mp (frees x hx)).2, apart⟩
      · rintro ⟨rfl, short, places, frees, apart⟩
        obtain ⟨⟨depth, fits⟩, places⟩ := List.forall_mem_cons.mp places
        obtain ⟨free, frees⟩ := List.forall_mem_cons.mp frees
        obtain ⟨first, apart⟩ := List.pairwise_cons.mp apart
        have total := Pending.length_le (p.children ++ pending)
        have room' :
            output.length + pending.length + p.command.children.length + 1 ≤ l.commands := by
          simp only [placed, List.length_append, List.length_map, List.length_cons, pushed]
            at total short
          omega
        refine ⟨depth, by omega, _, ⟨fits, free, rfl⟩, room',
          (ih smaller (roomy.trans_le room')).mpr ?_⟩
        rw [placed]
        exact ⟨by simp, short, places,
          fun x hx => List.disjoint_append_right.mpr ⟨frees x hx, first x hx⟩, apart⟩

theorem flattened_iff (commands : List Command) (l : CodecLimits) :
    (∀ extra, flattenLoop l (forestSize commands + extra) (commands.map (fun c => ⟨c, 0, none⟩))
        [] [] = flattenLoop l (forestSize commands) (commands.map (fun c => ⟨c, 0, none⟩)) [] []) ∧
    ∀ out, flattened commands l = .ok out ↔
      out = (preorderForest 0 none commands).map Prod.fst ∧ out.length ≤ l.commands ∧
      (∀ x ∈ preorderForest 0 none commands, x.2.1 ≤ min l.depth 32 ∧ Fits x) ∧
      Apart (preorderForest 0 none commands) := by
  have size : pendingSize (commands.map (fun c => (⟨c, 0, none⟩ : Pending))) =
      forestSize commands := by
    simp [pendingSize, Function.comp_def]
  refine ⟨fun extra => flattenLoop_fuel l _ extra _ _ _ size.le, fun out => ?_⟩
  rw [flattened, check_bind_eq_ok, bound_eq_ok, preorderForest_eq_flatMap]
  constructor
  · rintro ⟨room, returned⟩
    obtain ⟨eq, fits, placed, -, apart⟩ :=
      (flattenLoop_iff size.le (by simpa using room)).mp returned
    exact ⟨eq, fits, placed, apart⟩
  · rintro ⟨eq, fits, placed, apart⟩
    have room : commands.length ≤ l.commands := by
      have := Pending.length_le (commands.map (fun c => ⟨c, 0, none⟩))
      rw [eq, List.length_map] at fits
      rw [List.length_map] at this
      omega
    refine ⟨room, (flattenLoop_iff size.le (by simpa using room)).mpr ⟨eq, fits, placed, ?_, apart⟩⟩
    exact fun x _ => List.disjoint_nil_right _

/-- Two atomic groups of one id; the second replaces what the first adds. -/
def sharedId : List Command :=
  [.atomic 1 [.add 2 none [⟨false, none, some "./a", none, none⟩]],
    .atomic 1 [.replace 3 none [⟨false, none, some "./a", none, none⟩]]]

/-- No group of the forest replaces what it added itself, yet the forest is refused. -/
theorem sharedId_refused :
    (preorderForest 0 none sharedId).length ≤ CodecLimits.default.commands ∧
    (∀ x ∈ preorderForest 0 none sharedId,
      x.2.1 ≤ min CodecLimits.default.depth 32 ∧ Fits x) ∧
    (∀ id commands, Command.atomic id commands ∈ (preorderForest 0 none sharedId).map Prod.fst →
      Apart (preorderForest 1 (some id) commands)) ∧
    flattened sharedId .default = .error .unsupported := by
  refine ⟨by decide, ?_, ?_, by rfl⟩
  · simp only [sharedId, preorderForest, Command.preorder, List.append_nil, List.forall_mem_cons,
      List.cons_append, List.nil_append]
    have depth : ∀ n ≤ 1, n ≤ min CodecLimits.default.depth 32 := fun n h => h.trans (by decide)
    refine ⟨⟨depth 0 (by decide), ?_⟩, ⟨depth 1 (by decide), ?_⟩, ⟨depth 0 (by decide), ?_⟩,
      ⟨depth 1 (by decide), ?_⟩, by simp⟩ <;>
      constructor <;> simp [Command.name, Command.children, Command.isReply]
  · intro id commands mem
    simp only [sharedId, preorderForest, Command.preorder, List.append_nil, List.cons_append,
      List.nil_append, List.map_cons, List.map_nil, List.mem_cons, Command.atomic.injEq,
      reduceCtorEq, List.not_mem_nil, false_or, or_false] at mem
    rcases mem with ⟨rfl, rfl⟩ | ⟨rfl, rfl⟩ <;>
      exact List.pairwise_singleton ..

end RssMdm.WindowsMdm.Syncml
