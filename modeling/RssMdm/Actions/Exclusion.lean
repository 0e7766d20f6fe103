/- module: Actions/Exclusion
   source: crates/execution-service/src/actions/software.rs, actions/state.rs, src/self_service.rs
   digest: Effects that conflict on associated endpoints are never live together. -/

import RssMdm.Actions.Progress

set_option autoImplicit false

namespace RssMdm.Actions

open RssMdm.Lib RssMdm.Lib.Fallible RssMdm.Lib.Int64
open RssMdm.Policy (Uuid TimeZones)
open Software (Associations conflicts unresolved)
open Bool (and_eq_true or_eq_true)

/-- A run that may still have its effect, or may have had it. -/
def Run.live (now : I64) (run : Run) : Bool :=
  run.state.execution.unsettled ||
    (run.state.execution = .notStarted && now.val < run.deadline.val &&
      run.state.cancellation ≠ .confirmed && run.effect.isSome)

def RunState.Undecided (s : RunState) : Prop := s.execution = .running → s.cancellation ≠ .confirmed

section

variable {a b : Effect}

theorem conflicts_comm : conflicts a b = conflicts b a := by
  have shared : a.packages.any (fun p => b.packages.contains p) =
      b.packages.any (fun p => a.packages.contains p) := by
    rw [Bool.eq_iff_iff, List.any_eq_true, List.any_eq_true]
    simp only [List.contains_iff_mem]
    exact ⟨fun ⟨p, left, right⟩ => ⟨p, right, left⟩, fun ⟨p, left, right⟩ => ⟨p, right, left⟩⟩
  unfold conflicts
  rw [shared, Bool.eq_iff_iff]
  simp only [and_eq_true, or_eq_true, decide_eq_true_eq]
  rw [eq_comm, @eq_comm _ a.resource]

end

section

variable {s s' : RunState} {op : Operation} {now : I64}

theorem undecided_apply (undecided : s.Undecided) : (s.apply op).2.Undecided := by
  have moved := apply_moved s op
  generalize (s.apply op).2 = s' at moved
  cases moved with
  | same | leased | receipted => exact undecided
  | started _ _ _ _ _ _ free =>
    intro _
    show s.cancellation ≠ .confirmed
    rw [free]
    decide
  | settled _ _ outcome =>
    intro running
    rcases outcome with rfl | rfl | rfl | rfl <;> cases running
  | cancelling =>
    intro running
    have busy : s.execution = .running := running
    simp [RunState.cancel, busy]
  | confirmed =>
    intro running
    simp only at running
    split at running
    · cases running
    · exact absurd running ‹_›
  | expired idle =>
    intro running
    have busy : s.execution = .running := running
    rw [idle] at busy
    cases busy

def RunState.mayAct (s : RunState) (deadline now : I64) : Bool :=
  s.execution.unsettled ||
    (s.execution = .notStarted && now.val < deadline.val && s.cancellation ≠ .confirmed)

theorem mayAct_iff {deadline : I64} : s.mayAct deadline now = true ↔
    s.execution.unsettled = true ∨
      (s.execution = .notStarted ∧ now.val < deadline.val ∧ s.cancellation ≠ .confirmed) := by
  simp only [RunState.mayAct, or_eq_true, and_eq_true, decide_eq_true_eq, and_assoc]

theorem mayAct_plain (plain : op.Plain now) {deadline : I64}
    (acts : (s.apply op).2.mayAct deadline now = true) : s.mayAct deadline now = true := by
  rw [mayAct_iff] at acts ⊢
  have moved := apply_moved s op
  generalize (s.apply op).2 = s' at moved acts
  cases moved with
  | same | leased | receipted => exact acts
  | started _ _ _ is =>
    rw [is] at plain
    exact plain.elim
  | settled _ unsettled => exact .inl unsettled
  | cancelling =>
    rcases acts with busy | ⟨idle, early, free⟩
    · exact .inl busy
    · have waiting : s.execution = .notStarted := idle
      simp [RunState.cancel, waiting] at free
  | confirmed =>
    rcases acts with busy | ⟨idle, early, free⟩
    · refine .inl ?_
      by_cases running : s.execution = .running
      · rw [running]
        rfl
      · simpa only [if_neg running] using busy
    · exact absurd rfl free
  | expired idle =>
    rcases acts with busy | ⟨_, early, free⟩
    · have busy' : s.execution.unsettled = true := busy
      rw [idle] at busy'
      cases busy'
    · exact absurd rfl free

end

section

variable {run run' : Run} {fresh : Uuid → Prop} {state : RunState} {now : I64}

theorem undecided_progress (h : Progress now run fresh state) (undecided : run.state.Undecided) :
    state.Undecided :=
  progress_cases h undecided (fun _ _ => undecided_apply) (fun _ _ idle => absurd idle nofun)

theorem mayAct_progress (h : Progress now run fresh state)
    (acts : state.mayAct run.state.deadline now = true) :
    run.state.mayAct run.state.deadline now = true := by
  cases h with
  | same => exact acts
  | operated _ plain => exact mayAct_plain plain acts
  | claimed _ _ _ _ claims =>
    obtain ⟨early, idle, free⟩ := claim_eq_ok claims
    refine mayAct_iff.mpr (.inr ⟨idle, early, ?_⟩)
    rw [free]
    decide
  | started _ idle _ starts =>
    obtain ⟨-, early, free, -⟩ := start_eq_ok idle starts
    refine mayAct_iff.mpr (.inr ⟨idle, early, ?_⟩)
    rw [free]
    decide
  | sent _ _ _ _ idle claims =>
    obtain ⟨early, -, free⟩ := claim_eq_ok claims
    refine mayAct_iff.mpr (.inr ⟨idle, early, ?_⟩)
    rw [free]
    decide
  | recalled =>
    rcases mayAct_iff.mp acts with busy | ⟨-, -, free⟩
    · cases busy
    · exact absurd rfl free

theorem live_iff {effect : Effect} (persisted : run.effect = some effect) :
    run.live now = true ↔ run.state.mayAct run.deadline now = true := by
  simp only [Run.live, RunState.mayAct, persisted, Option.isSome_some, Bool.and_true]

theorem live_mono {later : I64} (order : now.val ≤ later.val) (alive : run.live later = true) :
    run.live now = true := by
  simp only [Run.live, or_eq_true, and_eq_true, decide_eq_true_eq] at alive ⊢
  rcases alive with busy | ⟨⟨⟨idle, early⟩, free⟩, persisted⟩
  · exact .inl busy
  · exact .inr ⟨⟨⟨idle, by omega⟩, free⟩, persisted⟩

theorem not_live_of_resolved {asked : I64} (undecided : run.state.Undecided)
    (before : asked.val ≤ now.val) (resolved : unresolved asked run = false) : run.live now = false := by
  rw [Bool.eq_false_iff] at resolved ⊢
  intro alive
  apply resolved
  simp only [Run.live, or_eq_true, and_eq_true, decide_eq_true_eq] at alive
  simp only [unresolved, or_eq_true, and_eq_true, decide_eq_true_eq]
  rcases alive with busy | ⟨⟨⟨idle, early⟩, free⟩, -⟩
  · cases is : run.state.execution with
    | running => exact .inr ⟨.inl rfl, undecided is⟩
    | unknown => exact .inl (.inl rfl)
    | waitingReboot => exact .inl (.inr rfl)
    | notStarted | succeeded | failed =>
      rw [is] at busy
      cases busy
  · exact .inr ⟨.inr ⟨idle, by omega⟩, free⟩

end

section

variable {D : Documents} (t : Associations)

/-- Two runs that must not be live together. -/
def Run.Opposed (a b : Run) : Prop :=
  t.Associated a.target.device b.target.device ∧ ∃ x y, a.effect = some x ∧ b.effect = some y ∧
    conflicts x y = true

structure Store.Guarded (now : I64) (s : Store D) : Prop where
  deadline : ∀ id run, s.runs.get? id = some run → run.state.deadline = run.deadline
  undecided : ∀ id run, s.runs.get? id = some run → run.state.Undecided
  created : ∀ id run, s.runs.get? id = some run → run.createdAt.val ≤ now.val
  apart : ∀ i j a b, s.runs.get? i = some a → s.runs.get? j = some b → i ≠ j → a.Opposed t b →
    a.live now = true → b.live now = false

variable {t} {g : Signing D} {now later : I64} {s s' : Store D} {a b : Run}

theorem opposed_symm (h : a.Opposed t b) : b.Opposed t a := by
  obtain ⟨near, x, y, left, right, conflict⟩ := h
  exact ⟨associated_symm near, y, x, right, left, conflicts_comm.trans conflict⟩

theorem guarded_empty : (Store.empty : Store D).Guarded t now := by
  have none : ∀ id run, (Store.empty : Store D).runs.get? id ≠ some run := by
    intro id run stored
    rw [Store.empty, OrdMap.get?_empty] at stored
    cases stored
  exact ⟨fun id run stored => absurd stored (none id run), fun id run stored => absurd stored (none id run),
    fun id run stored => absurd stored (none id run),
    fun i j a b stored => absurd stored (none i a)⟩

theorem guarded_mono (order : now.val ≤ later.val) (guarded : s.Guarded t now) :
    s.Guarded t later := by
  refine ⟨guarded.deadline, guarded.undecided, ?_, ?_⟩
  · intro id run stored
    exact Int.le_trans (guarded.created id run stored) order
  · intro i j a b left right other opposed alive
    have dead := guarded.apart i j a b left right other opposed (live_mono order alive)
    rw [Bool.eq_false_iff] at dead ⊢
    exact fun alive' => dead (live_mono order alive')

theorem live_evolves {fresh : Uuid → Prop} {run run' : Run} {effect : Effect}
    (evolves : run.Evolves now fresh run') (deadline : run.state.deadline = run.deadline)
    (persisted : run.effect = some effect) (persisted' : run'.effect = some effect)
    (alive : run'.live now = true) : run.live now = true := by
  rw [live_iff persisted', evolves.deadline, ← deadline] at alive
  rw [live_iff persisted, ← deadline]
  exact mayAct_progress evolves.state alive

theorem saved_effect {saved before : Run} {id : Uuid} (stored : s.runs.get? id = some a)
    (stored' : (s.saveRun saved).runs.get? id = some b) (there : s.runs.get? saved.id = some before)
    (same : saved.effect = before.effect) : b.effect = a.effect := by
  rw [get?_saveRun] at stored'
  split at stored'
  · rename_i is
    cases stored'
    rw [← is, stored] at there
    cases there
    exact same
  · rw [stored] at stored'
    cases stored'
    rfl

theorem change_effects (h : Change g t now s s') :
    (∀ id a b, s.runs.get? id = some a → s'.runs.get? id = some b → b.effect = a.effect) ∨
    ∃ run effect invocation asked, s' = s.saveRun { run with effect := some effect, invocation } ∧
      s.runs.get? run.id = some run ∧ (asked = now ∨ asked = run.createdAt) ∧
      ∀ other, s.runs.get? other.id = some other → other.id ≠ run.id →
        t.Associated run.target.device other.target.device →
        ∀ persisted, other.effect = some persisted → conflicts persisted effect = true →
          unresolved asked other = false := by
  have kept : ∀ {id : Uuid} {a b : Run}, s.runs.get? id = some a → s.runs.get? id = some b →
      b.effect = a.effect := by
    intro id a b stored stored'
    rw [stored] at stored'
    cases stored'
    rfl
  cases h with
  | queued run fresh new created bare =>
    refine .inl (fun id a b stored stored' => ?_)
    rw [get?_saveRun] at stored'
    split at stored'
    · rename_i is
      rw [is, fresh] at stored
      cases stored
    · exact kept stored stored'
  | noted _ _ there same _ _ _ _ effect =>
    exact .inl (fun id a b stored stored' => saved_effect stored stored' (same ▸ there) effect)
  | effected run effect invocation asked there _ asks clear =>
    exact .inr ⟨run, effect, invocation, asked, rfl, there, asks, clear⟩
  | operated _ _ _ there =>
    exact .inl (fun id a b stored stored' => saved_effect stored stored' there rfl)
  | claimed before _ _ state there | started before _ _ _ _ state there =>
    refine .inl (fun id a b stored stored' => ?_)
    have saved : (s.saveRun { before with state }).runs.get? id = some b := stored'
    exact saved_effect stored saved there rfl
  | sent _ _ _ _ there | recalled _ _ there =>
    exact .inl (fun id a b stored stored' => saved_effect stored stored' there rfl)
  | receipted | paged => exact .inl (fun id a b => kept)

theorem apart_of_kept (h : Change g t now s s') (guarded : s.Guarded t now)
    (kept : ∀ id a b, s.runs.get? id = some a → s'.runs.get? id = some b → b.effect = a.effect)
    {i j : Uuid} (left : s'.runs.get? i = some a) (right : s'.runs.get? j = some b) (other : i ≠ j)
    (opposed : a.Opposed t b) (alive : a.live now = true) : b.live now = false := by
  obtain ⟨near, x, y, hasX, hasY, conflict⟩ := opposed
  have old : ∀ {id : Uuid} {run' : Run} {effect : Effect}, s'.runs.get? id = some run' →
      run'.effect = some effect → ∃ run, s.runs.get? id = some run ∧ run.effect = some effect ∧
        run'.target = run.target ∧ (run'.live now = true → run.live now = true) := by
    intro id run' effect stored persisted
    rcases change_stored h stored with ⟨-, -, bare⟩ | ⟨run, before, evolves⟩
    · rw [bare] at persisted
      cases persisted
    · have same : run.effect = some effect := (kept id run run' before stored).symm.trans persisted
      exact ⟨run, before, same, evolves.target,
        live_evolves evolves (guarded.deadline id run before) same persisted⟩
  obtain ⟨a₀, left₀, hasX₀, sameA, backA⟩ := old left hasX
  obtain ⟨b₀, right₀, hasY₀, sameB, backB⟩ := old right hasY
  rw [sameA, sameB] at near
  have dead := guarded.apart i j a₀ b₀ left₀ right₀ other ⟨near, x, y, hasX₀, hasY₀, conflict⟩ (backA alive)
  rw [Bool.eq_false_iff] at dead ⊢
  exact fun alive' => dead (backB alive')

theorem apart_of_effected {run : Run} {effect : Effect} {invocation : Option Invocation} {asked : I64}
    (guarded : s.Guarded t now) (stored : s.runs.get? run.id = some run)
    (asks : asked = now ∨ asked = run.createdAt)
    (clear : ∀ other, s.runs.get? other.id = some other → other.id ≠ run.id →
      t.Associated run.target.device other.target.device →
      ∀ persisted, other.effect = some persisted → conflicts persisted effect = true →
        unresolved asked other = false)
    {j : Uuid} (right : s.runs.get? j = some b) (other : j ≠ run.id)
    (opposed : Run.Opposed t { run with effect := some effect, invocation } b) : b.live now = false := by
  obtain ⟨near, x, y, hasX, hasY, conflict⟩ := opposed
  cases hasX
  have before : asked.val ≤ now.val := by
    rcases asks with rfl | rfl
    · exact Int.le_refl _
    · exact guarded.created run.id run stored
  have same := s.keyed j b right
  subst same
  exact not_live_of_resolved (guarded.undecided _ b right) before
    (clear b right other near y hasY (conflicts_comm.trans conflict))

theorem guarded_change (h : Change g t now s s') (guarded : s.Guarded t now) : s'.Guarded t now := by
  refine ⟨?_, ?_, ?_, ?_⟩
  · intro id run' stored
    rcases change_stored h stored with ⟨new, -⟩ | ⟨run, before, evolves⟩
    · rw [(new_eq_ok new).1]
    · rw [deadline_progress evolves.state, guarded.deadline id run before, evolves.deadline]
  · intro id run' stored
    rcases change_stored h stored with ⟨new, -⟩ | ⟨run, before, evolves⟩
    · rw [(new_eq_ok new).1]
      intro running
      cases running
    · exact undecided_progress evolves.state (guarded.undecided id run before)
  · intro id run' stored
    rcases change_stored h stored with ⟨-, created, -⟩ | ⟨run, before, evolves⟩
    · exact Int.le_of_eq (congrArg I64.val created)
    · rw [evolves.created]
      exact guarded.created id run before
  · intro i j a b left right other opposed alive
    rcases change_effects h with kept | ⟨run, effect, invocation, asked, rfl, stored, asks, clear⟩
    · exact apart_of_kept h guarded kept left right other opposed alive
    rw [get?_saveRun] at left right
    by_cases first : i = run.id
    · rw [if_pos first] at left
      cases left
      rw [if_neg (fun same => other (first.trans same.symm))] at right
      exact apart_of_effected guarded stored asks clear right (fun same => other (first.trans same.symm))
        opposed
    · rw [if_neg first] at left
      by_cases second : j = run.id
      · rw [if_pos second] at right
        cases right
        have dead := apart_of_effected guarded stored asks clear left first (opposed_symm opposed)
        rw [dead] at alive
        cases alive
      · rw [if_neg second] at right
        exact guarded.apart i j a b left right other opposed alive

end

section

variable {D : Documents} {Zone : Type} {g : Signing D} {tz : TimeZones Zone} {t : Associations}
  {s : Store D} {now : I64}

def times (calls : List (Call D)) : List I64 := calls.filterMap Call.now

theorem guarded_apply {call : Call D} (guarded : s.Guarded t now)
    (time : ∀ at', call.now = some at' → at' = now) : (s.apply g tz t call).2.Guarded t now :=
  changes_keep (apply_changes time) guarded (fun _ _ => guarded_change)

theorem guarded_after (calls : List (Call D)) (guarded : s.Guarded t now)
    (clock : (now :: times calls).Pairwise (fun x y => x.val ≤ y.val)) {last : I64}
    (late : ∀ time ∈ now :: times calls, time.val ≤ last.val) :
    (s.after g tz t calls).Guarded t last := by
  induction calls generalizing s now with
  | nil => exact guarded_mono (late now (.head _)) guarded
  | cons call rest ih =>
    show ((s.apply g tz t call).2.after g tz t rest).Guarded t last
    cases reads : call.now with
    | none =>
      have rests : times (call :: rest) = times rest := List.filterMap_cons_none reads
      rw [rests] at clock late
      refine ih (guarded_apply guarded (fun at' is => ?_)) clock late
      rw [reads] at is
      cases is
    | some next =>
      have rests : times (call :: rest) = next :: times rest := List.filterMap_cons_some reads
      rw [rests] at clock late
      obtain ⟨first, ordered⟩ := List.pairwise_cons.mp clock
      have moved : s.Guarded t next := guarded_mono (first next (.head _)) guarded
      refine ih (guarded_apply moved (fun at' is => ?_)) ordered
        (fun time mem => late time (.tail _ mem))
      rw [reads] at is
      exact (Option.some.inj is).symm

end

/-- In every history with a clock that does not go back, opposed runs are never live together. -/
theorem effects_never_overlap {D : Documents} {Zone : Type} (g : Signing D) (tz : TimeZones Zone)
    (t : Associations) (calls : List (Call D))
    (clock : (times calls).Pairwise (fun x y => x.val ≤ y.val)) (now : I64)
    (late : ∀ time ∈ times calls, time.val ≤ now.val) {a b : Run}
    (left : (Store.empty.after g tz t calls).runs.get? a.id = some a)
    (right : (Store.empty.after g tz t calls).runs.get? b.id = some b) (other : a.id ≠ b.id)
    (opposed : a.Opposed t b) : ¬(a.live now = true ∧ b.live now = true) := by
  have least : ∀ time : I64, (-2 ^ 63 : Int) ≤ time.val := I64.lo
  let start : I64 := ⟨-2 ^ 63, by decide, by decide⟩
  have begun : (Store.empty : Store D).Guarded t start := guarded_empty
  have guarded : (Store.empty.after g tz t calls).Guarded t now := by
    refine guarded_after calls begun ?_ ?_
    · exact List.pairwise_cons.mpr ⟨fun time _ => least time, clock⟩
    · intro time mem
      rcases List.mem_cons.mp mem with rfl | mem
      · exact least now
      · exact late time mem
  rintro ⟨alive, alive'⟩
  rw [guarded.apart a.id b.id a b left right other opposed alive] at alive'
  cases alive'

namespace Sample

abbrev plainDocuments : Documents := ⟨Unit, Unit, Unit, Unit, Unit⟩

def unsigned : Signing plainDocuments := ⟨fun _ => .ok [], fun _ => [], fun _ => .ok none⟩

def noZones : TimeZones Unit where
  get _ := none
  inRange _ := true
  dateOf _ _ := ⟨0, Policy.Date.epoch_lo, Policy.Date.epoch_hi⟩
  resolve _ _ := .gap

def paired : Associations :=
  ⟨[⟨"desk", 3, false⟩, ⟨"phone", 3, false⟩], [⟨3, false⟩]⟩

local instance seconds : NeZero 1000 := ⟨by decide⟩

theorem second_lo (n : Fin 1000) : -2 ^ 63 ≤ (n : Int) := by omega

theorem second_hi (n : Fin 1000) : (n : Int) < 2 ^ 63 := by omega

def second (n : Fin 1000) : I64 := ⟨n, second_lo n, second_hi n⟩

def editor : Effect :=
  ⟨.agent, second 1, "editor", "1.0", [], .install, .device, ["editor"], [("editor", "1.0")]⟩

def installing (id : Uuid) : Software.SoftwarePolicy :=
  ⟨id, .agent, .requiredInstall, [4], ⟨.registration, .coalesceOne, second 0, none, 0, none⟩, 60⟩

def granted : Software.SlotAnswers := ⟨.ok (some 0), .ok (some (editor, 1)), true⟩

def accepting (policy : Uuid) (device : String) (n : Fin 1000) (id : Uuid) : Call plainDocuments :=
  .acceptForDevice (installing policy) ⟨device, 5, second 1⟩ (second n) id granted

/-- The second endpoint waits until the run on the first one has ended. -/
def admissions : List (Call plainDocuments) :=
  [accepting 1 "desk" 10 7, accepting 2 "phone" 20 8, accepting 2 "phone" 100 8]

def endpoints (calls : List (Call plainDocuments)) : Store plainDocuments :=
  Store.empty.after unsigned noZones paired calls

/-- What the runs of a store are about, and which of them are live at the end. -/
def summary (run : Run) : Uuid × String × Option Effect × Bool :=
  (run.id, run.target.device, run.effect, run.live (second 100))

theorem summary_eq_some {s : Store plainDocuments} {id : Uuid} {device : String} {effect : Effect}
    {alive : Bool} (h : (s.runs.get? id).map summary = some (id, device, some effect, alive)) :
    ∃ run, s.runs.get? run.id = some run ∧ run.id = id ∧ run.target.device = device ∧
      run.effect = some effect ∧ run.live (second 100) = alive := by
  obtain ⟨run, stored, is⟩ := Option.map_eq_some_iff.mp h
  simp only [summary, Prod.mk.injEq] at is
  obtain ⟨rfl, rfl, persisted, rfl⟩ := is
  exact ⟨run, stored, rfl, rfl, persisted, rfl⟩

theorem effects_never_overlap_paired : ∃ a b : Run,
    (endpoints admissions).runs.get? a.id = some a ∧ (endpoints admissions).runs.get? b.id = some b ∧
      a.Opposed paired b ∧ b.live (second 100) = true ∧
      ¬(a.live (second 100) = true ∧ b.live (second 100) = true) := by
  have first : ((endpoints admissions).runs.get? 7).map summary =
      some (7, "desk", some editor, false) := by set_option maxRecDepth 4000 in decide
  have last : ((endpoints admissions).runs.get? 8).map summary =
      some (8, "phone", some editor, true) := by set_option maxRecDepth 4000 in decide
  obtain ⟨a, left, idA, deviceA, effectA, -⟩ := summary_eq_some first
  obtain ⟨b, right, idB, deviceB, effectB, alive⟩ := summary_eq_some last
  have near : paired.Associated a.target.device b.target.device := by
    rw [deviceA, deviceB]
    exact .inr ⟨_, .head _, _, .head _, _, .tail _ (.head _), rfl, rfl, rfl, rfl, rfl, rfl, rfl⟩
  have opposed : a.Opposed paired b := ⟨near, editor, editor, effectA, effectB, by decide⟩
  have other : a.id ≠ b.id := by
    rw [idA, idB]
    decide
  exact ⟨a, b, left, right, opposed, alive,
    effects_never_overlap unsigned noZones paired admissions (by decide) (second 100) (by decide)
      left right other opposed⟩

end Sample

end RssMdm.Actions
