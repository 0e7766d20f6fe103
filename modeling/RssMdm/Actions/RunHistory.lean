/- module: Actions/RunHistory
   source: crates/execution-service/src/actions/state.rs,
     crates/execution-service/src/actions/storage.rs
   digest: What every sequence of calls on a run preserves, and the terminal events of its saves. -/

import RssMdm.Actions.RunState

set_option autoImplicit false

namespace RssMdm.Actions

open Lib.Int64
open Policy (Uuid)

section

/-- The effect starts once, stays open until it is settled, and is never settled again. -/
def Execution.Follows (before after : Execution) : Prop :=
  after = before ∨ (before = .notStarted ∧ after = .running) ∨
    (before.unsettled = true ∧ (after = .unknown ∨ after = .waitingReboot ∨ after = .succeeded ∨
      after = .failed))

structure RunState.Sound (s : RunState) : Prop where
  started : s.startedAt.isSome = true ↔ s.execution ≠ .notStarted
  delivered : s.execution ≠ .notStarted → ∃ attempt lease, s.delivery = .received attempt lease
  leased : ∀ lease, s.delivery.leaseUntil = some lease → lease.val ≤ s.deadline.val

/-- What one call may change. -/
structure Stepped (s : RunState) (op : Operation) (s' : RunState) : Prop where
  deadline : s'.deadline = s.deadline
  startedAt : ∀ t, s.startedAt = some t → s'.startedAt = some t
  attempt : s.execution ≠ .notStarted → s'.attempt = s.attempt
  execution : s.execution.Follows s'.execution
  starts : s.execution = .notStarted → s'.execution ≠ .notStarted →
    ∃ attempt lease now, op = .start attempt now ∧ s.delivery = .received attempt lease ∧
      s'.attempt = some attempt ∧ s.cancellation = .none ∧ 0 ≤ now.val ∧ now.val < s.deadline.val

variable {s s' : RunState} {op : Operation}

theorem Moved.sound (moved : Moved s op s') (sound : s.Sound) : s'.Sound := by
  cases moved with
  | same => exact sound
  | leased _ _ idle _ within =>
    refine ⟨sound.started, fun started => absurd idle started, ?_⟩
    rintro _ ⟨rfl⟩
    exact within
  | receipted attempt =>
    refine ⟨sound.started, fun _ => ⟨attempt, s.deadline, rfl⟩, ?_⟩
    rintro _ ⟨rfl⟩
    exact Int.le_refl _
  | started attempt leaseUntil _ _ delivered =>
    exact ⟨by simp, fun _ => ⟨attempt, leaseUntil, delivered⟩, sound.leased⟩
  | settled execution unsettled outcome =>
    have open' : s.execution ≠ .notStarted := by
      intro idle
      rw [idle] at unsettled
      cases unsettled
    have open'' : execution ≠ .notStarted := by
      rcases outcome with rfl | rfl | rfl | rfl <;> simp
    exact ⟨⟨fun _ => open'', fun _ => sound.started.mpr open'⟩,
      fun _ => sound.delivered open', sound.leased⟩
  | cancelling => exact ⟨sound.started, sound.delivered, sound.leased⟩
  | confirmed =>
    by_cases running : s.execution = .running
    · have open' : s.execution ≠ .notStarted := by simp [running]
      exact ⟨⟨fun _ => by simp [running], fun _ => sound.started.mpr open'⟩,
        fun _ => sound.delivered open', sound.leased⟩
    · simp only [running, if_false]
      exact ⟨sound.started, sound.delivered, sound.leased⟩
  | expired => exact ⟨sound.started, sound.delivered, sound.leased⟩

theorem Moved.stepped (moved : Moved s op s') (sound : s.Sound) : Stepped s op s' := by
  cases moved with
  | same => exact ⟨rfl, fun _ h => h, fun _ => rfl, .inl rfl, fun idle started => absurd idle started⟩
  | leased _ _ idle =>
    exact ⟨rfl, fun _ h => h, fun started => absurd idle started, .inl rfl,
      fun idle started => absurd idle started⟩
  | receipted _ _ _ _ held =>
    exact ⟨rfl, fun _ h => h, fun _ => held.symm, .inl rfl,
      fun idle started => absurd idle started⟩
  | started attempt leaseUntil now is delivered idle free nonnegative early =>
    have fresh : s.startedAt = none := by
      rw [← Option.not_isSome_iff_eq_none, sound.started]
      exact fun started => started idle
    refine ⟨rfl, ?_, fun started => absurd idle started, .inr (.inl ⟨idle, rfl⟩), ?_⟩
    · intro t at'
      rw [fresh] at at'
      cases at'
    · intro _ _
      exact ⟨attempt, leaseUntil, now, is, delivered, by rw [RunState.attempt, delivered]; rfl,
        free, nonnegative, early⟩
  | settled _ unsettled outcome =>
    refine ⟨rfl, fun _ h => h, fun _ => rfl, .inr (.inr ⟨unsettled, ?_⟩), ?_⟩
    · rcases outcome with rfl | rfl | rfl | rfl <;> simp
    · intro idle
      rw [idle] at unsettled
      cases unsettled
  | cancelling => exact ⟨rfl, fun _ h => h, fun _ => rfl, .inl rfl, fun idle started => absurd idle started⟩
  | confirmed =>
    refine ⟨rfl, fun _ h => h, fun _ => rfl, ?_, ?_⟩
    · by_cases running : s.execution = .running
      · exact .inr (.inr ⟨by rw [running]; rfl, .inl (by simp [running])⟩)
      · exact .inl (by simp [running])
    · intro idle started
      simp [idle] at started
  | expired => exact ⟨rfl, fun _ h => h, fun _ => rfl, .inl rfl, fun idle started => absurd idle started⟩

theorem Execution.Follows.started {before after : Execution} (h : before.Follows after)
    (started : before ≠ .notStarted) : after ≠ .notStarted := by
  rcases h with rfl | ⟨idle, -⟩ | ⟨-, rfl | rfl | rfl | rfl⟩
  · exact started
  · exact absurd idle started
  all_goals simp

theorem Execution.Follows.settled {before after : Execution} (h : before.Follows after)
    (settled : before = .succeeded ∨ before = .failed) : after = before := by
  rcases h with same | ⟨idle, -⟩ | ⟨unsettled, -⟩
  · exact same
  · rcases settled with rfl | rfl <;> cases idle
  · rcases settled with rfl | rfl <;> cases unsettled

end

section

variable {s : RunState}

theorem run_cons (op : Operation) (ops : List Operation) :
    s.run (op :: ops) = (s.apply op).2.run ops := rfl

theorem run_append (ops later : List Operation) : s.run (ops ++ later) = (s.run ops).run later :=
  List.foldl_append

theorem new_sound {deadline now : I64} (h : RunState.new deadline now = .ok s) : s.Sound := by
  unfold RunState.new at h
  split at h
  · cases h
  · cases h
    refine ⟨by simp, fun started => absurd rfl started, ?_⟩
    rintro _ ⟨⟩

theorem RunState.Sound.run (sound : s.Sound) (ops : List Operation) : (s.run ops).Sound := by
  induction ops generalizing s with
  | nil => exact sound
  | cons op _ ih => exact ih ((apply_moved s op).sound sound)

/-- A started run keeps its attempt and its start, and a settled one its result. -/
structure Kept (s s' : RunState) : Prop where
  started : s.execution ≠ .notStarted → s'.execution ≠ .notStarted ∧ s'.attempt = s.attempt ∧
    s'.startedAt = s.startedAt
  settled : s.execution = .succeeded ∨ s.execution = .failed → s'.execution = s.execution
  dead : s.execution = .notStarted → s.cancellation = .confirmed →
    s'.execution = .notStarted ∧ s'.cancellation = .confirmed

theorem Kept.trans {a b c : RunState} (hab : Kept a b) (hbc : Kept b c) : Kept a c where
  started h := by
    obtain ⟨started, attempt, startedAt⟩ := hab.started h
    obtain ⟨started', attempt', startedAt'⟩ := hbc.started started
    exact ⟨started', attempt'.trans attempt, startedAt'.trans startedAt⟩
  settled h := by
    have first := hab.settled h
    exact (hbc.settled (first ▸ h)).trans first
  dead idle confirmed := by
    obtain ⟨idle', confirmed'⟩ := hab.dead idle confirmed
    exact hbc.dead idle' confirmed'

theorem Moved.kept {op : Operation} {s' : RunState} (moved : Moved s op s') (sound : s.Sound) :
    Kept s s' := by
  have stepped := moved.stepped sound
  refine ⟨?_, stepped.execution.settled, ?_⟩
  · intro started
    obtain ⟨t, at'⟩ := Option.isSome_iff_exists.mp (sound.started.mpr started)
    exact ⟨stepped.execution.started started, stepped.attempt started,
      (stepped.startedAt t at').trans at'.symm⟩
  · intro idle confirmed
    cases moved with
    | same => exact ⟨idle, confirmed⟩
    | leased _ _ _ free => exact absurd (free.symm.trans confirmed) (by simp)
    | receipted _ _ _ _ _ free | started _ _ _ _ _ _ free =>
      exact absurd (free.symm.trans confirmed) (by simp)
    | settled _ unsettled =>
      rw [idle] at unsettled
      cases unsettled
    | cancelling => exact ⟨idle, by simp [RunState.cancel, idle]⟩
    | confirmed requested => exact absurd (requested.symm.trans confirmed) (by simp)
    | expired => exact ⟨idle, rfl⟩

theorem RunState.Sound.kept (sound : s.Sound) (ops : List Operation) : Kept s (s.run ops) := by
  induction ops generalizing s with
  | nil => exact ⟨fun started => ⟨started, rfl, rfl⟩, fun _ => rfl, fun idle confirmed =>
    ⟨idle, confirmed⟩⟩
  | cons op _ ih =>
    have moved := apply_moved s op
    exact (moved.kept sound).trans (ih (moved.sound sound))

/-- The attempts of the calls that start the effect. -/
def RunState.starts (s : RunState) : List Operation → List Uuid
  | [] => []
  | op :: ops =>
      (if s.execution = .notStarted ∧ (s.apply op).2.execution ≠ .notStarted then
        (s.apply op).2.attempt.toList else []) ++ (s.apply op).2.starts ops

theorem starts_of_started (sound : s.Sound) (started : s.execution ≠ .notStarted)
    (ops : List Operation) : s.starts ops = [] := by
  induction ops generalizing s with
  | nil => rfl
  | cons op _ ih =>
    have moved := apply_moved s op
    have later := ((moved.kept sound).started started).1
    rw [RunState.starts, if_neg (fun idle => started idle.1), List.nil_append,
      ih (moved.sound sound) later]

theorem starts_once (sound : s.Sound) (ops : List Operation) :
    s.starts ops = [] ∨ ∃ attempt, s.starts ops = [attempt] ∧ (s.run ops).attempt = some attempt := by
  induction ops generalizing s with
  | nil => exact .inl rfl
  | cons op ops ih =>
    have moved := apply_moved s op
    have sound' := moved.sound sound
    rw [RunState.starts, run_cons]
    by_cases first : s.execution = .notStarted ∧ (s.apply op).2.execution ≠ .notStarted
    · obtain ⟨attempt, lease, now, -, -, held, -⟩ :=
        (moved.stepped sound).starts first.1 first.2
      refine .inr ⟨attempt, ?_, ?_⟩
      · rw [if_pos first, held, starts_of_started sound' first.2, List.append_nil]
        rfl
      · rw [((sound'.kept ops).started first.2).2.1, held]
    · rw [if_neg first, List.nil_append]
      exact ih sound'

/-- Every state a run reaches is sound, every call keeps to the life of an effect, a refused call
changes nothing, and whatever follows keeps the one start. -/
theorem run_safety {deadline now : I64} {s : RunState} (h : RunState.new deadline now = .ok s)
    (ops : List Operation) :
    (s.run ops).Sound ∧
    (∀ op, Stepped (s.run ops) op ((s.run ops).apply op).2) ∧
    (∀ op e, ((s.run ops).apply op).1 = .error e → ((s.run ops).apply op).2 = s.run ops) ∧
    (∀ later, Kept (s.run ops) ((s.run ops).run later)) ∧
    (s.starts ops).length ≤ 1 := by
  have sound := new_sound h
  have reached := sound.run ops
  refine ⟨reached, ?_, ?_, reached.kept, ?_⟩
  · intro op
    exact (apply_moved _ op).stepped reached
  · intro op e refused
    exact apply_error refused
  · rcases starts_once sound ops with none | ⟨attempt, one, -⟩
    · rw [none]
      exact Nat.zero_le _
    · rw [one]
      exact Nat.le_refl _

end

section

/-- Where a run comes from. -/
inductive Source where
  | deviceAccess (version delivery : Uuid)
  | policy (version : Uuid)
  | retirementSoftware (version retirement : Uuid)

inductive Status where
  | succeeded | failed | cancelled
deriving DecidableEq

def RunState.terminal (s : RunState) : Option Status :=
  match s.execution with
  | .succeeded => some .succeeded
  | .failed => some .failed
  | _ => if s.cancellation = .confirmed then some .cancelled else none

def Execution.status : Execution → Option Status
  | .succeeded => some .succeeded
  | .failed => some .failed
  | _ => none

/-- The event that a save of `next` over `previous` announces. -/
def announced (source : Source) (previous next : RunState) : Option Status :=
  match next.terminal, source with
  | some status, .policy _ =>
      if previous.execution.status ≠ some status &&
          !(status = .cancelled && previous.cancellation = .confirmed) then some status
      else none
  | _, _ => none

def events (source : Source) (s : RunState) : List (List Operation) → List Status
  | [] => []
  | ops :: saves =>
      (announced source s (s.run ops)).toList ++ events source (s.run ops) saves

def Cancellation.rank : Cancellation → Nat
  | .none => 0
  | .requested => 1
  | .confirmed => 2

/-- No call cancels a started run whose cancellation is already confirmed. -/
def Steady (s : RunState) : List Operation → Prop
  | [] => True
  | op :: ops =>
      (op = .cancel → s.execution = .notStarted ∨ s.cancellation ≠ .confirmed) ∧
        Steady (s.apply op).2 ops

instance decidableSteady : (ops : List Operation) → (s : RunState) → Decidable (Steady s ops)
  | [], _ => .isTrue trivial
  | op :: ops, s =>
      have : Decidable (Steady (s.apply op).2 ops) := decidableSteady ops _
      inferInstanceAs (Decidable ((op = .cancel → _) ∧ Steady (s.apply op).2 ops))

/-- Cancellation does not go back, and what is terminal stays so. -/
structure Onward (s s' : RunState) : Prop where
  cancellation : s.cancellation.rank ≤ s'.cancellation.rank
  terminal : s.terminal.isSome = true → s'.terminal.isSome = true
  settled : s.execution = .succeeded ∨ s.execution = .failed → s'.execution = s.execution

variable {s s' : RunState} {op : Operation} {source : Source}

theorem Onward.trans {a b c : RunState} (hab : Onward a b) (hbc : Onward b c) : Onward a c where
  cancellation := Nat.le_trans hab.cancellation hbc.cancellation
  terminal h := hbc.terminal (hab.terminal h)
  settled h := by
    have first := hab.settled h
    exact (hbc.settled (first ▸ h)).trans first

theorem rank_confirmed {c : Cancellation} (h : Cancellation.rank .confirmed ≤ c.rank) :
    c = .confirmed := by
  cases c with
  | confirmed => rfl
  | none | requested => exact absurd h (by decide)

theorem rank_le_confirmed (c : Cancellation) : c.rank ≤ Cancellation.rank .confirmed := by
  cases c <;> decide

theorem terminal_isSome : s.terminal.isSome = true ↔
    (s.execution = .succeeded ∨ s.execution = .failed) ∨ s.cancellation = .confirmed := by
  unfold RunState.terminal
  cases execution : s.execution <;> simp

theorem onward_of (rank : s.cancellation.rank ≤ s'.cancellation.rank)
    (settled : s.execution = .succeeded ∨ s.execution = .failed → s'.execution = s.execution) :
    Onward s s' := by
  refine ⟨rank, ?_, settled⟩
  rw [terminal_isSome, terminal_isSome]
  rintro (done | confirmed)
  · exact .inl (settled done ▸ done)
  · exact .inr (rank_confirmed (confirmed ▸ rank))

theorem Moved.onward (moved : Moved s op s')
    (steady : op = .cancel → s.execution = .notStarted ∨ s.cancellation ≠ .confirmed) :
    Onward s s' := by
  have open' : s.execution.unsettled = true → ¬(s.execution = .succeeded ∨ s.execution = .failed) := by
    rintro unsettled (done | done) <;> rw [done] at unsettled <;> cases unsettled
  cases moved with
  | same | leased | receipted => exact onward_of (le_rfl) fun _ => rfl
  | started _ _ _ _ _ idle =>
    refine onward_of (le_rfl) ?_
    rw [idle]
    rintro (done | done) <;> cases done
  | settled _ unsettled =>
    exact onward_of (le_rfl) fun done => absurd done (open' unsettled)
  | cancelling is =>
    refine onward_of ?_ fun _ => rfl
    by_cases idle : s.execution = .notStarted
    · simp only [RunState.cancel, idle, if_true]
      exact rank_le_confirmed _
    have before : s.cancellation ≠ .confirmed := (steady is).resolve_left idle
    simp only [RunState.cancel, idle, if_false]
    cases cancellation : s.cancellation with
    | none | requested => decide
    | confirmed => exact absurd cancellation before
  | confirmed =>
    refine onward_of (rank_le_confirmed _) ?_
    intro done
    by_cases running : s.execution = .running
    · rw [running] at done
      rcases done with done | done <;> cases done
    · simp only [running, if_false]
  | expired =>
    exact onward_of (rank_le_confirmed _) fun _ => rfl

theorem run_onward (ops : List Operation) (steady : Steady s ops) : Onward s (s.run ops) := by
  induction ops generalizing s with
  | nil => exact onward_of (le_rfl) fun _ => rfl
  | cons op _ ih => exact ((apply_moved s op).onward steady.1).trans (ih steady.2)

theorem steady_append {ops later : List Operation} :
    Steady s (ops ++ later) ↔ Steady s ops ∧ Steady (s.run ops) later := by
  induction ops generalizing s with
  | nil => exact ⟨fun h => ⟨trivial, h⟩, fun h => h.2⟩
  | cons _ _ ih =>
    rw [List.cons_append, Steady, Steady, run_cons, ih, and_assoc]

theorem announced_eq_some {status : Status} (h : announced source s s' = some status) :
    s'.terminal = some status ∧ s.execution.status ≠ some status ∧
      (status = .cancelled → s.cancellation ≠ .confirmed) := by
  unfold announced at h
  split at h
  · rename_i status' version terminal
    split at h
    · rename_i fresh
      cases h
      simp only [ne_eq, Bool.and_eq_true, decide_eq_true_eq, Bool.not_eq_true', Bool.and_eq_false_imp,
        decide_eq_false_iff_not] at fresh
      exact ⟨terminal, fresh.1, fresh.2⟩
    · cases h
  · cases h

theorem events_of_settled (settled : s.execution = .succeeded ∨ s.execution = .failed)
    (saves : List (List Operation)) (steady : Steady s saves.flatten) : events source s saves = [] := by
  induction saves generalizing s with
  | nil => rfl
  | cons ops _ ih =>
    rw [List.flatten_cons, steady_append] at steady
    have same := (run_onward ops steady.1).settled settled
    have nothing : announced source s (s.run ops) = none := by
      cases event : announced source s (s.run ops) with
      | none => rfl
      | some =>
        obtain ⟨terminal, fresh, -⟩ := announced_eq_some event
        rcases settled with done | done <;>
          · rw [RunState.terminal, same, done] at terminal
            rw [done] at fresh
            exact absurd terminal fresh
    rw [events, nothing, ih (same ▸ settled) steady.2]
    rfl

theorem events_of_confirmed (confirmed : s.cancellation = .confirmed)
    (saves : List (List Operation)) (steady : Steady s saves.flatten) :
    .cancelled ∉ events source s saves := by
  induction saves generalizing s with
  | nil => simp [events]
  | cons ops _ ih =>
    rw [List.flatten_cons, steady_append] at steady
    have rank := (run_onward ops steady.1).cancellation
    have later : (s.run ops).cancellation = .confirmed := rank_confirmed (confirmed ▸ rank)
    rw [events, List.mem_append]
    rintro (event | event)
    · have first := announced_eq_some (Option.mem_toList.mp event)
      exact first.2.2 rfl confirmed
    · exact ih later steady.2 event

theorem events_once (saves : List (List Operation)) (steady : Steady s saves.flatten) :
    (events source s saves).Nodup ∧
      ¬(.succeeded ∈ events source s saves ∧ .failed ∈ events source s saves) := by
  induction saves generalizing s with
  | nil => exact ⟨List.nodup_nil, by simp [events]⟩
  | cons ops saves ih =>
    rw [List.flatten_cons, steady_append] at steady
    obtain ⟨nodup, single⟩ := ih steady.2
    rw [events]
    cases event : announced source s (s.run ops) with
    | none => exact ⟨nodup, single⟩
    | some status =>
      obtain ⟨terminal, -, -⟩ := announced_eq_some event
      have settled : status ≠ .cancelled →
          events source (s.run ops) saves = [] := by
        intro settled
        refine events_of_settled ?_ saves steady.2
        unfold RunState.terminal at terminal
        split at terminal
        · exact .inl ‹_›
        · exact .inr ‹_›
        · split at terminal
          · exact absurd (Option.some.inj terminal).symm settled
          · cases terminal
      cases status with
      | succeeded | failed =>
        rw [settled (by simp)]
        exact ⟨by simp, by simp⟩
      | cancelled =>
        have confirmed : (s.run ops).cancellation = .confirmed := by
          unfold RunState.terminal at terminal
          split at terminal
          · cases terminal
          · cases terminal
          · split at terminal
            · assumption
            · cases terminal
        have again : .cancelled ∉ events source (s.run ops) saves :=
          events_of_confirmed confirmed saves steady.2
        refine ⟨List.nodup_cons.mpr ⟨again, nodup⟩, ?_⟩
        simpa using single

/-- While no call cancels a started run that was already cancelled, cancellation and terminal states
only go forward, and each terminal status is announced once. -/
theorem cancellation_onward (source : Source) (s : RunState) (saves : List (List Operation))
    (steady : Steady s saves.flatten) :
    (∀ ops later rest, saves.flatten = ops ++ later ++ rest →
      (s.run ops).cancellation.rank ≤ (s.run (ops ++ later)).cancellation.rank ∧
      ((s.run ops).terminal.isSome = true → (s.run (ops ++ later)).terminal.isSome = true)) ∧
    (events source s saves).Nodup ∧
    ¬(.succeeded ∈ events source s saves ∧ .failed ∈ events source s saves) := by
  refine ⟨?_, events_once saves steady⟩
  intro ops later rest eq
  rw [eq, steady_append, steady_append] at steady
  have onward := run_onward later steady.1.2
  rw [run_append]
  exact ⟨onward.cancellation, onward.terminal⟩

end

namespace Sample

def time (n : Fin 1000) : I64 := ⟨n, by omega, by omega⟩

def queued : RunState := ⟨.queued, .notStarted, .none, time 300, none⟩

def starting : List Operation :=
  [.claim 1 (time 0), .received 1 (time 1), .start 1 (time 2)]

theorem run_safety_started : RunState.new (time 300) (time 0) = .ok queued ∧
    (queued.run starting).execution = .running ∧ (queued.run starting).Sound ∧
    (queued.starts starting).length ≤ 1 := by
  have created : RunState.new (time 300) (time 0) = .ok queued := by decide
  have safe := run_safety created starting
  exact ⟨created, by decide, safe.1, safe.2.2.2.2⟩

def cancelling : List Operation := [.cancel, .cancelled 1]

theorem cancellation_onward_cancelled : Steady queued [starting, cancelling].flatten ∧
    (events (.policy 7) queued [starting, cancelling]).Nodup ∧
    events (.policy 7) queued [starting, cancelling] = [.cancelled] := by
  have steady : Steady queued [starting, cancelling].flatten := by decide
  exact ⟨steady, (cancellation_onward (.policy 7) queued _ steady).2.1, by decide⟩

/-- A second cancellation of a started run takes its confirmation back, and the status is announced
twice. -/
theorem cancel_undoes_confirmation : RunState.new (time 300) (time 0) = .ok queued ∧
    (queued.run (starting ++ cancelling)).cancellation = .confirmed ∧
    (queued.run (starting ++ cancelling)).terminal = some .cancelled ∧
    (queued.run (starting ++ cancelling ++ [.cancel])).cancellation = .requested ∧
    (queued.run (starting ++ cancelling ++ [.cancel])).terminal = none ∧
    events (.policy 7) queued [starting ++ cancelling, [.cancel], [.cancelled 1]] =
      [.cancelled, .cancelled] := by
  decide

end Sample

end RssMdm.Actions
