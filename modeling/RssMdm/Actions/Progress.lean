/- module: Actions/Progress
   source: crates/execution-service/src/actions/state.rs, actions/agent.rs
   digest: What a change of the store does to the state of one stored run. -/

import RssMdm.Actions.Changes

set_option autoImplicit false

namespace RssMdm.Actions

open RssMdm.Lib RssMdm.Lib.Int64
open RssMdm.Policy (Uuid TimeZones)
open Software (Associations)

/-- The moves of one run; `fresh` holds of the attempt ids that are used from now on. -/
inductive Progress (now : I64) (run : Run) (fresh : Uuid → Prop) : RunState → Prop where
  | same : Progress now run fresh run.state
  | operated (op : Operation) (plain : op.Plain now) : Progress now run fresh (run.state.apply op).2
  | claimed (attempt : Uuid) (kind : run.kind.byAgent = true) (unused : fresh attempt)
      (state : RunState) (claims : run.state.claim attempt now = (.ok (), state)) :
      Progress now run fresh state
  | started (attempt : Uuid) (idle : run.state.execution = .notStarted) (state : RunState)
      (starts : run.state.start attempt now = (.ok (), state)) : Progress now run fresh state
  | sent (claimed received state : RunState) (kind : run.kind = .mdmSoftware)
      (idle : run.state.execution = .notStarted)
      (claims : run.state.claim run.id now = (.ok (), claimed))
      (receives : claimed.received run.id now = (.ok (), received))
      (starts : received.start run.id now = (.ok (), state)) : Progress now run fresh state
  | recalled (kind : run.kind = .mdmSoftware) :
      Progress now run fresh { run.state with execution := .notStarted, cancellation := .confirmed }

/-- What stays of a run, and how its state moved. -/
structure Run.Evolves (now : I64) (fresh : Uuid → Prop) (run run' : Run) : Prop where
  id : run'.id = run.id
  kind : run'.kind = run.kind
  target : run'.target = run.target
  created : run'.createdAt = run.createdAt
  deadline : run'.deadline = run.deadline
  effect : run'.effect = run.effect ∨ run.effect = none
  state : Progress now run fresh run'.state

variable {D : Documents} {g : Signing D} {t : Associations} {now : I64} {s s' : Store D}
  {run run' : Run} {id : Uuid}

theorem evolves_refl {fresh : Uuid → Prop} : run.Evolves now fresh run :=
  ⟨rfl, rfl, rfl, rfl, rfl, .inl rfl, .same⟩

theorem saved_cases {saved : Run} {fresh : Uuid → Prop} (before : s.runs.get? saved.id = some run')
    (stored : s.runs.get? id = some run) (evolves : run'.Evolves now fresh saved) :
    ∃ next, (s.saveRun saved).runs.get? id = some next ∧ run.Evolves now fresh next := by
  rw [get?_saveRun]
  by_cases same : id = saved.id
  · rw [if_pos same]
    rw [← same, stored] at before
    cases before
    exact ⟨saved, rfl, evolves⟩
  · rw [if_neg same]
    exact ⟨run, stored, evolves_refl⟩

theorem change_run (h : Change g t now s s') (stored : s.runs.get? id = some run) :
    ∃ run', s'.runs.get? id = some run' ∧
      run.Evolves now (fun attempt => s.attempts.get? attempt = none ∧
        (s'.attempts.get? attempt).isSome = true) run' := by
  cases h with
  | queued _ fresh =>
    refine ⟨run, ?_, evolves_refl⟩
    rw [get?_saveRun, if_neg]
    · exact stored
    · rintro rfl
      rw [fresh] at stored
      cases stored
  | noted _ _ there same kind target created deadline effect state =>
    refine saved_cases (same ▸ there) stored ⟨same, kind, target, created, deadline, .inl effect, ?_⟩
    rw [state]
    exact .same
  | effected _ _ _ _ there bare =>
    exact saved_cases there stored ⟨rfl, rfl, rfl, rfl, rfl, .inr bare, .same⟩
  | operated _ op _ there plain =>
    exact saved_cases there stored ⟨rfl, rfl, rfl, rfl, rfl, .inl rfl, .operated op plain⟩
  | claimed _ attempt row state there kind fresh _ claims =>
    have used : ((s.attempts.insert attempt row).get? attempt).isSome = true := by
      rw [OrdMap.get?_insert, if_pos rfl]
      rfl
    exact saved_cases there stored
      ⟨rfl, rfl, rfl, rfl, rfl, .inl rfl, .claimed attempt kind ⟨fresh, used⟩ state claims⟩
  | started _ attempt _ _ _ state there idle _ _ starts =>
    exact saved_cases there stored
      ⟨rfl, rfl, rfl, rfl, rfl, .inl rfl, .started attempt idle state starts⟩
  | sent _ claimed received state there kind idle claims receives starts =>
    exact saved_cases there stored ⟨rfl, rfl, rfl, rfl, rfl, .inl rfl,
      .sent claimed received state kind idle claims receives starts⟩
  | recalled _ _ there kind =>
    exact saved_cases there stored ⟨rfl, rfl, rfl, rfl, rfl, .inl rfl, .recalled kind⟩
  | receipted | paged => exact ⟨run, stored, evolves_refl⟩

theorem change_new (h : Change g t now s s') (absent : s.runs.get? id = none)
    (stored : s'.runs.get? id = some run) :
    RunState.new run.deadline now = .ok run.state ∧ run.createdAt = now ∧ run.effect = none := by
  have old : ∀ saved before : Run, (s.saveRun saved).runs.get? id = some run →
      s.runs.get? saved.id = some before → False := by
    intro saved before found there
    rw [get?_saveRun] at found
    split at found
    · rename_i same
      rw [← same, absent] at there
      cases there
    · rw [absent] at found
      cases found
  cases h with
  | queued _ _ new created bare =>
    rw [get?_saveRun] at stored
    split at stored
    · cases stored
      exact ⟨new, created, bare⟩
    · rw [absent] at stored
      cases stored
  | noted before saved there same => exact (old saved before stored (same ▸ there)).elim
  | effected before _ _ _ there | operated before _ _ there => exact (old _ before stored there).elim
  | claimed before _ _ state there => exact (old { before with state } before stored there).elim
  | started before _ _ _ _ state there =>
    exact (old { before with state } before stored there).elim
  | sent before _ _ _ there | recalled before _ there => exact (old _ before stored there).elim
  | receipted =>
    exact absurd (absent.symm.trans stored) (by simp)
  | paged => exact absurd (absent.symm.trans stored) (by simp)

theorem change_stored (h : Change g t now s s') (stored : s'.runs.get? id = some run') :
    (RunState.new run'.deadline now = .ok run'.state ∧ run'.createdAt = now ∧ run'.effect = none) ∨
      ∃ run, s.runs.get? id = some run ∧
        run.Evolves now (fun attempt => s.attempts.get? attempt = none ∧
          (s'.attempts.get? attempt).isSome = true) run' := by
  cases before : s.runs.get? id with
  | none => exact .inl (change_new h before stored)
  | some run =>
    obtain ⟨next, kept, evolves⟩ := change_run h before
    rw [stored] at kept
    cases kept
    exact .inr ⟨run, rfl, evolves⟩

theorem new_eq_ok {deadline : I64} {state : RunState} (h : RunState.new deadline now = .ok state) :
    state = ⟨.queued, .notStarted, .none, deadline, none⟩ ∧ now.val < deadline.val := by
  unfold RunState.new at h
  obtain ⟨valid, h⟩ := Fallible.guard_eq_ok.mp h
  cases h
  simp only [Bool.or_eq_true, decide_eq_true_eq, not_or, not_le] at valid
  exact ⟨rfl, valid.1⟩

theorem change_receipts (h : Change g t now s s') {key : ReceiptKey} {kept : Receipt D}
    (there : s.receipts.get? key = some kept) : s'.receipts.get? key = some kept := by
  cases h with
  | receipted _ _ _ fresh =>
    show (s.receipts.insert _ _).get? key = some kept
    exact OrdMap.get?_insert_absent fresh there
  | queued | noted | effected | operated | claimed | started | sent | recalled | paged => exact there

theorem change_attempts (h : Change g t now s s') {attempt : Uuid}
    (used : (s.attempts.get? attempt).isSome = true) : (s'.attempts.get? attempt).isSome = true := by
  have inserted : ∀ other row, ((s.attempts.insert other row).get? attempt).isSome = true := by
    intro other row
    rw [OrdMap.get?_insert]
    split
    · rfl
    · exact used
  cases h with
  | claimed _ other row => exact inserted other row
  | started _ other => exact inserted other _
  | queued | noted | effected | operated | sent | recalled | receipted | paged => exact used

variable {Zone : Type} {tz : TimeZones Zone} {P : Store D → Prop}

theorem changes_keep (h : Changes g t now s s') (start : P s)
    (step : ∀ s s', Change g t now s s' → P s → P s') : P s' := by
  induction h with
  | refl => exact start
  | tail _ change kept => exact step _ _ change kept

theorem apply_keep (call : Call D) (start : P s)
    (step : ∀ now s s', Change g t now s s' → P s → P s') : P (s.apply g tz t call).2 := by
  cases time : call.now with
  | none =>
    have changes : Changes g t ⟨0, by decide, by decide⟩ s (s.apply g tz t call).2 := by
      refine apply_changes (fun at' is => ?_)
      rw [time] at is
      cases is
    exact changes_keep changes start (step _)
  | some now =>
    have changes : Changes g t now s (s.apply g tz t call).2 := by
      refine apply_changes (fun at' is => ?_)
      rw [time] at is
      exact (Option.some.inj is).symm
    exact changes_keep changes start (step now)

theorem after_keep (calls : List (Call D)) (start : P s)
    (step : ∀ now s s', Change g t now s s' → P s → P s') : P (s.after g tz t calls) := by
  induction calls generalizing s with
  | nil => exact start
  | cons call _ ih => exact ih (apply_keep call start step)

theorem after_append (early later : List (Call D)) :
    s.after g tz t (early ++ later) = (s.after g tz t early).after g tz t later :=
  List.foldl_append

variable {fresh : Uuid → Prop} {state : RunState} {attempt : Uuid} {r : RunState} {r' : RunState}

theorem claim_eq_ok (h : r.claim attempt now = (.ok (), r')) :
    now.val < r.deadline.val ∧ r.execution = .notStarted ∧ r.cancellation = .none := by
  unfold RunState.claim at h
  split at h
  · cases h
  · rename_i open'
    simp only [Bool.or_eq_true, decide_eq_true_eq, not_or, ne_eq, not_not] at open'
    exact ⟨Int.lt_of_not_ge open'.1.1.2, open'.1.2, open'.2⟩

theorem lease_state (h : r.lease attempt now = (.ok (), r')) :
    ∃ delivery, r' = { r with delivery } := by
  unfold RunState.lease at h
  split at h
  · cases h
  · cases h
    exact ⟨_, rfl⟩

theorem claim_state (h : r.claim attempt now = (.ok (), r')) :
    ∃ delivery, r' = { r with delivery } := by
  have again : ∀ (old : Uuid) (leaseUntil : I64),
      (if old = attempt && now.val < leaseUntil.val then ((.ok (), r) : Answer)
        else if now.val < leaseUntil.val || old = attempt then (.error .conflict, r)
        else r.lease attempt now) = (.ok (), r') → ∃ delivery, r' = { r with delivery } := by
    intro old leaseUntil h
    split at h
    · cases h
      exact ⟨r.delivery, rfl⟩
    · split at h
      · cases h
      · exact lease_state h
  unfold RunState.claim at h
  split at h
  · cases h
  split at h
  · exact lease_state h
  · exact again _ _ h
  · exact again _ _ h

theorem received_holder (h : r.received attempt now = (.ok (), r')) : r.attempt = some attempt := by
  unfold RunState.received at h
  split at h
  · cases h
  rename_i lease live
  rw [RunState.attempt]
  rcases (liveAttempt_eq_ok live).1 with delivered | delivered
  · rw [delivered]
    rfl
  · rw [delivered]
    rfl

theorem sent_eq {claimed received sent : RunState} (idle : r.execution = .notStarted)
    (claims : r.claim attempt now = (.ok (), claimed))
    (receives : claimed.received attempt now = (.ok (), received))
    (starts : received.start attempt now = (.ok (), sent)) :
    r.cancellation = .none ∧ sent = { r with
      delivery := .received attempt r.deadline, execution := .running, startedAt := some now } := by
  obtain ⟨delivery, rfl⟩ := claim_state claims
  have began : received.execution = .notStarted := by
    rw [received_eq_ok receives]
    exact idle
  obtain ⟨-, -, -, rfl⟩ := start_eq_ok began starts
  refine ⟨(claim_eq_ok claims).2.2, ?_⟩
  rw [received_eq_ok receives]

theorem progress_cases {P : RunState → Prop} (h : Progress now run fresh state) (start : P run.state)
    (step : ∀ s op, P s → P (s.apply op).2)
    (back : ∀ s, P s → P { s with execution := .notStarted, cancellation := .confirmed }) :
    P state := by
  cases h with
  | same => exact start
  | operated op => exact step _ op start
  | claimed attempt _ _ _ claims =>
    have moved := step run.state (.claim attempt now) start
    rwa [RunState.apply, claims] at moved
  | started attempt _ _ starts =>
    have moved := step run.state (.start attempt now) start
    rwa [RunState.apply, starts] at moved
  | sent claimed received state _ _ claims receives starts =>
    have first := step run.state (.claim run.id now) start
    rw [RunState.apply, claims] at first
    have second := step claimed (.received run.id now) first
    rw [RunState.apply, receives] at second
    have third := step received (.start run.id now) second
    rwa [RunState.apply, starts] at third
  | recalled => exact back _ start

theorem deadline_apply {op : Operation} : (r.apply op).2.deadline = r.deadline := by
  have moved := apply_moved r op
  generalize (r.apply op).2 = r' at moved
  cases moved <;> rfl

theorem deadline_progress (h : Progress now run fresh state) : state.deadline = run.state.deadline :=
  progress_cases (P := fun s => s.deadline = run.state.deadline) h rfl
    (fun _ _ kept => deadline_apply.trans kept) (fun _ kept => kept)

/-- What no transaction takes back. -/
structure Store.Remembers (s s' : Store D) : Prop where
  runs : ∀ {id run}, s.runs.get? id = some run → ∃ run', s'.runs.get? id = some run' ∧
    run'.kind = run.kind ∧ run'.target = run.target ∧ run'.createdAt = run.createdAt ∧
    run'.deadline = run.deadline ∧ ∀ effect, run.effect = some effect → run'.effect = some effect
  attempts : ∀ {attempt row}, s.attempts.get? attempt = some row →
    s'.attempts.get? attempt = some row ∨ row.permit = none ∧
      ∃ permit material, s'.attempts.get? attempt = some { row with permit := some permit, material }
  receipts : ∀ {key kept}, s.receipts.get? key = some kept → s'.receipts.get? key = some kept

theorem Store.Remembers.refl : s.Remembers s where
  runs := fun stored => ⟨_, stored, rfl, rfl, rfl, rfl, fun _ is => is⟩
  attempts := .inl
  receipts := fun stored => stored

theorem Store.Remembers.trans {s'' : Store D} (first : s.Remembers s') (later : s'.Remembers s'') :
    s.Remembers s'' where
  runs := by
    intro id run stored
    obtain ⟨run', stored', kind, target, created, deadline, effect⟩ := first.runs stored
    obtain ⟨run'', stored'', kind', target', created', deadline', effect'⟩ := later.runs stored'
    exact ⟨run'', stored'', kind'.trans kind, target'.trans target, created'.trans created,
      deadline'.trans deadline, fun e is => effect' e (effect e is)⟩
  attempts := by
    intro attempt row stored
    rcases first.attempts stored with stored' | ⟨unpermitted, permit, material, stored'⟩
    · exact later.attempts stored'
    · rcases later.attempts stored' with kept | ⟨again, -⟩
      · exact .inr ⟨unpermitted, permit, material, kept⟩
      · cases again
  receipts := fun stored => later.receipts (first.receipts stored)

theorem change_remembers (h : Change g t now s s') : s.Remembers s' where
  runs := by
    intro id run stored
    obtain ⟨run', stored', evolves⟩ := change_run h stored
    refine ⟨run', stored', evolves.kind, evolves.target, evolves.created, evolves.deadline, ?_⟩
    intro effect is
    rcases evolves.effect with same | bare
    · rw [same, is]
    · rw [bare] at is
      cases is
  attempts := by
    intro attempt row stored
    cases h with
    | claimed _ other _ _ _ _ fresh =>
      refine .inl ?_
      show (s.attempts.insert other _).get? attempt = some row
      exact OrdMap.get?_insert_absent fresh stored
    | started _ other _ permit material _ _ _ kept unpermitted =>
      by_cases same : attempt = other
      · rw [same, kept] at stored
        cases stored
        refine .inr ⟨unpermitted, permit, material, ?_⟩
        rw [same]
        exact (OrdMap.get?_insert _ _ _ _).trans (if_pos rfl)
      · exact .inl ((OrdMap.get?_insert _ _ _ _).trans ((if_neg same).trans stored))
    | queued | noted | effected | operated | sent | recalled | receipted | paged => exact .inl stored
  receipts := change_receipts h

/-- Over any sequence of transactions the record of runs, attempts and receipts only grows: of an
attempt only the permit and the material change, together and once. -/
theorem record_grows (s : Store D) (calls : List (Call D)) : s.Remembers (s.after g tz t calls) :=
  after_keep calls .refl fun _ _ _ change kept => kept.trans (change_remembers change)

end RssMdm.Actions
