/- module: Actions/Changes
   source: crates/execution-service/src/actions/agent.rs, actions/software.rs, actions/recovery.rs
   digest: Everything a call can do to the store, as a few kinds of single changes. -/

import RssMdm.Actions.Recovery

set_option autoImplicit false

namespace RssMdm.Actions

open RssMdm.Lib RssMdm.Lib.Fallible RssMdm.Lib.Int64
open RssMdm.Policy (Uuid TimeZones)
open Software (Associations conflicts unresolved)
open List (mem_cons mem_singleton not_mem_nil)

/-- The operations that neither claim nor start a run. -/
def Operation.Plain (now : I64) : Operation → Prop
  | .claim _ _ | .start _ _ => False
  | .received _ time | .expire time => time = now
  | .result _ _ | .uncertainResult _ | .waitingReboot _ | .cancel | .cancelled _ => True

section

/-- Unreleased members of one association that is not revoked. -/
def Software.Associations.Linked (t : Associations) (a b : String) : Prop :=
  ∃ anchor ∈ t.members, ∃ link ∈ t.associations, ∃ peer ∈ t.members,
    anchor.device = a ∧ anchor.released = false ∧ link.id = anchor.association ∧
      link.revoked = false ∧ peer.association = link.id ∧ peer.released = false ∧ peer.device = b

/-- Endpoints whose effects are taken together. -/
def Software.Associations.Associated (t : Associations) (a b : String) : Prop := a = b ∨ t.Linked a b

variable {t : Associations} {a b : String}

theorem linked_symm (h : t.Linked a b) : t.Linked b a := by
  obtain ⟨anchor, anchored, link, linked, peer, peered, rfl, open', same, valid, joined, free, rfl⟩ := h
  exact ⟨peer, peered, link, linked, anchor, anchored, rfl, free, joined.symm, valid, same.symm, open',
    rfl⟩

theorem associated_symm (h : t.Associated a b) : t.Associated b a := by
  rcases h with rfl | h
  · exact .inl rfl
  · exact .inr (linked_symm h)

theorem mem_peers : b ∈ t.peers a ↔ t.Linked a b := by
  simp only [Associations.peers, List.mem_flatMap, List.mem_filter, Bool.and_eq_true,
    decide_eq_true_eq, Bool.not_eq_true', List.mem_map, Associations.Linked]
  constructor
  · rintro ⟨anchor, ⟨anchored, rfl, open'⟩, link, ⟨linked, same, valid⟩, peer, ⟨peered, joined, free⟩, rfl⟩
    exact ⟨anchor, anchored, link, linked, peer, peered, rfl, open', same, valid, joined, free, rfl⟩
  · rintro ⟨anchor, anchored, link, linked, peer, peered, rfl, open', same, valid, joined, free, rfl⟩
    exact ⟨anchor, ⟨anchored, rfl, open'⟩, link, ⟨linked, same, valid⟩, peer, ⟨peered, joined, free⟩,
      rfl⟩

theorem effectDevices_eq_ok {devices : List String} (h : t.effectDevices a = .ok devices) :
    b ∈ devices ↔ t.Associated a b := by
  unfold Associations.effectDevices at h
  obtain ⟨few, h⟩ := of_guard h
  have all : ((t.peers a).insertionSort (· ≤ ·)).take 3 = (t.peers a).insertionSort (· ≤ ·) := by
    rw [List.take_eq_self_iff]
    simp only [List.length_take] at few
    omega
  rw [all] at h
  cases h
  rw [List.mem_dedup, List.mem_insertionSort, List.mem_append, List.mem_insertionSort,
    mem_singleton, mem_peers, Associations.Associated, or_comm, eq_comm]

end

variable {D : Documents} {Zone : Type} (g : Signing D) (tz : TimeZones Zone) (t : Associations)

def Run.ReceivedBy (run : Run) (attempt : Uuid) : Prop :=
  ∃ lease, run.state.delivery = .received attempt lease

/-- What a kept answer says about its request. -/
def Request.Truthful (s : Store D) : Request D → Response D → Prop
  | .claim _, .claimed response =>
      ∀ task, response.task = some task → task.payload.permit = .offer
  | .event task input, .acknowledged ack =>
      (input.event.isDelivery = true →
        ∃ run, s.runs.get? task = some run ∧ run.ReceivedBy input.attemptId) ∧
      ∀ permit, ack.permit = some permit →
        input.event.isStart = true ∧ permit.payload.taskId = task ∧
          permit.payload.attemptId = input.attemptId ∧ permit.payload.permit = .start
  | _, _ => False

inductive Change (now : I64) (s : Store D) : Store D → Prop where
  | queued (run : Run) (fresh : s.runs.get? run.id = none)
      (new : RunState.new run.deadline now = .ok run.state) (created : run.createdAt = now)
      (bare : run.effect = none) : Change now s (s.saveRun run)
  | noted (run run' : Run) (stored : s.runs.get? run.id = some run) (id : run'.id = run.id)
      (kind : run'.kind = run.kind) (target : run'.target = run.target)
      (created : run'.createdAt = run.createdAt) (deadline : run'.deadline = run.deadline)
      (effect : run'.effect = run.effect) (state : run'.state = run.state) :
      Change now s (s.saveRun run')
  | effected (run : Run) (effect : Effect) (invocation : Option Invocation) (asked : I64)
      (stored : s.runs.get? run.id = some run) (bare : run.effect = none)
      (asks : asked = now ∨ asked = run.createdAt)
      (clear : ∀ other, s.runs.get? other.id = some other → other.id ≠ run.id →
        t.Associated run.target.device other.target.device →
        ∀ persisted, other.effect = some persisted → conflicts persisted effect = true →
          unresolved asked other = false) :
      Change now s (s.saveRun { run with effect := some effect, invocation })
  | operated (run : Run) (op : Operation) (result : Option SoftwareResult)
      (stored : s.runs.get? run.id = some run) (plain : op.Plain now) :
      Change now s (s.saveRun { run with state := (run.state.apply op).2, result })
  | claimed (run : Run) (attempt : Uuid) (row : Attempt D) (state : RunState)
      (stored : s.runs.get? run.id = some run) (kind : run.kind.byAgent = true)
      (fresh : s.attempts.get? attempt = none) (owner : row.run = run.id)
      (claims : run.state.claim attempt now = (.ok (), state)) :
      Change now s (Store.saveRun { s with attempts := s.attempts.insert attempt row }
        { run with state })
  | started (run : Run) (attempt : Uuid) (row : Attempt D) (permit : SignedTask D)
      (material : Option D.Material) (state : RunState)
      (stored : s.runs.get? run.id = some run) (idle : run.state.execution = .notStarted)
      (kept : s.attempts.get? attempt = some row) (unpermitted : row.permit = none)
      (starts : run.state.start attempt now = (.ok (), state)) :
      Change now s (Store.saveRun
        { s with attempts := s.attempts.insert attempt { row with permit := some permit, material } }
        { run with state })
  | sent (run : Run) (claimed received state : RunState) (stored : s.runs.get? run.id = some run)
      (kind : run.kind = .mdmSoftware) (idle : run.state.execution = .notStarted)
      (claims : run.state.claim run.id now = (.ok (), claimed))
      (receives : claimed.received run.id now = (.ok (), received))
      (starts : received.start run.id now = (.ok (), state)) :
      Change now s (s.saveRun { run with state })
  | recalled (run : Run) (result : Option SoftwareResult) (stored : s.runs.get? run.id = some run)
      (kind : run.kind = .mdmSoftware) :
      Change now s (s.saveRun { run with
        state := { run.state with execution := .notStarted, cancellation := .confirmed }
        result })
  | receipted (registration : Uuid) (request : Request D) (response : Response D)
      (fresh : s.receipts.get? (toLex (registration, request.operationId)) = none)
      (truth : request.Truthful s response) :
      Change now s { s with
        receipts := s.receipts.insert (toLex (registration, request.operationId))
          ⟨g.fingerprint request, response⟩ }
  | paged (registration : Uuid) (after : Option Uuid) :
      Change now s { s with cancellationAfter := s.cancellationAfter.insert registration after }

abbrev Changes (now : I64) : Store D → Store D → Prop :=
  Relation.ReflTransGen (Change g t now)

section

variable {s : Store D} {run run' : Run} {id : Uuid}

theorem loadRun_eq_ok : s.loadRun id = .ok run ↔ s.runs.get? id = some run := by
  unfold Store.loadRun
  cases s.runs.get? id with
  | none | some => simp

theorem stored_of_loadRun (h : s.loadRun id = .ok run) : run.id = id ∧ s.runs.get? run.id = some run := by
  have found := loadRun_eq_ok.mp h
  have same := s.keyed id run found
  exact ⟨same, same ▸ found⟩

theorem get?_saveRun (j : Uuid) :
    (s.saveRun run).runs.get? j = if j = run.id then some run else s.runs.get? j :=
  OrdMap.get?_insert s.runs run.id j run

theorem stored_saveRun : (s.saveRun run).runs.get? run.id = some run := by
  rw [get?_saveRun, if_pos rfl]

theorem saveRun_saveRun (same : run.id = run'.id) : (s.saveRun run).saveRun run' = s.saveRun run' := by
  apply Store.ext
  · show (s.runs.insert run.id run).insert run'.id run' = s.runs.insert run'.id run'
    rw [same, OrdMap.insert_insert]
  · rfl
  · rfl
  · rfl

theorem state_eq_ok {answer : Answer} {state : RunState} (h : answer.state = .ok state) :
    answer = (.ok (), state) := by
  obtain ⟨outcome, left⟩ := answer
  cases outcome with
  | error => cases h
  | ok =>
    cases h
    rfl

end

section

variable {g t} {s s' : Store D} {now : I64}

theorem changes_of_operations {run : Run} {ops : List Operation} (result : Option SoftwareResult)
    (stored : s.runs.get? run.id = some run) (plain : ∀ op ∈ ops, op.Plain now) :
    Changes g t now s (s.saveRun { run with state := run.state.run ops, result }) := by
  induction ops generalizing s run with
  | nil => exact .single (.noted run _ stored rfl rfl rfl rfl rfl rfl rfl)
  | cons op ops ih =>
    let next : Run := { run with state := (run.state.apply op).2, result }
    have first : Change g t now s (s.saveRun next) :=
      .operated run op result stored (plain op (.head _))
    have rest := ih (stored_saveRun : (s.saveRun next).runs.get? next.id = some next)
      (fun later mem => plain later (.tail _ mem))
    rw [saveRun_saveRun (by rfl)] at rest
    exact .head first rest

variable {input : Store.RunInput}

theorem queueRunIn_eq_ok (h : s.queueRunIn input now = .ok s') :
    ∃ run, s' = s.saveRun run ∧ Change g t now s (s.saveRun run) ∧ run.id = input.id ∧
      run.target = input.target ∧ run.createdAt = now ∧ run.effect = none ∧
      s.runs.get? run.id = none := by
  unfold Store.queueRunIn at h
  obtain ⟨state, new, h⟩ := of_bind h
  obtain ⟨valid, h⟩ := of_guard h
  cases h
  have untaken : s.runs.get? input.id = none := by
    simp only [Bool.or_eq_true, not_or, Store.taken] at valid
    exact Option.not_isSome_iff_eq_none.mp valid.2.1
  exact ⟨_, rfl, .queued _ untaken (mapError_eq_ok.mp new) rfl rfl, rfl, rfl, rfl, rfl, untaken⟩

open Software

variable {request : Option Software.Invocation} {slot : Slot} {target : Target}
  {policy : SoftwarePolicy}

theorem coordinate_not_ready {tz : TimeZones Zone} {last : Option I64} {failures : Nat} :
    coordinate tz policy target request now last failures ≠ .ok (.inr (.ready slot)) := by
  intro h
  unfold coordinate at h
  split at h
  · cases h
  split at h
  · split at h <;> cases h
  · simp only at h
    split at h
    · split at h <;> cases h
    · cases h
  · cases h
  all_goals
    obtain ⟨due, -, h⟩ := of_bind h
    split at h <;> cases h

variable {existing : Option Uuid}

theorem place_ready {tz : TimeZones Zone} {stage : Uuid} {key : Effect} {steps : Nat}
    {runs : List Run}
    (h : place tz s policy target request now existing stage key steps runs = .ok (.ready slot)) :
    slot.effect = key := by
  unfold place at h
  simp only at h
  split at h
  · cases h
  obtain ⟨found, coordinated, h⟩ := of_bind h
  split at h
  · cases h
    exact absurd coordinated coordinate_not_ready
  obtain ⟨times, -, h⟩ := of_bind h
  split at h
  · cases h
  split at h
  · cases h
  split at h
  · cases h
  cases h
  rfl

variable {a : SlotAnswers}

theorem slotIn_ready {tz : TimeZones Zone}
    (h : slotIn tz t s policy target request now existing a = .ok (.ready slot)) :
    ∀ other, s.runs.get? other.id = some other → existing ≠ some other.id →
      t.Associated target.device other.target.device →
      ∀ persisted, other.effect = some persisted → conflicts persisted slot.effect = true →
        unresolved now other = false := by
  unfold slotIn at h
  obtain ⟨entry, -, h⟩ := of_bind h
  split at h
  · cases h
  obtain ⟨prepared, -, h⟩ := of_bind h
  split at h
  · cases h
  rename_i key steps
  obtain ⟨devices, listed, h⟩ := of_bind h
  obtain ⟨-, h⟩ := of_guard h
  split at h
  · cases h
  simp only at h
  split at h
  · cases h
  split at h
  · cases h
  rename_i clear
  rw [place_ready h]
  intro other stored apart associated persisted effect conflict
  rw [Bool.eq_false_iff]
  intro pending
  refine clear (List.any_eq_true.mpr ⟨other, ?_, pending⟩)
  rw [effects, List.mem_filter]
  refine ⟨List.mem_map.mpr ⟨_, OrdMap.get?_eq_some.mp stored, rfl⟩, ?_⟩
  simp only [Bool.and_eq_true, List.contains_iff_mem, decide_eq_true_eq]
  exact ⟨⟨(effectDevices_eq_ok listed).mpr associated, apart⟩, by rw [effect]; exact conflict⟩

theorem admitSlot_changes {tz : TimeZones Zone} {invocation : Option Actions.Invocation} {id : Uuid}
    {deadline : I64} (ready : slotIn tz t s policy target request now none a = .ok (.ready slot))
    (h : admitSlot s policy target invocation now id slot deadline = .ok s') :
    Changes g t now s s' := by
  unfold admitSlot at h
  obtain ⟨s₁, queued, h⟩ := of_bind h
  cases h
  obtain ⟨run, rfl, change, sameId, sameTarget, created, bare, fresh⟩ := queueRunIn_eq_ok (g := g) (t := t) queued
  simp only at sameId sameTarget
  refine .tail (.single change) ?_
  have stored : (s.saveRun run).runs.get? run.id = some run := stored_saveRun
  rw [persistEffectIn, ← sameId, stored]
  simp only [bare, Option.isNone_none, if_true]
  refine .effected run slot.effect run.invocation now stored bare (.inl rfl) ?_
  intro other found apart associated
  rw [get?_saveRun, if_neg apart] at found
  rw [sameTarget] at associated
  exact slotIn_ready ready other found nofun associated

variable {tz : TimeZones Zone} {policy : SoftwarePolicy} {target : Target}

theorem acceptForDevice_changes {id : Uuid}
    (h : acceptForDevice tz t s policy target now id a = .ok s') : Changes g t now s s' := by
  unfold acceptForDevice at h
  split at h
  · cases h
    exact .refl
  obtain ⟨preparation, ready, h⟩ := of_bind h
  split at h
  · exact admitSlot_changes ready h
  · cases h
    exact .refl

theorem acceptEvent_changes {deadline : I64} {request : Uuid}
    (h : acceptEvent tz t s policy target now deadline request a = .ok s') :
    Changes g t now s s' := by
  unfold acceptEvent at h
  obtain ⟨preparation, ready, h⟩ := of_bind h
  split at h
  · simp only at h
    split at h
    · cases h
      exact .refl
    · exact admitSlot_changes ready h
  · cases h
    exact .refl

theorem queueRunIn_changes (h : s.queueRunIn input now = .ok s') : Changes g t now s s' := by
  obtain ⟨run, rfl, change, -⟩ := queueRunIn_eq_ok (g := g) (t := t) h
  exact .single change

theorem acceptSelfService_changes {id request : Uuid} {a : RequestAnswers}
    (h : acceptSelfService tz t s policy target now id request a = .ok s') :
    Changes g t now s s' := by
  unfold acceptSelfService at h
  obtain ⟨-, h⟩ := of_guard h
  split at h
  · obtain ⟨-, h⟩ := of_guard h
    obtain ⟨-, h⟩ := of_guard h
    obtain ⟨times, -, h⟩ := of_bind h
    split at h
    · cases h
    · exact queueRunIn_changes h
  · obtain ⟨preparation, ready, h⟩ := of_bind h
    split at h
    · obtain ⟨-, h⟩ := of_guard h
      exact admitSlot_changes ready h
    · cases h

theorem advanceWaitingIn_changes {run run' : Run} {a : WaitingAnswers} {ready : Bool}
    (stored : s.runs.get? run.id = some run)
    (h : advanceWaitingIn tz t s run policy a = .ok (ready, run', s')) :
    Changes g t now s s' ∧ s'.runs.get? run'.id = some run' ∧ run'.id = run.id ∧
      run'.kind = run.kind ∧ run'.state = run.state ∧ s'.attempts = s.attempts := by
  unfold advanceWaitingIn at h
  split at h
  · cases h
    exact ⟨.refl, stored, rfl, rfl, rfl, rfl⟩
  split at h
  · cases h
    exact ⟨.refl, stored, rfl, rfl, rfl, rfl⟩
  split at h
  · rename_i bare
    simp only [Bool.and_eq_true, Option.isNone_iff_eq_none] at bare
    split at h
    · cases h
      exact ⟨.refl, stored, rfl, rfl, rfl, rfl⟩
    obtain ⟨preparation, found, h⟩ := of_bind h
    split at h
    · obtain ⟨-, h⟩ := of_guard h
      cases h
      refine ⟨.single (.effected run _ _ run.createdAt stored bare.2 (.inr rfl) ?_), stored_saveRun, rfl,
        rfl, rfl, rfl⟩
      intro other there apart associated
      refine slotIn_ready found other there ?_ associated
      intro same
      exact apart (Option.some.inj same).symm
    · cases h
      exact ⟨.refl, stored, rfl, rfl, rfl, rfl⟩
  · cases h
    exact ⟨.single (.noted run _ stored rfl rfl rfl rfl rfl rfl rfl), stored_saveRun, rfl, rfl, rfl, rfl⟩

end

section

variable {g t} {tz : TimeZones Zone} {s s' : Store D} {now : I64} {p : Target}

theorem insertAttempt_eq_ok {id : Uuid} {row : Attempt D} (h : s.insertAttempt id row = .ok s') :
    s.attempts.get? id = none ∧ s' = { s with attempts := s.attempts.insert id row } := by
  unfold Store.insertAttempt at h
  obtain ⟨fresh, h⟩ := of_guard h
  cases h
  exact ⟨Option.not_isSome_iff_eq_none.mp fresh, rfl⟩

theorem persistIn_eq_ok {run attempt : Uuid} {payload : TaskPayload D} {row : Attempt D}
    {m : OrdMap Uuid (Attempt D)}
    (h : Store.persistIn g { s with attempts := m.insert attempt row } run attempt payload = .ok s') :
    ∃ material, s' = { s with attempts := m.insert attempt { row with material } } := by
  unfold Store.persistIn at h
  obtain ⟨found, -, h⟩ := of_bind h
  cases found with
  | none =>
    cases h
    exact ⟨row.material, rfl⟩
  | some material =>
    simp only [OrdMap.get?_insert, if_pos, OrdMap.insert_insert] at h
    split at h
    · cases h
    rename_i kept
    cases (Option.filter_eq_some_iff.mp kept).1
    cases h
    exact ⟨_, rfl⟩

theorem offer_eq_ok {run : Run} {a : CandidateAnswers D} {task : SignedTask D}
    (h : offer g s p run now a = .ok (task, s')) :
    task.payload.permit = .offer ∧ s.attempts.get? a.attempt = none ∧
      ∃ row, row.run = run.id ∧ s' = { s with attempts := s.attempts.insert a.attempt row } := by
  unfold offer at h
  obtain ⟨-, h⟩ := of_check h
  obtain ⟨content, -, h⟩ := of_bind h
  obtain ⟨expiry, -, h⟩ := of_bind h
  obtain ⟨signature, -, h⟩ := of_bind h
  obtain ⟨s₁, inserted, h⟩ := of_bind h
  obtain ⟨s₂, persisted, h⟩ := of_bind h
  cases h
  obtain ⟨fresh, rfl⟩ := insertAttempt_eq_ok inserted
  obtain ⟨material, rfl⟩ := persistIn_eq_ok persisted
  exact ⟨rfl, fresh, _, rfl, rfl⟩

theorem belongs_eq_ok {run : Run} (h : belongs run p = .ok ()) : run.target = p := by
  unfold belongs at h
  obtain ⟨same, -⟩ := of_guard h
  exact not_not.mp same

theorem saveRun_attempts (run run' : Run) (same : run.id = run'.id) (attempts : OrdMap Uuid (Attempt D)) :
    Store.saveRun { s.saveRun run with attempts } run' = Store.saveRun { s with attempts } run' := by
  apply Store.ext
  · show (s.runs.insert run.id run).insert run'.id run' = s.runs.insert run'.id run'
    rw [same, OrdMap.insert_insert]
  · rfl
  · rfl
  · rfl

variable {task : Option (SignedTask D)}

theorem claimRun_changes {run : Run} (ops : List Operation) {ready : Bool} {a : CandidateAnswers D}
    (stored : s.runs.get? run.id = some run) (plain : ∀ op ∈ ops, op.Plain now)
    (h : claimRun g s p now run (run.state.run ops) ready a = .ok (task, s')) :
    Changes g t now s s' ∧ ∀ offered, task = some offered → offered.payload.permit = .offer := by
  have saved : Changes g t now s (s.saveRun { run with state := run.state.run ops }) :=
    changes_of_operations run.result stored plain
  unfold claimRun at h
  simp only at h
  split at h
  · rename_i allowed
    simp only [Bool.and_eq_true] at allowed
    split at h
    · rename_i claimed claims
      obtain ⟨⟨signed, s₁⟩, offered, h⟩ := of_bind h
      cases h
      obtain ⟨permit, fresh, row, owner, rfl⟩ := offer_eq_ok offered
      refine ⟨saved.tail ?_, by rintro _ ⟨rfl⟩; exact permit⟩
      rw [← saveRun_attempts { run with state := run.state.run ops } { run with state := claimed } rfl]
      exact .claimed { run with state := run.state.run ops } a.attempt row claimed
        (stored_saveRun (s := s)) allowed.2.1.1.1 fresh owner claims
    · cases h
      exact ⟨saved, by rintro _ ⟨⟩⟩
  · cases h
    exact ⟨saved, by rintro _ ⟨⟩⟩

theorem consider_changes {id : Uuid} {a : CandidateAnswers D}
    (h : consider g tz t s p now id a = .ok (task, s')) :
    Changes g t now s s' ∧ ∀ offered, task = some offered → offered.payload.permit = .offer := by
  unfold consider at h
  obtain ⟨run, loaded, h⟩ := of_bind h
  obtain ⟨-, h⟩ := of_check h
  obtain ⟨-, h⟩ := of_check h
  obtain ⟨⟨ready, run₁, s₁⟩, looked, h⟩ := of_bind h
  obtain ⟨-, stored⟩ := stored_of_loadRun loaded
  have advanced : Changes g t now s s₁ ∧ s₁.runs.get? run₁.id = some run₁ ∧ run₁.state = run.state := by
    unfold awaken at looked
    simp only at looked
    split at looked
    · obtain ⟨changes, stored₁, -, -, state, -⟩ := advanceWaitingIn_changes stored looked
      exact ⟨changes, stored₁, state⟩
    · cases looked
      exact ⟨.refl, stored, rfl⟩
  obtain ⟨changes, stored₁, state⟩ := advanced
  rw [← state] at h
  change claimRun g s₁ p now run₁ _ ready a = _ at h
  suffices claimed : Changes g t now s₁ s' ∧ _ from ⟨changes.trans claimed.1, claimed.2⟩
  -- Expiry and withdrawal come before the claim and are saved with it.
  split at h
  · refine claimRun_changes [.expire now, .cancel] stored₁ ?_ h
    intro op mem
    simp only [mem_cons, not_mem_nil, or_false] at mem
    rcases mem with rfl | rfl
    · exact rfl
    · trivial
  · refine claimRun_changes [.expire now] stored₁ ?_ h
    intro op mem
    rw [mem_singleton.mp mem]
    exact rfl

theorem foldlM_changes {α : Type} {f : Store D → α → Except Fault (Store D)}
    (each : ∀ s s' a, f s a = .ok s' → Changes g t now s s') {as : List α}
    (h : as.foldlM f s = .ok s') : Changes g t now s s' := by
  induction as generalizing s with
  | nil =>
    cases h
    exact .refl
  | cons a _ ih =>
    obtain ⟨s₁, first, h⟩ := of_bind h
    exact (each s s₁ a first).trans (ih h)

theorem accept_changes {admission : Admission} (h : accept tz t s p now admission = .ok s') :
    Changes g t now s s' := by
  cases admission with
  | software => exact acceptForDevice_changes h
  | other => exact queueRunIn_changes h

variable {a : PollAnswers D}

theorem offerFrom_changes {ids : List Uuid} (h : offerFrom g tz t p a ids s = .ok (task, s')) :
    Changes g t a.now s s' ∧ ∀ offered, task = some offered → offered.payload.permit = .offer := by
  induction ids generalizing s with
  | nil =>
    cases h
    exact ⟨.refl, by rintro _ ⟨⟩⟩
  | cons _ _ ih =>
    obtain ⟨⟨found, s₁⟩, considered, h⟩ := of_bind h
    have first := consider_changes considered
    cases found with
    | some =>
      cases h
      exact first
    | none => exact ⟨first.1.trans (ih h).1, (ih h).2⟩

theorem cancellations_changes {registration : Uuid} {page : List TaskCancellation}
    (h : s.cancellations registration = .ok (page, s')) : Changes g t now s s' := by
  unfold Store.cancellations at h
  obtain ⟨page', -, h⟩ := of_bind h
  cases h
  exact .single (.paged registration _)

variable {response : Response D} {fingerprint : List UInt8}

theorem receipt_eq_ok {key : ReceiptKey} (h : s.receipt key fingerprint response = .ok s') :
    s.receipts.get? key = none ∧
      s' = { s with receipts := s.receipts.insert key ⟨fingerprint, response⟩ } := by
  unfold Store.receipt at h
  obtain ⟨fresh, h⟩ := of_guard h
  cases h
  exact ⟨Option.not_isSome_iff_eq_none.mp fresh, rfl⟩

theorem pollIn_changes {response : TaskClaimResponse D}
    (h : pollIn g tz t s p a = .ok (response, s')) :
    Changes g t a.now s s' ∧ ∀ task, response.task = some task → task.payload.permit = .offer := by
  unfold pollIn at h
  obtain ⟨-, h⟩ := of_check h
  obtain ⟨s₁, accepted, h⟩ := of_bind h
  obtain ⟨s₂, reconciled, h⟩ := of_bind h
  obtain ⟨⟨task, s₃⟩, offered, h⟩ := of_bind h
  obtain ⟨⟨page, s₄⟩, paged, h⟩ := of_bind h
  cases h
  obtain ⟨offers, permits⟩ := offerFrom_changes offered
  exact ⟨(foldlM_changes (fun _ _ _ => accept_changes) accepted).trans
    ((foldlM_changes (fun _ _ _ => queueRunIn_changes) reconciled).trans
      (offers.trans (cancellations_changes paged))), permits⟩

theorem replay_eq_none {key : ReceiptKey} (h : s.replay key fingerprint = .ok none) :
    s.receipts.get? key = none := by
  unfold Store.replay at h
  split at h
  · assumption
  · obtain ⟨-, h⟩ := of_guard h
    cases h

/-- An answered poll was answered before, or leaves a receipt with its offer. -/
inductive Polled (g : Signing D) (t : Associations) (s : Store D) (p : Target)
    (input : TaskClaimRequest D) (a : PollAnswers D) : Response D → Store D → Prop where
  | again (response : Response D)
      (kept : s.replay (toLex (p.registration, input.operationId)) (g.fingerprint (.claim input)) =
        .ok (some response))
      (allowed : replayOffer s p response a = .ok ()) : Polled g t s p input a response s
  | offered (response : TaskClaimResponse D) (task : SignedTask D) (s₁ : Store D)
      (new : s.receipts.get? (toLex (p.registration, input.operationId)) = none)
      (offers : response.task = some task) (permit : task.payload.permit = .offer)
      (changes : Changes g t a.now s s₁)
      (fresh : s₁.receipts.get? (toLex (p.registration, input.operationId)) = none) :
      Polled g t s p input a (.claimed response) { s₁ with
        receipts := s₁.receipts.insert (toLex (p.registration, input.operationId))
          ⟨g.fingerprint (.claim input), .claimed response⟩ }
  | idle (response : TaskClaimResponse D) (s₁ : Store D)
      (new : s.receipts.get? (toLex (p.registration, input.operationId)) = none)
      (offers : response.task = none) (changes : Changes g t a.now s s₁) :
      Polled g t s p input a (.claimed response) s₁

variable {input : TaskClaimRequest D}

theorem claimIn_eq_ok (h : claimIn g tz t s p input a = .ok (response, s')) :
    Polled g t s p input a response s' := by
  unfold claimIn at h
  obtain ⟨-, h⟩ := of_check h
  obtain ⟨kept, looked, h⟩ := of_bind h
  cases kept with
  | some =>
    obtain ⟨allowed, h⟩ := of_check h
    cases h
    exact .again _ looked allowed
  | none =>
    have new := replay_eq_none looked
    obtain ⟨⟨polled, s₁⟩, poll, h⟩ := of_bind h
    obtain ⟨changes, permits⟩ := pollIn_changes poll
    change (if polled.task.isSome = true then _ else _) = _ at h
    split at h
    · rename_i some'
      obtain ⟨task, offers⟩ := Option.isSome_iff_exists.mp some'
      obtain ⟨s₂, kept, h⟩ := of_bind h
      cases h
      obtain ⟨fresh, rfl⟩ := receipt_eq_ok kept
      exact .offered polled task s₁ new offers (permits task offers) changes fresh
    · rename_i none'
      cases h
      exact .idle polled _ new (Option.not_isSome_iff_eq_none.mp none') changes

theorem polled_changes (h : Polled g t s p input a response s') : Changes g t a.now s s' := by
  cases h with
  | again => exact .refl
  | offered _ _ _ _ offers permit changes fresh =>
    refine changes.tail (.receipted p.registration (.claim input) _ fresh ?_)
    intro other same
    rw [offers] at same
    cases same
    exact permit
  | idle _ _ _ _ changes => exact changes

end

section

variable {g t} {s s' : Store D} {now : I64} {run run' : Run} {input : TaskEventRequest D}
  {a : EventAnswers D}

def Run.Operated (now : I64) (run run' : Run) : Prop :=
  ∃ (ops : List Operation) (result : Option SoftwareResult), (∀ op ∈ ops, op.Plain now) ∧
    run' = { run with state := run.state.run ops, result }

theorem operated_refl : run.Operated now run :=
  ⟨[], run.result, fun _ mem => absurd mem not_mem_nil, rfl⟩

theorem operated_one (op : Operation) {state : RunState} {answer : Answer} (plain : op.Plain now)
    (is : run.state.apply op = answer) (h : answer.state = .ok state) (result : Option SoftwareResult) :
    run.Operated now { run with state, result } := by
  have same := state_eq_ok h
  rw [← is] at same
  refine ⟨[op], result, ?_, ?_⟩
  · intro other mem
    rw [mem_singleton.mp mem]
    exact plain
  · show _ = { run with state := (run.state.apply op).2, result }
    rw [same]

variable {attempt : Uuid}

theorem conclude_operated {uncertain success : Bool}
    (h : conclude run attempt uncertain success = .ok run') : run.Operated now run' := by
  unfold conclude at h
  obtain ⟨state, answered, h⟩ := of_bind h
  cases h
  cases uncertain with
  | true => exact operated_one (.uncertainResult attempt) trivial rfl answered run.result
  | false => exact operated_one (.result attempt success) trivial rfl answered run.result

theorem finish_operated {execution : Execution} (h : finish run attempt execution = .ok run') :
    run.Operated now run' := by
  unfold finish at h
  split at h
  · exact conclude_operated h
  · exact conclude_operated h
  · exact conclude_operated h
  · cases h

theorem softwareRun_operated (h : softwareRun run attempt a = .ok run') :
    run.Operated now run' := by
  unfold softwareRun at h
  obtain ⟨-, h⟩ := of_guard h
  obtain ⟨state, answered, h⟩ := of_bind h
  have moved : ∀ result, run.Operated now { run with state, result } := by
    intro result
    split at answered
    · exact operated_one (.uncertainResult attempt) trivial rfl answered result
    · exact operated_one (.uncertainResult attempt) trivial rfl answered result
    · exact operated_one (.waitingReboot attempt) trivial rfl answered result
    · exact operated_one (.result attempt true) trivial rfl answered result
    · exact operated_one (.result attempt false) trivial rfl answered result
  split at h
  · cases h
    exact moved _
  · split at h
    · cases h
    · cases h
      exact moved _

theorem cancelRun_operated (h : cancelRun run attempt a = .ok run') :
    run.Operated now run' := by
  unfold cancelRun at h
  obtain ⟨state, answered, h⟩ := of_bind h
  cases h
  have moved : ∀ op : Operation, op.Plain now → run.state.cancel.apply op = (.ok (), state) →
      run.Operated now { run with state } := by
    intro op plain is
    refine ⟨[.cancel, op], run.result, ?_, ?_⟩
    · intro other mem
      simp only [mem_cons, not_mem_nil, or_false] at mem
      rcases mem with rfl | rfl
      · trivial
      · exact plain
    · show _ = { run with state := (run.state.cancel.apply op).2 }
      rw [is]
  have same := state_eq_ok answered
  split at same
  · exact moved (.uncertainResult attempt) trivial same
  · exact moved (.cancelled attempt) trivial same

structure Handled (now : I64) (run run' : Run) (input : TaskEventRequest D)
    (permit : Option (SignedTask D)) : Prop where
  id : run'.id = run.id
  delivers : input.event.isDelivery = true → run'.ReceivedBy input.attemptId
  permits : ∀ task, permit = some task →
    input.event.isStart = true ∧ task.payload.taskId = run.id ∧
      task.payload.attemptId = input.attemptId ∧ task.payload.permit = .start ∧
      run.state.execution = .notStarted ∧ run.state.cancellation = .none ∧ now.val < run.state.deadline.val ∧
      run' = { run with state := { run.state with execution := .running, startedAt := some now } }

theorem operated_id (moved : run.Operated now run') : run'.id = run.id := by
  obtain ⟨ops, result, -, rfl⟩ := moved
  rfl

theorem setPermit_eq_ok {permit : SignedTask D} (h : s.setPermit attempt permit = .ok s') :
    ∃ row, s.attempts.get? attempt = some row ∧ row.permit = none ∧
      s' = { s with attempts := s.attempts.insert attempt { row with permit := some permit } } := by
  unfold Store.setPermit at h
  split at h
  · cases h
  rename_i row kept
  obtain ⟨unpermitted, h⟩ := of_guard h
  cases h
  exact ⟨row, kept, Option.not_isSome_iff_eq_none.mp unpermitted, rfl⟩

theorem startRun_eq_ok {task : SignedTask D} (stored : s.runs.get? run.id = some run)
    (h : startRun g s run input a = .ok (run', task, s')) :
    Change g t a.now s (s'.saveRun run') ∧ task.payload.taskId = run.id ∧
      task.payload.attemptId = input.attemptId ∧ task.payload.permit = .start ∧
      run.state.execution = .notStarted ∧ ∃ state, run' = { run with state } ∧
          run.state.start input.attemptId a.now = (.ok (), state) := by
  unfold startRun at h
  obtain ⟨idle, h⟩ := of_guard h
  obtain ⟨-, h⟩ := of_check h
  obtain ⟨state, answered, h⟩ := of_bind h
  obtain ⟨-, h⟩ := of_check h
  obtain ⟨content, -, h⟩ := of_bind h
  obtain ⟨offered, -, h⟩ := of_bind h
  obtain ⟨-, h⟩ := of_guard h
  obtain ⟨signature, -, h⟩ := of_bind h
  obtain ⟨s₁, permitted, h⟩ := of_bind h
  obtain ⟨s₂, persisted, h⟩ := of_bind h
  cases h
  obtain ⟨row, kept, unpermitted, rfl⟩ := setPermit_eq_ok permitted
  obtain ⟨material, rfl⟩ := persistIn_eq_ok persisted
  have starts := state_eq_ok answered
  exact ⟨.started run input.attemptId row _ material state stored (not_not.mp idle) kept unpermitted starts, rfl, rfl, rfl,
    not_not.mp idle, state, rfl, starts⟩

/-- Stores that differ at most in one run. -/
structure Store.Apart (id : Uuid) (s s' : Store D) : Prop where
  runs : ∀ j, j ≠ id → s.runs.get? j = s'.runs.get? j
  attempts : s.attempts = s'.attempts
  receipts : s.receipts = s'.receipts
  cancellationAfter : s.cancellationAfter = s'.cancellationAfter

variable {s₂ s₁ : Store D}

theorem apart_saveRun (apart : s₁.Apart run.id s₂) :
    s₁.saveRun run = s₂.saveRun run := by
  apply Store.ext
  · apply OrdMap.ext
    intro j
    show (s₁.saveRun run).runs.get? j = (s₂.saveRun run).runs.get? j
    rw [get?_saveRun, get?_saveRun]
    by_cases same : j = run.id
    · rw [if_pos same, if_pos same]
    · rw [if_neg same, if_neg same]
      exact apart.runs j same
  · exact apart.attempts
  · exact apart.receipts
  · exact apart.cancellationAfter

theorem apart_save {id : Uuid} (apart : s₁.Apart id s₂) (saved : Run) :
    (s₁.saveRun saved).Apart id (s₂.saveRun saved) := by
  refine ⟨?_, apart.attempts, apart.receipts, apart.cancellationAfter⟩
  intro j other
  rw [get?_saveRun, get?_saveRun, apart.runs j other]

theorem apart_saveSelf (saved : Run) (apart : s₁.Apart saved.id s₂) :
    (s₁.saveRun saved).Apart saved.id s₂ := by
  refine ⟨?_, apart.attempts, apart.receipts, apart.cancellationAfter⟩
  intro j other
  rw [get?_saveRun, if_neg other, apart.runs j other]

/-- The recovered runs are settled; what happened to the recovering run itself on the way is
overwritten when it is saved. -/
theorem recoverOthers_changes (now : I64) {list : List (Uuid × Uuid × Bool)}
    (apart : s₁.Apart run.id s₂) (stored : s₂.runs.get? run.id = some run)
    (h : recoverOthers run s₁ list = .ok s') :
    ∃ s₃, Changes g t now s₂ s₃ ∧ s₃.runs.get? run.id = some run ∧ s'.Apart run.id s₃ := by
  induction list generalizing s₁ s₂ with
  | nil =>
    cases h
    exact ⟨s₂, .refl, stored, apart⟩
  | cons entry _ ih =>
    obtain ⟨id, attempt, applied⟩ := entry
    obtain ⟨original, loaded, h⟩ := of_bind h
    obtain ⟨-, h⟩ := of_guard h
    split at h
    · obtain ⟨state, answered, h⟩ := of_bind h
      obtain ⟨same, there⟩ := stored_of_loadRun loaded
      by_cases self : original.id = run.id
      · refine ih ?_ stored h
        have aside : (s₁.saveRun { original with state }).Apart original.id s₂ :=
          apart_saveSelf { original with state } (self ▸ apart)
        exact self ▸ aside
      · have there₂ : s₂.runs.get? original.id = some original := by
          rw [← apart.runs original.id self]
          exact there
        have moves : original.Operated now { original with state } :=
          operated_one (.result attempt applied) trivial rfl answered original.result
        obtain ⟨ops, result, plain, moved⟩ := moves
        have settled : Changes g t now s₂ (s₂.saveRun { original with state }) := by
          rw [moved]
          exact changes_of_operations result there₂ plain
        have kept : (s₂.saveRun { original with state }).runs.get? run.id = some run := by
          rw [get?_saveRun, if_neg (Ne.symm self)]
          exact stored
        obtain ⟨s₃, changes, kept₃, apart₃⟩ := ih (apart_save apart { original with state }) kept h
        exact ⟨s₃, settled.trans changes, kept₃, apart₃⟩
    · exact ih apart stored h

theorem changes_of_operated (stored : s.runs.get? run.id = some run) (moved : run.Operated now run') :
    Changes g t now s (s.saveRun run') := by
  obtain ⟨ops, result, plain, rfl⟩ := moved
  exact changes_of_operations result stored plain

variable {permit : Option (SignedTask D)}

theorem handled_report {x : Except Fault Run} (stored : s.runs.get? run.id = some run)
    (report : input.event.isDelivery = false)
    (moved : ∀ next, x = .ok next → run.Operated a.now next)
    (h : (x >>= fun next => Except.ok (next, none, s)) = .ok (run', permit, s')) :
    Changes g t a.now s (s'.saveRun run') ∧ Handled a.now run run' input permit := by
  obtain ⟨next, returned, h⟩ := of_bind h
  cases h
  refine ⟨changes_of_operated stored (moved _ returned), operated_id (moved _ returned), ?_, ?_⟩
  · intro delivery
    rw [report] at delivery
    cases delivery
  · intro task permitted
    cases permitted

theorem required {allowed : Bool} {refusal : Fault} {side : Except Fault Unit} {rest : Except Fault Run}
    (h : (if (!allowed) = true then .error refusal else (side >>= fun _ => rest)) = .ok run') :
    rest = .ok run' :=
  (of_check (of_guard h).2).2

theorem handle_changes {effectAllowed : Bool} (stored : s.runs.get? run.id = some run)
    (h : handle g s run input a effectAllowed = .ok (run', permit, s')) :
    Changes g t a.now s (s'.saveRun run') ∧ Handled a.now run run' input permit := by
  unfold handle at h
  split at h
  case h_1 _ is | h_14 _ is =>
      refine handled_report stored (by rw [is]; rfl) (fun next returned => ?_) h
      cases required returned
      exact operated_refl
  case h_2 _ is | h_5 _ is | h_6 _ is | h_10 _ is | h_11 _ is | h_12 _ is | h_13 _ is =>
      exact handled_report stored (by rw [is]; rfl)
        (fun next returned => conclude_operated (required returned)) h
  case h_3 _ is =>
      refine handled_report stored (by rw [is]; rfl) (fun next returned => ?_) h
      have rest := required returned
      split at rest
      · cases rest
        exact operated_refl
      · exact conclude_operated rest
  case h_4 _ is =>
      obtain ⟨-, h⟩ := of_guard h
      obtain ⟨-, h⟩ := of_check h
      obtain ⟨s₁, recovered, h⟩ := of_bind h
      obtain ⟨next, finished, h⟩ := of_bind h
      have moved : run.Operated a.now next := finish_operated finished
      cases h
      obtain ⟨s₃, changes, stored₃, apart⟩ :=
        recoverOthers_changes (g := g) (t := t) a.now ⟨fun _ _ => rfl, rfl, rfl, rfl⟩ stored recovered
      rw [← operated_id moved] at apart
      rw [apart_saveRun apart]
      refine ⟨changes.trans (changes_of_operated stored₃ moved), operated_id moved, ?_, ?_⟩
      · intro delivery
        rw [is] at delivery
        cases delivery
      · intro task permitted
        cases permitted
  case h_7 is =>
      obtain ⟨next, returned, h⟩ := of_bind h
      cases h
      obtain ⟨state, answered, returned⟩ := of_bind returned
      obtain ⟨-, returned⟩ := of_check returned
      cases returned
      have moved : run.Operated a.now { run with state } :=
        operated_one (.received input.attemptId a.now) rfl rfl answered run.result
      refine ⟨changes_of_operated stored moved, rfl, ?_, ?_⟩
      · intro _
        exact ⟨run.state.deadline, by rw [received_eq_ok (state_eq_ok answered)]⟩
      · intro task permitted
        cases permitted
  case h_8 is =>
      obtain ⟨⟨next, task, s₁⟩, began, h⟩ := of_bind h
      cases h
      obtain ⟨change, sameTask, sameAttempt, permit, idle, state, rfl, starts⟩ :=
        startRun_eq_ok (t := t) stored began
      obtain ⟨⟨lease, delivered⟩, early, free, rfl⟩ := start_eq_ok idle starts
      refine ⟨.single change, rfl, ?_, ?_⟩
      · intro _
        exact ⟨lease, delivered⟩
      · intro permitted same
        cases same
        exact ⟨by rw [is]; rfl, sameTask, sameAttempt, permit, idle, free, early, rfl⟩
  case h_9 is =>
      exact handled_report stored (by rw [is]; rfl)
        (fun next returned => cancelRun_operated (required returned)) h
  case h_15 _ is =>
      exact handled_report stored (by rw [is]; rfl)
        (fun next returned => softwareRun_operated (required returned)) h

variable {p : Target}

theorem admitEvent_eq_ok {id : Uuid} (h : admitEvent s p id a = .ok run) :
    run.id = id ∧ s.runs.get? run.id = some run ∧ run.target = p := by
  unfold admitEvent at h
  obtain ⟨-, h⟩ := of_check h
  obtain ⟨found, loaded, h⟩ := of_bind h
  obtain ⟨owned, h⟩ := of_check h
  obtain ⟨-, h⟩ := of_check h
  cases h
  obtain ⟨same, stored⟩ := stored_of_loadRun loaded
  exact ⟨same, stored, belongs_eq_ok owned⟩

structure Recorded (g : Signing D) (t : Associations) (s : Store D) (run : Run)
    (input : TaskEventRequest D) (a : EventAnswers D) (ack : TaskEventAck D) (s' : Store D) : Prop where
  changes : Changes g t a.now s s'
  holder : run.state.attempt = some input.attemptId
  authorized : input.event.isDelivery = true → a.authorized = true
  handled : ∃ run', Handled a.now run run' input ack.permit ∧ s'.runs.get? run.id = some run'

theorem recordIn_eq_ok {ack : TaskEventAck D} (stored : s.runs.get? run.id = some run)
    (h : recordIn g s run input a = .ok (ack, s')) : Recorded g t s run input a ack s' := by
  unfold recordIn at h
  obtain ⟨allowed, h⟩ := of_guard h
  obtain ⟨holder, h⟩ := of_guard h
  obtain ⟨⟨run', permit, s₁⟩, handles, h⟩ := of_bind h
  cases h
  obtain ⟨changes, handled⟩ := handle_changes (t := t) stored handles
  refine ⟨changes, not_not.mp holder, ?_, run', handled, ?_⟩
  · intro delivery
    simp only [delivery, allows, Bool.true_or, if_true, Bool.true_and, Bool.not_eq_true',
      Bool.not_eq_false] at allowed
    exact allowed
  · rw [← handled.id]
    exact stored_saveRun

inductive Answered (g : Signing D) (t : Associations) (s : Store D) (p : Target) (run : Run)
    (input : TaskEventRequest D) (a : EventAnswers D) : Response D → Store D → Prop where
  | again (response : Response D)
      (kept : s.replay (toLex (p.registration, input.operationId))
        (g.fingerprint (.event run.id input)) = .ok (some response))
      (allowed : replayStart run input a = .ok ()) : Answered g t s p run input a response s
  | first (ack : TaskEventAck D) (s₁ : Store D)
      (new : s.receipts.get? (toLex (p.registration, input.operationId)) = none)
      (recorded : Recorded g t s run input a ack s₁)
      (fresh : s₁.receipts.get? (toLex (p.registration, input.operationId)) = none) :
      Answered g t s p run input a (.acknowledged ack) { s₁ with
        receipts := s₁.receipts.insert (toLex (p.registration, input.operationId))
          ⟨g.fingerprint (.event run.id input), .acknowledged ack⟩ }

variable {response : Response D}

theorem eventIn_eq_ok {id : Uuid} (h : eventIn g s p id input a = .ok (response, s')) :
    ∃ run, run.id = id ∧ s.runs.get? run.id = some run ∧ run.target = p ∧
      Answered g t s p run input a response s' := by
  unfold eventIn at h
  obtain ⟨run, admitted, h⟩ := of_bind h
  obtain ⟨rfl, stored, owned⟩ := admitEvent_eq_ok admitted
  refine ⟨run, rfl, stored, owned, ?_⟩
  obtain ⟨kept, looked, h⟩ := of_bind h
  cases kept with
  | some =>
    obtain ⟨allowed, h⟩ := of_check h
    cases h
    exact .again _ looked allowed
  | none =>
    obtain ⟨⟨ack, s₁⟩, recorded, h⟩ := of_bind h
    obtain ⟨s₂, receipted, h⟩ := of_bind h
    cases h
    obtain ⟨fresh, rfl⟩ := receipt_eq_ok receipted
    exact .first ack s₁ (replay_eq_none looked) (recordIn_eq_ok stored recorded) fresh

theorem answered_changes (h : Answered g t s p run input a response s') :
    Changes g t a.now s s' := by
  cases h with
  | again => exact .refl
  | first _ _ _ recorded fresh =>
    obtain ⟨run', handled, stored⟩ := recorded.handled
    refine recorded.changes.tail (.receipted p.registration (.event run.id input) _ fresh ?_)
    refine ⟨fun delivery => ⟨run', stored, handled.delivers delivery⟩, ?_⟩
    intro permit permitted
    obtain ⟨start, task, attempt, kind, -⟩ := handled.permits permit permitted
    exact ⟨start, task, attempt, kind⟩

end

variable {g tz t} {s s' : Store D} {now : I64} {run run' : Run} {a : RecoverAnswers}

theorem observeNative_changes {op : NativeOperation} (kind : run.kind = .mdmSoftware)
    (stored : s.runs.get? run.id = some run) (h : observeNative run op a = .ok run') :
    Changes g t a.now s (s.saveRun run') ∧ run'.id = run.id := by
  unfold observeNative at h
  split at h
  · cases h
    exact ⟨.single (.recalled run _ stored kind), rfl⟩
  obtain ⟨-, h⟩ := of_check h
  split at h
  · obtain ⟨state, answered, h⟩ := of_bind h
    split at h
    · cases h
    · cases h
      exact ⟨changes_of_operated stored
        (operated_one (.result run.id true) trivial rfl answered _), rfl⟩
  · split at h
    · obtain ⟨state, answered, h⟩ := of_bind h
      cases h
      exact ⟨changes_of_operated stored
        (operated_one (.uncertainResult run.id) trivial rfl answered _), rfl⟩
    · cases h
      exact ⟨changes_of_operated stored operated_refl, rfl⟩

theorem beginNative_changes (kind : run.kind = .mdmSoftware)
    (stored : s.runs.get? run.id = some run) (h : beginNative run a = .ok run') :
    Changes g t a.now s (s.saveRun run') ∧ run'.id = run.id := by
  unfold beginNative at h
  split at h
  · cases h
    exact ⟨changes_of_operated stored operated_refl, rfl⟩
  rename_i ready
  simp only [Bool.or_eq_true, decide_eq_true_eq, ne_eq, not_or, not_not] at ready
  obtain ⟨-, h⟩ := of_check h
  obtain ⟨claimed, claims, h⟩ := of_bind h
  obtain ⟨received, receives, h⟩ := of_bind h
  obtain ⟨state, starts, h⟩ := of_bind h
  cases h
  exact ⟨.single (.sent run claimed received state stored kind ready.1.1.1.1.1.1
    (state_eq_ok claims) (state_eq_ok receives) (state_eq_ok starts)), rfl⟩

theorem advanceRun_changes (stored : s.runs.get? run.id = some run)
    (h : advanceRun run a = .ok run') :
    Changes g t a.now s (s.saveRun run') ∧ run'.id = run.id := by
  unfold advanceRun at h
  split at h
  · cases h
    exact ⟨changes_of_operated stored operated_refl, rfl⟩
  · rename_i kind
    split at h
    · exact observeNative_changes (not_not.mp kind) stored h
    · exact beginNative_changes (not_not.mp kind) stored h

theorem lapse_operated : run.Operated now { run with state := run.state.lapse now } := by
  unfold RunState.lapse
  simp only
  split
  · refine ⟨[.expire now, .cancel], run.result, ?_, rfl⟩
    intro op mem
    simp only [mem_cons, not_mem_nil, or_false] at mem
    rcases mem with rfl | rfl
    · exact rfl
    · trivial
  · refine ⟨[.expire now], run.result, ?_, rfl⟩
    intro op mem
    rw [mem_singleton.mp mem]
    exact rfl

theorem cancel_operated : run.Operated now { run with state := run.state.cancel } := by
  refine ⟨[.cancel], run.result, ?_, rfl⟩
  intro op mem
  rw [mem_singleton.mp mem]
  trivial

theorem recoverOne_changes {id : Uuid} (h : recoverOne s id a = .ok s') :
    Changes g t a.now s s' := by
  unfold recoverOne at h
  obtain ⟨run, loaded, h⟩ := of_bind h
  obtain ⟨-, h⟩ := of_check h
  obtain ⟨-, stored⟩ := stored_of_loadRun loaded
  split at h
  · cases h
    exact .refl
  obtain ⟨run₂, advanced, h⟩ := of_bind h
  cases h
  -- One save stands for the cancellation, the advance and the expiry.
  have cancelled : run.Operated a.now
      { run with state := if a.stale || a.withdrawn then run.state.cancel else run.state } := by
    split
    · exact cancel_operated
    · exact operated_refl
  obtain ⟨moved, same⟩ := advanceRun_changes (g := g) (t := t) (stored_saveRun (s := s)) advanced
  rw [saveRun_saveRun same.symm] at moved
  have lapses : run₂.Operated a.now { run₂ with state := run₂.state.lapse a.now } := lapse_operated
  have lapsed : Changes g t a.now (s.saveRun run₂)
      ((s.saveRun run₂).saveRun { run₂ with state := run₂.state.lapse a.now }) :=
    changes_of_operated stored_saveRun lapses
  rw [saveRun_saveRun (by rfl)] at lapsed
  exact (changes_of_operated stored cancelled).trans (moved.trans lapsed)

theorem retire_changes {id : Uuid} (h : retire s id = .ok s') : Changes g t now s s' := by
  unfold retire at h
  obtain ⟨run, loaded, h⟩ := of_bind h
  obtain ⟨-, stored⟩ := stored_of_loadRun loaded
  split at h
  · cases h
    exact changes_of_operated stored cancel_operated
  · cases h
    exact .refl

theorem acceptActionDispatch_changes {id : Uuid} (h : acceptActionDispatch s id = .ok s') :
    Changes g t now s s' := by
  unfold acceptActionDispatch at h
  obtain ⟨run, loaded, h⟩ := of_bind h
  obtain ⟨-, stored⟩ := stored_of_loadRun loaded
  cases h
  exact .single (.noted run _ stored rfl rfl rfl rfl rfl rfl rfl)

theorem settled_changes {x : Except Fault (Store D)}
    (h : ∀ s', x = .ok s' → Changes g t now s s') : Changes g t now s (settled s x).2 := by
  cases x with
  | error => exact .refl
  | ok s' => exact h s' rfl

theorem settle_changes {α : Type} {decode : Response D → Except Fault α}
    {x : Except Fault (Response D × Store D)}
    (h : ∀ response s', x = .ok (response, s') → Changes g t now s s') :
    Changes g t now s (settle s decode x).2 := by
  cases x with
  | error => exact .refl
  | ok kept => exact h kept.1 kept.2 rfl

theorem apply_changes {call : Call D} (time : ∀ at', call.now = some at' → at' = now) :
    Changes g t now s (s.apply g tz t call).2 := by
  cases call with
  | claimAction p input answers =>
    rw [← time _ rfl]
    show Changes g t answers.now s (claimAction g tz t s p input answers).2
    exact settle_changes (fun _ _ h => polled_changes (claimIn_eq_ok h))
  | actionEvent p task input answers =>
    rw [← time _ rfl]
    show Changes g t answers.now s (actionEvent g s p task input answers).2
    refine settle_changes (fun response s' h => ?_)
    obtain ⟨run, -, -, -, answered⟩ := eventIn_eq_ok (t := t) h
    exact answered_changes answered
  | acceptForDevice =>
    rw [← time _ rfl]
    exact settled_changes (fun _ => acceptForDevice_changes)
  | acceptEvent =>
    rw [← time _ rfl]
    exact settled_changes (fun _ => acceptEvent_changes)
  | acceptSelfService =>
    rw [← time _ rfl]
    exact settled_changes (fun _ => acceptSelfService_changes)
  | queueRun =>
    rw [← time _ rfl]
    exact settled_changes (fun _ => queueRunIn_changes)
  | acceptDispatch => exact settled_changes (fun _ => acceptActionDispatch_changes)
  | recover =>
    rw [← time _ rfl]
    exact settled_changes (fun _ => recoverOne_changes)
  | retire => exact settled_changes (fun _ => retire_changes)

end RssMdm.Actions
