/- module: Actions/ExactlyOnce
   source: crates/execution-service/src/actions/agent.rs, actions/storage.rs, actions/state.rs
   digest: No interleaving of polls, events, replays, recoveries and admissions starts a run twice. -/

import RssMdm.Actions.Progress

set_option autoImplicit false

namespace RssMdm.Actions

open RssMdm.Lib RssMdm.Lib.Fallible RssMdm.Lib.Int64
open RssMdm.Policy (Uuid TimeZones)
open Software (Associations)

section

/-- Nothing more can start. -/
def RunState.Spent (s : RunState) : Prop := s.execution ≠ .notStarted ∨ s.cancellation = .confirmed

/-- A received run is leased until its deadline. -/
def RunState.Delivered (s : RunState) : Prop :=
  ∀ attempt lease, s.delivery = .received attempt lease → lease = s.deadline

variable {s s' : RunState} {op : Operation} {now : I64}

theorem spent_apply (spent : s.Spent) : (s.apply op).2.Spent := by
  have moved := apply_moved s op
  generalize (s.apply op).2 = s' at moved
  cases moved with
  | same | leased | receipted => exact spent
  | started => exact .inl (by simp)
  | settled _ _ outcome =>
    refine .inl ?_
    rcases outcome with rfl | rfl | rfl | rfl <;> simp
  | cancelling =>
    by_cases idle : s.execution = .notStarted
    · exact .inr (by simp [RunState.cancel, idle])
    · exact .inl idle
  | confirmed | expired => exact .inr rfl

theorem delivered_apply (delivered : s.Delivered) : (s.apply op).2.Delivered := by
  have moved := apply_moved s op
  generalize (s.apply op).2 = s' at moved
  cases moved with
  | same => exact delivered
  | leased => rintro _ _ ⟨⟩
  | receipted =>
    rintro _ _ ⟨⟩
    rfl
  | started | settled | cancelling | confirmed | expired => exact delivered

theorem delivery_plain (plain : op.Plain now) :
    (s.apply op).2.delivery = s.delivery ∨
      ∃ attempt, s.attempt = some attempt ∧ (s.apply op).2.delivery = .received attempt s.deadline := by
  have moved := apply_moved s op
  generalize (s.apply op).2 = s' at moved
  cases moved with
  | leased _ _ _ _ _ _ is =>
    rw [is] at plain
    exact plain.elim
  | receipted attempt _ _ _ held => exact .inr ⟨attempt, held, rfl⟩
  | same | started | settled | cancelling | confirmed | expired => exact .inl rfl

theorem delivery_claim {attempt : Uuid} (h : s.claim attempt now = (.ok (), s')) :
    s'.delivery = s.delivery ∨
      (s'.attempt = some attempt ∧
        ∀ lease, s.delivery.leaseUntil = some lease → lease.val ≤ now.val) := by
  have moved : Moved s (.claim attempt now) s' := by
    have moved := apply_moved s (.claim attempt now)
    rwa [RunState.apply, h] at moved
  cases moved with
  | leased _ _ _ _ _ _ is ended =>
    cases is
    exact .inr ⟨rfl, ended⟩
  | receipted _ _ _ is => cases is
  | same | started | settled | cancelling | confirmed | expired => exact .inl rfl

end

section

variable {run : Run} {fresh : Uuid → Prop} {state : RunState} {now : I64} {attempt : Uuid}

theorem spent_progress (h : Progress now run fresh state) (spent : run.state.Spent) : state.Spent :=
  progress_cases h spent (fun _ _ => spent_apply) (fun _ _ => .inr rfl)

theorem delivered_progress (h : Progress now run fresh state) (delivered : run.state.Delivered) :
    state.Delivered :=
  progress_cases h delivered (fun _ _ => delivered_apply) (fun _ kept => kept)

theorem claim_received {s s' : RunState} {holder : Uuid} {lease : I64} (delivered : s.Delivered)
    (received : s.delivery = .received holder lease) (h : s.claim attempt now = (.ok (), s')) :
    s'.delivery = s.delivery := by
  rcases delivery_claim h with same | ⟨-, ended⟩
  · exact same
  have late := ended lease (by rw [received]; rfl)
  have early := (claim_eq_ok h).1
  rw [delivered holder lease received] at late
  omega

theorem received_progress (h : Progress now run fresh state) (delivered : run.state.Delivered)
    (received : run.ReceivedBy attempt) : ∃ lease, state.delivery = .received attempt lease := by
  obtain ⟨lease, is⟩ := received
  cases h with
  | same => exact ⟨lease, is⟩
  | operated _ plain =>
    rcases delivery_plain plain with same | ⟨holder, held, now'⟩
    · exact ⟨lease, same.trans is⟩
    · rw [RunState.attempt, is] at held
      cases held
      exact ⟨_, now'⟩
  | claimed _ _ _ _ claims => exact ⟨lease, (claim_received delivered is claims).trans is⟩
  | started _ idle _ starts =>
    obtain ⟨-, -, -, rfl⟩ := start_eq_ok idle starts
    exact ⟨lease, is⟩
  | sent _ _ _ _ idle claims receives starts =>
    have kept := (claim_received delivered is claims).trans is
    have holder := received_holder receives
    rw [RunState.attempt, kept] at holder
    cases holder
    obtain ⟨-, rfl⟩ := sent_eq idle claims receives starts
    exact ⟨run.state.deadline, rfl⟩
  | recalled => exact ⟨lease, is⟩

theorem attempt_progress (h : Progress now run fresh state) :
    state.attempt = run.state.attempt ∨
      (run.kind.byAgent = true ∧ ∃ holder, fresh holder ∧ state.attempt = some holder) ∨
      ∃ lease, run.kind = .mdmSoftware ∧ state.delivery = .received run.id lease := by
  cases h with
  | same => exact .inl rfl
  | operated _ plain =>
    rcases delivery_plain (s := run.state) plain with same | ⟨holder, held, now'⟩
    · exact .inl (congrArg Delivery.attempt same)
    · refine .inl ?_
      rw [held, RunState.attempt, now']
      rfl
  | claimed claimant kind unused _ claims =>
    rcases delivery_claim claims with same | ⟨held, -⟩
    · exact .inl (congrArg Delivery.attempt same)
    · exact .inr (.inl ⟨kind, claimant, unused, held⟩)
  | started _ idle _ starts =>
    obtain ⟨-, -, -, rfl⟩ := start_eq_ok idle starts
    exact .inl rfl
  | sent _ _ _ kind idle claims receives starts =>
    obtain ⟨-, rfl⟩ := sent_eq idle claims receives starts
    exact .inr (.inr ⟨run.state.deadline, kind, rfl⟩)
  | recalled => exact .inl rfl

end

section

variable {D : Documents} (g : Signing D)

structure Run.Sound (s : Store D) (run : Run) : Prop where
  delivered : run.state.Delivered
  deadline : run.state.deadline = run.deadline
  holder : ∀ attempt, run.state.attempt = some attempt →
    (run.kind.byAgent = true ∧ (s.attempts.get? attempt).isSome = true) ∨ run.ReceivedBy attempt

/-- What holds of the tables at all times: receipts keep true answers of requests under their ids. -/
structure Store.Sound (s : Store D) : Prop where
  runs : ∀ id run, s.runs.get? id = some run → run.Sound s
  receipts : ∀ key kept, s.receipts.get? key = some kept →
    ∃ registration request, key = toLex (registration, request.operationId) ∧
      kept.fingerprint = g.fingerprint request ∧ request.Truthful s kept.response

variable {g} {t : Associations} {now : I64} {s s' : Store D} {run run' : Run} {id : Uuid}

theorem sound_empty : (Store.empty : Store D).Sound g := by
  refine ⟨?_, ?_⟩
  · intro id run stored
    cases stored
  · intro key kept stored
    cases stored

theorem fresh_run_sound (new : RunState.new run.deadline now = .ok run.state) : run.Sound s := by
  obtain ⟨is, -⟩ := new_eq_ok new
  refine ⟨?_, ?_, ?_⟩
  · intro attempt lease delivered
    rw [is] at delivered
    cases delivered
  · rw [is]
  · intro attempt held
    rw [is] at held
    cases held

theorem evolves_sound (h : Change g t now s s') (sound : run.Sound s)
    (evolves : run.Evolves now (fun attempt => s.attempts.get? attempt = none ∧
      (s'.attempts.get? attempt).isSome = true) run') : run'.Sound s' := by
  refine ⟨delivered_progress evolves.state sound.delivered, ?_, ?_⟩
  · rw [deadline_progress evolves.state, sound.deadline, evolves.deadline]
  intro attempt held
  rcases attempt_progress evolves.state with same | ⟨kind, holder, ⟨-, used⟩, taken⟩ | ⟨lease, kind, is⟩
  · rcases sound.holder attempt (same ▸ held) with ⟨kind, used⟩ | received
    · exact .inl ⟨evolves.kind ▸ kind, change_attempts h used⟩
    · exact .inr (received_progress evolves.state sound.delivered received)
  · rw [taken] at held
    cases held
    exact .inl ⟨evolves.kind ▸ kind, used⟩
  · rw [RunState.attempt, is] at held
    cases held
    exact .inr ⟨lease, is⟩

theorem truthful_change (h : Change g t now s s') (sound : s.Sound g) {request : Request D}
    {response : Response D} (truth : request.Truthful s response) : request.Truthful s' response := by
  cases request with
  | claim =>
    cases response with
    | claimed | acknowledged => exact truth
  | event task =>
    cases response with
    | claimed => exact truth
    | acknowledged =>
      refine ⟨?_, truth.2⟩
      intro delivery
      obtain ⟨run, stored, received⟩ := truth.1 delivery
      obtain ⟨run', stored', evolves⟩ := change_run h stored
      exact ⟨run', stored',
        received_progress evolves.state (sound.runs task run stored).delivered received⟩

theorem sound_change (h : Change g t now s s') (sound : s.Sound g) : s'.Sound g := by
  refine ⟨?_, ?_⟩
  · intro id run' stored
    rcases change_stored h stored with ⟨new, -⟩ | ⟨run, before, evolves⟩
    · exact fresh_run_sound new
    · exact evolves_sound h (sound.runs id run before) evolves
  · intro key kept stored
    have old : s.receipts.get? key = some kept →
        ∃ registration request, key = toLex (registration, request.operationId) ∧
          kept.fingerprint = g.fingerprint request ∧ request.Truthful s' kept.response := by
      intro before
      obtain ⟨registration, request, same, digest, truth⟩ := sound.receipts key kept before
      exact ⟨registration, request, same, digest, truthful_change h sound truth⟩
    by_cases before : s.receipts.get? key = some kept
    · exact old before
    have stays : ∀ {request : Request D} {response : Response D},
        request.Truthful s response → request.Truthful s' response := truthful_change h sound
    cases h with
    | receipted registration request response fresh truth =>
      change (s.receipts.insert _ _).get? key = some kept at stored
      rcases OrdMap.get?_insert_cases stored with ⟨same, rfl⟩ | ⟨-, stored⟩
      · exact ⟨registration, request, same, rfl, stays truth⟩
      · exact absurd stored before
    | queued | noted | effected | operated | claimed | started | sent | recalled | paged =>
      exact absurd stored before

theorem sound_after {Zone : Type} {tz : TimeZones Zone} (calls : List (Call D)) :
    (Store.empty.after g tz t calls).Sound g :=
  after_keep calls sound_empty (fun _ _ _ => sound_change)

end

section

variable {D : Documents} {Zone : Type} {g : Signing D} {tz : TimeZones Zone} {t : Associations}
  {s : Store D} {p : Target} {response : Response D}

theorem replay_eq_some {key : ReceiptKey} {fingerprint : List UInt8}
    (h : s.replay key fingerprint = .ok (some response)) :
    s.receipts.get? key = some ⟨fingerprint, response⟩ := by
  unfold Store.replay at h
  split at h
  · cases h
  rename_i kept there
  obtain ⟨same, h⟩ := of_guard h
  cases h
  rw [there, ← not_not.mp same]

variable {input : TaskClaimRequest D}

theorem apply_claimAction_eq_ok {a : PollAnswers D}
    (h : (s.apply g tz t (.claimAction p input a)).1 = .ok (some response)) :
    Polled g t s p input a response (s.apply g tz t (.claimAction p input a)).2 := by
  change ((claimAction g tz t s p input a).1.map (fun r => some (.claimed r))) =
    .ok (some response) at h
  show Polled g t s p input a response (claimAction g tz t s p input a).2
  unfold claimAction at h ⊢
  cases answered : claimIn g tz t s p input a with
  | error =>
    rw [answered] at h
    cases h
  | ok outcome =>
    obtain ⟨r, s'⟩ := outcome
    rw [answered] at h
    cases r with
    | acknowledged => cases h
    | claimed =>
      cases h
      exact claimIn_eq_ok answered

theorem apply_actionEvent_eq_ok {task : Uuid} {input : TaskEventRequest D} {a : EventAnswers D}
    (h : (s.apply g tz t (.actionEvent p task input a)).1 = .ok (some response)) :
    ∃ run, run.id = task ∧ s.runs.get? run.id = some run ∧
      Answered g t s p run input a response (s.apply g tz t (.actionEvent p task input a)).2 := by
  change ((actionEvent g s p task input a).1.map (fun r => some (.acknowledged r))) =
    .ok (some response) at h
  show ∃ run, run.id = task ∧ s.runs.get? run.id = some run ∧
    Answered g t s p run input a response (actionEvent g s p task input a).2
  unfold actionEvent at h ⊢
  cases answered : eventIn g s p task input a with
  | error =>
    rw [answered] at h
    cases h
  | ok outcome =>
    obtain ⟨r, s'⟩ := outcome
    rw [answered] at h
    cases r with
    | claimed => cases h
    | acknowledged =>
      cases h
      obtain ⟨run, same, stored, -, answered⟩ := eventIn_eq_ok (t := t) answered
      exact ⟨run, same, stored, answered⟩

theorem apply_claimAction_error {a : PollAnswers D} {fault : Fault}
    (h : claimIn g tz t s p input a = .error fault) :
    s.apply g tz t (.claimAction p input a) = (.error fault, s) := by
  rw [Store.apply, claimAction, h]
  rfl

theorem apply_actionEvent_error {task : Uuid} {input : TaskEventRequest D} {a : EventAnswers D}
    {fault : Fault} (h : eventIn g s p task input a = .error fault) :
    s.apply g tz t (.actionEvent p task input a) = (.error fault, s) := by
  rw [Store.apply, actionEvent, h]
  rfl

end

section

variable {D : Documents} {Zone : Type} (g : Signing D) (tz : TimeZones Zone) (t : Associations)

/-- The request of an Agent, with the registration that makes it. -/
def Call.request : Call D → Option (Uuid × Request D)
  | .claimAction p input _ => some (p.registration, .claim input)
  | .actionEvent p task input _ => some (p.registration, .event task input)
  | _ => none

def Call.key (call : Call D) : Option ReceiptKey :=
  call.request.map (fun (registration, request) => toLex (registration, request.operationId))

def Response.startPermit : Response D → Option (SignedTask D)
  | .claimed response => response.task.filter (fun task => task.payload.permit = .start)
  | .acknowledged ack => ack.permit.filter (fun task => task.payload.permit = .start)

/-- The answers that leave a receipt. -/
def Response.kept : Response D → Bool
  | .claimed response => response.task.isSome
  | .acknowledged _ => true

namespace Store

def replays (s : Store D) (call : Call D) : Bool := call.key.any (fun key => s.receipts.contains key)

/-- The permit to start that a call signs: the one it answers with, unless it was kept. -/
def signs (s : Store D) (call : Call D) : Option (SignedTask D) :=
  if s.replays call then none
  else
    match (s.apply g tz t call).1 with
    | .ok (some response) => response.startPermit
    | _ => none

def signedStarts : List (Call D) → Store D → List (SignedTask D)
  | [], _ => []
  | call :: rest, s => (s.signs g tz t call).toList ++ signedStarts rest (s.apply g tz t call).2

/-- How a request is refused before its receipt is looked up. -/
def refusal (s : Store D) : Call D → Option Fault
  | .claimAction _ _ a =>
      match a.admitted with
      | .ok () => none
      | .error e => some e
  | .actionEvent p task _ a =>
      match admitEvent s p task a with
      | .ok _ => none
      | .error e => some e
  | _ => none

end Store

variable {g tz t} {s : Store D} {call : Call D} {p : Target} {response : Response D}

theorem apply_eq_response (h : (s.apply g tz t call).1 = .ok (some response)) :
    (∃ p input a, call = .claimAction p input a ∧
      Polled g t s p input a response (s.apply g tz t call).2) ∨
    ∃ p input a run, call = .actionEvent p run.id input a ∧ s.runs.get? run.id = some run ∧
      Answered g t s p run input a response (s.apply g tz t call).2 := by
  have silent : ∀ x : Except Fault (Store D), (settled s x).1 ≠ .ok (some response) := by
    intro x
    cases x with
    | ok | error =>
      intro same
      cases same
  cases call with
  | claimAction p input a => exact .inl ⟨p, input, a, rfl, apply_claimAction_eq_ok h⟩
  | actionEvent p _ input a =>
    obtain ⟨run, rfl, stored, answered⟩ := apply_actionEvent_eq_ok h
    exact .inr ⟨p, input, a, run, rfl, stored, answered⟩
  | acceptForDevice | acceptEvent | acceptSelfService | queueRun | acceptDispatch | recover | retire =>
    exact absurd h (silent _)

variable {request : Request D} {registration : Uuid}

theorem kept_request (separate : Function.Injective g.fingerprint) (sound : s.Sound g)
    (h : s.replay (toLex (registration, request.operationId)) (g.fingerprint request) = .ok (some response)) :
    request.Truthful s response := by
  obtain ⟨_, first, -, same, truth⟩ := sound.receipts _ _ (replay_eq_some h)
  cases separate same
  exact truth

/-- What an answer with a permit to start says about its event, the store before it and the store
after it. -/
structure Starts (p : Target) (s s' : Store D) (run : Run) (input : TaskEventRequest D) (a : EventAnswers D)
    (permit : SignedTask D) : Prop where
  task : permit.payload.taskId = run.id
  attempt : permit.payload.attemptId = input.attemptId
  running : ∃ run', s'.runs.get? run.id = some run' ∧ run'.state.execution = .running ∧
    run'.state.attempt = some input.attemptId ∧ run'.state.cancellation = .none ∧
    a.now.val < run'.deadline.val
  authorized : a.authorized = true
  first : s.receipts.get? (toLex (p.registration, input.operationId)) = none →
    ¬run.state.Spent ∧ run.state.attempt = some input.attemptId

variable {permit : SignedTask D}

theorem acknowledged_permit {ack : TaskEventAck D}
    (h : (Response.acknowledged ack).startPermit = some permit) : ack.permit = some permit :=
  (Option.filter_eq_some_iff.mp h).1

variable {s' : Store D}

theorem polled_startPermit (separate : Function.Injective g.fingerprint) (sound : s.Sound g)
    {input : TaskClaimRequest D} {a : PollAnswers D} (h : Polled g t s p input a response s') :
    response.startPermit = none := by
  have offers : ∀ r : TaskClaimResponse D, (∀ task, r.task = some task → task.payload.permit = .offer) →
      (Response.claimed r).startPermit = none := by
    intro r only
    rw [Response.startPermit, Option.filter_eq_none_iff]
    intro task there
    rw [only task there]
    decide
  cases h with
  | again _ kept =>
    have truth : (Request.claim input).Truthful s response := kept_request separate sound kept
    cases response with
    | claimed r => exact offers r truth
    | acknowledged => exact truth.elim
  | offered r _ _ _ is permit =>
    refine offers r (fun other there => ?_)
    rw [is] at there
    cases there
    exact permit
  | idle r _ _ is =>
    refine offers r (fun other there => ?_)
    rw [is] at there
    cases there

variable {a : EventAnswers D} {input : TaskEventRequest D} {run : Run}

theorem replayStart_eq_ok (start : input.event.isStart = true)
    (h : replayStart run input a = .ok ()) :
    run.state.execution = .running ∧ run.state.attempt = some input.attemptId ∧
      run.state.cancellation = .none ∧ a.now.val < run.deadline.val ∧ a.authorized = true := by
  unfold replayStart at h
  rw [if_neg (by simp [start])] at h
  obtain ⟨live, h⟩ := of_guard h
  obtain ⟨allowed, -⟩ := of_guard h
  simp only [Bool.or_eq_true, decide_eq_true_eq, ne_eq, not_or, not_not, not_le] at live
  simp only [Bool.or_eq_true, Bool.not_eq_true', not_or, Bool.not_eq_false] at allowed
  exact ⟨live.2, live.1.2, live.1.1.2, live.1.1.1, allowed.2⟩

theorem answered_starts (separate : Function.Injective g.fingerprint) (sound : s.Sound g)
    (stored : s.runs.get? run.id = some run) (h : Answered g t s p run input a response s')
    (carries : response.startPermit = some permit) : Starts p s s' run input a permit := by
  cases h with
  | again _ kept allowed =>
    have truth : (Request.event run.id input).Truthful s response := kept_request separate sound kept
    cases response with
    | claimed => exact truth.elim
    | acknowledged =>
      obtain ⟨start, task, attempt, -⟩ := truth.2 permit (acknowledged_permit carries)
      obtain ⟨running, holder, free, early, authorized⟩ := replayStart_eq_ok start allowed
      refine ⟨task, attempt, ⟨run, stored, running, holder, free, early⟩, authorized, ?_⟩
      intro new
      rw [replay_eq_some kept] at new
      cases new
  | first _ _ _ recorded =>
    obtain ⟨run', handled, stored'⟩ := recorded.handled
    obtain ⟨start, task, attempt, -, idle, free, early, rfl⟩ :=
      handled.permits permit (acknowledged_permit carries)
    have delivery : input.event.isDelivery = true := by
      cases is : input.event <;> rw [is] at start <;> first | rfl | cases start
    rw [(sound.runs run.id run stored).deadline] at early
    refine ⟨task, attempt, ⟨_, stored', rfl, recorded.holder, free, early⟩,
      recorded.authorized delivery, fun _ => ⟨?_, recorded.holder⟩⟩
    rintro (began | confirmed)
    · exact began idle
    · rw [free] at confirmed
      cases confirmed

theorem signs_eq_some (separate : Function.Injective g.fingerprint) (sound : s.Sound g)
    (h : s.signs g tz t call = some permit) :
    ∃ p input a run, s.runs.get? run.id = some run ∧
      Starts p s (s.apply g tz t call).2 run input a permit ∧
      ¬run.state.Spent ∧ run.state.attempt = some input.attemptId := by
  unfold Store.signs at h
  split at h
  · cases h
  rename_i new
  split at h
  · rename_i response answered
    rcases apply_eq_response answered with ⟨p, input, a, rfl, polled⟩ | ⟨p, input, a, run, rfl, stored, event⟩
    · rw [polled_startPermit separate sound polled] at h
      cases h
    have starts := answered_starts separate sound stored event h
    have missing : s.receipts.get? (toLex (p.registration, input.operationId)) = none :=
      Option.not_isSome_iff_eq_none.mp new
    obtain ⟨unspent, holder⟩ := starts.first missing
    exact ⟨p, input, a, run, stored, starts, unspent, holder⟩
  · cases h

def Store.SpentRun (s : Store D) (id : Uuid) : Prop :=
  ∃ run, s.runs.get? id = some run ∧ run.state.Spent

variable {now : I64} {id : Uuid}

theorem spentRun_change (h : Change g t now s s') (spent : s.SpentRun id) : s'.SpentRun id := by
  obtain ⟨run, stored, spent⟩ := spent
  obtain ⟨run', stored', evolves⟩ := change_run h stored
  exact ⟨run', stored', spent_progress evolves.state spent⟩

theorem sound_apply (sound : s.Sound g) : (s.apply g tz t call).2.Sound g :=
  apply_keep call sound (fun _ _ _ => sound_change)

variable {calls : List (Call D)}

theorem signedStarts_unspent (separate : Function.Injective g.fingerprint) (sound : s.Sound g)
    (signed : permit ∈ Store.signedStarts g tz t calls s) :
    ¬s.SpentRun permit.payload.taskId := by
  induction calls generalizing s with
  | nil => cases signed
  | cons call _ ih =>
    rw [Store.signedStarts, List.mem_append] at signed
    rintro spent
    rcases signed with now' | later
    · obtain ⟨p, input, a, run, stored, starts, unspent, -⟩ :=
        signs_eq_some separate sound (Option.mem_toList.mp now')
      obtain ⟨run', stored', spent⟩ := spent
      rw [starts.task, stored] at stored'
      cases stored'
      exact unspent spent
    · exact ih (sound_apply sound) later (apply_keep call spent (fun _ _ _ => spentRun_change))

theorem signedStarts_nodup (separate : Function.Injective g.fingerprint) (calls : List (Call D))
    (sound : s.Sound g) :
    ((Store.signedStarts g tz t calls s).map (fun permit => permit.payload.taskId)).Nodup := by
  induction calls generalizing s with
  | nil => exact List.nodup_nil
  | cons call _ ih =>
    rw [Store.signedStarts]
    cases signed : s.signs g tz t call with
    | none => exact ih (sound_apply sound)
    | some permit =>
      show (permit.payload.taskId :: _).Nodup
      refine List.nodup_cons.mpr ⟨?_, ih (sound_apply sound)⟩
      intro again
      obtain ⟨other, later, same⟩ := List.mem_map.mp again
      obtain ⟨p, input, a, run, stored, starts, -⟩ := signs_eq_some separate sound signed
      obtain ⟨run', stored', running, -⟩ := starts.running
      refine signedStarts_unspent separate (sound_apply sound) later ⟨run', ?_, .inl ?_⟩
      · rw [same, starts.task]
        exact stored'
      · rw [running]
        decide

/-- An attempt that was recorded for the run does not hold it any more. -/
def Store.Superseded (s : Store D) (id attempt : Uuid) : Prop :=
  ∃ run, s.runs.get? id = some run ∧ run.kind.byAgent = true ∧
    (s.attempts.get? attempt).isSome = true ∧ run.state.attempt ≠ some attempt

variable {attempt : Uuid}

theorem superseded_change (h : Change g t now s s') (superseded : s.Superseded id attempt) :
    s'.Superseded id attempt := by
  obtain ⟨run, stored, kind, used, other⟩ := superseded
  obtain ⟨run', stored', evolves⟩ := change_run h stored
  refine ⟨run', stored', evolves.kind ▸ kind, change_attempts h used, ?_⟩
  rcases attempt_progress evolves.state with same | ⟨-, holder, ⟨fresh, -⟩, taken⟩ | ⟨lease, mdm, is⟩
  · rw [same]
    exact other
  · rw [taken]
    rintro ⟨⟩
    rw [fresh] at used
    cases used
  · rw [mdm] at kind
    cases kind

theorem answered_holder (separate : Function.Injective g.fingerprint) (sound : s.Sound g)
    (stored : s.runs.get? run.id = some run) (delivery : input.event.isDelivery = true)
    (h : Answered g t s p run input a response s') : run.state.attempt = some input.attemptId := by
  cases h with
  | again _ kept =>
    have truth : (Request.event run.id input).Truthful s response := kept_request separate sound kept
    cases response with
    | claimed => exact truth.elim
    | acknowledged =>
      obtain ⟨run', stored', lease, received⟩ := truth.1 delivery
      rw [stored] at stored'
      cases stored'
      rw [RunState.attempt, received]
      rfl
  | first _ _ _ recorded => exact recorded.holder

theorem superseded_refused (separate : Function.Injective g.fingerprint) (sound : s.Sound g)
    (superseded : s.Superseded id input.attemptId) (delivery : input.event.isDelivery = true)
    (a : EventAnswers D) :
    ∃ fault, s.apply g tz t (.actionEvent p id input a) = (.error fault, s) := by
  obtain ⟨found, there, -, -, other⟩ := superseded
  cases answered : eventIn g s p id input a with
  | error fault =>
    exact ⟨fault, apply_actionEvent_error answered⟩
  | ok outcome =>
    obtain ⟨run, rfl, stored, -, event⟩ := eventIn_eq_ok (t := t) answered
    have holder := answered_holder separate sound stored delivery event
    rw [there] at stored
    cases stored
    exact absurd holder other

theorem kept_receipt (h : (s.apply g tz t call).1 = .ok (some response))
    (kept : response.kept = true) (made : call.request = some (registration, request)) :
    (s.apply g tz t call).2.receipts.get? (toLex (registration, request.operationId)) =
      some ⟨g.fingerprint request, response⟩ := by
  rcases apply_eq_response h with ⟨p, input, a, rfl, polled⟩ | ⟨p, input, a, run, rfl, stored, event⟩
  · cases made
    generalize (s.apply g tz t (.claimAction p input a)).2 = s' at polled
    cases polled with
    | again _ there => exact replay_eq_some there
    | offered _ _ s₁ =>
      show (s₁.receipts.insert _ _).get? _ = _
      rw [OrdMap.get?_insert]
      exact if_pos rfl
    | idle _ _ _ offers =>
      rw [Response.kept, offers] at kept
      cases kept
  · cases made
    generalize (s.apply g tz t (.actionEvent p run.id input a)).2 = s' at event
    cases event with
    | again _ there => exact replay_eq_some there
    | first _ s₁ =>
      show (s₁.receipts.insert _ _).get? _ = _
      rw [OrdMap.get?_insert]
      exact if_pos rfl

variable {kept : Receipt D}

theorem replay_conflict {key : ReceiptKey} {fingerprint : List UInt8}
    (there : s.receipts.get? key = some kept) (other : kept.fingerprint ≠ fingerprint) :
    s.replay key fingerprint = .error .conflict := by
  rw [Store.replay, there]
  exact if_pos other

theorem reuse_refused (separate : Function.Injective g.fingerprint) {first : Request D}
    (there : s.receipts.get? (toLex (registration, request.operationId)) = some kept)
    (digest : kept.fingerprint = g.fingerprint first) (other : request ≠ first)
    (made : call.request = some (registration, request)) :
    s.apply g tz t call = (.error ((s.refusal call).getD .conflict), s) := by
  have apart : kept.fingerprint ≠ g.fingerprint request := by
    rw [digest]
    exact fun same => other (separate same.symm)
  have conflict := replay_conflict there apart
  cases call with
  | claimAction p input a =>
    cases made
    have looked : s.replay (toLex (p.registration, input.operationId))
        (g.fingerprint (.claim input)) = .error .conflict := conflict
    refine apply_claimAction_error ?_
    simp only [claimIn, Store.refusal, looked]
    cases a.admitted with
    | error | ok => rfl
  | actionEvent p task input a =>
    cases made
    have looked : s.replay (toLex (p.registration, input.operationId))
        (g.fingerprint (.event task input)) = .error .conflict := conflict
    refine apply_actionEvent_error ?_
    simp only [eventIn, Store.refusal, looked]
    cases admitEvent s p task a with
    | error | ok => rfl
  | acceptForDevice | acceptEvent | acceptSelfService | queueRun | acceptDispatch | recover | retire =>
    cases made

/-- A run of an Agent with a recorded attempt. -/
def Store.Used (s : Store D) (id attempt : Uuid) : Prop :=
  (∃ run, s.runs.get? id = some run ∧ run.kind.byAgent = true) ∧ (s.attempts.get? attempt).isSome = true

theorem used_change (h : Change g t now s s') (used : s.Used id attempt) : s'.Used id attempt := by
  obtain ⟨⟨run, stored, kind⟩, used⟩ := used
  obtain ⟨run', stored', evolves⟩ := change_run h stored
  exact ⟨⟨run', stored', evolves.kind ▸ kind⟩, change_attempts h used⟩

def Store.Received (g : Signing D) (id attempt : Uuid) (s : Store D) : Prop :=
  s.Sound g ∧ ∃ run, s.runs.get? id = some run ∧ run.ReceivedBy attempt

theorem received_change (h : Change g t now s s') (received : s.Received g id attempt) :
    s'.Received g id attempt := by
  obtain ⟨sound, run, stored, received⟩ := received
  obtain ⟨run', stored', evolves⟩ := change_run h stored
  exact ⟨sound_change h sound, run', stored',
    received_progress evolves.state (sound.runs id run stored).delivered received⟩

theorem superseded_of_replaced {holder : Uuid} {run' : Run} (sound : s.Sound g)
    (stored : s.runs.get? id = some run) (held : run.state.attempt = some attempt)
    (stored' : (s.after g tz t calls).runs.get? id = some run')
    (held' : run'.state.attempt = some holder) (other : holder ≠ attempt) :
    (s.after g tz t calls).Superseded id attempt := by
  rcases (sound.runs id run stored).holder attempt held with ⟨kind, used⟩ | received
  · have kept : (s.after g tz t calls).Used id attempt :=
      after_keep calls ⟨⟨run, stored, kind⟩, used⟩ (fun _ _ _ => used_change)
    obtain ⟨⟨found, there, kind⟩, used⟩ := kept
    rw [stored'] at there
    cases there
    refine ⟨run', stored', kind, used, ?_⟩
    rw [held']
    exact fun same => other (Option.some.inj same)
  · have kept : (s.after g tz t calls).Received g id attempt :=
      after_keep calls ⟨sound, run, stored, received⟩ (fun _ _ _ => received_change)
    -- What was received is never replaced.
    obtain ⟨-, found, there, lease, is⟩ := kept
    rw [stored'] at there
    cases there
    rw [RunState.attempt, is] at held'
    exact absurd (Option.some.inj held').symm other

theorem replayOffer_eq_ok {a : PollAnswers D} {task : SignedTask D} (offers : response.task = some task)
    (h : replayOffer s p response a = .ok ()) :
    ∃ run, s.runs.get? task.payload.taskId = some run ∧ run.state.execution = .notStarted ∧
      run.state.cancellation = .none ∧ run.state.attempt = some task.payload.attemptId ∧
      a.now.val < task.payload.expiresAt.val := by
  unfold replayOffer at h
  rw [offers] at h
  obtain ⟨run, loaded, h⟩ := of_bind h
  obtain ⟨-, h⟩ := of_check h
  obtain ⟨live, h⟩ := of_guard h
  obtain ⟨authorized, -, h⟩ := of_bind h
  obtain ⟨early, -⟩ := of_guard h
  simp only [Bool.or_eq_true, decide_eq_true_eq, ne_eq, not_or, not_not] at live
  simp only [Bool.or_eq_true, decide_eq_true_eq, not_or, not_le] at early
  exact ⟨run, loadRun_eq_ok.mp loaded, live.1.2, live.1.1, live.2, early.1⟩

theorem after_cons (calls later : List (Call D)) (call : Call D) :
    s.after g tz t (calls ++ call :: later) =
      ((s.after g tz t calls).apply g tz t call).2.after g tz t later := by
  rw [after_append]
  rfl

theorem receipts_after {key : ReceiptKey} (there : s.receipts.get? key = some kept) :
    (s.after g tz t calls).receipts.get? key = some kept :=
  after_keep (P := fun s => s.receipts.get? key = some kept) calls there
    (fun _ _ _ h there => change_receipts h there)

variable (g tz t)

/-- The Agent protocol, over every history of the service. -/
structure ExactlyOnce : Prop where
  /-- One start at most is signed for each run. -/
  once : ∀ calls, ((Store.signedStarts g tz t calls .empty).map (fun permit => permit.payload.taskId)).Nodup
  /-- It is signed for the attempt that holds the run. -/
  holder : ∀ calls call permit, (Store.empty.after g tz t calls).signs g tz t call = some permit →
    ∃ run, (Store.empty.after g tz t calls).runs.get? permit.payload.taskId = some run ∧
      run.state.attempt = some permit.payload.attemptId
  /-- Every answer with a permit to start, first or replayed. -/
  permitted : ∀ calls call response permit,
    ((Store.empty.after g tz t calls).apply g tz t call).1 = .ok (some response) →
    response.startPermit = some permit →
    ∃ p input a run, call = .actionEvent p permit.payload.taskId input a ∧
      (Store.empty.after g tz t (calls ++ [call])).runs.get? permit.payload.taskId = some run ∧
      run.state.execution = .running ∧ run.state.attempt = some permit.payload.attemptId ∧
      run.state.cancellation = .none ∧ a.now.val < run.deadline.val ∧ a.authorized = true
  /-- Every replayed offer. -/
  offered : ∀ calls p input a response task,
    (Store.empty.after g tz t calls).replays (.claimAction p input a) = true →
    ((Store.empty.after g tz t calls).apply g tz t (.claimAction p input a)).1 =
      .ok (some (.claimed response)) →
    response.task = some task →
    ∃ run, (Store.empty.after g tz t calls).runs.get? task.payload.taskId = some run ∧
      run.state.execution = .notStarted ∧ run.state.cancellation = .none ∧
      run.state.attempt = some task.payload.attemptId ∧ a.now.val < task.payload.expiresAt.val
  /-- An attempt that another one replaced. -/
  superseded : ∀ early later latest id run run' holder p input a,
    (Store.empty.after g tz t early).runs.get? id = some run →
    run.state.attempt = some input.attemptId →
    (Store.empty.after g tz t (early ++ later)).runs.get? id = some run' →
    run'.state.attempt = some holder → holder ≠ input.attemptId →
    input.event.isDelivery = true →
    ∃ fault, (Store.empty.after g tz t (early ++ later ++ latest)).apply g tz t
      (.actionEvent p id input a) = (.error fault, Store.empty.after g tz t (early ++ later ++ latest))
  /-- Another request under the operation id of a request that left a receipt. -/
  reused : ∀ calls first later second registration one other response,
    first.request = some (registration, one) → second.request = some (registration, other) →
    other.operationId = one.operationId → other ≠ one →
    ((Store.empty.after g tz t calls).apply g tz t first).1 = .ok (some response) →
    response.kept = true →
    (Store.empty.after g tz t (calls ++ first :: later)).apply g tz t second =
      (.error (((Store.empty.after g tz t (calls ++ first :: later)).refusal second).getD .conflict),
        Store.empty.after g tz t (calls ++ first :: later))

/-- Whatever is repeated, delayed, reordered or lost, a run is started once. -/
theorem exactly_once (separate : Function.Injective g.fingerprint) : ExactlyOnce g tz t where
  once calls := signedStarts_nodup separate calls sound_empty
  holder := by
    intro calls call permit signed
    obtain ⟨p, input, a, run, stored, starts, -, holder⟩ :=
      signs_eq_some separate (sound_after calls) signed
    refine ⟨run, ?_, ?_⟩
    · rw [starts.task]
      exact stored
    · rw [starts.attempt]
      exact holder
  permitted := by
    intro calls call response permit answered carries
    have sound : (Store.empty.after g tz t calls).Sound g := sound_after calls
    rw [after_cons]
    rcases apply_eq_response answered with ⟨p, input, a, rfl, polled⟩ | ⟨p, input, a, run, rfl, stored, event⟩
    · rw [polled_startPermit separate sound polled] at carries
      cases carries
    · have starts := answered_starts separate sound stored event carries
      obtain ⟨run', stored', running, holder, free, early⟩ := starts.running
      rw [starts.task, starts.attempt]
      exact ⟨p, input, a, run', rfl, stored', running, holder, free, early, starts.authorized⟩
  offered := by
    intro calls p input a response task replayed answered offers
    have polled := apply_claimAction_eq_ok answered
    generalize ((Store.empty.after g tz t calls).apply g tz t (.claimAction p input a)).2 = s' at polled
    have there : ((Store.empty.after g tz t calls).receipts.get?
      (toLex (p.registration, input.operationId))).isSome = true := replayed
    cases polled with
    | again _ _ allowed =>
      have same : (Response.claimed response).task = some task := offers
      exact replayOffer_eq_ok same allowed
    | offered _ _ _ new | idle _ _ new =>
      rw [new] at there
      cases there
  superseded := by
    intro early later latest id run run' holder p input a stored held stored' held' other delivery
    rw [after_append early] at stored'
    have replaced := superseded_of_replaced (sound_after early) stored held stored' held' other
    rw [after_append, after_append early]
    refine superseded_refused separate ?_ ?_ delivery a
    · rw [← after_append, ← after_append]
      exact sound_after _
    · exact after_keep latest replaced (fun _ _ _ => superseded_change)
  reused := by
    intro calls first later second registration one other response made made' same apart answered kept
    rw [after_cons]
    have receipt := kept_receipt answered kept made
    rw [← same] at receipt
    exact reuse_refused separate (receipts_after receipt) rfl apart made'

end

namespace Sample

/-- Tasks whose documents say nothing more than their coordinates. -/
abbrev bareDocuments : Documents := ⟨Unit, Unit, Unit, Unit, Unit⟩

def bits (id : Uuid) : List UInt8 := List.ofFn (fun i : Fin 128 => if id.getLsbD i then 1 else 0)

theorem bits_injective : Function.Injective bits := by
  intro a b same
  have each := List.ofFn_injective same
  apply BitVec.eq_of_getLsbD_eq
  intro i within
  have bit := congrFun each ⟨i, within⟩
  cases left : a.getLsbD i <;> cases right : b.getLsbD i <;> rw [left, right] at bit <;>
    first | rfl | cases bit

def tag : TaskEvent bareDocuments → UInt8
  | .deviceAccessPrepared _ => 0
  | .deviceAccessResult _ => 1
  | .credentialEscrow _ => 2
  | .credentialResult _ => 3
  | .received => 4
  | .start => 5
  | .cancelled => 6
  | .result _ => 7
  | .collectionResult _ => 8
  | .chunkedCollectionResult _ => 9
  | .outputChunk _ => 10
  | .chunkedResult _ => 11
  | .softwareResult _ => 12
  | .unmanageResult .completed => 13
  | .unmanageResult .failed => 14
  | .unmanageResult .unknown => 15
  | .enrollmentResult .opened => 16
  | .enrollmentResult .userRequired => 17
  | .enrollmentResult .thirdPartyConflict => 18
  | .enrollmentResult .unsupported => 19
  | .enrollmentResult .failed => 20
  | .enrollmentResult .unknown => 21

def untag (n : UInt8) : Option (TaskEvent bareDocuments) :=
  [.deviceAccessPrepared (), .deviceAccessResult (), .credentialEscrow (), .credentialResult (),
    .received, .start, .cancelled, .result (), .collectionResult (), .chunkedCollectionResult (),
    .outputChunk (), .chunkedResult (), .softwareResult (), .unmanageResult .completed,
    .unmanageResult .failed, .unmanageResult .unknown, .enrollmentResult .opened,
    .enrollmentResult .userRequired, .enrollmentResult .thirdPartyConflict,
    .enrollmentResult .unsupported, .enrollmentResult .failed, .enrollmentResult .unknown][n.toNat]?

theorem tag_injective : Function.Injective tag := by
  have back : ∀ event, untag (tag event) = some event := by
    intro event
    cases event with
    | unmanageResult outcome | enrollmentResult outcome => cases outcome <;> rfl
    | _ => rfl
  intro a b same
  have both := back a
  rw [same, back b] at both
  exact (Option.some.inj both).symm

def digest : Request bareDocuments → List UInt8
  | .claim input => 0 :: bits input.operationId
  | .event task input =>
      1 :: (bits input.operationId ++ (bits task ++ (bits input.attemptId ++ [tag input.event])))

theorem bits_append {a b : Uuid} {as bs : List UInt8} (same : bits a ++ as = bits b ++ bs) :
    a = b ∧ as = bs := by
  have sizes : (bits a).length = (bits b).length := by rw [bits, bits, List.length_ofFn, List.length_ofFn]
  obtain ⟨first, rest⟩ := List.append_inj same sizes
  exact ⟨bits_injective first, rest⟩

theorem digest_injective : Function.Injective digest := by
  intro a b same
  cases a with
  | claim input =>
    cases b with
    | claim other =>
      have ids : input.operationId = other.operationId := bits_injective (List.cons.inj same).2
      cases input
      cases ids
      rfl
    | event => exact absurd (List.cons.inj same).1 (by decide)
  | event _ input =>
    cases b with
    | claim => exact absurd (List.cons.inj same).1 (by decide)
    | event _ other =>
      obtain ⟨ids, fromTask⟩ := bits_append (List.cons.inj same).2
      obtain ⟨tasks, fromAttempt⟩ := bits_append fromTask
      obtain ⟨attempts, fromEvent⟩ := bits_append fromAttempt
      have events := tag_injective (List.cons.inj fromEvent).1
      cases input
      cases ids
      cases tasks
      cases attempts
      cases events
      rfl

def signing : Signing bareDocuments := ⟨fun _ => .ok [1], digest, fun _ => .ok (some ())⟩

def utc : TimeZones Unit where
  get _ := none
  inRange _ := true
  dateOf _ _ := ⟨0, by omega, by omega⟩
  resolve _ _ := .gap

def alone : Associations := ⟨[], []⟩

local instance moments : NeZero 1000 := ⟨by decide⟩

theorem moment_lo (n : Fin 1000) : -2 ^ 63 ≤ (n : Int) := by omega

theorem moment_hi (n : Fin 1000) : (n : Int) < 2 ^ 63 := by omega

def moment (n : Fin 1000) : I64 := ⟨n, moment_lo n, moment_hi n⟩

def laptop : Target := ⟨"laptop", 5, moment 1⟩

def scriptRun : Store.RunInput where
  id := 7
  kind := .script
  policyVersion := 1
  target := laptop
  occurrence := .other "once"
  available := moment 0
  deadline := moment 300
  invocation := none

def candidate (_ : Uuid) : CandidateAnswers bareDocuments where
  planned := .ok ()
  capable := true
  authorized := true
  withdrawn := false
  policy := ⟨1, .agent, .requiredInstall, [], ⟨.manual, .coalesceOne, moment 0, none, 0, none⟩, 60⟩
  waiting := ⟨⟨.ok none, .ok none, true⟩, true, true, true⟩
  attempt := 9
  issued := .ok ()
  content := .ok ()

def poll (n : Fin 1000) : PollAnswers bareDocuments where
  now := moment n
  admitted := .ok ()
  replayed := .ok true
  prepared := .ok ()
  admissions := []
  reconciled := []
  candidate := candidate

def event (n : Fin 1000) : EventAnswers bareDocuments where
  now := moment n
  admitted := .ok ()
  planned := .ok ()
  authorized := true
  withdrawn := false
  completion := true
  handled := .ok ()
  issued := .ok ()
  content := .ok ()
  uncertain := false
  success := true
  finished := .succeeded
  assessment := .satisfied
  observedAt := none
  receivedAt := moment n
  credentials := []
  recovered := []

/-- A poll while the run is not dispatched yet. -/
def idlePoll : Call bareDocuments := .claimAction laptop ⟨1, ()⟩ (poll 1)

def busyPoll : Call bareDocuments := .claimAction laptop ⟨2, ()⟩ (poll 2)

def receivedEvent (operation : Uuid) : Call bareDocuments :=
  .actionEvent laptop 7 ⟨operation, 9, .received, ()⟩ (event 3)

def startEvent (n : Fin 1000) : Call bareDocuments :=
  .actionEvent laptop 7 ⟨4, 9, .start, ()⟩ (event n)

def queueing : List (Call bareDocuments) := [.queueRun scriptRun (moment 0)]

def history (calls : List (Call bareDocuments)) : Store bareDocuments :=
  Store.empty.after signing utc alone calls

def outcome (s : Store bareDocuments) (call : Call bareDocuments) : Outcome bareDocuments :=
  s.apply signing utc alone call

set_option maxRecDepth 4000 in
/-- The start is signed once, and its repetition is answered with the kept permit. -/
theorem exactly_once_repeated : Function.Injective signing.fingerprint ∧
    ExactlyOnce signing utc alone ∧
    (Store.signedStarts signing utc alone
      (queueing ++ [.acceptDispatch 7, busyPoll, busyPoll, receivedEvent 3, startEvent 4, startEvent 5])
      .empty).map (fun permit => (permit.payload.taskId, permit.payload.attemptId)) = [(7, 9)] ∧
    (outcome (history
      (queueing ++ [.acceptDispatch 7, busyPoll, busyPoll, receivedEvent 3, startEvent 4]))
      (startEvent 5)).1.isOk = true :=
  ⟨digest_injective, exactly_once signing utc alone digest_injective, by decide, by decide⟩

/-- A poll without an offer leaves no receipt, so its operation id serves another request. -/
theorem idle_poll_reused : Function.Injective signing.fingerprint ∧
    ¬∀ (calls : List (Call bareDocuments)) (first : Call bareDocuments)
      (later : List (Call bareDocuments)) (second : Call bareDocuments) (registration : Uuid)
      (one other : Request bareDocuments) (response : Response bareDocuments),
      first.request = some (registration, one) → second.request = some (registration, other) →
      other.operationId = one.operationId → other ≠ one →
      (outcome (history calls) first).1 = .ok (some response) →
      outcome (history (calls ++ first :: later)) second =
        (.error .conflict, history (calls ++ first :: later)) := by
  refine ⟨digest_injective, ?_⟩
  intro always
  have answered : (outcome (history queueing) idlePoll).1 = .ok (some (.claimed ⟨none, []⟩)) := rfl
  have refused := always queueing idlePoll [.acceptDispatch 7, busyPoll] (receivedEvent 1) 5
    (.claim ⟨1, ()⟩) (.event 7 ⟨1, 9, .received, ()⟩) _ rfl rfl rfl nofun answered
  have accepted : (outcome (history (queueing ++ idlePoll :: [.acceptDispatch 7, busyPoll]))
      (receivedEvent 1)).1.isOk = true := by decide
  rw [refused] at accepted
  cases accepted

end Sample

end RssMdm.Actions
