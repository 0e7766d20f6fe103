/- module: Telemetry/Cutoff
   source: crates/telemetry-service/src/admission.rs, retention.rs, delivery.rs, maintenance.rs
   digest: No bound overtakes a sample that was accepted and waits for its delivery, over every interleaving
   of the workers. -/

import Mathlib.Data.List.Nodup
import RssMdm.Telemetry.Retention

set_option autoImplicit false

namespace RssMdm.Telemetry

open RssMdm.Lib.Fallible RssMdm.Lib.Rows
open RssMdm.Policy (Uuid)
open List (mem_append mem_singleton not_mem_nil)
open Option (map_some)

theorem saturatingSub_mono {a b c : Int} (le : a ≤ b) : saturatingSub a c ≤ saturatingSub b c := by
  unfold saturatingSub
  omega

theorem le_saturatingAdd {a b c : Int} (le : a ≤ b) (small : b ≤ maxI64) (pos : 0 ≤ c) :
    a ≤ saturatingAdd b c := by
  unfold saturatingAdd
  omega

variable {env : Environment} {s s' : State} {u : Upload} {receivedAt : Int} {x : Sample}

theorem mem_prepare {samples : List Sample} (h : prepare env u receivedAt = .ok samples) (mem : x ∈ samples) :
    x.selection.series.device = u.device ∧ x.selection.series.field ∈ u.fields ∧ u.projection ≠ .current ∧
      ∃ o ∈ u.observations, x.observedAt = o.observedAt := by
  unfold prepare at h
  obtain ⟨lists, mapped, h⟩ := of_bind h
  cases h
  obtain ⟨list, there, mem⟩ := List.mem_flatten.mp mem
  obtain ⟨o, observed, made⟩ := exists_left_of_mem (mapM_eq_ok.mp mapped) there
  unfold observationSamples at made
  obtain ⟨-, made⟩ := of_guard made
  obtain ⟨perField, mapped', made⟩ := of_bind made
  cases made
  obtain ⟨list', there', mem⟩ := List.mem_flatten.mp mem
  obtain ⟨f, field, made⟩ := exists_left_of_mem (mapM_eq_ok.mp mapped') there'
  unfold fieldSamples at made
  split at made
  · cases made
  split at made
  · cases made
    cases mem
  rename_i projected
  obtain ⟨resources, -, made⟩ := of_bind made
  cases made
  obtain ⟨r, -, rfl⟩ := List.mem_map.mp mem
  exact ⟨rfl, field, projected, o, observed, rfl⟩

theorem mem_history {b : Batch} (mem : x ∈ b.history env) :
    x.selection.series.device = b.upload.device ∧ x.selection.series.field ∈ b.upload.fields ∧
      b.upload.projection ≠ .current ∧ ∃ o ∈ b.upload.observations, x.observedAt = o.observedAt := by
  unfold Batch.history at mem
  split at mem
  · rename_i samples h
    exact mem_prepare h mem
  · cases mem

/-- No request so far reaches beyond one of the samples. -/
def Ahead (sent : List Sent) (samples : List Sample) : Prop :=
  ∀ x ∈ samples, ∀ e ∈ sent, e.request.selection = x.selection → e.request.action.rawBefore ≤ x.observedAt

def Bounded (env : Environment) (time : Int) (selection : Selection) (raw : Int) : Prop :=
  ∃ p, env.policy selection.series.field = some p ∧ raw ≤ max (saturatingSub time (micros p.rawSeconds)) 0

/-- What a transaction that holds the fence of a device knows. -/
def Holds (env : Environment) (s : State) (d : String) : Work → Prop
  | .intake b => b.upload.device = d ∧ Ahead s.sent (b.history env)
  | .retain id now request => now ≤ s.clock ∧ ∃ t, lookup Target.id s.targets id = some t ∧
      t.selection.series.device = d ∧ t.nextCheck ≤ now ∧
      ∀ r, request = some r → ∃ p, env.policy t.selection.series.field = some p ∧
        r = State.policyRequest env p t ∧ s.pending d t.selection.series.field.key = false
  | .operate r => r.target.series.device = d ∧ s.pending d r.target.series.field.key = false ∧
      Bounded env s.clock r.target r.action.rawBefore ∧
      ∃ i, lookup Intent.id s.intents r.id = some i ∧ i.binding = env.binding r

structure Sound (env : Environment) (s : State) : Prop where
  clock : s.clock ≤ maxI64
  distinct : (s.targets.map Target.id).Nodup
  due : ∀ t ∈ s.targets, t.dueAt ≤ t.nextCheck
  bounds : ∀ e ∈ s.sent, e.sentAt ≤ s.clock ∧
    Bounded env e.sentAt e.request.selection e.request.action.rawBefore ∧
    ∀ id due phase, e.cause = .policy id due phase → due ≤ e.sentAt
  ahead : ∀ b ∈ s.batches, b.delivery ≠ .published → Ahead s.sent (b.history env)
  held : ∀ d h, s.held d = some h → Holds env s d h.work
  intents : ∀ e ∈ s.sent, ∀ r, e.cause = .operator r →
    ∃ i, lookup Intent.id s.intents r.id = some i ∧ i.binding = env.binding r

theorem Bounded.mono {time later : Int} {selection : Selection} {raw : Int}
    (bounded : Bounded env time selection raw) (le : time ≤ later) : Bounded env later selection raw := by
  obtain ⟨p, is, bound⟩ := bounded
  refine ⟨p, is, ?_⟩
  have more := saturatingSub_mono (c := micros p.rawSeconds) le
  omega

theorem pending_eq_false {d field : String} : s.pending d field = false ↔
    ∀ b ∈ s.batches, b.upload.device = d → field ∈ b.upload.fields.map Field.key → b.delivery = .published := by
  unfold State.pending
  rw [List.any_eq_false]
  constructor
  · intro none b mem same there
    by_contra unpublished
    refine none b mem ?_
    simp only [Bool.and_eq_true, decide_eq_true_eq, ne_eq]
    exact ⟨⟨same, List.contains_iff_mem.mpr there⟩, unpublished⟩
  · intro all b mem is
    simp only [Bool.and_eq_true, decide_eq_true_eq, ne_eq] at is
    exact is.2 (all b mem is.1.1 (List.contains_iff_mem.mp is.1.2))

theorem Holds.keep {d : String} {w : Work} (holds : Holds env s d w) (clock : s.clock ≤ s'.clock)
    (sent : ∀ b, w = .intake b → ∀ e ∈ s'.sent, e.request.selection.series.device = d → e ∈ s.sent)
    (targets : ∀ id t, lookup Target.id s.targets id = some t → t.selection.series.device = d →
      lookup Target.id s'.targets id = some t)
    (pending : ∀ field, s.pending d field = false → s'.pending d field = false)
    (intents : ∀ id i, lookup Intent.id s.intents id = some i →
      ∃ i', lookup Intent.id s'.intents id = some i' ∧ i'.binding = i.binding) : Holds env s' d w := by
  cases w with
  | intake b =>
    obtain ⟨device, ahead⟩ := holds
    refine ⟨device, fun x mem e there same => ahead x mem e (sent b rfl e there ?_) same⟩
    rw [same]
    exact (mem_history mem).1.trans device
  | retain id =>
    obtain ⟨past, t, found, device, due, asked⟩ := holds
    refine ⟨by omega, t, targets id t found device, device, due, fun r is => ?_⟩
    obtain ⟨p, policy, equal, quiet⟩ := asked r is
    exact ⟨p, policy, equal, pending _ quiet⟩
  | operate r =>
    obtain ⟨device, quiet, bounded, i, found, binding⟩ := holds
    obtain ⟨i', found', same⟩ := intents r.id i found
    exact ⟨device, pending _ quiet, bounded.mono clock, i', found', same.trans binding⟩

theorem Sound.withHeld (sound : Sound env s) {held : String → Option Held}
    (holds : ∀ d h, held d = some h → Holds env s d h.work) : Sound env { s with held } := by
  refine ⟨sound.clock, sound.distinct, sound.due, sound.bounds, sound.ahead, fun d h is => ?_, sound.intents⟩
  exact (holds d h is).keep (Int.le_refl _) (fun _ _ e mem _ => mem) (fun _ _ found _ => found)
    (fun _ quiet => quiet) (fun _ i found => ⟨i, found, rfl⟩)

theorem Sound.free (sound : Sound env s) (device : String) : Sound env (s.free device) := by
  refine sound.withHeld fun d h is => ?_
  split at is
  · cases is
  · exact sound.held d h is

variable {work : Except Fault (Option Work)} {device : String}

theorem fenced_eq_ok (h : s.fenced device work = .ok s') :
    s' = s ∨ ∃ w, work = .ok (some w) ∧ s' = s.hold device w := by
  unfold State.fenced at h
  obtain ⟨-, h⟩ := of_guard h
  split at h
  · cases h
  · cases h
    exact .inl rfl
  · cases h
    exact .inr ⟨_, rfl, rfl⟩

theorem Sound.fenced (sound : Sound env s) (holds : ∀ w, work = .ok (some w) → Holds env s device w)
    (h : s.fenced device work = .ok s') : Sound env s' := by
  rcases fenced_eq_ok h with rfl | ⟨w, is, rfl⟩
  · exact sound
  refine sound.withHeld fun d held there => ?_
  split at there
  · rename_i same
    cases there
    rw [same]
    exact holds w is
  · exact sound.held d held there

section

variable {device : String} {w : Work}

theorem receive_holds (sound : Sound env s) {verified capacity : Except Fault Unit}
    (h : s.receive env u verified capacity = .ok (some w)) : Holds env s u.device w := by
  unfold State.receive at h
  obtain ⟨valid, h⟩ := of_guard h
  split at h
  · obtain ⟨-, h⟩ := of_guard h
    cases h
  obtain ⟨-, h⟩ := of_check h
  obtain ⟨-, h⟩ := of_guard h
  obtain ⟨late, h⟩ := of_check h
  obtain ⟨samples, -, h⟩ := of_bind h
  obtain ⟨-, h⟩ := of_check h
  cases h
  refine ⟨rfl, fun x mem e sent same => ?_⟩
  obtain ⟨-, field, projected, o, observed, time⟩ := mem_history mem
  have positive : 0 ≤ o.observedAt := by
    by_contra negative
    refine valid (Bool.or_eq_true_iff.mpr (.inr (List.any_eq_true.mpr ⟨o, observed, ?_⟩)))
    simp only [Bool.or_eq_true, decide_eq_true_eq]
    omega
  rw [if_neg projected] at late
  have checked := each_eq_ok.mp late _ field
  obtain ⟨before, ⟨p, policy, bound⟩, -⟩ := sound.bounds e sent
  rw [same] at policy
  unfold State.tooLate at checked
  rw [policy] at checked
  obtain ⟨none, -⟩ := of_guard checked
  have within : saturatingSub s.clock (micros p.rawSeconds) ≤ o.observedAt := by
    by_contra late
    refine none (List.any_eq_true.mpr ⟨o, observed, ?_⟩)
    simp only [decide_eq_true_eq]
    omega
  have past := saturatingSub_mono (c := micros p.rawSeconds) before
  omega

theorem retain_holds {t : Target} {id : String} {now : Int} (past : now ≤ s.clock)
    (found : lookup Target.id s.targets id = some t) (h : s.retain env t now = .ok (some w)) :
    Holds env s t.selection.series.device w := by
  have same : t.id = id := key_of_lookup found
  subst same
  unfold State.retain at h
  split at h
  · rename_i ready
    have due : t.nextCheck ≤ now := decide_eq_true_eq.mp (Bool.and_eq_true_iff.mp ready).2
    split at h
    · cases h
      exact ⟨past, t, found, rfl, due, fun r is => (by cases is)⟩
    rename_i quiet
    split at h
    · cases h
    rename_i p policy
    cases h
    refine ⟨past, t, found, rfl, due, fun r is => ?_⟩
    cases is
    exact ⟨p, policy, rfl, by simpa using quiet⟩
  · cases h

variable {r : Request} {permitted : Except Fault Unit}

theorem authorize_eq_ok (h : s.authorize env r permitted = .ok ()) :
    s.pending r.device r.field = false ∧ Bounded env s.clock r.target r.action.rawBefore := by
  unfold State.authorize at h
  obtain ⟨-, h⟩ := of_check h
  obtain ⟨quiet, h⟩ := of_guard h
  split at h
  · cases h
  · rename_i p policy
    obtain ⟨bound, -⟩ := of_guard h
    exact ⟨by simpa using quiet, p, policy, by omega⟩

theorem selects_eq_ok (h : State.selects r = .ok ()) :
    r.target.series.device = r.device ∧ r.target.series.field.key = r.field := by
  unfold State.selects at h
  obtain ⟨all, -⟩ := of_guard h
  simp only [Bool.or_eq_true, decide_eq_true_eq, ne_eq, not_or, Decidable.not_not] at all
  exact ⟨all.1.1, all.2⟩

theorem operate_holds (h : s.operate env r permitted = .ok (some w)) : Holds env s r.device w := by
  unfold State.operate at h
  obtain ⟨selects, h⟩ := of_check h
  obtain ⟨device, field⟩ := selects_eq_ok selects
  obtain ⟨authorized, h⟩ := of_check h
  obtain ⟨quiet, bounded⟩ := authorize_eq_ok authorized
  split at h
  · cases h
  rename_i i found
  obtain ⟨binding, h⟩ := of_guard h
  split at h
  · cases h
  · cases h
    exact ⟨device, field ▸ quiet, bounded, i, found, not_ne_iff.mp binding⟩

/-- What is sent: its series belongs to the device, nothing of the field waits there, and its bound is one
that the policy allows now. -/
theorem outgoing_holds {request : MaintenanceRequest} {cause : Cause} (sound : Sound env s)
    (holds : Holds env s device w) (h : s.outgoing w = some (request, cause)) :
    (∀ b, w ≠ .intake b) ∧ request.selection.series.device = device ∧
      s.pending device request.selection.series.field.key = false ∧
      Bounded env s.clock request.selection request.action.rawBefore ∧
      (∀ id due phase, cause = .policy id due phase → due ≤ s.clock) ∧
      (∀ r, cause = .operator r → ∃ i, lookup Intent.id s.intents r.id = some i ∧ i.binding = env.binding r) := by
  cases w with
  | intake => cases h
  | retain _ _ asked =>
    cases asked with
    | none => cases h
    | some r =>
      obtain ⟨past, t, found, owner, check, all⟩ := holds
      obtain ⟨p, policy, rfl, quiet⟩ := all r rfl
      have due := sound.due t (mem_of_lookup found)
      simp only [State.outgoing, found, map_some, Option.some.injEq, Prod.mk.injEq] at h
      obtain ⟨rfl, rfl⟩ := h
      refine ⟨fun b same => (by cases same), owner, quiet, ⟨p, policy, ?_⟩, ?_, fun r same => (by cases same)⟩
      · have mono : saturatingSub t.dueAt (micros p.rawSeconds) ≤
            saturatingSub s.clock (micros p.rawSeconds) := saturatingSub_mono (by omega)
        simp only [State.policyRequest, State.policyAction]
        split <;> simp only [Action.rawBefore] <;> omega
      · intro id' due' phase' same
        cases same
        omega
  | operate =>
    obtain ⟨owner, quiet, bounded, intent⟩ := holds
    cases h
    refine ⟨fun b same => (by cases same), owner, quiet, bounded, fun _ _ _ same => (by cases same), ?_⟩
    intro r' same
    cases same
    exact intent

theorem send_eq_ok (h : s.send device = .ok s') : ∃ work request cause, s.held device = some ⟨work, false⟩ ∧
    s.outgoing work = some (request, cause) ∧ s' = { s with
      sent := s.sent ++ [⟨request, cause, s.clock⟩]
      held := fun d => if d = device then some ⟨work, true⟩ else s.held d } := by
  unfold State.send at h
  split at h
  · rename_i work held
    split at h
    · rename_i request cause out
      cases h
      exact ⟨work, request, cause, held, out, rfl⟩
    · cases h
  · cases h

theorem Sound.send (sound : Sound env s) (h : s.send device = .ok s') : Sound env s' := by
  obtain ⟨work, request, cause, held, out, rfl⟩ := send_eq_ok h
  have holds := sound.held device _ held
  obtain ⟨other, owner, quiet, bounded, due, intent⟩ := outgoing_holds sound holds out
  refine ⟨sound.clock, sound.distinct, sound.due, ?_, ?_, ?_, ?_⟩
  · intro e mem
    rcases mem_append.mp mem with before | new
    · exact sound.bounds e before
    · cases mem_singleton.mp new
      exact ⟨Int.le_refl _, bounded, due⟩
  · intro b mem unpublished x sample e there same
    rcases mem_append.mp there with before | new
    · exact sound.ahead b mem unpublished x sample e before same
    cases mem_singleton.mp new
    obtain ⟨own, field, -⟩ := mem_history sample
    rw [same] at owner quiet
    have published := pending_eq_false.mp quiet b mem (own.symm.trans owner) (List.mem_map_of_mem field)
    exact absurd published unpublished
  · intro d hold is
    have now : Holds env s d hold.work := by
      simp only at is
      split at is
      · rename_i same
        cases is
        rw [same]
        exact holds
      · exact sound.held d hold is
    refine now.keep (Int.le_refl _) ?_ (fun _ _ found _ => found) (fun _ still => still)
      (fun _ i found => ⟨i, found, rfl⟩)
    intro b intake e there mine
    rcases mem_append.mp there with before | new
    · exact before
    cases mem_singleton.mp new
    have same : d = device := mine.symm.trans owner
    simp only at is
    rw [if_pos same] at is
    cases is
    exact absurd intake (other b)
  · intro e mem r by'
    rcases mem_append.mp mem with before | new
    · exact sound.intents e before r by'
    · cases mem_singleton.mp new
      exact intent r by'

theorem Sound.saveBatch (sound : Sound env s) {id : Uuid} {f : Batch → Batch}
    (keeps : ∀ b, (f b).upload = b.upload ∧ (f b).receivedAt = b.receivedAt)
    (published : ∀ b, b.delivery = .published → (f b).delivery = .published) :
    Sound env (s.saveBatch id f) := by
  have history : ∀ b, (f b).history env = b.history env := by
    intro b
    obtain ⟨upload, received⟩ := keeps b
    unfold Batch.history
    rw [upload, received]
  refine ⟨sound.clock, sound.distinct, sound.due, sound.bounds, ?_, ?_, sound.intents⟩
  · intro b mem unpublished
    rcases mem_update mem with ⟨old, there, -, rfl⟩ | there
    · rw [history]
      exact sound.ahead old there (fun already => unpublished (published old already))
    · exact sound.ahead b there unpublished
  · intro d hold is
    refine (sound.held d hold is).keep (Int.le_refl _) (fun _ _ _ mem _ => mem) (fun _ _ found _ => found) ?_
      (fun _ i found => ⟨i, found, rfl⟩)
    intro field quiet
    refine pending_eq_false.mpr fun b mem owner there => ?_
    rcases mem_update mem with ⟨old, member, -, rfl⟩ | member
    · rw [(keeps old).1] at owner there
      exact published old (pending_eq_false.mp quiet old member owner there)
    · exact pending_eq_false.mp quiet b member owner there

variable {written current : Except Fault Unit}

theorem deliver_eq_ok {id : Uuid} (h : s.deliver id written current = .ok s') :
    s' = s ∨ s' = s.saveBatch id (fun b => { b with delivery := .published }) := by
  unfold State.deliver at h
  split at h
  · cases h
  split at h
  · cases h
    exact .inl rfl
  · obtain ⟨-, h⟩ := of_check h
    obtain ⟨-, h⟩ := of_check h
    cases h
    exact .inr rfl

theorem Sound.deliver (sound : Sound env s) {id : Uuid}
    (h : s.deliver id written current = .ok s') :
    Sound env s' ∧ s'.sent = s.sent := by
  rcases deliver_eq_ok h with rfl | rfl
  · exact ⟨sound, rfl⟩
  · exact ⟨sound.saveBatch (fun _ => ⟨rfl, rfl⟩) (fun _ _ => rfl), rfl⟩

theorem Sound.observe (sound : Sound env s) (id : Uuid) (blocked : Bool) : Sound env (s.observe id blocked) := by
  refine sound.saveBatch (fun b => ?_) (fun b published => ?_)
  · split <;> exact ⟨rfl, rfl⟩
  · rw [if_pos published]
    exact published

section

variable (env) in
theorem registerOne_spec (now : Int) (targets : List Target) (sample : Sample) :
    let targets' := State.registerOne env now targets sample
    ((targets.map Target.id).Nodup → (targets'.map Target.id).Nodup) ∧
      ((∀ t ∈ targets, t.dueAt ≤ t.nextCheck) → ∀ t ∈ targets', t.dueAt ≤ t.nextCheck) ∧
      ∀ id t, lookup Target.id targets id = some t → lookup Target.id targets' id = some t := by
  intro targets'
  by_cases there : (lookup Target.id targets (env.key sample.selection)).isSome = true
  · have same : targets' = targets := by
      simp only [targets', State.registerOne, there, if_true]
    rw [same]
    exact ⟨fun nodup => nodup, fun due => due, fun _ _ found => found⟩
  · have same : targets' = targets ++ [⟨env.key sample.selection, sample.selection,
        saturatingAdd now 3600000000, saturatingAdd now 3600000000, 0⟩] := by
      simp only [targets', State.registerOne, there, if_false, Bool.false_eq_true]
    have absent := Option.not_isSome_iff_eq_none.mp there
    rw [same]
    refine ⟨fun nodup => ?_, fun due t mem => ?_, fun id t found => lookup_append_found found⟩
    · rw [List.map_append]
      refine List.Nodup.append nodup (by simp) ?_
      have missing : env.key sample.selection ∉ targets.map Target.id := by
        intro mem
        obtain ⟨t, member, is⟩ := List.mem_map.mp mem
        have none := List.find?_eq_none.mp absent t member
        exact none (by simpa using is)
      simpa using missing
    · rcases mem_append.mp mem with before | new
      · exact due t before
      · cases mem_singleton.mp new
        exact Int.le_refl _

variable (env) in
theorem register_spec (now : Int) (samples : List Sample) (targets : List Target) :
    let targets' := samples.foldl (State.registerOne env now) targets
    ((targets.map Target.id).Nodup → (targets'.map Target.id).Nodup) ∧
      ((∀ t ∈ targets, t.dueAt ≤ t.nextCheck) → ∀ t ∈ targets', t.dueAt ≤ t.nextCheck) ∧
      ∀ id t, lookup Target.id targets id = some t → lookup Target.id targets' id = some t := by
  induction samples generalizing targets with
  | nil => exact ⟨fun nodup => nodup, fun due => due, fun _ _ found => found⟩
  | cons sample _ ih =>
    obtain ⟨distinct, due, kept⟩ := registerOne_spec env now targets sample
    obtain ⟨distinct', due', kept'⟩ := ih (State.registerOne env now targets sample)
    exact ⟨fun nodup => distinct' (distinct nodup), fun all => due' (due all),
      fun id t found => kept' id t (kept id t found)⟩

variable {held : String → Option Held}

theorem Sound.commitIntake (sound : Sound env s) {b : Batch}
    (holds : Holds env s device (.intake b))
    (others : ∀ d h, held d = some h → d ≠ device ∧ s.held d = some h) :
    Sound env { s with targets := s.register env b, batches := s.batches ++ [b], held } := by
  obtain ⟨owner, ahead⟩ := holds
  obtain ⟨distinct, due, kept⟩ := register_spec env b.receivedAt (b.history env) s.targets
  refine ⟨sound.clock, distinct sound.distinct, due sound.due, sound.bounds, ?_, ?_, sound.intents⟩
  · intro b' mem unpublished
    rcases mem_append.mp mem with before | new
    · exact sound.ahead b' before unpublished
    · cases mem_singleton.mp new
      exact ahead
  · intro d h is
    obtain ⟨different, before⟩ := others d h is
    refine (sound.held d h before).keep (Int.le_refl _) (fun _ _ _ mem _ => mem)
      (fun id t found _ => kept id t found) ?_ (fun _ i found => ⟨i, found, rfl⟩)
    intro field quiet
    refine pending_eq_false.mpr fun b' mem mine there => ?_
    rcases mem_append.mp mem with before | new
    · exact pending_eq_false.mp quiet b' before mine there
    · cases mem_singleton.mp new
      exact absurd (mine.symm.trans owner) different

variable {progress : Progress}

theorem advanceTarget_id {now : Int} (t : Target) :
    (State.advanceTarget now progress t).id = t.id := by
  unfold State.advanceTarget
  split
  · split <;> rfl
  · rfl

theorem advanceTarget_due {now : Int} {t : Target} (due : t.dueAt ≤ now) (small : now ≤ maxI64) :
    (State.advanceTarget now progress t).dueAt ≤ (State.advanceTarget now progress t).nextCheck := by
  unfold State.advanceTarget
  split
  · split
    · exact le_saturatingAdd due small (by decide)
    · exact Int.le_refl _
  · exact le_saturatingAdd due small (by decide)

theorem Sound.commitRetain (sound : Sound env s) {id : String} {now : Int}
    {request : Option MaintenanceRequest} (holds : Holds env s device (.retain id now request))
    (others : ∀ d h, held d = some h → d ≠ device ∧ s.held d = some h) :
    Sound env { s.saveTarget id (State.advanceTarget now progress) with held } := by
  obtain ⟨past, t, found, owner, check, -⟩ := holds
  have clock := sound.clock
  refine ⟨sound.clock, ?_, ?_, sound.bounds, sound.ahead, ?_, sound.intents⟩
  · have same : (update Target.id s.targets id (State.advanceTarget now progress)).map Target.id =
        s.targets.map Target.id := by
      unfold update
      rw [List.map_map]
      refine List.map_congr_left fun row _ => ?_
      simp only [Function.comp_apply]
      split
      · exact advanceTarget_id row
      · rfl
    exact same ▸ sound.distinct
  · intro row mem
    rcases mem_update mem with ⟨old, there, is, rfl⟩ | there
    · have equal : old = t := List.inj_on_of_nodup_map sound.distinct there (mem_of_lookup found)
        (is.trans (key_of_lookup found).symm)
      have due := sound.due t (mem_of_lookup found)
      rw [equal]
      exact advanceTarget_due (by omega) (by omega)
    · exact sound.due row there
  · intro d h is
    obtain ⟨different, before⟩ := others d h is
    refine (sound.held d h before).keep (Int.le_refl _) (fun _ _ _ mem _ => mem) ?_ (fun _ quiet => quiet)
      (fun _ i found => ⟨i, found, rfl⟩)
    intro id' t' found' mine
    have other : id' ≠ id := by
      intro same
      rw [same, found] at found'
      cases found'
      exact different (mine.symm.trans owner)
    show lookup Target.id (update Target.id s.targets id (State.advanceTarget now progress)) id' = some t'
    rw [lookup_update advanceTarget_id, found', map_some, if_neg other]

theorem Sound.commitOperate (sound : Sound env s)
    (others : ∀ d h, held d = some h → s.held d = some h) :
    Sound env { s.saveIntent r.id (Intent.settle progress) with held } := by
  have same : ∀ i : Intent, (i.settle progress).id = i.id := fun _ => rfl
  have kept : ∀ id i, lookup Intent.id s.intents id = some i →
      ∃ i', lookup Intent.id (update Intent.id s.intents r.id (.settle progress)) id = some i' ∧
        i'.binding = i.binding := by
    intro id i found
    rw [lookup_update same, found, map_some]
    refine ⟨_, rfl, ?_⟩
    split <;> rfl
  refine ⟨sound.clock, sound.distinct, sound.due, sound.bounds, sound.ahead, ?_, ?_⟩
  · intro d h is
    exact (sound.held d h (others d h is)).keep (Int.le_refl _) (fun _ _ _ mem _ => mem)
      (fun _ _ found _ => found) (fun _ quiet => quiet) kept
  · intro e mem r' cause
    obtain ⟨i, found, binding⟩ := sound.intents e mem r' cause
    obtain ⟨i', found', same⟩ := kept r'.id i found
    exact ⟨i', found', same.trans binding⟩

theorem Sound.commit (sound : Sound env s) (h : s.commit env device progress = .ok s') :
    Sound env s' ∧ s'.sent = s.sent := by
  have others : ∀ d h, (fun d => if d = device then none else s.held d) d = some h →
      d ≠ device ∧ s.held d = some h := by
    intro d h is
    simp only at is
    split at is
    · cases is
    · rename_i different
      exact ⟨different, is⟩
  unfold State.commit at h
  split at h
  · cases h
  rename_i hold held
  have holds := sound.held device hold held
  split at h
  · rename_i b work
    cases h
    rw [work] at holds
    exact ⟨sound.commitIntake holds others, rfl⟩
  · rename_i id now request work
    obtain ⟨-, h⟩ := of_guard h
    cases h
    rw [work] at holds
    exact ⟨sound.commitRetain holds others, rfl⟩
  · rename_i r work
    obtain ⟨-, h⟩ := of_guard h
    cases h
    exact ⟨sound.commitOperate (fun d h is => (others d h is).2), rfl⟩

end

theorem intend_eq_ok (h : s.intend env r permitted = .ok s') :
    s' = s ∨ s' = { s with intents := s.intents ++ [⟨r.id, env.binding r, false⟩] } := by
  unfold State.intend at h
  obtain ⟨-, h⟩ := of_check h
  obtain ⟨-, h⟩ := of_check h
  split at h
  · obtain ⟨-, h⟩ := of_guard h
    cases h
    exact .inl rfl
  · cases h
    exact .inr rfl

theorem Sound.intend (sound : Sound env s) (h : s.intend env r permitted = .ok s') :
    Sound env s' ∧ s'.sent = s.sent := by
  rcases intend_eq_ok h with rfl | rfl
  · exact ⟨sound, rfl⟩
  refine ⟨⟨sound.clock, sound.distinct, sound.due, sound.bounds, sound.ahead, ?_, ?_⟩, rfl⟩
  · intro d h is
    exact (sound.held d h is).keep (Int.le_refl _) (fun _ _ _ mem _ => mem) (fun _ _ found _ => found)
      (fun _ quiet => quiet) (fun _ i found => ⟨i, lookup_append_found found, rfl⟩)
  · intro e mem r' cause
    obtain ⟨i, found, binding⟩ := sound.intents e mem r' cause
    exact ⟨i, lookup_append_found found, binding⟩

theorem Sound.tick (sound : Sound env s) {clock : Int} (later : s.clock ≤ clock) (small : clock ≤ maxI64) :
    Sound env { s with clock } := by
  refine ⟨small, sound.distinct, sound.due, ?_, sound.ahead, ?_, sound.intents⟩
  · intro e mem
    obtain ⟨before, rest⟩ := sound.bounds e mem
    exact ⟨Int.le_trans before later, rest⟩
  · intro d h is
    exact (sound.held d h is).keep later (fun _ _ _ mem _ => mem) (fun _ _ found _ => found)
      (fun _ quiet => quiet) (fun _ i found => ⟨i, found, rfl⟩)

theorem fenced_keeps {work : Except Fault (Option Work)} (h : s.fenced device work = .ok s') :
    s'.sent = s.sent ∧ s'.targets = s.targets := by
  rcases fenced_eq_ok h with rfl | ⟨w, -, rfl⟩
  · exact ⟨rfl, rfl⟩
  · exact ⟨rfl, rfl⟩

theorem Sound.perform (sound : Sound env s) {event : Event} (h : s.perform env event = .ok s') :
    Sound env s' ∧ (s'.sent = s.sent ∨ ∃ device, event = .send device) := by
  cases event with
  | tick =>
    obtain ⟨range, h⟩ := of_guard h
    cases h
    simp only [Bool.or_eq_true, decide_eq_true_eq, not_or] at range
    exact ⟨sound.tick (by omega) (by omega), .inl rfl⟩
  | receive =>
    exact ⟨sound.fenced (fun w is => receive_holds sound is) h, .inl (fenced_keeps h).1⟩
  | retain id now =>
    obtain ⟨past, h⟩ := of_guard h
    split at h
    · cases h
      exact ⟨sound, .inl rfl⟩
    · rename_i t found
      exact ⟨sound.fenced (fun w is => retain_holds (by omega) found is) h, .inl (fenced_keeps h).1⟩
  | intend =>
    obtain ⟨-, h⟩ := of_guard h
    obtain ⟨kept, sent⟩ := sound.intend h
    exact ⟨kept, .inl sent⟩
  | operate =>
    exact ⟨sound.fenced (fun w is => operate_holds is) h, .inl (fenced_keeps h).1⟩
  | send device => exact ⟨sound.send h, .inr ⟨device, rfl⟩⟩
  | commit =>
    obtain ⟨kept, sent⟩ := sound.commit h
    exact ⟨kept, .inl sent⟩
  | rollback device =>
    cases h
    exact ⟨sound.free device, .inl rfl⟩
  | deliver =>
    obtain ⟨kept, sent⟩ := sound.deliver h
    exact ⟨kept, .inl sent⟩
  | observe id blocked =>
    cases h
    exact ⟨sound.observe id blocked, .inl rfl⟩

theorem Sound.apply (sound : Sound env s) (event : Event) : Sound env (s.apply env event) := by
  unfold State.apply
  split
  · rename_i s' h
    exact (sound.perform h).1
  · exact sound

theorem Sound.after (sound : Sound env s) (events : List Event) : Sound env (s.after env events) := by
  induction events generalizing s with
  | nil => exact sound
  | cons event _ ih => exact ih (sound.apply event)

theorem empty_sound : Sound env State.empty where
  clock := by decide
  distinct := List.nodup_nil
  due := fun _ mem => nomatch mem
  bounds := fun _ mem => nomatch mem
  ahead := fun _ mem => nomatch mem
  held := fun _ _ is => (by cases is)
  intents := fun _ mem => nomatch mem

end

variable {id : String} {t t' : Target} {p : Policy} {event : Event}

def State.completes (s : State) (id : String) : Event → Bool
  | .commit device .complete =>
      match s.held device with
      | some ⟨.retain target _ (some _), _⟩ => target = id
      | _ => false
  | _ => false

/-- No event of a run commits a completed request of the target. -/
def State.unresolved (env : Environment) (id : String) : State → List Event → Bool
  | _, [] => true
  | s, event :: rest => !s.completes id event && (s.apply env event).unresolved env id rest

structure SameTarget (t t' : Target) : Prop where
  id : t'.id = t.id
  selection : t'.selection = t.selection
  due : t'.dueAt = t.dueAt
  phase : t'.phase = t.phase

theorem SameTarget.refl : SameTarget t t := ⟨rfl, rfl, rfl, rfl⟩

theorem SameTarget.request (same : SameTarget t t') : State.policyRequest env p t' = State.policyRequest env p t := by
  unfold State.policyRequest State.policyAction
  rw [same.id, same.selection, same.due, same.phase]

theorem advanceTarget_same {now : Int} {progress : Progress} (open' : progress ≠ .complete) :
    SameTarget t (State.advanceTarget now progress t) := by
  unfold State.advanceTarget
  rw [if_neg open']
  exact ⟨rfl, rfl, rfl, rfl⟩

theorem commit_target {progress : Progress} (h : s.commit env device progress = .ok s')
    (open' : s.completes id (.commit device progress) = false)
    (found : lookup Target.id s.targets id = some t) :
    ∃ t', lookup Target.id s'.targets id = some t' ∧ SameTarget t t' := by
  unfold State.commit at h
  split at h
  · cases h
  rename_i hold held
  obtain ⟨work, sent⟩ := hold
  split at h
  · rename_i b is
    cases h
    obtain ⟨-, -, kept⟩ := register_spec env b.receivedAt (b.history env) s.targets
    exact ⟨t, kept id t found, .refl⟩
  · rename_i target now request is
    subst is
    obtain ⟨-, h⟩ := of_guard h
    cases h
    show ∃ t', lookup Target.id (update Target.id s.targets target _) id = some t' ∧ SameTarget t t'
    rw [lookup_update advanceTarget_id, found, map_some]
    refine ⟨_, rfl, ?_⟩
    split
    · rename_i same
      refine advanceTarget_same ?_
      cases request with
      | none => simp
      | some =>
        intro complete
        simp only [Option.isSome_some, if_true] at complete
        simp [State.completes, complete, held, same] at open'
    · exact .refl
  · obtain ⟨-, h⟩ := of_guard h
    cases h
    exact ⟨t, found, .refl⟩

theorem perform_target (h : s.perform env event = .ok s') (open' : s.completes id event = false)
    (found : lookup Target.id s.targets id = some t) :
    ∃ t', lookup Target.id s'.targets id = some t' ∧ SameTarget t t' := by
  have kept : s'.targets = s.targets → ∃ t', lookup Target.id s'.targets id = some t' ∧ SameTarget t t' := by
    intro same
    exact ⟨t, by rw [same, found], .refl⟩
  cases event with
  | tick =>
    obtain ⟨-, h⟩ := of_guard h
    cases h
    exact kept rfl
  | receive => exact kept (fenced_keeps h).2
  | retain =>
    obtain ⟨-, h⟩ := of_guard h
    split at h
    · cases h
      exact kept rfl
    · exact kept (fenced_keeps h).2
  | intend =>
    obtain ⟨-, h⟩ := of_guard h
    rcases intend_eq_ok h with rfl | rfl
    · exact kept rfl
    · exact kept rfl
  | operate => exact kept (fenced_keeps h).2
  | send =>
    obtain ⟨_, _, _, -, -, rfl⟩ := send_eq_ok h
    exact kept rfl
  | commit => exact commit_target h open' found
  | rollback =>
    cases h
    exact kept rfl
  | deliver =>
    rcases deliver_eq_ok h with rfl | rfl
    · exact kept rfl
    · exact kept rfl
  | observe =>
    cases h
    exact kept rfl

theorem send_target {due : Int} {phase : Nat} {e : Sent} (sound : Sound env s)
    (h : s.send device = .ok s') (sent : s'.sent = s.sent ++ [e])
    (cause : e.cause = .policy id due phase) :
    ∃ t p, lookup Target.id s.targets id = some t ∧ env.policy t.selection.series.field = some p ∧
      e.request = State.policyRequest env p t ∧ due = t.dueAt ∧ phase = t.phase := by
  obtain ⟨work, request, cause', held, out, rfl⟩ := send_eq_ok h
  have same : e = ⟨request, cause', s.clock⟩ := by simpa using sent.symm
  subst same
  have holds := sound.held device _ held
  cases work with
  | intake => cases out
  | retain _ _ asked =>
    cases asked with
    | none => cases out
    | some r =>
      obtain ⟨-, t, found, -, -, all⟩ := holds
      obtain ⟨p, policy, rfl, -⟩ := all r rfl
      simp only [State.outgoing, found, map_some, Option.some.injEq, Prod.mk.injEq] at out
      obtain ⟨rfl, rfl⟩ := out
      cases cause
      exact ⟨t, p, found, policy, rfl, rfl, rfl⟩
  | operate =>
    cases out
    cases cause

theorem requests_repeat (sound : Sound env s) (found : lookup Target.id s.targets id = some t)
    (policy : env.policy t.selection.series.field = some p) {events : List Event}
    (open' : s.unresolved env id events = true) :
    ∃ new, (s.after env events).sent = s.sent ++ new ∧ ∀ e ∈ new, ∀ due phase,
      e.cause = .policy id due phase →
      e.request = State.policyRequest env p t ∧ due = t.dueAt ∧ phase = t.phase := by
  induction events generalizing s t with
  | nil => exact ⟨[], by simp [State.after], by simp⟩
  | cons event rest ih =>
    rw [State.unresolved, Bool.and_eq_true_iff] at open'
    obtain ⟨uncompleted, later⟩ := open'
    have uncompleted : s.completes id event = false := by simpa using uncompleted
    have sound' := sound.apply event
    have here : s.after env (event :: rest) = (s.apply env event).after env rest := rfl
    rw [here]
    cases h : s.perform env event with
    | error =>
      have is : s.apply env event = s := by rw [State.apply, h]
      rw [is] at later ⊢
      exact ih sound found policy later
    | ok s' =>
      have is : s.apply env event = s' := by rw [State.apply, h]
      rw [is] at later sound' ⊢
      obtain ⟨t', found', same⟩ := perform_target h uncompleted found
      obtain ⟨new, all, only⟩ := ih sound' found' (by rw [same.selection]; exact policy) later
      have only' : ∀ e ∈ new, ∀ due phase, e.cause = .policy id due phase →
          e.request = State.policyRequest env p t ∧ due = t.dueAt ∧ phase = t.phase := by
        intro e mem due phase cause
        obtain ⟨request, times, phases⟩ := only e mem due phase cause
        exact ⟨request.trans same.request, times.trans same.due, phases.trans same.phase⟩
      rcases (sound.perform h).2 with none | ⟨device, rfl⟩
      · exact ⟨new, by rw [all, none], only'⟩
      obtain ⟨work, request, cause, held, out, grown⟩ := send_eq_ok h
      have sent : s'.sent = s.sent ++ [⟨request, cause, s.clock⟩] := by rw [grown]
      refine ⟨⟨request, cause, s.clock⟩ :: new, by rw [all, sent]; simp, ?_⟩
      intro e mem due phase by'
      rcases List.mem_cons.mp mem with rfl | mem
      · obtain ⟨t₁, p₁, found₁, policy₁, request₁, times, phases⟩ := send_target sound h sent by'
        rw [found] at found₁
        cases found₁
        rw [policy] at policy₁
        cases policy₁
        exact ⟨request₁, times, phases⟩
      · exact only' e mem due phase by'

/-- Over every interleaving of uploads, deliveries, retention steps and operator requests:
a request is sent only while every accepted batch of its device and field is published, and a target's due
time is past then; when a batch is published, none of its samples lies below a bound sent before for its
series; a target repeats one request until it completes; and an operator's id stands for one request. -/
theorem retention_never_overtakes (env : Environment) (events : List Event) :
    let s := State.empty.after env events
    (∀ event s', s.perform env event = .ok s' → s'.sent = s.sent ∨
      ∃ e, s'.sent = s.sent ++ [e] ∧ e.sentAt = s.clock ∧
        (∀ b ∈ s.batches, b.upload.device = e.request.selection.series.device →
          e.request.selection.series.field.key ∈ b.upload.fields.map Field.key → b.delivery = .published) ∧
        (∀ id due phase, e.cause = .policy id due phase → due ≤ s.clock)) ∧
    (∀ batch written current s', s.perform env (.deliver batch written current) = .ok s' →
      ∀ b ∈ s.batches, b.delivery ≠ .published → ∀ x ∈ b.history env, ∀ e ∈ s'.sent,
        e.request.selection = x.selection → e.request.action.rawBefore ≤ x.observedAt) ∧
    (∀ device s' e id due phase, s.perform env (.send device) = .ok s' → s'.sent = s.sent ++ [e] →
      e.cause = .policy id due phase → ∀ more, s'.unresolved env id more = true →
      ∃ new, (s'.after env more).sent = s'.sent ++ new ∧ ∀ e' ∈ new, ∀ due' phase',
        e'.cause = .policy id due' phase' → e'.request = e.request ∧ due' = due ∧ phase' = phase) ∧
    (∀ e ∈ s.sent, ∀ e' ∈ s.sent, ∀ r r', e.cause = .operator r → e'.cause = .operator r' → r.id = r'.id →
      env.binding r = env.binding r') := by
  intro s
  have sound : Sound env s := empty_sound.after events
  refine ⟨?_, ?_, ?_, ?_⟩
  · intro event s' h
    rcases (sound.perform h).2 with none | ⟨device, rfl⟩
    · exact .inl none
    obtain ⟨work, request, cause, held, out, rfl⟩ := send_eq_ok h
    obtain ⟨-, owner, quiet, -, due, -⟩ := outgoing_holds sound (sound.held device _ held) out
    refine .inr ⟨_, rfl, rfl, fun b mem same there => ?_, due⟩
    exact pending_eq_false.mp quiet b mem (same.trans owner) there
  · intro batch written current s' h b mem unpublished x sample e sent same
    have kept : s'.sent = s.sent := (sound.deliver h).2
    rw [kept] at sent
    exact sound.ahead b mem unpublished x sample e sent same
  · intro device s' e id due phase h sent cause more open'
    obtain ⟨t, p, found, policy, request, times, phases⟩ := send_target sound h sent cause
    have sound' : Sound env s' := (sound.perform h).1
    obtain ⟨t', found', same⟩ : ∃ t', lookup Target.id s'.targets id = some t' ∧ SameTarget t t' :=
      perform_target h rfl found
    obtain ⟨new, all, only⟩ := requests_repeat sound' found' (by rw [same.selection]; exact policy) open'
    refine ⟨new, all, fun e' mem due' phase' by' => ?_⟩
    obtain ⟨request', times', phases'⟩ := only e' mem due' phase' by'
    refine ⟨?_, ?_, ?_⟩
    · rw [request', same.request, request]
    · rw [times', same.due, times]
    · rw [phases', same.phase, phases]
  · intro e mem e' mem' r r' cause cause' same
    obtain ⟨i, found, binding⟩ := sound.intents e mem r cause
    obtain ⟨i', found', binding'⟩ := sound.intents e' mem' r' cause'
    rw [← same, found] at found'
    cases found'
    exact binding.symm.trans binding'

namespace Sample

def catalog : Environment where
  policy := fun _ => some ⟨3600, 7200⟩
  expand := fun _ _ => .ok [("device", [])]
  digest := fun _ => ""
  key := fun selection => selection.series.field.key
  identity := fun id _ _ => id
  binding := fun r => r.field

def upload : Upload :=
  ⟨1, "mac", 2, 1, "stream", .history, [⟨"cpu", 1⟩], 60, 0, 20000000000, [⟨3, 9999999999, [("cpu", "1")]⟩]⟩

/-- A batch is accepted and delivered, and an hour later its series is due. -/
def events : List Event :=
  [.tick 10000000000, .receive upload (.ok ()) (.ok ()), .commit "mac" .complete, .deliver 1 (.ok ()) (.ok ()),
   .tick 13600000000, .retain "cpu" 13600000000]

/-- The backend does not answer, and half a minute later the step is taken again. -/
def later : List Event :=
  [.commit "mac" .unknown, .tick 13630000000, .retain "cpu" 13630000000, .send "mac"]

theorem retention_never_overtakes_repeated :
    ∃ s' e e', ((State.empty.after catalog events).perform catalog (.send "mac")) = .ok s' ∧
      (s'.after catalog later).sent = [e, e'] ∧ e.request.action.rawBefore = 10000000000 ∧ e'.request = e.request := by
  obtain ⟨s', performed⟩ : ∃ s', (State.empty.after catalog events).perform catalog (.send "mac") = .ok s' := ⟨_, rfl⟩
  have sent : s'.sent = [] ++ [⟨⟨"cpu", ⟨"stream", ⟨"mac", ⟨"cpu", 1⟩, "device", []⟩⟩, .advanceCutoff 10000000000⟩,
      .policy "cpu" 13600000000 0, 13600000000⟩] := by
    cases performed
    rfl
  obtain ⟨new, all, only⟩ := (retention_never_overtakes catalog events).2.2.1 "mac" s' _ "cpu" 13600000000 0
    performed sent rfl later (by cases performed; rfl)
  have both : (s'.after catalog later).sent = s'.sent ++ [⟨⟨"cpu", ⟨"stream", ⟨"mac", ⟨"cpu", 1⟩, "device", []⟩⟩,
      .advanceCutoff 10000000000⟩, .policy "cpu" 13600000000 0, 13630000000⟩] := by
    cases performed
    rfl
  have is := List.append_cancel_left (all.symm.trans both)
  rw [is] at only
  obtain ⟨same, -⟩ := only _ (mem_singleton.mpr rfl) 13600000000 0 rfl
  exact ⟨s', _, _, performed, by rw [both, sent]; rfl, rfl, same⟩

end Sample

end RssMdm.Telemetry
