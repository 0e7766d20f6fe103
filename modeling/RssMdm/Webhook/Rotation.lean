/- module: Webhook/Rotation
   source: crates/webhook-service/src/materials.rs
   digest: Which rotations of a signing key keep its deliveries going. -/

import RssMdm.Webhook.Materials

set_option autoImplicit false

namespace RssMdm.Webhook

open Lib Lib.Fallible Lib.Int64
open Bool (not_eq_true or_eq_true)

section

variable {s : Keys} {revision other : I64} {m : Material}

theorem required_eq_ok {α : Type} {e : Error} {x : Option α} {a : α} :
    required e x = .ok a ↔ x = some a := by
  cases x with
  | none | some => simp [required]

theorem mem_of_find (found : s.find revision = some m) : m ∈ s.materials :=
  List.mem_of_find?_eq_some found

theorem revision_of_find (found : s.find revision = some m) : m.revision = revision := by
  have same := List.find?_some found
  exact decide_eq_true_eq.mp same

theorem find_update {f : Material → Material} (keeps : ∀ m, (f m).revision = m.revision) :
    (s.update revision f).find other =
      if other = revision then (s.find other).map f else s.find other := by
  unfold Keys.find Keys.update
  induction s.materials with
  | nil => split <;> rfl
  | cons m _ ih =>
    rw [List.map_cons]
    by_cases here : m.revision = revision
    · rw [if_pos here]
      by_cases wanted : m.revision = other
      · rw [List.find?_cons_of_pos (by simp [keeps, wanted]), List.find?_cons_of_pos (by simp [wanted]),
          if_pos (wanted.symm.trans here)]
        rfl
      · rw [List.find?_cons_of_neg (by simp [keeps, wanted]), List.find?_cons_of_neg (by simp [wanted])]
        exact ih
    · rw [if_neg here]
      by_cases wanted : m.revision = other
      · rw [List.find?_cons_of_pos (by simp [wanted]), List.find?_cons_of_pos (by simp [wanted]), if_neg]
        exact fun same => here (wanted.trans same)
      · rw [List.find?_cons_of_neg (by simp [wanted]), List.find?_cons_of_neg (by simp [wanted])]
        exact ih

theorem mem_update {f : Material → Material} (mem : m ∈ (s.update revision f).materials) :
    ∃ before ∈ s.materials, m = before ∨ m = f before := by
  obtain ⟨before, kept, is⟩ := List.mem_map.mp mem
  split at is
  · exact ⟨before, kept, .inr is.symm⟩
  · exact ⟨before, kept, .inl is.symm⟩

end

variable (env : Environment) (name : String)

/-- The row can be opened to a secret. -/
def Material.Readable (m : Material) : Prop :=
  ∃ aad text key, env.context name m.revision = some aad ∧
    env.openBytes m.material aad = some (String.toUTF8 text) ∧ decode env text = .ok key

/-- What holds of the rows of a key reference at all times. -/
structure Keys.Sound (s : Keys) : Prop where
  readable : ∀ m ∈ s.materials, m.Readable env name
  active : ∀ r, s.headOrNew.active = some r →
    ∃ m, s.find r = some m ∧ m.confirmed = true ∧ m.confirmedAt.isSome = true
  retiring : ∀ r, s.headOrNew.retiring = some r →
    (∃ m, s.find r = some m) ∧ ∃ q, s.headOrNew.active = some q ∧ q ≠ r

variable {env name} {s s' : Keys} {revision : I64} {m : Material}

theorem fromUTF8?_toUTF8 (text : String) : String.fromUTF8? text.toUTF8 = some text := by
  unfold String.fromUTF8?
  exact dif_pos text.isValidUTF8

theorem secret_eq_ok {text : String} (h : secret env name s revision = .ok (m, text)) :
    s.find revision = some m := by
  unfold secret at h
  obtain ⟨row, found, h⟩ := of_bind h
  obtain ⟨aad, -, h⟩ := of_bind h
  obtain ⟨bytes, -, h⟩ := of_bind h
  obtain ⟨opened, -, h⟩ := of_bind h
  obtain ⟨key, -, h⟩ := of_bind h
  cases h
  exact required_eq_ok.mp found

theorem secret_of_find (sound : s.Sound env name) (found : s.find revision = some m) :
    ∃ text, secret env name s revision = .ok (m, text) := by
  obtain ⟨aad, text, key, within, opens, decodes⟩ := sound.readable m (mem_of_find found)
  rw [revision_of_find found] at within
  refine ⟨text, ?_⟩
  unfold secret
  rw [found, within]
  simp only [required, ok_bind, opens, fromUTF8?_toUTF8, decodes]

/-- A change of a row that leaves its secret, its configuration and its revocation as they are, and
confirms at most. -/
structure Harmless (f : Material → Material) : Prop where
  revision : ∀ m, (f m).revision = m.revision
  material : ∀ m, (f m).material = m.material
  configuration : ∀ m, (f m).configuration = m.configuration
  revoked : ∀ m, (f m).revoked = m.revoked
  confirmed : ∀ m, m.confirmed = true → (f m).confirmed = true
  confirmedAt : ∀ m, m.confirmedAt.isSome = true → (f m).confirmedAt.isSome = true

theorem harmless_unless {c : Material → Bool} {f : Material → Material} (harmless : Harmless f) :
    Harmless (fun m => if c m then m else f m) := by
  refine ⟨?_, ?_, ?_, ?_, ?_, ?_⟩
  all_goals
    intro m
    by_cases excluded : c m = true
  all_goals simp only [excluded, if_true, if_false, Bool.false_eq_true]
  · exact harmless.revision m
  · exact harmless.material m
  · exact harmless.configuration m
  · exact harmless.revoked m
  · exact id
  · exact harmless.confirmed m
  · exact id
  · exact harmless.confirmedAt m

def Material.revoke (m : Material) : Material := { m with revoked := true }

structure Activated (s : Keys) (r : I64) (configuration : String) (s' : Keys) : Prop where
  step : ∃ head m next, s.head = some head ∧ s.find r = some m ∧ m.confirmed = true ∧
    m.confirmedAt.isSome = true ∧ m.revoked = false ∧ m.configuration = configuration ∧
    head.retiring = none ∧ head.active ≠ some r ∧ next.val = head.revision.val + 1 ∧
    s' = { s with head := some ⟨next, some r, head.active⟩ }

inductive Quiet (env : Environment) (name : String) (s : Keys) : Keys → Prop where
  | same : Quiet env name s s
  | noted (revision : I64) (f : Material → Material) (harmless : Harmless f) :
      Quiet env name s (s.update revision f)
  | prepared (row : Material) (readable : row.Readable env name)
      (fresh : s.find row.revision = none) :
      Quiet env name s
        ⟨some { s.headOrNew with revision := row.revision }, s.materials ++ [row]⟩
  | revoked (head : Head) (r next : I64) (there : s.head = some head) :
      Quiet env name s { s.update r Material.revoke with
        head := some ⟨next, head.active, if head.retiring = some r then none else head.retiring⟩ }
  | retired (head : Head) (next : I64) (there : s.head = some head) :
      Quiet env name s { s with head := some ⟨next, head.active, none⟩ }

theorem checkedAdd_one {a b : I64} (h : a.checkedAdd ⟨1, by decide, by decide⟩ = some b) :
    b.val = a.val + 1 := I64.ofInt_eq_some.mp h

theorem prepare_eq_ok (reopens : env.Reopens) {id : Policy.Uuid} {input : Prepare} {others : Others}
    {generated nonce : Option (List UInt8)} {row : Material}
    (h : prepare env name s id input others generated nonce = .ok (row, s')) :
    input.expectedRevision = s.headOrNew.revision ∧ row.revision.val = s.headOrNew.revision.val + 1 ∧
      row.Readable env name ∧ s.find row.revision = none ∧
      s' = ⟨some { s.headOrNew with revision := row.revision }, s.materials ++ [row]⟩ := by
  unfold prepare at h
  obtain ⟨-, h⟩ := of_check h
  obtain ⟨-, h⟩ := of_check h
  obtain ⟨url, -, h⟩ := of_bind h
  obtain ⟨-, h⟩ := of_guard h
  obtain ⟨-, h⟩ := of_guard h
  obtain ⟨-, h⟩ := of_guard h
  obtain ⟨current, h⟩ := of_guard h
  obtain ⟨next, added, h⟩ := of_bind h
  obtain ⟨text, -, h⟩ := of_bind h
  obtain ⟨key, decodes, h⟩ := of_bind h
  obtain ⟨-, h⟩ := of_guard h
  obtain ⟨aad, within, h⟩ := of_bind h
  obtain ⟨sealed, seals, h⟩ := of_bind h
  obtain ⟨drawn, -, h⟩ := of_bind h
  obtain ⟨admitted, h⟩ := of_guard h
  cases h
  refine ⟨(not_not.mp current).symm, checkedAdd_one (required_eq_ok.mp added), ?_, ?_, rfl⟩
  · exact ⟨aad, text, key, required_eq_ok.mp within, reopens _ _ _ (required_eq_ok.mp seals), decodes⟩
  · simp only [refusedRow, or_eq_true, not_or] at admitted
    have unused := admitted.1.1.1.1.1
    simp only [List.any_eq_true, not_exists, not_and, or_eq_true, decide_eq_true_eq, not_or] at unused
    refine List.find?_eq_none.mpr (fun m mem => ?_)
    simpa using (unused m mem).1

theorem transition_eq_ok {id : Policy.Uuid} {input : Transition} {configuration : String} {pending : Bool}
    {head : Head} (h : transition env name s id input configuration pending = .ok (head, s')) :
    (∃ before, s.head = some before ∧ before.revision = input.expectedRevision ∧
      s'.headOrNew.revision.val = before.revision.val + 1) ∧
    ((∃ r, input.action = .activate r ∧ Activated s r configuration s') ∨
      ((∀ r, input.action ≠ .activate r) ∧ Quiet env name s s')) := by
  unfold transition at h
  obtain ⟨-, h⟩ := of_check h
  obtain ⟨before, there, h⟩ := of_bind h
  have stored := required_eq_ok.mp there
  obtain ⟨admitted, h⟩ := of_guard h
  simp only [or_eq_true, decide_eq_true_eq, not_or, ne_eq, not_not] at admitted
  obtain ⟨⟨moved, rows⟩, acted, h⟩ := of_bind h
  obtain ⟨next, added, h⟩ := of_bind h
  cases h
  have up := checkedAdd_one (required_eq_ok.mp added)
  cases is : input.action with
  | activate r =>
    rw [is] at acted
    unfold act at acted
    obtain ⟨⟨value, text⟩, opened, acted⟩ := of_bind acted
    obtain ⟨ready, acted⟩ := of_guard acted
    cases acted
    simp only [or_eq_true, Bool.not_eq_true', decide_eq_true_eq, not_or, ne_eq, not_not,
      Bool.not_eq_false, Option.isNone_iff_eq_none, not_eq_true, Option.isSome_eq_false_iff,
      Option.isNone_iff_eq_none] at ready
    obtain ⟨⟨⟨⟨⟨confirmed, dated⟩, valid⟩, bound⟩, free⟩, other⟩ := ready
    refine ⟨⟨before, stored, admitted.2, up⟩, .inl ⟨r, rfl, before, value, next, stored,
      secret_eq_ok opened, confirmed, ?_, valid, bound, free, other, up, rfl⟩⟩
    exact Option.isSome_iff_ne_none.mpr dated
  | revoke r =>
    rw [is] at acted
    unfold act at acted
    obtain ⟨-, acted⟩ := of_guard acted
    cases acted
    exact ⟨⟨before, stored, admitted.2, up⟩, .inr ⟨fun _ same => (by cases same), .revoked before r next stored⟩⟩
  | retirePrevious =>
    rw [is] at acted
    unfold act at acted
    obtain ⟨-, acted⟩ := of_guard acted
    obtain ⟨-, acted⟩ := of_guard acted
    cases acted
    exact ⟨⟨before, stored, admitted.2, up⟩, .inr ⟨fun _ same => (by cases same), .retired before next stored⟩⟩

theorem confirm_quiet {operator : Bool} {proof : String} {now : I64}
    (h : confirm env name s operator revision proof now = .ok s') : Quiet env name s s' := by
  unfold confirm at h
  obtain ⟨-, h⟩ := of_guard h
  obtain ⟨⟨value, text⟩, -, h⟩ := of_bind h
  obtain ⟨-, h⟩ := of_guard h
  obtain ⟨supplied, -, h⟩ := of_bind h
  obtain ⟨key, -, h⟩ := of_bind h
  obtain ⟨-, h⟩ := of_guard h
  cases h
  exact .noted revision _ (harmless_unless ⟨fun _ => rfl, fun _ => rfl, fun _ => rfl, fun _ => rfl,
    fun _ _ => rfl, fun _ _ => rfl⟩)

theorem beginConfirmation_quiet {operator : Bool} {configuration : String}
    {admitted : Except Error Unit} {now : I64} {attempt : Option Material}
    (h : beginConfirmation env name s operator revision configuration admitted now = .ok (attempt, s')) :
    Quiet env name s s' := by
  unfold beginConfirmation at h
  obtain ⟨-, h⟩ := of_guard h
  obtain ⟨⟨value, text⟩, -, h⟩ := of_bind h
  dsimp only at h
  split at h
  · cases h
    exact .same
  split at h
  · cases h
    exact .same
  · cases h
  · cases h
    exact .noted revision _ (harmless_unless ⟨fun _ => rfl, fun _ => rfl, fun _ => rfl, fun _ => rfl,
      fun _ kept => kept, fun _ kept => kept⟩)

theorem unconfirmed_quiet : Quiet env name s (unconfirmed s revision) :=
  .noted revision _ (harmless_unless ⟨fun _ => rfl, fun _ => rfl, fun _ => rfl, fun _ => rfl,
    fun _ kept => kept, fun _ kept => kept⟩)

theorem finishConfirmation_quiet {operator : Bool} {response : Option (List UInt8)} {now : I64}
    {confirmed : Bool}
    (h : finishConfirmation env name s operator revision response now = .ok (confirmed, s')) :
    Quiet env name s s' := by
  unfold finishConfirmation at h
  obtain ⟨-, h⟩ := of_guard h
  split at h
  · cases h
    exact unconfirmed_quiet
  split at h
  · rename_i done
    cases h
    exact confirm_quiet done
  · cases h
    exact unconfirmed_quiet
  · cases h
    exact unconfirmed_quiet
  · cases h

theorem perform_eq_ok (reopens : env.Reopens) {call : Call} (h : s.perform env name call = .ok s') :
    (∃ id expected r configuration pending, call = .transition id ⟨expected, .activate r⟩ configuration pending ∧
      Activated s r configuration s') ∨
    ((∀ id expected r configuration pending,
      call ≠ .transition id ⟨expected, .activate r⟩ configuration pending) ∧ Quiet env name s s') := by
  cases call with
  | prepare =>
    obtain ⟨⟨row, _⟩, done, rfl⟩ := map_eq_ok.mp h
    obtain ⟨-, -, readable, fresh, rfl⟩ := prepare_eq_ok reopens done
    exact .inr ⟨fun _ _ _ _ _ same => (by cases same), .prepared row readable fresh⟩
  | transition id input configuration pending =>
    obtain ⟨⟨head, _⟩, done, rfl⟩ := map_eq_ok.mp h
    obtain ⟨expected, action⟩ := input
    rcases (transition_eq_ok done).2 with ⟨r, rfl, activated⟩ | ⟨other, quiet⟩
    · exact .inl ⟨id, expected, r, configuration, pending, rfl, activated⟩
    · refine .inr ⟨fun _ _ r _ _ same => ?_, quiet⟩
      cases same
      exact other r rfl
  | confirm =>
    exact .inr ⟨fun _ _ _ _ _ same => (by cases same), confirm_quiet h⟩
  | beginConfirmation =>
    obtain ⟨⟨attempt, _⟩, done, rfl⟩ := map_eq_ok.mp h
    exact .inr ⟨fun _ _ _ _ _ same => (by cases same), beginConfirmation_quiet done⟩
  | finishConfirmation =>
    obtain ⟨⟨confirmed, _⟩, done, rfl⟩ := map_eq_ok.mp h
    exact .inr ⟨fun _ _ _ _ _ same => (by cases same), finishConfirmation_quiet done⟩

theorem sound_empty : Keys.empty.Sound env name := by
  refine ⟨?_, ?_, ?_⟩
  · intro m mem
    cases mem
  · intro r is
    cases is
  · intro r is
    cases is

theorem headOrNew_of_some {head : Head} (there : s.head = some head) : s.headOrNew = head := by
  rw [Keys.headOrNew, there]
  rfl

theorem find_append {row : Material} (found : s.find revision = some m) (head : Option Head) :
    Keys.find ⟨head, s.materials ++ [row]⟩ revision = some m := by
  rw [Keys.find] at found ⊢
  rw [List.find?_append, found]
  rfl

theorem activated_sound {r : I64} {configuration : String} (sound : s.Sound env name)
    (h : Activated s r configuration s') : s'.Sound env name := by
  obtain ⟨head, m, next, there, found, confirmed, dated, -, -, -, other, -, rfl⟩ := h.step
  have is := headOrNew_of_some there
  refine ⟨sound.readable, ?_, ?_⟩
  · intro q active
    cases active
    exact ⟨m, found, confirmed, dated⟩
  · intro q retiring
    have outgoing : head.active = some q := retiring
    refine ⟨?_, r, rfl, ?_⟩
    · obtain ⟨old, kept, -⟩ := sound.active q (is ▸ outgoing)
      exact ⟨old, kept⟩
    · rintro rfl
      exact other outgoing

theorem revoke_keeps (m : Material) : m.revoke.revision = m.revision := rfl

theorem find_updated {f : Material → Material} (keeps : ∀ m, (f m).revision = m.revision)
    {r : I64} (found : s.find r = some m) : ∃ m', (s.update revision f).find r = some m' ∧
      (m' = m ∨ m' = f m) := by
  rw [find_update keeps]
  split
  · rw [found]
    exact ⟨f m, rfl, .inr rfl⟩
  · exact ⟨m, found, .inl rfl⟩

theorem quiet_sound (sound : s.Sound env name) (h : Quiet env name s s') : s'.Sound env name := by
  cases h with
  | same => exact sound
  | noted revision f harmless =>
    refine ⟨?_, ?_, ?_⟩
    · intro m mem
      obtain ⟨before, kept, rfl | rfl⟩ := mem_update mem
      · exact sound.readable _ kept
      · obtain ⟨aad, text, key, within, opens, decodes⟩ := sound.readable before kept
        refine ⟨aad, text, key, ?_, ?_, decodes⟩
        · rw [harmless.revision]
          exact within
        · rw [harmless.material]
          exact opens
    · intro r active
      obtain ⟨m, found, confirmed, dated⟩ := sound.active r active
      obtain ⟨m', found', rfl | rfl⟩ := find_updated harmless.revision found
      · exact ⟨m', found', confirmed, dated⟩
      · exact ⟨f m, found', harmless.confirmed m confirmed, harmless.confirmedAt m dated⟩
    · intro r retiring
      obtain ⟨⟨m, found⟩, rest⟩ := sound.retiring r retiring
      obtain ⟨m', found', -⟩ := find_updated harmless.revision found
      exact ⟨⟨m', found'⟩, rest⟩
  | prepared _ readable =>
    refine ⟨?_, ?_, ?_⟩
    · intro m mem
      rcases List.mem_append.mp mem with kept | new
      · exact sound.readable m kept
      · rw [List.mem_singleton.mp new]
        exact readable
    · intro r active
      obtain ⟨m, found, rest⟩ := sound.active r active
      exact ⟨m, find_append found _, rest⟩
    · intro r retiring
      obtain ⟨⟨m, found⟩, rest⟩ := sound.retiring r retiring
      exact ⟨⟨m, find_append found _⟩, rest⟩
  | revoked head r _ there =>
    have is := headOrNew_of_some there
    refine ⟨?_, ?_, ?_⟩
    · intro m mem
      obtain ⟨before, kept, rfl | rfl⟩ := mem_update mem
      · exact sound.readable _ kept
      · exact sound.readable before kept
    · intro q active
      obtain ⟨m, found, confirmed, dated⟩ := sound.active q (is ▸ active)
      obtain ⟨m', found', rfl | rfl⟩ := find_updated revoke_keeps found
      · exact ⟨m', found', confirmed, dated⟩
      · exact ⟨m.revoke, found', confirmed, dated⟩
    · intro q retiring
      have slot : (if head.retiring = some r then none else head.retiring) = some q := retiring
      split at slot
      · cases slot
      obtain ⟨⟨m, found⟩, active, first, other⟩ := sound.retiring q (is ▸ slot)
      obtain ⟨m', found', -⟩ := find_updated revoke_keeps found
      exact ⟨⟨m', found'⟩, active, is ▸ first, other⟩
  | retired _ _ there =>
    have is := headOrNew_of_some there
    refine ⟨sound.readable, ?_, ?_⟩
    · intro r active
      exact sound.active r (is ▸ active)
    · intro r retiring
      cases retiring

/-- The retiring material neither is revoked nor belongs to another configuration than the active one. -/
def Keys.Paired (s : Keys) : Prop :=
  ∀ q old, s.headOrNew.retiring = some q → s.find q = some old → old.revoked = false ∧
    ∀ r m, s.headOrNew.active = some r → s.find r = some m → old.configuration = m.configuration

theorem quiet_paired (sound : s.Sound env name) (paired : s.Paired) (h : Quiet env name s s') :
    s'.Paired := by
  have before : ∀ {r : I64} {x : Material} {row : Material} {head : Option Head},
      s.headOrNew.active = some r ∨ s.headOrNew.retiring = some r →
      Keys.find ⟨head, s.materials ++ [row]⟩ r = some x → s.find r = some x := by
    intro r x row head slot found
    have there : ∃ m, s.find r = some m := by
      rcases slot with active | retiring
      · obtain ⟨m, found, -⟩ := sound.active r active
        exact ⟨m, found⟩
      · exact (sound.retiring r retiring).1
    obtain ⟨m, old⟩ := there
    rw [find_append old head] at found
    cases found
    exact old
  cases h with
  | same => exact paired
  | noted revision _ harmless =>
    intro q old retiring found
    rw [find_update harmless.revision] at found
    have origin : ∃ x, s.find q = some x ∧ old.revoked = x.revoked ∧
        old.configuration = x.configuration := by
      split at found
      · obtain ⟨x, was, rfl⟩ := Option.map_eq_some_iff.mp found
        exact ⟨x, was, harmless.revoked x, harmless.configuration x⟩
      · exact ⟨old, found, rfl, rfl⟩
    obtain ⟨x, was, sameR, sameC⟩ := origin
    obtain ⟨valid, same⟩ := paired q x retiring was
    refine ⟨sameR.trans valid, ?_⟩
    intro r m active found'
    rw [find_update harmless.revision] at found'
    rw [sameC]
    split at found'
    · obtain ⟨y, was', rfl⟩ := Option.map_eq_some_iff.mp found'
      rw [harmless.configuration]
      exact same r y active was'
    · exact same r m active found'
  | prepared =>
    intro q old retiring found
    obtain ⟨valid, same⟩ := paired q old retiring (before (.inr retiring) found)
    exact ⟨valid, fun r m active found' => same r m active (before (.inl active) found')⟩
  | revoked head r next there =>
    have is := headOrNew_of_some there
    intro q old retiring found
    have slot : (if head.retiring = some r then none else head.retiring) = some q := retiring
    split at slot
    · cases slot
    rename_i other
    have apart : q ≠ r := by
      rintro rfl
      exact other slot
    have kept : s.find q = some old := by
      have found' : (s.update r Material.revoke).find q = some old := found
      rwa [find_update revoke_keeps, if_neg apart] at found'
    obtain ⟨valid, same⟩ := paired q old (is ▸ slot) kept
    refine ⟨valid, ?_⟩
    intro p m active found'
    have found'' : (s.update r Material.revoke).find p = some m := found'
    rw [find_update revoke_keeps] at found''
    split at found''
    · obtain ⟨y, was, rfl⟩ := Option.map_eq_some_iff.mp found''
      exact same p y (is ▸ active) was
    · exact same p m (is ▸ active) found''
  | retired =>
    intro q old retiring
    cases retiring

def Call.expected : Call → Option I64
  | .prepare _ input _ _ _ => some input.expectedRevision
  | .transition _ input _ _ => some input.expectedRevision
  | _ => none

/-- What a state keeps to, whatever is asked of it. -/
structure Keys.Steady (env : Environment) (name : String) (s : Keys) : Prop where
  raises : ∀ call s', call.expected.isSome = true → s.perform env name call = .ok s' →
    s'.headOrNew.revision.val = s.headOrNew.revision.val + 1
  fenced : ∀ call revision, call.expected = some revision → revision ≠ s.headOrNew.revision →
    (∃ e, s.perform env name call = .error e) ∧ s.apply env name call = s
  active : ∀ r, s.headOrNew.active = some r → ∃ m, s.find r = some m ∧ m.confirmed = true
  retiring : ∀ r, s.headOrNew.retiring = some r →
    (∃ m, s.find r = some m) ∧ ∃ q, s.headOrNew.active = some q ∧ q ≠ r
  current : ∀ configuration loaded, load env name s configuration = .ok loaded →
    ∃ r m, s.headOrNew.active = some r ∧ secret env name s r = .ok (m, loaded.current) ∧
      m.confirmed = true ∧ m.revoked = false
  previous : ∀ configuration loaded text, load env name s configuration = .ok loaded →
    loaded.retiring = some text →
    ∃ r m, s.headOrNew.retiring = some r ∧ secret env name s r = .ok (m, text) ∧ m.revoked = false

/-- A confirmed and unrevoked active material is loaded for its configuration. -/
def Keys.Delivers (env : Environment) (name : String) (s : Keys) : Prop :=
  ∀ r m, s.headOrNew.active = some r → s.find r = some m → m.confirmed = true → m.revoked = false →
    ∃ loaded, load env name s m.configuration = .ok loaded ∧
      secret env name s r = .ok (m, loaded.current)

/-- No revision is activated in the place of one that is revoked or bound to another configuration. -/
def Keys.Clean (env : Environment) (name : String) (s : Keys) : Call → Prop
  | .transition id ⟨expected, .activate r⟩ configuration pending =>
      (transition env name s id ⟨expected, .activate r⟩ configuration pending).isOk = true →
        ∀ q old, s.headOrNew.active = some q → s.find q = some old →
          old.revoked = false ∧ old.configuration = configuration
  | _ => True

theorem load_eq_ok {configuration : String} {loaded : Loaded}
    (h : load env name s configuration = .ok loaded) :
    ∃ r m, s.headOrNew.active = some r ∧ secret env name s r = .ok (m, loaded.current) ∧
      m.confirmed = true ∧ m.revoked = false ∧ m.configuration = configuration ∧
      retiringSecret env name s configuration s.headOrNew.retiring = .ok loaded.retiring := by
  unfold load at h
  obtain ⟨head, there, h⟩ := of_bind h
  have is := headOrNew_of_some (required_eq_ok.mp there)
  obtain ⟨r, active, h⟩ := of_bind h
  obtain ⟨⟨m, text⟩, opened, h⟩ := of_bind h
  obtain ⟨valid, h⟩ := of_guard h
  obtain ⟨retiring, old, h⟩ := of_bind h
  cases h
  simp only [or_eq_true, Bool.not_eq_true', decide_eq_true_eq, ne_eq, not_or, not_not,
    not_eq_true, Bool.not_eq_false] at valid
  rw [is]
  exact ⟨r, m, required_eq_ok.mp active, opened, valid.1.2, valid.1.1, valid.2, old⟩

theorem steady_of_sound (reopens : env.Reopens) (sound : s.Sound env name) : s.Steady env name where
  raises := by
    intro call s' expects done
    cases call with
    | prepare =>
      obtain ⟨⟨row, _⟩, ran, rfl⟩ := map_eq_ok.mp done
      obtain ⟨-, up, -, -, is⟩ := prepare_eq_ok reopens ran
      rw [is]
      exact up
    | transition =>
      obtain ⟨⟨head, _⟩, ran, rfl⟩ := map_eq_ok.mp done
      obtain ⟨before, there, -, up⟩ := (transition_eq_ok ran).1
      rw [headOrNew_of_some there]
      exact up
    | confirm | beginConfirmation | finishConfirmation => cases expects
  fenced := by
    intro call revision expects other
    cases done : s.perform env name call with
    | error e =>
      refine ⟨⟨e, rfl⟩, ?_⟩
      rw [Keys.apply, done]
    | ok =>
      refine absurd ?_ other
      cases call with
      | prepare =>
        cases expects
        obtain ⟨⟨row, _⟩, ran, -⟩ := map_eq_ok.mp done
        exact (prepare_eq_ok reopens ran).1
      | transition =>
        cases expects
        obtain ⟨⟨head, _⟩, ran, -⟩ := map_eq_ok.mp done
        obtain ⟨before, there, same, -⟩ := (transition_eq_ok ran).1
        rw [headOrNew_of_some there]
        exact same.symm
      | confirm | beginConfirmation | finishConfirmation => cases expects
  active := by
    intro r active
    obtain ⟨m, found, confirmed, -⟩ := sound.active r active
    exact ⟨m, found, confirmed⟩
  retiring := sound.retiring
  current := by
    intro configuration loaded loads
    obtain ⟨r, m, active, opened, confirmed, valid, -⟩ := load_eq_ok loads
    exact ⟨r, m, active, opened, confirmed, valid⟩
  previous := by
    intro configuration loaded text loads is
    obtain ⟨-, -, -, -, -, -, -, old⟩ := load_eq_ok loads
    rw [is] at old
    cases slot : s.headOrNew.retiring with
    | none =>
      rw [slot] at old
      cases old
    | some r =>
      rw [slot] at old
      obtain ⟨⟨m, found⟩, opened, old⟩ := of_bind old
      obtain ⟨valid, old⟩ := of_guard old
      cases old
      simp only [or_eq_true, not_or, not_eq_true] at valid
      exact ⟨r, m, rfl, opened, valid.1⟩

theorem delivers_of_paired (sound : s.Sound env name) (paired : s.Paired) : s.Delivers env name := by
  intro r m active found confirmed valid
  obtain ⟨text, opened⟩ := secret_of_find sound found
  have there : s.head = some s.headOrNew := by
    cases is : s.head with
    | none =>
      rw [Keys.headOrNew, is] at active
      cases active
    | some => rw [headOrNew_of_some is]
  have old : ∃ kept, retiringSecret env name s m.configuration s.headOrNew.retiring = .ok kept := by
    cases slot : s.headOrNew.retiring with
    | none => exact ⟨none, rfl⟩
    | some q =>
      obtain ⟨⟨x, was⟩, -⟩ := sound.retiring q slot
      obtain ⟨unrevoked, same⟩ := paired q x slot was
      obtain ⟨oldText, oldOpened⟩ := secret_of_find sound was
      refine ⟨some oldText, ?_⟩
      simp only [retiringSecret, oldOpened, ok_bind, unrevoked, same r m active found, Bool.false_or,
        ne_eq, not_true, decide_false, Bool.false_eq_true, if_false]
  obtain ⟨kept, old⟩ := old
  refine ⟨⟨text, kept, s.headOrNew.revision⟩, ?_, opened⟩
  unfold load
  rw [there]
  simp only [required, ok_bind, active, opened, confirmed, valid, old, Bool.not_true, Bool.or_false, ne_eq,
    not_true, decide_false, Bool.false_eq_true, if_false]

theorem apply_cases (reopens : env.Reopens) (call : Call) :
    (∃ id expected r configuration pending, call = .transition id ⟨expected, .activate r⟩ configuration pending ∧
      (transition env name s id ⟨expected, .activate r⟩ configuration pending).isOk = true ∧
      Activated s r configuration (s.apply env name call)) ∨
    Quiet env name s (s.apply env name call) := by
  cases done : s.perform env name call with
  | error =>
    rw [Keys.apply, done]
    exact .inr .same
  | ok =>
    rw [Keys.apply, done]
    rcases perform_eq_ok reopens done with ⟨id, expected, r, configuration, pending, rfl, activated⟩ | ⟨-, quiet⟩
    · obtain ⟨pair, accepted, -⟩ := map_eq_ok.mp done
      refine .inl ⟨id, expected, r, configuration, pending, rfl, ?_, activated⟩
      rw [accepted]
      rfl
    · exact .inr quiet

theorem apply_sound (reopens : env.Reopens) (sound : s.Sound env name) (call : Call) :
    (s.apply env name call).Sound env name := by
  rcases apply_cases reopens call with ⟨-, -, r, configuration, -, -, -, activated⟩ | quiet
  · exact activated_sound sound activated
  · exact quiet_sound sound quiet

theorem after_sound (reopens : env.Reopens) (calls : List Call) (sound : s.Sound env name) :
    (s.after env name calls).Sound env name := by
  induction calls generalizing s with
  | nil => exact sound
  | cons call _ ih => exact ih (apply_sound reopens sound call)

theorem apply_paired (reopens : env.Reopens) (sound : s.Sound env name) (paired : s.Paired) {call : Call}
    (clean : s.Clean env name call) : (s.apply env name call).Paired := by
  rcases apply_cases reopens call with ⟨id, expected, r, configuration, pending, rfl, accepted, activated⟩ | quiet
  · obtain ⟨head, m, next, there, found, -, -, -, bound, -, -, -, is⟩ := activated.step
    rw [is]
    intro q old retiring was
    have outgoing : s.headOrNew.active = some q := by
      rw [headOrNew_of_some there]
      exact retiring
    obtain ⟨valid, same⟩ := clean accepted q old outgoing was
    refine ⟨valid, ?_⟩
    intro p x active found'
    cases active
    have row : s.find r = some x := found'
    rw [found] at row
    cases row
    rw [same, bound]
  · exact quiet_paired sound paired quiet

theorem activated_clean {r q : I64} {configuration : String} {old : Material}
    (delivers : s'.Delivers env name) (activated : Activated s r configuration s')
    (outgoing : s.headOrNew.active = some q) (was : s.find q = some old) :
    old.revoked = false ∧ old.configuration = configuration := by
  obtain ⟨head, m, next, there, found, confirmed, dated, valid, bound, -, -, -, rfl⟩ := activated.step
  obtain ⟨loaded, loads, -⟩ := delivers r m rfl found confirmed valid
  obtain ⟨-, -, -, -, -, -, -, kept⟩ := load_eq_ok loads
  have slot : head.active = some q := by
    rw [← headOrNew_of_some there]
    exact outgoing
  have kept' : retiringSecret env name { s with head := some ⟨next, some r, head.active⟩ }
      m.configuration head.active = .ok loaded.retiring := kept
  rw [slot] at kept'
  obtain ⟨⟨x, text⟩, opened, kept'⟩ := of_bind kept'
  obtain ⟨usable, -⟩ := of_guard kept'
  have row : s.find q = some x := secret_eq_ok opened
  rw [was] at row
  cases row
  simp only [or_eq_true, decide_eq_true_eq, ne_eq, not_or, not_not, not_eq_true] at usable
  exact ⟨usable.1, usable.2.trans bound⟩

theorem clean_of_delivers {call : Call}
    (delivers : (s.apply env name call).Delivers env name) : s.Clean env name call := by
  unfold Keys.Clean
  split
  · rename_i id expected r configuration pending
    intro accepted q old outgoing was
    cases ran : transition env name s id ⟨expected, .activate r⟩ configuration pending with
    | error =>
      rw [ran] at accepted
      cases accepted
    | ok pair =>
      obtain ⟨after, s'⟩ := pair
      have left : s.apply env name (.transition id ⟨expected, .activate r⟩ configuration pending) = s' := by
        rw [Keys.apply, Keys.perform, ran]
        rfl
      rw [left] at delivers
      rcases (transition_eq_ok ran).2 with ⟨_, same, activated⟩ | ⟨other, -⟩
      · cases same
        exact activated_clean delivers activated outgoing was
      · exact absurd rfl (other r)
  · trivial

theorem paired_after (reopens : env.Reopens) (calls : List Call) (sound : s.Sound env name)
    (paired : s.Paired)
    (clean : ∀ early call later, calls = early ++ call :: later → (s.after env name early).Clean env name call) :
    (s.after env name calls).Paired := by
  induction calls generalizing s with
  | nil => exact paired
  | cons call rest ih =>
    refine ih (apply_sound reopens sound call) (apply_paired reopens sound paired (clean [] call rest rfl)) ?_
    intro early later latest is
    exact clean (call :: early) later latest (by rw [is, List.cons_append])

/-- Every reachable state is steady; all states of a run deliver exactly when every activation in it
takes the place of a material that is neither revoked nor bound to another configuration. -/
theorem rotation_delivers (env : Environment) (name : String) (reopens : env.Reopens) (calls : List Call) :
    (∀ early later, calls = early ++ later → (Keys.empty.after env name early).Steady env name) ∧
      ((∀ early later, calls = early ++ later → (Keys.empty.after env name early).Delivers env name) ↔
        ∀ early call later, calls = early ++ call :: later →
          (Keys.empty.after env name early).Clean env name call) := by
  have sound : ∀ early, (Keys.empty.after env name early).Sound env name :=
    fun early => after_sound reopens early sound_empty
  refine ⟨fun early _ _ => steady_of_sound reopens (sound early), ?_, ?_⟩
  · intro delivers early call later is
    apply clean_of_delivers
    have next := delivers (early ++ [call]) later (by rw [is, List.append_assoc]; rfl)
    rw [Keys.after, List.foldl_append] at next
    exact next
  · intro clean early later is
    refine delivers_of_paired (sound early) (paired_after reopens early sound_empty ?_ ?_)
    · intro q old retiring
      cases retiring
    · intro first call rest split
      refine clean first call (rest ++ later) ?_
      rw [is, split, List.append_assoc]
      rfl

namespace Sample

/-- Secrets are kept in the clear, and a receiver proves possession by the key itself. -/
def plain : Environment where
  Aad := Unit
  tenant := "tenant"
  parseUrl _ := some ⟨"https", some "receiver.example", "", none, none, none⟩
  fromEncoded _ := true
  encode _ := "challenge"
  decode text := some (Lib.Text.asBytes text)
  confirmationProof _ := none
  context _ _ := some ()
  sealBytes bytes _ := some bytes
  openBytes bytes _ := some bytes
  verify key _ tag := key = tag

theorem plain_reopens : plain.Reopens := by
  intro bytes aad sealed is
  cases is
  rfl

def number (n : Fin 100) : I64 := ⟨n, by omega, by omega⟩

def network : String := String.ofList (List.replicate 64 'a')

def preparing (id : Policy.Uuid) (expected : Fin 100) (secret : String) : Call :=
  .prepare id ⟨number expected, network, "https://receiver.example/", "receivers", .import secret⟩
    ⟨0, 0, [], []⟩ none (some (List.replicate 32 0))

def confirming (revision : Fin 100) (proof : String) : Call := .confirm true (number revision) proof (number 9)

def changing (expected : Fin 100) (action : Action) : Call :=
  .transition 5 ⟨number expected, action⟩ network true

/-- The first revision is active and its successor confirmed. -/
def prepared : List Call :=
  [preparing 1 0 "whsec_a", confirming 1 "a", changing 1 (.activate (number 1)),
    preparing 2 2 "whsec_b", confirming 3 "b"]

def rotating : List Call := prepared ++ [changing 3 (.activate (number 3))]

def compromised : List Call :=
  prepared ++ [changing 3 (.revoke (number 1)), changing 4 (.activate (number 3))]

def delivering (calls : List Call) : Bool :=
  (load plain "orders" (Keys.empty.after plain "orders" calls) network).isOk

set_option maxRecDepth 4000 in
theorem rotation_delivers_successor : plain.Reopens ∧
    ((∀ early later, rotating = early ++ later →
        (Keys.empty.after plain "orders" early).Delivers plain "orders") ↔
      ∀ early call later, rotating = early ++ call :: later →
        (Keys.empty.after plain "orders" early).Clean plain "orders" call) ∧
    delivering rotating = true :=
  ⟨plain_reopens, (rotation_delivers plain "orders" plain_reopens rotating).2, by decide⟩

/-- The successor of a revoked key is active and confirmed, but nothing is delivered: the revoked key
has moved into the retiring slot. -/
theorem revoked_key_blocks : plain.Reopens ∧
    ¬∀ calls, (Keys.empty.after plain "orders" calls).Delivers plain "orders" := by
  refine ⟨plain_reopens, fun always => ?_⟩
  have active : (Keys.empty.after plain "orders" compromised).headOrNew.active = some (number 3) := by
    set_option maxRecDepth 4000 in
    decide
  have row : ((Keys.empty.after plain "orders" compromised).find (number 3)).map
      (fun m => (m.confirmed, m.revoked, m.configuration)) = some (true, false, network) := by
    set_option maxRecDepth 4000 in
    decide
  obtain ⟨m, found, is⟩ := Option.map_eq_some_iff.mp row
  simp only [Prod.mk.injEq] at is
  obtain ⟨confirmed, valid, bound⟩ := is
  obtain ⟨loaded, loads, -⟩ := always compromised (number 3) m active found confirmed valid
  have blocked : delivering compromised = false := by set_option maxRecDepth 4000 in decide
  rw [delivering, ← bound, loads] at blocked
  cases blocked

end Sample

end RssMdm.Webhook
