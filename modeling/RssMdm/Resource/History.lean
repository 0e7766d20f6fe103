/- module: Resource/History
   source: crates/resource/src/lib.rs
   digest: Invariants of the resource aggregate over every sequence of calls, and when its snapshot
   restores it. -/

import RssMdm.Resource.Canonical
import RssMdm.Resource.Lifecycle

set_option autoImplicit false

namespace RssMdm.Resource

open Lib Lib.Fallible
open List (mem_cons mem_cons_of_mem mem_filter mem_singleton)

variable {D : Definitions} {Timepoint Number : Type} [LinearOrder Timepoint]

variable (D Timepoint Number) in
/-- A call of the aggregate's interface with its arguments. -/
inductive Call where
  | insert (version : Version D) (now : Timepoint)
  | activate (label : Id) (now : Timepoint)
  | deprecateVersion (label : Id) (now : Timepoint)
  | archive (label : Id) (refs : References D) (now : Timepoint)
  | setPresentation (value : JsonMap Number)
  | setOrigin (origin : BlueprintOrigin)

def Call.apply (S : Serializer Number) (r : Resource D Timepoint Number) :
    Call D Timepoint Number → Resource.Called D Timepoint Number Unit
  | .insert version now =>
      let (returned, after) := r.insert version now
      (returned.map (fun _ => ()), after)
  | .activate label now => r.activate label now
  | .deprecateVersion label now => r.deprecateVersion label now
  | .archive label refs now => r.archive label refs now
  | .setPresentation value => r.setPresentation S value
  | .setOrigin origin => r.setOrigin origin

/-- The aggregate before the first call and after each one. -/
def states (S : Serializer Number) (r : Resource D Timepoint Number) :
    List (Call D Timepoint Number) → List (Resource D Timepoint Number)
  | [] => [r]
  | c :: rest => r :: states S (c.apply S r).2 rest

/-- Aggregates come from `new` or from a snapshot that passed the checks of `restore`. -/
inductive Started (S : Serializer Number) : Resource D Timepoint Number → Prop where
  | new (tenant : D.TenantId) (key : Id) (kind : Kind) : Started S (Resource.new tenant key kind)
  | restored (s : ResourceSnapshot D Timepoint Number) {r : Resource D Timepoint Number}
      (h : Resource.restore S s = .ok r) : Started S r

section

/-- What holds of every reachable aggregate. -/
structure Sound (S : Serializer Number) (r : Resource D Timepoint Number) : Prop where
  owned : ∀ label e, r.versions.get? label = some e → e.version.label = label ∧
    e.version.tenant = r.tenant ∧ e.version.resource = r.key ∧ e.version.kind = r.kind
  oneActive : ∀ a b e f, r.versions.get? a = some e → r.versions.get? b = some f →
    e.state = .active → f.state = .active → a = b
  changed : r.versions.entries = [] ↔ r.changedAt = none
  origin : ∀ o, r.origin = some o → Resource.originTexts o = true
  presentation : presentationValid S r.presentation 65536 = true

/-- What a later aggregate keeps of an earlier one. -/
structure Follows (r r' : Resource D Timepoint Number) : Prop where
  tenant : r'.tenant = r.tenant
  key : r'.key = r.key
  kind : r'.kind = r.kind
  content : ∀ label v, r.version label = .ok v → r'.version label = .ok v
  archived : ∀ label, r.state label = .ok .archived → r'.state label = .ok .archived
  time : ∀ t, r.changedAt = some t → ∃ t', r'.changedAt = some t' ∧ t ≤ t'

theorem Follows.refl (r : Resource D Timepoint Number) : Follows r r where
  tenant := rfl
  key := rfl
  kind := rfl
  content _ _ h := h
  archived _ h := h
  time t h := ⟨t, h, le_rfl⟩

theorem Follows.trans {a b c : Resource D Timepoint Number} (h : Follows a b) (h' : Follows b c) :
    Follows a c where
  tenant := h'.tenant.trans h.tenant
  key := h'.key.trans h.key
  kind := h'.kind.trans h.kind
  content label v hv := h'.content label v (h.content label v hv)
  archived label hl := h'.archived label (h.archived label hl)
  time t ht := by
    obtain ⟨t₁, ht₁, le₁⟩ := h.time t ht
    obtain ⟨t₂, ht₂, le₂⟩ := h'.time t₁ ht₁
    exact ⟨t₂, ht₂, le₁.trans le₂⟩

/-- A change of states under one label: contents and archived entries stay, and no second entry
becomes active. -/
structure Restates (versions : OrdMap Id (Entry D)) (f : Id → Entry D → Entry D) : Prop where
  version : ∀ k e, (f k e).version = e.version
  archived : ∀ k e, versions.get? k = some e → e.state = .archived → (f k e).state = .archived
  oneActive : (∀ a b e g, versions.get? a = some e → versions.get? b = some g →
      e.state = .active → g.state = .active → a = b) →
    ∀ a b e g, versions.get? a = some e → versions.get? b = some g →
      (f a e).state = .active → (f b g).state = .active → a = b

/-- Everything a call can do to the aggregate. -/
inductive Effect (S : Serializer Number) (r : Resource D Timepoint Number)
    (c : Call D Timepoint Number) : Resource D Timepoint Number → Prop where
  | none : Effect S r c r
  | presented (value : JsonMap Number) (valid : presentationValid S value 65536 = true) :
      Effect S r c { r with presentation := value }
  | originated (o : BlueprintOrigin) (fresh : r.origin = Option.none)
      (empty : r.versions.entries = []) (texts : Resource.originTexts o = true) :
      Effect S r c { r with origin := some o }
  | inserted (v : Version D) (now : Timepoint) (made : c = .insert v now)
      (time : r.time now = .ok ()) (tenant : v.tenant = r.tenant) (key : v.resource = r.key)
      (kind : v.kind = r.kind) (fresh : r.versions.get? v.label = Option.none) :
      Effect S r c { r with versions := r.versions.insert v.label ⟨v, .frozen⟩, changedAt := some now }
  | restated (f : Id → Entry D → Entry D) (now : Timepoint) (time : r.time now = .ok ())
      (present : r.versions.entries ≠ []) (restates : Restates r.versions f) :
      Effect S r c { r with versions := r.versions.mapValues f, changedAt := some now }

variable {r : Resource D Timepoint Number}

theorem time_le {now t : Timepoint} (h : r.time now = .ok ()) (ht : r.changedAt = some t) :
    t ≤ now := by
  unfold Resource.time at h
  rw [guard_eq_ok, ht] at h
  simpa using h.1

theorem entries_ne_nil {κ ν : Type} [LinearOrder κ] {m : OrdMap κ ν} {k : κ} {v : ν}
    (h : m.get? k = some v) : m.entries ≠ [] := by
  intro empty
  have member := OrdMap.get?_eq_some.mp h
  rw [empty] at member
  cases member

variable {label : Id}

omit [LinearOrder Timepoint] in
theorem version_eq_ok {v : Version D} :
    r.version label = .ok v ↔ ∃ e, r.versions.get? label = some e ∧ e.version = v := by
  unfold Resource.version
  cases r.versions.get? label with
  | none | some => simp

variable {s : State}

omit [LinearOrder Timepoint] in
theorem state_eq_ok :
    r.state label = .ok s ↔ ∃ e, r.versions.get? label = some e ∧ e.state = s := by
  unfold Resource.state
  cases r.versions.get? label with
  | none | some => simp

theorem Effect.follows {S : Serializer Number} {r' : Resource D Timepoint Number}
    {c : Call D Timepoint Number} (h : Effect S r c r') : Follows r r' := by
  cases h with
  | none => exact .refl r
  | presented | originated =>
    exact ⟨rfl, rfl, rfl, fun _ _ h => h, fun _ h => h, fun t h => ⟨t, h, le_rfl⟩⟩
  | inserted v now _ time _ _ _ fresh =>
    have kept : ∀ label e, r.versions.get? label = some e →
        (r.versions.insert v.label ⟨v, .frozen⟩).get? label = some e := by
      intro label e found
      have other : label ≠ v.label := by
        rintro rfl
        cases found.symm.trans fresh
      rw [OrdMap.get?_insert, if_neg other, found]
    refine ⟨rfl, rfl, rfl, ?_, ?_, fun t ht => ⟨now, rfl, time_le time ht⟩⟩
    · intro label w hw
      obtain ⟨e, found, rfl⟩ := version_eq_ok.mp hw
      exact version_eq_ok.mpr ⟨e, kept label e found, rfl⟩
    · intro label hl
      obtain ⟨e, found, state⟩ := state_eq_ok.mp hl
      exact state_eq_ok.mpr ⟨e, kept label e found, state⟩
  | restated f now time _ restates =>
    refine ⟨rfl, rfl, rfl, ?_, ?_, fun t ht => ⟨now, rfl, time_le time ht⟩⟩
    · intro label w hw
      obtain ⟨e, found, rfl⟩ := version_eq_ok.mp hw
      exact version_eq_ok.mpr ⟨f label e, by simp [OrdMap.get?_mapValues, found],
        restates.version label e⟩
    · intro label hl
      obtain ⟨e, found, state⟩ := state_eq_ok.mp hl
      exact state_eq_ok.mpr ⟨f label e, by simp [OrdMap.get?_mapValues, found],
        restates.archived label e found state⟩

theorem Effect.sound {S : Serializer Number} {r r' : Resource D Timepoint Number}
    {c : Call D Timepoint Number} (h : Effect S r c r') (sound : Sound S r) : Sound S r' := by
  cases h with
  | none => exact sound
  | presented _ valid => exact { sound with presentation := valid }
  | originated _ _ _ texts =>
    refine { sound with origin := ?_ }
    rintro o' ⟨⟩
    exact texts
  | inserted v _ _ _ tenant key kind =>
    refine ⟨?_, ?_, ?_, sound.origin, sound.presentation⟩
    · intro label e found
      rw [OrdMap.get?_insert] at found
      by_cases own : label = v.label
      · rw [if_pos own] at found
        cases Option.some.inj found
        exact ⟨own.symm, tenant, key, kind⟩
      · rw [if_neg own] at found
        exact sound.owned label e found
    · intro a b e f ha hb hactive hactive'
      rw [OrdMap.get?_insert] at ha hb
      by_cases own : a = v.label
      · rw [if_pos own] at ha
        cases Option.some.inj ha
        cases hactive
      by_cases own' : b = v.label
      · rw [if_pos own'] at hb
        cases Option.some.inj hb
        cases hactive'
      · rw [if_neg own] at ha
        rw [if_neg own'] at hb
        exact sound.oneActive a b e f ha hb hactive hactive'
    · have filled : (r.versions.insert v.label ⟨v, .frozen⟩).entries ≠ [] :=
        entries_ne_nil (k := v.label) (v := ⟨v, .frozen⟩) (by rw [OrdMap.get?_insert, if_pos rfl])
      simp [filled]
  | restated _ _ _ present restates =>
    refine ⟨?_, ?_, ?_, sound.origin, sound.presentation⟩
    · intro label e found
      rw [OrdMap.get?_mapValues, Option.map_eq_some_iff] at found
      obtain ⟨e₀, found, rfl⟩ := found
      rw [restates.version]
      exact sound.owned label e₀ found
    · intro a b e g ha hb hactive hactive'
      rw [OrdMap.get?_mapValues, Option.map_eq_some_iff] at ha hb
      obtain ⟨e₀, ha, rfl⟩ := ha
      obtain ⟨g₀, hb, rfl⟩ := hb
      exact restates.oneActive sound.oneActive a b e₀ g₀ ha hb hactive hactive'
    · simp [OrdMap.mapValues, present]

/-- A call is refused and changes nothing, or it is accepted and has its effect. -/
def Ruled (S : Serializer Number) (r : Resource D Timepoint Number)
    (c : Call D Timepoint Number) (called : Resource.Called D Timepoint Number Unit) : Prop :=
  (called.1 = .ok () ∧ Effect S r c called.2) ∨ ((∃ e, called.1 = .error e) ∧ called.2 = r)

omit [LinearOrder Timepoint] in
theorem restates_activated (h : r.state label = .ok s) (live : s ≠ .archived) :
    Restates r.versions (Resource.activated label) := by
  obtain ⟨e₀, found₀, rfl⟩ := state_eq_ok.mp h
  have only : ∀ k (e : Entry D), (Resource.activated label k e).state = .active → k = label := by
    intro k e
    unfold Resource.activated
    split
    · exact fun _ => ‹k = label›
    · split
      · rintro ⟨⟩
      · exact fun active => absurd active ‹¬e.state = .active›
  constructor
  · intro k e
    unfold Resource.activated
    split
    · rfl
    · split <;> rfl
  · intro k e found archived
    have other : k ≠ label := by
      rintro rfl
      cases Option.some.inj (found₀.symm.trans found)
      exact live archived
    simp [Resource.activated, other, archived]
  · intro _ a b e g _ _ ha hb
    rw [only a e ha, only b g hb]

omit [LinearOrder Timepoint] in
theorem restates_setState (inactive : s ≠ .active)
    (kept : ∀ e, r.versions.get? label = some e → e.state = .archived → s = .archived) :
    Restates r.versions (fun j e => if j = label then { e with state := s } else e) := by
  have still : ∀ k (e : Entry D),
      (if k = label then { e with state := s } else e).state = .active → e.state = .active := by
    intro k e
    split
    · exact fun active => absurd active inactive
    · exact id
  constructor
  · intro k e
    by_cases own : k = label
    · simp [own]
    · simp [own]
  · intro k e found archived
    by_cases own : k = label
    · subst own
      simpa using kept e found archived
    · simpa [own] using archived
  · intro one a b e g ha hb hactive hactive'
    exact one a b e g ha hb (still a e hactive) (still b g hactive')

theorem setState_ruled (S : Serializer Number) (c : Call D Timepoint Number) {now : Timepoint}
    (time : r.time now = .ok ()) (inactive : s ≠ .active)
    (kept : ∀ e, r.versions.get? label = some e → e.state = .archived → s = .archived) :
    Ruled S r c (r.setState label s now) := by
  unfold Resource.setState
  split
  · rename_i present
    obtain ⟨e, found⟩ := Option.isSome_iff_exists.mp present
    exact .inl ⟨rfl, .restated _ now time (entries_ne_nil found) (restates_setState inactive kept)⟩
  · exact .inr ⟨⟨_, rfl⟩, rfl⟩

theorem insert_ruled (S : Serializer Number) (r : Resource D Timepoint Number) (v : Version D)
    (now : Timepoint) : Ruled S r (.insert v now) (Call.apply S r (.insert v now)) := by
  simp only [Call.apply, Resource.insert]
  split
  · exact .inr ⟨⟨_, rfl⟩, rfl⟩
  rename_i time
  split
  · exact .inr ⟨⟨_, rfl⟩, rfl⟩
  rename_i tenant
  split
  · exact .inr ⟨⟨_, rfl⟩, rfl⟩
  rename_i key
  split
  · exact .inr ⟨⟨_, rfl⟩, rfl⟩
  rename_i kind
  split
  · split
    · exact .inl ⟨rfl, .none⟩
    · exact .inr ⟨⟨_, rfl⟩, rfl⟩
  · rename_i fresh
    exact .inl ⟨rfl, .inserted v now rfl time (not_not.mp tenant)
      (not_not.mp key) (not_not.mp kind) fresh⟩

theorem apply_ruled (S : Serializer Number) (r : Resource D Timepoint Number)
    (c : Call D Timepoint Number) : Ruled S r c (c.apply S r) := by
  have refused : ∀ e : Error, Ruled S r c (.error e, r) := fun e => .inr ⟨⟨e, rfl⟩, rfl⟩
  cases c with
  | insert v now => exact insert_ruled S r v now
  | activate label now =>
    simp only [Call.apply, Resource.activate]
    cases time : r.time now with
    | error e => exact refused e
    | ok =>
      cases state : r.state label with
      | error e => exact refused e
      | ok s =>
        have present : r.versions.entries ≠ [] := by
          obtain ⟨e, found, -⟩ := state_eq_ok.mp state
          exact entries_ne_nil found
        cases s with
        | archived => exact refused _
        | _ =>
          exact .inl ⟨rfl, .restated _ now time present
            (restates_activated state (by decide))⟩
  | deprecateVersion label now =>
    simp only [Call.apply, Resource.deprecateVersion]
    cases time : r.time now with
    | error e => exact refused e
    | ok =>
      cases state : r.state label with
      | error e => exact refused e
      | ok s =>
        obtain ⟨e, found, here⟩ := state_eq_ok.mp state
        have live : s ≠ .archived → ∀ e, r.versions.get? label = some e →
            e.state = .archived → State.deprecated = .archived := by
          intro live e' found' archived
          cases Option.some.inj (found.symm.trans found')
          exact absurd (here.symm.trans archived) live
        cases s with
        | active | deprecated => exact setState_ruled S _ time (by decide) (live (by decide))
        | frozen | archived => exact refused _
  | archive label _ now =>
    simp only [Call.apply, Resource.archive]
    cases time : r.time now with
    | error e => exact refused e
    | ok =>
      cases state : r.state label with
      | error e => exact refused e
      | ok =>
        dsimp only
        split
        · exact refused _
        split
        · exact refused _
        split
        · exact refused _
        · split
          · exact refused _
          · exact setState_ruled S _ time (by decide) (fun _ _ _ => rfl)
  | setPresentation value =>
    simp only [Call.apply, Resource.setPresentation]
    split
    · exact refused _
    · rename_i passed
      simp only [Bool.not_eq_true', Bool.not_eq_false] at passed
      exact .inl ⟨rfl, .presented value passed⟩
  | setOrigin o =>
    simp only [Call.apply, Resource.setOrigin]
    split
    · exact refused _
    rename_i passed
    simp only [Bool.or_eq_true, Bool.not_eq_true', not_or, Bool.not_eq_true,
      Option.isSome_eq_false_iff, Option.isNone_iff_eq_none, Bool.not_eq_false,
      List.isEmpty_iff] at passed
    exact .inl ⟨rfl, .originated o passed.1.1 passed.1.2 passed.2⟩

end

section

/-- An origin is absent, or there are no versions yet, or one has the digest of the origin. -/
def Matched (r : Resource D Timepoint Number) : Prop :=
  ∀ o, r.origin = some o → r.versions.entries = [] ∨
    ∃ label e, r.versions.get? label = some e ∧ e.version.digest = o.digest

def Fits (tenant : D.TenantId) (key : Id) (kind : Kind) (item : StoredVersion D) : Prop :=
  item.version.tenant = tenant ∧ item.version.resource = key ∧ item.version.kind = kind

def StoredVersion.entry (item : StoredVersion D) : Id × Entry D :=
  (item.version.label, ⟨item.version, item.state⟩)

variable {versions : OrdMap Id (Entry D)}

theorem restoreVersion_eq_ok {tenant : D.TenantId} {key : Id} {kind : Kind}
    {versions' : OrdMap Id (Entry D)} {item : StoredVersion D} :
    Resource.restoreVersion tenant key kind versions item = .ok versions' ↔
      Fits tenant key kind item ∧ item.version.label ∉ versions.keys ∧
        versions' = versions.insert item.version.label ⟨item.version, item.state⟩ := by
  have fresh : versions.contains item.version.label = true ↔ item.version.label ∈ versions.keys := by
    rw [OrdMap.contains, Option.isSome_iff_exists, OrdMap.mem_keys]
  simp only [Resource.restoreVersion, guard_eq_ok, Fits, not_or, not_not, fresh, Except.ok.injEq]
  constructor
  · rintro ⟨tenant, ⟨key, notMem⟩, kind, rfl⟩
    exact ⟨⟨tenant, key, kind⟩, notMem, rfl⟩
  · rintro ⟨⟨tenant, key, kind⟩, notMem, rfl⟩
    exact ⟨tenant, ⟨key, notMem⟩, kind, rfl⟩

theorem foldlM_restoreVersion {tenant : D.TenantId} {key : Id} {kind : Kind}
    (items : List (StoredVersion D)) (versions : OrdMap Id (Entry D)) :
    (∀ versions', items.foldlM (Resource.restoreVersion tenant key kind) versions = .ok versions' →
      (∀ i ∈ items, Fits tenant key kind i) ∧
        versions'.entries.Perm (items.map StoredVersion.entry ++ versions.entries)) ∧
    ((∀ i ∈ items, Fits tenant key kind i) →
      ((items.map StoredVersion.entry ++ versions.entries).map Prod.fst).Nodup →
      ∃ versions', items.foldlM (Resource.restoreVersion tenant key kind) versions = .ok versions') := by
  induction items generalizing versions with
  | nil =>
    constructor
    · rintro versions' ⟨⟩
      exact ⟨by simp, .refl _⟩
    · intro _ _
      exact ⟨versions, rfl⟩
  | cons item items ih =>
    constructor
    · intro versions' ok
      obtain ⟨versions₁, first, later⟩ := of_bind ok
      obtain ⟨fits, fresh, rfl⟩ := restoreVersion_eq_ok.mp first
      obtain ⟨others, perm⟩ := (ih _).1 versions' later
      refine ⟨?_, ?_⟩
      · intro i hi
        rcases mem_cons.mp hi with rfl | hi
        · exact fits
        · exact others i hi
      · have added := OrdMap.perm_insert fresh (⟨item.version, item.state⟩ : Entry D)
        exact (perm.trans (added.append_left _)).trans List.perm_middle
    · intro fits nodup
      have first : item.version.label ∉ versions.keys := by
        rw [List.map_cons, List.cons_append, List.map_cons, List.nodup_cons] at nodup
        exact fun mem => nodup.1 (by simpa [StoredVersion.entry, OrdMap.keys] using Or.inr mem)
      have added := OrdMap.perm_insert first (⟨item.version, item.state⟩ : Entry D)
      have nodup' : ((items.map StoredVersion.entry ++ (versions.insert item.version.label
          ⟨item.version, item.state⟩).entries).map Prod.fst).Nodup := by
        have perm : (items.map StoredVersion.entry ++ (versions.insert item.version.label
            ⟨item.version, item.state⟩).entries).Perm
              ((item :: items).map StoredVersion.entry ++ versions.entries) :=
          (added.append_left _).trans List.perm_middle
        exact (perm.map Prod.fst).nodup_iff.mpr nodup
      obtain ⟨versions', later⟩ := (ih _).2 (fun i hi => fits i (.tail _ hi)) nodup'
      refine ⟨versions', ?_⟩
      rw [List.foldlM_cons, restoreVersion_eq_ok.mpr ⟨fits item (.head _), first, rfl⟩]
      exact later

variable {S : Serializer Number} {r : Resource D Timepoint Number}
  {s : ResourceSnapshot D Timepoint Number}

omit [LinearOrder Timepoint] in
theorem restore_eq_ok : Resource.restore S s = .ok r ↔
      (s.versions = [] ↔ s.changedAt = none) ∧
      (s.versions.filter (fun v => v.state = .active)).length ≤ 1 ∧
      ∃ versions, s.versions.foldlM (Resource.restoreVersion s.tenant s.key s.kind) .empty =
          .ok versions ∧
        (∀ o, s.origin = some o → Resource.originRestorable versions o = true) ∧
        presentationValid S s.presentation 65536 = true ∧
        r = { presentation := s.presentation, origin := s.origin, tenant := s.tenant, key := s.key
              kind := s.kind, versions, changedAt := s.changedAt } := by
  have shape : ¬(s.versions.isEmpty != s.changedAt.isNone ||
      decide ((s.versions.filter (fun v => v.state = .active)).length > 1)) = true ↔
      (s.versions = [] ↔ s.changedAt = none) ∧
        (s.versions.filter (fun v => v.state = .active)).length ≤ 1 := by
    rw [Bool.not_eq_true, Bool.or_eq_false_iff, bne_eq_false_iff_eq, Bool.eq_iff_iff,
      decide_eq_false_iff_not, Nat.not_lt]
    simp
  have origins : ∀ versions : OrdMap Id (Entry D),
      ¬s.origin.any (fun o => !Resource.originRestorable versions o) = true ↔
        ∀ o, s.origin = some o → Resource.originRestorable versions o = true := by
    intro versions
    cases s.origin with
    | none | some => simp
  unfold Resource.restore
  rw [guard_eq_ok, shape, and_assoc]
  apply and_congr_right
  intro _
  apply and_congr_right
  intro _
  rw [bind_eq_ok]
  apply exists_congr
  intro versions
  apply and_congr_right
  intro _
  rw [guard_eq_ok, origins]
  apply and_congr_right
  intro _
  cases valid : presentationValid S s.presentation 65536 with
  | false => simp [Resource.setPresentation, valid]
  | true => simp [Resource.setPresentation, valid, Resource.new, eq_comm]

theorem originRestorable_iff {o : BlueprintOrigin} :
    Resource.originRestorable versions o = true ↔ Resource.originTexts o = true ∧
      (versions.entries = [] ∨
        ∃ label e, versions.get? label = some e ∧ e.version.digest = o.digest) := by
  have values : versions.values.any (fun e => e.version.digest = o.digest) = true ↔
      ∃ label e, versions.get? label = some e ∧ e.version.digest = o.digest := by
    simp only [OrdMap.any_values, decide_eq_true_eq]
  rw [Resource.originRestorable, Bool.and_eq_true, Bool.or_eq_true, List.isEmpty_iff, values]

theorem eq_of_filter_length_le {α : Type} {p : α → Bool} {l : List α}
    (h : (l.filter p).length ≤ 1) {a b : α} (ha : a ∈ l) (hb : b ∈ l) (pa : p a = true)
    (pb : p b = true) : a = b := by
  have ha' := mem_filter.mpr ⟨ha, pa⟩
  have hb' := mem_filter.mpr ⟨hb, pb⟩
  match few : l.filter p, h, ha', hb' with
  | [], _, ha', _ => cases ha'
  | [x], _, ha', hb' => rw [mem_singleton.mp ha', mem_singleton.mp hb']
  | _ :: _ :: _, h, _, _ => simp at h

theorem filter_length_le_one {α : Type} {p : α → Bool} {l : List α} (nodup : l.Nodup)
    (unique : ∀ a ∈ l, ∀ b ∈ l, p a = true → p b = true → a = b) : (l.filter p).length ≤ 1 := by
  have apart := nodup.filter p
  match few : l.filter p, apart with
  | [], _ => exact Nat.zero_le 1
  | [_], _ => exact Nat.le_refl 1
  | a :: b :: rest, apart =>
    have first := mem_filter.mp (show a ∈ l.filter p by simp [few])
    have second := mem_filter.mp (show b ∈ l.filter p by simp [few])
    have same := unique a first.1 b second.1 first.2 second.2
    simp [same] at apart

omit [LinearOrder Timepoint] in
theorem snapshot_entries
    (labelled : ∀ label e, r.versions.get? label = some e → e.version.label = label) :
    r.snapshot.versions.map StoredVersion.entry = r.versions.entries := by
  have own : ∀ e ∈ r.versions.entries, StoredVersion.entry ⟨e.2.version, e.2.state⟩ = e := by
    rintro ⟨label, e⟩ member
    have label_eq := labelled label e (OrdMap.get?_eq_some.mpr member)
    simp [StoredVersion.entry, label_eq]
  simp only [Resource.snapshot, OrdMap.values, List.map_map]
  exact (List.map_congr_left own).trans (List.map_id _)

omit [LinearOrder Timepoint] in
theorem restore_snapshot (sound : Sound S r) :
    Resource.restore S r.snapshot = .ok r ↔ Matched r := by
  have entries := snapshot_entries (fun label e h => (sound.owned label e h).1)
  have fits : ∀ i ∈ r.snapshot.versions, Fits r.tenant r.key r.kind i := by
    intro i hi
    have member : i.entry ∈ r.versions.entries := entries ▸ List.mem_map_of_mem hi
    exact (sound.owned _ _ (OrdMap.get?_eq_some.mpr member)).2
  have loop : r.snapshot.versions.foldlM (Resource.restoreVersion r.tenant r.key r.kind) .empty =
      .ok r.versions := by
    obtain ⟨complete, succeeds⟩ := @foldlM_restoreVersion D r.tenant r.key r.kind
      r.snapshot.versions .empty
    rw [entries, OrdMap.empty, List.append_nil] at complete succeeds
    obtain ⟨versions, ok⟩ := succeeds fits r.versions.nodup_keys
    have same := OrdMap.eq_of_perm (complete versions ok).2
    rw [← same]
    exact ok
  have active : (r.snapshot.versions.filter (fun v => v.state = .active)).length ≤ 1 := by
    have few : (r.versions.entries.filter (fun e => e.2.state = .active)).length ≤ 1 := by
      apply filter_length_le_one r.versions.nodup_keys.of_map
      rintro ⟨a, e⟩ ha ⟨b, f⟩ hb hactive hactive'
      have ha := OrdMap.get?_eq_some.mpr ha
      have hb := OrdMap.get?_eq_some.mpr hb
      obtain rfl := sound.oneActive a b e f ha hb (by simpa using hactive) (by simpa using hactive')
      rw [Option.some.inj (ha.symm.trans hb)]
    simpa [Resource.snapshot, OrdMap.values, List.filter_map, Function.comp_def] using few
  have present : r.snapshot.versions = [] ↔ r.changedAt = none := by
    rw [← sound.changed]
    simp [Resource.snapshot, OrdMap.values]
  rw [restore_eq_ok]
  constructor
  · rintro ⟨-, -, versions, ok, origins, -⟩ o ho
    cases Except.ok.inj (ok.symm.trans loop)
    exact (originRestorable_iff.mp (origins o ho)).2
  · intro matched
    refine ⟨present, active, r.versions, loop, ?_, sound.presentation, rfl⟩
    intro o ho
    exact originRestorable_iff.mpr ⟨sound.origin o ho, matched o ho⟩

omit [LinearOrder Timepoint] in
theorem restored_sound (h : Resource.restore S s = .ok r) : Sound S r ∧ Matched r := by
  obtain ⟨present, active, versions, loop, origins, presentation, rfl⟩ := restore_eq_ok.mp h
  obtain ⟨fits, perm⟩ := (foldlM_restoreVersion s.versions .empty).1 versions loop
  rw [OrdMap.empty, List.append_nil] at perm
  have stored : ∀ label e, versions.get? label = some e →
      ∃ i ∈ s.versions, StoredVersion.entry i = (label, e) := by
    intro label e found
    exact List.mem_map.mp (perm.mem_iff.mp (OrdMap.get?_eq_some.mp found))
  refine ⟨⟨?_, ?_, ?_, ?_, presentation⟩, ?_⟩
  · intro label e found
    obtain ⟨i, member, same⟩ := stored label e found
    cases same
    exact ⟨rfl, fits i member⟩
  · intro a b e f ha hb hactive hactive'
    obtain ⟨i, hi, same⟩ := stored a e ha
    obtain ⟨j, hj, same'⟩ := stored b f hb
    cases same
    cases same'
    rw [eq_of_filter_length_le active hi hj (by simpa using hactive) (by simpa using hactive')]
  · show versions.entries = [] ↔ s.changedAt = none
    rw [← present, ← List.length_eq_zero_iff, perm.length_eq, List.length_map,
      List.length_eq_zero_iff]
  · intro o ho
    exact (originRestorable_iff.mp (origins o ho)).1
  · intro o ho
    exact (originRestorable_iff.mp (origins o ho)).2

omit [LinearOrder Timepoint] in
theorem Started.sound (law : S.Lawful) (h : Started S r) : Sound S r ∧ Matched r := by
  cases h with
  | new =>
    refine ⟨⟨?_, ?_, ?_, ?_, ?_⟩, ?_⟩
    · intro label e found
      cases found
    · intro a b e f found
      cases found
    · simp [Resource.new, OrdMap.empty]
    · intro o ho
      cases ho
    · simp [Resource.new, presentationValid, visitFields, law.empty]
    · intro o ho
      cases ho
  | restored _ h => exact restored_sound h

end

section

/-- An insert that becomes the first version of a resource with an origin has its digest. -/
def Faithful (r : Resource D Timepoint Number) : Call D Timepoint Number → Prop
  | .insert v _ => r.versions.entries = [] → v.tenant = r.tenant → v.resource = r.key →
      v.kind = r.kind → ∀ o, r.origin = some o → v.digest = o.digest
  | _ => True

/-- A stored version is inserted again only at a time that the resource still takes. -/
def Timely (r : Resource D Timepoint Number) : Call D Timepoint Number → Prop
  | .insert v now => r.version v.label = .ok v → r.changedAt.any (fun old => now < old) = false
  | _ => True

/-- Inserting a stored version again is answered by `false` and changes nothing. -/
def Idempotent (r : Resource D Timepoint Number) : Call D Timepoint Number → Prop
  | .insert v now => r.version v.label = .ok v → r.insert v now = (.ok false, r)
  | _ => True

/-- Every call of a run meets a condition where it is made. -/
def Along (S : Serializer Number)
    (P : Resource D Timepoint Number → Call D Timepoint Number → Prop)
    (r : Resource D Timepoint Number) : List (Call D Timepoint Number) → Prop
  | [] => True
  | c :: rest => P r c ∧ Along S P (c.apply S r).2 rest

theorem mem_states_self (S : Serializer Number) (r : Resource D Timepoint Number)
    (calls : List (Call D Timepoint Number)) : r ∈ states S r calls := by
  cases calls with
  | nil => exact mem_singleton.mpr rfl
  | cons => exact .head _

theorem apply_effect (S : Serializer Number) (r : Resource D Timepoint Number)
    (c : Call D Timepoint Number) : Effect S r c (c.apply S r).2 := by
  rcases apply_ruled S r c with ⟨-, effect⟩ | ⟨-, same⟩
  · exact effect
  · rw [same]
    exact .none

variable {S : Serializer Number}

theorem states_follow (calls : List (Call D Timepoint Number)) (r : Resource D Timepoint Number) :
    (∀ r' ∈ states S r calls, Follows r r') ∧
      (states S r calls).Pairwise Follows := by
  induction calls generalizing r with
  | nil =>
    constructor
    · intro r' hr'
      rw [mem_singleton.mp hr']
      exact .refl r
    · exact List.pairwise_singleton _ _
  | cons c _ ih =>
    obtain ⟨later, pairwise⟩ := ih (c.apply S r).2
    have step := (apply_effect S r c).follows
    constructor
    · intro r' hr'
      rcases mem_cons.mp hr' with rfl | hr'
      · exact .refl r'
      · exact step.trans (later r' hr')
    · exact List.pairwise_cons.mpr ⟨fun r' hr' => step.trans (later r' hr'), pairwise⟩

variable {r : Resource D Timepoint Number}

theorem states_sound (calls : List (Call D Timepoint Number)) (sound : Sound S r) :
    ∀ r' ∈ states S r calls, Sound S r' := by
  induction calls generalizing r with
  | nil =>
    intro r' hr'
    rw [mem_singleton.mp hr']
    exact sound
  | cons c _ ih =>
    intro r' hr'
    rcases mem_cons.mp hr' with rfl | hr'
    · exact sound
    · exact ih ((apply_effect S r c).sound sound) r' hr'

theorem Effect.matched {S : Serializer Number} {r r' : Resource D Timepoint Number}
    {c : Call D Timepoint Number} (h : Effect S r c r') (matched : Matched r)
    (faithful : Faithful r c) : Matched r' := by
  cases h with
  | none | presented => exact matched
  | originated _ _ empty =>
    intro o' _
    exact .inl empty
  | inserted v _ made _ tenant key kind fresh =>
    subst made
    intro o ho
    right
    rcases matched o ho with empty | ⟨label, e, found, digest⟩
    · exact ⟨v.label, ⟨v, .frozen⟩, by rw [OrdMap.get?_insert, if_pos rfl],
        faithful empty tenant key kind o ho⟩
    · have other : label ≠ v.label := by
        rintro rfl
        cases found.symm.trans fresh
      exact ⟨label, e, by rw [OrdMap.get?_insert, if_neg other, found], digest⟩
  | restated f _ _ present restates =>
    intro o ho
    rcases matched o ho with empty | ⟨label, e, found, digest⟩
    · exact absurd empty present
    · refine .inr ⟨label, f label e, by simp [OrdMap.get?_mapValues, found], ?_⟩
      rw [restates.version]
      exact digest

theorem faithful_of_matched (sound : Sound S r) (c : Call D Timepoint Number)
    (matched : Matched (c.apply S r).2) :
    Faithful r c := by
  cases c with
  | insert v now =>
    intro empty tenant key kind o ho
    have untimed := sound.changed.mp empty
    have fresh : r.versions.get? v.label = none := by
      rw [OrdMap.get?_eq_none, OrdMap.keys, empty]
      exact List.not_mem_nil
    have after : (Call.apply S r (.insert v now)).2 = { r with
        versions := r.versions.insert v.label ⟨v, .frozen⟩
        changedAt := some now } := by
      simp [Call.apply, Resource.insert, Resource.time, untimed, tenant, key, kind, fresh]
    rw [after] at matched
    rcases matched o ho with gone | ⟨label, e, found, digest⟩
    · exact absurd gone (entries_ne_nil (k := v.label) (v := ⟨v, .frozen⟩)
        (by rw [OrdMap.get?_insert, if_pos rfl]))
    rw [OrdMap.get?_insert] at found
    by_cases own : label = v.label
    · rw [if_pos own] at found
      rw [← digest, ← Option.some.inj found]
    · rw [if_neg own, OrdMap.get?_eq_some, empty] at found
      cases found
  | _ => trivial

theorem matched_iff_along (calls : List (Call D Timepoint Number)) (sound : Sound S r)
    (matched : Matched r) :
    (∀ r' ∈ states S r calls, Matched r') ↔ Along S Faithful r calls := by
  induction calls generalizing r with
  | nil =>
    constructor
    · intro _
      trivial
    · intro _ r' hr'
      rw [mem_singleton.mp hr']
      exact matched
  | cons c rest ih =>
    have sound' := (apply_effect S r c).sound sound
    constructor
    · intro all
      have later : ∀ r' ∈ states S (c.apply S r).2 rest, Matched r' :=
        fun r' hr' => all r' (.tail _ hr')
      have matched' := later _ (mem_states_self S _ rest)
      exact ⟨faithful_of_matched sound c matched', (ih sound' matched').mp later⟩
    · rintro ⟨faithful, others⟩ r' hr'
      have matched' := (apply_effect S r c).matched matched faithful
      rcases mem_cons.mp hr' with rfl | hr'
      · exact matched
      · exact (ih sound' matched').mpr others r' hr'

theorem insert_identical (S : Serializer Number) (sound : Sound S r) {v : Version D}
    (stored : r.version v.label = .ok v) (now : Timepoint) :
    r.insert v now = (if r.changedAt.any (fun old => now < old) then .error .staleTime
      else .ok false, r) := by
  obtain ⟨e, found, rfl⟩ := version_eq_ok.mp stored
  obtain ⟨-, tenant, key, kind⟩ := sound.owned _ e found
  unfold Resource.insert Resource.time
  by_cases stale : r.changedAt.any (fun old => now < old) = true
  · simp only [if_pos stale]
  · simp only [if_neg stale]
    simp [tenant, key, kind, found]

theorem idempotent_iff_timely (sound : Sound S r) (c : Call D Timepoint Number) :
    Idempotent r c ↔ Timely r c := by
  cases c with
  | insert v now =>
    refine forall_congr' fun stored => ?_
    rw [insert_identical S sound stored]
    cases r.changedAt.any (fun old => now < old) <;> simp
  | _ => exact Iff.rfl

theorem along_and (calls : List (Call D Timepoint Number)) (sound : Sound S r) :
    Along S Faithful r calls ∧ Along S Idempotent r calls ↔
      Along S (fun r c => Faithful r c ∧ Timely r c) r calls := by
  induction calls generalizing r with
  | nil => simp [Along]
  | cons c rest ih =>
    rw [Along, Along, Along, ← ih ((apply_effect S r c).sound sound), idempotent_iff_timely sound c]
    exact and_and_and_comm

/-- Over every sequence of calls at most one version is active, archived versions and stored
contents stay, every version belongs to the aggregate, the time of change is there with the first
version and never goes back, and a refused call changes nothing; and every state restores from its
snapshot and every identical insert returns `false` exactly when the first version inserted into a
resource with an origin always has the digest of that origin and no identical insert comes at a time
before the last change. -/
theorem lifecycle {S : Serializer Number} (law : S.Lawful) {r₀ : Resource D Timepoint Number}
    (start : Started S r₀) (calls : List (Call D Timepoint Number)) :
    (states S r₀ calls).Pairwise Follows ∧
    (∀ r ∈ states S r₀ calls,
      (∀ a b, r.state a = .ok .active → r.state b = .ok .active → a = b) ∧
      (∀ label v, r.version label = .ok v → v.label = label ∧ v.tenant = r.tenant ∧
        v.resource = r.key ∧ v.kind = r.kind) ∧
      (r.changedAt = none ↔ ∀ label, r.version label = .error .missingVersion) ∧
      (∀ v now, r.version v.label = .ok v → r.insert v now = (if r.changedAt.any (fun old =>
        now < old) then .error .staleTime else .ok false, r)) ∧
      (∀ (c : Call D Timepoint Number) e, (c.apply S r).1 = .error e → (c.apply S r).2 = r)) ∧
    ((∀ r ∈ states S r₀ calls, Resource.restore S r.snapshot = .ok r) ∧ Along S Idempotent r₀ calls ↔
      Along S (fun r c => Faithful r c ∧ Timely r c) r₀ calls) := by
  obtain ⟨sound, matched⟩ := start.sound law
  have sounds := states_sound calls sound
  refine ⟨(states_follow calls r₀).2, ?_, ?_⟩
  · intro r hr
    have sound := sounds r hr
    refine ⟨?_, ?_, ?_, ?_, ?_⟩
    · intro a b ha hb
      obtain ⟨e, found, active⟩ := state_eq_ok.mp ha
      obtain ⟨f, found', active'⟩ := state_eq_ok.mp hb
      exact sound.oneActive a b e f found found' active active'
    · intro label v hv
      obtain ⟨e, found, rfl⟩ := version_eq_ok.mp hv
      exact sound.owned label e found
    · rw [← sound.changed]
      constructor
      · intro empty label
        have missing : r.versions.get? label = none := by
          rw [OrdMap.get?_eq_none, OrdMap.keys, empty]
          exact List.not_mem_nil
        simp [Resource.version, missing]
      · intro missing
        by_contra present
        obtain ⟨⟨label, e⟩, member⟩ := List.exists_mem_of_ne_nil _ present
        have found := OrdMap.get?_eq_some.mpr member
        cases (missing label).symm.trans (version_eq_ok.mpr ⟨e, found, rfl⟩)
    · intro v now stored
      exact insert_identical S sound stored now
    · intro c e refused
      rcases apply_ruled S r c with ⟨accepted, -⟩ | ⟨-, same⟩
      · cases accepted.symm.trans refused
      · exact same
  · rw [← along_and calls sound, ← matched_iff_along calls sound matched]
    refine and_congr_left' ?_
    constructor
    · intro restored r hr
      exact (restore_snapshot (sounds r hr)).mp (restored r hr)
    · intro matched r hr
      exact (restore_snapshot (sounds r hr)).mpr (matched r hr)

end

/-- A writer that agrees with the JSON library on the empty object, the only one written here. -/
def sampleSerializer : Serializer Empty where
  toVec
    | [] => some [0x7b, 0x7d]
    | _ => none

def sampleVersion : Except Error (Version sample) :=
  sampleNew [sampleVariant .windows .powerShell7, sampleVariant .macOS .posixSh]

theorem report_valid : validId "tools/report" = true := by decide

def sampleResource : Resource sample Nat Empty :=
  Resource.new () (sampleId "tools/report" report_valid) .script

def sampleOrigin : BlueprintOrigin := ⟨"removed.from.catalog", "2", ⟨List.replicate 32 9, by simp⟩⟩

def originOf (v : Version sample) : BlueprintOrigin := { sampleOrigin with digest := v.digest }

def sampleCalls (v : Version sample) : List (Call sample Nat Empty) :=
  [.setOrigin (originOf v), .insert v 5, .activate v.label 6, .deprecateVersion v.label 7]

theorem lifecycle_sample :
    ∃ v, sampleVersion = .ok v ∧
      (∀ r ∈ states sampleSerializer sampleResource (sampleCalls v),
        Resource.restore sampleSerializer r.snapshot = .ok r) ∧
      Along sampleSerializer Idempotent sampleResource (sampleCalls v) := by
  have accepted : sampleVersion.toOption.isSome = true := by
    set_option maxRecDepth 4000 in
    decide
  cases built : sampleVersion with
  | error =>
    rw [built] at accepted
    cases accepted
  | ok v =>
    have faithful : Along sampleSerializer (fun r c => Faithful r c ∧ Timely r c) sampleResource
        (sampleCalls v) := by
      refine ⟨⟨trivial, trivial⟩, ⟨?_, fun _ => rfl⟩, ⟨trivial, trivial⟩, ⟨trivial, trivial⟩, trivial⟩
      intro _ _ _ _ o ho
      cases ho
      rfl
    exact ⟨v, rfl, (lifecycle (S := sampleSerializer) ⟨rfl⟩ (.new _ _ _) _).2.2.mpr faithful⟩

/-- A resource with an origin takes a first version with another digest and cannot be reloaded. -/
theorem mismatched_origin_unrestorable :
    ∃ v, sampleVersion = .ok v ∧ ∃ r ∈ states sampleSerializer sampleResource
        [.setOrigin sampleOrigin, .insert v 5],
      Resource.restore sampleSerializer r.snapshot = .error .invalidInput := by
  have reload : (match sampleVersion with
      | .ok v => match Resource.restore sampleSerializer
            ((sampleResource.setOrigin sampleOrigin).2.insert v 5).2.snapshot with
          | .error e => e == .invalidInput
          | .ok _ => false
      | .error _ => false) = true := by
    set_option maxRecDepth 4000 in
    decide
  cases built : sampleVersion with
  | error =>
    rw [built] at reload
    cases reload
  | ok v =>
    refine ⟨v, rfl, ((sampleResource.setOrigin sampleOrigin).2.insert v 5).2, ?_, ?_⟩
    · exact mem_cons_of_mem _ (mem_cons_of_mem _ List.mem_cons_self)
    · rw [built] at reload
      dsimp only at reload
      split at reload
      · rename_i e failed
        rw [failed, eq_of_beq reload]
      · cases reload

end RssMdm.Resource
