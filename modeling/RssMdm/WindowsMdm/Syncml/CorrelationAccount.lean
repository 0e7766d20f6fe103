/- module: WindowsMdm/Syncml/CorrelationAccount
   source: crates/windows-mdm/src/syncml/correlation.rs
   digest: Every requested Get item is accounted for exactly once by a correlated response. -/

import RssMdm.WindowsMdm.Syncml.Correlation

set_option autoImplicit false

namespace RssMdm.WindowsMdm.Syncml

open Lib.Fallible Lib.Outcome
open List (mem_append mem_cons mem_singleton)

def Message.flat (m : Message) : List Command := (preorderForest 0 none m.commands).map Prod.fst

def getReferences (ms : List Message) : List Reference :=
  ms.flatMap (fun m => m.flat.flatMap (fun c =>
    if c.name = .get then c.targets.map (fun uri => ⟨m.header.messageId, c.id, uri⟩) else []))

theorem sentTargets_eq_ok {items : List Item} {targets : List String}
    (h : sentTargets items = .ok targets) : targets = itemTargets items := by
  induction items generalizing targets with
  | nil =>
    cases h
    rfl
  | cons i rest ih =>
    rw [sentTargets] at h
    split at h
    · cases h
    rename_i uri target
    obtain ⟨uris, hrest, heq⟩ := of_bind h
    cases heq
    simp [itemTargets, target, ih hrest]

theorem sentKind_eq_ok {id : UInt32} {kind : CommandName} {items : List Item} {s : SentCommand}
    (h : sentKind id kind items = .ok s) : s = ⟨id, kind, itemTargets items⟩ := by
  obtain ⟨targets, htargets, heq⟩ := of_bind h
  cases heq
  rw [sentTargets_eq_ok htargets]

theorem sentCommand_eq_ok {c : Command} {s : SentCommand} (h : sentCommand c = .ok s) :
    s = ⟨c.id, c.name, c.targets⟩ := by
  cases c <;>
    first
      | exact sentKind_eq_ok h
      | (cases h; rfl)
      | cases h

theorem sentCommands_eq_ok {cs : List Command} {ss : List SentCommand}
    (h : sentCommands cs = .ok ss) : ss = cs.map (fun c => ⟨c.id, c.name, c.targets⟩) := by
  induction cs generalizing ss with
  | nil =>
    cases h
    rfl
  | cons _ _ ih =>
    obtain ⟨s, hs, h⟩ := of_bind h
    obtain ⟨others, hothers, heq⟩ := of_bind h
    cases heq
    rw [sentCommand_eq_ok hs, ih hothers, List.map_cons]

variable {l : CodecLimits} {sent : SentMessage}

theorem sentSnapshot_eq_ok {m : Message} (h : sentSnapshot m l = .ok sent) :
    sent.id = m.header.messageId ∧
      sent.commands = m.flat.map (fun c => ⟨c.id, c.name, c.targets⟩) := by
  obtain ⟨flat, hflat, h⟩ := of_bind h
  obtain ⟨commands, hcommands, heq⟩ := of_bind h
  cases heq
  refine ⟨rfl, ?_⟩
  rw [sentCommands_eq_ok hcommands, (flattened_eq_ok hflat).1, Message.flat]

structure Indexed (e : Expected) : Prop where
  ids : ∀ id ∈ e.messageIds, ∃ m ∈ e.messages, m.id = id
  requests : ∀ (key : Key) (i j : Nat), e.requests[key]? = some (i, j) →
    ∃ m c, e.messages[i]? = some m ∧ m.commands[j]? = some c ∧ key = (m.id, c.id)
  references : ∀ r, r ∈ e.references ↔
    ∃ m ∈ e.messages, ∃ c ∈ m.commands, r ∈ c.references m.id
  named : ∀ m ∈ e.messages, ∀ c ∈ m.commands, "" ∉ c.targets

theorem mem_recordCommands (messageId : UInt32) (k : Nat) (xs : List (SentCommand × Nat))
    (e : Expected) :
    let e' := xs.foldl (.recordCommand messageId k) e
    e'.messages = e.messages ∧ e'.messageIds = e.messageIds ∧
      (∀ r, r ∈ e'.references ↔ r ∈ e.references ∨ ∃ x ∈ xs, r ∈ x.1.references messageId) ∧
      ∀ (key : Key) (v : Nat × Nat), e'.requests[key]? = some v →
        e.requests[key]? = some v ∨ ∃ x ∈ xs, key = (messageId, x.1.id) ∧ v = (k, x.2) := by
  induction xs generalizing e with
  | nil => simp
  | cons x xs ih =>
    obtain ⟨messages, ids, references, requests⟩ := ih (e.recordCommand messageId k x)
    refine ⟨messages, ids, ?_, ?_⟩
    · intro r
      rw [List.foldl_cons, references r]
      simp [Expected.recordCommand, or_assoc]
    · intro key v h
      rcases requests key v h with earlier | ⟨y, hy, found⟩
      · simp only [Expected.recordCommand, Std.TreeMap.getElem?_insert] at earlier
        split at earlier
        · rename_i same
          cases earlier
          have eq := Std.LawfulEqCmp.eq_of_compare same
          exact .inr ⟨x, .head _, eq.symm, rfl⟩
        · exact .inl earlier
      · exact .inr ⟨y, .tail _ hy, found⟩

theorem Expected.checked_named {e : Expected} {v : Nat × Nat} (h : e.checked sent l = .ok v) :
    ∀ c ∈ sent.commands, "" ∉ c.targets := by
  simp only [Expected.checked, guard_eq_ok, check_bind_eq_ok, each_eq_ok] at h
  intro c hc mem
  have accepted := h.2.2.2.2.2.1 ""
    (.tail _ (.tail _ (List.mem_flatMap.mpr ⟨c, hc, mem⟩)))
  have nonblank := (text_eq_ok.mp accepted).2.1 rfl
  simp [RssMdm.Lib.Text.blank] at nonblank

theorem Expected.recordSent_eq_ok {e e' : Expected} (h : e.recordSent sent l = .ok e')
    (indexed : Indexed e) : Indexed e' ∧ e'.messages = e.messages ++ [sent] := by
  obtain ⟨⟨items, uriBytes⟩, checked, h⟩ := of_bind h
  cases hc : e.checked sent l with
  | error =>
    rw [hc] at checked
    cases checked
  | ok =>
    cases h
    obtain ⟨messages, ids, references, requests⟩ :=
      mem_recordCommands sent.id e.messages.length sent.commands.zipIdx
        { e with
          messageIds := e.messageIds.insert sent.id
          order := e.order.insert (sent.id, 0) e.order.size }
    refine ⟨⟨?_, ?_, ?_, ?_⟩, rfl⟩
    · intro id hid
      rw [ids, Std.TreeSet.mem_insert] at hid
      rcases hid with same | old
      · exact ⟨sent, by simp, Std.LawfulEqCmp.eq_of_compare same⟩
      · obtain ⟨m, hm, eq⟩ := indexed.ids id old
        exact ⟨m, List.mem_append_left _ hm, eq⟩
    · intro key i j found
      rcases requests key (i, j) found with old | ⟨⟨c, n⟩, hx, eq, at_⟩
      · obtain ⟨m, c, hm, hc, eq⟩ := indexed.requests key i j old
        exact ⟨m, c, List.getElem?_append_left (List.getElem?_eq_some_iff.mp hm).1 ▸ hm, hc, eq⟩
      · cases at_
        exact ⟨sent, c, by simp, List.mem_zipIdx_iff_getElem?.mp hx, eq⟩
    · intro r
      rw [references r]
      constructor
      · rintro (old | ⟨⟨c, n⟩, hx, hr⟩)
        · obtain ⟨m, hm, c, hc, hr⟩ := (indexed.references r).mp old
          exact ⟨m, List.mem_append_left _ hm, c, hc, hr⟩
        · exact ⟨sent, by simp, c, List.fst_mem_of_mem_zipIdx hx, hr⟩
      · rintro ⟨m, hm, c, hc, hr⟩
        rcases mem_append.mp hm with hm | hm
        · exact .inl ((indexed.references r).mpr ⟨m, hm, c, hc, hr⟩)
        · cases mem_singleton.mp hm
          obtain ⟨n, hn⟩ := List.mem_iff_getElem?.mp hc
          exact .inr ⟨(c, n), List.mem_zipIdx_iff_getElem?.mpr hn, hr⟩
    · intro m hm c hcm
      rcases mem_append.mp hm with hm | hm
      · exact indexed.named m hm c hcm
      · cases mem_singleton.mp hm
        exact Expected.checked_named hc c hcm

/-- An expectation reached by `Expected::new` and successful recordings of sent messages. -/
inductive Built : Expected → List Message → Prop where
  | new {m : Message} {sent : SentMessage} {id : UInt32} {l l' : CodecLimits} {e : Expected} :
      sentSnapshot m l = .ok sent → Expected.new sent id l' = .ok e → Built e [m]
  | record {m : Message} {sent : SentMessage} {l l' : CodecLimits} {e e' : Expected}
      {ms : List Message} : Built e ms → sentSnapshot m l = .ok sent →
      e.recordSent sent l' = .ok e' → Built e' (ms ++ [m])

def IsSnapshot (m : Message) (sent : SentMessage) : Prop :=
  sent.id = m.header.messageId ∧
    sent.commands = m.flat.map (fun c => ⟨c.id, c.name, c.targets⟩)

theorem Built.indexed {e : Expected} {ms : List Message} (built : Built e ms) :
    Indexed e ∧ List.Forall₂ IsSnapshot ms e.messages := by
  induction built with
  | @new _ _ id _ _ _ snapshot created =>
    have start : Indexed ⟨id, [], ∅, ∅, ∅, ∅, 0, 0⟩ := by
      constructor <;> simp
    obtain ⟨indexed, messages⟩ := Expected.recordSent_eq_ok created start
    rw [messages]
    exact ⟨indexed, .cons (sentSnapshot_eq_ok snapshot) .nil⟩
  | record _ snapshot recorded ih =>
    obtain ⟨indexed, messages⟩ := Expected.recordSent_eq_ok recorded ih.1
    rw [messages]
    exact ⟨indexed, List.rel_append ih.2 (.cons (sentSnapshot_eq_ok snapshot) .nil)⟩

section

variable {e : Expected}

def Recorded (e : Expected) (key : Key) (c : SentCommand) : Prop :=
  ∃ m ∈ e.messages, c ∈ m.commands ∧ key = (m.id, c.id)

theorem Expected.request_safe (indexed : Indexed e) (key : Key) :
    Safe (e.request key) (fun found => ∀ c, found = some c → Recorded e key c) := by
  unfold Expected.request
  split
  · simp
  rename_i i j hfound
  obtain ⟨m, c, hm, hc, eq⟩ := indexed.requests key i j hfound
  simp only [hm, hc, safe_ok]
  intro c' hc'
  cases hc'
  exact ⟨m, List.mem_of_getElem? hm, List.mem_of_getElem? hc, eq⟩

theorem Recorded.named (indexed : Indexed e) {key : Key} {c : SentCommand}
    (h : Recorded e key c) : "" ∉ c.targets := by
  obtain ⟨m, hm, hc, -⟩ := h
  exact indexed.named m hm c hc

/-- How an accepted status answers a recorded message or one of its commands. -/
structure Matches (e : Expected) (s : Status) (out : CorrelatedStatus) : Prop where
  messageId : out.messageId = s.messageRef
  commandId : out.commandId = s.commandRef
  code : out.code = s.code
  itemDetails : out.itemDetails = s.items
  sources : s.sourceRefs = []
  answers : (s.commandRef = 0 ∧ s.command = .syncHdr ∧ s.messageRef ∈ e.messageIds ∧
      s.targetRefs = [] ∧ out.targets = []) ∨
    (s.commandRef ≠ 0 ∧ ∃ c, e.request (s.messageRef, s.commandRef) = .ok (some c) ∧
      Recorded e (s.messageRef, s.commandRef) c ∧ c.kind = s.command ∧
      (∀ t ∈ s.targetRefs, t ∈ c.targets) ∧
      out.targets = if s.targetRefs = [] then c.targets else s.targetRefs)

def KnownBy (e : Expected) : Command → Prop
  | .results r => (∃ c, Recorded e r.key c ∧ c.kind = .get) ∧
      ∀ i ∈ r.items, ∃ uri, i.source = some uri ∧
        (⟨r.key.1, r.key.2, uri⟩ : Reference) ∈ e.references
  | .status s => ∃ out, Matches e s out
  | _ => False

def Command.status? : Command → Option Status
  | .status s => some s
  | _ => none

def coverEntries (targets : List String) : List String := if targets = [] then [""] else targets

variable {targets : List String}

theorem filter_coverEntries (h : "" ∉ targets) :
    (coverEntries targets).filter (fun s => !s.isEmpty) = targets := by
  unfold coverEntries
  split
  · rename_i empty
    rw [empty]
    rfl
  · rw [List.filter_eq_self]
    intro s hs
    have nonempty : s ≠ "" := fun eq => h (eq ▸ hs)
    simpa using nonempty

def Results.reportedItem (r : Results) (i : Item) : CorrelatedItem :=
  ⟨⟨r.key.1, r.key.2, i.source.getD ""⟩, i.data.getD "", r.messageRef.isSome, r.commandRef.isSome⟩

def Command.reported : Command → List CorrelatedItem
  | .results r => r.items.map r.reportedItem
  | _ => []

/-- The requested references are those still remaining and those returned, each once. -/
structure Account (e : Expected) (t : Tally) : Prop where
  accounted : ∀ r, r ∈ e.references ↔ r ∈ t.remaining ∨ r ∈ t.results.map CorrelatedItem.reference
  apart : ∀ r ∈ t.results.map CorrelatedItem.reference, r ∉ t.remaining
  nodup : (t.results.map CorrelatedItem.reference).Nodup

/-- The accounts of `correlate` after some commands of the response. -/
structure Tallied (e : Expected) (done : List Command) (t : Tally) : Prop extends Account e t where
  known : ∀ c ∈ done, KnownBy e c
  results : t.results = done.flatMap Command.reported
  statuses : List.Forall₂ (Matches e) (done.filterMap Command.status?) t.statuses
  covered : ∀ s ∈ t.statuses, ∀ x ∈ coverEntries s.targets,
    x ∈ t.coverage.getD (s.messageId, s.commandId) ∅
  once : t.statuses.Pairwise (fun a b =>
    (a.messageId, a.commandId) = (b.messageId, b.commandId) →
      ∀ x ∈ coverEntries a.targets, x ∉ coverEntries b.targets)

theorem mem_erase_reference (remaining : ReferenceSet) (reference x : Reference) :
    x ∈ remaining.erase reference ↔ x ≠ reference ∧ x ∈ remaining := by
  rw [Std.TreeSet.mem_erase]
  constructor
  · rintro ⟨different, mem⟩
    exact ⟨fun eq => different (eq ▸ Std.ReflCmp.compare_self), mem⟩
  · rintro ⟨different, mem⟩
    exact ⟨fun same => different (Std.LawfulEqCmp.eq_of_compare same).symm, mem⟩

variable {t : Tally} {t' : Tally}

theorem correlateItem_account {r : Results} {i : Item} (account : Account e t)
    (h : correlateItem r t i = .ok t') :
    Account e t' ∧ t' = { t with remaining := t'.remaining,
                                 results := t.results ++ [r.reportedItem i] } ∧
      ∃ uri, i.source = some uri ∧ (⟨r.key.1, r.key.2, uri⟩ : Reference) ∈ e.references := by
  rw [correlateItem, guard_eq_ok] at h
  obtain ⟨-, h⟩ := h
  split at h
  · cases h
  rename_i uri source
  rw [guard_eq_ok] at h
  obtain ⟨present, h⟩ := h
  have mem : (⟨r.key.1, r.key.2, uri⟩ : Reference) ∈ t.remaining := by
    simpa using present
  split at h
  · cases h
  rename_i value data
  cases h
  refine ⟨⟨?_, ?_, ?_⟩, ?_, uri, source, (account.accounted _).mpr (.inl mem)⟩
  · intro x
    rw [account.accounted x, mem_erase_reference]
    by_cases same : x = ⟨r.key.1, r.key.2, uri⟩
    · simp [same, mem]
    · simp [same]
  · intro x hx
    rw [List.map_append, mem_append] at hx
    rw [mem_erase_reference]
    rintro ⟨different, hmem⟩
    rcases hx with hx | hx
    · exact account.apart x hx hmem
    · exact different (by simpa using hx)
  · rw [List.map_append]
    refine List.nodup_append.mpr ⟨account.nodup, by simp, ?_⟩
    intro a ha b hb eq
    have last : b = ⟨r.key.1, r.key.2, uri⟩ := by simpa using hb
    exact account.apart a ha (eq ▸ last ▸ mem)
  · simp [Results.reportedItem, source, data]

theorem correlateItems_account {r : Results} {items : List Item} (account : Account e t)
    (h : correlateItems r t items = .ok t') :
    Account e t' ∧ t' = { t with remaining := t'.remaining,
                                 results := t.results ++ items.map r.reportedItem } ∧
      ∀ i ∈ items, ∃ uri, i.source = some uri ∧
        (⟨r.key.1, r.key.2, uri⟩ : Reference) ∈ e.references := by
  induction items generalizing t with
  | nil =>
    cases h
    exact ⟨account, by simp, by simp⟩
  | cons _ _ ih =>
    obtain ⟨t₁, hitem, hrest⟩ := of_bind h
    obtain ⟨account₁, eq₁, known₁⟩ := correlateItem_account account hitem
    obtain ⟨account', eq', known'⟩ := ih account₁ hrest
    refine ⟨account', ?_, ?_⟩
    · rw [eq', eq₁]
      simp
    · intro j hj
      rcases mem_cons.mp hj with rfl | hj
      · exact known₁
      · exact known' j hj

variable {done : List Command}

theorem correlateResults_safe (indexed : Indexed e) (tallied : Tallied e done t) (r : Results) :
    Safe (correlateResults e t r) (Tallied e (done ++ [.results r])) := by
  refine (Expected.request_safe indexed r.key).bind ?_
  intro found hfound
  cases found with
  | none => trivial
  | some request =>
    refine .guard (fun get => .lift (fun t' h => ?_))
    obtain ⟨account, eq, known⟩ := correlateItems_account tallied.toAccount h
    rw [eq] at account ⊢
    refine { account with
      known := ?_, results := ?_, statuses := ?_, covered := tallied.covered, once := tallied.once }
    · intro c hc
      rcases mem_append.mp hc with hc | hc
      · exact tallied.known c hc
      · cases mem_singleton.mp hc
        exact ⟨⟨request, hfound request rfl, by simpa using get⟩, known⟩
    · simp [tallied.results, Command.reported]
    · rw [List.filterMap_append]
      simpa [List.filterMap_cons, Command.status?] using tallied.statuses

theorem coverTargets_eq_ok {seen seen' : Std.TreeSet String}
    (h : coverTargets seen targets = .ok seen') :
    (∀ x, x ∈ seen' ↔ x ∈ seen ∨ x ∈ targets) ∧ ∀ x ∈ targets, x ∉ seen := by
  induction targets generalizing seen with
  | nil =>
    cases h
    simp
  | cons t _ ih =>
    rw [coverTargets, guard_eq_ok] at h
    obtain ⟨fresh, h⟩ := h
    obtain ⟨mem, apart⟩ := ih h
    have inserted : ∀ x, x ∈ seen.insert t ↔ t = x ∨ x ∈ seen := by
      intro x
      rw [Std.TreeSet.mem_insert, Std.LawfulEqOrd.compare_eq_iff_eq]
    constructor
    · intro x
      rw [mem x, inserted x, mem_cons]
      tauto
    · intro x hx hseen
      rcases mem_cons.mp hx with rfl | hx
      · exact fresh hseen
      · exact apart x hx ((inserted x).mpr (.inr hseen))

theorem statusTargets_safe (indexed : Indexed e) (s : Status) :
    Safe (statusTargets e s) (fun targets => ∃ effective, "" ∉ effective ∧
      targets = coverEntries effective ∧
      ∀ out : CorrelatedStatus, out.messageId = s.messageRef → out.commandId = s.commandRef →
        out.code = s.code → out.itemDetails = s.items → out.targets = effective →
        Matches e s out) := by
  unfold statusTargets
  split
  · rename_i header
    refine .guard (fun checks => ?_)
    simp only [Bool.or_eq_true, not_or, Bool.not_eq_true, Bool.not_eq_false', List.isEmpty_iff,
      Classical.not_not, decide_eq_true_eq] at checks
    obtain ⟨⟨⟨known, command⟩, targetRefs⟩, sources⟩ := checks
    refine ⟨[], by simp, rfl, ?_⟩
    intro out messageId commandId code items targets
    exact ⟨messageId, commandId, code, items, sources,
      .inl ⟨header, command, by simpa using known, targetRefs, targets⟩⟩
  · rename_i command
    cases hrequest : e.request (s.messageRef, s.commandRef) with
    | error fault =>
      have safe := Expected.request_safe indexed (s.messageRef, s.commandRef)
      rw [hrequest] at safe
      cases fault with
      | error => trivial
      | panic | fuel => exact safe
    | ok found =>
      have recorded := (Expected.request_safe indexed (s.messageRef, s.commandRef)).of_eq_ok
        hrequest
      cases found with
      | none => trivial
      | some request =>
        have named := (recorded request rfl).named indexed
        refine .guard (fun checks => ?_)
        simp only [Bool.or_eq_true, not_or, Bool.not_eq_true, Bool.not_eq_false',
          List.isEmpty_iff, Classical.not_not, decide_eq_true_eq] at checks
        obtain ⟨kind, sources⟩ := checks
        have build : ∀ effective, (∀ t ∈ s.targetRefs, t ∈ request.targets) →
            (effective = if s.targetRefs = [] then request.targets else s.targetRefs) →
            ∀ out : CorrelatedStatus, out.messageId = s.messageRef →
              out.commandId = s.commandRef → out.code = s.code → out.itemDetails = s.items →
              out.targets = effective → Matches e s out := by
          intro effective subset choice out messageId commandId code items targets
          exact ⟨messageId, commandId, code, items, sources, .inr ⟨command, request, hrequest,
            recorded request rfl, kind, subset, targets.trans choice⟩⟩
        split
        · rename_i none_
          have none_ := List.isEmpty_iff.mp none_
          refine ⟨request.targets, named, ?_, build _ (by simp [none_]) (by rw [if_pos none_])⟩
          simp [coverEntries]
        · rename_i some_
          have some_ : s.targetRefs ≠ [] := by simpa using some_
          refine .guard (fun checks => ?_)
          have subset : ∀ t ∈ s.targetRefs, t ∈ request.targets := by simpa using checks
          refine ⟨s.targetRefs, fun mem => named (subset _ mem), ?_,
            build _ subset (by rw [if_neg some_])⟩
          rw [coverEntries, if_neg some_]

theorem statusOrder_tallied {s : Status} {index : Nat} (tallied : Tallied e done t)
    (h : statusOrder t s index = .ok t') : Tallied e done t' := by
  unfold statusOrder at h
  split at h
  · rw [guard_eq_ok] at h
    cases h.2
    exact { tallied with }
  · cases h
    exact tallied

theorem correlateStatus_safe (indexed : Indexed e) (tallied : Tallied e done t) (s : Status) :
    Safe (correlateStatus e t s) (Tallied e (done ++ [.status s])) := by
  unfold correlateStatus
  dsimp only
  split
  · trivial
  refine .bind (P := Tallied e done) (.lift (fun _ h => statusOrder_tallied tallied h)) ?_
  intro t tallied
  refine (statusTargets_safe indexed s).bind ?_
  rintro _ ⟨effective, named, rfl, answers⟩
  refine .bind (.lift (fun _ h => coverTargets_eq_ok h)) ?_
  rintro seen ⟨mem, fresh⟩
  have coverage : ∀ (key : Key) (x : String), x ∈ t.coverage.getD key ∅ →
      x ∈ (t.coverage.insert (s.messageRef, s.commandRef) seen).getD key ∅ := by
    intro key x hx
    rw [Std.TreeMap.getD_insert]
    split
    · rename_i same
      cases Std.LawfulEqCmp.eq_of_compare same
      exact (mem x).mpr (.inl hx)
    · exact hx
  have matched := answers
    ⟨s.messageRef, s.commandRef, s.code, (coverEntries effective).filter (fun s => !s.isEmpty), s.items⟩
    rfl rfl rfl rfl (filter_coverEntries named)
  refine { tallied with known := ?_, results := ?_, statuses := ?_, covered := ?_, once := ?_ }
  · intro c hc
    rcases mem_append.mp hc with hc | hc
    · exact tallied.known c hc
    · cases mem_singleton.mp hc
      exact ⟨_, matched⟩
  · simp [tallied.results, Command.reported]
  · rw [List.filterMap_append]
    exact List.rel_append tallied.statuses (.cons matched .nil)
  · intro out hout x hx
    rcases mem_append.mp hout with hout | hout
    · exact coverage _ x (tallied.covered out hout x hx)
    cases mem_singleton.mp hout
    rw [filter_coverEntries named] at hx
    rw [Std.TreeMap.getD_insert_self]
    exact (mem x).mpr (.inr hx)
  · refine List.pairwise_append.mpr ⟨tallied.once, List.pairwise_singleton _ _, ?_⟩
    intro a ha b hb same x hxa hxb
    cases mem_singleton.mp hb
    rw [filter_coverEntries named] at hxb
    have old := tallied.covered a ha x hxa
    rw [same] at old
    exact fresh x hxb old

theorem correlateCommand_safe (indexed : Indexed e) (tallied : Tallied e done t) (c : Command) :
    Safe (correlateCommand e t c) (Tallied e (done ++ [c])) := by
  cases c with
  | results r => exact correlateResults_safe indexed tallied r
  | status s => exact correlateStatus_safe indexed tallied s
  | _ => trivial

theorem correlateCommands_safe (indexed : Indexed e) (tallied : Tallied e done t)
    (commands : List Command) :
    Safe (correlateCommands e t commands) (Tallied e (done ++ commands)) := by
  induction commands generalizing done t with
  | nil => simpa [correlateCommands] using tallied
  | cons c rest ih =>
    refine (correlateCommand_safe indexed tallied c).bind ?_
    intro t' tallied'
    have next := ih tallied'
    rwa [List.append_assoc, List.singleton_append] at next

theorem Matches.targets_nil {s s' : Status} {a b : CorrelatedStatus} (ha : Matches e s a)
    (hb : Matches e s' b) (message : a.messageId = b.messageId) (command : a.commandId = b.commandId)
    (none_ : a.targets = []) : b.targets = [] := by
  have key : (s.messageRef, s.commandRef) = (s'.messageRef, s'.commandRef) := by
    rw [← ha.messageId, ← ha.commandId, ← hb.messageId, ← hb.commandId, message, command]
  obtain ⟨message, command⟩ := Prod.mk.injEq .. ▸ key
  rcases hb.answers with ⟨-, -, -, -, targets⟩ | ⟨nonzero, c, request, -, -, subset, targets⟩
  · exact targets
  rcases ha.answers with ⟨zero, -⟩ | ⟨-, c', request', -, -, -, targets'⟩
  · exact absurd (command ▸ zero) nonzero
  rw [key, request] at request'
  cases request'
  have empty : c.targets = [] := by
    rw [targets'] at none_
    split at none_
    · exact none_
    · contradiction
  have refs : s'.targetRefs = [] := by
    rw [List.eq_nil_iff_forall_not_mem]
    intro t ht
    have := subset t ht
    rw [empty] at this
    cases this
  rw [targets, if_pos refs, empty]

end

def CorrelatedStatus.Covers (s : CorrelatedStatus) (messageId commandId : UInt32)
    (target : String) : Prop :=
  s.messageId = messageId ∧ s.commandId = commandId ∧ (s.targets = [] ∨ target ∈ s.targets)

def Answers (ms : List Message) (s : Status) (out : CorrelatedStatus) : Prop :=
  out.messageId = s.messageRef ∧ out.commandId = s.commandRef ∧ out.code = s.code ∧
    out.itemDetails = s.items ∧ ∃ m ∈ ms, m.header.messageId = s.messageRef ∧
      ((s.commandRef = 0 ∧ s.command = .syncHdr ∧ out.targets = []) ∨
        (s.commandRef ≠ 0 ∧ ∃ c ∈ m.flat, c.id = s.commandRef ∧ c.name = s.command ∧
          out.targets = if s.targetRefs = [] then c.targets else s.targetRefs))

def KnownReferences (ms : List Message) : Command → Prop
  | .results r =>
      (∃ m ∈ ms, m.header.messageId = r.key.1 ∧ ∃ c ∈ m.flat, c.id = r.key.2 ∧ c.name = .get) ∧
        ∀ i ∈ r.items, ∃ uri, i.source = some uri ∧
          (⟨r.key.1, r.key.2, uri⟩ : Reference) ∈ getReferences ms
  | .status s => s.sourceRefs = [] ∧ ∃ m ∈ ms, m.header.messageId = s.messageRef ∧
      ((s.commandRef = 0 ∧ s.targetRefs = []) ∨
        (s.commandRef ≠ 0 ∧ ∃ c ∈ m.flat, c.id = s.commandRef ∧ ∀ t ∈ s.targetRefs, t ∈ c.targets))
  | _ => False

variable {e : Expected} {ms : List Message}

theorem IsSnapshot.references {m : Message} {sent : SentMessage} (h : IsSnapshot m sent) :
    sent.commands.flatMap (SentCommand.references sent.id) = m.flat.flatMap (fun c =>
      if c.name = .get then c.targets.map (fun uri => ⟨m.header.messageId, c.id, uri⟩) else []) := by
  rw [h.1, h.2, List.flatMap_map]
  rfl

theorem snapshots_references {sents : List SentMessage} (h : List.Forall₂ IsSnapshot ms sents) :
    sents.flatMap (fun m => m.commands.flatMap (SentCommand.references m.id)) =
      getReferences ms := by
  induction h with
  | nil => rfl
  | cons head _ ih =>
    rw [List.flatMap_cons, ih, head.references]
    rfl

theorem Built.mem_references (built : Built e ms) (r : Reference) :
    r ∈ e.references ↔ r ∈ getReferences ms := by
  obtain ⟨indexed, snapshots⟩ := built.indexed
  rw [indexed.references r, ← snapshots_references snapshots]
  simp only [List.mem_flatMap]

theorem Built.recorded (built : Built e ms) {key : Key} {c : SentCommand}
    (h : Recorded e key c) : ∃ m ∈ ms, m.header.messageId = key.1 ∧
      ∃ c' ∈ m.flat, c'.id = key.2 ∧ c'.name = c.kind ∧ c'.targets = c.targets := by
  obtain ⟨sent, hsent, hc, rfl⟩ := h
  obtain ⟨m, hm, snapshot⟩ := exists_left_of_mem built.indexed.2 hsent
  rw [snapshot.2] at hc
  obtain ⟨c', hc', rfl⟩ := List.mem_map.mp hc
  exact ⟨m, hm, snapshot.1.symm, c', hc', rfl, rfl, rfl⟩

theorem Built.answers (built : Built e ms) {s : Status} {out : CorrelatedStatus}
    (h : Matches e s out) : Answers ms s out ∧ KnownReferences ms (.status s) := by
  rcases h.answers with ⟨zero, command, known, refs, targets⟩ |
    ⟨nonzero, c, -, recorded, kind, subset, targets⟩
  · obtain ⟨sent, hsent, id⟩ := built.indexed.1.ids _ known
    obtain ⟨m, hm, snapshot⟩ := exists_left_of_mem built.indexed.2 hsent
    have message : m.header.messageId = s.messageRef := snapshot.1 ▸ id
    exact ⟨⟨h.messageId, h.commandId, h.code, h.itemDetails, m, hm, message,
      .inl ⟨zero, command, targets⟩⟩, h.sources, m, hm, message, .inl ⟨zero, refs⟩⟩
  · obtain ⟨m, hm, message, c', hc', id, name, same⟩ := built.recorded recorded
    rw [← same] at targets subset
    exact ⟨⟨h.messageId, h.commandId, h.code, h.itemDetails, m, hm, message,
      .inr ⟨nonzero, c', hc', id, name.trans kind, targets⟩⟩, h.sources, m, hm, message,
      .inr ⟨nonzero, c', hc', id, subset⟩⟩

theorem Built.knownReferences (built : Built e ms) {c : Command} (h : KnownBy e c) :
    KnownReferences ms c := by
  cases c with
  | results =>
    obtain ⟨⟨request, recorded, get⟩, items⟩ := h
    obtain ⟨m, hm, message, c', hc', id, name, -⟩ := built.recorded recorded
    refine ⟨⟨m, hm, message, c', hc', id, name.trans get⟩, ?_⟩
    intro i hi
    obtain ⟨uri, source, mem⟩ := items i hi
    exact ⟨uri, source, (built.mem_references _).mp mem⟩
  | status =>
    obtain ⟨out, matched⟩ := h
    exact (built.answers matched).2
  | _ => exact h

/-- The checks after the loop: a header status first, and no value under a failure. -/
structure Settled (t : Tally) (out : Correlated) : Prop where
  eq : out = ⟨t.results, t.statuses, t.remaining.toList⟩
  header : ∃ s, t.statuses.head? = some s ∧ s.commandId = 0
  consistent : ∀ r ∈ t.results, ∀ s ∈ t.statuses, contradicts s r = false

theorem correlate_safe (d : Decoders) (indexed : Indexed e) (response : Message) (l : CodecLimits) :
    Safe (correlate d e response l)
      (fun out => ∃ t, Tallied e response.commands t ∧ Settled t out) := by
  unfold correlate
  refine .bind (P := fun _ => e.validate l = .ok ()) (.lift (fun _ h => h)) ?_
  intro _ valid
  refine .bind (P := fun _ => True) (.lift (fun _ _ => trivial)) ?_
  intro _ _
  split
  · rename_i empty
    simp [Expected.validate, guard_eq_ok, empty] at valid
  refine .guard (fun _ => ?_)
  have start : Tallied e [] ⟨e.references, [], [], ∅, ∅⟩ := by
    constructor <;> try constructor
    all_goals simp
  refine (correlateCommands_safe indexed start response.commands).bind ?_
  intro t tallied
  refine .guard (fun header => .guard (fun consistent => ?_))
  refine ⟨t, tallied, rfl, ?_, ?_⟩
  · cases hs : t.statuses.head? with
    | none => simp [hs] at header
    | some s => exact ⟨s, rfl, by simpa [hs] using header⟩
  · intro r hr s hs
    simp only [List.any_eq_true, not_exists, not_and, Bool.not_eq_true] at consistent
    exact consistent r hr s hs

theorem Tallied.nodup_accounts {done : List Command} {t : Tally} (tallied : Tallied e done t) :
    (t.results.map CorrelatedItem.reference ++ t.remaining.toList).Nodup := by
  refine List.nodup_append.mpr ⟨tallied.nodup, ?_, ?_⟩
  · refine Std.TreeSet.distinct_toList.imp ?_
    intro a b different eq
    exact different (eq ▸ Std.ReflCmp.compare_self)
  · intro a ha b hb eq
    exact tallied.apart a ha (eq ▸ Std.TreeSet.mem_toList.mp hb)

theorem Tallied.covers_once {done : List Command} {t : Tally} (tallied : Tallied e done t) :
    t.statuses.Pairwise (fun a b => ∀ messageId commandId target,
      ¬(a.Covers messageId commandId target ∧ b.Covers messageId commandId target)) := by
  refine tallied.once.imp_of_mem ?_
  rintro a b ha hb once messageId commandId target ⟨⟨rfl, rfl, hita⟩, message, command, hitb⟩
  have apart := once (by rw [message, command])
  obtain ⟨sa, -, ma⟩ := exists_left_of_mem tallied.statuses ha
  obtain ⟨sb, -, mb⟩ := exists_left_of_mem tallied.statuses hb
  by_cases none_ : a.targets = []
  · have none' := ma.targets_nil mb message.symm command.symm none_
    rw [none_, none'] at apart
    exact apart "" (by simp [coverEntries]) (by simp [coverEntries])
  · have some' : b.targets ≠ [] := fun eq => none_ (mb.targets_nil ma message command eq)
    rw [coverEntries, coverEntries, if_neg none_, if_neg some'] at apart
    exact apart target (hita.resolve_left none_) (hitb.resolve_left some')

/-- Correlation is exact: an accepted response accounts for every requested Get item once, as a
value or as missing, its statuses start with a header status and answer recorded commands of their
kind without overlap, and no value stands under a failure; an unknown reference is refused. -/
theorem correlation_exact (d : Decoders) {e : Expected} {ms : List Message} (built : Built e ms)
    (response : Message) (l : CodecLimits) :
    (∀ out, correlate d e response l = .ok out →
      out.results = response.commands.flatMap Command.reported ∧
      (out.results.map CorrelatedItem.reference ++ out.missingResults).Nodup ∧
      (∀ r, r ∈ out.results.map CorrelatedItem.reference ++ out.missingResults ↔
        r ∈ getReferences ms) ∧
      (∃ s, out.statuses.head? = some s ∧ s.commandId = 0) ∧
      List.Forall₂ (Answers ms) (response.commands.filterMap Command.status?) out.statuses ∧
      out.statuses.Pairwise (fun a b => ∀ messageId commandId target,
        ¬(a.Covers messageId commandId target ∧ b.Covers messageId commandId target)) ∧
      ∀ r ∈ out.results, ∀ s ∈ out.statuses, successful s.code = false →
        s.messageId = r.reference.messageId → s.commandId ≠ 0 ∧
          ¬s.Covers r.reference.messageId r.reference.commandId r.reference.uri) ∧
    ((∃ c ∈ response.commands, ¬KnownReferences ms c) →
      ∃ error, correlate d e response l = .error (.error error)) := by
  have safe := correlate_safe d built.indexed.1 response l
  constructor
  · intro out h
    obtain ⟨t, tallied, rfl, header, consistent⟩ := safe.of_eq_ok h
    refine ⟨tallied.results, tallied.nodup_accounts, ?_, header, ?_, tallied.covers_once, ?_⟩
    · intro r
      rw [← built.mem_references r, tallied.accounted r, mem_append, Std.TreeSet.mem_toList,
        or_comm]
    · exact tallied.statuses.imp (fun _ _ matched => (built.answers matched).1)
    · intro r hr s hs failed message
      have free := consistent r hr s hs
      simp only [contradicts, message, failed] at free
      constructor
      · intro zero
        simp [zero] at free
      · rintro ⟨-, command, hit⟩
        rcases hit with none_ | mem
        · simp [command, none_] at free
        · simp [command, mem] at free
  · rintro ⟨c, hc, unknown⟩
    rcases safe.returns with ⟨out, h⟩ | refused
    · obtain ⟨t, tallied, -⟩ := safe.of_eq_ok h
      exact absurd (built.knownReferences (tallied.known c hc)) unknown
    · exact refused

def sampleGet (uri : String) : Item := ⟨false, none, some uri, none, none⟩

/-- A server message that asks for two nodes. -/
def sampleSent : Message where
  header := ⟨7, 1, "device", "server", none, none⟩
  commands := [.get 2 none [sampleGet "./DevDetail/SwV", sampleGet "./DevDetail/FwV"]]
  finalMessage := true

def sampleResponse : Message where
  header := ⟨7, 2, "server", "device", none, none⟩
  commands :=
    [.status ⟨1, 1, 0, .syncHdr, [], [], 200, [], none, none⟩,
      .status ⟨2, 1, 2, .get, ["./DevDetail/SwV"], [], 200, [], none, none⟩,
      .results ⟨3, none, some 2, none, none,
        [⟨false, some "./DevDetail/SwV", none, none, some "10.0"⟩]⟩]
  finalMessage := true

def sampleSnapshot : SentMessage :=
  ⟨7, "server", "device", 1, [⟨2, .get, ["./DevDetail/SwV", "./DevDetail/FwV"]⟩]⟩

def sampleCorrelated : Correlated where
  results := [⟨⟨1, 2, "./DevDetail/SwV"⟩, "10.0", false, true⟩]
  statuses := [⟨1, 0, 200, [], []⟩, ⟨1, 2, 200, ["./DevDetail/SwV"], []⟩]
  missingResults := [⟨1, 2, "./DevDetail/FwV"⟩]

theorem correlation_exact_sample : ∃ e, Built e [sampleSent] ∧
    correlate ⟨fun _ => true, fun _ => none⟩ e sampleResponse .default = .ok sampleCorrelated ∧
    ∀ r, r ∈ sampleCorrelated.results.map CorrelatedItem.reference ++
        sampleCorrelated.missingResults ↔ r ∈ getReferences [sampleSent] := by
  have snapshot : sentSnapshot sampleSent .default = .ok sampleSnapshot := by decide
  have run : (Expected.new sampleSnapshot 2 .default).toOption.map
      (fun e => correlate ⟨fun _ => true, fun _ => none⟩ e sampleResponse .default) =
        some (.ok sampleCorrelated) := by decide
  cases created : Expected.new sampleSnapshot 2 .default with
  | error =>
    rw [created] at run
    cases run
  | ok e =>
    rw [created] at run
    have built : Built e [sampleSent] := .new snapshot created
    have accepted := Option.some.inj run
    exact ⟨e, built, accepted,
      ((correlation_exact _ built sampleResponse .default).1 _ accepted).2.2.1⟩

end RssMdm.WindowsMdm.Syncml
