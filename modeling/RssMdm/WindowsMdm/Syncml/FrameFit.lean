/- module: WindowsMdm/Syncml/FrameFit
   source: crates/windows-mdm/src/syncml/fragment.rs, crates/windows-mdm/src/syncml/correlation.rs,
     crates/windows-mdm/src/xml.rs
   digest: A frame with less of the data fits whenever one with more of it does. -/

import RssMdm.WindowsMdm.Syncml.Fragment

set_option autoImplicit false

namespace RssMdm.WindowsMdm.Xml

open Lib.Fallible Lib.Text
open List ( nil_prefix rel_append)

/-- The same calls with less text in them. -/
inductive Call.Shorter : Call → Call → Prop where
  | same (c : Call) : Shorter c c
  | check {v w : String} (h : v.toList <+: w.toList) (max : Nat) :
      Shorter (.check v max true) (.check w max true)
  | content {v w : String} (h : v.toList <+: w.toList) (max : Nat) :
      Shorter (.content v max) (.content w max)

theorem shorter_refl (calls : List Call) : List.Forall₂ Call.Shorter calls calls :=
  List.forall₂_same.mpr (fun c _ => .same c)

theorem utf8Len_mono {cs cs' : List Char} (h : cs <+: cs') : utf8Len cs ≤ utf8Len cs' := by
  obtain ⟨rest, rfl⟩ := h
  rw [utf8Len_append]
  exact Nat.le_add_right _ _

theorem text_mono {v w : String} (h : v.toList <+: w.toList) {max : Nat}
    (valid : text w max true = .ok ()) : text v max true = .ok () := by
  rw [text_eq_ok] at valid ⊢
  obtain ⟨size, -, legal⟩ := valid
  refine ⟨?_, nofun, ?_⟩
  · rw [utf8ByteSize_eq] at size ⊢
    exact Nat.le_trans (utf8Len_mono h) size
  · rw [List.all_eq_true] at legal ⊢
    intro c mem
    exact legal c (h.subset mem)

variable (l : CodecLimits)

structure Budget.Within (b b' : Budget) : Prop where
  events : b.events ≤ b'.events
  elements : b.elements = b'.elements
  depth : b.depth = b'.depth
  attrs : b.attrs = b'.attrs

/-- The same position in a document with less written before it. -/
structure Output.Within (o o' : Output) : Prop where
  written : utf8Len o.written ≤ utf8Len o'.written
  max : o.max = o'.max
  budget : o.budget.Within o'.budget
  bindings : o.bindings = o'.bindings
  active : o.active = o'.active
  commands : o.commands = o'.commands
  items : o.items = o'.items

variable {l} {b : Budget}

theorem Budget.Within.event {b' c' : Budget} (h : b.Within b') (spent : b'.event l = .ok c') :
    ∃ c, b.event l = .ok c ∧ c.Within c' ∧ b'.Within c' := by
  obtain ⟨room, rest⟩ := of_check spent
  cases rest
  have events := h.events
  have fits : bound (b.events + 1) l.events = .ok () :=
    bound_eq_ok.mpr (by have := bound_eq_ok.mp room; omega)
  refine ⟨{ b with events := b.events + 1 }, ?_, ?_, ?_⟩
  · rw [Budget.event, fits, ok_bind]
  · exact ⟨Nat.succ_le_succ events, h.elements, h.depth, h.attrs⟩
  · exact ⟨.step .refl, rfl, rfl, rfl⟩

theorem Budget.Within.trans {a c : Budget} (h : a.Within b) (h' : b.Within c) : a.Within c :=
  ⟨Nat.le_trans h.events h'.events, h.elements.trans h'.elements, h.depth.trans h'.depth,
    h.attrs.trans h'.attrs⟩

theorem Budget.Within.start {b' c' : Budget} (h : b.Within b') {attrs : Nat}
    (started : b'.start attrs l = .ok c') : ∃ c, b.start attrs l = .ok c ∧ c.Within c' := by
  obtain ⟨elements, rest⟩ := of_check started
  obtain ⟨depth, rest⟩ := of_check rest
  obtain ⟨own, rest⟩ := of_check rest
  obtain ⟨all, rest⟩ := of_check rest
  cases rest
  rw [← h.elements] at elements
  rw [← h.depth] at depth
  rw [← h.attrs] at all
  refine ⟨⟨b.events, b.elements + 1, b.depth + 1, b.attrs + attrs⟩, ?_, ?_⟩
  · rw [Budget.start, elements, ok_bind, depth, ok_bind, own, ok_bind, all, ok_bind]
  · refine ⟨h.events, ?_, ?_, ?_⟩
    · show b.elements + 1 = b'.elements + 1
      rw [h.elements]
    · show b.depth + 1 = b'.depth + 1
      rw [h.depth]
    · show b.attrs + attrs = b'.attrs + attrs
      rw [h.attrs]

theorem Budget.Within.contentEvents {cs cs' : List Char} (shorter : cs <+: cs') {run : Bool}
    {b' c' : Budget} (h : b.Within b') (counted : Output.contentEvents l run cs' b' = .ok c') :
    ∃ c, Output.contentEvents l run cs b = .ok c ∧ c.Within c' := by
  induction cs' generalizing cs run b b' with
  | nil =>
    cases List.prefix_nil.mp shorter
    cases counted
    exact ⟨b, rfl, h⟩
  | cons x rest' ih =>
    cases cs with
    | nil =>
      refine ⟨b, rfl, ?_⟩
      -- Nothing is left to write on the shorter side; the longer one only spends more.
      rw [Output.contentEvents] at counted
      split at counted
      · obtain ⟨b₁, spent, counted⟩ := of_bind counted
        obtain ⟨-, -, -, more⟩ := h.event spent
        obtain ⟨c, ⟨rfl⟩, within⟩ := ih nil_prefix (h.trans more) counted
        exact within
      · split at counted
        · obtain ⟨b₁, spent, counted⟩ := of_bind counted
          obtain ⟨-, -, -, more⟩ := h.event spent
          obtain ⟨c, ⟨rfl⟩, within⟩ := ih nil_prefix (h.trans more) counted
          exact within
        · obtain ⟨c, ⟨rfl⟩, within⟩ := ih nil_prefix h counted
          exact within
    | cons y rest =>
      obtain ⟨rfl, tails⟩ := List.cons_prefix_cons.mp shorter
      rw [Output.contentEvents] at counted ⊢
      split at counted
      · rename_i isSpecial
        obtain ⟨b₁, spent, counted⟩ := of_bind counted
        obtain ⟨b₂, spent', within, -⟩ := h.event spent
        rw [if_pos isSpecial, spent', ok_bind]
        exact ih tails within counted
      · rename_i plain
        rw [if_neg plain]
        split at counted
        · rename_i fresh
          obtain ⟨b₁, spent, counted⟩ := of_bind counted
          obtain ⟨b₂, spent', within, -⟩ := h.event spent
          rw [if_pos fresh, spent', ok_bind]
          exact ih tails within counted
        · rename_i inside
          rw [if_neg inside]
          exact ih tails h counted

variable {p' o o' : Output}

theorem Output.Within.write (h : o.Within o') {cs cs' : List Char}
    (shorter : utf8Len cs ≤ utf8Len cs') (written : o'.write cs' = .ok p') :
    ∃ p, o.write cs = .ok p ∧ p.Within p' := by
  obtain ⟨room, rest⟩ := of_guard written
  cases rest
  have less := h.written
  have max := h.max
  refine ⟨{ o with written := o.written ++ cs }, ?_, ?_⟩
  · rw [Output.write, if_neg (by omega)]
  · refine ⟨?_, h.max, h.budget, h.bindings, h.active, h.commands, h.items⟩
    show utf8Len (o.written ++ cs) ≤ utf8Len (o'.written ++ cs')
    rw [utf8Len_append, utf8Len_append]
    omega

variable (escape : Escape)

theorem content_eq (o : Output) (value : String) (max : Nat) :
    o.content escape l value max = (do
      text value max true
      let b ← Output.contentEvents l false value.toList o.budget
      Output.write { o with budget := b } (value.toList.flatMap escape)) := by
  unfold Output.content
  by_cases empty : value.toList.isEmpty = true
  · have none : value.toList = [] := List.isEmpty_iff.mp empty
    rw [if_pos empty, none]
    simp [Output.contentEvents, Output.write]
  · rw [if_neg empty]

theorem Output.Within.content (h : o.Within o') {v w : String} (shorter : v.toList <+: w.toList)
    {max : Nat} (performed : o'.content escape l w max = .ok p') :
    ∃ p, o.content escape l v max = .ok p ∧ p.Within p' := by
  rw [content_eq] at performed
  obtain ⟨valid, performed⟩ := of_check performed
  obtain ⟨b', counted, performed⟩ := of_bind performed
  obtain ⟨b, counted', spent⟩ := h.budget.contentEvents shorter counted
  have less : utf8Len (v.toList.flatMap escape) ≤ utf8Len (w.toList.flatMap escape) := by
    obtain ⟨rest, eq⟩ := shorter
    rw [← eq, List.flatMap_append]
    exact utf8Len_mono (List.prefix_append _ _)
  have placed : Output.Within { o with budget := b } { o' with budget := b' } :=
    ⟨h.written, h.max, spent, h.bindings, h.active, h.commands, h.items⟩
  obtain ⟨p, written, within⟩ := placed.write less performed
  refine ⟨p, ?_, within⟩
  rw [content_eq, text_mono shorter valid, ok_bind, counted', ok_bind, written]

theorem Output.Within.start (h : o.Within o') {name : String} {attrs : List (String × String)}
    (performed : o'.start escape l name attrs = .ok p') :
    ∃ p, o.start escape l name attrs = .ok p ∧ p.Within p' := by
  obtain ⟨b', spent, performed⟩ := of_bind performed
  obtain ⟨c', started, performed⟩ := of_bind performed
  obtain ⟨names, performed⟩ := of_check performed
  obtain ⟨texts, performed⟩ := of_check performed
  obtain ⟨b, spent', within, -⟩ := h.budget.event spent
  obtain ⟨c, started', within⟩ := within.start started
  rw [← h.active] at names
  have active := h.active
  have bindings := h.bindings
  have placed : Output.Within
      { o with budget := c, active := o.active + (attrs.filter (fun a => isXmlns a.1)).length
               bindings := (attrs.filter (fun a => isXmlns a.1)).length :: o.bindings }
      { o' with budget := c', active := o'.active + (attrs.filter (fun a => isXmlns a.1)).length
                bindings := (attrs.filter (fun a => isXmlns a.1)).length :: o'.bindings } := by
    refine ⟨h.written, h.max, within, ?_, ?_, h.commands, h.items⟩
    · simp only [bindings]
    · simp only [active]
  obtain ⟨p, written, within⟩ := placed.write (le_rfl) performed
  refine ⟨p, ?_, within⟩
  rw [Output.start, spent', ok_bind, started', ok_bind]
  simp only [names, texts, ok_bind]
  exact written

theorem Output.Within.close (h : o.Within o') {name : String}
    (performed : o'.close l name = .ok p') :
    ∃ p, o.close l name = .ok p ∧ p.Within p' := by
  obtain ⟨b', spent, performed⟩ := of_bind performed
  obtain ⟨nested, performed⟩ := of_guard performed
  obtain ⟨b, spent', within, -⟩ := h.budget.event spent
  have depth := within.depth
  have active := h.active
  cases bindings : o'.bindings with
  | nil =>
    rw [bindings] at performed
    cases performed
  | cons n rest =>
    rw [bindings] at performed
    have placed : Output.Within
        { o with budget := { b with depth := b.depth - 1 }, active := o.active - n, bindings := rest }
        { o' with budget := { b' with depth := b'.depth - 1 }, active := o'.active - n
                  bindings := rest } := by
      refine ⟨h.written, h.max, ⟨within.events, within.elements, ?_, within.attrs⟩, rfl, ?_,
        h.commands, h.items⟩
      · simp only [depth]
      · simp only [active]
    obtain ⟨p, written, within⟩ := placed.write (le_rfl) performed
    refine ⟨p, ?_, within⟩
    rw [Output.close, spent', ok_bind, if_neg (by rw [depth]; exact nested), h.bindings, bindings]
    exact written

theorem Output.Within.perform (h : o.Within o') {c c' : Call} (shorter : Call.Shorter c c')
    (performed : o'.perform escape l c' = .ok p') :
    ∃ p, o.perform escape l c = .ok p ∧ p.Within p' := by
  cases shorter with
  | check prefixes =>
    obtain ⟨valid, rest⟩ := of_check performed
    cases rest
    refine ⟨o, ?_, h⟩
    rw [Output.perform, text_mono prefixes valid, ok_bind]
  | content prefixes => exact h.content escape prefixes performed
  | same c =>
    cases c with
    | start => exact h.start escape performed
    | close => exact h.close performed
    | check =>
      obtain ⟨valid, rest⟩ := of_check performed
      cases rest
      refine ⟨o, ?_, h⟩
      rw [Output.perform, valid, ok_bind]
    | content => exact h.content escape (List.prefix_refl _) performed
    | item =>
      obtain ⟨room, rest⟩ := of_check performed
      cases rest
      have items := h.items
      rw [← items] at room
      refine ⟨{ o with items := o.items + 1 }, ?_, ⟨h.written, h.max, h.budget, h.bindings,
        h.active, h.commands, ?_⟩⟩
      · rw [Output.perform, room, ok_bind]
      · simp only [items]
    | command =>
      obtain ⟨room, rest⟩ := of_check performed
      cases rest
      have commands := h.commands
      rw [← commands] at room
      refine ⟨{ o with commands := o.commands + 1 }, ?_, ⟨h.written, h.max, h.budget, h.bindings,
        h.active, ?_, h.items⟩⟩
      · rw [Output.perform, room, ok_bind]
      · simp only [commands]

theorem Output.Within.run {calls calls' : List Call}
    (shorter : List.Forall₂ Call.Shorter calls calls') (h : o.Within o')
    (performed : o'.run escape l calls' = .ok p') :
    ∃ p, o.run escape l calls = .ok p ∧ p.Within p' := by
  induction shorter generalizing o o' with
  | nil =>
    cases performed
    exact ⟨o, rfl, h⟩
  | cons head _ ih =>
    obtain ⟨o₁', first, rest⟩ := of_bind performed
    obtain ⟨o₁, first', within⟩ := h.perform escape head first
    obtain ⟨p, rest', within⟩ := ih within rest
    refine ⟨p, ?_, within⟩
    rw [Output.run, first', ok_bind, rest']

theorem Output.Within.finish (h : o.Within o') {document : List Char}
    (finished : o'.finish l = .ok document) : ∃ document', o.finish l = .ok document' := by
  obtain ⟨b, spent, rest⟩ := of_bind finished
  obtain ⟨closed, -⟩ := of_guard rest
  obtain ⟨c, spent', within, -⟩ := h.budget.event spent
  refine ⟨o.written, ?_⟩
  rw [Output.finish, spent', ok_bind, if_neg (by rw [within.depth]; exact closed)]

end RssMdm.WindowsMdm.Xml

namespace RssMdm.WindowsMdm.Syncml

open Lib.Fallible
open WindowsMdm.Xml (Call Escape Output shorter_refl text_mono)

structure Item.Shorter (i j : Item) : Prop where
  moreData : i.moreData = j.moreData
  source : i.source = j.source
  target : i.target = j.target
  metaInfo : i.metaInfo = j.metaInfo
  data : ∃ v w, i.data = some v ∧ j.data = some w ∧ v.toList <+: w.toList

inductive Command.Shorter : Command → Command → Prop where
  | same (c : Command) : Shorter c c
  | add (id : UInt32) (m : Option Meta) {i j : Item} (h : i.Shorter j) :
      Shorter (.add id m [i]) (.add id m [j])
  | replace (id : UInt32) (m : Option Meta) {i j : Item} (h : i.Shorter j) :
      Shorter (.replace id m [i]) (.replace id m [j])

namespace Command.Shorter

variable {c c' : Command}

theorem size_eq (h : Command.Shorter c c') : c.size = c'.size := by
  cases h <;> rfl

theorem id_eq (h : Command.Shorter c c') : c.id = c'.id := by
  cases h <;> rfl

theorem initializes (h : Command.Shorter c c') : c.initializes = c'.initializes := by
  cases h <;> rfl

theorem receipts_eq (h : Command.Shorter c c') : receipts c = receipts c' := by
  cases h <;> rfl

theorem targets_eq {i j : Item} (h : i.Shorter j) : itemTargets [i] = itemTargets [j] := by
  simp only [itemTargets, List.filterMap_cons, h.target]

end Command.Shorter

/-- The same entry of the flattening stack with less data. -/
structure Pending.Shorter (p q : Pending) : Prop where
  command : Command.Shorter p.command q.command
  depth : p.depth = q.depth
  atomic : p.atomic = q.atomic

theorem flattenVisit_shorter {p q : Pending} (h : p.Shorter q) (additions : List (UInt32 × String)) :
    flattenVisit p additions = flattenVisit q additions := by
  obtain ⟨c, depth, atomic⟩ := p
  obtain ⟨c', depth', atomic'⟩ := q
  obtain ⟨command, rfl, rfl⟩ := h
  cases command with
  | same => rfl
  | add _ _ h | replace _ _ h => simp only [flattenVisit, Command.Shorter.targets_eq h]

theorem children_shorter {p q : Pending} (h : p.Shorter q) :
    List.Forall₂ Pending.Shorter p.children q.children := by
  obtain ⟨c, depth, atomic⟩ := p
  obtain ⟨c', depth', atomic'⟩ := q
  obtain ⟨command, rfl, rfl⟩ := h
  cases command with
  | same => exact List.forall₂_same.mpr (fun p _ => ⟨.same _, rfl, rfl⟩)
  | add | replace => exact .nil

variable {flat' : List Command} {l : CodecLimits}

theorem flattenLoop_shorter {fuel : Nat} {pending pending' : List Pending}
    (stack : List.Forall₂ Pending.Shorter pending pending') {output output' : List Command}
    (done : List.Forall₂ Command.Shorter output output') {additions : List (UInt32 × String)}
    (h : flattenLoop l fuel pending' output' additions = .ok flat') :
    ∃ flat, flattenLoop l fuel pending output additions = .ok flat ∧
      List.Forall₂ Command.Shorter flat flat' := by
  induction fuel generalizing pending pending' output output' additions with
  | zero =>
    cases stack with
    | nil =>
      cases h
      exact ⟨output, rfl, done⟩
    | cons => cases h
  | succ _ ih =>
    cases stack with
    | nil =>
      cases h
      exact ⟨output, rfl, done⟩
    | @cons p q _ _ head tail =>
      have children := children_shorter head
      have count : p.command.children.length = q.command.children.length := by
        simpa [Pending.children] using children.length_eq
      obtain ⟨depth, h⟩ := of_check h
      obtain ⟨room, h⟩ := of_check h
      obtain ⟨additions', visited, h⟩ := of_bind h
      obtain ⟨after, h⟩ := of_check h
      rw [← head.depth] at depth
      rw [← done.length_eq, ← tail.length_eq] at room
      rw [← done.length_eq, ← tail.length_eq, ← count] at after
      obtain ⟨flat, result, related⟩ := ih (List.rel_append children tail)
        (List.rel_append done (.cons head.command .nil)) h
      refine ⟨flat, ?_, related⟩
      rw [flattenLoop, depth, ok_bind, room, ok_bind, flattenVisit_shorter head, visited, ok_bind,
        after, ok_bind]
      exact result

variable {commands commands' : List Command}

theorem forestSize_shorter (h : List.Forall₂ Command.Shorter commands commands') :
    forestSize commands = forestSize commands' := by
  induction h with
  | nil => rfl
  | cons head _ ih => rw [forestSize, forestSize, head.size_eq, ih]

theorem flattened_shorter (shorter : List.Forall₂ Command.Shorter commands commands')
    (h : flattened commands' l = .ok flat') :
    ∃ flat, flattened commands l = .ok flat ∧ List.Forall₂ Command.Shorter flat flat' := by
  obtain ⟨room, h⟩ := of_check h
  have stack : List.Forall₂ Pending.Shorter (commands.map (fun c => ⟨c, 0, none⟩))
      (commands'.map (fun c => ⟨c, 0, none⟩)) := by
    rw [List.forall₂_map_left_iff, List.forall₂_map_right_iff]
    exact shorter.imp (fun c c' h => ⟨h, rfl, rfl⟩)
  obtain ⟨flat, result, related⟩ := flattenLoop_shorter stack .nil h
  rw [← shorter.length_eq] at room
  rw [← forestSize_shorter shorter] at result
  refine ⟨flat, ?_, related⟩
  rw [flattened, room, ok_bind, result]

theorem addReceipts_shorter {flat : List Command} (h : List.Forall₂ Command.Shorter flat flat')
    (counted : Nat × Nat) :
    flat.foldlM (addReceipts l) counted = flat'.foldlM (addReceipts l) counted := by
  induction h generalizing counted with
  | nil => rfl
  | @cons c c' _ _ head _ ih =>
    have same : addReceipts l counted c = addReceipts l counted c' := by
      rw [addReceipts, addReceipts, head.receipts_eq]
    rw [List.foldlM_cons, List.foldlM_cons, same]
    cases addReceipts l counted c' with
    | error => rfl
    | ok counted => exact ih counted

section

variable {d : Decoders} {l : CodecLimits}

theorem mutationUri_shorter {i j : Item} (h : i.Shorter j) : mutationUri l i = mutationUri l j := by
  rw [mutationUri, mutationUri, h.target, h.source]

theorem mutationPayload_shorter {k : Mutation} {i j : Item} (h : i.Shorter j)
    (valid : mutationPayload l k j = .ok ()) : mutationPayload l k i = .ok () := by
  obtain ⟨v, w, data, data', shorter⟩ := h.data
  unfold mutationPayload at valid ⊢
  obtain ⟨metaInfo, valid⟩ := of_check valid
  rw [h.metaInfo, metaInfo, ok_bind]
  simp only [h.moreData, data, data', Option.isNone_some, Option.isSome_some, Option.toList_some] at valid ⊢
  obtain ⟨more, valid⟩ := of_guard valid
  obtain ⟨kind, valid⟩ := of_guard valid
  rw [if_neg more, if_neg kind]
  rw [each_eq_ok] at valid ⊢
  intro value mem
  cases List.mem_singleton.mp mem
  exact text_mono shorter (valid w (.head _))

theorem validateMutation_shorter {k : Mutation} {i j : Item} (h : i.Shorter j)
    (valid : validateMutation k [j] l = .ok ()) : validateMutation k [i] l = .ok () := by
  unfold validateMutation at valid ⊢
  obtain ⟨room, valid⟩ := of_check valid
  have room : bound [i].length l.items = .ok () := room
  rw [room, ok_bind]
  unfold eachFresh at valid ⊢
  rw [mutationUri_shorter h]
  obtain ⟨uri, addressed, valid⟩ := of_bind valid
  rw [addressed, ok_bind]
  split at valid
  · cases valid
  rename_i fresh
  obtain ⟨body, valid⟩ := of_check valid
  rw [if_neg fresh, mutationPayload_shorter h body, ok_bind]
  exact valid

theorem validateCommand_shorter {c c' : Command} (h : Command.Shorter c c') {n : Nat}
    (valid : validateCommand d l c' = .ok n) : validateCommand d l c = .ok n := by
  cases h with
  | same => exact valid
  | add _ _ h | replace _ _ h =>
    obtain ⟨metaInfo, valid⟩ := of_check valid
    obtain ⟨items, valid⟩ := of_check valid
    rw [validateCommand, validateMutating, metaInfo, ok_bind, validateMutation_shorter h items,
      ok_bind]
    exact valid

theorem bodyLoop_shorter {flat : List Command} (h : List.Forall₂ Command.Shorter flat flat')
    {ids : List UInt32} {count : Nat} (valid : bodyLoop d l ids count flat' = .ok ()) :
    bodyLoop d l ids count flat = .ok () := by
  induction h generalizing ids count with
  | nil => rfl
  | cons head _ ih =>
    rw [bodyLoop] at valid ⊢
    rw [head.id_eq]
    obtain ⟨named, valid⟩ := of_guard valid
    obtain ⟨fresh, valid⟩ := of_guard valid
    obtain ⟨n, command, valid⟩ := of_bind valid
    obtain ⟨room, valid⟩ := of_check valid
    rw [if_neg named, if_neg fresh, validateCommand_shorter head command, ok_bind, room, ok_bind]
    exact ih valid

/-- A mutation is no part of an initialization package. -/
def Command.mutates : Command → Bool
  | .add _ _ _ => true
  | .replace _ _ _ => true
  | _ => false

variable {commands : List Command}

attribute [local simp] Command.mutates

theorem not_mutates (h : (unenrolling commands || initiating commands) = true) :
    ∀ c ∈ commands, c.mutates = false := by
  rcases Bool.or_eq_true_iff.mp h with h | h
  · unfold unenrolling at h
    split at h
    · simp
    · simp
    · cases h
  · unfold initiating at h
    split at h
    · simp
    · simp
    · simp
    · simp
    · cases h

theorem validateInitialization_mutates {c : Command} (mem : c ∈ commands)
    (mutates : c.mutates = true) (finalMessage : Bool) :
    validateInitialization commands finalMessage ≠ .ok () := by
  intro valid
  obtain ⟨-, valid⟩ := of_check valid
  obtain ⟨shape, -⟩ := of_guard valid
  have package : (unenrolling (commands.filter (fun c => !c.isStatus && !initializationCompanion c)) ||
      initiating (commands.filter (fun c => !c.isStatus && !initializationCompanion c))) = true := by
    rw [Bool.or_eq_true, not_or, Bool.not_eq_true, Bool.not_eq_false'] at shape
    exact shape.1
  have kept : c ∈ commands.filter (fun c => !c.isStatus && !initializationCompanion c) := by
    refine List.mem_filter.mpr ⟨mem, ?_⟩
    cases c <;> first | rfl | cases mutates
  rw [not_mutates package c kept] at mutates
  cases mutates

end

variable {d : Decoders} {l : CodecLimits}

/-- Two frames with the same envelope and parts of one object, neither of them final. -/
structure Message.Shorter (m m' : Message) : Prop where
  header : m.header = m'.header
  unfinished : m.finalMessage = false
  unfinished' : m'.finalMessage = false
  commands : ∃ before c c', m.commands = before ++ [c] ∧ m'.commands = before ++ [c'] ∧
    Command.Shorter c c' ∧ c'.mutates = true

variable {m' m : Message}

theorem Message.Shorter.forall₂ (h : m.Shorter m') :
    List.Forall₂ Command.Shorter m.commands m'.commands := by
  obtain ⟨before, c, c', eq, eq', shorter, -⟩ := h.commands
  rw [eq, eq']
  exact List.rel_append (List.forall₂_same.mpr (fun c _ => .same c)) (.cons shorter .nil)

theorem validateBody_shorter (h : m.Shorter m')
    (valid : validateBody d m'.commands m'.finalMessage l = .ok ()) :
    validateBody d m.commands m.finalMessage l = .ok () := by
  have related := h.forall₂
  unfold validateBody at valid ⊢
  obtain ⟨room, valid⟩ := of_check valid
  obtain ⟨-, valid⟩ := of_guard valid
  obtain ⟨flat', flattens, valid⟩ := of_bind valid
  obtain ⟨loop, valid⟩ := of_check valid
  obtain ⟨flat, flattens', parts⟩ := flattened_shorter related flattens
  have starts : flat.any Command.initializes = flat'.any Command.initializes :=
    any_congr (fun c c' h => h.initializes) parts
  have some : ¬m.commands.isEmpty = true := by
    obtain ⟨before, c, c', eq, -⟩ := h.commands
    rw [eq]
    simp
  rw [← related.length_eq] at room
  rw [room, ok_bind, if_neg some, flattens', ok_bind, bodyLoop_shorter parts loop, ok_bind, starts]
  split at valid
  · obtain ⟨before, c, c', eq, eq', shorter, mutates⟩ := h.commands
    exact absurd valid (validateInitialization_mutates (eq' ▸ List.mem_append_right _
      List.mem_cons_self) mutates _)
  · rename_i none
    rw [if_neg none]

theorem validate_shorter (h : m.Shorter m') (valid : validate d m' l = .ok ()) :
    validate d m l = .ok () := by
  unfold validate at valid ⊢
  obtain ⟨identified, valid⟩ := of_guard valid
  obtain ⟨target, valid⟩ := of_check valid
  obtain ⟨source, valid⟩ := of_check valid
  obtain ⟨metaInfo, valid⟩ := of_check valid
  obtain ⟨credential, valid⟩ := of_check valid
  obtain ⟨-, valid⟩ := of_check valid
  have final : validateFinal m l = .ok () := by
    rw [validateFinal, h.unfinished, if_neg Bool.false_ne_true]
  rw [h.header, if_neg identified, target, ok_bind, source, ok_bind, metaInfo, ok_bind, credential,
    ok_bind, final, ok_bind, validateBody_shorter h valid]

theorem writeCommands_append (a b : List Command) :
    writeCommands l (a ++ b) = writeCommands l a ++ writeCommands l b := by
  induction a with
  | nil => rfl
  | cons _ _ ih => rw [List.cons_append, writeCommands, writeCommands, ih, List.append_assoc]

theorem writeItem_shorter {i j : Item} (h : i.Shorter j) :
    List.Forall₂ Call.Shorter (writeItem l i) (writeItem l j) := by
  obtain ⟨v, w, data, data', shorter⟩ := h.data
  have written : List.Forall₂ Call.Shorter (writeData l i.data) (writeData l j.data) := by
    rw [data, data', writeData, writeData, Option.toList_some, Option.toList_some,
      List.flatMap_singleton, List.flatMap_singleton]
    exact .cons (.check shorter _) (.cons (.same _) (.cons (.content shorter _) (.cons (.same _) .nil)))
  unfold writeItem
  rw [h.target, h.source, h.metaInfo, h.moreData]
  refine .cons (.same _) (.cons (.same _) ?_)
  refine List.rel_append (shorter_refl _) (List.rel_append (shorter_refl _)
    (List.rel_append (shorter_refl _) (List.rel_append written (shorter_refl _))))

theorem writeItems_shorter {i j : Item} (h : i.Shorter j) :
    List.Forall₂ Call.Shorter (writeItems l [i]) (writeItems l [j]) := by
  rw [writeItems, writeItems, List.flatMap_singleton, List.flatMap_singleton]
  exact writeItem_shorter h

theorem framed_shorter {c c' : Command} {body body' : List Call} (id : c.id = c'.id)
    (element : c.element = c'.element) (h : List.Forall₂ Call.Shorter body body') :
    List.Forall₂ Call.Shorter (framed l c body) (framed l c' body') := by
  unfold framed
  rw [id, element]
  refine .cons (.same _) (.cons (.same _) ?_)
  exact List.rel_append (shorter_refl _) (List.rel_append h (shorter_refl _))

theorem writeCommand_shorter {c c' : Command} (h : Command.Shorter c c') :
    List.Forall₂ Call.Shorter (writeCommand l c) (writeCommand l c') := by
  cases h with
  | same => exact shorter_refl _
  | add _ _ h | replace _ _ h =>
    exact framed_shorter rfl rfl (List.rel_append (shorter_refl _) (writeItems_shorter h))

theorem writeMessage_shorter (h : m.Shorter m') :
    List.Forall₂ Call.Shorter (writeMessage l m) (writeMessage l m') := by
  obtain ⟨before, c, c', eq, eq', shorter, -⟩ := h.commands
  have commands : List.Forall₂ Call.Shorter (writeCommands l m.commands)
      (writeCommands l m'.commands) := by
    rw [eq, eq', writeCommands_append, writeCommands_append]
    refine List.rel_append (shorter_refl _) ?_
    exact List.rel_append (writeCommand_shorter shorter) (shorter_refl _)
  unfold writeMessage
  rw [h.header, h.unfinished, h.unfinished']
  refine .cons (.same _) (List.rel_append (shorter_refl _) (.cons (.same _) ?_))
  exact List.rel_append commands (shorter_refl _)

theorem encodeOutbound_shorter {escape : Escape} (h : m.Shorter m') {bytes' : ByteArray}
    (encoded : encodeOutbound escape d m' l = .ok bytes') :
    ∃ bytes, encodeOutbound escape d m l = .ok bytes := by
  obtain ⟨flat', flattens, encoded⟩ := of_bind encoded
  obtain ⟨counted, receipts, encoded⟩ := of_bind encoded
  obtain ⟨valid, encoded⟩ := of_check encoded
  obtain ⟨o', written, encoded⟩ := of_bind encoded
  obtain ⟨document, finished, -⟩ := of_bind encoded
  obtain ⟨flat, flattens', parts⟩ := flattened_shorter h.forall₂ flattens
  have start : (Output.new l.syncmlBytes).Within (Output.new l.syncmlBytes) :=
    ⟨le_rfl, rfl, ⟨le_rfl, rfl, rfl, rfl⟩, rfl, rfl, rfl, rfl⟩
  obtain ⟨o, written', within⟩ := start.run escape (writeMessage_shorter h) written
  obtain ⟨document', finished'⟩ := within.finish finished
  refine ⟨(String.ofList document').toByteArray, ?_⟩
  rw [encodeOutbound, flattens', ok_bind, addReceipts_shorter parts, receipts, ok_bind, encode,
    validate_shorter h valid, ok_bind, written', ok_bind, finished', ok_bind]

end RssMdm.WindowsMdm.Syncml
