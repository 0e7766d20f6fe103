/- module: WindowsMdm/Syncml/RoundTrip
   source: crates/windows-mdm/src/syncml.rs
   digest: When an encoded message decodes to itself. -/

import RssMdm.WindowsMdm.Syncml.Balance
import RssMdm.WindowsMdm.Syncml.CommandReadBack

set_option autoImplicit false

namespace RssMdm.WindowsMdm.Syncml

open Lib.Fallible Lib.Outcome Lib.Text
open WindowsMdm.Xml

section

variable {l : CodecLimits} {fuel : Nat}

def commandElements : List (String × String) :=
  ["Atomic", "Sequence", "Get", "Status", "Results", "Alert", "Add", "Exec", "Delete",
    "Replace"].map (fun name => (NS, name))

variable {A : List (String × String)} {name : String}

theorem choose_feeds {α : Type} {alternatives : List (String × Parser α)} {read : Parser α}
    {calls : List Call} {good : Bool} {a : α} (otherwise : Parser α)
    (found : alternatives.find? (fun x => x.1 = name) = some (name, read))
    (next : ∀ rest, upcoming NS (calls ++ rest) = some (some (NS, name)))
    (h : Feeds l fuel NS 0 read calls A good a) :
    Feeds l fuel NS 0 (choose l fuel alternatives otherwise) calls A good a := by
  induction alternatives with
  | nil => cases found
  | cons x alternatives ih =>
    obtain ⟨other, read'⟩ := x
    by_cases same : other = name
    · rw [List.find?_cons_of_pos (by simpa using same)] at found
      cases found
      exact .is_true next h
    rw [List.find?_cons_of_neg (by simpa using same)] at found
    refine .is_false (fun rest _ => differs_element (next rest) ?_) (ih found)
    intro eq
    cases eq
    exact same rfl

theorem find_map_reader {α β : Type} {alternatives : List (String × Parser α)} {read : Parser α}
    (f : α → β) (found : alternatives.find? (fun x => x.1 = name) = some (name, read)) :
    (alternatives.map (fun x => (x.1, x.2 >>= fun a => pure (f a)))).find? (fun x => x.1 = name) =
      some (name, read >>= fun a => pure (f a)) := by
  rw [List.find?_map]
  have same : ((fun x : String × Parser β => decide (x.1 = name)) ∘
      fun x : String × Parser α => (x.1, x.2 >>= fun a => pure (f a))) =
        fun x => decide (x.1 = name) := rfl
  rw [same, found]
  rfl

theorem choose_none_feeds {α : Type} {alternatives : List (String × Parser α)}
    {otherwise : Parser α} {good : Bool} {a : α} (avoided : ∀ x ∈ alternatives, (NS, x.1) ∈ A)
    (h : Feeds l fuel NS 0 otherwise [] A good a) :
    Feeds l fuel NS 0 (choose l fuel alternatives otherwise) [] A good a := by
  induction alternatives with
  | nil => exact h
  | cons x _ ih =>
    refine .is_false ?_ (ih (fun y hy => avoided y (.tail _ hy)))
    intro rest follows
    exact differs_of_mem follows (avoided x (.head _))

theorem upcoming_command (c : Command) (rest : List Call) :
    upcoming NS (writeCommand l c ++ rest) = some (some (NS, c.element)) := by
  cases c <;> rfl

/-- What a checked message says about one of its commands. -/
structure Sound (d : Decoders) (l : CodecLimits) (x : Command × Nat × Option UInt32) : Prop where
  placed : Placed l x
  id_ne_zero : x.1.id ≠ 0
  valid : ∃ n, validateCommand d l x.1 = .ok n

variable {commands : List Command} {d : Decoders}

theorem bodyLoop_valid {ids : List UInt32} {count : Nat}
    (h : bodyLoop d l ids count commands = .ok ()) :
    ∀ c ∈ commands, c.id ≠ 0 ∧ ∃ n, validateCommand d l c = .ok n := by
  induction commands generalizing ids count with
  | nil => simp
  | cons _ _ ih =>
    rw [bodyLoop, guard_eq_ok, guard_eq_ok] at h
    obtain ⟨nonzero, -, h⟩ := h
    obtain ⟨n, valid, h⟩ := of_bind h
    obtain ⟨-, h⟩ := of_check h
    intro c' mem
    rcases List.mem_cons.mp mem with rfl | mem
    · exact ⟨nonzero, n, valid⟩
    · exact ih h c' mem

theorem validateBody_sound {finalMessage : Bool}
    (h : validateBody d commands finalMessage l = .ok ()) :
    ∀ x ∈ preorderForest 0 none commands, Sound d l x := by
  obtain ⟨-, h⟩ := of_check h
  rw [guard_eq_ok] at h
  obtain ⟨flat, flattened, h⟩ := of_bind h.2
  obtain ⟨body, -⟩ := of_check h
  obtain ⟨rfl, placed⟩ := flattened_eq_ok flattened
  intro x hx
  have checked := bodyLoop_valid body x.1 (List.mem_map_of_mem hx)
  exact ⟨placed x hx, checked.1, checked.2⟩

theorem Command.mem_preorder (c : Command) (depth : Nat) (atomic : Option UInt32) :
    (c, depth, atomic) ∈ c.preorder depth atomic := by
  cases c <;> exact .head _

variable {depth : Nat} {atomic : Option UInt32}

theorem readable_of_nested (deep : depth ≠ 0)
    (sound : ∀ x ∈ preorderForest depth atomic commands, Sound d l x) :
    commands.all Command.readable = true := by
  induction commands with
  | nil => rfl
  | cons c _ ih =>
    have later := ih (fun x hx => sound x (List.mem_append_right _ hx))
    rw [List.all_cons, later, Bool.and_true]
    have here := (sound _ (List.mem_append_left _ (c.mem_preorder depth atomic))).placed
    cases c with
    | alert =>
      obtain ⟨before, after, visit⟩ := here.visited
      simp [flattenVisit, deep] at visit
    | _ => rfl

variable {members : Parser (List Command)}

theorem group_feeds {id : UInt32} {build : UInt32 → List Command → Command} (hid : id ≠ 0)
    (h : Feeds l fuel NS 0 members (writeCommands l commands) commandElements true commands)
    (A : List (String × String)) :
    Feeds l fuel NS 0 (readGroup l fuel name build members)
      (.command :: .start name [] :: (writeNum l "CmdID" id ++ (writeCommands l commands ++
        [.close name]))) A true (build id commands) := by
  refine .command (.enter (.seq (nonzero_num_feeds "CmdID" hid []) (.seq h
    (.close (.pure A (build id commands))) ?_) (fun _ _ => rfl)))
  intro rest _
  exact follows_closing rfl

theorem command_feeds {c : Command} (sound : ∀ x ∈ c.preorder depth atomic, Sound d l x)
    (hmembers : ∀ atomic, c.children ≠ [] →
      (∀ x ∈ preorderForest (depth + 1) atomic c.children, Sound d l x) →
      Feeds l fuel NS 0 members (writeCommands l c.children) commandElements (c.children.all Command.readable) c.children) :
    ∃ read, (commandReaders l fuel d members).find? (fun x => x.1 = c.element) =
        some (c.element, read) ∧
      Feeds l fuel NS 0 read (writeCommand l c) [] c.readable c := by
  have here := sound _ (c.mem_preorder depth atomic)
  obtain ⟨n, valid⟩ := here.valid
  obtain ⟨before, after, visit⟩ := here.placed.visited
  have nested : ∀ {id : Option UInt32}, c.children ≠ [] →
      (∀ x ∈ preorderForest (depth + 1) id c.children, Sound d l x) →
        Feeds l fuel NS 0 members (writeCommands l c.children) commandElements true c.children := by
    intro id nonempty below
    exact (hmembers id nonempty below).cast rfl (readable_of_nested (Nat.succ_ne_zero depth) below)
      rfl
  cases c with
  | atomic _ commands | sequence _ commands =>
    have nonempty : commands ≠ [] := by
      rintro rfl
      cases visit
    have below := nested nonempty (fun x hx => sound x (.tail _ hx))
    exact ⟨_, rfl, group_feeds here.id_ne_zero below []⟩
  | _ => exact leaf_feeds rfl here.id_ne_zero valid members []

theorem commandsLoop_feeds {n : Nat} (rounds : forestSize commands < n)
    (sound : ∀ x ∈ preorderForest depth atomic commands, Sound d l x) :
    Feeds l fuel NS 0 (commandsLoop l fuel d n depth) (writeCommands l commands) commandElements
      (commands.all Command.readable) commands := by
  induction n generalizing commands depth atomic with
  | zero => cases rounds
  | succ n ih =>
    cases commands with
    | nil =>
      refine .seq (choose_none_feeds ?_ (.pure commandElements none))
        (.pure _ []) (fun _ h => h)
      simp [commandReaders, commandElements]
    | cons c rest =>
      rw [forestSize] at rounds
      have smaller : forestSize c.children < c.size := by
        cases c <;> simp [Command.children, Command.size, forestSize]
      have later := ih (by omega) (fun x hx => sound x (List.mem_append_right _ hx))
      have members : ∀ id, c.children ≠ [] →
          (∀ x ∈ preorderForest (depth + 1) id c.children, Sound d l x) →
          Feeds l fuel NS 0 (do
            Xml.lift (bound (depth + 1) (min l.depth 32))
            commandsLoop l fuel d n (depth + 1)) (writeCommands l c.children) commandElements
            (c.children.all Command.readable) c.children := by
        intro id nonempty below
        obtain ⟨first, others, eq⟩ := List.exists_cons_of_ne_nil nonempty
        have room : depth + 1 ≤ min l.depth 32 := by
          refine (below (first, depth + 1, id) ?_).placed.depth_le
          rw [eq, preorderForest]
          exact List.mem_append_left _ (first.mem_preorder _ _)
        exact .lift (bound_eq_ok.mpr room) (ih (by omega) below)
      obtain ⟨read, found, fed⟩ :=
        command_feeds (fun x hx => sound x (List.mem_append_left _ hx)) members
      have wrapped : Feeds l fuel NS 0 (read >>= fun c => pure (some c)) (writeCommand l c) []
          c.readable (some c) := (Feeds.bind fed (Feeds.pure [] (some c)) (fun _ _ => rfl)).cast
        (List.append_nil _) (Bool.and_true _) rfl
      have here := choose_feeds (pure none) (find_map_reader some found) (upcoming_command c) wrapped
      refine (Feeds.bind here (Feeds.bind later (Feeds.pure commandElements (c :: rest))
        (fun _ h => h)) (fun _ _ => rfl)).cast ?_ ?_ rfl
      · simp [writeCommands]
      · simp

mutual

theorem tokenCount_command (c : Command) : c.size ≤ tokenCount (writeCommand l c) := by
  cases c with
  | atomic _ commands | sequence _ commands =>
    have below := tokenCount_commands commands
    simp only [writeCommand, framed, tokenCount, tokenCount_append, Command.size]
    omega
  | _ =>
    simp only [writeCommand, framed, tokenCount, Command.size]
    omega

theorem tokenCount_commands (commands : List Command) :
    forestSize commands ≤ tokenCount (writeCommands l commands) := by
  cases commands with
  | nil => exact Nat.le_refl 0
  | cons c rest =>
    have here := tokenCount_command c
    have later := tokenCount_commands rest
    simp only [writeCommands, tokenCount_append, forestSize]
    omega

end

theorem readCommands_feeds (sound : ∀ x ∈ preorderForest 0 none commands, Sound d l x) :
    Feeds l fuel NS 0 (readCommands l fuel d 0) (writeCommands l commands) commandElements
      (commands.all Command.readable) commands := by
  apply Feeds.rounds
  intro rounds
  refine .lift (bound_eq_ok.mpr (Nat.zero_le _)) (commandsLoop_feeds ?_ sound)
  exact Nat.lt_of_le_of_lt (tokenCount_commands commands) rounds

end

section

variable {l : CodecLimits} {fuel : Nat}

structure Message.Sound (d : Decoders) (l : CodecLimits) (m : Message) : Prop where
  sessionId : m.header.sessionId ≠ 0
  messageId : m.header.messageId ≠ 0
  metaInfo : m.header.metaInfo.all Meta.readable = true
  credential : m.header.credential.all (fun c => c.metaInfo.readable) = true
  commands : ∀ x ∈ preorderForest 0 none m.commands, Syncml.Sound d l x

variable {m : Message} {d : Decoders}

theorem validate_sound (h : validate d m l = .ok ()) : m.Sound d l := by
  rw [validate, guard_eq_ok] at h
  obtain ⟨numbers, h⟩ := h
  simp only [Bool.or_eq_true, decide_eq_true_eq, not_or] at numbers
  obtain ⟨-, h⟩ := of_check h
  obtain ⟨-, h⟩ := of_check h
  obtain ⟨metaInfo, h⟩ := of_check h
  obtain ⟨credential, h⟩ := of_check h
  obtain ⟨-, body⟩ := of_check h
  exact ⟨numbers.1.1, numbers.2, readable_of_valid metaInfo, credential_readable credential,
    validateBody_sound body⟩

theorem header_feeds (h : m.Sound d l) (A : List (String × String)) :
    Feeds l fuel NS 0 (readHeader l fuel) (writeHeader l m.header) A true m.header := by
  have credential : Feeds l fuel NS 0 (readCredential l fuel)
      (writeCredential l m.header.credential) [(NS, "Cred")] true m.header.credential :=
    (credential_feeds m.header.credential).cast rfl h.credential rfl
  have version : supported "1.2" "DM/1.2" = .ok () := by decide
  refine .enter (.seq (.scalar "VerDTD" "1.2" l.identifierBytes false [])
    (.lift version (.seq (.scalar "VerProto" "DM/1.2" l.identifierBytes false [])
      (.lift version (.seq (nonzero_num_feeds "SessionID" h.sessionId [])
        (.seq (nonzero_num_feeds "MsgID" h.messageId [])
          (.seq (location_feeds "Target" m.header.target [])
            (.seq (location_feeds "Source" m.header.source [])
              (.seq credential (.seq (readable_meta_feeds h.metaInfo)
                (.close (.pure A m.header)) ?afterMeta) ?afterCredential) ?_) ?_) ?_) ?_))
                  ?_)) ?_)
  case afterMeta =>
    intro rest _
    exact follows_closing rfl
  case afterCredential =>
    intro rest _
    rw [List.append_assoc]
    exact follows_skip (start_meta _ _) rfl (follows_closing rfl)
  all_goals exact fun _ _ => rfl

/-- What the reader asks of a message beyond its check. -/
def Message.readable (m : Message) : Bool := m.commands.all Command.readable

/-- What stands inside of the root. -/
def readContent (l : CodecLimits) (fuel : Nat) (d : Decoders) : Parser Message := do
  let header ← readHeader l fuel
  Input.enter l fuel NS "SyncBody"
  let commands ← readCommands l fuel d 0
  let finalMessage ← marker l fuel "Final"
  Input.close l fuel NS "SyncBody"
  pure ⟨header, commands, finalMessage⟩

theorem readMessage_eq (d : Decoders) :
    readMessage l fuel d = (do
      Input.enter l fuel NS "SyncML"
      let m ← readContent l fuel d
      Input.close l fuel NS "SyncML"
      Input.finish l fuel
      pure m) := by
  simp only [readMessage, readContent, bind_assoc, pure_bind]

theorem content_feeds (h : m.Sound d l) :
    Feeds l fuel NS 0 (readContent l fuel d) (writeHeader l m.header ++ (.start "SyncBody" [] ::
      (writeCommands l m.commands ++ (writeFinal m.finalMessage ++ [.close "SyncBody"])))) []
      m.readable m := by
  have final : Feeds l fuel NS 0 (marker l fuel "Final") (writeFinal m.finalMessage)
      [(NS, "Final")] true m.finalMessage := marker_feeds "Final" m.finalMessage
  refine (Feeds.seq (header_feeds h []) (Feeds.enter (Feeds.bind (readCommands_feeds h.commands)
    (.seq final (.close (.pure [] m)) ?_) ?_)) (fun _ _ => rfl)).cast rfl
      (Bool.and_true _) rfl
  · intro rest _
    exact follows_closing rfl
  · intro rest _
    cases m.finalMessage with
    | false => exact follows_closing rfl
    | true => exact follows_element rfl rfl

theorem readMessage_ready {p : Input} (h : m.Sound d l)
    (ready : Ready l fuel p [""] (writeMessage l m)) :
    if m.readable then ∃ p', readMessage l fuel d p = .ok (m, p')
    else readMessage l fuel d p = .error (.error .invalidValue) := by
  obtain ⟨p₁, entered, ready⟩ := ready.enter
  have entered : Input.enter l fuel NS "SyncML" p = .ok ((), p₁) := entered
  rw [readMessage_eq, Parser.bind_ok entered]
  have split : writeHeader l m.header ++ (.start "SyncBody" [] :: (writeCommands l m.commands ++
      (writeFinal m.finalMessage ++ [.close "SyncBody", .close "SyncML"]))) =
      (writeHeader l m.header ++ (.start "SyncBody" [] :: (writeCommands l m.commands ++
        (writeFinal m.finalMessage ++ [.close "SyncBody"])))) ++ [.close "SyncML"] := by
    simp
  rw [split] at ready
  have content := content_feeds h p₁ [""] [.close "SyncML"] rfl ready
  cases readable : m.readable with
  | false =>
    simp only [readable, Bool.false_eq_true, if_false] at content ⊢
    exact Parser.bind_error content
  | true =>
    simp only [readable, if_true] at content ⊢
    obtain ⟨p₂, read, ready⟩ := content
    obtain ⟨p₃, closed, ready⟩ := ready.close
    obtain ⟨p₄, finished⟩ := ready.finish
    refine ⟨p₄, ?_⟩
    rw [Parser.bind_ok read, Parser.bind_ok closed, Parser.bind_ok finished]
    rfl

/-- What is taken of the XML library for a document: legal characters are escaped as legal
characters, and the document is read as the events it was written from. -/
structure QuickXml.Faithful (q : QuickXml) (l : CodecLimits) (calls : List Call) : Prop where
  legal : ∀ c, legalChar c = true → ∀ x ∈ q.escape c, legalChar x = true
  tokenised : q.events l.namespaceBindings (calls.flatMap (Call.spelling q.escape)) =
    eventsOf [""] calls

theorem length_tokensOf (scope : Scope) (calls : List Call) :
    (tokensOf scope calls).length = (eventsOf scope calls).length + 1 := by
  induction calls generalizing scope with
  | nil => rfl
  | cons c _ ih =>
    rw [tokensOf, eventsOf, List.length_append, List.length_append, ih, ← Nat.add_assoc]
    cases c <;> simp [Call.tokens, Call.events]

theorem decode_encoded {q : QuickXml} {bytes : ByteArray}
    (faithful : q.Faithful l (writeMessage l m)) (h : encode q.escape d m l = .ok bytes) :
    decode q d bytes l = if m.readable then .ok m else .error (.error .invalidValue) := by
  obtain ⟨valid, h⟩ := of_check h
  obtain ⟨o, written, h⟩ := of_bind h
  obtain ⟨document, finished, h⟩ := of_bind h
  cases h
  have nested := nesting_message l m
  have performed := run_performed l q.escape written
  have whole : document = (writeMessage l m).flatMap (Call.spelling q.escape) := by
    obtain ⟨_, -, h⟩ := of_bind finished
    rw [guard_eq_ok] at h
    cases h.2
    exact performed.written
  have legal : document.all legalChar = true := by
    rw [List.all_eq_true, whole]
    exact run_legal l faithful.legal written nested
  have size : bound (String.ofList document).toByteArray.size l.syncmlBytes = .ok () := by
    have fits := performed.fits (Nat.zero_le _)
    rw [performed.written, ← whole, performed.max] at fits
    rw [bound_eq_ok, String.size_toByteArray, utf8ByteSize_eq, String.toList_ofList]
    exact fits
  have restored : String.fromUTF8? (String.ofList document).toByteArray =
      some (String.ofList document) := by
    rw [String.fromUTF8?, dif_pos (String.ofList document).isValidUTF8]
    rfl
  have ready : Ready l ((eventsOf [""] (writeMessage l m)).length + 2)
      (.new (eventsOf [""] (writeMessage l m))) [""] (writeMessage l m) := by
    refine ⟨?_, ?_, ?_, ?_, performed.checked⟩
    · exact run_delivers l q.escape written nested finished rfl (Nat.zero_le _) rfl
    · rw [length_tokensOf]
      omega
    · have items := performed.itemsBounded (Nat.zero_le _)
      rwa [performed.items] at items
    · have commands := performed.commandsBounded (Nat.zero_le _)
      rwa [performed.commands] at commands
  have read := readMessage_ready (validate_sound valid) ready
  rw [decode, size, restored]
  simp only [Except.mapError, ok_bind, decodeText, String.toList_ofList, legal, Bool.not_true,
    Bool.false_eq_true, if_false]
  rw [whole, faithful.tokenised]
  cases readable : m.readable with
  | false =>
    simp only [readable, Bool.false_eq_true, if_false] at read ⊢
    rw [read]
    rfl
  | true =>
    simp only [readable, if_true] at read ⊢
    obtain ⟨p, read⟩ := read
    rw [read]
    simp only [ok_bind, valid]

/-- An encoded message decodes to itself exactly when no `endOfData` item has metainformation the
reader refuses and no generic alert has the unenrollment type. -/
theorem encode_decode {q : QuickXml} {d : Decoders} {m : Message} {l : CodecLimits}
    {bytes : ByteArray} (faithful : q.Faithful l (writeMessage l m))
    (h : encode q.escape d m l = .ok bytes) : decode q d bytes l = .ok m ↔ m.readable = true := by
  rw [decode_encoded faithful h]
  cases m.readable with
  | false | true => simp

end

/-- The library's escaping of text, with the carriage return as a reference. -/
def sampleEscape (c : Char) : List Char :=
  if special c then '&' :: (referenceName c).toList ++ [';'] else [c]

def scan (stop : Char) (cs : List Char) : List Char × List Char :=
  (cs.takeWhile (fun c => c ≠ stop), (cs.dropWhile (fun c => c ≠ stop)).tail)

/-- At most one attribute, in double quotes. -/
def sampleAttrs (cs : List Char) : List (String × String) :=
  if cs.isEmpty then []
  else
    let (key, rest) := scan '=' cs
    [(String.ofList key, String.ofList (scan '"' rest.tail).1)]

/-- A namespace reader of the documents the writer can produce. -/
def sampleEvents : Nat → Scope → List Char → List Event
  | 0, _, _ => []
  | _, _, [] => []
  | n + 1, scope, c :: cs =>
      if c = '<' then
        let (tag, rest) := scan '>' cs
        if tag.head? = some '/' then
          .finish (.ok (scope.headD "")) (String.ofList tag.tail) :: sampleEvents n scope.tail rest
        else
          let (name, attrs) := scan ' ' tag
          let attrs := sampleAttrs attrs
          let ns := inner (scope.headD "") attrs
          .start (String.ofList name) (.ok ns) (String.ofList name) (attrs.map declared) ::
            sampleEvents n (ns :: scope) rest
      else if c = '&' then
        let (name, rest) := scan ';' cs
        let name := String.ofList name
        .reference (.ok (if name = "#13" then some '\r' else none)) name ::
          sampleEvents n scope rest
      else
        let run := (c :: cs).takeWhile (fun c => c ≠ '<' && c ≠ '&')
        .text (String.ofList run) :: sampleEvents n scope ((c :: cs).drop run.length)

def sampleXml : QuickXml where
  escape := sampleEscape
  events _ cs := sampleEvents cs.length [""] cs

def sampleDecoders : Decoders := ⟨fun _ => false, fun _ => none⟩

def sampleHeader : Header := ⟨1, 1, "a", "b", none, none⟩

/-- A group with a read of one node, an escaped write and a status. -/
def sampleMessage : Message where
  header := sampleHeader
  commands := [.sequence 1 [.get 2 none [⟨false, none, some "./x", none, none⟩],
    .replace 3 none [⟨false, none, some "./y", none, some "1<2"⟩]],
    .status ⟨4, 1, 0, .syncHdr, [], [], 200, [], none, none⟩]
  finalMessage := true

theorem sampleEscape_legal (c : Char) (h : legalChar c = true) :
    ∀ x ∈ sampleEscape c, legalChar x = true := by
  rw [sampleEscape]
  by_cases hc : special c = true
  · rw [if_pos hc]
    simp only [special, Bool.or_eq_true, decide_eq_true_eq] at hc
    rcases hc with ((((rfl | rfl) | rfl) | rfl) | rfl) | rfl <;> exact List.all_eq_true.mp (by decide)
  · rw [if_neg hc]
    simpa using h

theorem encodes_of_isOk {escape : Escape} {d : Decoders} {m : Message} {l : CodecLimits}
    (h : (encode escape d m l).isOk = true) : ∃ bytes, encode escape d m l = .ok bytes := by
  cases result : encode escape d m l with
  | error =>
    rw [result] at h
    cases h
  | ok bytes => exact ⟨bytes, rfl⟩

set_option maxRecDepth 4000 in
theorem encode_decode_sample :
    ∃ bytes, encode sampleXml.escape sampleDecoders sampleMessage CodecLimits.default = .ok bytes ∧
      decode sampleXml sampleDecoders bytes CodecLimits.default = .ok sampleMessage := by
  have encoded : (encode sampleXml.escape sampleDecoders sampleMessage CodecLimits.default).isOk =
      true := by decide
  obtain ⟨bytes, encoded⟩ := encodes_of_isOk encoded
  exact ⟨bytes, encoded, (encode_decode ⟨sampleEscape_legal, by decide⟩ encoded).mpr
    (by decide)⟩

def blankFormat : Message where
  header := sampleHeader
  commands := [.alert 1 (.endOfData [⟨false, some "./x", none,
    some { Meta.empty with format := some "" }, none⟩])]
  finalMessage := true

def unenrollmentEvent : Message where
  header := sampleHeader
  commands := [.alert 1 (.generic [⟨false, some "./x", none,
    some { Meta.empty with mediaType := some unenrollment }, some "1"⟩])]
  finalMessage := true

def EncodedRefused (m : Message) : Prop :=
  sampleXml.Faithful CodecLimits.default (writeMessage CodecLimits.default m) ∧
    ∃ bytes, encode sampleXml.escape sampleDecoders m CodecLimits.default = .ok bytes ∧
      decode sampleXml sampleDecoders bytes CodecLimits.default = .error (.error .invalidValue)

theorem encodedRefused_of_unreadable {m : Message}
    (faithful : sampleXml.Faithful CodecLimits.default (writeMessage CodecLimits.default m))
    (encoded : (encode sampleXml.escape sampleDecoders m CodecLimits.default).isOk = true)
    (unreadable : m.readable = false) : EncodedRefused m := by
  obtain ⟨bytes, encoded⟩ := encodes_of_isOk encoded
  refine ⟨faithful, bytes, encoded, ?_⟩
  rw [decode_encoded faithful encoded, unreadable]
  rfl

set_option maxRecDepth 4000 in
theorem encoded_alerts_refused : EncodedRefused blankFormat ∧ EncodedRefused unenrollmentEvent := by
  constructor
  · exact encodedRefused_of_unreadable ⟨sampleEscape_legal, by decide⟩ (by decide)
      (by decide)
  · exact encodedRefused_of_unreadable ⟨sampleEscape_legal, by decide⟩ (by decide)
      (by decide)

end RssMdm.WindowsMdm.Syncml
