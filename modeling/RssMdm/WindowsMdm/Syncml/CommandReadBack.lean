/- module: WindowsMdm/Syncml/CommandReadBack
   source: crates/windows-mdm/src/syncml.rs
   digest: A checked command is read back, but for two kinds of alert. -/

import RssMdm.WindowsMdm.Syncml.ReadBack

set_option autoImplicit false

namespace RssMdm.WindowsMdm.Syncml

open Lib.Fallible Lib.Outcome Lib.Text
open WindowsMdm.Xml
open List (append_assoc mem_cons_self)
open Option (toList_some)

section

variable {l : CodecLimits}

theorem readable_of_valid {m : Option Meta} {credential : Bool}
    (h : validateMeta m l credential = .ok ()) : m.all Meta.readable = true := by
  cases m with
  | none => rfl
  | some m =>
    obtain ⟨format, h⟩ := of_check h
    obtain ⟨mediaType, h⟩ := of_check h
    rw [guard_eq_ok, guard_eq_ok] at h
    have sizes := h.2.1
    simp only [Bool.or_eq_true, decide_eq_true_eq, not_or] at sizes
    have formatted : m.format.any blank = false := by
      cases hf : m.format with
      | none => rfl
      | some f =>
        rw [hf, toList_some, each_eq_ok] at format
        obtain ⟨accepted, -⟩ := of_check (format f (.head _))
        exact (text_eq_ok.mp accepted).2.1 rfl
    have typed : m.mediaType.any blank = false := by
      cases ht : m.mediaType with
      | none => rfl
      | some t =>
        rw [ht, toList_some, each_eq_ok] at mediaType
        obtain ⟨accepted, -⟩ := of_check (mediaType t (.head _))
        exact (text_eq_ok.mp accepted).2.1 rfl
    simp [Meta.readable, formatted, typed, sizes.1, sizes.2]

theorem credential_readable {c : Option Credential}
    (h : each (validateCredential l) c.toList = .ok ()) :
    c.all (fun c => c.metaInfo.readable) = true := by
  cases c with
  | none => rfl
  | some c =>
    rw [toList_some, each_eq_ok] at h
    obtain ⟨valid, -⟩ := of_check (h c (.head _))
    exact readable_of_valid valid

theorem challenge_readable {d : Decoders} {command : CommandName} {c : Option Challenge}
    (h : each (validateChallenge d l command) c.toList = .ok ()) :
    c.all Challenge.readable = true := by
  cases c with
  | none => rfl
  | some c =>
    rw [toList_some, each_eq_ok] at h
    have checked := h c (.head _)
    rw [validateChallenge, guard_eq_ok] at checked
    obtain ⟨known, checked⟩ := checked
    obtain ⟨nonces, -⟩ := of_check checked
    simp only [Bool.or_eq_true, decide_eq_true_eq, not_or, not_not] at known
    have kind : blank c.mediaType = false := by
      have member := known.2
      simp only [credentialTypes, List.mem_cons, List.not_mem_nil, or_false] at member
      rcases member with eq | eq <;> rw [eq] <;> decide
    have nonce : c.nonce.all (fun v => !blank v) = true := by
      cases hn : c.nonce with
      | none => rfl
      | some v =>
        rw [hn, toList_some, each_eq_ok] at nonces
        obtain ⟨accepted, -⟩ := of_check (nonces v (.head _))
        simp [(text_eq_ok.mp accepted).2.1 rfl]
    simp [Challenge.readable, kind, nonce]

variable {items : List Item}

theorem items_readable (h : ∀ i ∈ items, validateMeta i.metaInfo l false = .ok ()) :
    items.all Item.readable = true := by
  rw [List.all_eq_true]
  intro i hi
  exact readable_of_valid (h i hi)

theorem validateItems_facts {get devinfo : Bool} (h : validateItems items l get devinfo = .ok ()) :
    items ≠ [] ∧ items.all Item.readable = true := by
  rw [validateItems, guard_eq_ok] at h
  obtain ⟨filled, h⟩ := h
  obtain ⟨-, h⟩ := of_check h
  obtain ⟨fresh, -⟩ := of_check h
  obtain ⟨ks, related, -⟩ := eachFresh_eq_ok.mp fresh
  refine ⟨by simpa using filled, items_readable (l := l) ?_⟩
  intro i hi
  obtain ⟨k, -, -, payload⟩ := exists_right_of_mem related hi
  exact (of_check payload).1

theorem validateMutation_facts {k : Mutation} (h : validateMutation k items l = .ok ()) :
    items ≠ [] ∧ items.all Item.readable = true ∧ items.any (fun i => i.target.isSome) = true := by
  rw [validateMutation, guard_eq_ok] at h
  obtain ⟨filled, h⟩ := h
  obtain ⟨-, fresh⟩ := of_check h
  obtain ⟨ks, related, -⟩ := eachFresh_eq_ok.mp fresh
  have nonempty : items ≠ [] := by simpa using filled
  refine ⟨nonempty, items_readable (l := l) ?_, ?_⟩
  · intro i hi
    obtain ⟨k, -, -, payload⟩ := exists_right_of_mem related hi
    exact (of_check payload).1
  · obtain ⟨i, hi⟩ := List.exists_mem_of_ne_nil items nonempty
    obtain ⟨k, -, uri, -⟩ := exists_right_of_mem related hi
    rw [List.any_eq_true]
    refine ⟨i, hi, ?_⟩
    cases target : i.target with
    | none => simp [mutationUri, target] at uri
    | some => rfl

end

variable {l : CodecLimits} {fuel : Nat}

theorem nonzero_num_feeds (name : String) {n : UInt32} (h : n ≠ 0) (A : List (String × String)) :
    Feeds l fuel NS 0 (num l fuel name false) (writeNum l name n) A true n :=
  (num_feeds name n false A).cast rfl (by simp [h]) rfl

variable {items : List Item}

theorem readable_items_feeds (nonempty : items ≠ []) (readable : items.all Item.readable = true) :
    Feeds l fuel NS 0 (readItems l fuel) (writeItems l items) [(NS, "Item")] true items :=
  (readItems_feeds nonempty).cast rfl readable rfl

variable {m : Option Meta}

theorem readable_meta_feeds (readable : m.all Meta.readable = true) :
    Feeds l fuel NS 0 (readMeta l fuel) (writeMeta l m) [(NS, "Meta")] true m :=
  (readMeta_feeds m).cast rfl readable rfl

theorem operation_feeds {name : String} {id : UInt32}
    {build : UInt32 → Option Meta → List Item → Except CodecError Command} {c : Command}
    (hid : id ≠ 0) (hmeta : m.all Meta.readable = true) (nonempty : items ≠ [])
    (readable : items.all Item.readable = true) (hc : build id m items = .ok c)
    (A : List (String × String)) :
    Feeds l fuel NS 0 (readOperation l fuel name build)
      (.command :: .start name [] :: (writeNum l "CmdID" id ++ (writeMeta l m ++
        (writeItems l items ++ [.close name])))) A true c := by
  refine .command (.enter (.seq (nonzero_num_feeds "CmdID" hid [])
    (.seq (readable_meta_feeds hmeta) (.seq (readable_items_feeds nonempty readable)
      (.close (.done hc)) ?_) ?_) (fun _ _ => rfl)))
  · intro rest _
    exact follows_closing rfl
  · intro rest _
    rw [append_assoc]
    exact follows_skip (start_items l items) rfl (follows_closing rfl)

theorem statusItems_feeds (readable : items.all Item.readable = true) :
    Feeds l fuel NS 0 (readStatusItems l fuel) (writeItems l items) [(NS, "Item")] true items := by
  cases items with
  | nil => exact .is_false (fun rest h => differs_of_follows h) (.pure _ [])
  | cons =>
    exact .is_true (fun rest => rfl) (readable_items_feeds (by simp) readable)

theorem statusCode_ok (code : UInt16) : statusCode code.toUInt32 = .ok code := by
  have small : ¬code.toUInt32.toNat ≥ 2 ^ 16 := by
    rw [UInt16.toNat_toUInt32]
    exact Nat.not_le.mpr code.toNat_lt
  rw [statusCode, if_neg small, UInt16.toUInt16_toUInt32]

/-- What the check of a status establishes about its parts. -/
structure Status.Readable (l : CodecLimits) (s : Status) : Prop where
  messageRef : s.messageRef ≠ 0
  code : s.code.toUInt32 ≠ 0
  credential : s.credential.all (fun c => c.metaInfo.readable) = true
  challenge : s.challenge.all Challenge.readable = true
  targetRefs : s.targetRefs.length ≤ l.items
  sourceRefs : s.sourceRefs.length ≤ l.items
  items : s.items.all Item.readable = true

variable {d : Decoders} {n : Nat} {s : Status}

theorem validateStatus_readable (h : validateStatus d s l = .ok n) : s.Readable l := by
  obtain ⟨credential, h⟩ := of_check h
  obtain ⟨challenge, h⟩ := of_check h
  rw [guard_eq_ok] at h
  obtain ⟨numbers, h⟩ := h
  obtain ⟨refs, h⟩ := of_check h
  obtain ⟨-, h⟩ := of_check h
  obtain ⟨items, -⟩ := of_check h
  simp only [Bool.or_eq_true, decide_eq_true_eq, Bool.not_eq_true', not_or, Bool.not_eq_false,
    Bool.and_eq_true] at numbers
  rw [each_eq_ok] at refs items
  have targets := (of_check (refs s.targetRefs (.head _))).1
  have sources := (of_check (refs s.sourceRefs
    (.tail _ (.head _)))).1
  refine ⟨numbers.1.1, ?_, credential_readable credential, challenge_readable challenge,
    bound_eq_ok.mp targets, bound_eq_ok.mp sources, items_readable (l := l) ?_⟩
  · intro zero
    have value := congrArg UInt32.toNat zero
    rw [UInt16.toNat_toUInt32] at value
    have low := numbers.1.2.1
    simp only [UInt32.toNat_zero] at value
    omega
  · intro i hi
    have checked := items i hi
    rw [validateStatusItem, guard_eq_ok] at checked
    obtain ⟨-, checked⟩ := of_check checked.2
    exact (of_check checked).1

theorem follows_material (s : Status) (A : List (String × String)) {rest : List Call}
    (cred : A.contains (NS, "Cred") = false) (chal : A.contains (NS, "Chal") = false)
    (later : s.oma = false → follows NS A rest = true) :
    follows NS A (writeCredential l s.credential ++ (writeChallenge l s.challenge ++ rest)) =
      true := by
  cases hc : s.credential with
  | some => exact follows_element rfl cred
  | none =>
    cases hg : s.challenge with
    | some => exact follows_element rfl chal
    | none => exact later (by simp [Status.oma, hc, hg])

attribute [local simp] framed Command.element Command.id writeCommand writeBody

theorem oma_status_feeds (h : s.Readable l) (hid : s.id ≠ 0) (oma : s.oma = true)
    (A : List (String × String)) :
    Feeds l fuel NS 0 (readStatus l fuel) (framed l (.status s) (writeStatus l s)) A true
      (.status s) := by
  have credential : Feeds l fuel NS 0 (readCredential l fuel) (writeCredential l s.credential)
      [(NS, "Cred")] true s.credential := (credential_feeds s.credential).cast rfl h.credential rfl
  refine .cast (.command (.enter (.seq (nonzero_num_feeds "CmdID" hid [])
    (.seq (nonzero_num_feeds "MsgRef" h.messageRef [])
      (.seq (num_feeds "CmdRef" s.commandRef true [])
        (.seq (.scalar "Cmd" s.command.asStr l.identifierBytes false [])
          (.lift s.command.parse_asStr (.is_false ?notCoded
            (.seq (refs_feeds h.targetRefs) (.seq (refs_feeds h.sourceRefs)
              (.seq credential (.seq (challenge_feeds h.challenge)
                (.seq (nonzero_num_feeds "Data" h.code []) (.lift (statusCode_ok s.code)
                  (.seq (statusItems_feeds h.items) (.seq (.pure [] s.targetRefs)
                    (.seq (.pure [] s.sourceRefs)
                      (Feeds.close (Feeds.pure A (Command.status s))) ?_) ?_) ?afterItems)) ?_) ?afterChallenge) ?afterCredential) ?afterSources)
                        ?afterTargets))) ?_) ?_) ?_) ?_))) ?calls rfl rfl
  case notCoded =>
    intro rest _
    simp only [append_assoc]
    apply differs_of_follows
    refine follows_skip (start_refsOf _ _ _) rfl (follows_skip (start_refsOf _ _ _) rfl ?_)
    refine follows_material s _ rfl rfl ?_
    intro plain
    rw [oma] at plain
    cases plain
  case afterItems =>
    intro rest _
    exact follows_closing rfl
  case afterChallenge =>
    intro rest _
    simp only [append_assoc]
    exact follows_element rfl rfl
  case afterCredential =>
    intro rest _
    simp only [append_assoc]
    exact follows_skip (start_challenge _ _) rfl (follows_element rfl rfl)
  case afterSources =>
    intro rest _
    simp only [append_assoc]
    exact follows_material s _ rfl rfl (fun _ => follows_element rfl rfl)
  case afterTargets =>
    intro rest _
    simp only [append_assoc]
    exact follows_skip (start_refsOf _ _ _) rfl
      (follows_material s _ rfl rfl (fun _ => follows_element rfl rfl))
  case calls =>
    simp [writeStatus, oma, writeRefs]
  all_goals exact fun _ _ => rfl

theorem plain_status_feeds (h : s.Readable l) (hid : s.id ≠ 0) (oma : s.oma = false)
    (A : List (String × String)) :
    Feeds l fuel NS 0 (readStatus l fuel) (framed l (.status s) (writeStatus l s)) A true
      (.status s) := by
  simp only [Status.oma, Bool.or_eq_false_iff, Option.isSome_eq_false_iff,
    Option.isNone_iff_eq_none] at oma
  obtain ⟨id, messageRef, commandRef, command, targetRefs, sourceRefs, code, items, challenge,
    credential⟩ := s
  simp only at oma hid
  obtain ⟨rfl, rfl⟩ := oma
  have noRefs : ∀ name, Feeds l fuel NS 0 (refs l fuel name) [] [(NS, name)] true [] :=
    fun name => @refs_feeds l fuel name [] (Nat.zero_le l.items)
  refine .cast (.command (.enter (.seq (nonzero_num_feeds "CmdID" hid [])
    (.seq (nonzero_num_feeds "MsgRef" h.messageRef [])
      (.seq (num_feeds "CmdRef" commandRef true [])
        (.seq (.scalar "Cmd" command.asStr l.identifierBytes false [])
          (.lift command.parse_asStr (.is_true ?coded
            (.seq (noRefs "TargetRef") (.seq (noRefs "SourceRef")
              (.seq (credential_feeds none) (.seq (challenge_feeds rfl)
                (.seq (nonzero_num_feeds "Data" h.code []) (.lift (statusCode_ok code)
                  (.seq (statusItems_feeds h.items) (.seq (refs_feeds h.targetRefs)
                    (.seq (refs_feeds h.sourceRefs)
                      (Feeds.close (Feeds.pure A (Command.status _))) ?afterSources) ?afterTargets) ?afterItems)) ?_) ?_) ?_) ?_) ?_))) ?_) ?_) ?_)
                        ?_))) ?calls rfl rfl
  case coded => exact fun _ => rfl
  case afterSources =>
    intro rest _
    exact follows_closing rfl
  case afterTargets =>
    intro rest _
    rw [append_assoc]
    exact follows_skip (start_refsOf _ _ _) rfl (follows_closing rfl)
  case afterItems =>
    intro rest _
    simp only [append_assoc]
    exact follows_skip (start_refsOf _ _ _) rfl
      (follows_skip (start_refsOf _ _ _) rfl (follows_closing rfl))
  case calls =>
    simp [writeStatus, Status.oma, writeRefs, writeCredential, writeChallenge]
  all_goals exact fun _ _ => rfl

theorem status_feeds (h : validateStatus d s l = .ok n) (hid : s.id ≠ 0)
    (A : List (String × String)) :
    Feeds l fuel NS 0 (readStatus l fuel) (framed l (.status s) (writeStatus l s)) A true
      (.status s) := by
  cases oma : s.oma with
  | true => exact oma_status_feeds (validateStatus_readable h) hid oma A
  | false => exact plain_status_feeds (validateStatus_readable h) hid oma A

theorem optionalNum_feeds {name : String} {n : Option UInt32} (h : n ≠ some 0) :
    Feeds l fuel NS 0 (optionalNum l fuel name) (writeOptionalNum l name n) [(NS, name)] true n := by
  cases n with
  | none =>
    exact .seq (@optionalScalar_feeds l fuel name _ none) (.pure _ none) (fun _ h => h)
  | some n =>
    have nonzero : n ≠ 0 := fun zero => h (by rw [zero])
    have read : number (decimal n) false = .ok n := by
      rw [number_decimal, if_pos (by simp [nonzero])]
    exact (Feeds.seq (@optionalScalar_feeds l fuel name _ (some (decimal n)))
      (.lift read (.pure _ (some n))) (fun _ h => h)).cast
        (by simp [writeOptionalNum, writeNum]) rfl rfl

theorem optionalCommand_feeds (c : Option CommandName) :
    Feeds l fuel NS 0 (optionalCommand l fuel)
      (c.toList.flatMap (fun c => Call.scalar "Cmd" c.asStr l.identifierBytes false))
      [(NS, "Cmd")] true c := by
  cases c with
  | none =>
    exact .seq (@optionalScalar_feeds l fuel "Cmd" _ none) (.pure _ none) (fun _ h => h)
  | some c =>
    exact (Feeds.seq (@optionalScalar_feeds l fuel "Cmd" _ (some c.asStr))
      (.lift c.parse_asStr (.pure _ (some c))) (fun _ h => h)).cast (by simp) rfl rfl

theorem start_optionalCommand (c : Option CommandName) :
    c.toList.flatMap (fun c => Call.scalar "Cmd" c.asStr l.identifierBytes false) = [] ∨
      ∀ rest, upcoming NS (c.toList.flatMap (fun c =>
        Call.scalar "Cmd" c.asStr l.identifierBytes false) ++ rest) = some (some (NS, "Cmd")) := by
  cases c with
  | none => exact .inl rfl
  | some => exact .inr (fun rest => rfl)

theorem results_feeds {r : Results} (h : validateResults r l = .ok ()) (hid : r.id ≠ 0)
    (A : List (String × String)) :
    Feeds l fuel NS 0 (readResults l fuel) (framed l (.results r) (writeResults l r)) A true
      (.results r) := by
  rw [validateResults, guard_eq_ok] at h
  obtain ⟨refs, h⟩ := h
  simp only [Bool.or_eq_true, decide_eq_true_eq, not_or] at refs
  obtain ⟨valid, h⟩ := of_check h
  obtain ⟨nonempty, readable⟩ := validateItems_facts h
  refine .cast (.command (.enter (.seq (nonzero_num_feeds "CmdID" hid [])
    (.seq (optionalNum_feeds refs.1.1) (.seq (optionalNum_feeds refs.1.2)
      (.seq (optionalCommand_feeds r.command)
        (.seq (readable_meta_feeds (readable_of_valid valid))
          (.seq (readable_items_feeds nonempty readable)
            (Feeds.close (Feeds.pure A (Command.results r))) ?_) ?_) ?_) ?_) ?_)
              (fun _ _ => rfl)))) ?calls rfl rfl
  case calls => simp [writeResults]
  · intro rest _
    exact follows_closing rfl
  · intro rest _
    simp only [append_assoc]
    exact follows_skip (start_items _ _) rfl (follows_closing rfl)
  · intro rest _
    simp only [append_assoc]
    exact follows_skip (start_meta _ _) rfl (follows_skip (start_items _ _) rfl
      (follows_closing rfl))
  · intro rest _
    simp only [append_assoc]
    exact follows_skip (start_optionalCommand _) rfl (follows_skip (start_meta _ _) rfl
      (follows_skip (start_items _ _) rfl (follows_closing rfl)))
  · intro rest _
    simp only [append_assoc]
    exact follows_skip (start_optionalNum _ _ _) rfl (follows_skip (start_optionalCommand _) rfl
      (follows_skip (start_meta _ _) rfl (follows_skip (start_items _ _) rfl (follows_closing rfl))))

def Item.unenrolls (i : Item) : Bool := i.metaInfo.bind Meta.mediaType = some unenrollment

/-- What the reader asks of an alert beyond its check: the metainformation of `endOfData` is not
checked, and a generic alert of the unenrollment type is read as something else. -/
def Alert.readable : Alert → Bool
  | .endOfData items => items.all Item.readable
  | .generic items => !items.any Item.unenrolls
  | _ => true

theorem genericAlert_eq (sources : ∀ i ∈ items, i.source.isSome = true) :
    genericAlert items = if !items.any Item.unenrolls then .ok (.generic items)
      else .error .invalidValue := by
  have other : items ≠ [unenrollmentItem] := by
    rintro rfl
    exact absurd (sources _ (.head _)) (by decide)
  have same : items.any (fun i => decide (i.metaInfo.bind Meta.mediaType = some unenrollment)) =
      items.any Item.unenrolls := rfl
  rw [genericAlert, same]
  cases items.any Item.unenrolls with
  | false => rfl
  | true => simp [other]

theorem validateItems_sources {devinfo : Bool} (h : validateItems items l false devinfo = .ok ()) :
    ∀ i ∈ items, i.source.isSome = true := by
  rw [validateItems, guard_eq_ok] at h
  obtain ⟨-, h⟩ := of_check h.2
  obtain ⟨fresh, -⟩ := of_check h
  obtain ⟨ks, related, -⟩ := eachFresh_eq_ok.mp fresh
  intro i hi
  obtain ⟨k, -, uri, -⟩ := exists_right_of_mem related hi
  rw [itemUri, guard_eq_ok, guard_eq_ok, guard_eq_ok] at uri
  cases source : i.source with
  | none => simp [source] at uri
  | some => rfl

theorem alertBody_feeds {a : Alert} (h : validateAlert d l a = .ok n) :
    Feeds l fuel NS 0 (readAlertBody l fuel d a.code) (writeAlertBody l a) [(NS, "Item")] a.readable
      a := by
  cases a with
  | clientInitiated | moreMessages | sessionAbort => exact .pure _ _
  | endOfData items =>
    rw [validateAlert, guard_eq_ok] at h
    have nonempty : items ≠ [] := by simpa using h.1
    exact (Feeds.bind (readItems_feeds nonempty) (Feeds.pure _ (Alert.endOfData items))
      (fun _ h => h)).cast (List.append_nil _) (Bool.and_true _) rfl
  | generic items =>
    obtain ⟨valid, -⟩ := of_check h
    obtain ⟨nonempty, readable⟩ := validateItems_facts valid
    have start : ∀ rest, upcoming NS (writeItems l items ++ rest) = some (some (NS, "Item")) := by
      rcases start_items l items with empty | start
      · cases items with
        | nil => exact absurd rfl nonempty
        | cons => cases empty
      · exact start
    refine .is_false (fun rest _ => differs_element (start rest) (by decide)) ?_
    exact .check (readable_items_feeds nonempty readable)
      (genericAlert_eq (validateItems_sources valid))
  | unenrollmentRequested =>
    refine .is_false (fun rest _ => differs_element rfl (by decide)) ?_
    have read : genericAlert [unenrollmentItem] = if true then .ok .unenrollmentRequested
        else .error .invalidValue := by decide
    exact .check (readable_items_feeds (by simp) (by decide)) read
  | declaredConfiguration _ explicitFormat =>
    obtain ⟨-, h⟩ := of_check h
    rw [guard_eq_ok] at h
    refine typedAlert_feeds (by decide) ?_ _
    cases explicitFormat <;> simp_all [typedAlert, declaredSummary, loginStatusType]
  | loginStatus status explicitFormat =>
    refine typedAlert_feeds (by decide) ?_ _
    cases status <;> cases explicitFormat <;> simp [typedAlert, LoginStatus.asStr]

theorem alert_feeds {id : UInt32} {a : Alert} (h : validateAlert d l a = .ok n) (hid : id ≠ 0)
    (A : List (String × String)) :
    Feeds l fuel NS 0 (readAlert l fuel d) (framed l (.alert id a) (writeAlert l a)) A a.readable
      (.alert id a) := by
  have code : a.code ≠ 0 := by cases a <;> simp [Alert.code]
  refine .cast (.command (.enter (.seq (nonzero_num_feeds "CmdID" hid [])
    (.seq (nonzero_num_feeds "Data" code []) (.bind (alertBody_feeds h)
      (Feeds.close (Feeds.pure A (Command.alert id a))) ?_) (fun _ _ => rfl)) (fun _ _ => rfl))))
        ?calls (Bool.and_true _) rfl
  case calls => simp [writeAlert]
  · intro rest _
    exact follows_closing rfl

theorem mutating_facts {k : Mutation} (h : validateMutating k m items l = .ok n) :
    m.all Meta.readable = true ∧ items ≠ [] ∧ items.all Item.readable = true ∧
      items.any (fun i => i.target.isSome) = true := by
  obtain ⟨valid, h⟩ := of_check h
  obtain ⟨mutation, -⟩ := of_check h
  exact ⟨readable_of_valid valid, validateMutation_facts mutation⟩

theorem validateItems_untargeted {devinfo : Bool}
    (h : validateItems items l false devinfo = .ok ()) :
    items.any (fun i => i.target.isSome) = false := by
  rw [validateItems, guard_eq_ok] at h
  obtain ⟨-, h⟩ := of_check h.2
  obtain ⟨fresh, -⟩ := of_check h
  obtain ⟨ks, related, -⟩ := eachFresh_eq_ok.mp fresh
  rw [List.any_eq_false]
  intro i hi
  obtain ⟨k, -, uri, -⟩ := exists_right_of_mem related hi
  rw [itemUri, guard_eq_ok, guard_eq_ok, guard_eq_ok] at uri
  simpa using uri.2.2.1

/-- What the reader asks of a command beyond its check. -/
def Command.readable : Command → Bool
  | .alert _ a => a.readable
  | _ => true

def Command.isGroup : Command → Bool
  | .atomic _ _ | .sequence _ _ => true
  | _ => false

theorem leaf_feeds {c : Command} (single : c.isGroup = false) (hid : c.id ≠ 0)
    (valid : validateCommand d l c = .ok n) (members : Parser (List Command))
    (A : List (String × String)) :
    ∃ read, (commandReaders l fuel d members).find? (fun x => x.1 = c.element) =
        some (c.element, read) ∧
      Feeds l fuel NS 0 read (writeCommand l c) A c.readable c := by
  cases c with
  | atomic | sequence => cases single
  | add id | delete id | exec id =>
    obtain ⟨hm, nonempty, readable, -⟩ := mutating_facts valid
    refine ⟨_, rfl, (operation_feeds hid hm nonempty readable rfl A).cast ?_ rfl rfl⟩
    simp
  | replace id m items =>
    obtain ⟨hm, nonempty, readable, targeted⟩ := mutating_facts valid
    have built : replacement id m items = .ok (.replace id m items) := if_pos targeted
    refine ⟨_, rfl, (operation_feeds hid hm nonempty readable built A).cast ?_ rfl rfl⟩
    simp
  | get id =>
    obtain ⟨hm, valid⟩ := of_check valid
    obtain ⟨valid, -⟩ := of_check valid
    obtain ⟨nonempty, readable⟩ := validateItems_facts valid
    refine ⟨_, rfl, (operation_feeds hid (readable_of_valid hm) nonempty readable rfl A).cast ?_
      rfl rfl⟩
    simp
  | devInfo id items =>
    obtain ⟨valid, -⟩ := of_check valid
    obtain ⟨nonempty, readable⟩ := validateItems_facts valid
    have built : replacement id none items = .ok (.devInfo id items) := by
      simp [replacement, validateItems_untargeted valid]
    refine ⟨_, rfl, (operation_feeds hid rfl nonempty readable built A).cast ?_ rfl rfl⟩
    simp [writeMeta]
  | status => exact ⟨_, rfl, status_feeds valid hid A⟩
  | results =>
    obtain ⟨valid, -⟩ := of_check valid
    exact ⟨_, rfl, results_feeds valid hid A⟩
  | alert => exact ⟨_, rfl, alert_feeds valid hid A⟩

end RssMdm.WindowsMdm.Syncml
