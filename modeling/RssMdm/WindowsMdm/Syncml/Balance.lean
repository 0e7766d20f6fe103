/- module: WindowsMdm/Syncml/Balance
   source: crates/windows-mdm/src/syncml.rs
   digest: Every writer closes the elements it opens. -/

import RssMdm.WindowsMdm.Syncml.Encode
import RssMdm.WindowsMdm.Xml.Wire

set_option autoImplicit false

namespace RssMdm.WindowsMdm.Syncml

open WindowsMdm.Xml
open List (append_assoc cons_append nil_append)

variable (l : CodecLimits) {name : String}

theorem balanced_metaLeaf (value : String) (max : Nat)
    (legal : named name [("xmlns", META)] = true) :
    Balanced (metaLeaf name value max) :=
  .element legal (.text value max)

theorem balanced_meta (m : Option Meta) : Balanced (writeMeta l m) := by
  cases m with
  | none => exact .nil
  | some m =>
    have body : Balanced (metaBody l m) := by
      refine .append (.append (.append (.append ?_ ?_) ?_) ?_) ?_
      all_goals exact .flatMap (fun v => balanced_metaLeaf _ _ (by decide))
    exact .element (by decide) body

theorem balanced_location (value : String) (legal : named name [] = true) :
    Balanced (writeLocation l name value) :=
  .element legal (.scalar value _ _ (by decide))

theorem balanced_item (i : Item) : Balanced (writeItem l i) := by
  have target : Balanced (writeOptionalLocation l "Target" i.target) :=
    .flatMap (fun v => balanced_location l v (by decide))
  have source : Balanced (writeOptionalLocation l "Source" i.source) :=
    .flatMap (fun v => balanced_location l v (by decide))
  have data : Balanced (writeData l i.data) :=
    .flatMap (fun v => .scalar v _ _ (by decide))
  have moreData : Balanced (writeMoreData i.moreData) := by
    cases i.moreData with
    | false => exact .nil
    | true => exact .element (by decide) Balanced.nil
  have whole : Balanced (.start "Item" [] :: ((writeOptionalLocation l "Target" i.target ++
      (writeOptionalLocation l "Source" i.source ++ (writeMeta l i.metaInfo ++
        (writeData l i.data ++ writeMoreData i.moreData)))) ++ [Call.close "Item"])) :=
    .element (by decide)
      (target.append (source.append ((balanced_meta l i.metaInfo).append (data.append moreData))))
  simp only [append_assoc] at whole
  exact whole

theorem balanced_items (items : List Item) : Balanced (writeItems l items) :=
  .flatMap (balanced_item l)

theorem balanced_num (n : UInt32) (legal : named name [] = true) :
    Balanced (writeNum l name n) :=
  .scalar _ _ _ legal

theorem balanced_credential (c : Option Credential) : Balanced (writeCredential l c) := by
  cases c with
  | none => exact .nil
  | some c =>
    have whole : Balanced (.start "Cred" [] :: ((writeMeta l (some c.metaInfo) ++
        Call.scalar "Data" c.data l.fieldBytes false) ++ [Call.close "Cred"])) :=
      .element (by decide)
        ((balanced_meta l _).append (Balanced.scalar _ _ _ (by decide)))
    rw [append_assoc] at whole
    exact whole

theorem balanced_challenge (c : Option Challenge) : Balanced (writeChallenge l c) := by
  cases c with
  | none => exact .nil
  | some c =>
    have nonce : Balanced (c.nonce.toList.flatMap
        (fun v => metaLeaf "NextNonce" v l.identifierBytes)) :=
      .flatMap (fun v => balanced_metaLeaf v _ (by decide))
    have whole : Balanced (.start "Chal" [] :: ((.start "Meta" [] ::
        ((metaLeaf "Format" "b64" l.identifierBytes ++ (metaLeaf "Type" c.mediaType l.uriBytes ++
          c.nonce.toList.flatMap (fun v => metaLeaf "NextNonce" v l.identifierBytes))) ++
            [Call.close "Meta"])) ++ [Call.close "Chal"])) :=
      .element (by decide) (.element (by decide)
        ((balanced_metaLeaf _ _ (by decide)).append
          ((balanced_metaLeaf _ _ (by decide)).append nonce)))
    simp only [append_assoc, cons_append, nil_append] at whole
    exact whole

theorem balanced_refsOf (refs : List String) (legal : named name [] = true) :
    Balanced (writeRefsOf l name refs) := by
  apply Balanced.flatMap
  intro r depth
  exact Balanced.scalar r l.uriBytes false legal depth

theorem balanced_refs (s : Status) : Balanced (writeRefs l s) :=
  .append (balanced_refsOf l _ (by decide)) (balanced_refsOf l _ (by decide))

theorem balanced_status (s : Status) : Balanced (writeStatus l s) := by
  refine (balanced_num l _ (by decide)).append ((balanced_num l _ (by decide)).append
    ((Balanced.scalar _ _ _ (by decide)).append (Balanced.append ?_ ((balanced_credential l _).append
      ((balanced_challenge l _).append ((balanced_num l _ (by decide)).append
        ((balanced_items l _).append ?_)))))))
  · cases s.oma with
    | false => exact .nil
    | true => exact balanced_refs l s
  · cases s.oma with
    | false => exact balanced_refs l s
    | true => exact .nil

theorem balanced_typedAlert (kind value : String) (explicitFormat : Bool) :
    Balanced (writeTypedAlert l kind value explicitFormat) := by
  have format : Balanced (if explicitFormat then metaLeaf "Format" "chr" l.identifierBytes
      else []) := by
    cases explicitFormat with
    | false => exact .nil
    | true => exact balanced_metaLeaf _ _ (by decide)
  have whole : Balanced (.start "Item" [] :: (((.start "Meta" [] :: ((metaLeaf "Type" kind l.uriBytes ++
      (if explicitFormat then metaLeaf "Format" "chr" l.identifierBytes else [])) ++
        [Call.close "Meta"])) ++ Call.scalar "Data" value l.fieldBytes false) ++ [Call.close "Item"])) :=
    .element (by decide) (.append (.element (by decide)
      ((balanced_metaLeaf _ _ (by decide)).append format)) (.scalar _ _ _ (by decide)))
  simp only [append_assoc, cons_append, nil_append] at whole
  exact whole

theorem balanced_alert (a : Alert) : Balanced (writeAlert l a) := by
  refine (balanced_num l _ (by decide)).append ?_
  cases a with
  | endOfData items | generic items => exact balanced_items l items
  | unenrollmentRequested => exact balanced_items l _
  | declaredConfiguration | loginStatus => exact balanced_typedAlert l _ _ _
  | _ => exact .nil

theorem balanced_results (r : Results) : Balanced (writeResults l r) :=
  .append (.flatMap (fun n => balanced_num l n (by decide)))
    (.append (.flatMap (fun n => balanced_num l n (by decide)))
      (.append (.flatMap (fun c => .scalar _ _ _ (by decide)))
        ((balanced_meta l _).append (balanced_items l _))))

theorem balanced_framed (c : Command) {body : List Call} (h : Balanced body) :
    Balanced (framed l c body) := by
  have legal : named c.element [] = true := by
    cases c <;> rw [Command.element] <;> decide
  have whole : Balanced (.start c.element [] :: ((writeNum l "CmdID" c.id ++ body) ++
      [Call.close c.element])) := .element legal ((balanced_num l _ (by decide)).append h)
  rw [append_assoc] at whole
  exact whole

theorem balanced_body (c : Command) : Balanced (writeBody l c) := by
  cases c with
  | status s => exact balanced_status l s
  | results r => exact balanced_results l r
  | alert _ a => exact balanced_alert l a
  | devInfo _ items => exact balanced_items l items
  | atomic | sequence => exact .nil
  | _ => exact (balanced_meta l _).append (balanced_items l _)

mutual

theorem balanced_command (c : Command) : Balanced (writeCommand l c) := by
  cases c with
  | atomic _ commands | sequence _ commands => exact balanced_framed l _ (balanced_commands commands)
  | _ => exact balanced_framed l _ (balanced_body l _)

theorem balanced_commands (commands : List Command) : Balanced (writeCommands l commands) := by
  cases commands with
  | nil => exact .nil
  | cons c rest => exact (balanced_command c).append (balanced_commands rest)

end

theorem balanced_header (h : Header) : Balanced (writeHeader l h) := by
  have whole : Balanced (.start "SyncHdr" [] :: ((Call.scalar "VerDTD" "1.2" l.identifierBytes false ++
      (Call.scalar "VerProto" "DM/1.2" l.identifierBytes false ++
        (writeNum l "SessionID" h.sessionId ++ (writeNum l "MsgID" h.messageId ++
          (writeLocation l "Target" h.target ++ (writeLocation l "Source" h.source ++
            (writeCredential l h.credential ++ writeMeta l h.metaInfo))))))) ++
              [Call.close "SyncHdr"])) :=
    Balanced.element (by decide) ((Balanced.scalar _ _ _ (by decide)).append
      ((Balanced.scalar _ _ _ (by decide)).append ((balanced_num l _ (by decide)).append
        ((balanced_num l _ (by decide)).append ((balanced_location l _ (by decide)).append
          ((balanced_location l _ (by decide)).append ((balanced_credential l _).append
            (balanced_meta l _))))))))
  simp only [append_assoc] at whole
  exact whole

theorem nesting_message (m : Message) : nesting 0 (writeMessage l m) = some 0 := by
  have final : Balanced (writeFinal m.finalMessage) := by
    cases m.finalMessage with
    | false => exact .nil
    | true => exact .element (by decide) Balanced.nil
  have body : Balanced (.start "SyncBody" [] :: ((writeCommands l m.commands ++
      writeFinal m.finalMessage) ++ [Call.close "SyncBody"])) :=
    .element (by decide) ((balanced_commands l m.commands).append final)
  have root : named "SyncML" [("xmlns", NS)] = true := by decide
  have whole := Balanced.nesting_element root ((balanced_header l m.header).append body) 0
  simp only [append_assoc, cons_append, nil_append] at whole
  exact whole

end RssMdm.WindowsMdm.Syncml
