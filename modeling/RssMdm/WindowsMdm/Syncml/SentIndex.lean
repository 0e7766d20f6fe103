/- module: WindowsMdm/Syncml/SentIndex
   source: crates/windows-mdm/src/syncml/correlation.rs
   digest: The indexes of the sent messages agree with the messages after every recording. -/

import Mathlib.Data.List.Nodup
import RssMdm.WindowsMdm.Syncml.CorrelationAccount
import RssMdm.WindowsMdm.Syncml.RoundTrip

set_option autoImplicit false

namespace RssMdm.WindowsMdm.Syncml

open Lib.Fallible Lib.Outcome

/-- Encode a server message and derive its correlation snapshot. -/
def encodeRequest (escape : Xml.Escape) (d : Decoders) (m : Message) (l : CodecLimits) :
    Except CodecError (ByteArray × SentMessage) := do
  let bytes ← encode escape d m l
  let sent ← sentSnapshot m l
  .ok (bytes, sent)

/-- Decode a recorded server message and recover its correlation snapshot. -/
def decodeRequest (q : QuickXml) (d : Decoders) (bytes : ByteArray) (l : CodecLimits) :
    Run CodecError (Message × SentMessage) := do
  let m ← decode q d bytes l
  let sent ← (sentSnapshot m l).mapError Fault.error
  .ok (m, sent)

/-- The two sources of snapshots; the type is opaque elsewhere. -/
inductive Minted (q : QuickXml) (d : Decoders) (sent : SentMessage) : Prop where
  | encoded {m : Message} {l : CodecLimits} {bytes : ByteArray} :
      encodeRequest q.escape d m l = .ok (bytes, sent) → Minted q d sent
  | decoded {m : Message} {l : CodecLimits} {bytes : ByteArray} :
      decodeRequest q d bytes l = .ok (m, sent) → Minted q d sent

/-- The keys of a recorded message: its header, then its commands. -/
def SentMessage.keys (m : SentMessage) : List Key :=
  (m.id, 0) :: m.commands.map (fun c => (m.id, c.id))

theorem bodyLoop_nodup {d : Decoders} {l : CodecLimits} {ids : List UInt32} {count : Nat}
    {commands : List Command} (h : bodyLoop d l ids count commands = .ok ()) :
    (commands.map Command.id).Nodup ∧ ∀ c ∈ commands, c.id ≠ 0 ∧ c.id ∉ ids := by
  induction commands generalizing ids count with
  | nil => simp
  | cons _ _ ih =>
    rw [bodyLoop, guard_eq_ok, guard_eq_ok] at h
    obtain ⟨nonzero, fresh, h⟩ := h
    obtain ⟨n, -, h⟩ := of_bind h
    obtain ⟨nodup, apart⟩ := ih (of_check h).2
    constructor
    · refine List.nodup_cons.mpr ⟨?_, nodup⟩
      rintro mem
      obtain ⟨c', hc', same⟩ := List.mem_map.mp mem
      exact (apart c' hc').2 (same ▸ List.mem_cons_self)
    · refine List.forall_mem_cons.mpr ⟨⟨nonzero, by simpa using fresh⟩, fun c' hc' => ?_⟩
      exact ⟨(apart c' hc').1, fun mem => (apart c' hc').2 (.tail _ mem)⟩

theorem Minted.keys_nodup {q : QuickXml} {d : Decoders} {sent : SentMessage}
    (minted : Minted q d sent) : sent.keys.Nodup := by
  have checked : ∃ m l, validate d m l = .ok () ∧ sentSnapshot m l = .ok sent := by
    cases minted with
    | @encoded m l _ h =>
      obtain ⟨_, encoded, h⟩ := of_bind h
      obtain ⟨_, snapshot, h⟩ := of_bind h
      cases h
      exact ⟨m, l, (of_check encoded).1, snapshot⟩
    | @decoded m l _ h =>
      obtain ⟨_, decoded, h⟩ := of_bind h
      obtain ⟨_, snapshot, h⟩ := of_bind h
      cases h
      obtain ⟨-, decoded⟩ := of_check decoded
      split at decoded
      · cases decoded
      rw [decodeText, guard_eq_ok] at decoded
      obtain ⟨⟨_, _⟩, -, decoded⟩ := of_bind decoded.2
      obtain ⟨valid, decoded⟩ := of_check decoded
      cases decoded
      exact ⟨m, l, mapError_eq_ok.mp valid, mapError_eq_ok.mp snapshot⟩
  obtain ⟨m, l, valid, snapshot⟩ := checked
  obtain ⟨-, commands⟩ := sentSnapshot_eq_ok snapshot
  simp only [validate, guard_eq_ok, check_bind_eq_ok] at valid
  obtain ⟨-, -, -, -, -, -, body⟩ := valid
  obtain ⟨-, body⟩ := of_check body
  obtain ⟨flat, flattened, body⟩ := of_bind (of_guard body).2
  obtain ⟨nodup, nonzero⟩ := bodyLoop_nodup (of_check body).1
  rw [SentMessage.keys, commands, Message.flat, ← (flattened_eq_ok flattened).1]
  refine List.nodup_cons.mpr ⟨?_, ?_⟩
  · simp only [List.map_map, List.mem_map, Function.comp_apply, Prod.mk.injEq, true_and]
    rintro ⟨c, hc, zero⟩
    exact (nonzero c hc).1 zero
  · rw [List.map_map]
    refine List.Nodup.of_map Prod.snd ?_
    simpa [Function.comp_def] using nodup

structure Positions (t : Std.TreeMap Key Nat Key.order) (ks : List Key) : Prop where
  size : t.size = ks.length
  get : ∀ (key : Key) (n : Nat), t[key]? = some n ↔ ks[n]? = some key

theorem Key.getElem?_insert {α : Type} {t : Std.TreeMap Key α Key.order} {k key : Key} {v : α} :
    (t.insert k v)[key]? = if k = key then some v else t[key]? := by
  simp only [Std.TreeMap.getElem?_insert, Std.LawfulEqCmp.compare_eq_iff_eq]

theorem Positions.record {t : Std.TreeMap Key Nat Key.order} {ks : List Key} {k : Key}
    (h : Positions t ks) (fresh : k ∉ ks) : Positions (t.insert k t.size) (ks ++ [k]) := by
  have absent : k ∉ t := by
    intro mem
    obtain ⟨n, hn⟩ := Std.TreeMap.mem_iff_isSome_getElem?.mp mem |> Option.isSome_iff_exists.mp
    exact fresh (List.mem_of_getElem? ((h.get k n).mp hn))
  constructor
  · rw [Std.TreeMap.size_insert, if_neg (by simpa using absent), h.size, List.length_append,
      List.length_singleton]
  · intro key n
    rw [Key.getElem?_insert, h.size]
    split
    · rename_i same
      subst same
      have : ∀ n, ks[n]? ≠ some k := fun n hn => fresh (List.mem_of_getElem? hn)
      grind
    · rename_i different
      rw [h.get]
      grind

theorem recordCommands_order (messageId : UInt32) (k : Nat) (xs : List (SentCommand × Nat))
    (e : Expected) {ks : List Key} (filed : Positions e.order ks)
    (nodup : (ks ++ xs.map (fun x => (messageId, x.1.id))).Nodup) :
    Positions (xs.foldl (Expected.recordCommand messageId k) e).order
      (ks ++ xs.map (fun x => (messageId, x.1.id))) := by
  induction xs generalizing e ks with
  | nil => simpa using filed
  | cons _ _ ih =>
    rw [List.map_cons, List.append_cons] at nodup ⊢
    have fresh := (List.nodup_append.mp (List.nodup_append.mp nodup).1).2.2
    exact ih _ (filed.record (fun mem => fresh _ mem _ (.head _) rfl)) nodup

theorem recordCommands_requests (messageId : UInt32) (k : Nat) (xs : List (SentCommand × Nat))
    (e : Expected) (nodup : (xs.map (fun x => x.1.id)).Nodup) :
    let e' := xs.foldl (Expected.recordCommand messageId k) e
    (∀ key : Key, (∀ x ∈ xs, (messageId, x.1.id) ≠ key) → e'.requests[key]? = e.requests[key]?) ∧
      ∀ x ∈ xs, e'.requests[((messageId, x.1.id) : Key)]? = some (k, x.2) := by
  induction xs generalizing e with
  | nil => simp
  | cons x _ ih =>
    obtain ⟨head, nodup⟩ := List.nodup_cons.mp nodup
    obtain ⟨kept, found⟩ := ih (e.recordCommand messageId k x) nodup
    refine ⟨fun key other => ?_, List.forall_mem_cons.mpr ⟨?_, found⟩⟩
    · obtain ⟨first, other⟩ := List.forall_mem_cons.mp other
      exact (kept key other).trans (Key.getElem?_insert.trans (if_neg first))
    · refine (kept _ (fun y hy same => ?_)).trans (Key.getElem?_insert.trans (if_pos rfl))
      exact head (List.mem_map.mpr ⟨y, hy, (Prod.mk.inj same).2⟩)

/-- The indexes agree with the recorded messages. -/
structure Filed (e : Expected) : Prop extends Indexed e where
  known : ∀ m ∈ e.messages, m.id ∈ e.messageIds
  found : ∀ (i j : Nat) (m : SentMessage) (c : SentCommand), e.messages[i]? = some m →
    m.commands[j]? = some c → e.requests[((m.id, c.id) : Key)]? = some (i, j)
  items : e.items = (e.messages.flatMap (fun m => m.commands.flatMap SentCommand.targets)).length
  maxUriBytes : e.maxUriBytes =
    ((e.messages.flatMap SentMessage.uris).map String.utf8ByteSize).foldl max 0
  nodup : (e.messages.flatMap SentMessage.keys).Nodup
  order : Positions e.order (e.messages.flatMap SentMessage.keys)

theorem Expected.checked_eq_ok {e : Expected} {sent : SentMessage} {l : CodecLimits}
    {v : Nat × Nat} (h : e.checked sent l = .ok v) : sent.id ∉ e.messageIds ∧
      v.1 = e.items + (sent.commands.flatMap SentCommand.targets).length ∧
      v.2 = (sent.uris.map String.utf8ByteSize).foldl max e.maxUriBytes := by
  have counted : ∀ (cs : List SentCommand) n, cs.foldl (fun n c => n + c.targets.length) n =
      n + (cs.flatMap SentCommand.targets).length := by
    intro cs
    induction cs with
    | nil => simp
    | cons _ _ ih =>
      intro n
      rw [List.foldl_cons, ih, List.flatMap_cons, List.length_append, Nat.add_assoc]
  simp only [Expected.checked, guard_eq_ok, check_bind_eq_ok] at h
  obtain ⟨-, -, fresh, -, -, -, -, -, h⟩ := h
  cases h
  exact ⟨by simpa using fresh, counted _ _, by rw [List.foldl_map]⟩

theorem Filed.record {e e' : Expected} {sent : SentMessage} {l : CodecLimits} (filed : Filed e)
    (unique : sent.keys.Nodup) (h : e.recordSent sent l = .ok e') :
    Filed e' ∧ e'.messages = e.messages ++ [sent] := by
  have indexed := (Expected.recordSent_eq_ok h filed.toIndexed).1
  obtain ⟨⟨items, uriBytes⟩, checked, h⟩ := of_bind h
  cases h
  obtain ⟨fresh, rfl, rfl⟩ := Expected.checked_eq_ok (mapError_eq_ok.mp checked)
  have absent : ∀ m ∈ e.messages, m.id ≠ sent.id :=
    fun m hm same => fresh (same ▸ filed.known m hm)
  set headed : Expected := { e with
    messageIds := e.messageIds.insert sent.id
    order := e.order.insert (sent.id, 0) e.order.size }
  have commands : ∀ {α : Type} (f : SentCommand → α),
      sent.commands.zipIdx.map (fun x => f x.1) = sent.commands.map f := by
    intro α f
    rw [← Function.comp_def f, ← List.map_map, List.zipIdx_map_fst]
  have grown : (e.messages ++ [sent]).flatMap SentMessage.keys =
      e.messages.flatMap SentMessage.keys ++ [(sent.id, 0)] ++
        sent.commands.zipIdx.map (fun x => (sent.id, x.1.id)) := by
    rw [commands (fun c => (sent.id, c.id)), ← List.append_cons]
    simp [SentMessage.keys]
  have nodup : ((e.messages ++ [sent]).flatMap SentMessage.keys).Nodup := by
    rw [List.flatMap_append, List.flatMap_singleton]
    refine List.nodup_append.mpr ⟨filed.nodup, unique, ?_⟩
    rintro a old _ new rfl
    obtain ⟨m, hm, mem⟩ := List.mem_flatMap.mp old
    have owned : ∀ m' : SentMessage, a ∈ m'.keys → a.1 = m'.id := by
      intro m' mem
      rcases List.mem_cons.mp mem with rfl | mem
      · rfl
      · obtain ⟨c, -, rfl⟩ := List.mem_map.mp mem
        rfl
    exact absent m hm ((owned m mem).symm.trans (owned sent new))
  have single : (sent.commands.zipIdx.map (fun x => x.1.id)).Nodup := by
    rw [commands SentCommand.id]
    refine List.Nodup.of_map (fun id => (sent.id, id)) ?_
    rw [List.map_map]
    exact (List.nodup_cons.mp unique).2
  obtain ⟨kept, found⟩ := recordCommands_requests sent.id e.messages.length _ headed single
  refine ⟨{ indexed with known := ?_, found := ?_, items := ?_, maxUriBytes := ?_, nodup,
                         order := ?_ }, rfl⟩
  · intro m hm
    dsimp only
    rw [(mem_recordCommands _ _ _ headed).2.1, Std.TreeSet.mem_insert]
    rcases List.mem_append.mp hm with old | new
    · exact .inr (filed.known m old)
    · exact .inl (List.mem_singleton.mp new ▸ Std.ReflCmp.compare_self)
  · intro i j m c hm hc
    rw [List.getElem?_append] at hm
    split at hm
    · have other := absent m (List.mem_of_getElem? hm)
      exact (kept _ (fun x _ same => other (Prod.mk.inj same).1.symm)).trans
        (filed.found i j m c hm hc)
    · rw [List.getElem?_singleton] at hm
      split at hm <;> cases hm
      rw [show i = e.messages.length by omega]
      exact found (c, j) (List.mem_zipIdx_iff_getElem?.mpr hc)
  · simp [filed.items]
  · simp [filed.maxUriBytes]
  · rw [grown] at nodup
    have apart := (List.nodup_append.mp (List.nodup_append.mp nodup).1).2.2
    have start := filed.order.record (fun mem => apart _ mem _ (.head _) rfl)
    exact grown ▸ recordCommands_order sent.id e.messages.length _ headed start nodup

/-- One call of `record_sent` and the state it leaves. -/
def Expected.attempt (e : Expected) (call : SentMessage × CodecLimits) :
    Except CorrelationError Unit × Expected :=
  match e.recordSent call.1 call.2 with
  | .ok e' => (.ok (), e')
  | .error c => (.error c, e)

theorem Filed.attempt {e : Expected} (filed : Filed e) {call : SentMessage × CodecLimits}
    (unique : call.1.keys.Nodup) : Filed (e.attempt call).2 ∧
      ((e.attempt call).1 = .ok () ∧ (e.attempt call).2.messages = e.messages ++ [call.1] ∨
        (∃ c, (e.attempt call).1 = .error c) ∧ (e.attempt call).2 = e) := by
  unfold Expected.attempt
  split
  · rename_i e' recorded
    obtain ⟨filed, messages⟩ := filed.record unique recorded
    exact ⟨filed, .inl ⟨rfl, messages⟩⟩
  · rename_i c _
    exact ⟨filed, .inr ⟨⟨c, rfl⟩, rfl⟩⟩

/-- Whatever calls follow the first, the indexes agree with the recorded messages. -/
theorem indexes_agree (q : QuickXml) (d : Decoders) (sent : {sent // Minted q d sent})
    (id : UInt32) (l : CodecLimits) (calls : List ({sent // Minted q d sent} × CodecLimits)) :
    match Expected.new sent.1 id l with
    | .error _ => True
    | .ok e =>
        let e' := calls.foldl (fun e call => (e.attempt (call.1.1, call.2)).2) e
        Filed e' ∧
          (∀ key, Safe (e'.request key) (fun found => ∀ c, found = some c → Recorded e' key c)) ∧
          ∀ call : {sent // Minted q d sent} × CodecLimits,
            let next := e'.attempt (call.1.1, call.2)
            next.1 = .ok () ∧ next.2.messages = e'.messages ++ [call.1.1] ∨
              (∃ c, next.1 = .error c) ∧ next.2 = e' := by
  have empty : Filed ⟨id, [], ∅, ∅, ∅, ∅, 0, 0⟩ := by
    have indexed : Indexed ⟨id, [], ∅, ∅, ∅, ∅, 0, 0⟩ := by constructor <;> simp
    refine { indexed with known := ?_, found := ?_, items := rfl, maxUriBytes := rfl,
                          nodup := List.nodup_nil, order := ⟨rfl, ?_⟩ } <;> simp
  have run : ∀ e, Filed e →
      Filed (calls.foldl (fun e call => (e.attempt (call.1.1, call.2)).2) e) := by
    induction calls with
    | nil => exact fun e filed => filed
    | cons call _ ih => exact fun e filed => ih _ (filed.attempt call.1.2.keys_nodup).1
  split
  · trivial
  rename_i e created
  have filed := run e (empty.record sent.2.keys_nodup created).1
  exact ⟨filed, Expected.request_safe filed.toIndexed,
    fun call => (filed.attempt call.1.2.keys_nodup).2⟩

theorem minted_of_encoded {m : Message} {sent : SentMessage}
    (encoded : (encode sampleXml.escape sampleDecoders m .default).isOk = true)
    (snapshot : sentSnapshot m .default = .ok sent) : Minted sampleXml sampleDecoders sent := by
  obtain ⟨bytes, encoded⟩ := encodes_of_isOk encoded
  have minted : encodeRequest sampleXml.escape sampleDecoders m .default = .ok (bytes, sent) := by
    rw [encodeRequest, encoded, ok_bind, snapshot]
    rfl
  exact .encoded minted

set_option maxRecDepth 4000 in
theorem minted_sample : Minted sampleXml sampleDecoders sampleSnapshot :=
  minted_of_encoded (m := sampleSent) (by decide) (by decide)

set_option maxRecDepth 4000 in
theorem minted_next : Minted sampleXml sampleDecoders { sampleSnapshot with id := 2 } :=
  minted_of_encoded (m := { sampleSent with header := ⟨7, 2, "device", "server", none, none⟩ })
    (by decide) (by decide)

def sampleMinted : {sent // Minted sampleXml sampleDecoders sent} := ⟨_, minted_sample⟩

def sampleNext : {sent // Minted sampleXml sampleDecoders sent} := ⟨_, minted_next⟩

/-- A second message is recorded, and the first one refused the second time. -/
theorem indexes_agree_sample : ∃ e, Expected.new sampleMinted.1 2 .default = .ok e ∧
    let e' := ((e.attempt (sampleNext.1, .default)).2.attempt (sampleMinted.1, .default)).2
    Filed e' ∧ e'.messages = [sampleMinted.1, sampleNext.1] ∧
      ∀ key, Safe (e'.request key) (fun found => ∀ c, found = some c → Recorded e' key c) := by
  have messages : (Expected.new sampleMinted.1 2 .default).toOption.map (fun e =>
      ((e.attempt (sampleNext.1, .default)).2.attempt (sampleMinted.1, .default)).2.messages) =
        some [sampleMinted.1, sampleNext.1] := by decide
  have agree := indexes_agree sampleXml sampleDecoders sampleMinted 2 .default
    [(sampleNext, .default), (sampleMinted, .default)]
  cases created : Expected.new sampleMinted.1 2 .default with
  | error =>
    rw [created] at messages
    cases messages
  | ok e =>
    rw [created] at messages agree
    exact ⟨e, rfl, agree.1, Option.some.inj messages, agree.2.1⟩

end RssMdm.WindowsMdm.Syncml
