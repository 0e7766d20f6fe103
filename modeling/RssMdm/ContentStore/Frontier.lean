/- module: ContentStore/Frontier
   source: crates/content-service/src/upload.rs, journal.rs
   digest: The frontier of an upload holds the bytes that were appended, wherever the reads of a body are cut. -/

import RssMdm.ContentStore.Reader

set_option autoImplicit false

namespace RssMdm.ContentStore

open Lib
open List (append_nil mem_append mem_singleton)

section

/-- Objects are only added. -/
def Extends (contents contents' : Contents) : Prop := ∀ id bytes, contents id = some bytes → contents' id = some bytes

theorem Extends.update {contents : Contents} {id : Uuid} (fresh : contents id = none) (bytes : Bytes) :
    Extends contents (Function.update contents id (some bytes)) := by
  intro other old is
  have ne : other ≠ id := by
    rintro rfl
    rw [fresh] at is
    cases is
  rw [Function.update_of_ne ne, is]

variable {env : Environment} {contents contents' : Contents} {a : Artifact} {c : StorageClass}
  {p : Piece}

theorem logical_mono (grows : Extends contents contents') {bytes : Bytes}
    (is : logical env contents a c p = some bytes) : logical env contents' a c p = some bytes := by
  unfold logical readPiece at is ⊢
  split at is
  · cases is
  rename_i physical read
  split at read
  · cases read
  obtain ⟨all, found, rfl⟩ := Option.map_eq_some_iff.mp read
  rename_i order
  rw [if_neg order, grows _ _ found]
  exact is

theorem held_mono (grows : Extends contents contents')
    (stored : (logical env contents a c p).isSome = true) :
    held env contents' a c p = held env contents a c p := by
  rw [held, logical_mono grows (held_eq stored)]
  rfl

variable {pieces : List Piece}

theorem Laid.mono {pos stop : Nat} (laid : Laid env contents a c pos pieces stop)
    (grows : Extends contents contents') : Laid env contents' a c pos pieces stop where
  tiled := laid.tiled
  stored := fun p mem => by
    rw [logical_mono grows (held_eq (laid.stored p mem))]
    rfl
  chunked := laid.chunked
  plain := laid.plain

theorem Laid.joined_mono {pos stop : Nat} (laid : Laid env contents a c pos pieces stop)
    (grows : Extends contents contents') :
    joined env contents' a c pieces = joined env contents a c pieces :=
  List.flatMap_congr fun p mem => held_mono grows (laid.stored p mem)

theorem joined_snoc :
    joined env contents a c (pieces ++ [p]) = joined env contents a c pieces ++ held env contents a c p := by
  rw [joined, List.flatMap_append, List.flatMap_singleton]
  rfl

theorem Laid.snoc_iff {stop : Nat} :
    Laid env contents a c 0 (pieces ++ [p]) stop ↔
      (Laid env contents a c 0 pieces p.offset ∧ (protectedClass c = false → ∀ q ∈ pieces, q.length = chunk)) ∧
        (0 < p.length ∧ p.offset + p.length = stop ∧ (logical env contents a c p).isSome = true ∧
          (protectedClass c = false → p.length ≤ chunk ∧ p.content.length = p.length)) := by
  constructor
  · rintro ⟨tiled, stored, chunked, plain⟩
    obtain ⟨before, some, ends⟩ := tiled_snoc.mp tiled
    refine ⟨⟨⟨before, fun q mem => stored q (List.mem_append_left _ mem),
      fun is => chunked_of_full (chunked_snoc.mp (chunked is)).1,
        fun is q mem => plain is q (List.mem_append_left _ mem)⟩,
      fun is => (chunked_snoc.mp (chunked is)).1⟩, some, ends, stored p (by simp), fun is => ?_⟩
    exact ⟨(chunked_snoc.mp (chunked is)).2, plain is p (by simp)⟩
  · rintro ⟨⟨⟨before, stored, -, plain⟩, full⟩, some, ends, there, sizes⟩
    refine ⟨tiled_snoc.mpr ⟨before, some, ends⟩, ?_, fun is => chunked_snoc.mpr ⟨full is, (sizes is).1⟩, ?_⟩
    · intro q mem
      rcases mem_append.mp mem with old | new
      · exact stored q old
      · cases mem_singleton.mp new
        exact there
    · intro is q mem
      rcases mem_append.mp mem with old | new
      · exact plain is q old
      · cases mem_singleton.mp new
        exact (sizes is).2

theorem laid_nil : Laid env contents a c 0 [] 0 :=
  ⟨rfl, fun _ mem => (by cases mem), fun _ => trivial, fun _ _ mem => (by cases mem)⟩

end

section

variable (env : Environment) (contents : Contents)

structure Frontier (saved : Saved) (bytes : Bytes) : Prop where
  laid : Laid env contents saved.upload.binding.artifact saved.upload.binding.storageClass 0 saved.pieces bytes.length
  content : joined env contents saved.upload.binding.artifact saved.upload.binding.storageClass saved.pieces = bytes
  offset : saved.upload.offset = bytes.length
  inside : bytes.length ≤ saved.upload.binding.length
  one : protectedClass saved.upload.binding.storageClass = true → saved.pieces.length ≤ 1

namespace Append

variable (a : Append)

/-- The bytes in the pieces that an append keeps. -/
def kept : Bytes :=
  joined env contents a.saved.upload.binding.artifact a.saved.upload.binding.storageClass a.saved.pieces

/-- The pieces that are kept are whole, so that another can follow them. -/
structure Whole (done : Bytes) : Prop where
  laid : Laid env contents a.saved.upload.binding.artifact a.saved.upload.binding.storageClass 0 a.saved.pieces
    (a.kept env contents).length
  full : a.native = false → ∀ p ∈ a.saved.pieces, p.length = chunk
  cleared : a.native = true → a.saved.pieces = []
  offset : a.saved.upload.offset = done.length
  inside : done.length ≤ a.saved.upload.binding.length

/-- What was appended is in the pieces and the buffer. -/
structure Filling (done : Bytes) : Prop extends Whole env contents a done where
  done_eq : done = a.kept env contents ++ a.buffer

/-- What is asked to be stored stands for a part of what was appended, the next after the pieces. -/
structure Pending (put : Put) (more : Bool) (done : Bytes) : Prop extends Whole env contents a done where
  start : put.offset = (a.kept env contents).length
  part : ∃ part : Bytes, 0 < part.length ∧ part.length = put.length ∧
    (if a.native then
      plaintext env a.saved.upload.binding.artifact a.saved.upload.binding.storageClass put.bytes put.length = some part
    else put.bytes = part ∧ put.length ≤ chunk) ∧
      done = a.kept env contents ++ part ++ (if more then a.buffer else [])
  more : more = true → a.native = false ∧ put.length = chunk

end Append

end

variable {env : Environment} {contents contents' : Contents} {a a' : Append} {done : Bytes}

theorem held_read {a : Artifact} {c : StorageClass} {p : Piece} {physical : Bytes}
    (stored : (logical env contents a c p).isSome = true)
    (read : readPiece contents p 0 p.content.length = some physical) :
    (if protectedClass c then plaintext env a c physical p.length else some physical) =
      some (held env contents a c p) := by
  have is := held_eq stored
  rw [logical, read] at is
  dsimp only at is
  split at is
  · cases is
  rename_i bytes opened
  split at is
  · rw [opened, is]
  · cases is

theorem Frontier.filling {saved : Saved} (frontier : Frontier env contents saved done) {pieces : List Piece}
    {start : Nat} {buffer body : Bytes}
    (eq : done = joined env contents saved.upload.binding.artifact saved.upload.binding.storageClass pieces ++ buffer)
    (laid : Laid env contents saved.upload.binding.artifact saved.upload.binding.storageClass 0 pieces
      (joined env contents saved.upload.binding.artifact saved.upload.binding.storageClass pieces).length)
    (full : protectedClass saved.upload.binding.storageClass = false → ∀ p ∈ pieces, p.length = chunk)
    (cleared : protectedClass saved.upload.binding.storageClass = true → pieces = []) :
    (⟨{ saved with pieces }, start, buffer, body⟩ : Append).Filling env contents done :=
  ⟨⟨laid, full, cleared, frontier.offset, frontier.inside⟩, eq⟩

theorem Frontier.resume {saved : Saved} (frontier : Frontier env contents saved done)
    (h : Append.resume env contents saved = some a) : a.Filling env contents done ∧ a.isFull = false ∧
      a.saved.upload = saved.upload ∧ a.body = [] := by
  unfold Append.resume at h
  dsimp only at h
  split at h
  · cases h
  split at h
  · rename_i native
    have cleared : saved.resumed = { saved with pieces := [] } := if_pos native
    rw [cleared] at h
    have nothing : ∀ {buffer : Bytes}, done = buffer → (⟨{ saved with pieces := [] }, saved.upload.offset, buffer, []⟩ :
        Append).Filling env contents done := fun eq =>
      frontier.filling eq laid_nil (fun _ p mem => (by cases mem)) (fun _ => rfl)
    have sealed : ∀ {buffer : Bytes}, (⟨{ saved with pieces := [] }, saved.upload.offset, buffer, []⟩ :
        Append).isFull = false := by
      intro buffer
      simp [Append.isFull, Append.native, native]
    split at h
    · rename_i empty
      cases h
      have none : saved.pieces = [] := List.head?_eq_none_iff.mp empty
      refine ⟨nothing ?_, sealed, rfl, rfl⟩
      rw [← frontier.content, none]
      rfl
    · rename_i p first
      split at h
      · cases h
      rename_i physical read
      split at h
      · cases h
      rename_i buffer opened
      cases h
      refine ⟨nothing ?_, sealed, rfl, rfl⟩
      obtain ⟨rest, is⟩ := List.head?_eq_some_iff.mp first
      have one := frontier.one native
      have single : saved.pieces = [p] := by
        rw [is, List.length_cons] at one
        rw [is, List.length_eq_zero_iff.mp (Nat.le_zero.mp (Nat.le_of_succ_le_succ one))]
      have stored := frontier.laid.stored p (single ▸ List.mem_singleton_self p)
      have whole : held env contents saved.upload.binding.artifact saved.upload.binding.storageClass p = done := by
        rw [← frontier.content, single]
        exact (List.flatMap_singleton ..).symm
      have back := held_read stored read
      rw [if_pos native, whole, ← held_length stored, whole, ← frontier.offset, opened] at back
      exact (Option.some.inj back).symm
  · rename_i native
    have native : protectedClass saved.upload.binding.storageClass = false := Bool.eq_false_iff.mpr native
    have open' : protectedClass saved.upload.binding.storageClass = true → saved.pieces = [] := fun is =>
      (by rw [native] at is; cases is)
    have notFull : ∀ {saved : Saved} {start : Nat}, (⟨saved, start, [], []⟩ : Append).isFull = false := by
      intro saved start
      simp [Append.isFull, chunk]
    split at h
    · rename_i empty
      cases h
      have none : saved.pieces = [] := List.getLast?_eq_none_iff.mp empty
      have same : saved.resumed = saved := by simp [Saved.resumed, native, none]
      have nothing : done = [] := by
        rw [← frontier.content, none]
        rfl
      rw [same]
      refine ⟨frontier.filling ?_ ?_ (fun _ p mem => ?_) open', notFull, rfl, rfl⟩
      · rw [frontier.content, append_nil]
      · rw [frontier.content]
        exact frontier.laid
      · rw [none] at mem
        cases mem
    · rename_i p last
      obtain ⟨before, is⟩ := List.getLast?_eq_some_iff.mp last
      have laid := frontier.laid
      rw [is, Laid.snoc_iff] at laid
      obtain ⟨⟨laid, full⟩, some, ends, stored, sizes⟩ := laid
      have kept := laid.joined_length
      rw [Nat.zero_add] at kept
      split at h
      · rename_i short
        split at h
        · cases h
        rename_i buffer read
        cases h
        have dropped : saved.resumed = { saved with pieces := before } := by
          simp [Saved.resumed, native, is, short]
        have back := held_read stored read
        rw [native] at back
        rw [dropped]
        have size := held_length stored
        rw [← Option.some.inj back] at size
        have notFull : (⟨{ saved with pieces := before }, saved.upload.offset, buffer, []⟩ : Append).isFull = false := by
          have : ¬chunk ≤ buffer.length := by omega
          simp [Append.isFull, this]
        refine ⟨frontier.filling ?_ (kept ▸ laid) full (fun is => (by rw [native] at is; cases is)), notFull, rfl, rfl⟩
        rw [← frontier.content, is, joined_snoc, Option.some.inj back]
      · rename_i long
        cases h
        have same : saved.resumed = saved := by simp [Saved.resumed, native, is, long]
        rw [same]
        refine ⟨frontier.filling ?_ ?_ (fun _ q mem => ?_) open', notFull, rfl, rfl⟩
        · rw [frontier.content, append_nil]
        · rw [frontier.content]
          exact frontier.laid
        · rw [is] at mem
          rcases mem_append.mp mem with old | new
          · exact full native q old
          · cases mem_singleton.mp new
            have := (sizes native).1
            omega

theorem Append.Filling.receive (filling : a.Filling env contents done) {data : Bytes}
    (h : a.receive data = some a') : a'.Filling env contents (done ++ data) ∧ a'.start = a.start ∧
      a'.saved.upload.binding = a.saved.upload.binding ∧ a'.body = a.body ++ data := by
  unfold Append.receive at h
  dsimp only at h
  split at h
  · cases h
  rename_i fits
  cases h
  refine ⟨⟨⟨filling.laid, filling.full, filling.cleared, ?_, ?_⟩, ?_⟩, rfl, rfl, rfl⟩
  · show a.saved.upload.offset + data.length = _
    rw [filling.offset, List.length_append]
  · have := filling.offset
    simp only [Saved.advance] at fits ⊢
    rw [List.length_append]
    omega
  · show done ++ data = a.kept env contents ++ (a.buffer ++ data)
    rw [filling.done_eq, List.append_assoc]

theorem Append.Whole.tail (whole : a.Whole env contents done) : a.saved.tail = (a.kept env contents).length :=
  whole.laid.tiled.last_stop

theorem Append.Filling.cut (filling : a.Filling env contents done) (full : a.isFull = true) :
    a.cut.1.Pending env contents a.cut.2 true done := by
  obtain ⟨open', long⟩ := Bool.and_eq_true_iff.mp full
  have open' : a.native = false := by simpa using open'
  have long : chunk ≤ a.buffer.length := by simpa using long
  have size : (a.buffer.take chunk).length = chunk := by
    rw [List.length_take]
    exact Nat.min_eq_left long
  refine ⟨⟨filling.laid, filling.full, filling.cleared, filling.offset, filling.inside⟩, filling.tail,
    ⟨a.buffer.take chunk, ?_, size, ?_, ?_⟩, fun _ => ⟨open', rfl⟩⟩
  · rw [size]
    decide
  · rw [show a.cut.1.native = false from open']
    exact ⟨rfl, le_rfl⟩
  · show done = a.kept env contents ++ a.buffer.take chunk ++ a.buffer.drop chunk
    rw [List.append_assoc, List.take_append_drop]
    exact filling.done_eq

theorem Append.Filling.close (opens : env.Opens) (filling : a.Filling env contents done) (notFull : a.isFull = false)
    {nonces : Nat → Nat} {put : Option Put} (h : a.close env nonces = some put) :
    match put with
    | none => Frontier env contents a.saved done
    | some put => a.Pending env contents put false done := by
  have whole : a.Whole env contents done := filling.toWhole
  unfold Append.close at h
  split at h
  · cases h
  split at h
  · rename_i empty
    cases h
    have same : a.kept env contents = done := by rw [filling.done_eq, empty, append_nil]
    refine ⟨same ▸ filling.laid, same, filling.offset, filling.inside, fun is => ?_⟩
    rw [filling.cleared is]
    exact Nat.zero_le _
  · rename_i some
    have pos : 0 < a.buffer.length := List.length_pos_iff.mpr some
    have rest : done = a.kept env contents ++ a.buffer ++ (if false then a.buffer else []) := by
      rw [filling.done_eq]
      exact (append_nil _).symm
    split at h
    · rename_i native
      obtain ⟨bytes, sealed, is⟩ := Option.map_eq_some_iff.mp h
      cases is
      have none : a.kept env contents = [] := by
        rw [Append.kept, filling.cleared native]
        rfl
      have fits : a.buffer.length ≤ a.saved.upload.binding.artifact.length := by
        have inside := filling.inside
        rw [filling.done_eq, none, List.nil_append] at inside
        exact inside
      refine ⟨whole, by rw [none]; rfl, ⟨a.buffer, pos, rfl, ?_, rest⟩, fun is => (by cases is)⟩
      rw [if_pos native]
      exact plaintext_sealContent opens sealed fits
    · rename_i native
      cases h
      have open' : a.native = false := Bool.eq_false_iff.mpr native
      have short : a.buffer.length < chunk := by simpa [Append.isFull, open'] using notFull
      refine ⟨whole, filling.tail, ⟨a.buffer, pos, rfl, ?_, rest⟩, fun is => (by cases is)⟩
      rw [if_neg native]
      exact ⟨rfl, short.le⟩

theorem Append.Pending.push {put : Put} {more : Bool} (pending : a.Pending env contents put more done) {id : Uuid}
    (stored : contents id = some put.bytes) :
    if more then (a.push (put.piece env id)).Filling env contents done
    else Frontier env contents (a.saved.push (put.piece env id)) done := by
  obtain ⟨part, pos, size, stands, eq⟩ := pending.part
  let p := put.piece env id
  let artifact := a.saved.upload.binding.artifact
  let c := a.saved.upload.binding.storageClass
  have read : readPiece contents p 0 p.content.length = some put.bytes := by
    show (if _ then none else (contents id).map _) = _
    rw [if_neg (by simp), stored, Option.map_some, List.drop_zero]
    exact congrArg some (List.take_of_length_le (le_rfl))
  have is : logical env contents artifact c p = some part := by
    rw [logical, read]
    by_cases native : a.native = true
    · rw [if_pos native] at stands
      simp only [if_pos (show protectedClass c = true from native)]
      rw [show plaintext env artifact c put.bytes p.length = some part from stands]
      exact if_pos size
    · rw [if_neg native] at stands
      simp only [if_neg (show ¬protectedClass c = true from native)]
      rw [stands.1]
      exact if_pos size
  have there : (logical env contents artifact c p).isSome = true := by rw [is]; rfl
  have whole : held env contents artifact c p = part := by rw [held, is]; rfl
  have kept : (a.push p).kept env contents = a.kept env contents ++ part := by
    show joined env contents artifact c (a.saved.pieces ++ [p]) = _
    rw [joined_snoc, whole]
    rfl
  have laid : Laid env contents artifact c 0 (a.saved.pieces ++ [p]) (a.kept env contents ++ part).length := by
    refine Laid.snoc_iff.mpr ⟨⟨?_, pending.full⟩, ?_, ?_, there, fun open' => ?_⟩
    · rw [show p.offset = (a.kept env contents).length from pending.start]
      exact pending.laid
    · show 0 < put.length
      omega
    · rw [List.length_append, size]
      exact congrArg (· + put.length) pending.start
    · rw [if_neg (show ¬a.native = true by rw [show a.native = false from open']; decide)] at stands
      refine ⟨stands.2, ?_⟩
      show put.bytes.length = put.length
      rw [stands.1, size]
  cases more with
  | true =>
    obtain ⟨open', long⟩ := pending.more rfl
    refine ⟨⟨kept ▸ laid, fun _ q mem => ?_, fun native => ?_, pending.offset, pending.inside⟩, ?_⟩
    · rcases mem_append.mp mem with old | new
      · exact pending.full open' q old
      · cases mem_singleton.mp new
        exact long
    · rw [show a.native = true from native] at open'
      cases open'
    · rw [kept]
      exact eq
  | false =>
    have all : a.kept env contents ++ part = done := by
      rw [eq]
      exact (append_nil _).symm
    refine ⟨all ▸ laid, kept.trans all, pending.offset, pending.inside, fun native => ?_⟩
    show (a.saved.pieces ++ [p]).length ≤ 1
    rw [pending.cleared native]
    exact le_rfl

theorem Frontier.mono {saved : Saved} (frontier : Frontier env contents saved done)
    (grows : Extends contents contents') : Frontier env contents' saved done :=
  ⟨frontier.laid.mono grows, (frontier.laid.joined_mono grows).trans frontier.content, frontier.offset, frontier.inside,
    frontier.one⟩

theorem Append.Whole.kept_mono (whole : a.Whole env contents done) (grows : Extends contents contents') :
    a.kept env contents' = a.kept env contents := whole.laid.joined_mono grows

theorem Append.Whole.mono (whole : a.Whole env contents done) (grows : Extends contents contents') :
    a.Whole env contents' done :=
  ⟨whole.kept_mono grows ▸ whole.laid.mono grows, whole.full, whole.cleared, whole.offset, whole.inside⟩

theorem Append.Filling.mono (filling : a.Filling env contents done) (grows : Extends contents contents') :
    a.Filling env contents' done :=
  ⟨filling.toWhole.mono grows, by rw [filling.toWhole.kept_mono grows]; exact filling.done_eq⟩

theorem Append.Pending.mono {put : Put} {more : Bool} (pending : a.Pending env contents put more done)
    (grows : Extends contents contents') : a.Pending env contents' put more done := by
  have kept := pending.toWhole.kept_mono grows
  refine ⟨pending.toWhole.mono grows, by rw [kept]; exact pending.start, ?_, pending.more⟩
  rw [kept]
  exact pending.part

end RssMdm.ContentStore
