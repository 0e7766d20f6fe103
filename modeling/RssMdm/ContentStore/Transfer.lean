/- module: ContentStore/Transfer
   source: crates/content-service/src/upload.rs, journal.rs, reader.rs
   digest: Any number of appends to any uploads, stopped or superseded anywhere: what was acknowledged is what the
   saved frontiers hold, what is finished, and what is served. -/

import RssMdm.ContentStore.Frontier
import RssMdm.Lib.Sha256

set_option autoImplicit false

namespace RssMdm.ContentStore

open Lib
open Function (update_eq_self update_idem update_of_ne update_self)

/-- The bounds on the length of a binding in `begin_in` and `protected::reservation`. -/
structure Binding.Accepted (env : Environment) (b : Binding) : Prop where
  some : 0 < b.length
  allowed : b.length ≤ env.maxArtifactBytes
  reserved : protectedClass b.storageClass = true → b.length ≤ nativeLimit

namespace Transfer

section

/-- The transactions that change neither uploads nor the documents of manifests. -/
inductive Elsewhere (db : Database) : Database → Prop where
  | insertPiece {lease : Lease} {piece : Piece} {expires : Int} {db' : Database} :
      db.insertPiece lease piece expires = some db' → Elsewhere db db'
  | notWritten (id : Uuid) : Elsewhere db (db.notWritten id)
  | locate (id : Uuid) : Elsewhere db (db.locate id)
  | confirm (id : Uuid) : Elsewhere db (db.confirm id)
  | settleObject (id : Uuid) : Elsewhere db (db.settleObject id)
  | markOrphans (clock now : Int) : Elsewhere db (db.markOrphans clock now)
  | pin {id : Uuid} {k : ManifestKey} {expires : Int} {db' : Database} {document : Manifest} :
      db.pin id k expires = some (db', document) → Elsewhere db db'
  | unpin (id : Uuid) : Elsewhere db (db.unpin id)
  | deleting (k : ManifestKey) : Elsewhere db (db.deletingIn k)
  | settleManifest (k : ManifestKey) (document : Manifest) : Elsewhere db (db.settleManifest k document)

/-- How far a request has come. -/
inductive Work where
  | idle
  | claimed (lease : Lease) (saved : Saved)
  | receiving (lease : Lease) (a : Append)
  | putting (lease : Lease) (a : Append) (put : Put) (more : Bool)
  | written (lease : Lease) (a : Append) (piece : Piece) (more : Bool)
  | saving (lease : Lease) (a : Append)
  | finishing (lease : Lease) (saved : Saved)
  | settling (lease : Lease)

def Work.lease : Work → Option Lease
  | .idle => none
  | .claimed lease _ => some lease
  | .receiving lease _ => some lease
  | .putting lease _ _ _ => some lease
  | .written lease _ _ _ => some lease
  | .saving lease _ => some lease
  | .finishing lease _ => some lease
  | .settling lease => some lease

/-- The journal, the provider's objects and the requests. The bodies whose append reached its frontier are kept for
the record, by upload. -/
structure World where
  db : Database
  contents : Contents
  workers : Nat → Work
  acknowledged : Uuid → List Bytes

def World.start : World := ⟨.empty, fun _ => none, fun _ => .idle, fun _ => []⟩

def World.work (w : World) (i : Nat) (work : Work) : World := { w with workers := Function.update w.workers i work }

def World.store (w : World) (db : Database) : World := { w with db }

def World.opened (w : World) (key : Uuid) : Uuid → List Bytes :=
  if w.db.uploads.contains key then w.acknowledged else Function.update w.acknowledged key []

def World.acknowledge (w : World) (key : Uuid) (body : Bytes) : World :=
  { w with acknowledged := Function.update w.acknowledged key (w.acknowledged key ++ [body]) }

inductive Label where
  | save (key : Uuid)
  | sweep
  | other

variable (env : Environment)

def afterRead (lease : Lease) (a : Append) : Work :=
  if a.isFull then .putting lease a.cut.1 a.cut.2 true else .receiving lease a

def afterBody (lease : Lease) (a : Append) : Option Put → Work
  | none => .saving lease a
  | some put => .putting lease a put false

/-- One step of some request; any of them may also stop for good between two steps. -/
inductive Step : World → Label → World → Prop where
  | begin {w : World} {db : Database} {actor : String} {id : Uuid} {binding : Binding} {expires now : Int}
      {upload : Upload} : binding.actor = actor → binding.Accepted env →
      w.db.begin (env.storageKey actor id) id binding expires now = some (db, upload) →
      Step w .other { w.store db with acknowledged := w.opened (env.storageKey actor id) }
  | claimAppend {w : World} {i : Nat} {db : Database} {actor : String} {id : Uuid} {offset : Nat} {now : Int}
      {lease : Lease} {saved : Saved} : w.workers i = .idle → lease.key = env.storageKey actor id →
      (∀ j l, (w.workers j).lease = some l → l.epoch ≠ lease.epoch) →
      w.db.claim actor id (some offset) now lease = some (db, saved) →
      Step w .other ((w.store db).work i (.claimed lease saved))
  | claimFinish {w : World} {i : Nat} {db : Database} {actor : String} {id : Uuid} {now : Int}
      {lease : Lease} {saved : Saved} : w.workers i = .idle → lease.key = env.storageKey actor id →
      (∀ j l, (w.workers j).lease = some l → l.epoch ≠ lease.epoch) →
      w.db.claim actor id none now lease = some (db, saved) →
      Step w .other ((w.store db).work i (.finishing lease saved))
  | resume {w : World} {i : Nat} {lease : Lease} {saved : Saved} {a : Append} :
      w.workers i = .claimed lease saved → Append.resume env w.contents saved = some a →
      Step w .other (w.work i (.receiving lease a))
  | receive {w : World} {i : Nat} {lease : Lease} {a a' : Append} (data : Bytes) :
      w.workers i = .receiving lease a → 0 < data.length → data.length ≤ 65536 → a.receive data = some a' →
      Step w .other (w.work i (afterRead lease a'))
  | close {w : World} {i : Nat} {lease : Lease} {a : Append} {put : Option Put} (nonces : Nat → Nat) :
      w.workers i = .receiving lease a → a.close env nonces = some put →
      Step w .other (w.work i (afterBody lease a put))
  | write {w : World} {i : Nat} {lease : Lease} {a : Append} {put : Put} {more : Bool} (id : Uuid) :
      w.workers i = .putting lease a put more → w.contents id = none →
      Step w .other ({ w with contents := Function.update w.contents id (some put.bytes) }.work i
        (.written lease a (put.piece env id) more))
  | confirm {w : World} {i : Nat} {lease : Lease} {a : Append} {piece : Piece} {more : Bool} :
      w.workers i = .written lease a piece more →
      Step w .other (w.work i (if more then .receiving lease (a.push piece) else .saving lease (a.push piece)))
  | save {w : World} {i : Nat} {db : Database} {lease : Lease} {a : Append} :
      w.workers i = .saving lease a → w.db.saveFrontier lease a.saved = some db →
      Step w (.save lease.key) (((w.store db).work i .idle).acknowledge lease.key a.body)
  | finish {w : World} {i : Nat} {db : Database} {lease : Lease} {saved : Saved} {inspections : OrdMap String String} :
      w.workers i = .finishing lease saved → finishAccepts env w.contents saved = true →
      w.db.finish lease saved inspections = some db → Step w .other ((w.store db).work i (.settling lease))
  | drop {w : World} {i : Nat} {lease : Lease} : (w.workers i).lease = some lease →
      Step w .other (w.work i (.settling lease))
  | release {w : World} {i : Nat} {lease : Lease} : w.workers i = .settling lease →
      Step w .other ((w.store (w.db.release lease)).work i .idle)
  | stop {w : World} (i : Nat) : Step w .other (w.work i .idle)
  /-- A write of a request that has stopped may still reach the provider. -/
  | stray {w : World} (id : Uuid) (bytes : Bytes) : w.contents id = none →
      Step w .other { w with contents := Function.update w.contents id (some bytes) }
  | elsewhere {w : World} {db : Database} : Elsewhere w.db db → Step w .other (w.store db)
  | sweep {w : World} (now : Int) : Step w .sweep (w.store (w.db.sweepUploads now))

inductive Reached : World → Prop where
  | start : Reached .start
  | step {w w' : World} {label : Label} : Reached w → Step env w label w' → Reached w'

end

section

variable (env : Environment) (contents : Contents)

/-- What a request holds in memory continues the frontier of the upload it has the lease of. -/
def Fits (u : UploadRow) (bytes : Bytes) : Work → Prop
  | .idle => True
  | .claimed _ saved => saved = u.document
  | .receiving _ a => a.saved.upload.binding = u.document.upload.binding ∧ a.isFull = false ∧
      a.Filling env contents (bytes ++ a.body)
  | .putting _ a put more => a.saved.upload.binding = u.document.upload.binding ∧ (more = true → a.isFull = false) ∧
      a.Pending env contents put more (bytes ++ a.body)
  | .written _ a piece more => a.saved.upload.binding = u.document.upload.binding ∧ (more = true → a.isFull = false) ∧
      ∃ put id, piece = put.piece env id ∧ contents id = some put.bytes ∧
        a.Pending env contents put more (bytes ++ a.body)
  | .saving _ a => a.saved.upload.binding = u.document.upload.binding ∧
      Frontier env contents a.saved (bytes ++ a.body)
  | .finishing _ saved => saved = u.document
  | .settling _ => True

/-- An upload whose frontier holds these bytes; once complete, their digest is the one it was bound to. -/
structure Sound (u : UploadRow) (bytes : Bytes) : Prop where
  frontier : Frontier env contents u.document bytes
  accepted : u.document.upload.binding.Accepted env
  complete : u.complete = true → u.document.upload.offset = u.document.upload.binding.length ∧
    env.sha256 bytes = u.document.upload.binding.sha256

def Checked (k : ManifestKey) (pieces : List Piece) : Prop :=
  (k.length ≤ env.maxArtifactBytes ∧ (protectedClass k.storageClass = true → k.length ≤ nativeLimit)) ∧
    ∃ small, checkPieces env contents ⟨k.length, k.sha256⟩ k.storageClass pieces = some (small, k.sha256)

structure Inv (w : World) : Prop where
  uploads : ∀ {key u}, w.db.uploads.get? key = some u → Sound env w.contents u (w.acknowledged key).flatten
  workers : ∀ {i lease u}, (w.workers i).lease = some lease → w.db.uploads.get? lease.key = some u →
    u.epoch = some lease.epoch → u.complete = false →
      Fits env w.contents u (w.acknowledged lease.key).flatten (w.workers i)
  manifests : ∀ {k m}, w.db.manifests.get? k = some m → Checked env w.contents k m.document.pieces

section

variable {env : Environment} {w : World}

theorem Fits.mono {contents contents' : Contents} {u : UploadRow} {bytes : Bytes} {work : Work}
    (fits : Fits env contents u bytes work) (grows : Extends contents contents') :
    Fits env contents' u bytes work := by
  cases work with
  | idle => trivial
  | claimed => exact fits
  | receiving | putting => exact ⟨fits.1, fits.2.1, fits.2.2.mono grows⟩
  | written =>
    obtain ⟨binding, short, put, id, is, stored, pending⟩ := fits
    exact ⟨binding, short, put, id, is, grows _ _ stored, pending.mono grows⟩
  | saving => exact ⟨fits.1, fits.2.mono grows⟩
  | finishing => exact fits
  | settling => trivial

theorem Checked.mono {contents contents' : Contents} {k : ManifestKey} {pieces : List Piece}
    (checked : Checked env contents k pieces) (grows : Extends contents contents') :
    Checked env contents' k pieces := by
  obtain ⟨bounds, small, is⟩ := checked
  obtain ⟨shape, laid, rfl, digest⟩ := checkPieces_eq_some.mp is
  rw [← laid.joined_mono grows] at digest
  exact ⟨bounds, _, checkPieces_eq_some.mpr ⟨shape, laid.mono grows, rfl, digest⟩⟩

theorem Inv.grow (inv : Inv env w) {contents' : Contents} (grows : Extends w.contents contents') :
    Inv env { w with contents := contents' } where
  uploads := fun found =>
    ⟨(inv.uploads found).frontier.mono grows, (inv.uploads found).accepted, (inv.uploads found).complete⟩
  workers := fun holds found epoch open' => (inv.workers holds found epoch open').mono grows
  manifests := fun found => (inv.manifests found).mono grows

theorem Inv.work (inv : Inv env w) {i : Nat} {work : Work}
    (fits : ∀ {lease u}, work.lease = some lease → w.db.uploads.get? lease.key = some u →
      u.epoch = some lease.epoch → u.complete = false →
        Fits env w.contents u (w.acknowledged lease.key).flatten work) : Inv env (w.work i work) where
  uploads := inv.uploads
  workers := by
    intro j lease u holds found epoch open'
    show Fits env w.contents u _ (Function.update w.workers i work j)
    by_cases same : j = i
    · subst same
      have here : Function.update w.workers j work j = work := update_self ..
      rw [here]
      exact fits (here ▸ holds) found epoch open'
    · have here : Function.update w.workers i work j = w.workers j := update_of_ne same ..
      rw [here]
      exact inv.workers (here ▸ holds) found epoch open'
  manifests := inv.manifests

theorem Inv.row (inv : Inv env w) {db : Database} {key : Uuid} {u : UploadRow} {bodies : List Bytes}
    {workers : Nat → Work} (uploads : db.uploads = w.db.uploads.insert key u)
    (manifests : ∀ {k m}, db.manifests.get? k = some m → Checked env w.contents k m.document.pieces)
    (sound : Sound env w.contents u bodies.flatten)
    (others : ∀ {j lease}, (workers j).lease = some lease → lease.key ≠ key → workers j = w.workers j)
    (fits : ∀ {j lease}, (workers j).lease = some lease → lease.key = key → u.epoch = some lease.epoch →
      u.complete = false → Fits env w.contents u bodies.flatten (workers j)) :
    Inv env ⟨db, w.contents, workers, Function.update w.acknowledged key bodies⟩ where
  uploads := by
    intro key' u' found
    change db.uploads.get? key' = some u' at found
    rw [uploads, OrdMap.get?_insert] at found
    by_cases same : key' = key
    · subst same
      rw [if_pos rfl] at found
      cases found
      show Sound env w.contents u (Function.update w.acknowledged key' bodies key').flatten
      rw [update_self]
      exact sound
    · rw [if_neg same] at found
      show Sound env w.contents u' (Function.update w.acknowledged key bodies key').flatten
      rw [update_of_ne same]
      exact inv.uploads found
  workers := by
    intro j lease u' holds found epoch open'
    change (workers j).lease = some lease at holds
    change db.uploads.get? lease.key = some u' at found
    rw [uploads, OrdMap.get?_insert] at found
    show Fits env w.contents u' (Function.update w.acknowledged key bodies lease.key).flatten (workers j)
    by_cases same : lease.key = key
    · rw [if_pos same] at found
      cases found
      rw [same, update_self]
      exact fits holds same epoch open'
    · rw [if_neg same] at found
      rw [update_of_ne same]
      have here := others holds same
      rw [here] at holds ⊢
      exact inv.workers holds found epoch open'
  manifests := manifests

theorem Inv.same (inv : Inv env w) {db : Database} {key : Uuid} {u : UploadRow}
    {workers : Nat → Work} (uploads : db.uploads = w.db.uploads.insert key u)
    (manifests : ∀ {k m}, db.manifests.get? k = some m → Checked env w.contents k m.document.pieces)
    (sound : Sound env w.contents u (w.acknowledged key).flatten)
    (others : ∀ {j lease}, (workers j).lease = some lease → lease.key ≠ key → workers j = w.workers j)
    (fits : ∀ {j lease}, (workers j).lease = some lease → lease.key = key → u.epoch = some lease.epoch →
      u.complete = false → Fits env w.contents u (w.acknowledged key).flatten (workers j)) :
    Inv env ⟨db, w.contents, workers, w.acknowledged⟩ := by
  have next := inv.row uploads manifests sound others fits
  rw [update_eq_self] at next
  exact next

theorem others_update {workers : Nat → Work} {i : Nat} {work : Work} {key : Uuid}
    (own : ∀ {lease}, work.lease = some lease → lease.key = key) {j : Nat} {lease : Lease}
    (holds : (Function.update workers i work j).lease = some lease) (ne : lease.key ≠ key) :
    Function.update workers i work j = workers j := by
  by_cases same : j = i
  · subst same
    rw [update_self] at holds
    exact absurd (own holds) ne
  · exact update_of_ne same ..

end

section

variable {env : Environment} {w : World} {db : Database} {i : Nat} {lease : Lease}

theorem Inv.begin (inv : Inv env w) {key id : Uuid} {binding : Binding} {expires now : Int} {upload : Upload}
    (accepted : binding.Accepted env) (h : w.db.begin key id binding expires now = some (db, upload)) :
    Inv env { w.store db with acknowledged := w.opened key } := by
  unfold Database.begin at h
  split at h
  · rename_i old found
    split at h
    · cases h
    cases h
    have same : w.opened key = w.acknowledged := if_pos (by rw [OrdMap.contains, found]; rfl)
    rw [same]
    exact inv
  · rename_i absent
    cases h
    have fresh : w.opened key = Function.update w.acknowledged key [] :=
      if_neg (by rw [OrdMap.contains, absent]; exact Bool.false_ne_true)
    rw [fresh]
    refine inv.row rfl inv.manifests ⟨⟨laid_nil, rfl, rfl, Nat.zero_le _, fun _ => Nat.zero_le _⟩, accepted,
      fun complete => (by cases complete)⟩ (fun _ _ => rfl) (fun _ _ epoch => (by cases epoch))

def heldRow (u : UploadRow) (lease : Lease) : UploadRow :=
  { u with epoch := some lease.epoch, heldUntil := lease.heldUntil }

theorem claim_eq_some {db db' : Database} {actor : String} {id : Uuid} {offset : Option Nat} {now : Int} {saved : Saved}
    (h : db.claim actor id offset now lease = some (db', saved)) : ∃ row, db.uploads.get? lease.key = some row ∧
      saved = row.document ∧ db' = { db with uploads := db.uploads.insert lease.key (heldRow row lease) } := by
  unfold Database.claim at h
  split at h
  · cases h
  rename_i row found
  dsimp only at h
  split at h
  · cases h
  split at h
  · cases h
  · split at h
    · cases h
    · cases h
      exact ⟨row, found, rfl, rfl⟩

theorem Inv.claim (inv : Inv env w) {actor : String} {id : Uuid} {offset : Option Nat} {now : Int} {saved : Saved}
    (fresh : ∀ j l, (w.workers j).lease = some l → l.epoch ≠ lease.epoch)
    (h : w.db.claim actor id offset now lease = some (db, saved)) {work : Work} (holds : work.lease = some lease)
    (fits : ∀ {u : UploadRow} {bytes : Bytes}, u.document = saved → Fits env w.contents u bytes work) :
    Inv env ((w.store db).work i work) := by
  obtain ⟨row, found, rfl, rfl⟩ := claim_eq_some h
  have sound := inv.uploads found
  refine inv.same rfl inv.manifests ⟨sound.frontier, sound.accepted, sound.complete⟩
    (others_update fun own => (by cases holds.symm.trans own; rfl)) (fun {j l} has same epoch _ => ?_)
  by_cases here : j = i
  · subst here
    rw [update_self]
    exact fits rfl
  · rw [update_of_ne here] at has
    exact absurd (Option.some.inj epoch).symm (fresh j l has)

theorem Inv.release (inv : Inv env w) :
    Inv env ((w.store (w.db.release lease)).work i .idle) := by
  unfold Database.release
  split
  · exact inv.work (fun own => (by cases own))
  rename_i row found
  rw [Database.leased, Option.filter_eq_some_iff] at found
  have sound := inv.uploads found.1
  exact inv.same rfl inv.manifests ⟨sound.frontier, sound.accepted, sound.complete⟩
    (others_update fun own => (by cases own)) (fun _ _ epoch => (by cases epoch))

theorem Inv.save (inv : Inv env w) {a : Append} (holds : w.workers i = .saving lease a)
    (h : w.db.saveFrontier lease a.saved = some db) :
    Inv env (((w.store db).work i .idle).acknowledge lease.key a.body) := by
  unfold Database.saveFrontier at h
  split at h
  · cases h
  rename_i row leased
  cases h
  obtain ⟨found, epoch, open'⟩ := leased_eq_some leased
  have fits := inv.workers (i := i) (by rw [holds]; rfl) found epoch open'
  rw [holds] at fits
  obtain ⟨binding, frontier⟩ := fits
  have accepted := (inv.uploads found).accepted
  refine inv.row rfl inv.manifests ⟨?_, binding ▸ accepted, fun complete => ?_⟩
    (others_update fun own => (by cases own)) (fun _ _ epoch => (by cases epoch))
  · rw [List.flatten_concat]
    exact frontier
  · rw [show row.complete = true from complete] at open'
    cases open'

theorem Inv.finish (inv : Inv env w) {saved : Saved} {inspections : OrdMap String String}
    (holds : w.workers i = .finishing lease saved) (accepts : finishAccepts env w.contents saved = true)
    (h : w.db.finish lease saved inspections = some db) : Inv env ((w.store db).work i (.settling lease)) := by
  unfold Database.finish at h
  split at h
  · cases h
  rename_i row leased
  dsimp only at h
  split at h
  · cases h
  cases h
  obtain ⟨found, epoch, open'⟩ := leased_eq_some leased
  have fits := inv.workers (i := i) (by rw [holds]; rfl) found epoch open'
  rw [holds] at fits
  obtain rfl : saved = row.document := fits
  have sound := inv.uploads found
  obtain ⟨whole, small, checked⟩ := finishAccepts_iff.mp accepts
  obtain ⟨-, -, -, hashed⟩ := checkPieces_eq_some.mp checked
  rw [sound.frontier.content] at hashed
  have accepted := sound.accepted
  let ready : UploadRow := { row with
    document := { row.document with upload := { row.document.upload with complete := true } }
    complete := true }
  have complete : Sound env w.contents ready (w.acknowledged lease.key).flatten :=
    ⟨⟨sound.frontier.laid, sound.frontier.content, sound.frontier.offset, sound.frontier.inside,
      sound.frontier.one⟩, accepted, fun _ => ⟨whole, hashed.symm⟩⟩
  refine inv.same rfl (fun {k m} found => ?_) complete
    (others_update fun own => (by cases own; rfl)) (fun _ _ _ open' => (by cases open'))
  change (w.db.manifests.insert _ _).get? k = some m at found
  rcases OrdMap.get?_insert_cases found with ⟨same, rfl⟩ | ⟨-, found⟩
  · subst same
    dsimp only
    split
    · rename_i old ready
      exact inv.manifests (Option.filter_eq_some_iff.mp ready).1
    · exact ⟨⟨accepted.allowed, accepted.reserved⟩, small, checked⟩
  · exact inv.manifests found

theorem Elsewhere.uploads {db : Database} (moved : Elsewhere w.db db) : db.uploads = w.db.uploads := by
  cases moved with
  | insertPiece h =>
    unfold Database.insertPiece at h
    split at h
    · cases h
    split at h
    · cases h
    · cases h
      rfl
  | pin h =>
    unfold Database.pin at h
    split at h
    · cases h
    split at h
    · cases h
    · cases h
      rfl
  | _ => rfl

theorem Elsewhere.manifests {db : Database} (moved : Elsewhere w.db db) {k : ManifestKey} {m : ManifestRow}
    (found : db.manifests.get? k = some m) :
    ∃ old, w.db.manifests.get? k = some old ∧ m.document = old.document := by
  cases moved with
  | insertPiece h =>
    unfold Database.insertPiece at h
    split at h
    · cases h
    split at h
    · cases h
    · cases h
      exact ⟨m, found, rfl⟩
  | pin h =>
    unfold Database.pin at h
    split at h
    · cases h
    split at h
    · cases h
    · cases h
      exact ⟨m, found, rfl⟩
  | deleting k' | settleManifest k' =>
    change (w.db.manifests.modify k' _).get? k = some m at found
    rw [OrdMap.get?_modify] at found
    split at found
    · obtain ⟨old, there, rfl⟩ := Option.map_eq_some_iff.mp found
      refine ⟨old, there, ?_⟩
      split <;> rfl
    · exact ⟨m, found, rfl⟩
  | _ => exact ⟨m, found, rfl⟩

theorem Inv.elsewhere (inv : Inv env w) (moved : Elsewhere w.db db) : Inv env (w.store db) where
  uploads := fun found => inv.uploads (moved.uploads ▸ found)
  workers := fun holds found epoch open' => inv.workers holds (moved.uploads ▸ found) epoch open'
  manifests := fun found => by
    obtain ⟨old, there, same⟩ := moved.manifests found
    exact same ▸ inv.manifests there

theorem Inv.sweep (inv : Inv env w) (now : Int) : Inv env (w.store (w.db.sweepUploads now)) := by
  have kept : ∀ {key u}, (w.db.sweepUploads now).uploads.get? key = some u → w.db.uploads.get? key = some u := by
    intro key u found
    change (w.db.uploads.filter _).get? key = some u at found
    rw [OrdMap.get?_filter, Option.filter_eq_some_iff] at found
    exact found.1
  exact ⟨fun found => inv.uploads (kept found),
    fun holds found epoch open' => inv.workers holds (kept found) epoch open', inv.manifests⟩

end

end

section

variable {env : Environment} {w w' : World} {label : Label}

theorem inv_start : Inv env .start where
  uploads := fun found => (by cases found)
  workers := fun holds => (by cases holds)
  manifests := fun found => (by cases found)

theorem cut_notFull {a a' : Append} {data : Bytes} (notFull : a.isFull = false) (bounded : data.length ≤ 65536)
    (h : a.receive data = some a') : a'.cut.1.isFull = false := by
  unfold Append.receive at h
  dsimp only at h
  split at h
  · cases h
  cases h
  by_cases native : a.native = true
  · exact Bool.and_eq_false_iff.mpr (.inl (congrArg not native))
  have short : a.buffer.length < chunk := by
    have open' : a.native = false := Bool.eq_false_iff.mpr native
    simpa [Append.isFull, open'] using notFull
  have rest : ¬chunk ≤ ((a.buffer ++ data).drop chunk).length := by
    rw [List.length_drop, List.length_append]
    have : 65536 ≤ chunk := by decide
    omega
  exact Bool.and_eq_false_iff.mpr (.inr (decide_eq_false rest))

theorem Inv.step (opens : env.Opens) (inv : Inv env w) (step : Step env w label w') : Inv env w' := by
  cases step with
  | begin _ accepted h => exact inv.begin accepted h
  | claimAppend _ _ fresh h | claimFinish _ _ fresh h => exact inv.claim fresh h rfl (fun same => same.symm)
  | @resume i _ saved _ is resumed =>
    refine inv.work fun own found epoch open' => ?_
    cases own
    have fits := inv.workers (i := i) (by rw [is]; rfl) found epoch open'
    rw [is] at fits
    obtain rfl : saved = _ := fits
    obtain ⟨filling, notFull, same, nothing⟩ := (inv.uploads found).frontier.resume resumed
    refine ⟨by rw [same], notFull, ?_⟩
    rw [nothing, List.append_nil]
    exact filling
  | @receive i lease a a' data is _ bounded received =>
    refine inv.work fun {lease' u} own found epoch open' => ?_
    have same : lease' = lease := by
      unfold afterRead at own
      split at own <;> exact (Option.some.inj own).symm
    subst same
    have fits := inv.workers (i := i) (by rw [is]; rfl) found epoch open'
    rw [is] at fits
    obtain ⟨binding, notFull, filling⟩ := fits
    obtain ⟨filling', -, kept, body⟩ := filling.receive received
    rw [List.append_assoc, ← body] at filling'
    unfold afterRead
    split
    · rename_i full
      exact ⟨kept.trans binding, fun _ => cut_notFull notFull bounded received, filling'.cut full⟩
    · rename_i short
      exact ⟨kept.trans binding, Bool.eq_false_iff.mpr short, filling'⟩
  | @close i lease a put nonces is closed =>
    refine inv.work fun {lease' u} own found epoch open' => ?_
    have same : lease' = lease := by
      cases put <;> exact (Option.some.inj own).symm
    subst same
    have fits := inv.workers (i := i) (by rw [is]; rfl) found epoch open'
    rw [is] at fits
    obtain ⟨binding, notFull, filling⟩ := fits
    have next := filling.close opens notFull closed
    cases put with
    | none => exact ⟨binding, next⟩
    | some put => exact ⟨binding, fun is => (by cases is), next⟩
  | @write i _ _ put _ id is fresh =>
    have grown := inv.grow (.update fresh put.bytes)
    refine grown.work fun own found epoch open' => ?_
    cases own
    have fits := grown.workers (i := i) (by rw [is]; rfl) found epoch open'
    rw [is] at fits
    obtain ⟨binding, short, pending⟩ := fits
    exact ⟨binding, short, put, id, rfl, update_self .., pending⟩
  | @confirm i lease a piece more is =>
    refine inv.work fun {lease' u} own found epoch open' => ?_
    have same : lease' = lease := by
      cases more <;> exact (Option.some.inj own).symm
    subst same
    have fits := inv.workers (i := i) (by rw [is]; rfl) found epoch open'
    rw [is] at fits
    obtain ⟨binding, short, put, id, rfl, stored, pending⟩ := fits
    have next := pending.push stored
    cases more with
    | false => exact ⟨binding, next⟩
    | true => exact ⟨binding, short rfl, next⟩
  | save is saved => exact inv.save is saved
  | finish is accepts finished => exact inv.finish is accepts finished
  | drop => exact inv.work fun _ _ _ _ => trivial
  | release => exact inv.release
  | stop => exact inv.work fun own => (by cases own)
  | stray _ bytes fresh => exact inv.grow (.update fresh bytes)
  | elsewhere moved => exact inv.elsewhere moved
  | sweep now => exact inv.sweep now

theorem Reached.inv (opens : env.Opens) (reached : Reached env w) : Inv env w := by
  induction reached with
  | start => exact inv_start
  | step _ step ih => exact ih.step opens step

theorem Step.frontier_kept (inv : Inv env w) (step : Step env w label w') {key : Uuid} {u : UploadRow}
    (found : w.db.uploads.get? key = some u) (unsaved : label ≠ .save key) (unswept : label ≠ .sweep) :
    w'.acknowledged key = w.acknowledged key ∧ ∃ u', w'.db.uploads.get? key = some u' ∧
      u'.document.pieces = u.document.pieces ∧ u'.document.upload.offset = u.document.upload.offset := by
  -- A row that is written again keeps its frontier, whichever upload it is of.
  have rewritten : ∀ {uploads : OrdMap Uuid UploadRow} {key' : Uuid} {row row' : UploadRow},
      w.db.uploads.get? key' = some row → uploads = w.db.uploads.insert key' row' →
      row'.document.pieces = row.document.pieces → row'.document.upload.offset = row.document.upload.offset →
        ∃ u', uploads.get? key = some u' ∧ u'.document.pieces = u.document.pieces ∧
          u'.document.upload.offset = u.document.upload.offset := by
    rintro _ key' row row' there rfl pieces offset
    rw [OrdMap.get?_insert]
    by_cases same : key = key'
    · subst same
      cases there.symm.trans found
      exact ⟨row', if_pos rfl, pieces, offset⟩
    · exact ⟨u, (if_neg same).trans found, rfl, rfl⟩
  cases step with
  | @begin db actor id binding expires now upload _ _ h =>
    unfold Database.begin at h
    split at h
    · rename_i old there
      split at h
      · cases h
      cases h
      have same : w.opened (env.storageKey actor id) = w.acknowledged :=
        if_pos (by rw [OrdMap.contains, there]; rfl)
      exact ⟨congrFun same key, u, found, rfl, rfl⟩
    · rename_i absent
      cases h
      have ne : key ≠ env.storageKey actor id := by
        rintro rfl
        rw [absent] at found
        cases found
      have fresh : w.opened (env.storageKey actor id) =
          Function.update w.acknowledged (env.storageKey actor id) [] :=
        if_neg (by rw [OrdMap.contains, absent]; exact Bool.false_ne_true)
      refine ⟨(congrFun fresh key).trans (update_of_ne ne ..), u, ?_, rfl, rfl⟩
      exact (OrdMap.get?_insert ..).trans ((if_neg ne).trans found)
  | claimAppend _ _ _ h | claimFinish _ _ _ h =>
    obtain ⟨row, there, -, rfl⟩ := claim_eq_some h
    exact ⟨rfl, rewritten there rfl rfl rfl⟩
  | resume | receive | close | write | confirm => exact ⟨rfl, u, found, rfl, rfl⟩
  | @save _ _ lease _ _ saved =>
    have ne : key ≠ lease.key := fun same => unsaved (congrArg Label.save same.symm)
    refine ⟨update_of_ne ne .., u, ?_, rfl, rfl⟩
    unfold Database.saveFrontier at saved
    split at saved
    · cases saved
    · cases saved
      exact (OrdMap.get?_insert ..).trans ((if_neg ne).trans found)
  | @finish i db lease saved _ is _ finished =>
    refine ⟨rfl, ?_⟩
    show ∃ u', db.uploads.get? key = some u' ∧ _
    unfold Database.finish at finished
    split at finished
    · cases finished
    rename_i row leased
    dsimp only at finished
    split at finished
    · cases finished
    cases finished
    obtain ⟨there, epoch, open'⟩ := leased_eq_some leased
    have fits := inv.workers (i := i) (by rw [is]; rfl) there epoch open'
    rw [is] at fits
    obtain rfl : saved = row.document := fits
    exact rewritten there rfl rfl rfl
  | drop => exact ⟨rfl, u, found, rfl, rfl⟩
  | @release i lease _ =>
    refine ⟨rfl, ?_⟩
    show ∃ u', (w.db.release lease).uploads.get? key = some u' ∧ _
    unfold Database.release
    split
    · exact ⟨u, found, rfl, rfl⟩
    · rename_i row there
      rw [Database.leased, Option.filter_eq_some_iff] at there
      exact rewritten there.1 rfl rfl rfl
  | stop | stray => exact ⟨rfl, u, found, rfl, rfl⟩
  | elsewhere moved => exact ⟨rfl, u, (congrArg (·.get? key) moved.uploads).trans found, rfl, rfl⟩
  | sweep => exact absurd rfl unswept

structure Stored (env : Environment) (contents : Contents) (saved : Saved) (bodies : List Bytes) : Prop where
  counted : saved.upload.offset = bodies.flatten.length
  inside : saved.upload.offset ≤ saved.upload.binding.length
  tiled : protectedClass saved.upload.binding.storageClass = false →
    Tiled Piece.offset Piece.length 0 saved.pieces saved.upload.offset ∧
      ∀ i p, saved.pieces[i]? = some p → 1 ≤ p.length ∧ p.length ≤ chunk ∧
        (i + 1 < saved.pieces.length → p.length = chunk)
  sealed : protectedClass saved.upload.binding.storageClass = true → saved.pieces = [] ∧ saved.upload.offset = 0 ∨
    ∃ p, saved.pieces = [p] ∧ p.offset = 0 ∧ p.length = saved.upload.offset
  bytes : ∃ parts : List Bytes, List.Forall₂ (fun p part => logical env contents saved.upload.binding.artifact
    saved.upload.binding.storageClass p = some part) saved.pieces parts ∧ parts.flatten = bodies.flatten
  checked : saved.upload.offset = saved.upload.binding.length → saved.pieces.length ≤ 8193 →
    ∃ small, checkPieces env contents saved.upload.binding.artifact saved.upload.binding.storageClass saved.pieces =
      some (small, env.sha256 bodies.flatten)
  finished : saved.upload.offset = saved.upload.binding.length → saved.pieces.length ≤ 8193 →
    (finishAccepts env contents saved = true ↔ env.sha256 bodies.flatten = saved.upload.binding.sha256)
  served : finishAccepts env contents saved = true →
    ∃ v, verify env contents saved.upload.binding.artifact saved.upload.binding.storageClass saved.pieces = some v ∧
      v.Streams contents bodies.flatten

theorem Sound.stored {contents : Contents} {u : UploadRow} {bodies : List Bytes}
    (sound : Sound env contents u bodies.flatten) : Stored env contents u.document bodies := by
  have frontier := sound.frontier
  have laid := frontier.laid
  have accepted := sound.accepted
  have whole : u.document.upload.offset = u.document.upload.binding.length → u.document.pieces.length ≤ 8193 →
      ∃ small, checkPieces env contents u.document.upload.binding.artifact u.document.upload.binding.storageClass
        u.document.pieces = some (small, env.sha256 bodies.flatten) := by
    intro all few
    have size : bodies.flatten.length = u.document.upload.binding.length := frontier.offset ▸ all
    have nonempty : u.document.pieces ≠ [] := by
      intro none
      have content := frontier.content
      rw [none] at content
      rw [← content] at size
      exact absurd size.symm accepted.some.ne'
    have one := fun is => le_antisymm (frontier.one is) (List.length_pos_iff.mpr nonempty)
    rw [size] at laid
    exact ⟨_, checkPieces_eq_some.mpr ⟨⟨nonempty, few, one⟩, laid, rfl, by rw [frontier.content]⟩⟩
  refine ⟨frontier.offset, frontier.offset ▸ frontier.inside, fun open' => ?_, fun is => ?_, ?_, whole, ?_, ?_⟩
  · refine ⟨frontier.offset ▸ laid.tiled, fun i p there => ?_⟩
    have mem := List.mem_of_getElem? there
    exact ⟨laid.tiled.pos mem, (laid.chunked open').le mem, (laid.chunked open').getElem there⟩
  · have one := frontier.one is
    match pieces : u.document.pieces with
    | [] =>
      refine .inl ⟨rfl, ?_⟩
      rw [frontier.offset, ← frontier.content, pieces]
      rfl
    | [p] =>
      have tiled := laid.tiled
      rw [pieces, ← frontier.offset] at tiled
      exact .inr ⟨p, rfl, tiled.1, (Nat.zero_add _).symm.trans tiled.2.2⟩
    | _ :: _ :: _ =>
      rw [pieces] at one
      simp at one
  · refine ⟨u.document.pieces.map (held env contents u.document.upload.binding.artifact
      u.document.upload.binding.storageClass), ?_, ?_⟩
    · exact List.forall₂_map_right_iff.mpr (List.forall₂_same.mpr fun p mem => held_eq (laid.stored p mem))
    · rw [← List.flatMap_def]
      exact frontier.content
  · intro all few
    obtain ⟨small, checked⟩ := whole all few
    rw [finishAccepts_iff, and_iff_right all, checked]
    exact ⟨fun ⟨_, is⟩ => congrArg Prod.snd (Option.some.inj is), fun same => ⟨small, by rw [same]⟩⟩
  · intro accepts
    obtain ⟨all, small, checked⟩ := finishAccepts_iff.mp accepts
    have verified := verify_eq (a := u.document.upload.binding.artifact) checked accepted.allowed accepted.reserved
    have serves := serves_of_checked checked accepted.reserved
    rw [frontier.content] at serves
    exact ⟨_, verified, serves.streams⟩

/-- What was uploaded is what is served: every saved frontier holds exactly what was acknowledged, no step but the
saving of a frontier changes it, and every manifest serves content that was checked. -/
theorem uploaded_is_served (env : Environment) (opens : env.Opens) (w : World) (reached : Reached env w) :
    (∀ key u, w.db.uploads.get? key = some u → Stored env w.contents u.document (w.acknowledged key)) ∧
    (∀ label w' key u, Step env w label w' → label ≠ .save key → label ≠ .sweep →
      w.db.uploads.get? key = some u → w'.acknowledged key = w.acknowledged key ∧
        ∃ u', w'.db.uploads.get? key = some u' ∧ u'.document.pieces = u.document.pieces ∧
          u'.document.upload.offset = u.document.upload.offset) ∧
    ∀ k m, w.db.manifests.get? k = some m →
      ∃ v content, verify env w.contents ⟨k.length, k.sha256⟩ k.storageClass m.document.pieces = some v ∧
        content.length = k.length ∧ env.sha256 content = k.sha256 ∧ v.Streams w.contents content ∧
          ∀ key u, w.db.uploads.get? key = some u → u.complete = true → u.document.upload.binding.manifestKey = k →
            env.sha256 (w.acknowledged key).flatten = env.sha256 content ∧
              (m.document.pieces = u.document.pieces → content = (w.acknowledged key).flatten) := by
  have inv := reached.inv opens
  refine ⟨fun key u found => (inv.uploads found).stored,
    fun label w' key u step unsaved unswept found => step.frontier_kept inv found unsaved unswept,
    fun k m found => ?_⟩
  obtain ⟨⟨allowed, bounded⟩, small, checked⟩ := inv.manifests found
  have verified := verify_eq checked allowed bounded
  obtain ⟨-, laid, -, digest⟩ := checkPieces_eq_some.mp checked
  refine ⟨_, _, verified, (Nat.zero_add _).symm.trans laid.joined_length, digest.symm,
    (serves_of_checked checked bounded).streams, ?_⟩
  rintro key u there complete rfl
  have sound := inv.uploads there
  refine ⟨(sound.complete complete).2.trans digest, fun same => ?_⟩
  rw [same]
  exact sound.frontier.content

end

namespace Sample

/-- Sealing that adds 68 bytes and hides nothing. -/
def env : Environment where
  storageKey _ id := id
  sha256 bytes := (Sha256.digest bytes).foldl (fun n b => 256 * n + b.toNat) 0
  maxArtifactBytes := 1073741824
  sealBytes _ _ bytes := List.replicate overhead 0 ++ bytes
  openBytes _ sealed := some (sealed.drop overhead)

theorem env_opens : env.Opens where
  opened _ _ bytes _ := by
    show some ((List.replicate overhead 0 ++ bytes).drop overhead) = some bytes
    rw [List.drop_left' List.length_replicate]
  sealed _ _ bytes := by
    show (List.replicate overhead 0 ++ bytes).length = _
    rw [List.length_append, List.length_replicate, Nat.add_comm]

def body : Bytes := [1, 2, 3]

def binding : Binding := ⟨"software", .artifact, "tool.msi", 3, env.sha256 body, "alice"⟩

def lease : Lease := ⟨1, 11, 50⟩

def opened : Saved := ⟨⟨1, binding, 0, 100, false⟩, []⟩

def filled : Append := ⟨⟨⟨1, binding, 3, 100, false⟩, []⟩, 0, body, body⟩

def put : Put := ⟨0, 3, body⟩

def rows (saved : Saved) (epoch : Option Uuid) (heldUntil : Int) : Database :=
  { Database.empty with uploads := OrdMap.empty.insert 1 ⟨saved, epoch, heldUntil, 100, false⟩ }

def one (work : Work) : Nat → Work := Function.update (fun _ => .idle) 0 work

def nothing : Contents := fun _ => none

def stored : Contents := Function.update nothing 21 (some body)

def saved : World :=
  ⟨rows (filled.push (put.piece env 21)).saved none 0, stored, one .idle,
    Function.update (fun _ => []) 1 [body]⟩

theorem work_one (db : Database) (contents : Contents) (old work : Work) (acknowledged : Uuid → List Bytes) :
    (⟨db, contents, one old, acknowledged⟩ : World).work 0 work = ⟨db, contents, one work, acknowledged⟩ := by
  unfold World.work one
  rw [update_idem]

theorem fresh (j : Nat) (l : Lease) (is : (one .idle j).lease = some l) : l.epoch ≠ lease.epoch := by
  rw [one, update_eq_self] at is
  cases is

theorem reached_saved : Reached env saved := by
  have initial : Reached env ⟨.empty, nothing, one .idle, fun _ => []⟩ := by
    rw [one, update_eq_self]
    exact .start
  have begun : Reached env ⟨rows opened none 0, nothing, one .idle, Function.update (fun _ => []) 1 []⟩ :=
    .step initial (@Step.begin _ _ _ "alice" 1 binding 100 0 _ rfl ⟨by decide, by decide, fun is => (by cases is)⟩ rfl)
  have claimed : Reached env ⟨rows opened (some 11) 50, nothing, one (.claimed lease opened),
      Function.update (fun _ => []) 1 []⟩ := by
    rw [← work_one _ _ .idle]
    exact .step begun (@Step.claimAppend _ _ 0 _ "alice" 1 0 0 lease opened rfl rfl fresh rfl)
  have resumed : Reached env ⟨rows opened (some 11) 50, nothing, one (.receiving lease ⟨opened, 0, [], []⟩),
      Function.update (fun _ => []) 1 []⟩ := by
    rw [← work_one _ _ (.claimed lease opened)]
    exact .step claimed (@Step.resume _ _ 0 lease opened _ rfl rfl)
  have received : Reached env ⟨rows opened (some 11) 50, nothing, one (.receiving lease filled),
      Function.update (fun _ => []) 1 []⟩ := by
    rw [← work_one _ _ (.receiving lease ⟨opened, 0, [], []⟩)]
    exact .step resumed (@Step.receive _ _ 0 lease _ filled body rfl (by decide) (by decide) rfl)
  have closed : Reached env ⟨rows opened (some 11) 50, nothing, one (.putting lease filled put false),
      Function.update (fun _ => []) 1 []⟩ := by
    rw [← work_one _ _ (.receiving lease filled)]
    exact .step received (@Step.close _ _ 0 lease filled (some put) (fun _ => 0) rfl rfl)
  have written : Reached env ⟨rows opened (some 11) 50, stored, one (.written lease filled (put.piece env 21) false),
      Function.update (fun _ => []) 1 []⟩ := by
    rw [← work_one _ _ (.putting lease filled put false)]
    exact .step closed (@Step.write _ _ 0 lease filled put false 21 rfl rfl)
  have confirmed : Reached env ⟨rows opened (some 11) 50, stored, one (.saving lease (filled.push (put.piece env 21))),
      Function.update (fun _ => []) 1 []⟩ := by
    rw [← work_one _ _ (.written lease filled (put.piece env 21) false)]
    exact .step written (@Step.confirm _ _ 0 lease filled (put.piece env 21) false rfl)
  have last : Reached env ((⟨rows (filled.push (put.piece env 21)).saved none 0, stored, one .idle,
      Function.update (fun _ => []) 1 []⟩ : World).acknowledge 1 body) := by
    rw [← work_one _ _ (.saving lease (filled.push (put.piece env 21)))]
    exact .step confirmed (@Step.save _ _ 0 _ lease (filled.push (put.piece env 21)) rfl rfl)
  have same : Function.update (Function.update (fun _ => []) 1 []) 1 [body] =
      (Function.update (fun _ => []) 1 [body] : Uuid → List Bytes) := update_idem ..
  unfold saved
  rw [← same]
  exact last

theorem uploaded_is_served_saved :
    (∀ key u, saved.db.uploads.get? key = some u → Stored env saved.contents u.document (saved.acknowledged key)) ∧
    (∀ label w' key u, Step env saved label w' → label ≠ .save key → label ≠ .sweep →
      saved.db.uploads.get? key = some u → w'.acknowledged key = saved.acknowledged key ∧
        ∃ u', w'.db.uploads.get? key = some u' ∧ u'.document.pieces = u.document.pieces ∧
          u'.document.upload.offset = u.document.upload.offset) ∧
    ∀ k m, saved.db.manifests.get? k = some m →
      ∃ v content, verify env saved.contents ⟨k.length, k.sha256⟩ k.storageClass m.document.pieces = some v ∧
        content.length = k.length ∧ env.sha256 content = k.sha256 ∧ v.Streams saved.contents content ∧
          ∀ key u, saved.db.uploads.get? key = some u → u.complete = true →
            u.document.upload.binding.manifestKey = k →
              env.sha256 (saved.acknowledged key).flatten = env.sha256 content ∧
                (m.document.pieces = u.document.pieces → content = (saved.acknowledged key).flatten) :=
  uploaded_is_served env env_opens saved reached_saved

end Sample

end Transfer

end RssMdm.ContentStore
