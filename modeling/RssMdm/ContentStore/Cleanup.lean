/- module: ContentStore/Cleanup
   source: crates/content-service/src/cleanup.rs, service.rs
   digest: The transactions that qualify content for deletion, and the workers that run them and the
   transactions of the journal between their provider calls. -/

import RssMdm.ContentStore.Journal

set_option autoImplicit false

namespace RssMdm.ContentStore

open Lib

namespace Database

variable (db : Database)

/-- A manifest that is not deleted names the object. -/
def inManifest (id : Uuid) : Bool :=
  db.manifests.entries.any (fun m => m.2.state ≠ .deleted && m.2.document.names id)

/-- The owner still needs the object, or may still come to. -/
def inUpload (now : Int) (id : Uuid) (o : ObjectRow) : Bool :=
  (db.uploads.get? o.owner).any (fun u =>
    now < u.heldUntil || (now < u.expires && (u.document.names id || !o.located)))

def isOrphan (now : Int) (id : Uuid) (o : ObjectRow) : Bool :=
  o.state ≠ .deleted && o.expires ≤ now && !db.inUpload now id o && !db.inManifest id

def orphans (now : Int) : List (Uuid × ObjectRow) :=
  (db.objects.entries.filter (fun e => db.isOrphan now e.1 e.2)).take 128

/-- The first transaction of `clean_orphans`; `clock` is the database's own. -/
def markOrphans (clock now : Int) : Database :=
  { db with
    pins := db.pins.filter (fun _ pin => clock < pin.expires)
    objects := db.objects.mapValues (fun id o =>
      if (db.orphans now).any (fun row => row.1 = id) then { o with state := .deleting } else o) }

/-- A provider deletion is confirmed. -/
def settleObject (id : Uuid) : Database :=
  { db with objects := db.objects.modify id (fun o => { o with state := .deleted }) }

/-- Uploads that are over, with no object left but those of manifests. -/
def isSpent (now : Int) (key : Uuid) (u : UploadRow) : Bool :=
  u.expires ≤ now && u.heldUntil ≤ now &&
    (u.epoch.isNone || u.document.upload.offset < u.document.upload.binding.length) &&
    !db.objects.entries.any (fun o => o.2.owner = key && o.2.state ≠ .deleted && !db.inManifest o.1)

def sweepUploads (now : Int) : Database :=
  { db with uploads := db.uploads.filter (fun key u => !db.isSpent now key u) }

def isPinned (clock : Int) (k : ManifestKey) : Bool :=
  db.pins.entries.any (fun pin => pin.2.manifest = k && clock < pin.2.expires)

/-- `garbage_in`: manifests that are over or half deleted, and not pinned. -/
def garbage (clock now : Int) : List (ManifestKey × Manifest) :=
  ((db.manifests.entries.filter (fun m =>
    ((m.2.state = .ready && m.2.expires ≤ now) || m.2.state = .deleting) && !db.isPinned clock m.1)).take 128).map
      (fun m => (m.1, m.2.document))

/-- `Garbage::lock_in`: nobody reads the manifest, and no upload of its bytes has time left. -/
def lockIn (clock : Int) (k : ManifestKey) (document : Manifest) : Bool :=
  (db.manifests.get? k).any (fun m => m.document = document && m.state ≠ .deleted) &&
    !db.isPinned clock k &&
    !db.uploads.entries.any (fun u => clock < u.2.expires && u.2.document.upload.binding.sha256 = k.sha256)

def deletingIn (k : ManifestKey) : Database :=
  { db with manifests := db.manifests.modify k (fun m =>
      if m.state = .deleted then m else { m with state := .deleting }) }

/-- The transaction of `reclaim_in`. -/
def reclaim (clock : Int) (k : ManifestKey) (document : Manifest) (referenced : Bool) : Option Database :=
  if db.lockIn clock k document && !referenced then some (db.deletingIn k) else none

/-- The check at the beginning of `Garbage::remove`. -/
def isDeleting (k : ManifestKey) (document : Manifest) : Bool :=
  (db.manifests.get? k).any (fun m => m.state = .deleting && m.document = document)

/-- `Store::coordinate`: where the object of a piece is. -/
def hasCoordinate (p : Piece) : Bool :=
  (db.objects.get? p.id).any (fun o =>
    o.content = p.content && (o.state = .ready || o.state = .deleting) && o.located)

def isDeleted (id : Uuid) : Bool := (db.objects.get? id).any (fun o => o.state = .deleted)

/-- The last transaction of `Garbage::remove`. -/
def settleManifest (k : ManifestKey) (document : Manifest) : Database :=
  { db with manifests := db.manifests.modify k (fun m =>
      if m.state = .deleting && m.document = document then { m with state := .deleted } else m) }

end Database

/-- How far `put_piece` has come. -/
inductive Stage where
  | inserted | written | located
deriving DecidableEq

/-- What a worker still has to do, and what it holds in memory for it. -/
inductive Task where
  | idle
  | appending (lease : Lease) (saved : Saved)
  | putting (lease : Lease) (saved : Saved) (piece : Piece) (stage : Stage)
  | finishing (lease : Lease) (saved : Saved)
  | settling (lease : Lease)
  | cleaning (rows : List (Uuid × Bool))
  | erasing (id : Uuid) (rows : List (Uuid × Bool))
  | erased (id : Uuid) (rows : List (Uuid × Bool))
  | collecting (candidates : List (ManifestKey × Manifest))
  | doomed (k : ManifestKey) (document : Manifest) (candidates : List (ManifestKey × Manifest))
  | removing (k : ManifestKey) (document : Manifest) (todo : List Piece) (candidates : List (ManifestKey × Manifest))
  | unlinking (k : ManifestKey) (document : Manifest) (piece : Piece) (todo : List Piece)
      (candidates : List (ManifestKey × Manifest))
  | unlinked (k : ManifestKey) (document : Manifest) (piece : Piece) (todo : List Piece)
      (candidates : List (ManifestKey × Manifest))

def Task.lease : Task → Option Lease
  | .appending lease _ => some lease
  | .putting lease _ _ _ => some lease
  | .finishing lease _ => some lease
  | .settling lease => some lease
  | _ => none

/-- The journal, the clock, the workers, and what the provider was asked to write and to delete. What a pin
returned is kept for the record. -/
structure World where
  db : Database
  clock : Int
  workers : Nat → Task
  written : List Uuid
  deleted : List Uuid
  returned : Uuid → List Piece

def World.start (clock : Int) : World := ⟨.empty, clock, fun _ => .idle, [], [], fun _ => []⟩

def World.work (w : World) (i : Nat) (task : Task) : World := { w with workers := Function.update w.workers i task }

def World.store (w : World) (db : Database) : World := { w with db }

def protectedClass : StorageClass → Bool
  | .artifact => false
  | .nativeConfiguration => true

def chunk : Nat := 128 * 1024 * 1024

/-- What an append keeps of the frontier: a short tail, or the one sealed piece, is written anew. -/
def Saved.resumed (saved : Saved) : Saved :=
  if protectedClass saved.upload.binding.storageClass then { saved with pieces := [] }
  else if saved.pieces.getLast?.any (fun p => p.length < chunk) then { saved with pieces := saved.pieces.dropLast }
  else saved

def Saved.tail (saved : Saved) : Nat := (saved.pieces.getLast?.map (fun p => p.offset + p.length)).getD 0

def Saved.advance (saved : Saved) (n : Nat) : Saved :=
  { saved with upload := { saved.upload with offset := saved.upload.offset + n } }

def Saved.push (saved : Saved) (p : Piece) : Saved := { saved with pieces := saved.pieces ++ [p] }

/-- What the steps to come are told apart by. -/
inductive Label where
  | claim (lease : Lease)
  | delete (id : Uuid)
  | other

def World.inTime (w : World) (lease : Lease) : Prop := w.clock < lease.heldUntil

instance (w : World) (lease : Lease) : Decidable (w.inTime lease) := inferInstanceAs (Decidable (_ < _))

variable (storageKey : String → Uuid → Uuid)

/-- One transaction or provider call of some worker. Requests work with an earlier reading of the clock. -/
inductive Step : World → Label → World → Prop where
  | tick {w : World} (t : Int) : w.clock ≤ t → Step w .other { w with clock := t }
  | stop {w : World} (i : Nat) : Step w .other (w.work i .idle)
  /-- An unfinished lease is dropped; its release is a task of its own. -/
  | drop {w : World} {i : Nat} {lease : Lease} : (w.workers i).lease = some lease →
      Step w .other (w.work i (.settling lease))
  | begin {w : World} {db : Database} {actor : String} {id : Uuid} {binding : Binding} {expires now : Int}
      {upload : Upload} : now ≤ w.clock → now < expires → binding.actor = actor →
      w.db.begin (storageKey actor id) id binding expires now = some (db, upload) → Step w .other (w.store db)
  | claimAppend {w : World} {i : Nat} {db : Database} {actor : String} {id : Uuid} {offset : Nat} {now : Int}
      {lease : Lease} {saved : Saved} : w.workers i = .idle → now ≤ w.clock → lease.key = storageKey actor id →
      (∀ j l, (w.workers j).lease = some l → l.epoch ≠ lease.epoch) →
      w.db.claim actor id (some offset) now lease = some (db, saved) →
      Step w (.claim lease) ((w.store db).work i (.appending lease saved.resumed))
  | claimFinish {w : World} {i : Nat} {db : Database} {actor : String} {id : Uuid} {now : Int}
      {lease : Lease} {saved : Saved} : w.workers i = .idle → now ≤ w.clock → lease.key = storageKey actor id →
      (∀ j l, (w.workers j).lease = some l → l.epoch ≠ lease.epoch) →
      w.db.claim actor id none now lease = some (db, saved) →
      Step w (.claim lease) ((w.store db).work i (.finishing lease saved))
  | read {w : World} {i : Nat} {lease : Lease} {saved : Saved} (n : Nat) : w.workers i = .appending lease saved →
      w.inTime lease → saved.upload.offset + n ≤ saved.upload.binding.length →
      Step w .other (w.work i (.appending lease (saved.advance n)))
  | insert {w : World} {i : Nat} {db : Database} {lease : Lease} {saved : Saved} {piece : Piece} :
      w.workers i = .appending lease saved → w.inTime lease → piece.offset = saved.tail →
      w.db.insertPiece lease piece saved.upload.expires = some db →
      Step w .other ((w.store db).work i (.putting lease saved piece .inserted))
  | write {w : World} {i : Nat} {lease : Lease} {saved : Saved} {piece : Piece} :
      w.workers i = .putting lease saved piece .inserted → w.inTime lease →
      Step w .other ({ w with written := piece.id :: w.written }.work i (.putting lease saved piece .written))
  | refuse {w : World} {i : Nat} {lease : Lease} {saved : Saved} {piece : Piece} :
      w.workers i = .putting lease saved piece .inserted → w.inTime lease →
      Step w .other ((w.store (w.db.notWritten piece.id)).work i (.settling lease))
  | locate {w : World} {i : Nat} {lease : Lease} {saved : Saved} {piece : Piece} :
      w.workers i = .putting lease saved piece .written → w.inTime lease →
      Step w .other ((w.store (w.db.locate piece.id)).work i (.putting lease saved piece .located))
  | confirm {w : World} {i : Nat} {lease : Lease} {saved : Saved} {piece : Piece} :
      w.workers i = .putting lease saved piece .located → w.inTime lease →
      Step w .other ((w.store (w.db.confirm piece.id)).work i (.appending lease (saved.push piece)))
  | save {w : World} {i : Nat} {db : Database} {lease : Lease} {saved : Saved} :
      w.workers i = .appending lease saved → w.inTime lease → w.db.saveFrontier lease saved = some db →
      Step w .other ((w.store db).work i .idle)
  | release {w : World} {i : Nat} {lease : Lease} : w.workers i = .settling lease →
      Step w .other ((w.store (w.db.release lease)).work i .idle)
  | finish {w : World} {i : Nat} {db : Database} {lease : Lease} {saved : Saved} {inspections : OrdMap String String} :
      w.workers i = .finishing lease saved → w.inTime lease →
      saved.upload.offset = saved.upload.binding.length → w.db.finish lease saved inspections = some db →
      Step w .other ((w.store db).work i (.settling lease))
  | pin {w : World} {db : Database} {id : Uuid} {k : ManifestKey} {expires : Int} {document : Manifest} :
      w.db.pin id k expires = some (db, document) →
      Step w .other { w.store db with returned := Function.update w.returned id document.pieces }
  | unpin {w : World} (id : Uuid) : Step w .other (w.store (w.db.unpin id))
  | mark {w : World} {i : Nat} {now : Int} : w.workers i = .idle → now ≤ w.clock →
      Step w .other ((w.store (w.db.markOrphans w.clock now)).work i
        (.cleaning ((w.db.orphans now).map (fun row => (row.1, row.2.located)))))
  /-- The coordinate was saved before, or is recovered from the provider. -/
  | recover {w : World} {i : Nat} {id : Uuid} {located : Bool} {rows : List (Uuid × Bool)} :
      w.workers i = .cleaning ((id, located) :: rows) → located = true ∨ id ∈ w.written →
      Step w .other ((w.store (w.db.locate id)).work i (.erasing id rows))
  | unrecovered {w : World} {i : Nat} {id : Uuid} {rows : List (Uuid × Bool)} :
      w.workers i = .cleaning ((id, false) :: rows) → Step w .other (w.work i (.cleaning rows))
  | erase {w : World} {i : Nat} {id : Uuid} {rows : List (Uuid × Bool)} : w.workers i = .erasing id rows →
      Step w (.delete id) ({ w with deleted := id :: w.deleted }.work i (.erased id rows))
  | settleErased {w : World} {i : Nat} {id : Uuid} {rows : List (Uuid × Bool)} : w.workers i = .erased id rows →
      Step w .other ((w.store (w.db.settleObject id)).work i (.cleaning rows))
  | keepErased {w : World} {i : Nat} {id : Uuid} {rows : List (Uuid × Bool)} : w.workers i = .erased id rows →
      Step w .other (w.work i (.cleaning rows))
  | sweep {w : World} {i : Nat} {now : Int} : w.workers i = .cleaning [] → now ≤ w.clock →
      Step w .other ((w.store (w.db.sweepUploads now)).work i .idle)
  | collect {w : World} {i : Nat} {now : Int} : w.workers i = .idle → now ≤ w.clock →
      Step w .other (w.work i (.collecting (w.db.garbage w.clock now)))
  | reclaim {w : World} {i : Nat} {db : Database} {k : ManifestKey} {document : Manifest} {referenced : Bool}
      {candidates : List (ManifestKey × Manifest)} : w.workers i = .collecting ((k, document) :: candidates) →
      w.db.reclaim w.clock k document referenced = some db →
      Step w .other ((w.store db).work i (.doomed k document candidates))
  | spare {w : World} {i : Nat} {k : ManifestKey} {document : Manifest} {candidates : List (ManifestKey × Manifest)} :
      w.workers i = .collecting ((k, document) :: candidates) → Step w .other (w.work i (.collecting candidates))
  | remove {w : World} {i : Nat} {k : ManifestKey} {document : Manifest} {candidates : List (ManifestKey × Manifest)} :
      w.workers i = .doomed k document candidates → w.db.isDeleting k document = true →
      Step w .other (w.work i (.removing k document document.pieces candidates))
  | already {w : World} {i : Nat} {k : ManifestKey} {document : Manifest} {piece : Piece} {todo : List Piece}
      {candidates : List (ManifestKey × Manifest)} : w.workers i = .removing k document (piece :: todo) candidates →
      w.db.isDeleted piece.id = true → Step w .other (w.work i (.removing k document todo candidates))
  | find {w : World} {i : Nat} {k : ManifestKey} {document : Manifest} {piece : Piece} {todo : List Piece}
      {candidates : List (ManifestKey × Manifest)} : w.workers i = .removing k document (piece :: todo) candidates →
      w.db.hasCoordinate piece = true → Step w .other (w.work i (.unlinking k document piece todo candidates))
  | unlink {w : World} {i : Nat} {k : ManifestKey} {document : Manifest} {piece : Piece} {todo : List Piece}
      {candidates : List (ManifestKey × Manifest)} : w.workers i = .unlinking k document piece todo candidates →
      Step w (.delete piece.id)
        ({ w with deleted := piece.id :: w.deleted }.work i (.unlinked k document piece todo candidates))
  | settleUnlinked {w : World} {i : Nat} {k : ManifestKey} {document : Manifest} {piece : Piece} {todo : List Piece}
      {candidates : List (ManifestKey × Manifest)} : w.workers i = .unlinked k document piece todo candidates →
      Step w .other ((w.store (w.db.settleObject piece.id)).work i (.removing k document todo candidates))
  | removed {w : World} {i : Nat} {k : ManifestKey} {document : Manifest} {candidates : List (ManifestKey × Manifest)} :
      w.workers i = .removing k document [] candidates →
      Step w .other ((w.store (w.db.settleManifest k document)).work i (.collecting candidates))

end RssMdm.ContentStore
