/- module: ContentStore/Reclamation
   source: crates/content-service/src/cleanup.rs, journal.rs, upload.rs
   digest: Content that a ready manifest or a live frontier names is never deleted, whatever the workers do
   between their transactions. -/

import RssMdm.ContentStore.Cleanup

set_option autoImplicit false

namespace RssMdm.ContentStore

open Lib
open List (any_eq_true mem_cons mem_cons_of_mem mem_cons_self)
open Option (filter_eq_some_iff filter_some map_eq_some_iff map_some some_ne_none)
open Function (update_of_ne update_self)

/-- The frontier of an upload that is unexpired or still held. -/
def Live (clock : Int) (u : UploadRow) : Prop := clock < u.expires ∨ clock < u.heldUntil

def Database.StateIs (db : Database) (id : Uuid) (P : ObjectState → Prop) : Prop :=
  ∃ o, db.objects.get? id = some o ∧ P o.state

/-- The object is on the way out. -/
def Condemned (db : Database) (id : Uuid) : Prop := db.StateIs id (fun s => s = .deleting ∨ s = .deleted)

def Gone (db : Database) (id : Uuid) : Prop := db.StateIs id (· = .deleted)

/-- The object, or a manifest that names it, is on the way out. -/
def Doomed (db : Database) (id : Uuid) : Prop :=
  Condemned db id ∨ ∃ k m, db.manifests.get? k = some m ∧ m.state = .deleting ∧ m.document.names id = true

/-- No finished upload that names the object is still held. -/
def Left (clock : Int) (db : Database) (id : Uuid) : Prop :=
  ∀ key u, db.uploads.get? key = some u → u.complete = true → u.document.names id = true → u.heldUntil ≤ clock

/-- The object is on the way out, and nobody holds a frontier with it. -/
def Abandoned (clock : Int) (db : Database) (id : Uuid) : Prop := Doomed db id ∧ Left clock db id

structure Sound (clock : Int) (db : Database) : Prop where
  rows : ∀ {key u}, db.uploads.get? key = some u →
    u.document.upload.expires = u.expires ∧ u.document.upload.complete = u.complete
  owned : ∀ {key u id}, db.uploads.get? key = some u → u.document.names id = true →
    ∃ o, db.objects.get? id = some o ∧ o.owner = key ∧ (Live clock u → o.state = .ready)
  kept : ∀ {k m id}, db.manifests.get? k = some m → m.state ≠ .deleted → m.document.names id = true →
    ∃ o, db.objects.get? id = some o ∧ (m.state = .ready → o.state = .ready)
  apart : ∀ {k k' m m' id}, db.manifests.get? k = some m → m.state ≠ .deleted → m.document.names id = true →
    db.manifests.get? k' = some m' → m'.state ≠ .deleted → m'.document.names id = true → k = k'
  shared : ∀ {k m key u id}, db.manifests.get? k = some m → m.state ≠ .deleted → m.document.names id = true →
    db.uploads.get? key = some u → u.document.names id = true →
    u.complete = true ∧ u.document.upload.binding.sha256 = k.sha256 ∧ (m.state = .deleting → u.expires ≤ clock)

structure HeldRow (uploads : OrdMap Uuid UploadRow) (lease : Lease) (u : UploadRow) : Prop where
  found : uploads.get? lease.key = some u
  epoch : u.epoch = some lease.epoch
  heldUntil : u.heldUntil = lease.heldUntil
  incomplete : u.complete = false

/-- A piece that the holder may still save. -/
def Usable (db : Database) (key id : Uuid) : Prop :=
  ∃ o, db.objects.get? id = some o ∧ o.owner = key ∧ o.state = .ready ∧ db.inManifest id = false

/-- What is written for a piece, but not read back yet. -/
def Written (db : Database) (key id : Uuid) : Prop :=
  ∃ o, db.objects.get? id = some o ∧ o.owner = key ∧ o.state = .pending ∧ db.inManifest id = false

/-- What the holder of a lease has in memory, while it may act. -/
def Carried (clock : Int) (db : Database) (lease : Lease) (saved : Saved) : Prop :=
  clock < lease.heldUntil →
    (∃ u, HeldRow db.uploads lease u ∧ saved.upload.expires = u.expires ∧ saved.upload.complete = false) ∧
      ∀ id, saved.names id = true → Usable db lease.key id

def Removable (db : Database) (k : ManifestKey) (document : Manifest) : Prop :=
  (∃ m, db.manifests.get? k = some m ∧ m.state = .deleting ∧ m.document = document) ∨
    ∀ id, document.names id = true → Gone db id

/-- What the memory of a worker says about the journal. -/
def Fits (clock : Int) (db : Database) : Task → Prop
  | .appending lease saved => Carried clock db lease saved
  | .putting lease saved piece _ =>
      Carried clock db lease saved ∧ (clock < lease.heldUntil → Written db lease.key piece.id)
  | .finishing lease saved => clock < lease.heldUntil → ∃ u, HeldRow db.uploads lease u ∧ u.document = saved
  | .cleaning rows => ∀ row ∈ rows, Condemned db row.1
  | .erasing id rows => Condemned db id ∧ ∀ row ∈ rows, Condemned db row.1
  | .erased id rows => Condemned db id ∧ ∀ row ∈ rows, Condemned db row.1
  | .removing k document todo _ => Removable db k document ∧ (∀ p ∈ todo, document.names p.id = true) ∧
      ∀ id, document.names id = true → (∃ p ∈ todo, p.id = id) ∨ Gone db id
  | .unlinking k document piece todo _ => Removable db k document ∧
      (∀ p ∈ piece :: todo, document.names p.id = true) ∧
      ∀ id, document.names id = true → (∃ p ∈ piece :: todo, p.id = id) ∨ Gone db id
  | .unlinked k document piece todo _ => Removable db k document ∧
      (∀ p ∈ piece :: todo, document.names p.id = true) ∧
      (∀ id, document.names id = true → (∃ p ∈ piece :: todo, p.id = id) ∨ Gone db id) ∧
      Left clock db piece.id
  | _ => True

/-- Who is pinned is ready, with the pieces that the pin returned. -/
def Pinned (w : World) : Prop :=
  ∀ id pin, w.db.pins.get? id = some pin → w.clock < pin.expires →
    ∃ m, w.db.manifests.get? pin.manifest = some m ∧ m.state = .ready ∧ m.document.pieces = w.returned id

structure Inv (w : World) : Prop where
  time : 0 ≤ w.clock
  sound : Sound w.clock w.db
  pinned : Pinned w
  fits : ∀ i, Fits w.clock w.db (w.workers i)
  deleted : ∀ id ∈ w.deleted, Abandoned w.clock w.db id

/-- What a worker that may act on an upload holds in memory. -/
def Task.memory : Task → Option (Lease × Saved)
  | .appending lease saved => some (lease, saved)
  | .putting lease saved _ _ => some (lease, saved)
  | .finishing lease saved => some (lease, saved)
  | _ => none

/-- No two workers share an epoch, and the rows say who may act. -/
structure Leases (clock : Int) (uploads : OrdMap Uuid UploadRow) (workers : Nat → Task) : Prop where
  complete : ∀ {key u}, uploads.get? key = some u → u.document.upload.complete = u.complete
  alone : ∀ i j l l', (workers i).lease = some l → (workers j).lease = some l' → l.epoch = l'.epoch → i = j
  held : ∀ i {lease saved}, (workers i).memory = some (lease, saved) → saved.upload.complete = false ∧
    (clock < lease.heldUntil → ∃ u, HeldRow uploads lease u)

theorem Inv.at {w : World} {i : Nat} {task : Task} (inv : Inv w) (is : w.workers i = task) :
    Fits w.clock w.db task := is ▸ inv.fits i

theorem lease_at {w : World} {i : Nat} {task : Task} {lease : Lease} (is : w.workers i = task)
    (holds : task.lease = some lease) : (w.workers i).lease = some lease := is ▸ holds

section

variable {clock : Int} {e : Option Uuid} {db db' : Database}

theorem inManifest_eq_true {id : Uuid} : db.inManifest id = true ↔
    ∃ k m, db.manifests.get? k = some m ∧ m.state ≠ .deleted ∧ m.document.names id = true := by
  unfold Database.inManifest
  rw [OrdMap.any_entries]
  simp

theorem inManifest_eq_false {id : Uuid} : db.inManifest id = false ↔
    ∀ {k m}, db.manifests.get? k = some m → m.state ≠ .deleted → m.document.names id = true → False := by
  rw [← Bool.not_eq_true, inManifest_eq_true]
  exact ⟨fun no k m found state names => no ⟨k, m, found, state, names⟩,
    fun no ⟨k, m, found, state, names⟩ => no found state names⟩

/-- The uploads that somebody but the holder of an epoch holds. -/
def Keeps (clock : Int) (e : Option Uuid) (uploads uploads' : OrdMap Uuid UploadRow) : Prop :=
  ∀ key u, uploads.get? key = some u → clock < u.heldUntil → u.epoch ≠ none → u.epoch ≠ e →
    uploads'.get? key = some u

section

variable {uploads uploads' : OrdMap Uuid UploadRow} {lease : Lease} {u : UploadRow}

theorem Keeps.refl : Keeps clock e uploads uploads := fun _ _ found _ _ _ => found

theorem Keeps.fresh {key : Uuid} {row : UploadRow} (absent : uploads.get? key = none) :
    Keeps clock e uploads (uploads.insert key row) := 
  fun _ _ found _ _ _ => OrdMap.get?_insert_absent absent found

theorem Keeps.insert {key : Uuid} {row : UploadRow} (found : uploads.get? key = some u)
    (ended : u.heldUntil ≤ clock ∨ u.epoch = e) : Keeps clock e uploads (uploads.insert key row) := by
  intro key' u' there held leased other
  rw [OrdMap.get?_insert, if_neg]
  · exact there
  · rintro rfl
    cases found.symm.trans there
    exact ended.elim (not_le.mpr held) other

theorem HeldRow.unclaimed (kept : Keeps clock e uploads uploads') (row : HeldRow uploads lease u)
    (inTime : clock < lease.heldUntil) (other : some lease.epoch ≠ e) : HeldRow uploads' lease u where
  found := kept _ _ row.found (row.heldUntil ▸ inTime) (by rw [row.epoch]; exact some_ne_none _)
    (by rw [row.epoch]; exact other)
  epoch := row.epoch
  heldUntil := row.heldUntil
  incomplete := row.incomplete

end

/-- What any transaction by the holder of an epoch, or by nobody, leaves alone. -/
structure Change (clock : Int) (e : Option Uuid) (db db' : Database) : Prop where
  held : Keeps clock e db.uploads db'.uploads
  objects : ∀ {id o}, db.objects.get? id = some o → ∃ o', db'.objects.get? id = some o' ∧ o'.owner = o.owner ∧
    (o.state = .deleted → o'.state = .deleted) ∧ (o.state = .deleting → o'.state = .deleting ∨ o'.state = .deleted)
  guarded : ∀ {id o o' u}, db.objects.get? id = some o → db'.objects.get? id = some o' →
    (o.state = .pending ∨ o.state = .ready) → db.inManifest id = false → db.uploads.get? o.owner = some u →
    clock < u.heldUntil → u.epoch ≠ none → u.epoch ≠ e → o'.state = o.state ∧ db'.inManifest id = false
  deleting : ∀ {k m}, db.manifests.get? k = some m → m.state = .deleting →
    db'.manifests.get? k = some m ∨ ∀ id, m.document.names id = true → Gone db' id
  left : ∀ {id}, Doomed db id → Left clock db id → Left clock db' id

theorem Condemned.keep (change : Change clock e db db') {id : Uuid} (is : Condemned db id) : Condemned db' id := by
  obtain ⟨o, found, state⟩ := is
  obtain ⟨o', found', -, deleted, deleting⟩ := change.objects found
  exact ⟨o', found', state.elim deleting (fun is => .inr (deleted is))⟩

theorem Gone.keep (change : Change clock e db db') {id : Uuid} (is : Gone db id) : Gone db' id := by
  obtain ⟨o, found, state⟩ := is
  obtain ⟨o', found', -, deleted, -⟩ := change.objects found
  exact ⟨o', found', deleted state⟩

theorem Gone.condemned {id : Uuid} (is : Gone db id) : Condemned db id := by
  obtain ⟨o, found, state⟩ := is
  exact ⟨o, found, .inr state⟩

theorem Condemned.final {id : Uuid} {o : ObjectRow} (is : Condemned db id) (found : db.objects.get? id = some o) :
    ¬(o.state = .pending ∨ o.state = .ready) := by
  obtain ⟨o', found', state⟩ := is
  cases found.symm.trans found'
  rintro (other | other) <;> rw [other] at state <;> rcases state with state | state <;> cases state

theorem Doomed.keep (change : Change clock e db db') {id : Uuid} (is : Doomed db id) : Doomed db' id := by
  rcases is with condemned | ⟨k, m, found, state, names⟩
  · exact .inl (condemned.keep change)
  · rcases change.deleting found state with same | gone
    · exact .inr ⟨k, m, same, state, names⟩
    · exact .inl (gone id names).condemned

theorem Abandoned.keep (change : Change clock e db db') {id : Uuid} (is : Abandoned clock db id) :
    Abandoned clock db' id := ⟨is.1.keep change, change.left is.1 is.2⟩

theorem Left.later {clock' : Int} (time : clock ≤ clock') {id : Uuid} (left : Left clock db id) :
    Left clock' db id := fun key u found complete names => (left key u found complete names).trans time

theorem Left.insert {key id : Uuid} {row : UploadRow} (ended : row.complete = false ∨ row.heldUntil ≤ clock)
    (left : Left clock db id) : Left clock { db with uploads := db.uploads.insert key row } id := by
  intro key' u found complete names
  rcases OrdMap.get?_insert_cases found with ⟨-, rfl⟩ | ⟨-, found⟩
  · rcases ended with incomplete | past
    · rw [incomplete] at complete
      cases complete
    · exact past
  · exact left key' u found complete names

theorem Removable.doomed {k : ManifestKey} {document : Manifest} {id : Uuid}
    (removable : Removable db k document) (names : document.names id = true) : Doomed db id := by
  rcases removable with ⟨m, found, deleting, rfl⟩ | gone
  · exact .inr ⟨k, m, found, deleting, names⟩
  · exact .inl (gone id names).condemned

theorem Removable.keep (change : Change clock e db db') {k : ManifestKey} {document : Manifest}
    (is : Removable db k document) : Removable db' k document := by
  rcases is with ⟨m, found, state, rfl⟩ | gone
  · rcases change.deleting found state with same | gone
    · exact .inl ⟨m, same, state, rfl⟩
    · exact .inr gone
  · exact .inr fun id names => (gone id names).keep change

section

variable {lease : Lease} {u : UploadRow} (change : Change clock e db db') (row : HeldRow db.uploads lease u)
  (inTime : clock < lease.heldUntil) (other : some lease.epoch ≠ e)

include change row inTime other

theorem HeldRow.keep : HeldRow db'.uploads lease u := row.unclaimed change.held inTime other

theorem HeldRow.guards {id : Uuid} {o o' : ObjectRow} (found : db.objects.get? id = some o)
    (found' : db'.objects.get? id = some o') (owner : o.owner = lease.key)
    (state : o.state = .pending ∨ o.state = .ready) (unnamed : db.inManifest id = false) :
    o'.state = o.state ∧ db'.inManifest id = false :=
  change.guarded found found' state unnamed (by rw [owner]; exact row.found) (row.heldUntil ▸ inTime)
    (by rw [row.epoch]; exact some_ne_none _) (by rw [row.epoch]; exact other)

theorem Usable.keep {id : Uuid} (usable : Usable db lease.key id) : Usable db' lease.key id := by
  obtain ⟨o, found, owner, state, unnamed⟩ := usable
  obtain ⟨o', found', owner', -⟩ := change.objects found
  obtain ⟨same, unnamed'⟩ := row.guards change inTime other found found' owner (.inr state) unnamed
  exact ⟨o', found', owner'.trans owner, same.trans state, unnamed'⟩

theorem Written.keep {id : Uuid} (written : Written db lease.key id) : Written db' lease.key id := by
  obtain ⟨o, found, owner, state, unnamed⟩ := written
  obtain ⟨o', found', owner', -⟩ := change.objects found
  obtain ⟨same, unnamed'⟩ := row.guards change inTime other found found' owner (.inl state) unnamed
  exact ⟨o', found', owner'.trans owner, same.trans state, unnamed'⟩

end

theorem Carried.keep (change : Change clock e db db') {lease : Lease} {saved : Saved} (other : some lease.epoch ≠ e)
    (carried : Carried clock db lease saved) : Carried clock db' lease saved := by
  intro inTime
  obtain ⟨⟨u, row, same⟩, usable⟩ := carried inTime
  exact ⟨⟨u, row.keep change inTime other, same⟩, fun id names => (usable id names).keep change row inTime other⟩

theorem Fits.keep (change : Change clock e db db') {task : Task}
    (other : ∀ l, task.lease = some l → some l.epoch ≠ e) (fits : Fits clock db task) : Fits clock db' task := by
  cases task with
  | appending lease => exact Carried.keep change (other lease rfl) fits
  | putting lease =>
    obtain ⟨carried, written⟩ := fits
    refine ⟨carried.keep change (other lease rfl), fun inTime => ?_⟩
    obtain ⟨⟨u, row, -⟩, -⟩ := carried inTime
    exact (written inTime).keep change row inTime (other lease rfl)
  | finishing lease =>
    intro inTime
    obtain ⟨u, row, same⟩ := fits inTime
    exact ⟨u, row.keep change inTime (other lease rfl), same⟩
  | cleaning => exact fun row mem => (fits row mem).keep change
  | erasing | erased => exact ⟨fits.1.keep change, fun row mem => (fits.2 row mem).keep change⟩
  | removing | unlinking =>
    exact ⟨fits.1.keep change, fits.2.1, fun id names => (fits.2.2 id names).imp_right (.keep change)⟩
  | unlinked =>
    obtain ⟨removable, named, all, left⟩ := fits
    exact ⟨removable.keep change, named, fun id names => (all id names).imp_right (.keep change),
      change.left (removable.doomed (named _ mem_cons_self)) left⟩
  | idle | settling | collecting | doomed => trivial

theorem Carried.later {clock' : Int} (time : clock ≤ clock') {lease : Lease} {saved : Saved}
    (carried : Carried clock db lease saved) : Carried clock' db lease saved :=
  fun inTime => carried (time.trans_lt inTime)

theorem Fits.later {clock' : Int} (time : clock ≤ clock') {task : Task} (fits : Fits clock db task) :
    Fits clock' db task := by
  cases task with
  | appending => exact Carried.later time fits
  | putting => exact ⟨fits.1.later time, fun inTime => fits.2 (time.trans_lt inTime)⟩
  | finishing => exact fun inTime => fits (time.trans_lt inTime)
  | idle | settling => trivial
  | cleaning | erasing | erased => exact fits
  | collecting | doomed => trivial
  | removing | unlinking => exact fits
  | unlinked => exact ⟨fits.1, fits.2.1, fits.2.2.1, fits.2.2.2.later time⟩

theorem Change.refl : Change clock e db db where
  held := .refl
  objects := fun found => ⟨_, found, rfl, id, .inl⟩
  guarded := by
    intro id o o' u found found' _ unnamed _ _ _ _
    cases found.symm.trans found'
    exact ⟨rfl, unnamed⟩
  deleting := fun found _ => .inl found
  left := fun _ left => left

theorem Change.ofUploads {uploads : OrdMap Uuid UploadRow}
    (held : Keeps clock e db.uploads uploads)
    (left : ∀ {id}, Left clock db id → Left clock { db with uploads } id) :
    Change clock e db { db with uploads } where
  held
  objects := fun found => ⟨_, found, rfl, id, .inl⟩
  guarded := Change.refl.guarded
  deleting := fun found _ => .inl found
  left := fun _ is => left is

theorem Change.ofObjects {objects : OrdMap Uuid ObjectRow}
    (moved : ∀ {id o}, db.objects.get? id = some o → ∃ o', objects.get? id = some o' ∧ o'.owner = o.owner ∧
      (o.state = .deleted → o'.state = .deleted) ∧
      (o.state = .deleting → o'.state = .deleting ∨ o'.state = .deleted) ∧
      ((o.state = .pending ∨ o.state = .ready) → db.inManifest id = false →
        ∀ u, db.uploads.get? o.owner = some u → clock < u.heldUntil → u.epoch ≠ none → u.epoch ≠ e →
          o'.state = o.state)) : Change clock e db { db with objects } where
  held := .refl
  objects := by
    intro id o found
    obtain ⟨o', found', owner, deleted, deleting, -⟩ := moved found
    exact ⟨o', found', owner, deleted, deleting⟩
  guarded := by
    intro id o o' u found found' state unnamed owner held leased other
    obtain ⟨o'', found'', -, -, -, same⟩ := moved found
    have equal : o' = o'' := Option.some.inj (found'.symm.trans found'')
    rw [equal]
    exact ⟨same state unnamed u owner held leased other, unnamed⟩
  deleting := fun found _ => .inl found
  left := fun _ left => left

end

section

variable {clock : Int} {db : Database} {id : Uuid}

/-- A ready manifest or a live frontier names the object. -/
def Named (clock : Int) (db : Database) (id : Uuid) : Prop :=
  (∃ k m, db.manifests.get? k = some m ∧ m.state = .ready ∧ m.document.names id = true) ∨
    ∃ key u, db.uploads.get? key = some u ∧ Live clock u ∧ u.document.names id = true

theorem Sound.condemned_left (sound : Sound clock db) (condemned : Condemned db id) : Left clock db id := by
  intro key u found complete names
  by_contra held
  obtain ⟨o, there, -, kept⟩ := sound.owned found names
  exact condemned.final there (.inr (kept (.inr (not_le.mp held))))

theorem Sound.condemned (sound : Sound clock db) (condemned : Condemned db id) : Abandoned clock db id :=
  ⟨.inl condemned, sound.condemned_left condemned⟩

theorem Sound.unnamed (sound : Sound clock db) (is : Abandoned clock db id) : ¬Named clock db id := by
  obtain ⟨doomed, left⟩ := is
  rintro (⟨k, m, found, ready, names⟩ | ⟨key, u, found, live, names⟩)
  · rcases doomed with condemned | ⟨k', m', found', deleting, names'⟩
    · obtain ⟨o, there, kept⟩ := sound.kept found (by rw [ready]; decide) names
      exact condemned.final there (.inr (kept ready))
    · cases sound.apart found (by rw [ready]; decide) names found' (by rw [deleting]; decide) names'
      cases found.symm.trans found'
      rw [ready] at deleting
      cases deleting
  · rcases doomed with condemned | ⟨k, m, found', deleting, names'⟩
    · obtain ⟨o, there, -, kept⟩ := sound.owned found names
      exact condemned.final there (.inr (kept live))
    · obtain ⟨complete, -, expired⟩ := sound.shared found' (by rw [deleting]; decide) names' found names
      have past := expired deleting
      have unheld := left key u found complete names
      rcases live with unexpired | held <;> omega

theorem Sound.uploads (sound : Sound clock db) {uploads : OrdMap Uuid UploadRow}
    (before : ∀ {key u'}, uploads.get? key = some u' →
      (u'.document.pieces = [] ∧ u'.document.upload.expires = u'.expires ∧
        u'.document.upload.complete = u'.complete) ∨
      ∃ u, db.uploads.get? key = some u ∧ u'.document = u.document ∧ u'.expires = u.expires ∧
        u'.complete = u.complete ∧ (Live clock u' → Live clock u ∨
          ∀ id, u.document.names id = true → db.StateIs id (· = .ready))) : Sound clock { db with uploads } where
  rows := by
    intro key u' found
    rcases before found with ⟨-, rows⟩ | ⟨u, found, document, expires, complete, -⟩
    · exact rows
    · rw [document, expires, complete]
      exact sound.rows found
  owned := by
    intro key u' id found names
    rcases before found with ⟨none, -⟩ | ⟨u, found, document, -, -, live⟩
    · rw [Saved.names, none] at names
      cases names
    rw [document] at names
    obtain ⟨o, there, owner, ready⟩ := sound.owned found names
    refine ⟨o, there, owner, fun is => ?_⟩
    rcases live is with before | all
    · exact ready before
    · obtain ⟨o', there', state⟩ := all id names
      cases there.symm.trans there'
      exact state
  kept := sound.kept
  apart := sound.apart
  shared := by
    intro k m key u' id found state names found' names'
    rcases before found' with ⟨none, -⟩ | ⟨u, found', document, expires, complete, -⟩
    · rw [Saved.names, none] at names'
      cases names'
    · rw [document] at names' ⊢
      rw [expires, complete]
      exact sound.shared found state names found' names'

theorem Sound.objects (sound : Sound clock db) {objects : OrdMap Uuid ObjectRow}
    (moved : ∀ {id o}, db.objects.get? id = some o → ∃ o', objects.get? id = some o' ∧ o'.owner = o.owner ∧
      (o.state = .ready → o'.state = .ready ∨ ¬Named clock db id)) : Sound clock { db with objects } where
  rows := sound.rows
  owned := by
    intro key u id found names
    obtain ⟨o, there, owner, ready⟩ := sound.owned found names
    obtain ⟨o', there', owner', kept⟩ := moved there
    refine ⟨o', there', owner'.trans owner, fun live => ?_⟩
    exact (kept (ready live)).resolve_right fun unnamed => unnamed (.inr ⟨key, u, found, live, names⟩)
  kept := by
    intro k m id found state names
    obtain ⟨o, there, ready⟩ := sound.kept found state names
    obtain ⟨o', there', -, kept⟩ := moved there
    refine ⟨o', there', fun is => ?_⟩
    exact (kept (ready is)).resolve_right fun unnamed => unnamed (.inl ⟨k, m, found, is, names⟩)
  apart := sound.apart
  shared := sound.shared

theorem Sound.later {clock' : Int} (sound : Sound clock db) (time : clock ≤ clock') : Sound clock' db where
  rows := sound.rows
  owned := by
    intro key u id found names
    obtain ⟨o, there, owner, ready⟩ := sound.owned found names
    refine ⟨o, there, owner, fun live => ready ?_⟩
    exact live.imp (time.trans_lt ·) (time.trans_lt ·)
  kept := sound.kept
  apart := sound.apart
  shared := by
    intro k m key u id found state names found' names'
    obtain ⟨complete, digest, past⟩ := sound.shared found state names found' names'
    exact ⟨complete, digest, fun is => (past is).trans time⟩

end

section

variable {w : World} {i : Nat} {task : Task} {db' : Database} {e : Option Uuid}

theorem Inv.next (inv : Inv w) (sound : Sound w.clock db') (pinned : Pinned (w.store db'))
    (change : Change w.clock e w.db db') (mine : ∀ j l, j ≠ i → (w.workers j).lease = some l → some l.epoch ≠ e)
    (fits : Fits w.clock db' task) : Inv ((w.store db').work i task) where
  time := inv.time
  sound := sound
  pinned := pinned
  fits := by
    intro j
    show Fits w.clock db' (Function.update w.workers i task j)
    by_cases here : j = i
    · rw [here, update_self]
      exact fits
    · rw [update_of_ne here]
      exact (inv.fits j).keep change (fun l is => mine j l here is)
  deleted := fun id mem => (inv.deleted id mem).keep change

theorem Inv.nobody (inv : Inv w) (sound : Sound w.clock db') (pinned : Pinned (w.store db'))
    (change : Change w.clock none w.db db') : Inv (w.store db') where
  time := inv.time
  sound := sound
  pinned := pinned
  fits := fun j => (inv.fits j).keep change (fun _ _ => some_ne_none _)
  deleted := fun id mem => (inv.deleted id mem).keep change

theorem Inv.leased (inv : Inv w) (leases : Leases w.clock w.db.uploads w.workers) {lease : Lease}
    (holds : (w.workers i).lease = some lease) (sound : Sound w.clock db') (pinned : Pinned (w.store db'))
    (change : Change w.clock (some lease.epoch) w.db db') (fits : Fits w.clock db' task) :
    Inv ((w.store db').work i task) := by
  refine inv.next sound pinned change (fun j l other is same => ?_) fits
  exact other (leases.alone j i l lease is holds (Option.some.inj same))

theorem Inv.quiet (inv : Inv w) (sound : Sound w.clock db') (pinned : Pinned (w.store db'))
    (change : Change w.clock none w.db db') (fits : Fits w.clock db' task) : Inv ((w.store db').work i task) :=
  inv.next sound pinned change (fun _ _ _ _ => some_ne_none _) fits

theorem Inv.work (inv : Inv w) (fits : Fits w.clock w.db task) : Inv (w.work i task) :=
  inv.quiet inv.sound inv.pinned .refl fits

theorem Inv.send (inv : Inv w) {id : Uuid} (is : Abandoned w.clock w.db id) :
    Inv { w with deleted := id :: w.deleted } where
  time := inv.time
  sound := inv.sound
  pinned := inv.pinned
  fits := inv.fits
  deleted := by
    intro id' mem
    rcases mem_cons.mp mem with rfl | before
    · exact is
    · exact inv.deleted id' before

theorem Inv.send_write (inv : Inv w) (id : Uuid) : Inv { w with written := id :: w.written } where
  time := inv.time
  sound := inv.sound
  pinned := inv.pinned
  fits := inv.fits
  deleted := inv.deleted

theorem Inv.tick (inv : Inv w) {t : Int} (time : w.clock ≤ t) : Inv { w with clock := t } where
  time := inv.time.trans time
  sound := inv.sound.later time
  pinned := fun id pin found unexpired => inv.pinned id pin found (time.trans_lt unexpired)
  fits := fun i => (inv.fits i).later time
  deleted := fun id mem => ⟨(inv.deleted id mem).1, (inv.deleted id mem).2.later time⟩

end

section

variable {w : World} {i : Nat} {db' : Database} {lease : Lease} {saved : Saved}

theorem Inv.begin (inv : Inv w) {key id : Uuid} {binding : Binding} {expires now : Int} {upload : Upload}
    (h : w.db.begin key id binding expires now = some (db', upload)) : Inv (w.store db') := by
  unfold Database.begin at h
  split at h
  · split at h
    · cases h
    · cases h
      exact inv
  · rename_i absent
    cases h
    refine inv.nobody (inv.sound.uploads ?_) inv.pinned (.ofUploads (.fresh absent) (.insert (.inl rfl)))
    intro key' u' found
    rcases OrdMap.get?_insert_cases found with ⟨-, rfl⟩ | ⟨-, found⟩
    · exact .inl ⟨rfl, rfl, rfl⟩
    · exact .inr ⟨u', found, rfl, rfl, rfl, .inl⟩

def UploadRow.hold (row : UploadRow) (lease : Lease) : UploadRow :=
  { row with epoch := some lease.epoch, heldUntil := lease.heldUntil }

def Database.hold (db : Database) (lease : Lease) (row : UploadRow) : Database :=
  { db with uploads := db.uploads.insert lease.key (row.hold lease) }

variable {db : Database}

theorem claim_eq_some {actor : String} {id : Uuid} {offset : Option Nat} {now : Int}
    (h : db.claim actor id offset now lease = some (db', saved)) :
    ∃ row, db.uploads.get? lease.key = some row ∧ now < row.expires ∧ row.heldUntil ≤ now ∧
      row.document.upload.complete = false ∧ saved = row.document ∧ row.document.upload.id = id ∧
      row.document.upload.binding.actor = actor ∧
      db' = db.hold lease row := by
  unfold Database.claim at h
  split at h
  · cases h
  rename_i row found
  dsimp only at h
  split at h
  · cases h
  rename_i unexpired
  split at h
  · cases h
  rename_i same
  split at h
  · cases h
  rename_i free
  cases h
  push Not at same free
  refine ⟨row, found, not_le.mp unexpired, free.1, ?_, rfl, same.1, same.2, rfl⟩
  exact Bool.eq_false_iff.mpr free.2.1

theorem names_iff {id : Uuid} : saved.names id = true ↔ ∃ p ∈ saved.pieces, p.id = id := by
  simp [Saved.names]

theorem names_resumed {id : Uuid} (names : saved.resumed.names id = true) : saved.names id = true := by
  unfold Saved.resumed at names
  split at names
  · cases names
  split at names
  · obtain ⟨p, mem, is⟩ := names_iff.mp names
    exact names_iff.mpr ⟨p, List.mem_of_mem_dropLast mem, is⟩
  · exact names

theorem resumed_upload : saved.resumed.upload = saved.upload := by
  unfold Saved.resumed
  split
  · rfl
  · split <;> rfl

theorem HeldRow.claimed {row : UploadRow} (incomplete : row.complete = false) :
    HeldRow (db.hold lease row).uploads lease (row.hold lease) :=
  ⟨by rw [Database.hold, OrdMap.get?_insert, if_pos rfl], rfl, rfl, incomplete⟩

/-- A claim finds what its upload names still ready. -/
def Intact (w : World) (lease : Lease) : Prop :=
  w.inTime lease → ∀ u, w.db.uploads.get? lease.key = some u → ∀ id, u.document.names id = true →
    w.db.StateIs id (· = .ready)

theorem Inv.claim (inv : Inv w) {actor : String} {id : Uuid} {offset : Option Nat} {now : Int} {task : Task}
    (time : now ≤ w.clock) (h : w.db.claim actor id offset now lease = some (db', saved)) (intact : Intact w lease)
    (is : task = .appending lease saved.resumed ∨ task = .finishing lease saved) :
    Inv ((w.store db').work i task) := by
  obtain ⟨row, found, -, free, open', rfl, -, -, rfl⟩ := claim_eq_some h
  have incomplete : row.complete = false := (inv.sound.rows found).2.symm.trans open'
  have held : HeldRow (w.db.hold lease row).uploads lease (row.hold lease) := .claimed incomplete
  have usable : w.inTime lease → ∀ id, row.document.names id = true → Usable w.db lease.key id := by
    intro inTime id names
    obtain ⟨o, there, owner, -⟩ := inv.sound.owned found names
    obtain ⟨o', there', ready⟩ := intact inTime row found id names
    cases there.symm.trans there'
    refine ⟨o, there, owner, ready, inManifest_eq_false.mpr fun manifest state names' => ?_⟩
    have complete := (inv.sound.shared manifest state names' found names).1
    rw [incomplete] at complete
    cases complete
  refine inv.next (inv.sound.uploads ?_) inv.pinned
    (.ofUploads (.insert found (.inl (free.trans time))) (.insert (.inl incomplete)))
    (fun _ _ _ _ => some_ne_none _) ?_
  · intro key u' found'
    rcases OrdMap.get?_insert_cases found' with ⟨same, rfl⟩ | ⟨-, found'⟩
    · exact .inr ⟨row, same ▸ found, rfl, rfl, rfl, fun live => live.imp .inl (intact · row found)⟩
    · exact .inr ⟨u', found', rfl, rfl, rfl, .inl⟩
  · rcases is with rfl | rfl
    · intro inTime
      refine ⟨⟨_, held, ?_⟩, fun id names => usable inTime id (names_resumed names)⟩
      rw [resumed_upload]
      exact ⟨(inv.sound.rows found).1, open'⟩
    · exact fun _ => ⟨_, held, rfl⟩

variable {clock : Int}

theorem unnamed_of_fresh (sound : Sound clock db) {id : Uuid} (fresh : db.objects.get? id = none) :
    db.inManifest id = false := by
  refine inManifest_eq_false.mpr fun manifest state names => ?_
  obtain ⟨o, found, -⟩ := sound.kept manifest state names
  rw [fresh] at found
  cases found

theorem Inv.insertPiece (inv : Inv w) {piece : Piece} {expires : Int}
    (task : w.workers i = .appending lease saved) (h : w.db.insertPiece lease piece expires = some db') :
    Inv ((w.store db').work i (.putting lease saved piece .inserted)) := by
  unfold Database.insertPiece at h
  split at h
  · cases h
  rename_i row found
  split at h
  · cases h
  rename_i fresh
  cases h
  have absent : w.db.objects.get? piece.id = none := by
    simpa [OrdMap.contains] using fresh
  let row : ObjectRow := ⟨lease.key, piece.content, false, expires, .pending⟩
  have others : ∀ {id o}, w.db.objects.get? id = some o → (w.db.objects.insert piece.id row).get? id = some o :=
    OrdMap.get?_insert_absent absent
  have change : Change w.clock none w.db { w.db with objects := w.db.objects.insert piece.id row } :=
    .ofObjects fun found => ⟨_, others found, rfl, fun is => is, .inl, fun _ _ _ _ _ _ _ => rfl⟩
  have carried : Carried w.clock w.db lease saved := inv.at task
  refine inv.quiet (inv.sound.objects fun found => ⟨_, others found, rfl, .inl⟩) inv.pinned change ?_
  refine ⟨carried.keep change (some_ne_none _), fun _ => ⟨row, ?_, rfl, rfl, unnamed_of_fresh inv.sound absent⟩⟩
  rw [OrdMap.get?_insert, if_pos rfl]

section

variable {clock : Int} {db : Database} {u : UploadRow} {id : Uuid} {o : ObjectRow} (found : db.objects.get? id = some o)
  (state : o.state = .pending) {f : ObjectRow → ObjectRow} (keeps : (f o).owner = o.owner)

include found state keeps

theorem Change.ofPending (row : HeldRow db.uploads lease u) (owner : o.owner = lease.key) :
    Change clock (some lease.epoch) db { db with objects := db.objects.modify id f } := by
  refine .ofObjects fun {j o'} there => ?_
  rw [OrdMap.get?_modify, there]
  split
  · rename_i here
    rw [here, found] at there
    cases there
    refine ⟨_, rfl, keeps, fun is => ?_, fun is => ?_, fun _ _ u' owner' _ _ other => ?_⟩
    · rw [state] at is
      cases is
    · rw [state] at is
      cases is
    · rw [owner] at owner'
      cases row.found.symm.trans owner'
      exact absurd row.epoch other
  · exact ⟨o', rfl, rfl, fun is => is, .inl, fun _ _ _ _ _ _ _ => rfl⟩

theorem Sound.ofPending (sound : Sound clock db) : Sound clock { db with objects := db.objects.modify id f } := by
  refine sound.objects fun {j o'} there => ?_
  rw [OrdMap.get?_modify, there]
  split
  · rename_i here
    rw [here, found] at there
    cases there
    refine ⟨_, rfl, keeps, fun ready => ?_⟩
    rw [state] at ready
    cases ready
  · exact ⟨o', rfl, rfl, .inl⟩

end

theorem Inv.notWritten (inv : Inv w) (leases : Leases w.clock w.db.uploads w.workers) {piece : Piece} {stage : Stage}
    (task : w.workers i = .putting lease saved piece stage) (inTime : w.inTime lease) :
    Inv ((w.store (w.db.notWritten piece.id)).work i (.settling lease)) := by
  have fits := inv.at task
  obtain ⟨⟨u, row, -⟩, -⟩ := fits.1 inTime
  obtain ⟨o, found, owner, state, -⟩ := fits.2 inTime
  have keeps : (if !o.located && (o.state = .pending || o.state = .deleting) then
      { o with state := .deleted } else o).owner = o.owner := by
    split <;> rfl
  exact inv.leased leases (lease_at task rfl) (.ofPending found state keeps inv.sound) inv.pinned
    (.ofPending found state keeps row owner) trivial

variable {objects : OrdMap Uuid ObjectRow}

theorem Change.ofStates {e : Option Uuid}
    (same : ∀ {id o}, db.objects.get? id = some o → ∃ o', objects.get? id = some o' ∧
      o'.owner = o.owner ∧ o'.state = o.state) :
    Change clock e db { db with objects } := by
  refine .ofObjects fun found => ?_
  obtain ⟨o', found', owner, state⟩ := same found
  exact ⟨o', found', owner, fun is => state.trans is, fun is => .inl (state.trans is), fun _ _ _ _ _ _ _ => state⟩

theorem Sound.ofStates (sound : Sound clock db)
    (same : ∀ {id o}, db.objects.get? id = some o → ∃ o', objects.get? id = some o' ∧
      o'.owner = o.owner ∧ o'.state = o.state) :
    Sound clock { db with objects } := by
  refine sound.objects fun found => ?_
  obtain ⟨o', found', owner, state⟩ := same found
  exact ⟨o', found', owner, fun is => .inl (state.trans is)⟩

theorem locate_states {id j : Uuid} {o : ObjectRow} (found : db.objects.get? j = some o) :
    ∃ o', (db.locate id).objects.get? j = some o' ∧ o'.owner = o.owner ∧ o'.state = o.state := by
  rw [Database.locate, OrdMap.get?_modify, found]
  split
  · exact ⟨_, rfl, rfl, rfl⟩
  · exact ⟨o, rfl, rfl, rfl⟩

theorem Inv.locate (inv : Inv w) {id : Uuid} {task : Task} (fits : Fits w.clock w.db task) :
    Inv ((w.store (w.db.locate id)).work i task) := by
  have change : Change w.clock none w.db (w.db.locate id) := .ofStates locate_states
  exact inv.quiet (inv.sound.ofStates locate_states) inv.pinned change
    (fits.keep change (fun _ _ => some_ne_none _))

theorem Inv.confirm (inv : Inv w) (leases : Leases w.clock w.db.uploads w.workers) {piece : Piece} {stage : Stage}
    (task : w.workers i = .putting lease saved piece stage) (inTime : w.inTime lease) :
    Inv ((w.store (w.db.confirm piece.id)).work i (.appending lease (saved.push piece))) := by
  have fits := inv.at task
  obtain ⟨⟨u, row, same⟩, usable⟩ := fits.1 inTime
  obtain ⟨o, found, owner, state, unnamed⟩ := fits.2 inTime
  have ready : ∀ {id o'}, w.db.objects.get? id = some o' → o'.state = .ready →
      (w.db.confirm piece.id).objects.get? id = some o' := by
    intro id o' found' ready
    rw [Database.confirm, OrdMap.get?_modify, found']
    split
    · simp [ready]
    · rfl
  have keeps : (if o.state = .pending then { o with state := .ready } else o).owner = o.owner := by
    split <;> rfl
  refine inv.leased leases (lease_at task rfl) (.ofPending found state keeps inv.sound) inv.pinned
    (.ofPending found state keeps row owner) ?_
  · intro _
    refine ⟨⟨u, ⟨row.found, row.epoch, row.heldUntil, row.incomplete⟩, same⟩, fun id names => ?_⟩
    obtain ⟨p, mem, is⟩ := names_iff.mp names
    rcases List.mem_append.mp mem with before | new
    · obtain ⟨o', found', owner', state', unnamed'⟩ := usable id (names_iff.mpr ⟨p, before, is⟩)
      exact ⟨o', ready found' state', owner', state', unnamed'⟩
    rw [List.mem_singleton] at new
    subst new
    subst is
    refine ⟨{ o with state := .ready }, ?_, owner, rfl, unnamed⟩
    show (w.db.confirm p.id).objects.get? p.id = _
    rw [Database.confirm, OrdMap.get?_modify, if_pos rfl, found, map_some, if_pos state]

theorem Change.trans {clock : Int} {e : Option Uuid} {db db₁ db₂ : Database} (first : Change clock e db db₁)
    (second : Change clock e db₁ db₂) : Change clock e db db₂ where
  held := fun key u found held leased other =>
    second.held key u (first.held key u found held leased other) held leased other
  objects := by
    intro id o found
    obtain ⟨o₁, found₁, owner₁, deleted₁, deleting₁⟩ := first.objects found
    obtain ⟨o₂, found₂, owner₂, deleted₂, deleting₂⟩ := second.objects found₁
    exact ⟨o₂, found₂, owner₂.trans owner₁, fun is => deleted₂ (deleted₁ is),
      fun is => (deleting₁ is).elim deleting₂ (fun is => .inr (deleted₂ is))⟩
  guarded := by
    intro id o o₂ u found found₂ state unnamed owner held leased other
    obtain ⟨o₁, found₁, owner₁, -⟩ := first.objects found
    obtain ⟨same₁, unnamed₁⟩ := first.guarded found found₁ state unnamed owner held leased other
    have owner' : db₁.uploads.get? o₁.owner = some u := by
      rw [owner₁]
      exact first.held _ u owner held leased other
    obtain ⟨same₂, unnamed₂⟩ := second.guarded found₁ found₂ (by rwa [same₁]) unnamed₁ owner' held leased other
    exact ⟨same₂.trans same₁, unnamed₂⟩
  deleting := by
    intro k m found state
    rcases first.deleting found state with same | gone
    · exact second.deleting same state
    · exact .inr fun id names => (gone id names).keep second
  left := fun doomed left => second.left (doomed.keep first) (first.left doomed left)

theorem Change.ofLeased {u row : UploadRow} (found : db.uploads.get? lease.key = some u)
    (epoch : u.epoch = some lease.epoch) (ended : row.complete = false ∨ row.heldUntil ≤ clock) :
    Change clock (some lease.epoch) db { db with uploads := db.uploads.insert lease.key row } :=
  .ofUploads (.insert found (.inr epoch)) (.insert ended)

theorem Sound.frontier (sound : Sound clock db) {row : UploadRow}
    (usable : ∀ id, row.document.names id = true → Usable db lease.key id)
    (rows : row.document.upload.expires = row.expires ∧ row.document.upload.complete = row.complete) :
    Sound clock { db with uploads := db.uploads.insert lease.key row } where
  rows := by
    intro key u' found'
    rcases OrdMap.get?_insert_cases found' with ⟨-, rfl⟩ | ⟨-, found'⟩
    · exact rows
    · exact sound.rows found'
  owned := by
    intro key u' id found' names
    rcases OrdMap.get?_insert_cases found' with ⟨same, rfl⟩ | ⟨-, found'⟩
    · obtain ⟨o, there, owner, ready, -⟩ := usable id names
      exact ⟨o, there, owner.trans same.symm, fun _ => ready⟩
    · exact sound.owned found' names
  kept := sound.kept
  apart := sound.apart
  shared := by
    intro k m key u' id manifest state names found' names'
    rcases OrdMap.get?_insert_cases found' with ⟨-, rfl⟩ | ⟨-, found'⟩
    · obtain ⟨o, there, owner, ready, unnamed⟩ := usable id names'
      exact (inManifest_eq_false.mp unnamed manifest state names).elim
    · exact sound.shared manifest state names found' names'

theorem Inv.saveFrontier (inv : Inv w) (leases : Leases w.clock w.db.uploads w.workers)
    (task : w.workers i = .appending lease saved) (inTime : w.inTime lease)
    (h : w.db.saveFrontier lease saved = some db') : Inv ((w.store db').work i .idle) := by
  have fits := inv.at task
  obtain ⟨⟨u, row, expires, open'⟩, usable⟩ := fits inTime
  unfold Database.saveFrontier at h
  split at h
  · cases h
  rename_i u' found'
  obtain ⟨found, epoch, incomplete⟩ := leased_eq_some found'
  cases row.found.symm.trans found
  cases h
  have states : ∀ {id o}, w.db.objects.get? id = some o →
      ∃ o', (w.db.objects.mapValues (ObjectRow.supersede lease.key saved)).get? id = some o' ∧
        o'.owner = o.owner ∧ o'.state = o.state := by
    intro id o there
    rw [OrdMap.get?_mapValues, there]
    refine ⟨_, rfl, ?_, ?_⟩
    · unfold ObjectRow.supersede
      split <;> rfl
    · unfold ObjectRow.supersede
      split <;> rfl
  have change : Change w.clock (some lease.epoch) w.db
      { w.db with objects := w.db.objects.mapValues (.supersede lease.key saved) } :=
    .ofStates states
  have usable' : ∀ id, saved.names id = true → Usable
      { w.db with objects := w.db.objects.mapValues (.supersede lease.key saved) } lease.key id := by
    intro id names
    obtain ⟨o, there, owner, ready, unnamed⟩ := usable id names
    obtain ⟨o', there', owner', state'⟩ := states there
    exact ⟨o', there', owner'.trans owner, state'.trans ready, unnamed⟩
  exact inv.leased leases (lease_at task rfl)
    ((inv.sound.ofStates states).frontier usable' ⟨expires, open'.trans incomplete.symm⟩) inv.pinned
    (change.trans (.ofLeased found epoch (.inl incomplete))) trivial

theorem Inv.release (inv : Inv w) (leases : Leases w.clock w.db.uploads w.workers)
    (task : w.workers i = .settling lease) : Inv ((w.store (w.db.release lease)).work i .idle) := by
  unfold Database.release
  split
  · exact inv.work trivial
  rename_i u found
  obtain ⟨found, epoch⟩ := filter_eq_some_iff.mp found
  refine inv.leased leases (lease_at task rfl) (inv.sound.uploads ?_) inv.pinned
    (.ofLeased found (of_decide_eq_true epoch) (.inr inv.time)) trivial
  intro key u' found'
  rcases OrdMap.get?_insert_cases found' with ⟨same, rfl⟩ | ⟨-, found'⟩
  · refine .inr ⟨u, same ▸ found, rfl, rfl, rfl, ?_⟩
    rintro (unexpired | held)
    · exact .inl (.inl unexpired)
    · exact absurd held (not_lt_of_ge inv.time)
  · exact .inr ⟨u', found', rfl, rfl, rfl, .inl⟩

end

section

variable {w : World} {i : Nat} {db db' : Database} {lease : Lease} {saved : Saved} {id : Uuid}

/-- The manifest that `finish` publishes: what was ready before, or the saved frontier. -/
structure Published (db : Database) (saved : Saved) (k : ManifestKey) (document : Manifest) : Prop where
  key : k = saved.upload.binding.manifestKey
  idle : ∀ m, db.manifests.get? k = some m → m.state ≠ .deleting
  pieces : (∃ m, db.manifests.get? k = some m ∧ m.state = .ready ∧ document.pieces = m.document.pieces) ∨
    (∀ m, db.manifests.get? k = some m → m.state = .deleted) ∧ document.pieces = saved.pieces

def UploadRow.finished (row : UploadRow) (saved : Saved) : UploadRow :=
  { row with document := { saved with upload := { saved.upload with complete := true } }, complete := true }

theorem finish_eq_some {inspections : OrdMap String String} (h : db.finish lease saved inspections = some db') :
    ∃ row k document, db.uploads.get? lease.key = some row ∧ row.epoch = some lease.epoch ∧ row.complete = false ∧
      Published db saved k document ∧
      db' = { db with
        manifests := db.manifests.insert k ⟨document, saved.upload.expires, .ready⟩
        uploads := db.uploads.insert lease.key (row.finished saved) } := by
  unfold Database.finish at h
  split at h
  · cases h
  rename_i row found
  obtain ⟨found, epoch, incomplete⟩ := leased_eq_some found
  dsimp only at h
  split at h
  · cases h
  rename_i idle
  cases h
  refine ⟨row, _, _, found, epoch, incomplete, ⟨rfl, fun m there => ?_, ?_⟩, rfl⟩
  · rw [there] at idle
    simpa using idle
  · cases old : db.manifests.get? saved.upload.binding.manifestKey with
    | none => exact .inr ⟨fun m there => (by cases there), rfl⟩
    | some m =>
      rw [old] at idle
      cases state : m.state with
      | ready => exact .inl ⟨m, rfl, state, by rw [filter_some, if_pos (decide_eq_true state)]⟩
      | deleting => simp [state] at idle
      | deleted =>
        refine .inr ⟨fun m' same => ?_, ?_⟩
        · cases same
          exact state
        · rw [filter_some, if_neg (by rw [state]; decide)]

variable {document : Manifest}

theorem names_document {pieces : List Piece} (same : document.pieces = pieces) :
    document.names id = pieces.any (fun p => p.id = id) := by
  rw [Manifest.names, same]

variable {k : ManifestKey}

theorem Published.named (published : Published db saved k document)
    (names : document.names id = true) :
    (∃ m, db.manifests.get? k = some m ∧ m.state = .ready ∧ m.document.names id = true) ∨
      (∀ m, db.manifests.get? k = some m → m.state = .deleted) ∧ saved.names id = true := by
  rcases published.pieces with ⟨m, found, ready, same⟩ | ⟨deleted, same⟩
  · exact .inl ⟨m, found, ready, (names_document same).symm.trans names⟩
  · exact .inr ⟨deleted, (names_document same).symm.trans names⟩

theorem Sound.finish {clock : Int} (sound : Sound clock db) {row : UploadRow}
    (held : HeldRow db.uploads lease row) (inTime : clock < lease.heldUntil)
    (frontier : row.document = saved) (published : Published db saved k document) :
    Sound clock { db with
      manifests := db.manifests.insert k ⟨document, saved.upload.expires, .ready⟩
      uploads := db.uploads.insert lease.key (row.finished saved) } := by
  subst frontier
  have live : Live clock row := .inr (held.heldUntil ▸ inTime)
  have unshared : ∀ {k m id}, db.manifests.get? k = some m → m.state ≠ .deleted → m.document.names id = true →
      row.document.names id = true → False := by
    intro k m id found state names names'
    have complete := (sound.shared found state names held.found names').1
    rw [held.incomplete] at complete
    cases complete
  refine ⟨?_, ?_, ?_, ?_, ?_⟩
  · intro key u found
    rcases OrdMap.get?_insert_cases found with ⟨-, rfl⟩ | ⟨-, found⟩
    · exact ⟨(sound.rows held.found).1, rfl⟩
    · exact sound.rows found
  · intro key u id found names
    rcases OrdMap.get?_insert_cases found with ⟨same, rfl⟩ | ⟨-, found⟩
    · obtain ⟨o, there, owner, ready⟩ := sound.owned held.found names
      exact ⟨o, there, owner.trans same.symm, fun _ => ready live⟩
    · exact sound.owned found names
  · intro k' m id found state names
    rcases OrdMap.get?_insert_cases found with ⟨-, rfl⟩ | ⟨-, found⟩
    · rcases published.named names with ⟨m, found, ready, names⟩ | ⟨-, names⟩
      · obtain ⟨o, there, kept⟩ := sound.kept found (by rw [ready]; decide) names
        exact ⟨o, there, fun _ => kept ready⟩
      · obtain ⟨o, there, -, ready⟩ := sound.owned held.found names
        exact ⟨o, there, fun _ => ready live⟩
    · exact sound.kept found state names
  · -- A new manifest shares pieces with no other: its frontier was incomplete.
    have new : ∀ {k' m' id}, k' ≠ k → db.manifests.get? k' = some m' → m'.state ≠ .deleted →
        m'.document.names id = true → document.names id = true → False := by
      intro k' m' id other found state names names'
      rcases published.named names' with ⟨m, found', ready, names'⟩ | ⟨-, names'⟩
      · exact other (sound.apart found state names found' (by rw [ready]; decide) names')
      · exact unshared found state names names'
    intro k₁ k₂ m₁ m₂ id found₁ state₁ names₁ found₂ state₂ names₂
    rw [OrdMap.get?_insert] at found₁ found₂
    split at found₁
    · rename_i same₁
      cases found₁
      split at found₂
      · rename_i same₂
        exact same₁.trans same₂.symm
      · rename_i other
        exact (new other found₂ state₂ names₂ names₁).elim
    · rename_i other
      split at found₂
      · cases found₂
        exact (new other found₁ state₁ names₁ names₂).elim
      · exact sound.apart found₁ state₁ names₁ found₂ state₂ names₂
  · intro k' m key u id manifest state names found names'
    rw [OrdMap.get?_insert] at manifest found
    split at found
    · cases found
      split at manifest
      · rename_i same
        cases manifest
        refine ⟨rfl, ?_, fun deleting => (by cases deleting)⟩
        rw [same, published.key]
        rfl
      · exact (unshared manifest state names names').elim
    · rename_i other
      split at manifest
      · rename_i same
        cases manifest
        rcases published.named names with ⟨m, old, ready, names⟩ | ⟨-, names⟩
        · obtain ⟨complete, digest, -⟩ := sound.shared old (by rw [ready]; decide) names found names'
          exact ⟨complete, by rw [same]; exact digest, fun deleting => (by cases deleting)⟩
        · obtain ⟨o, there, owner, -⟩ := sound.owned held.found names
          obtain ⟨o', there', owner', -⟩ := sound.owned found names'
          cases there.symm.trans there'
          exact absurd (owner'.symm.trans owner) other
      · exact sound.shared manifest state names found names'

theorem Change.finish {clock : Int} (sound : Sound clock db) {row : UploadRow}
    (held : HeldRow db.uploads lease row) (inTime : clock < lease.heldUntil) (frontier : row.document = saved)
    (published : Published db saved k document) : Change clock (some lease.epoch) db { db with
      manifests := db.manifests.insert k ⟨document, saved.upload.expires, .ready⟩
      uploads := db.uploads.insert lease.key (row.finished saved) } := by
  subst frontier
  refine ⟨.insert held.found (.inr held.epoch), fun found => ⟨_, found, rfl, fun is => is, .inl⟩, ?_, ?_, ?_⟩
  · intro id o o' u there there' state unnamed owner time leased other
    cases there.symm.trans there'
    refine ⟨rfl, inManifest_eq_false.mpr fun {k' m} manifest state' names => ?_⟩
    rcases OrdMap.get?_insert_cases manifest with ⟨-, rfl⟩ | ⟨-, manifest⟩
    · rcases published.named names with ⟨m, old, ready, names⟩ | ⟨-, names⟩
      · exact inManifest_eq_false.mp unnamed old (by rw [ready]; decide) names
      · obtain ⟨o', there', owner', -⟩ := sound.owned held.found names
        cases there.symm.trans there'
        rw [owner'] at owner
        cases held.found.symm.trans owner
        exact other held.epoch
    · exact inManifest_eq_false.mp unnamed manifest state' names
  · intro k' m manifest deleting
    refine .inl ?_
    rw [OrdMap.get?_insert, if_neg]
    · exact manifest
    · rintro rfl
      exact published.idle m manifest deleting
  · intro id doomed left key u there complete names
    rw [OrdMap.get?_insert] at there
    split at there
    · -- Until now the frontier was open, and nothing in it on the way out.
      cases there
      exact absurd (.inr ⟨_, row, held.found, .inr (held.heldUntil ▸ inTime), names⟩)
        (sound.unnamed ⟨doomed, left⟩)
    · exact left key u there complete names

theorem Inv.finish (inv : Inv w) (leases : Leases w.clock w.db.uploads w.workers)
    {inspections : OrdMap String String} (task : w.workers i = .finishing lease saved)
    (inTime : w.inTime lease) (h : w.db.finish lease saved inspections = some db') :
    Inv ((w.store db').work i (.settling lease)) := by
  have fits := inv.at task
  obtain ⟨u, held, frontier⟩ := fits inTime
  obtain ⟨row, k, document, found, -, -, published, rfl⟩ := finish_eq_some h
  cases held.found.symm.trans found
  refine inv.leased leases (lease_at task rfl) (inv.sound.finish held inTime frontier published) ?_
    (.finish inv.sound held inTime frontier published) trivial
  intro id pin pinned unexpired
  obtain ⟨m, manifest, ready, same⟩ := inv.pinned id pin pinned unexpired
  show ∃ m', (w.db.manifests.insert k ⟨document, saved.upload.expires, .ready⟩).get? pin.manifest = some m' ∧ _
  rw [OrdMap.get?_insert]
  split
  · rename_i here
    rw [here] at manifest
    refine ⟨_, rfl, rfl, ?_⟩
    rcases published.pieces with ⟨m', old, -, pieces⟩ | ⟨deleted, -⟩
    · cases manifest.symm.trans old
      exact pieces.trans same
    · rw [deleted m manifest] at ready
      cases ready
  · exact ⟨m, manifest, ready, same⟩

end

section

variable {w : World} {clock : Int} {e : Option Uuid} {db db' : Database} {pins : OrdMap Uuid PinRow}

theorem Change.ofPins : Change clock e db { db with pins } := by
  have same : Change clock e db db := .refl
  exact ⟨same.held, same.objects, same.guarded, same.deleting, same.left⟩

theorem Sound.ofPins (sound : Sound clock db) : Sound clock { db with pins } :=
  ⟨sound.rows, sound.owned, sound.kept, sound.apart, sound.shared⟩

theorem Inv.pin (inv : Inv w) {id : Uuid} {k : ManifestKey} {expires : Int} {document : Manifest}
    (h : w.db.pin id k expires = some (db', document)) :
    Inv { w.store db' with returned := Function.update w.returned id document.pieces } := by
  unfold Database.pin at h
  split at h
  · cases h
  rename_i m found
  obtain ⟨found, ready⟩ := filter_eq_some_iff.mp found
  split at h
  · cases h
  rename_i fresh
  cases h
  have absent : w.db.pins.get? id = none := by simpa [OrdMap.contains] using fresh
  have change : Change w.clock none w.db { w.db with pins := w.db.pins.insert id ⟨k, expires⟩ } := .ofPins
  refine ⟨inv.time, inv.sound.ofPins, ?_,
    fun j => (inv.fits j).keep change (fun _ _ => some_ne_none _),
    fun id mem => (inv.deleted id mem).keep change⟩
  intro id' pin there unexpired
  change (w.db.pins.insert id ⟨k, expires⟩).get? id' = some pin at there
  rw [OrdMap.get?_insert] at there
  show ∃ m', w.db.manifests.get? pin.manifest = some m' ∧ m'.state = .ready ∧
    m'.document.pieces = Function.update w.returned id m.document.pieces id'
  split at there
  · rename_i here
    cases there
    refine ⟨m, found, of_decide_eq_true ready, ?_⟩
    rw [here, update_self]
  · rename_i other
    rw [update_of_ne other]
    exact inv.pinned id' pin there unexpired

theorem Inv.unpin (inv : Inv w) {p : Uuid → PinRow → Bool} : Inv (w.store { w.db with pins := w.db.pins.filter p }) := by
  refine inv.nobody inv.sound.ofPins (fun id pin there unexpired => ?_) .ofPins
  change (w.db.pins.filter p).get? id = some pin at there
  rw [OrdMap.get?_filter] at there
  exact inv.pinned id pin (filter_eq_some_iff.mp there).1 unexpired

end

section

variable {w : World} {i : Nat} {clock now : Int} {e : Option Uuid} {db db' : Database} {id : Uuid} {o : ObjectRow}
  {row : Uuid × ObjectRow}

theorem mem_orphans (mem : row ∈ db.orphans now) :
    db.objects.get? row.1 = some row.2 ∧ db.isOrphan now row.1 row.2 = true := by
  obtain ⟨there, orphan⟩ := List.mem_filter.mp (List.mem_of_mem_take mem)
  exact ⟨OrdMap.get?_eq_some.mpr there, orphan⟩

theorem isOrphan_iff : db.isOrphan now id o = true ↔ o.state ≠ .deleted ∧ o.expires ≤ now ∧
    db.inUpload now id o = false ∧ db.inManifest id = false := by
  unfold Database.isOrphan
  simp [and_assoc]

theorem orphan_unheld (time : now ≤ clock) (orphan : db.isOrphan now id o = true) {u : UploadRow}
    (owner : db.uploads.get? o.owner = some u) : u.heldUntil ≤ clock ∧
      (clock < u.expires → u.document.names id = false) := by
  have free := (isOrphan_iff.mp orphan).2.2.1
  unfold Database.inUpload at free
  rw [owner] at free
  simp only [Option.any_some, Bool.or_eq_false_iff, Bool.and_eq_false_iff, decide_eq_false_iff_not, not_lt] at free
  refine ⟨free.1.trans time, fun unexpired => ?_⟩
  rcases free.2 with expired | unneeded
  · omega
  · exact unneeded.1

theorem Sound.orphan_unnamed (sound : Sound clock db) (time : now ≤ clock) (found : db.objects.get? id = some o)
    (orphan : db.isOrphan now id o = true) : ¬Named clock db id := by
  have unnamed := (isOrphan_iff.mp orphan).2.2.2
  rintro (⟨k, m, manifest, ready, names⟩ | ⟨key, u, upload, live, names⟩)
  · exact inManifest_eq_false.mp unnamed manifest (by rw [ready]; decide) names
  · obtain ⟨o', there, owner, -⟩ := sound.owned upload names
    cases found.symm.trans there
    obtain ⟨unheld, unexpired⟩ := orphan_unheld time orphan (owner ▸ upload)
    rcases live with alive | held
    · rw [unexpired alive] at names
      cases names
    · omega

theorem markOrphans_found (clock now : Int) (found : db.objects.get? id = some o) :
    ∃ o', (db.markOrphans clock now).objects.get? id = some o' ∧ o'.owner = o.owner ∧
      ((db.isOrphan now id o = true ∧ o'.state = .deleting) ∨ o'.state = o.state) := by
  have marked : (db.orphans now).any (fun row => row.1 = id) = true → db.isOrphan now id o = true := by
    intro any
    obtain ⟨⟨id', o'⟩, mem, is⟩ := any_eq_true.mp any
    have same : id' = id := of_decide_eq_true is
    subst same
    obtain ⟨found', orphan⟩ := mem_orphans mem
    cases found.symm.trans found'
    exact orphan
  unfold Database.markOrphans
  dsimp only
  rw [OrdMap.get?_mapValues, found, map_some]
  by_cases any : (db.orphans now).any (fun row => row.1 = id) = true
  · rw [if_pos any]
    exact ⟨_, rfl, rfl, .inl ⟨marked any, rfl⟩⟩
  · rw [if_neg any]
    exact ⟨o, rfl, rfl, .inr rfl⟩

theorem orphan_marked (mem : row ∈ db.orphans now) :
    Condemned (db.markOrphans clock now) row.1 := by
  obtain ⟨found, -⟩ := mem_orphans mem
  have any : (db.orphans now).any (fun r => r.1 = row.1) = true :=
    any_eq_true.mpr ⟨row, mem, decide_eq_true rfl⟩
  refine ⟨{ row.2 with state := .deleting }, ?_, .inl rfl⟩
  unfold Database.markOrphans
  dsimp only
  rw [OrdMap.get?_mapValues, found, map_some, if_pos any]

theorem Inv.markOrphans (inv : Inv w) (time : now ≤ w.clock) :
    Inv ((w.store (w.db.markOrphans w.clock now)).work i
      (.cleaning ((w.db.orphans now).map (fun row => (row.1, row.2.located))))) := by
  have sound : Sound w.clock (w.db.markOrphans w.clock now) := by
    have objects : Sound w.clock { w.db with objects := (w.db.markOrphans w.clock now).objects } := by
      refine inv.sound.objects fun {id o} found => ?_
      obtain ⟨o', found', owner, state⟩ := markOrphans_found w.clock now found
      refine ⟨o', found', owner, fun ready => ?_⟩
      rcases state with ⟨orphan, -⟩ | same
      · exact .inr (inv.sound.orphan_unnamed time found orphan)
      · exact .inl (same.trans ready)
    exact objects.ofPins
  have change : Change w.clock none w.db (w.db.markOrphans w.clock now) := by
    have objects : Change w.clock none w.db { w.db with objects := (w.db.markOrphans w.clock now).objects } := ?_
    · exact objects.trans .ofPins
    refine .ofObjects fun {id o} found => ?_
    obtain ⟨o', found', owner, state⟩ := markOrphans_found w.clock now found
    refine ⟨o', found', owner, fun deleted => ?_, fun deleting => ?_, fun _ _ u owner' held _ _ => ?_⟩
    · rcases state with ⟨orphan, -⟩ | same
      · exact absurd deleted (isOrphan_iff.mp orphan).1
      · exact same.trans deleted
    · rcases state with ⟨-, state⟩ | same
      · exact .inl state
      · exact .inl (same.trans deleting)
    · rcases state with ⟨orphan, -⟩ | same
      · have unheld := (orphan_unheld time orphan owner').1
        omega
      · exact same
  refine inv.quiet sound (fun id pin there unexpired => ?_) change ?_
  · change (w.db.pins.filter (fun _ pin => w.clock < pin.expires)).get? id = some pin at there
    rw [OrdMap.get?_filter] at there
    exact inv.pinned id pin (filter_eq_some_iff.mp there).1 unexpired
  · intro row mem
    obtain ⟨orphan, there, rfl⟩ := List.mem_map.mp mem
    exact orphan_marked there

theorem settleObject_found (found : db.objects.get? id = some o) :
    Gone (db.settleObject id) id := by
  refine ⟨{ o with state := .deleted }, ?_, rfl⟩
  rw [Database.settleObject, OrdMap.get?_modify, if_pos rfl, found]
  rfl

theorem doomed_found (sound : Sound clock db) (doomed : Doomed db id) : ∃ o, db.objects.get? id = some o := by
  rcases doomed with ⟨o, found, -⟩ | ⟨k, m, manifest, deleting, names⟩
  · exact ⟨o, found⟩
  · obtain ⟨o, found, -⟩ := sound.kept manifest (by rw [deleting]; decide) names
    exact ⟨o, found⟩

theorem Sound.settleObject (sound : Sound clock db) (is : Abandoned clock db id) : Sound clock (db.settleObject id) := by
  refine sound.objects fun {j o} found => ?_
  rw [OrdMap.get?_modify, found]
  split
  · rename_i here
    exact ⟨_, rfl, rfl, fun _ => .inr (here ▸ sound.unnamed is)⟩
  · exact ⟨o, rfl, rfl, .inl⟩

theorem Change.settleObject (doomed : Doomed db id) : Change clock none db (db.settleObject id) := by
  refine .ofObjects fun {j o} found => ?_
  rw [OrdMap.get?_modify, found]
  split
  · rename_i here
    refine ⟨_, rfl, rfl, fun _ => rfl, fun _ => .inr rfl, fun state unnamed => ?_⟩
    rw [here] at found unnamed
    rcases doomed with condemned | ⟨k, m, manifest, deleting, names⟩
    · exact absurd state (condemned.final found)
    · exact (inManifest_eq_false.mp unnamed manifest (by rw [deleting]; decide) names).elim
  · exact ⟨o, rfl, rfl, fun is => is, .inl, fun _ _ _ _ _ _ _ => rfl⟩

theorem sweep_held (time : now ≤ clock) : Keeps clock e db.uploads (db.sweepUploads now).uploads := by
  intro key u found held _ _
  have running : ¬u.heldUntil ≤ now := by omega
  rw [Database.sweepUploads, OrdMap.get?_filter, found, filter_some, if_pos]
  simp [Database.isSpent, running]

theorem Inv.sweepUploads (inv : Inv w) (time : now ≤ w.clock) : Inv ((w.store (w.db.sweepUploads now)).work i .idle) := by
  refine inv.quiet (inv.sound.uploads fun {key u} found => ?_) inv.pinned
    (.ofUploads (sweep_held time) fun {id} left key u found => ?_) trivial
  · rw [OrdMap.get?_filter] at found
    exact .inr ⟨u, (filter_eq_some_iff.mp found).1, rfl, rfl, rfl, .inl⟩
  · rw [OrdMap.get?_filter] at found
    exact left key u (filter_eq_some_iff.mp found).1

end

section

variable {w : World} {i : Nat} {clock : Int} {db db' : Database} {k : ManifestKey} {document : Manifest}

theorem Sound.manifests (sound : Sound clock db) {manifests : OrdMap ManifestKey ManifestRow}
    (before : ∀ {k m'}, manifests.get? k = some m' → m'.state ≠ .deleted → ∃ m, db.manifests.get? k = some m ∧
      m.state ≠ .deleted ∧ m'.document = m.document ∧ (m'.state = .ready → m.state = .ready) ∧
      (m'.state = .deleting → m.state = .deleting ∨
        ∀ key u, db.uploads.get? key = some u → u.document.upload.binding.sha256 = k.sha256 → u.expires ≤ clock)) :
    Sound clock { db with manifests } where
  rows := sound.rows
  owned := sound.owned
  kept := by
    intro k m' id found state names
    obtain ⟨m, found, state, document, ready, -⟩ := before found state
    rw [document] at names
    obtain ⟨o, there, kept⟩ := sound.kept found state names
    exact ⟨o, there, fun is => kept (ready is)⟩
  apart := by
    intro k₁ k₂ m₁ m₂ id found₁ state₁ names₁ found₂ state₂ names₂
    obtain ⟨n₁, found₁, state₁, document₁, -⟩ := before found₁ state₁
    obtain ⟨n₂, found₂, state₂, document₂, -⟩ := before found₂ state₂
    rw [document₁] at names₁
    rw [document₂] at names₂
    exact sound.apart found₁ state₁ names₁ found₂ state₂ names₂
  shared := by
    intro k m' key u id found state names found' names'
    obtain ⟨m, found, state, document, -, deleting⟩ := before found state
    rw [document] at names
    obtain ⟨complete, digest, past⟩ := sound.shared found state names found' names'
    refine ⟨complete, digest, fun is => ?_⟩
    rcases deleting is with old | new
    · exact past old
    · exact new key u found' digest

theorem Change.ofManifests {manifests : OrdMap ManifestKey ManifestRow}
    (before : ∀ {k m'}, manifests.get? k = some m' → m'.state ≠ .deleted → ∃ m, db.manifests.get? k = some m ∧
      m.state ≠ .deleted ∧ m'.document = m.document)
    (deleting : ∀ {k m}, db.manifests.get? k = some m → m.state = .deleting →
      manifests.get? k = some m ∨ ∀ id, m.document.names id = true → Gone db id) :
    Change clock none db { db with manifests } where
  held := .refl
  objects := fun found => ⟨_, found, rfl, fun is => is, .inl⟩
  guarded := by
    intro id o o' u found found' _ unnamed _ _ _ _
    cases found.symm.trans found'
    refine ⟨rfl, inManifest_eq_false.mpr fun there state names => ?_⟩
    obtain ⟨m, there, state, document⟩ := before there state
    rw [document] at names
    exact inManifest_eq_false.mp unnamed there state names
  deleting := deleting
  left := fun _ left => left

theorem Inv.reclaim (inv : Inv w) {referenced : Bool} {candidates : List (ManifestKey × Manifest)}
    (h : w.db.reclaim w.clock k document referenced = some db') :
    Inv ((w.store db').work i (.doomed k document candidates)) := by
  unfold Database.reclaim at h
  split at h
  · rename_i allowed
    cases h
    obtain ⟨locked, -⟩ := Bool.and_eq_true_iff.mp allowed
    unfold Database.lockIn at locked
    obtain ⟨locked, unclaimed⟩ := Bool.and_eq_true_iff.mp locked
    obtain ⟨there, unpinned⟩ := Bool.and_eq_true_iff.mp locked
    have pins : ∀ id pin, w.db.pins.get? id = some pin → pin.manifest = k → w.clock < pin.expires → False := by
      intro id pin found same unexpired
      have pinned : w.db.isPinned w.clock k = true := by
        unfold Database.isPinned
        exact OrdMap.any_entries.mpr ⟨id, pin, found, by simp [same, unexpired]⟩
      rw [pinned] at unpinned
      cases unpinned
    have uploads : ∀ key u, w.db.uploads.get? key = some u → u.document.upload.binding.sha256 = k.sha256 →
        u.expires ≤ w.clock := by
      intro key u found digest
      by_contra unexpired
      have busy : w.db.uploads.entries.any (fun u => w.clock < u.2.expires &&
          u.2.document.upload.binding.sha256 = k.sha256) = true :=
        OrdMap.any_entries.mpr ⟨key, u, found, by simp [digest, not_le.mp unexpired]⟩
      rw [busy] at unclaimed
      cases unclaimed
    refine inv.quiet (inv.sound.manifests fun {k' m'} found state => ?_) (fun id pin found unexpired => ?_)
      (.ofManifests (fun {k' m'} found state => ?_) fun {k' m} found state => .inl ?_) trivial
    · rw [OrdMap.get?_modify] at found
      split at found
      · rename_i same
        obtain ⟨m, old, is⟩ := map_eq_some_iff.mp found
        by_cases deleted : m.state = .deleted
        · rw [if_pos deleted] at is
          rw [← is] at state
          exact absurd deleted state
        · rw [if_neg deleted] at is
          subst is
          exact ⟨m, old, deleted, rfl, fun ready => (by cases ready), fun _ => .inr (same ▸ uploads)⟩
      · exact ⟨m', found, state, rfl, fun ready => ready, .inl⟩
    · obtain ⟨m, manifest, ready, same⟩ := inv.pinned id pin found unexpired
      refine ⟨m, ?_, ready, same⟩
      show (w.db.manifests.modify k _).get? pin.manifest = some m
      rw [OrdMap.get?_modify, if_neg]
      · exact manifest
      · exact fun same => pins id pin found same unexpired
    · rw [OrdMap.get?_modify] at found
      split at found
      · obtain ⟨m, old, is⟩ := map_eq_some_iff.mp found
        by_cases deleted : m.state = .deleted
        · rw [if_pos deleted] at is
          rw [← is] at state
          exact absurd deleted state
        · rw [if_neg deleted] at is
          subst is
          exact ⟨m, old, deleted, rfl⟩
      · exact ⟨m', found, state, rfl⟩
    · rw [OrdMap.get?_modify, found]
      split
      · rw [map_some, if_neg (by rw [state]; decide), ← state]
      · rfl
  · cases h

theorem isDeleting_removable (h : db.isDeleting k document = true) : Removable db k document := by
  unfold Database.isDeleting at h
  cases found : db.manifests.get? k with
  | none =>
    rw [found] at h
    cases h
  | some m =>
    rw [found] at h
    obtain ⟨deleting, same⟩ := Bool.and_eq_true_iff.mp h
    exact .inl ⟨m, found, of_decide_eq_true deleting, of_decide_eq_true same⟩

theorem isDeleted_gone {id : Uuid} (h : db.isDeleted id = true) : Gone db id := by
  unfold Database.isDeleted at h
  cases found : db.objects.get? id with
  | none =>
    rw [found] at h
    cases h
  | some o =>
    rw [found] at h
    exact ⟨o, found, of_decide_eq_true h⟩

theorem Inv.settleManifest (inv : Inv w) {candidates : List (ManifestKey × Manifest)}
    (gone : ∀ id, document.names id = true → Gone w.db id) :
    Inv ((w.store (w.db.settleManifest k document)).work i (.collecting candidates)) := by
  have before : ∀ {k' m'}, (w.db.settleManifest k document).manifests.get? k' = some m' → m'.state ≠ .deleted →
      w.db.manifests.get? k' = some m' := by
    intro k' m' found state
    rw [Database.settleManifest, OrdMap.get?_modify] at found
    split at found
    · obtain ⟨m, old, is⟩ := map_eq_some_iff.mp found
      split at is
      · subst is
        exact absurd rfl state
      · exact is ▸ old
    · exact found
  refine inv.quiet (inv.sound.manifests fun {k' m'} found state => ?_) (fun id pin found unexpired => ?_)
    (.ofManifests (fun {k' m'} found state => ⟨m', before found state, state, rfl⟩)
      fun {k' m} found state => ?_) trivial
  · exact ⟨m', before found state, state, rfl, fun ready => ready, .inl⟩
  · obtain ⟨m, manifest, ready, same⟩ := inv.pinned id pin found unexpired
    refine ⟨m, ?_, ready, same⟩
    show (w.db.settleManifest k document).manifests.get? pin.manifest = some m
    rw [Database.settleManifest, OrdMap.get?_modify, manifest]
    split
    · simp [ready]
    · rfl
  · rw [OrdMap.get?_modify, found]
    split
    · by_cases same : m.document = document
      · exact .inr (same ▸ gone)
      · simp [same]
    · exact .inl rfl

end

section

variable {clock : Int} {uploads uploads' : OrdMap Uuid UploadRow} {workers : Nat → Task} {i : Nat} {task : Task}
  {lease : Lease} {saved : Saved} {e : Option Uuid}

theorem lease_of_memory (memory : task.memory = some (lease, saved)) : task.lease = some lease := by
  cases task <;> cases memory <;> rfl

/-- One worker goes on to another task, with the epoch of its lease or a fresh one. -/
theorem Leases.next (leases : Leases clock uploads workers)
    (complete : ∀ {key u}, uploads'.get? key = some u → u.document.upload.complete = u.complete)
    (kept : Keeps clock e uploads uploads')
    (mine : ∀ j l, j ≠ i → (workers j).lease = some l → some l.epoch ≠ e)
    (lease : ∀ l, task.lease = some l → (workers i).lease = some l ∨
      ∀ j l', (workers j).lease = some l' → l'.epoch ≠ l.epoch)
    (memory : ∀ {l saved}, task.memory = some (l, saved) → saved.upload.complete = false ∧
      (clock < l.heldUntil → ∃ u, HeldRow uploads' l u)) :
    Leases clock uploads' (Function.update workers i task) where
  complete := complete
  alone := by
    have one : ∀ j l l', task.lease = some l → (workers j).lease = some l' → l.epoch = l'.epoch → i = j := by
      intro j l l' mine others same
      rcases lease l mine with before | fresh
      · exact leases.alone i j l l' before others same
      · exact absurd same.symm (fresh j l' others)
    intro j k l l' first second same
    by_cases here : j = i
    · by_cases there : k = i
      · rw [here, there]
      · rw [here, update_self] at first
        rw [update_of_ne there] at second
        rw [here]
        exact one k l l' first second same
    · rw [update_of_ne here] at first
      by_cases there : k = i
      · rw [there, update_self] at second
        rw [there]
        exact (one j l' l second first same.symm).symm
      · rw [update_of_ne there] at second
        exact leases.alone j k l l' first second same
  held := by
    intro j l saved holds
    by_cases here : j = i
    · rw [here, update_self] at holds
      exact memory holds
    rw [update_of_ne here] at holds
    obtain ⟨incomplete, row⟩ := leases.held j holds
    refine ⟨incomplete, fun inTime => ?_⟩
    obtain ⟨u, row⟩ := row inTime
    exact ⟨u, row.unclaimed kept inTime (mine j l here (lease_of_memory holds))⟩

theorem Leases.same (leases : Leases clock uploads workers)
    (lease : ∀ l, task.lease = some l → (workers i).lease = some l)
    (memory : ∀ {l saved}, task.memory = some (l, saved) → ∃ before, (workers i).memory = some (l, before) ∧
      saved.upload.complete = before.upload.complete) :
    Leases clock uploads (Function.update workers i task) := by
  refine leases.next leases.complete (e := none) .refl (fun _ _ _ _ => some_ne_none _)
    (fun l is => .inl (lease l is)) fun {l saved} holds => ?_
  obtain ⟨before, held, same⟩ := memory holds
  rw [same]
  exact leases.held i held

theorem Leases.idle (leases : Leases clock uploads workers) (none : task.lease = none) :
    Leases clock uploads (Function.update workers i task) := by
  refine leases.same (fun l is => ?_) fun holds => ?_
  · rw [none] at is
    cases is
  · rw [lease_of_memory holds] at none
    cases none

/-- The worker writes the row it holds. -/
theorem Leases.row (leases : Leases clock uploads workers) {u row : UploadRow}
    (found : uploads.get? lease.key = some u) (epoch : u.epoch = some lease.epoch)
    (holds : (workers i).lease = some lease) (complete : row.document.upload.complete = row.complete)
    (none : task.memory = none) (kept : ∀ l, task.lease = some l → l = lease) :
    Leases clock (uploads.insert lease.key row) (Function.update workers i task) := by
  refine leases.next ?_ (.insert found (.inr epoch)) (fun j l other is same => ?_) (fun l is => .inl ?_) ?_
  · intro key u found
    rcases OrdMap.get?_insert_cases found with ⟨-, rfl⟩ | ⟨-, found⟩
    · exact complete
    · exact leases.complete found
  · exact other (leases.alone j i l lease is holds (Option.some.inj same))
  · rw [kept l is]
    exact holds
  · intro l saved is
    rw [none] at is
    cases is

variable {db db' : Database}

theorem Leases.claim (leases : Leases clock db.uploads workers) {actor : String} {id : Uuid} {offset : Option Nat}
    {now : Int} (time : now ≤ clock) (fresh : ∀ j l, (workers j).lease = some l → l.epoch ≠ lease.epoch)
    (h : db.claim actor id offset now lease = some (db', saved)) {after : Saved}
    (same : after.upload = saved.upload) (is : task.memory = some (lease, after)) :
    Leases clock db'.uploads (Function.update workers i task) := by
  obtain ⟨row, found, -, free, open', rfl, -, -, rfl⟩ := claim_eq_some h
  have incomplete : row.complete = false := (leases.complete found).symm.trans open'
  refine leases.next (e := none) ?_ (.insert found (.inl (free.trans time))) (fun _ _ _ _ => some_ne_none _)
    (fun l holds => .inr ?_) ?_
  · intro key u found'
    rw [Database.hold, OrdMap.get?_insert] at found'
    split at found'
    · cases found'
      have before := leases.complete found
      exact before
    · exact leases.complete found'
  · cases (lease_of_memory is).symm.trans holds
    exact fresh
  · intro l saved' holds
    cases is.symm.trans holds
    rw [same]
    exact ⟨open', fun _ => ⟨_, .claimed incomplete⟩⟩

theorem Leases.begin (leases : Leases clock db.uploads workers) {key id : Uuid} {binding : Binding}
    {expires now : Int} {upload : Upload} (h : db.begin key id binding expires now = some (db', upload)) :
    Leases clock db'.uploads workers := by
  unfold Database.begin at h
  split at h
  · split at h
    · cases h
    · cases h
      exact leases
  · rename_i absent
    cases h
    refine ⟨?_, leases.alone, ?_⟩
    · intro key' u found
      rcases OrdMap.get?_insert_cases found with ⟨-, rfl⟩ | ⟨-, found⟩
      · rfl
      · exact leases.complete found
    · intro i lease saved holds
      obtain ⟨incomplete, row⟩ := leases.held i holds
      refine ⟨incomplete, fun inTime => ?_⟩
      obtain ⟨u, row⟩ := row inTime
      exact ⟨u, row.unclaimed (.fresh absent) inTime (some_ne_none _)⟩

end

section

variable (storageKey : String → Uuid → Uuid)

/-- The moments at which the code goes right: what is claimed is intact, and what is deleted is in no finished
upload that somebody still holds. -/
def Spares (w : World) : Label → Prop
  | .claim lease => Intact w lease
  | .delete id => Left w.clock w.db id
  | .other => True

def Always (_ : World) (_ : Label) : Prop := True

variable (Allowed : World → Label → Prop)

/-- The states that any number of workers can lead to. -/
inductive Reached : World → Prop where
  | start (clock : Int) : 0 ≤ clock → Reached (.start clock)
  | step {w w' : World} {label : Label} :
      Reached w → Step storageKey w label w' → Allowed w label → Reached w'

/-- What is still to come after a state. -/
inductive Later (w : World) : World → Prop where
  | now : Later w w
  | step {w₁ w₂ : World} {label : Label} :
      Later w w₁ → Step storageKey w₁ label w₂ → Allowed w₁ label → Later w w₂

/-- Whatever is named is ready and was never deleted; pinned manifests are as they were pinned. -/
structure Safe (w : World) : Prop where
  ready : ∀ id, Named w.clock w.db id → w.db.StateIs id (· = .ready) ∧ id ∉ w.deleted
  pinned : Pinned w

variable {storageKey Allowed} {w w' : World} {label : Label}

theorem leases_start {clock : Int} : Leases clock .empty (fun _ => .idle) where
  complete := by
    intro key u found
    cases found
  alone := by
    intro i j l l' is
    cases is
  held := by
    intro i lease saved is
    cases is

theorem insertPiece_uploads {db db' : Database} {lease : Lease} {piece : Piece} {expires : Int}
    (h : db.insertPiece lease piece expires = some db') : db'.uploads = db.uploads := by
  unfold Database.insertPiece at h
  split at h
  · cases h
  · split at h <;> cases h
    rfl

theorem Leases.step (leases : Leases w.clock w.db.uploads w.workers) (step : Step storageKey w label w') :
    Leases w'.clock w'.db.uploads w'.workers := by
  cases step with
  | tick _ time =>
    refine ⟨leases.complete, leases.alone, fun i _ _ holds => ?_⟩
    obtain ⟨incomplete, row⟩ := leases.held i holds
    exact ⟨incomplete, fun inTime => row (time.trans_lt inTime)⟩
  | drop holds =>
    refine leases.same (fun l is => ?_) (fun is => (by cases is))
    cases is
    exact holds
  | begin _ _ _ begun => exact leases.begin begun
  | claimAppend _ time _ fresh claimed => exact leases.claim time fresh claimed resumed_upload rfl
  | claimFinish _ time _ fresh claimed => exact leases.claim time fresh claimed rfl rfl
  | read _ task | confirm task | write task | locate task =>
    refine leases.same (fun l is => lease_at task is) fun is => ?_
    cases is
    exact ⟨_, congrArg Task.memory task, rfl⟩
  | insert task _ _ inserted =>
    refine insertPiece_uploads inserted ▸ leases.same (fun l is => lease_at task is) fun is => ?_
    cases is
    exact ⟨_, congrArg Task.memory task, rfl⟩
  | refuse task => exact leases.same (fun l is => lease_at task is) (fun is => (by cases is))
  | @save i db lease saved task inTime h =>
    unfold Database.saveFrontier at h
    split at h
    · cases h
    rename_i u found
    obtain ⟨found, epoch, incomplete⟩ := leased_eq_some found
    have held := leases.held i (congrArg Task.memory task)
    cases h
    exact leases.row found epoch (lease_at task rfl) (held.1.trans incomplete.symm) rfl (fun l is => (by cases is))
  | release task =>
    unfold Database.release
    split
    · exact leases.idle rfl
    rename_i u found
    obtain ⟨found, epoch⟩ := filter_eq_some_iff.mp found
    have complete := leases.complete found
    exact leases.row found (of_decide_eq_true epoch) (lease_at task rfl) complete rfl (fun l is => (by cases is))
  | finish task _ _ h =>
    obtain ⟨row, k, document, found, epoch, -, -, rfl⟩ := finish_eq_some h
    exact leases.row found epoch (lease_at task rfl) rfl rfl (fun l is => (Option.some.inj is).symm)
  | pin pinned =>
    unfold Database.pin at pinned
    split at pinned
    · cases pinned
    · split at pinned <;> cases pinned
      exact ⟨leases.complete, leases.alone, leases.held⟩
  | unpin => exact ⟨leases.complete, leases.alone, leases.held⟩
  | @sweep _ now _ time =>
    have complete : ∀ {key u}, (w.db.sweepUploads now).uploads.get? key = some u →
        u.document.upload.complete = u.complete := by
      intro key u found
      rw [Database.sweepUploads, OrdMap.get?_filter] at found
      exact leases.complete (filter_eq_some_iff.mp found).1
    exact leases.next (e := none) complete (sweep_held time) (fun _ _ _ _ => some_ne_none _)
      (fun l is => (by cases is)) (fun is => (by cases is))
  | reclaim _ reclaimed =>
    unfold Database.reclaim at reclaimed
    split at reclaimed <;> cases reclaimed
    exact leases.idle rfl
  | stop | mark | recover | unrecovered | erase | settleErased | keepErased | collect | spare | remove | already
  | find | unlink | settleUnlinked | removed => exact leases.idle rfl

theorem Reached.leases (reached : Reached storageKey Allowed w) : Leases w.clock w.db.uploads w.workers := by
  induction reached with
  | start => exact leases_start
  | step _ step _ ih => exact ih.step step

theorem inv_start {clock : Int} (time : 0 ≤ clock) : Inv (.start clock) where
  time := time
  sound := by
    refine ⟨?_, ?_, ?_, ?_, ?_⟩
    · intro key u found
      cases found
    · intro key u id found
      cases found
    · intro k m id found
      cases found
    · intro k k' m m' id found
      cases found
    · intro k m key u id found
      cases found
  pinned := by
    intro id pin found
    cases found
  fits := fun _ => trivial
  deleted := by
    intro id mem
    cases mem

theorem Inv.step (inv : Inv w) (leases : Leases w.clock w.db.uploads w.workers) (step : Step storageKey w label w')
    (spares : Spares w label) : Inv w' := by
  cases step with
  | tick _ time => exact inv.tick time
  | stop | drop | collect | spare => exact inv.work trivial
  | begin _ _ _ begun => exact inv.begin begun
  | claimAppend _ time _ _ claimed => exact inv.claim time claimed spares (.inl rfl)
  | claimFinish _ time _ _ claimed => exact inv.claim time claimed spares (.inr rfl)
  | @read i _ _ _ task =>
    have fits := inv.at task
    exact inv.work fits
  | insert task _ _ inserted => exact inv.insertPiece task inserted
  | @write i _ _ piece task =>
    have fits := inv.at task
    exact (inv.send_write piece.id).work fits
  | refuse task inTime => exact inv.notWritten leases task inTime
  | @locate i _ _ _ task =>
    have fits := inv.at task
    exact inv.locate fits
  | confirm task inTime => exact inv.confirm leases task inTime
  | save task inTime saved => exact inv.saveFrontier leases task inTime saved
  | release task => exact inv.release leases task
  | finish task inTime _ finished => exact inv.finish leases task inTime finished
  | pin pinned => exact inv.pin pinned
  | unpin => exact inv.unpin
  | mark _ time => exact inv.markOrphans time
  | @recover i _ _ _ task =>
    have fits := inv.at task
    exact inv.locate ⟨fits _ (.head _), fun row mem => fits row (.tail _ mem)⟩
  | @unrecovered i _ _ task =>
    have fits := inv.at task
    exact inv.work fun row mem => fits row (.tail _ mem)
  | @erase i _ _ task =>
    have fits := inv.at task
    exact (inv.send (inv.sound.condemned fits.1)).work fits
  | @settleErased i id _ task =>
    have fits := inv.at task
    have change : Change w.clock none w.db (w.db.settleObject id) := .settleObject (.inl fits.1)
    exact inv.quiet (inv.sound.settleObject (inv.sound.condemned fits.1)) inv.pinned change
      fun row mem => (fits.2 row mem).keep change
  | keepErased task => exact inv.work (inv.at task).2
  | sweep _ time => exact inv.sweepUploads time
  | reclaim _ reclaimed => exact inv.reclaim reclaimed
  | @remove _ _ _ _ _ deleting =>
    refine inv.work ⟨isDeleting_removable deleting, fun p mem => ?_, fun id names => .inl ?_⟩
    · exact any_eq_true.mpr ⟨p, mem, decide_eq_true rfl⟩
    · obtain ⟨p, mem, is⟩ := any_eq_true.mp names
      exact ⟨p, mem, of_decide_eq_true is⟩
  | @already i _ _ _ _ _ task deleted =>
    obtain ⟨removable, named, all⟩ := inv.at task
    refine inv.work ⟨removable, fun p mem => named p (.tail _ mem), fun id names => ?_⟩
    rcases all id names with ⟨p, mem, is⟩ | gone
    · rcases mem_cons.mp mem with rfl | later
      · exact .inr (is ▸ isDeleted_gone deleted)
      · exact .inl ⟨p, later, is⟩
    · exact .inr gone
  | @find i _ _ _ _ _ task =>
    have fits := inv.at task
    exact inv.work fits
  | @unlink i _ _ piece _ _ task =>
    obtain ⟨removable, named, all⟩ := inv.at task
    exact (inv.send ⟨removable.doomed (named piece (.head _)), spares⟩).work ⟨removable, named, all, spares⟩
  | @settleUnlinked i _ _ piece _ _ task =>
    obtain ⟨removable, named, all, left⟩ := inv.at task
    have doomed : Doomed w.db piece.id := removable.doomed (named piece (.head _))
    have change : Change w.clock none w.db (w.db.settleObject piece.id) := .settleObject doomed
    refine inv.quiet (inv.sound.settleObject ⟨doomed, left⟩) inv.pinned change
      ⟨removable.keep change, fun p mem => named p (.tail _ mem), fun id names => ?_⟩
    rcases all id names with ⟨p, mem, is⟩ | gone
    · rcases mem_cons.mp mem with rfl | later
      · obtain ⟨o, found⟩ := doomed_found inv.sound doomed
        exact .inr (is ▸ settleObject_found found)
      · exact .inl ⟨p, later, is⟩
    · exact .inr (gone.keep change)
  | @removed i _ _ _ task =>
    have fits := inv.at task
    refine inv.settleManifest fun id names => ?_
    rcases fits.2.2 id names with ⟨p, mem, -⟩ | gone
    · cases mem
    · exact gone

theorem Reached.inv (reached : Reached storageKey Spares w) : Inv w := by
  induction reached with
  | start _ time => exact inv_start time
  | step before step spares ih => exact ih.step before.leases step spares

theorem Inv.safe (inv : Inv w) : Safe w where
  ready := by
    intro id named
    refine ⟨?_, fun deleted => inv.sound.unnamed (inv.deleted id deleted) named⟩
    rcases named with ⟨k, m, found, ready, names⟩ | ⟨key, u, found, live, names⟩
    · obtain ⟨o, there, kept⟩ := inv.sound.kept found (by rw [ready]; decide) names
      exact ⟨o, there, kept ready⟩
    · obtain ⟨o, there, -, ready⟩ := inv.sound.owned found names
      exact ⟨o, there, ready live⟩
  pinned := inv.pinned

/-- The claim or the deletion that does not spare what it should makes the state unsafe at once. -/
theorem Step.spares (step : Step storageKey w label w') (safe : Safe w') : Spares w label := by
  have held : ∀ {lease saved actor id offset now db}, w.db.claim actor id offset now lease = some (db, saved) →
      (∀ id, Named w.clock db id → db.StateIs id (· = .ready)) → Intact w lease := by
    intro lease saved actor id offset now db h ready inTime u found id' names
    obtain ⟨row, found', -, -, -, -, -, -, rfl⟩ := claim_eq_some h
    cases found'.symm.trans found
    exact ready id' (.inr ⟨lease.key, u.hold lease, by rw [Database.hold, OrdMap.get?_insert, if_pos rfl],
      .inr inTime, names⟩)
  cases step with
  | claimAppend _ _ _ _ h | claimFinish _ _ _ _ h => exact held h (fun id named => (safe.ready id named).1)
  | erase | unlink =>
    intro key u found _ names
    by_contra unheld
    exact (safe.ready _ (.inr ⟨key, u, found, .inr (not_le.mp unheld), names⟩)).2 mem_cons_self
  | _ => trivial

theorem Step.deleted (step : Step storageKey w label w') {id : Uuid} (mem : id ∈ w.deleted) : id ∈ w'.deleted := by
  cases step <;> first | exact mem | exact .tail _ mem

theorem Step.delete {id : Uuid} (step : Step storageKey w (.delete id) w') : id ∈ w'.deleted := by
  cases step <;> exact .head _

theorem Later.reached (later : Later storageKey Allowed w w') (reached : Reached storageKey Allowed w) :
    Reached storageKey Allowed w' := by
  induction later with
  | now => exact reached
  | step _ step allowed ih => exact .step ih step allowed

theorem Later.deleted (later : Later storageKey Allowed w w') {id : Uuid} (mem : id ∈ w.deleted) :
    id ∈ w'.deleted := by
  induction later with
  | now => exact mem
  | step _ step _ ih => exact step.deleted ih

/-- Nothing that can still be reached is ever deleted, and what is deleted is never reached again, as long as
every claim and every deletion spares what it should; the first that does not makes the state unsafe. -/
theorem reclamation_safe (storageKey : String → Uuid → Uuid) (w : World) (reached : Reached storageKey Spares w) :
    Safe w ∧ (∀ label w', Step storageKey w label w' → (Safe w' ↔ Spares w label)) ∧
      ∀ id w', Step storageKey w (.delete id) w' → Spares w (.delete id) → ¬Named w.clock w.db id ∧
        ∀ later, Later storageKey Spares w' later → ¬Named later.clock later.db id := by
  have inv := reached.inv
  refine ⟨inv.safe, fun label w' step => ⟨step.spares, fun spares => ?_⟩, fun id w' step spares => ?_⟩
  · exact (inv.step reached.leases step spares).safe
  · constructor
    · have is : Abandoned w.clock w.db id := by
        have deleted := (inv.step reached.leases step spares).deleted id step.delete
        cases step with
        | erase | unlink => exact deleted
      exact inv.sound.unnamed is
    · intro later after
      have inv' := (after.reached (reached.step step spares)).inv
      exact inv'.sound.unnamed (inv'.deleted id (after.deleted step.delete))

end

/-- The worker may act on the upload until its lease ends. -/
def World.Acts (w : World) (key : Uuid) (i : Nat) : Prop :=
  ∃ lease saved, (w.workers i = .appending lease saved ∨ w.workers i = .finishing lease saved ∨
    ∃ piece stage, w.workers i = .putting lease saved piece stage) ∧ lease.key = key ∧ w.inTime lease

theorem Leases.acts {w : World} {i : Nat} {key : Uuid} (leases : Leases w.clock w.db.uploads w.workers)
    (acts : w.Acts key i) : ∃ lease u, (w.workers i).lease = some lease ∧ lease.key = key ∧ w.inTime lease ∧
      HeldRow w.db.uploads lease u := by
  obtain ⟨lease, saved, task, is, inTime⟩ := acts
  have memory : (w.workers i).memory = some (lease, saved) := by
    obtain task | task | ⟨piece, stage, task⟩ := task <;> rw [task] <;> rfl
  obtain ⟨u, row⟩ := (leases.held i memory).2 inTime
  exact ⟨lease, u, lease_of_memory memory, is, inTime, row⟩

/-- At most one worker acts on an upload, and while it does the upload is open and held. -/
theorem claims_exclusive (storageKey : String → Uuid → Uuid) (w : World)
    (reached : Reached storageKey Always w) (key : Uuid) (i : Nat) (acts : w.Acts key i) :
    (∀ j, w.Acts key j → j = i) ∧
      ∃ u, w.db.uploads.get? key = some u ∧ u.complete = false ∧ w.clock < u.heldUntil := by
  obtain ⟨lease, u, holds, rfl, inTime, row⟩ := reached.leases.acts acts
  refine ⟨fun j acts => ?_, u, row.found, row.incomplete, row.heldUntil ▸ inTime⟩
  obtain ⟨lease', u', holds', same, -, row'⟩ := reached.leases.acts acts
  have found := row'.found
  rw [same] at found
  cases row.found.symm.trans found
  exact reached.leases.alone j i lease' lease holds' holds (Option.some.inj (row'.epoch.symm.trans row.epoch))

namespace Sample

def storageKey (_ : String) (id : Uuid) : Uuid := id

def binding : Binding := ⟨"software", .artifact, "tool.msi", 5, 7, "alice"⟩

def piece : Piece := ⟨21, 0, 5, ⟨5, 7⟩⟩

def saved : Saved := ⟨⟨1, binding, 5, 100, false⟩, [piece]⟩

def document : Manifest := ⟨[piece], .empty⟩

def key : ManifestKey := ⟨.artifact, 7, 5⟩

def upload (document : Saved) (epoch : Option Uuid) (heldUntil : Int) (complete : Bool) : OrdMap Uuid UploadRow :=
  OrdMap.empty.insert 1 ⟨document, epoch, heldUntil, 100, complete⟩

def object (located : Bool) (state : ObjectState) : OrdMap Uuid ObjectRow :=
  OrdMap.empty.insert 21 ⟨1, ⟨5, 7⟩, located, 100, state⟩

def manifest (state : ManifestState) : OrdMap ManifestKey ManifestRow := OrdMap.empty.insert key ⟨document, 100, state⟩

def one (task : Task) : Nat → Task := Function.update (fun _ => .idle) 0 task

theorem work_one {w : World} {old task : Task} (is : w.workers = one old) :
    w.work 0 task = { w with workers := one task } := by
  unfold World.work
  rw [is, one, Function.update_idem]
  rfl

theorem one_idle : one .idle = fun _ => .idle := Function.update_eq_self _ _

theorem fresh {e : Uuid} : ∀ (j : Nat) (l : Lease), (one .idle j).lease = some l → l.epoch ≠ e := by
  intro j l is
  rw [one_idle] at is
  cases is

/-- A world in which only the first worker does something. -/
def world (db : Database) (clock : Int) (task : Task) (written deleted : List Uuid) : World :=
  ⟨db, clock, one task, written, deleted, fun _ => []⟩

variable {db db' : Database} {clock : Int} {old task : Task} {written written' deleted deleted' : List Uuid}
  {Allowed : World → Label → Prop} {label : Label}

theorem reached_next (reached : Reached storageKey Allowed (world db clock old written deleted))
    (step : Step storageKey (world db clock old written deleted) label
      ((⟨db', clock, one old, written', deleted', fun _ => []⟩ : World).work 0 task))
    (allowed : Allowed (world db clock old written deleted) label) :
    Reached storageKey Allowed (world db' clock task written' deleted') := by
  rw [work_one rfl] at step
  exact .step reached step allowed

theorem reached_always {w : World} (reached : Reached storageKey Allowed w) : Reached storageKey Always w := by
  induction reached with
  | start _ time => exact .start _ time
  | step _ step _ ih => exact .step ih step trivial

def held : Lease := ⟨1, 11, 50⟩

def kept : Lease := ⟨1, 12, 3690⟩

/-- The upload before anything was appended, and after the bytes were read. -/
def opened (offset : Nat) : Saved := ⟨⟨1, binding, offset, 100, false⟩, []⟩

theorem reached_appended : Reached storageKey Spares
    (world ⟨upload saved none 0 false, object true .ready, .empty, .empty⟩ 0 .idle [21] []) := by
  have start : Reached storageKey Spares (world .empty 0 .idle [] []) := by
    have start : Reached storageKey Spares (.start 0) := .start 0 (le_refl _)
    unfold World.start at start
    rw [← one_idle] at start
    exact start
  have begun : Reached storageKey Spares
      (world ⟨upload (opened 0) none 0 false, .empty, .empty, .empty⟩ 0 .idle [] []) :=
    .step start (@Step.begin _ _ _ "alice" 1 binding 100 0 _ (le_refl _) (by decide) rfl rfl) trivial
  have intact : Intact (world ⟨upload (opened 0) none 0 false, .empty, .empty, .empty⟩ 0 .idle [] []) held := by
    intro _ u found id names
    cases found
    cases names
  have claimed :=
    reached_next begun
      (@Step.claimAppend _ _ 0 _ "alice" 1 0 0 held (opened 0) rfl (le_refl _) rfl fresh rfl) intact
  have read := reached_next claimed (@Step.read _ _ 0 held (opened 0) 5 rfl (by decide) (by decide)) trivial
  have inserted := reached_next read (@Step.insert _ _ 0 _ held (opened 5) piece rfl (by decide) rfl rfl) trivial
  have written := reached_next inserted (@Step.write _ _ 0 held (opened 5) piece rfl (by decide)) trivial
  have located := reached_next written (@Step.locate _ _ 0 held (opened 5) piece rfl (by decide)) trivial
  have confirmed := reached_next located (@Step.confirm _ _ 0 held (opened 5) piece rfl (by decide)) trivial
  exact reached_next confirmed (@Step.save _ _ 0 _ held saved rfl (by decide) rfl) trivial

/-- A request that read the clock before the upload expired claims it when the clean-up of another has marked
its object, and publishes it. -/
theorem stale_claim_deleted : ¬∀ w, Reached storageKey Always w → ∀ k m id, w.db.manifests.get? k = some m →
    m.state = .ready → m.document.names id = true → w.db.StateIs id (· = .ready) ∧ id ∉ w.deleted := by
  intro all
  have late : Reached storageKey Always
      (world ⟨upload saved none 0 false, object true .ready, .empty, .empty⟩ 101 .idle [21] []) :=
    .step (reached_always reached_appended) (.tick 101 (by decide)) trivial
  have marked := reached_next late (@Step.mark _ _ 0 101 rfl (le_refl _)) trivial
  have erasing := reached_next marked (@Step.recover _ _ 0 21 true [] rfl (.inl rfl)) trivial
  have unleased : ∀ (j : Nat) (l : Lease), (one (.erasing 21 []) j).lease = some l → l.epoch ≠ (12 : Uuid) := by
    intro j l is
    unfold one Function.update at is
    split at is
    · rename_i here
      cases here
      cases is
    · cases is
  have claimed := erasing.step
    (@Step.claimFinish _ _ 1 _ "alice" 1 90 kept saved rfl (by decide) rfl unleased rfl) trivial
  have published := claimed.step (@Step.finish _ _ 1 _ kept saved .empty rfl (by decide) rfl rfl) trivial
  have erased := published.step (@Step.erase _ _ 0 21 [] rfl) trivial
  exact (all _ erased key _ 21 rfl rfl rfl).2 mem_cons_self

def finished : Saved := { saved with upload := { saved.upload with complete := true } }

theorem reached_finished : Reached storageKey Spares
    (world ⟨upload finished (some 12) 3690 true, object true .ready, manifest .ready, .empty⟩ 90 .idle [21] []) := by
  have waited : Reached storageKey Spares
      (world ⟨upload saved none 0 false, object true .ready, .empty, .empty⟩ 90 .idle [21] []) :=
    .step reached_appended (.tick 90 (by decide)) trivial
  have intact : Intact (world ⟨upload saved none 0 false, object true .ready, .empty, .empty⟩ 90 .idle [21] []) kept := by
    intro _ u found id names
    cases found
    obtain ⟨p, mem, rfl⟩ := names_iff.mp names
    cases List.mem_singleton.mp mem
    exact ⟨_, rfl, rfl⟩
  have claimed :=
    reached_next waited (@Step.claimFinish _ _ 0 _ "alice" 1 90 kept saved rfl (le_refl _) rfl fresh rfl) intact
  have done := reached_next claimed (@Step.finish _ _ 0 _ kept saved .empty rfl (by decide) rfl rfl) trivial
  exact reached_next done (.stop 0) trivial

theorem reclamation_safe_finished :
    let w := world ⟨upload finished (some 12) 3690 true, object true .ready, manifest .ready, .empty⟩ 90 .idle [21] []
    Safe w ∧ (∀ label w', Step storageKey w label w' → (Safe w' ↔ Spares w label)) ∧
      ∀ id w', Step storageKey w (.delete id) w' → Spares w (.delete id) → ¬Named w.clock w.db id ∧
        ∀ later, Later storageKey Spares w' later → ¬Named later.clock later.db id :=
  reclamation_safe storageKey _ reached_finished

def claimed : World :=
  world ⟨upload saved (some 12) 3600 false, object true .ready, .empty, .empty⟩ 0
    (.finishing ⟨1, 12, 3600⟩ saved) [21] []

theorem claims_exclusive_claimed : (∀ j, claimed.Acts 1 j → j = 0) ∧
    ∃ u, claimed.db.uploads.get? 1 = some u ∧ u.complete = false ∧ claimed.clock < u.heldUntil :=
  claims_exclusive storageKey claimed
    (reached_next (reached_always reached_appended)
      (@Step.claimFinish _ _ 0 _ "alice" 1 0 ⟨1, 12, 3600⟩ saved rfl (le_refl _) rfl fresh rfl) trivial)
    1 0 ⟨_, _, .inr (.inl rfl), rfl, by decide⟩

end Sample

end RssMdm.ContentStore
