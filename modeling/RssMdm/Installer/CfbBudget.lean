/- module: Installer/CfbBudget
   source: crates/content-service/src/installer/cfb_budget.rs
   digest: The preflight of a compound file bounds and separates every chain of sectors. -/

import Mathlib.Algebra.Order.Ring.Int
import Mathlib.Data.List.Perm.Basic
import RssMdm.Lib.Outcome

set_option autoImplicit false

namespace RssMdm.Installer

open Lib.Fallible Lib.Outcome

inductive Error where
  | malformed

def invalid {α : Type} : Run Error α := .error (.error .malformed)

def metadata : Nat := 1048576

def free : Nat := 0xffffffff

def endOfChain : Nat := 0xfffffffe

def fatBytes : Nat := 16 * metadata

def directorySlots : Nat := 4096

/-- The little-endian numbers of the exact chunks of four bytes. -/
def words : List UInt8 → List Nat
  | a :: b :: c :: d :: rest =>
      (a.toNat + 2 ^ 8 * b.toNat + 2 ^ 16 * c.toNat + 2 ^ 24 * d.toNat) :: words rest
  | _ => []

def word? (bytes : List UInt8) (i : Nat) : Option Nat := (words (bytes.drop i)).head?

/-- The number at an index; the source panics past the end. -/
def number (bytes : List UInt8) (i : Nat) : Run Error Nat :=
  match word? bytes i with
  | none => .error .panic
  | some n => .ok n

def sectorBytes (file : List UInt8) (size id : Nat) : List UInt8 :=
  (file.drop ((id + 1) * size)).take size

def sector (file : List UInt8) (id size count : Nat) : Run Error (List UInt8) :=
  if count ≤ id then invalid
  else if (sectorBytes file size id).length < size then invalid
  else .ok (sectorBytes file size id)

/-- The loop of `chain`, with the room that the limit leaves. -/
def chainLoop (fat : List Nat) (count : Nat) :
    Nat → Nat → List Nat → List Nat → Run Error (List Nat × List Nat)
  | 0, id, ids, used => if id = endOfChain then .ok (ids, used) else invalid
  | room + 1, id, ids, used =>
      if id = endOfChain then .ok (ids, used)
      else if count ≤ id ∨ id ∈ used then invalid
      else
        match fat[id]? with
        | none => invalid
        | some next => chainLoop fat count room next (ids ++ [id]) (id :: used)

def chain (fat : List Nat) (id count max : Nat) (used : List Nat) :
    Run Error (List Nat × List Nat) :=
  chainLoop fat count max id [] used

/-- One pass over the entries of the header or of a DIFAT sector. -/
def collect (size count : Nat) :
    List Nat → List Nat → List Nat → Run Error (List Nat × List Nat)
  | [], ids, used => .ok (ids, used)
  | id :: rest, ids, used =>
      if id = free then collect size count rest ids used
      else if count ≤ id ∨ id ∈ used then invalid
      else if fatBytes < (ids.length + 1) * size then invalid
      else collect size count rest (ids ++ [id]) (id :: used)

/-- The loop over the DIFAT sectors; their budget bounds its rounds. -/
def difatLoop (file : List UInt8) (size count : Nat) : Nat → List UInt8 → Nat → Nat →
    List Nat → List Nat → Run Error (List Nat × List Nat)
  | 0, _, _, _, _, _ => .error .fuel
  | fuel + 1, entries, next, difatBytes, ids, used => do
      let (ids, used) ← collect size count (words entries) ids used
      if next = endOfChain ∨ next = free then .ok (ids, used)
      else if metadata < difatBytes + size ∨ next ∈ used then invalid
      else do
        let entries ← sector file next size count
        let following ← number entries (size - 4)
        difatLoop file size count fuel (entries.take (size - 4)) following (difatBytes + size)
          ids (next :: used)

def readFat (file : List UInt8) (size count : Nat) : List Nat → Run Error (List Nat)
  | [] => .ok []
  | id :: rest => do
      let bytes ← sector file id size count
      let later ← readFat file size count rest
      .ok (words bytes ++ later)

def signature : List UInt8 := [0xd0, 0xcf, 0x11, 0xe0, 0xa1, 0xb1, 0x1a, 0xe1]

def sectorSize (version shift : List UInt8) : Run Error Nat :=
  if version = [3, 0] ∧ shift = [9, 0] then .ok 512
  else if version = [4, 0] ∧ shift = [12, 0] then .ok 4096
  else invalid

/-- The chains of the directory, of the mini stream and of the MiniFAT. -/
def validateChains (file header : List UInt8) (size count : Nat) (fat used : List Nat) :
    Run Error Unit := do
  let head ← number header 48
  let (directory, used) ← chain fat head count (directorySlots * 128 / size) used
  match directory with
  | [] => invalid
  | first :: _ => do
      let root ← sector file first size count
      let low ← number root 120
      let high ← number root 124
      if 16 * metadata < low + 2 ^ 32 * high then invalid
      else do
        let head ← number root 116
        let (_, used) ← chain fat head count (16 * metadata / size) used
        let head ← number header 60
        let _ ← chain fat head count (metadata / size) used
        .ok ()

/-- `validate` while the clock stays below the deadline; the file is given by its bytes. -/
def validate (file : List UInt8) : Run Error Unit :=
  let header := file.take 512
  if header.length < 512 then invalid
  else if header.take 8 ≠ signature then invalid
  else do
    let size ← sectorSize ((header.drop 26).take 2) ((header.drop 30).take 2)
    let sectors := (file.length + size - 1) / size
    if sectors = 0 then invalid
    else if sectors - 1 = 0 ∨ fatBytes / 4 < sectors - 1 then invalid
    else do
      let next ← number header 68
      let (ids, used) ← difatLoop file size (sectors - 1) (metadata / size + 1) (header.drop 76)
        next 0 [] []
      let declared ← number header 44
      if ids.length ≠ declared then invalid
      else do
        let fat ← readFat file size (sectors - 1) ids
        if fat.length < sectors - 1 then invalid
        else validateChains file header size (sectors - 1) fat used

/-- The successor path of the FAT from a head to the end marker. -/
def Follows (fat : List Nat) : Nat → List Nat → Prop
  | head, [] => head = endOfChain
  | head, id :: rest => head = id ∧ ∃ next, fat[id]? = some next ∧ Follows fat next rest

/-- The FAT sectors that the entries name and the DIFAT sectors that continue them. -/
def Listed (file : List UInt8) (size : Nat) : List UInt8 → Nat → List Nat → List Nat → Prop
  | entries, next, [], ids =>
      (next = endOfChain ∨ next = free) ∧ ids = (words entries).filter (· ≠ free)
  | entries, next, id :: rest, ids => next = id ∧ ∃ following later,
      word? (sectorBytes file size id) (size - 4) = some following ∧
      ids = (words entries).filter (· ≠ free) ++ later ∧
      Listed file size ((sectorBytes file size id).take (size - 4)) following rest later

/-- What an accepted file is known to be: its FAT and DIFAT sectors and its three chains. -/
structure Bounded (file : List UInt8) (size count : Nat)
    (ids difat fat directory mini miniFat : List Nat) : Prop where
  sized : size = 512 ∨ size = 4096
  counted : count + 1 = (file.length + size - 1) / size
  listed : ∃ next, word? (file.take 512) 68 = some next ∧
    Listed file size ((file.take 512).drop 76) next difat ids
  declared : word? (file.take 512) 44 = some ids.length
  read : fat = ids.flatMap (fun id => words (sectorBytes file size id))
  covers : count ≤ fat.length
  directoryPath : ∃ head, word? (file.take 512) 48 = some head ∧ Follows fat head directory
  miniPath : ∃ first head, directory.head? = some first ∧
    word? (sectorBytes file size first) 116 = some head ∧ Follows fat head mini
  miniFatPath : ∃ head, word? (file.take 512) 60 = some head ∧ Follows fat head miniFat
  nodup : (ids ++ difat ++ directory ++ mini ++ miniFat).Nodup
  below : ∀ id ∈ ids ++ difat ++ directory ++ mini ++ miniFat, id < count
  fatRoom : ids.length * size ≤ fatBytes
  difatRoom : difat.length * size ≤ metadata
  slots : directory.length * size ≤ directorySlots * 128
  miniRoom : mini.length * size ≤ 16 * metadata
  miniFatRoom : miniFat.length * size ≤ metadata

def Apart (count : Nat) (used : List Nat) : Prop := used.Nodup ∧ ∀ id ∈ used, id < count

variable {file bytes : List UInt8} {size count fuel : Nat} {fat ids used : List Nat}

theorem Apart.cons {id : Nat} (apart : Apart count used) (fresh : ¬(count ≤ id ∨ id ∈ used)) :
    Apart count (id :: used) := by
  obtain ⟨below, new⟩ := not_or.mp fresh
  exact ⟨List.nodup_cons.mpr ⟨new, apart.1⟩,
    List.forall_mem_cons.mpr ⟨Nat.lt_of_not_le below, apart.2⟩⟩

theorem words_ne_nil {i : Nat} (h : i + 4 ≤ bytes.length) : ∃ n, word? bytes i = some n := by
  rw [word?]
  have long : 4 ≤ (bytes.drop i).length := by
    rw [List.length_drop]
    omega
  match bytes.drop i, long with
  | a :: b :: c :: d :: rest, _ => exact ⟨_, rfl⟩

theorem number_safe {i : Nat} (h : i + 4 ≤ bytes.length) :
    Safe (number bytes i) (fun n => word? bytes i = some n) := by
  obtain ⟨n, found⟩ := words_ne_nil h
  rw [number, found]
  rfl

theorem sector_safe (id : Nat) : Safe (sector file id size count)
    (fun bytes => id < count ∧ bytes = sectorBytes file size id ∧ bytes.length = size) := by
  refine .guard fun below => .guard fun long => ⟨Nat.lt_of_not_le below, rfl, ?_⟩
  exact Nat.le_antisymm (List.length_take_le _ _) (Nat.le_of_not_lt long)

theorem chainLoop_safe (room id : Nat) (apart : Apart count used) :
    Safe (chainLoop fat count room id ids used) (fun out => ∃ new, out.1 = ids ++ new ∧
      new.length ≤ room ∧ Follows fat id new ∧ out.2.Perm (new ++ used) ∧ Apart count out.2) := by
  induction room generalizing id ids used with
  | zero =>
    rw [chainLoop]
    split
    · rename_i last
      exact ⟨[], (List.append_nil ids).symm, Nat.le_refl 0, last, .refl _, apart⟩
    · trivial
  | succ room ih =>
    rw [chainLoop]
    split
    · rename_i last
      exact ⟨[], (List.append_nil ids).symm, Nat.zero_le _, last, .refl _, apart⟩
    refine .guard fun fresh => ?_
    split
    · trivial
    rename_i next found
    refine (ih next (apart.cons fresh)).mono ?_
    rintro out ⟨new, eq, short, follows, perm, apart⟩
    refine ⟨id :: new, by rw [eq, List.append_assoc]; rfl, Nat.succ_le_succ short,
      ⟨rfl, next, found, follows⟩, perm.trans List.perm_middle, apart⟩

theorem chain_safe (id max : Nat) (apart : Apart count used) (positive : 0 < size) :
    Safe (chain fat id count (max / size) used) (fun out => out.1.length * size ≤ max ∧
      Follows fat id out.1 ∧ out.2.Perm (out.1 ++ used) ∧ Apart count out.2) := by
  refine (chainLoop_safe (max / size) id apart).mono ?_
  rintro out ⟨new, eq, short, rest⟩
  rw [List.nil_append] at eq
  rw [eq]
  exact ⟨(Nat.le_div_iff_mul_le positive).mp short, rest⟩

theorem collect_safe (ws : List Nat) (apart : Apart count used)
    (room : ids.length * size ≤ fatBytes) :
    Safe (collect size count ws ids used) (fun out => out.1 = ids ++ ws.filter (· ≠ free) ∧
      out.1.length * size ≤ fatBytes ∧ out.2.Perm (ws.filter (· ≠ free) ++ used) ∧
      Apart count out.2) := by
  induction ws generalizing ids used with
  | nil => exact ⟨(List.append_nil ids).symm, room, .refl _, apart⟩
  | cons id rest ih =>
    rw [collect]
    split
    · rename_i skipped
      rw [List.filter_cons_of_neg (by simpa using skipped)]
      exact ih apart room
    rename_i named
    refine .guard fun fresh => .guard fun fits => ?_
    rw [List.filter_cons_of_pos (by simpa using named)]
    refine (ih (apart.cons fresh) (by simpa using fits)).mono ?_
    rintro out ⟨eq, room, perm, apart⟩
    exact ⟨by rw [eq, List.append_assoc]; rfl, room, perm.trans List.perm_middle, apart⟩

theorem difatLoop_safe {entries : List UInt8} {next spent : Nat} (sized : 4 ≤ size)
    (enough : metadata < spent + fuel * size) (within : spent ≤ metadata)
    (apart : Apart count used) (room : ids.length * size ≤ fatBytes) :
    Safe (difatLoop file size count fuel entries next spent ids used) (fun out =>
      ∃ difat new, out.1 = ids ++ new ∧ Listed file size entries next difat new ∧
        out.1.length * size ≤ fatBytes ∧ spent + difat.length * size ≤ metadata ∧
        out.2.Perm (new ++ difat ++ used) ∧ Apart count out.2) := by
  induction fuel generalizing entries next spent ids used with
  | zero => omega
  | succ fuel ih =>
    refine (collect_safe (words entries) apart room).bind ?_
    rintro ⟨ids', used'⟩ ⟨eq, room', perm, apart'⟩
    dsimp only at eq room' perm apart' ⊢
    split
    · rename_i last
      exact ⟨[], _, eq, ⟨last, rfl⟩, room', by simpa using within, by simpa using perm, apart'⟩
    refine .guard fun fresh => (sector_safe next).bind ?_
    rintro _ ⟨below, rfl, long⟩
    refine (number_safe (by omega)).bind fun following found => ?_
    obtain ⟨short, new⟩ := not_or.mp fresh
    have moved := apart'.cons (not_or.mpr ⟨Nat.not_le_of_lt below, new⟩)
    refine (ih (by rw [Nat.succ_mul] at enough; omega) (Nat.le_of_not_lt short) moved room').mono ?_
    rintro out ⟨difat, later, eq', listed, room, total, perm', apart⟩
    refine ⟨next :: difat, _, by rw [eq', eq, List.append_assoc],
      ⟨rfl, following, later, found, rfl, listed⟩, room, ?_, ?_, apart⟩
    · rw [List.length_cons, Nat.succ_mul]
      omega
    · refine (perm'.trans ((perm.cons next).append_left _)).trans ?_
      rw [List.perm_iff_count]
      intro id
      simp only [List.count_append, List.count_cons]
      omega

theorem readFat_safe (ids : List Nat) : Safe (readFat file size count ids)
    (fun fat => fat = ids.flatMap (fun id => words (sectorBytes file size id))) := by
  induction ids with
  | nil => rfl
  | cons id rest ih =>
    refine (sector_safe id).bind ?_
    rintro _ ⟨-, rfl, -⟩
    refine ih.bind fun later eq => ?_
    rw [safe_ok, eq, List.flatMap_cons]

/-- Every accepted file is bounded; nothing panics and no loop goes on. -/
theorem validate_bounds (file : List UInt8) : Safe (validate file) (fun _ =>
    ∃ size count ids difat fat directory mini miniFat,
      Bounded file size count ids difat fat directory mini miniFat) := by
  refine Safe.guard fun whole => Safe.guard fun _ => ?_
  have header : (file.take 512).length = 512 :=
    Nat.le_antisymm (List.length_take_le _ _) (Nat.le_of_not_lt whole)
  have field : ∀ i, i + 4 ≤ 512 → Safe (number (file.take 512) i)
      (fun n => word? (file.take 512) i = some n) := fun i h => number_safe (by rw [header]; exact h)
  have sizes : ∀ version shift, Safe (sectorSize version shift) (fun n => n = 512 ∨ n = 4096) := by
    intro version shift
    unfold sectorSize
    split
    · exact .inl rfl
    · split
      · exact .inr rfl
      · trivial
  refine (sizes _ _).bind fun size sized => ?_
  have positive : 0 < size := by omega
  refine Safe.guard fun some => Safe.guard fun _ => ?_
  refine (field 68 (by decide)).bind fun next nextAt => ?_
  have enough : metadata < 0 + (metadata / size + 1) * size := by
    rw [Nat.zero_add, Nat.mul_comm]
    exact Nat.lt_mul_div_succ metadata positive
  refine (difatLoop_safe (by omega) enough (Nat.zero_le _) ⟨List.nodup_nil, by simp⟩
    (by simp)).bind ?_
  rintro ⟨ids, used⟩ ⟨difat, _, rfl, listed, fatRoom, difatRoom, perm, apart⟩
  dsimp only at listed fatRoom perm apart ⊢
  refine (field 44 (by decide)).bind fun declared declaredAt => Safe.guard fun counted => ?_
  refine (readFat_safe ids).bind fun fat read => Safe.guard fun covers => ?_
  refine (field 48 (by decide)).bind fun head headAt => ?_
  refine (chain_safe head _ apart positive).bind ?_
  rintro ⟨directory, used₁⟩ ⟨slots, path, perm₁, apart₁⟩
  dsimp only at slots path perm₁ apart₁ ⊢
  cases directory with
  | nil => trivial
  | cons first rest =>
    refine (sector_safe first).bind ?_
    rintro _ ⟨-, rfl, long⟩
    refine (number_safe (by omega)).bind fun low _ => (number_safe (by omega)).bind fun high _ => ?_
    refine Safe.guard fun _ => (number_safe (by omega)).bind fun head' headAt' => ?_
    refine (chain_safe head' _ apart₁ positive).bind ?_
    rintro ⟨mini, used₂⟩ ⟨miniRoom, path', perm₂, apart₂⟩
    dsimp only at miniRoom path' perm₂ apart₂ ⊢
    refine (field 60 (by decide)).bind fun head'' headAt'' => ?_
    refine (chain_safe head'' _ apart₂ positive).bind ?_
    rintro ⟨miniFat, used₃⟩ ⟨miniFatRoom, path'', perm₃, apart₃⟩
    dsimp only at miniFatRoom path'' perm₃ apart₃
    have order : used₃.Perm (ids ++ difat ++ (first :: rest) ++ mini ++ miniFat) := by
      refine perm₃.trans ?_
      rw [List.perm_iff_count] at perm perm₁ perm₂ ⊢
      intro id
      have one := perm id
      have two := perm₁ id
      have three := perm₂ id
      simp only [List.count_append, List.count_nil] at one two three ⊢
      omega
    exact ⟨size, _, ids, difat, fat, first :: rest, mini, miniFat, {
      sized, counted := by omega, listed := ⟨next, nextAt, listed⟩
      declared := not_not.mp counted ▸ declaredAt, read, covers := Nat.le_of_not_lt covers
      directoryPath := ⟨head, headAt, path⟩, miniPath := ⟨first, head', rfl, headAt', path'⟩
      miniFatPath := ⟨head'', headAt'', path''⟩, nodup := order.nodup_iff.mp apart₃.1
      below := fun id mem => apart₃.2 id (order.mem_iff.mpr mem), fatRoom
      difatRoom := by simpa using difatRoom, slots, miniRoom, miniFatRoom }⟩

end RssMdm.Installer
