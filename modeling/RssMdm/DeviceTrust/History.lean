/- module: DeviceTrust/History
   source: crates/device-trust/src/lib.rs
   digest: The snapshots a trust accepts one after another, and when none of them goes back behind an earlier one. -/

import RssMdm.DeviceTrust.Model

set_option autoImplicit false

namespace RssMdm.DeviceTrust

open Lib Lib.Fallible
open List (map_cons mem_cons mem_cons_self mem_singleton)

variable {env : Environment}

section

/-- What the checks of one issuer establish about its generation. -/
structure Generation.Sound (env : Environment) (now : Int) (g : Generation) (der rootDer : Bytes) : Prop where
  certificate : env.base64 g.issuer.certificate = some der
  digest : env.digest der = g.issuer.digest
  decoded : env.certificate der = some g.certificate
  root : env.base64 g.issuer.root = some rootDer
  rootDecoded : env.certificate rootDer = some g.root
  crl : DeviceTrust.crl env g.crl.der g.certificate now = .ok g.crl
  rootCrl : DeviceTrust.crl env g.rootCrl.der g.root now = .ok g.rootCrl

theorem base64_of_decode {value : String} {limit : Nat} {der : Bytes} (ok : decode env value limit = .ok der) :
    env.base64 value = some der := by
  unfold decode at ok
  obtain ⟨-, ok⟩ := of_guard ok
  cases read : env.base64 value with
  | none => rw [read] at ok; cases ok
  | some =>
    rw [read] at ok
    obtain ⟨-, same⟩ := of_guard ok
    cases same
    rfl

variable {now : Int}

theorem der_of_crl {der : Bytes} {c : Certificate} {list : Crl}
    (ok : crl env der c now = .ok list) :
    list.der = der := by
  unfold crl at ok
  obtain ⟨-, ok⟩ := of_guard ok
  cases read : env.certificateList der with
  | none => rw [read] at ok; cases ok
  | some =>
    rw [read] at ok
    obtain ⟨-, ok⟩ := of_guard ok
    obtain ⟨-, ok⟩ := of_check ok
    unfold readCrl at ok
    grind

variable {restoring : Bool} {g : Generation} {trust : Trust}

theorem generation_ok {p : Issuer} {seen : List String} {rootDer : Bytes}
    (ok : generation env trust now restoring p seen = .ok (rootDer, g)) :
    g.issuer = p ∧ p.digest ∉ seen ∧ ∃ der, g.Sound env now der rootDer := by
  unfold generation at ok
  obtain ⟨-, ok⟩ := of_guard ok
  obtain ⟨der, read, ok⟩ := of_bind ok
  obtain ⟨known, ok⟩ := of_guard ok
  cases decoded : env.certificate der with
  | none => rw [decoded] at ok; cases ok
  | some certificate =>
    rw [decoded] at ok
    obtain ⟨rootDer', rootRead, ok⟩ := of_bind ok
    cases rootDecoded : env.certificate rootDer' with
    | none => rw [rootDecoded] at ok; cases ok
    | some =>
      rw [rootDecoded] at ok
      obtain ⟨-, ok⟩ := of_check ok
      obtain ⟨-, ok⟩ := of_check ok
      obtain ⟨-, ok⟩ := of_check ok
      obtain ⟨-, ok⟩ := of_guard ok
      obtain ⟨-, ok⟩ := of_check ok
      obtain ⟨-, ok⟩ := of_guard ok
      obtain ⟨-, ok⟩ := of_check ok
      obtain ⟨crlDer, -, ok⟩ := of_bind ok
      obtain ⟨issuerCrl, own, ok⟩ := of_bind ok
      obtain ⟨rootCrlDer, -, ok⟩ := of_bind ok
      obtain ⟨rootCrl, roots, ok⟩ := of_bind ok
      cases ok
      simp only [ne_eq, Bool.or_eq_true, decide_eq_true_eq, not_or, not_not, List.contains_eq_mem] at known
      refine ⟨rfl, known.2, der, base64_of_decode read, known.1, decoded, base64_of_decode rootRead,
        rootDecoded, ?_, ?_⟩
      · rw [der_of_crl own]; exact own
      · rw [der_of_crl roots]; exact roots

structure Coherent (env : Environment) (now : Int) (issuers : List Issuer) (gens : List Generation) : Prop where
  issuers : gens.map Generation.issuer = issuers
  sound : ∀ g ∈ gens, ∃ der rootDer, g.Sound env now der rootDer
  distinct : (gens.map (fun g => g.issuer.digest)).Nodup
  /-- one root has one list -/
  lists : ∀ g ∈ gens, ∀ g' ∈ gens, ∀ rootDer, env.base64 g.issuer.root = some rootDer →
    env.base64 g'.issuer.root = some rootDer → g.rootCrl.der = g'.rootCrl.der
  /-- an issuer that is its own root has the root's list -/
  own : ∀ g ∈ gens, g.certificate = g.root → g.crl.der = g.rootCrl.der

variable {gens : List Generation} {issuers : List Issuer}

theorem generations_ok {seen : List String} {rootLists : List (String × Bytes)}
    (ok : generations env trust now restoring seen rootLists issuers = .ok gens) :
    Coherent env now issuers gens ∧ (∀ g ∈ gens, g.issuer.digest ∉ seen) ∧
      ∀ g ∈ gens, ∀ rootDer, env.base64 g.issuer.root = some rootDer →
        ∀ list, rootLists.lookup (env.digest rootDer) = some list → list = g.rootCrl.der := by
  induction issuers generalizing seen rootLists gens with
  | nil =>
    cases ok
    exact ⟨⟨rfl, by simp, by simp, by simp, by simp⟩, by simp, by simp⟩
  | cons _ _ ih =>
    obtain ⟨⟨rootDer, g⟩, one, ok⟩ := of_bind ok
    obtain ⟨agree, ok⟩ := of_guard ok
    obtain ⟨own, ok⟩ := of_guard ok
    obtain ⟨-, ok⟩ := of_guard ok
    obtain ⟨others, more, ok⟩ := of_bind ok
    cases ok
    obtain ⟨named, fresh, der, sound⟩ := generation_ok one
    obtain ⟨coherent, unseen, known⟩ := ih more
    have same : ∀ g' ∈ others, env.base64 g'.issuer.root = some rootDer → g.rootCrl.der = g'.rootCrl.der := by
      intro g' there read
      exact known g' there rootDer read _ (by simp)
    have earlier : ∀ list, rootLists.lookup (env.digest rootDer) = some list → list = g.rootCrl.der := by
      intro list found
      by_contra other
      exact agree (by simp [found, other])
    refine ⟨⟨?_, ?_, ?_, ?_, ?_⟩, ?_, ?_⟩
    · rw [map_cons, named, coherent.issuers]
    · intro g' there
      rcases mem_cons.mp there with rfl | there
      · exact ⟨der, rootDer, sound⟩
      · exact coherent.sound g' there
    · rw [map_cons, List.nodup_cons]
      refine ⟨fun again => ?_, coherent.distinct⟩
      obtain ⟨g', there, same⟩ := List.mem_map.mp again
      exact unseen g' there (by rw [same, named]; exact .head _)
    · intro a aThere b bThere rd readA readB
      rcases mem_cons.mp aThere with rfl | aOld
      · have is := sound.root.symm.trans readA
        cases is
        rcases mem_cons.mp bThere with rfl | bOld
        · rfl
        · exact same b bOld readB
      · rcases mem_cons.mp bThere with rfl | bOld
        · have is := sound.root.symm.trans readB
          cases is
          exact (same a aOld readA).symm
        · exact coherent.lists a aOld b bOld rd readA readB
    · intro g' there self
      rcases mem_cons.mp there with rfl | there
      · by_contra other
        exact own (by simp [self, other])
      · exact coherent.own g' there self
    · intro g' there
      rcases mem_cons.mp there with rfl | there
      · rw [named]; exact fresh
      · exact fun old => unseen g' there (.tail _ old)
    · intro g' there rd read list found
      rcases mem_cons.mp there with rfl | there
      · have is := sound.root.symm.trans read
        cases is
        exact earlier list found
      have listed := known g' there rd read
      cases other : (env.digest rd == env.digest rootDer) with
      | false => exact listed list (by rw [List.lookup_cons, other]; exact found)
      | true =>
        have hit : g.rootCrl.der = g'.rootCrl.der := listed _ (by rw [List.lookup_cons, other])
        rw [beq_iff_eq.mp other] at found
        exact (earlier list found).trans hit

theorem snapshot_ok {purpose : Purpose} {s : Snapshot}
    (ok : snapshot env trust purpose now restoring = .ok s) :
    s.trust = trust ∧ Coherent env now trust.issuers s.generations := by
  unfold snapshot at ok
  obtain ⟨-, ok⟩ := of_check ok
  obtain ⟨-, ok⟩ := of_guard ok
  obtain ⟨gens, built, ok⟩ := of_bind ok
  obtain ⟨-, ok⟩ := of_guard ok
  cases ok
  exact ⟨rfl, (generations_ok built).1⟩

theorem Coherent.mem_issuers {p : Issuer} (c : Coherent env now issuers gens) :
    p ∈ issuers ↔ ∃ g ∈ gens, g.issuer = p := by
  rw [← c.issuers, List.mem_map]

theorem Coherent.rootCrl {g' : Generation} (c : Coherent env now issuers gens) (mem : g ∈ gens)
    (mem' : g' ∈ gens) (same : env.base64 g.issuer.root = env.base64 g'.issuer.root) :
    g.rootCrl = g'.rootCrl := by
  obtain ⟨der, rootDer, sound⟩ := c.sound g mem
  obtain ⟨der', rootDer', sound'⟩ := c.sound g' mem'
  have roots : rootDer = rootDer' := Option.some.inj (sound.root.symm.trans (same.trans sound'.root))
  cases roots
  have decoded : g.root = g'.root := Option.some.inj (sound.rootDecoded.symm.trans sound'.rootDecoded)
  have list := sound.rootCrl
  rw [c.lists g mem g' mem' rootDer sound.root sound'.root, decoded, sound'.rootCrl] at list
  exact (Except.ok.inj list).symm

theorem Coherent.ownCrl (c : Coherent env now issuers gens) (mem : g ∈ gens)
    (self : env.base64 g.issuer.root = env.base64 g.issuer.certificate) : g.crl = g.rootCrl := by
  obtain ⟨der, rootDer, sound⟩ := c.sound g mem
  have ders : rootDer = der := Option.some.inj (sound.root.symm.trans (self.trans sound.certificate))
  cases ders
  have decoded : g.certificate = g.root := Option.some.inj (sound.decoded.symm.trans sound.rootDecoded)
  have list := sound.crl
  rw [c.own g mem decoded, decoded, sound.rootCrl] at list
  exact (Except.ok.inj list).symm

theorem Coherent.find {s : Snapshot} (c : Coherent env now issuers s.generations)
    (mem : g ∈ s.generations) :
    s.find g.issuer.digest = some g := by
  have distinct := c.distinct
  unfold Snapshot.find
  generalize s.generations = gens at mem distinct
  induction gens with
  | nil => cases mem
  | cons first _ ih =>
    rw [map_cons, List.nodup_cons] at distinct
    rcases mem_cons.mp mem with rfl | later
    · rw [List.find?_cons_of_pos (by simp)]
    have other : first.issuer.digest ≠ g.issuer.digest :=
      fun same => distinct.1 (same ▸ List.mem_map_of_mem later)
    rw [List.find?_cons_of_neg (by simpa using other)]
    exact ih later distinct.2

end

section

inductive History (env : Environment) : List Snapshot → Prop
  | new {trust : Trust} {purpose : Purpose} {now : Int} {s : Snapshot}
      (made : new env trust purpose now = .ok s) : History env [s]
  | restore {trust : Trust} {purpose : Purpose} {now : Int} {s : Snapshot}
      (made : restore env trust purpose now = .ok s) : History env [s]
  | update {old next : Snapshot} {before : List Snapshot} {trust : Trust} {now : Int}
      (past : History env (old :: before)) (accepted : update env old trust now = (next, .ok ())) :
      History env (next :: old :: before)
  | refused {old next : Snapshot} {before : List Snapshot} {trust : Trust} {now : Int} {e : Error}
      (past : History env (old :: before)) (answer : update env old trust now = (next, .error e)) :
      History env (next :: before)

/-- The list in use for a CA certificate, be it an issuer or a root. -/
def Snapshot.Uses (env : Environment) (s : Snapshot) (der : Bytes) (list : Crl) : Prop :=
  ∃ g ∈ s.generations, (env.base64 g.issuer.certificate = some der ∧ list = g.crl) ∨
    (env.base64 g.issuer.root = some der ∧ list = g.rootCrl)

/-- A list does not go back behind an earlier one, and one number is one list. -/
structure Crl.Advances (a b : Crl) : Prop where
  number : a.number ≤ b.number
  thisUpdate : a.thisUpdate ≤ b.thisUpdate
  der : a.number = b.number → a.der = b.der

structure InOrder (later earlier : Snapshot) : Prop where
  revision : earlier.trust.revision ≤ later.trust.revision
  modes : earlier.trust.revision = later.trust.revision → earlier.trust.modes = later.trust.modes

structure NotBehind (env : Environment) (later earlier : Snapshot) : Prop extends InOrder later earlier where
  binding : ∀ p ∈ earlier.trust.issuers, ∀ q ∈ later.trust.issuers, p.digest = q.digest →
    p.certificate = q.certificate ∧ p.root = q.root ∧ p.provisioner = q.provisioner ∧ p.kid = q.kid
  lists : ∀ der a b, earlier.Uses env der a → later.Uses env der b → a.Advances b

structure Carries (env : Environment) (next : Trust) (current : Snapshot) (before : List Snapshot) : Prop where
  /-- no issuer comes back after it was dropped -/
  issuers : ∀ q ∈ next.issuers, ∀ s ∈ before, ∀ p ∈ s.trust.issuers, p.digest = q.digest →
    ∃ now ∈ current.trust.issuers, now.digest = q.digest
  /-- a root that was in use before keeps an issuer under it -/
  roots : ∀ q ∈ next.issuers, ∀ s ∈ current :: before, ∀ p ∈ s.trust.issuers,
    env.base64 p.root = env.base64 q.root →
      ∃ kept ∈ next.issuers, ∃ now ∈ current.trust.issuers, now.digest = kept.digest ∧
        env.base64 kept.root = env.base64 q.root
  /-- no root is or was an issuer under another root -/
  roles : ∀ q ∈ next.issuers, ∀ s ∈ current :: before, ∀ p ∈ s.trust.issuers,
    (env.base64 p.certificate = env.base64 q.root → env.base64 p.root = env.base64 p.certificate) ∧
      (env.base64 q.certificate = env.base64 p.root → env.base64 q.root = env.base64 q.certificate)

theorem Crl.Advances.trans {a b c : Crl} (first : a.Advances b) (second : b.Advances c) : a.Advances c where
  number := first.number.trans second.number
  thisUpdate := Int.le_trans first.thisUpdate second.thisUpdate
  der := by
    intro same
    have low := first.number
    have high := second.number
    exact (first.der (by omega)).trans (second.der (by omega))

theorem advances_of_follows {a b : Crl} (f : b.follows a = true) : a.Advances b := by
  unfold Crl.follows at f
  simp only [Bool.not_or, Bool.and_eq_true, Bool.not_eq_true', decide_eq_false_iff_not, Nat.not_lt,
    Int.not_lt, Bool.and_eq_false_imp, decide_eq_true_eq, ne_eq, not_not] at f
  exact ⟨f.1.1, f.1.2, fun same => (f.2 same.symm).symm⟩

variable {now : Int} {next old : Snapshot} {trust : Trust}

theorem update_eq_ok :
    update env old trust now = (next, .ok ()) ↔ successor env old trust now = .ok next := by
  unfold update
  cases successor env old trust now with
  | error | ok => simp

theorem update_eq_error {e : Error} (answer : update env old trust now = (next, .error e)) :
    next = old := by
  unfold update at answer
  cases is : successor env old trust now with
  | error => rw [is] at answer; cases answer; rfl
  | ok => rw [is] at answer; cases answer

/-- What an accepted update was checked against. -/
structure Successor (env : Environment) (old next : Snapshot) : Prop extends InOrder next old where
  kept : ∀ g ∈ next.generations, ∀ p ∈ old.generations, p.issuer.digest = g.issuer.digest →
    (p.issuer.certificate = g.issuer.certificate ∧ p.issuer.root = g.issuer.root ∧
      p.issuer.provisioner = g.issuer.provisioner ∧ p.issuer.kid = g.issuer.kid) ∧
    p.crl.Advances g.crl ∧ p.rootCrl.Advances g.rootCrl

theorem successor_ok {then' : Int} (coherent : Coherent env then' old.trust.issuers old.generations)
    (ok : successor env old trust now = .ok next) :
    next.trust = trust ∧ Coherent env now next.trust.issuers next.generations ∧ Successor env old next := by
  unfold successor at ok
  obtain ⟨head, ok⟩ := of_guard ok
  obtain ⟨built, made, ok⟩ := of_bind ok
  obtain ⟨modes, ok⟩ := of_guard ok
  obtain ⟨kept, ok⟩ := of_guard ok
  cases ok
  obtain ⟨named, fits⟩ := snapshot_ok made
  refine ⟨named, named ▸ fits, ⟨?_, ?_⟩, ?_⟩
  · rw [named]
    simp only [Bool.or_eq_true, decide_eq_true_eq, not_or, not_lt] at head
    exact head.2
  · intro same
    by_contra other
    exact modes (by simpa [same] using fun is => other is.symm)
  · intro g mem p there digest
    have found := coherent.find there
    rw [digest] at found
    have follows : g.follows p = true := by
      by_contra not
      exact kept (List.any_eq_true.mpr ⟨g, mem, by simp [found, not]⟩)
    unfold Generation.follows at follows
    simp only [Bool.and_eq_true, decide_eq_true_eq] at follows
    obtain ⟨⟨⟨⟨⟨certificate, root⟩, provisioner⟩, kid⟩, own⟩, roots⟩ := follows
    exact ⟨⟨certificate.symm, root.symm, provisioner.symm, kid.symm⟩, advances_of_follows own,
      advances_of_follows roots⟩

theorem History.coherent {hist : List Snapshot} (h : History env hist) :
    ∀ s ∈ hist, ∃ now, Coherent env now s.trust.issuers s.generations := by
  induction h with
  | new made =>
    obtain ⟨named, fits⟩ := snapshot_ok made
    intro s mem
    cases mem_singleton.mp mem
    exact ⟨_, named ▸ fits⟩
  | restore made =>
    unfold DeviceTrust.restore at made
    obtain ⟨-, made⟩ := of_check made
    obtain ⟨latest, -, made⟩ := of_bind made
    obtain ⟨-, made⟩ := of_guard made
    obtain ⟨named, fits⟩ := snapshot_ok made
    intro s mem
    cases mem_singleton.mp mem
    exact ⟨_, named ▸ fits⟩
  | update _ accepted ih =>
    intro s mem
    rcases mem_cons.mp mem with rfl | mem
    · obtain ⟨_, there⟩ := ih _ (.head _)
      exact ⟨_, (successor_ok there (update_eq_ok.mp accepted)).2.1⟩
    · exact ih s mem
  | refused _ answer ih =>
    rw [update_eq_error answer]
    exact ih

theorem Coherent.uses {issuers : List Issuer} {s : Snapshot} {der : Bytes} {list : Crl}
    (c : Coherent env now issuers s.generations) (used : s.Uses env der list) :
    (∃ g ∈ s.generations, env.base64 g.issuer.root = some der ∧ list = g.rootCrl) ∨
      ∃ g ∈ s.generations, env.base64 g.issuer.certificate = some der ∧ list = g.crl ∧
        env.base64 g.issuer.root ≠ env.base64 g.issuer.certificate := by
  obtain ⟨g, mem, ⟨is, rfl⟩ | ⟨is, rfl⟩⟩ := used
  · by_cases self : env.base64 g.issuer.root = env.base64 g.issuer.certificate
    · exact .inl ⟨g, mem, self.trans is, c.ownCrl mem self⟩
    · exact .inr ⟨g, mem, is, rfl, self⟩
  · exact .inl ⟨g, mem, is, rfl⟩

theorem notBehind_next {current s : Snapshot} {before : List Snapshot} {at₀ at₁ at₂ : Int}
    (fits : Coherent env at₀ next.trust.issuers next.generations)
    (fits' : Coherent env at₁ current.trust.issuers current.generations)
    (fits'' : Coherent env at₂ s.trust.issuers s.generations) (step : Successor env current next)
    (carries : Carries env next.trust current before) (there : s ∈ current :: before)
    (past : s = current ∨ s ∈ before ∧ NotBehind env current s) (order : InOrder next s) :
    NotBehind env next s := by
  -- A digest of both snapshots is one of the current snapshot too.
  have shared : ∀ p ∈ s.generations, ∀ q ∈ next.generations, p.issuer.digest = q.issuer.digest →
      ∃ m ∈ current.generations, m.issuer.digest = q.issuer.digest ∧ (s = current → m = p) := by
    intro p pThere q qThere same
    rcases past with rfl | ⟨old, -⟩
    · exact ⟨p, pThere, same, fun _ => rfl⟩
    obtain ⟨i, iThere, digest⟩ := carries.issuers q.issuer (fits.mem_issuers.mpr ⟨q, qThere, rfl⟩) s old
      p.issuer (fits''.mem_issuers.mpr ⟨p, pThere, rfl⟩) same
    obtain ⟨m, mThere, rfl⟩ := fits'.mem_issuers.mp iThere
    by_cases here : s = current
    · subst here
      have one := (fits''.find mThere).symm.trans (digest.trans same.symm ▸ fits''.find pThere)
      exact ⟨m, mThere, digest, fun _ => Option.some.inj one⟩
    · exact ⟨m, mThere, digest, fun is => absurd is here⟩
  have onward : ∀ der a b, s.Uses env der a → current.Uses env der b → s ≠ current → a.Advances b := by
    intro der a b usedA usedB other
    rcases past with is | ⟨-, back⟩
    · exact absurd is other
    · exact back.lists der a b usedA usedB
  refine ⟨order, ?_, ?_⟩
  · intro i iThere j jThere same
    obtain ⟨p, pThere, rfl⟩ := fits''.mem_issuers.mp iThere
    obtain ⟨q, qThere, rfl⟩ := fits.mem_issuers.mp jThere
    obtain ⟨m, mThere, digest, is⟩ := shared p pThere q qThere same
    obtain ⟨⟨certificate, root, provisioner, kid⟩, -⟩ := step.kept q qThere m mThere digest
    rcases past with rfl | ⟨-, back⟩
    · rw [is rfl] at certificate root provisioner kid
      exact ⟨certificate, root, provisioner, kid⟩
    · obtain ⟨certificate', root', provisioner', kid'⟩ :=
        back.binding p.issuer (fits''.mem_issuers.mpr ⟨p, pThere, rfl⟩) m.issuer
          (fits'.mem_issuers.mpr ⟨m, mThere, rfl⟩) (same.trans digest.symm)
      exact ⟨certificate'.trans certificate, root'.trans root, provisioner'.trans provisioner, kid'.trans kid⟩
  · intro der a b usedA usedB
    have roles := fun q (qThere : q ∈ next.generations) p (pThere : p ∈ s.generations) => carries.roles q.issuer
      (fits.mem_issuers.mpr ⟨q, qThere, rfl⟩) s there p.issuer (fits''.mem_issuers.mpr ⟨p, pThere, rfl⟩)
    rcases fits''.uses usedA with ⟨p, pThere, pIs, rfl⟩ | ⟨p, pThere, pIs, rfl, pProper⟩ <;>
      rcases fits.uses usedB with ⟨q, qThere, qIs, rfl⟩ | ⟨q, qThere, qIs, rfl, qProper⟩
    · -- a root in both: an issuer kept under it carries its list over
      obtain ⟨i, iThere, now, nowThere, digest, under⟩ := carries.roots q.issuer
        (fits.mem_issuers.mpr ⟨q, qThere, rfl⟩) s there p.issuer (fits''.mem_issuers.mpr ⟨p, pThere, rfl⟩)
        (pIs.trans qIs.symm)
      obtain ⟨kept, keptThere, rfl⟩ := fits.mem_issuers.mp iThere
      obtain ⟨m, mThere, rfl⟩ := fits'.mem_issuers.mp nowThere
      obtain ⟨⟨-, root, -⟩, -, advance⟩ := step.kept kept keptThere m mThere digest
      rw [fits.rootCrl keptThere qThere under] at advance
      have mIs : env.base64 m.issuer.root = some der := by rw [root, under, qIs]
      by_cases here : s = current
      · subst here
        rw [fits''.rootCrl mThere pThere (mIs.trans pIs.symm)] at advance
        exact advance
      · exact (onward der _ _ usedA ⟨m, mThere, .inr ⟨mIs, rfl⟩⟩ here).trans advance
    · exact absurd ((roles q qThere p pThere).2 (qIs.trans pIs.symm)) qProper
    · exact absurd ((roles q qThere p pThere).1 (pIs.trans qIs.symm)) pProper
    · -- an issuer in both is one of the current snapshot
      have same : p.issuer.digest = q.issuer.digest := by
        obtain ⟨_, _, soundP⟩ := fits''.sound p pThere
        obtain ⟨_, _, soundQ⟩ := fits.sound q qThere
        have ders := soundP.certificate.symm.trans (pIs.trans (qIs.symm.trans soundQ.certificate))
        rw [← soundP.digest, ← soundQ.digest, Option.some.inj ders]
      obtain ⟨m, mThere, digest, is⟩ := shared p pThere q qThere same
      obtain ⟨⟨certificate, -⟩, advance, -⟩ := step.kept q qThere m mThere digest
      by_cases here : s = current
      · rw [is here] at advance
        exact advance
      · have mIs : env.base64 m.issuer.certificate = some der := by rw [certificate, qIs]
        exact (onward der _ _ usedA ⟨m, mThere, .inl ⟨mIs, rfl⟩⟩ here).trans advance

theorem InOrder.trans {a b c : Snapshot} (first : InOrder b a) (second : InOrder c b) : InOrder c a where
  revision := first.revision.trans second.revision
  modes := by
    intro same
    have low := first.revision
    have high := second.revision
    exact (first.modes (by omega)).trans (second.modes (by omega))

theorem History.inOrder {hist : List Snapshot} (h : History env hist) : hist.Pairwise InOrder := by
  induction h with
  | new | restore => exact List.pairwise_singleton _ _
  | refused _ answer ih =>
    rw [update_eq_error answer]
    exact ih
  | @update old _ _ _ _ past accepted ih =>
    obtain ⟨_, there⟩ := past.coherent old mem_cons_self
    obtain ⟨-, -, step⟩ := successor_ok there (update_eq_ok.mp accepted)
    refine List.pairwise_cons.mpr ⟨fun s mem => ?_, ih⟩
    rcases mem_cons.mp mem with rfl | earlier
    · exact step.toInOrder
    · exact ((List.pairwise_cons.mp ih).1 s earlier).trans step.toInOrder

/-- The revisions and modes of a trust never go back, a refused update changes nothing, and a trust whose
updates carry over what was in use never goes back behind a snapshot it accepted. -/
theorem never_rolls_back {hist : List Snapshot} (h : History env hist) :
    hist.Pairwise InOrder ∧
      ((∀ next current before, next :: current :: before <:+ hist → Carries env next.trust current before) →
        hist.Pairwise (NotBehind env)) ∧
      ∀ (old : Snapshot) (trust : Trust) (now : Int) (e : Error),
        (update env old trust now).2 = .error e → (update env old trust now).1 = old := by
  refine ⟨h.inOrder, fun carried => ?_, fun old trust now e answer => update_eq_error (Prod.ext rfl answer)⟩
  induction h with
  | new | restore => exact List.pairwise_singleton _ _
  | refused _ answer ih =>
    rw [update_eq_error answer] at carried ⊢
    exact ih carried
  | @update old next before trust now past accepted ih =>
    have ordered := ih (fun n c b suffix => carried n c b (suffix.trans (List.suffix_cons _ _)))
    have order := (List.pairwise_cons.mp (past.update accepted).inOrder).1
    obtain ⟨_, there⟩ := past.coherent old mem_cons_self
    obtain ⟨-, fits, step⟩ := successor_ok there (update_eq_ok.mp accepted)
    have carries := carried next old before (List.suffix_refl _)
    rw [List.pairwise_cons] at ordered ⊢
    refine ⟨fun s mem => ?_, List.pairwise_cons.mpr ordered⟩
    obtain ⟨_, fits''⟩ := past.coherent s mem
    refine notBehind_next fits there fits'' step carries mem ?_ (order s mem)
    rcases mem_cons.mp mem with rfl | earlier
    · exact .inl rfl
    · exact .inr ⟨earlier, ordered.1 s earlier⟩

end

namespace Sample

def algorithm : Algorithm := ⟨"1.2.840.113549.1.1.11", []⟩

def name (n : UInt8) : Name := [[⟨"2.5.4.3", true, [n]⟩]]

def authority (number issuer subject key signer : UInt8) (notAfter : Nat) : Certificate where
  issuer := name issuer
  subject := name subject
  serialNumber := [number]
  notBefore := 5
  notAfter := notAfter
  tbsSignature := algorithm
  signatureAlgorithm := algorithm
  tbs := [number]
  signature := some [signer, number]
  keyAlgorithm := "1.2.840.113549.1.1.1"
  key := some [key]
  basicConstraints := .present (true, none)
  keyUsage := .present [.keyCertSign, .crlSign]
  extendedKeyUsage := .absent
  subjectAltName := .absent
  extensions := some []

/-- A device certificate under the name and key of an authority. -/
def leaf (number issuer signer : UInt8) : Certificate where
  issuer := name issuer
  subject := name number
  serialNumber := [number]
  notBefore := 5
  notAfter := 100
  tbsSignature := algorithm
  signatureAlgorithm := algorithm
  tbs := [number]
  signature := some [signer, number]
  keyAlgorithm := "1.2.840.113549.1.1.1"
  key := some [number]
  basicConstraints := .present (false, none)
  keyUsage := .present [.digitalSignature]
  extendedKeyUsage := .present ["1.3.6.1.5.5.7.3.2"]
  subjectAltName := .absent
  extensions := some []

def list (number issuer signer count : UInt8) : CertificateList where
  encoding := [number]
  issuer := name issuer
  tbsSignature := algorithm
  signatureAlgorithm := algorithm
  tbs := [number]
  signature := some [signer, number]
  thisUpdate := 10
  nextUpdate := some 90
  extensions := some [("2.5.29.20", [count])]
  revoked := []

/-- Documents of one byte: a root, two issuers under it, an expired issuer with the name and the key of
the first, their lists and a device certificate. -/
def documents : Environment where
  digest b := String.ofList (List.replicate 63 '0' ++ [Nat.digitChar (b.headD 0).toNat])
  base64 text := match text with
    | "AQ==" => some [1]
    | "Ag==" => some [2]
    | "Aw==" => some [3]
    | "BA==" => some [4]
    | "BQ==" => some [5]
    | "Bg==" => some [6]
    | "Bw==" => some [7]
    | "CA==" => some [8]
    | _ => none
  certificate b := match b with
    | [1] => some (authority 1 1 1 1 1 100)
    | [2] => some (authority 2 1 2 2 1 100)
    | [3] => some (authority 3 1 3 3 1 100)
    | [8] => some (authority 8 1 2 2 1 15)
    | [9] => some (leaf 9 2 2)
    | _ => none
  encode c := c.tbs
  certificateList b := match b with
    | [4] => some (list 4 2 2 1)
    | [5] => some (list 5 3 3 1)
    | [6] => some (list 6 1 1 5)
    | [7] => some (list 7 1 1 4)
    | _ => none
  crlNumber := some
  verifies _ key message sig := sig = key ++ message
  origin := (· = "https://mdm.example")
  nameText _ := "CN=00000000-0000-0000-0000-000000000009"
  parseUuid _ := some 9
  provisioner _ := none
  builds _ := true
  accepts _ _ _ now := 5 ≤ now ∧ now ≤ 100

def issuerA : Issuer :=
  ⟨documents.digest [2], .active, "Ag==", "AQ==", "BA==", "Bg==", "mdm", ""⟩

/-- Another issuer under the same root, with the root's previous list. -/
def issuerB : Issuer :=
  ⟨documents.digest [3], .active, "Aw==", "AQ==", "BQ==", "Bw==", "mdm", ""⟩

def trust (revision : Nat) (issuers : List Issuer) : Trust :=
  ⟨1, 1, "https://mdm.example", 1, .windows, revision, issuers⟩

def snapshotOf (revision : Nat) (issuers : List Issuer) : Snapshot :=
  ⟨trust revision issuers, match new documents (trust revision issuers) .windows 20 with
    | .ok s => s.generations
    | .error _ => []⟩

theorem new_issuerA : new documents (trust 1 [issuerA]) .windows 20 = .ok (snapshotOf 1 [issuerA]) := by rfl

theorem update_issuerB : update documents (snapshotOf 1 [issuerA]) (trust 2 [issuerB]) 20 =
    (snapshotOf 2 [issuerB], .ok ()) := by rfl

/-- A list of the root goes back when another issuer brings it. -/
theorem root_list_rolls_back : ¬∀ (env : Environment) (hist : List Snapshot),
    History env hist → hist.Pairwise (NotBehind env) := by
  intro always
  have past := always documents [snapshotOf 2 [issuerB], snapshotOf 1 [issuerA]]
    (.update (.new new_issuerA) update_issuerB)
  have behind := (List.pairwise_cons.mp past).1 _ mem_cons_self
  have used : (snapshotOf 1 [issuerA]).Uses documents [1]
      ⟨5, 10, 90, [], [6]⟩ := ⟨_, mem_cons_self, .inr ⟨rfl, rfl⟩⟩
  have later : (snapshotOf 2 [issuerB]).Uses documents [1]
      ⟨4, 10, 90, [], [7]⟩ := ⟨_, mem_cons_self, .inr ⟨rfl, rfl⟩⟩
  exact absurd (behind.lists _ _ _ used later).number (by decide)

/-- The same issuer again, in the next revision. -/
theorem never_rolls_back_refreshed :
    [snapshotOf 2 [issuerA], snapshotOf 1 [issuerA]].Pairwise (NotBehind documents) ∧
      ∀ (old : Snapshot) (trust : Trust) (now : Int) (e : Error),
        (update documents old trust now).2 = .error e → (update documents old trust now).1 = old := by
  have accepted : update documents (snapshotOf 1 [issuerA]) (trust 2 [issuerA]) 20 =
      (snapshotOf 2 [issuerA], .ok ()) := by rfl
  obtain ⟨-, ordered, refused⟩ := never_rolls_back (.update (.new new_issuerA) accepted)
  refine ⟨ordered ?_, refused⟩
  intro next current before suffix
  rcases List.suffix_cons_iff.mp suffix with same | suffix
  · cases same
    refine ⟨by simp, ?_, ?_⟩
    · intro q mem s there p within under
      exact ⟨q, mem, issuerA, mem_cons_self, by cases mem_singleton.mp mem; rfl, rfl⟩
    · intro q mem s there p within
      cases mem_singleton.mp there
      cases mem_singleton.mp mem
      cases mem_singleton.mp within
      constructor <;> intro same <;> cases same
  · have short := suffix.length_le
    simp at short

end Sample

end RssMdm.DeviceTrust
