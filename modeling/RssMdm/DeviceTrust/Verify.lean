/- module: DeviceTrust/Verify
   source: crates/device-trust/src/lib.rs, crates/device-trust/src/qualification.rs, crates/certificate/src/apple.rs,
     crates/certificate/src/bootstrap.rs
   digest: A device certificate is judged by the first generation whose name and key match it. -/

import RssMdm.DeviceTrust.History

set_option autoImplicit false

namespace RssMdm.DeviceTrust

open Lib Lib.Fallible
open Lib.Text (Uuid)

variable (env : Environment)

def commonName : String := "2.5.4.3"

def organizationalUnit : String := "2.5.4.11"

def bootstrapPurpose : Bytes := Text.asBytes "rss-mdm-agent-bootstrap"

def hexByte (b : UInt8) : Bool := (48 ≤ b && b ≤ 57) || (97 ≤ b && b ≤ 102)

/-- `apple::parse_subject`: the hexadecimal texts of two identities in one common name. -/
def appleSubject (name : Name) : Option (Bytes × Bytes) :=
  match name with
  | [[part]] =>
      if part.oid ≠ commonName || !part.textual || part.value.length ≠ 64 ||
          !part.value.all hexByte then
        none
      else
        let enrollment := part.value.take 32
        let attempt := part.value.drop 32
        if enrollment.all (· = 48) || attempt.all (· = 48) then none else some (enrollment, attempt)
  | _ => none

/-- `bootstrap::parse_subject`: two identities and the unit that stands for the purpose. -/
def bootstrapSubject (name : Name) : Option (Bytes × Bytes) :=
  if name.length ≠ 2 then none
  else
    match name.find? (fun rdn => rdn.any (fun v => v.oid = organizationalUnit)) with
    | some [ou] =>
        if ou.value ≠ bootstrapPurpose then none
        else appleSubject (name.filter (fun rdn => rdn.any (fun v => v.oid = commonName)))
    | _ => none

def stripPrefix (value start : String) : Option String :=
  if Text.startsWith value start then some (String.ofList (value.toList.drop start.toList.length)) else none

def agentUrn (tenant : Uuid) : String := "urn:rss-mdm:agent:v1:" ++ tenant.text ++ ":"

def clientAuth : String := "1.3.6.1.5.5.7.3.2"

def windowsPurpose (leaf : Certificate) : Except Error Unit :=
  let subject := env.nameText leaf.subject
  match (stripPrefix subject "CN=").bind env.parseUuid with
  | none => .error .unauthorized
  | some id => do
      if id = 0 || subject ≠ "CN=" ++ id.text then .error .unauthorized
      else do
        let names ← leaf.subjectAltName.get
        if names.isSome then .error .unauthorized else .ok ()

def bootstrapLeaf (leaf : Certificate) : Except Error Unit :=
  match bootstrapSubject leaf.subject with
  | none => .error .unauthorized
  | some _ => do
      if leaf.notAfter ≤ leaf.notBefore || 604800 < leaf.notAfter - leaf.notBefore then .error .unauthorized
      else do
        let names ← leaf.subjectAltName.get
        if names.isSome then .error .unauthorized else .ok ()

def applePurpose (leaf : Certificate) : Except Error Unit :=
  match appleSubject leaf.subject with
  | none => .error .unauthorized
  | some _ => do
      let names ← leaf.subjectAltName.get
      if names.isSome then .error .unauthorized else .ok ()

def agentPurpose (trust : Trust) (leaf : Certificate) : Except Error Unit := do
  let names ← leaf.subjectAltName.get
  match names with
  | some [.uri uri] =>
      if env.nameText leaf.subject ≠ "CN=rss-mdm-agent" || !Text.startsWith uri (agentUrn trust.tenant) then
        .error .unauthorized
      else .ok ()
  | _ => .error .unauthorized

def leafPurpose (trust : Trust) (leaf : Certificate) : Except Error Unit := do
  let constraints ← leaf.basicConstraints.get
  if !constraints.any (fun v => !v.1 && v.2.isNone) then .error .unauthorized
  else do
    let usage ← leaf.keyUsage.get
    if !usage.any (fun v => v = [.digitalSignature]) then .error .unauthorized
    else do
      let extended ← leaf.extendedKeyUsage.get
      if !extended.any (fun v => v = [clientAuth]) then .error .unauthorized
      else
        match trust.purpose with
        | .windows => windowsPurpose env leaf
        | .agentBootstrap => bootstrapLeaf leaf
        | .apple => applePurpose leaf
        | .agent => agentPurpose env trust leaf

def provisionerOid : String := "1.3.6.1.4.1.37476.9000.64.1"

def agentNames (identity : String) : Except Error Unit :=
  match stripPrefix identity "urn:rss-mdm:agent:v1:" with
  | none => .error .unauthorized
  | some remainder =>
      let chars := remainder.toList
      if !chars.contains ':' then .error .unauthorized
      else
        match env.parseUuid (String.ofList (chars.takeWhile (· ≠ ':'))),
            Base64.decode ((chars.dropWhile (· ≠ ':')).drop 1) with
        | some tenant, some octets =>
            match String.fromUTF8? ⟨octets.toArray⟩ with
            | none => .error .malformed
            | some device =>
                if tenant = 0 || device.isEmpty || 256 < octets.length || device.toList.any Text.isControl ||
                    agentUrn tenant ++ String.ofList (Base64.encode octets) ≠ identity then
                  .error .unauthorized
                else .ok ()
        | _, _ => .error .malformed

def agentIdentity (c : Certificate) (p : Issuer) : Except Error String := do
  if env.nameText c.subject ≠ "CN=rss-mdm-agent" || c.keyAlgorithm ≠ "1.2.840.113549.1.1.1" then
    .error .unauthorized
  else do
    let names ← c.subjectAltName.get
    match names with
    | some [.uri identity] => do
        agentNames env identity
        match c.extensions with
        | none => .error .unauthorized
        | some extensions =>
            if ¬(extensions.map Prod.fst).Nodup then .error .unauthorized
            else
              match extensions.lookup provisionerOid with
              | none => .error .unauthorized
              | some marker =>
                  match env.provisioner marker with
                  | none => .error .malformed
                  | some (kind, name, credential) =>
                      if kind ≠ 1 || name ≠ Text.asBytes p.provisioner || credential ≠ Text.asBytes p.kid then
                        .error .unauthorized
                      else .ok identity
    | _ => .error .unauthorized

def agentMarker (trust : Trust) (g : Generation) (leaf : Certificate) : Except Error Unit := do
  if trust.purpose = .agent then do
    let identity ← agentIdentity env leaf g.issuer
    if !Text.startsWith identity (agentUrn trust.tenant) then .error .unauthorized else .ok ()
  else .ok ()

/-- The body of the loop for a generation whose name and key match. -/
def judge (trust : Trust) (g : Generation) (end' : Bytes) (leaf : Certificate) (now : Int) : Except Error Issuer := do
  agentMarker env trust g leaf
  validCa g.certificate now
  validCa g.root now
  if now < g.crl.thisUpdate || g.crl.nextUpdate ≤ now || now < g.rootCrl.thisUpdate ||
      g.rootCrl.nextUpdate ≤ now then
    .error .expired
  else if g.issuerRevoked || g.crl.revoked.contains (serial leaf.serialNumber) then .error .revoked
  else if !env.accepts g.verifier end' (env.encode g.certificate) now then .error .malformed
  else .ok g.issuer

def verifyLoop (trust : Trust) (end' : Bytes) (leaf : Certificate) (now : Int) :
    List Generation → Except Error Issuer
  | [] => .error .unauthorized
  | g :: rest =>
      if leaf.issuer ≠ g.certificate.subject then verifyLoop trust end' leaf now rest
      else
        match leaf.signature with
        | none => .error .malformed
        | some sig =>
            match signed env g.certificate leaf.signatureAlgorithm leaf.tbs sig with
            | .error _ => verifyLoop trust end' leaf now rest
            | .ok () => judge env trust g end' leaf now

def verify (s : Snapshot) (chain : List Bytes) (now : Int) : Except Error Issuer :=
  match chain with
  | [] => .error .unauthorized
  | end' :: _ =>
      if 4 < chain.length || chain.any (fun c => 32768 < c.length) || now ≤ 0 then .error .unauthorized
      else
        match env.certificate end' with
        | none => .error .malformed
        | some leaf => do
            leafPurpose env s.trust leaf
            verifyLoop env s.trust end' leaf now s.generations

section

def Generation.matchesLeaf (g : Generation) (leaf : Certificate) : Bool :=
  leaf.issuer = g.certificate.subject &&
    leaf.signature.any (fun sig => (signed env g.certificate leaf.signatureAlgorithm leaf.tbs sig).toBool)

structure Generation.Vouches (trust : Trust) (g : Generation) (end' : Bytes) (leaf : Certificate) (now : Int) :
    Prop where
  /-- an Agent names its provisioner and kid, with the tenant of the trust -/
  marker : trust.purpose = .agent → ∃ identity, agentIdentity env leaf g.issuer = .ok identity ∧
    Text.startsWith identity (agentUrn trust.tenant) = true
  certificate : validCa g.certificate now = .ok ()
  root : validCa g.root now = .ok ()
  current : g.crl.thisUpdate ≤ now ∧ now < g.crl.nextUpdate
  rootCurrent : g.rootCrl.thisUpdate ≤ now ∧ now < g.rootCrl.nextUpdate
  approved : g.issuerRevoked = false
  listed : serial leaf.serialNumber ∉ g.crl.revoked
  accepted : env.accepts g.verifier end' (env.encode g.certificate) now = true

/-- A chain within the size limits. -/
def Sized (chain : List Bytes) : Prop := chain.length ≤ 4 ∧ ∀ c ∈ chain, c.length ≤ 32768
deriving Decidable

def SomeVouches (s : Snapshot) (chain : List Bytes) (now : Int) : Prop :=
  ∃ end' leaf, chain.head? = some end' ∧ env.certificate end' = some leaf ∧
    leafPurpose env s.trust leaf = .ok () ∧
      ∃ g ∈ s.generations, g.matchesLeaf env leaf = true ∧ g.Vouches env s.trust end' leaf now

def FirstVouches (s : Snapshot) (chain : List Bytes) (now : Int) : Prop :=
  ∃ end' leaf, chain.head? = some end' ∧ env.certificate end' = some leaf ∧
    leafPurpose env s.trust leaf = .ok () ∧
      ∃ g, s.generations.find? (fun g => g.matchesLeaf env leaf) = some g ∧ g.Vouches env s.trust end' leaf now

def MatchedOnce (s : Snapshot) (chain : List Bytes) : Prop :=
  ∀ end' leaf, chain.head? = some end' → env.certificate end' = some leaf →
    (s.generations.filter (fun g => g.matchesLeaf env leaf)).length ≤ 1

variable {env} {leaf : Certificate} {trust : Trust} {g : Generation}

theorem agentMarker_eq_ok :
    agentMarker env trust g leaf = .ok () ↔
      (trust.purpose = .agent → ∃ identity, agentIdentity env leaf g.issuer = .ok identity ∧
        Text.startsWith identity (agentUrn trust.tenant) = true) := by
  unfold agentMarker
  by_cases agent : trust.purpose = .agent
  · rw [if_pos agent, bind_eq_ok]
    constructor
    · rintro ⟨identity, named, ok⟩ -
      obtain ⟨there, -⟩ := of_guard ok
      exact ⟨identity, named, by simpa using there⟩
    · intro marked
      obtain ⟨identity, named, there⟩ := marked agent
      exact ⟨identity, named, guard_eq_ok.mpr ⟨by simp [there], rfl⟩⟩
  · rw [if_neg agent]
    exact ⟨fun _ is => absurd is agent, fun _ => rfl⟩

variable {now : Int} {end' : Bytes}

theorem judge_eq_ok :
    (∃ p, judge env trust g end' leaf now = .ok p) ↔ g.Vouches env trust end' leaf now := by
  unfold judge
  constructor
  · rintro ⟨p, ok⟩
    obtain ⟨marker, ok⟩ := of_check ok
    obtain ⟨certificate, ok⟩ := of_check ok
    obtain ⟨root, ok⟩ := of_check ok
    obtain ⟨current, ok⟩ := of_guard ok
    obtain ⟨revoked, ok⟩ := of_guard ok
    obtain ⟨accepted, -⟩ := of_guard ok
    simp only [Bool.or_eq_true, decide_eq_true_eq, not_or, Int.not_lt, Int.not_le] at current
    simp only [Bool.or_eq_true, not_or, Bool.not_eq_true, List.contains_eq_mem, decide_eq_false_iff_not] at revoked
    obtain ⟨⟨⟨low, high⟩, rootLow⟩, rootHigh⟩ := current
    exact ⟨agentMarker_eq_ok.mp marker, certificate, root, ⟨low, high⟩, ⟨rootLow, rootHigh⟩, revoked.1,
      revoked.2, by simpa using accepted⟩
  · intro v
    have current := v.current
    have rootCurrent := v.rootCurrent
    refine ⟨g.issuer, check_bind_eq_ok.mpr ⟨agentMarker_eq_ok.mpr v.marker, check_bind_eq_ok.mpr ⟨v.certificate,
      check_bind_eq_ok.mpr ⟨v.root, guard_eq_ok.mpr ⟨?_, guard_eq_ok.mpr ⟨?_, guard_eq_ok.mpr ⟨?_, rfl⟩⟩⟩⟩⟩⟩⟩
    · simp only [Bool.or_eq_true, decide_eq_true_eq, not_or, Int.not_lt, Int.not_le]
      exact ⟨⟨current, rootCurrent.1⟩, rootCurrent.2⟩
    · simpa [v.approved] using v.listed
    · simp [v.accepted]

theorem verifyLoop_eq_ok {gens : List Generation} :
    (∃ p, verifyLoop env trust end' leaf now gens = .ok p) ↔
      ∃ g, gens.find? (fun g => g.matchesLeaf env leaf) = some g ∧ g.Vouches env trust end' leaf now := by
  induction gens with
  | nil => simp [verifyLoop]
  | cons g rest ih =>
    rw [verifyLoop]
    by_cases named : leaf.issuer = g.certificate.subject
    · rw [if_neg (by simpa using named)]
      cases sig : leaf.signature with
      | none =>
        have noMatch : ∀ g : Generation, g.matchesLeaf env leaf = false := by
          intro g
          simp [Generation.matchesLeaf, sig]
        have absent : (g :: rest).find? (fun g => g.matchesLeaf env leaf) = none :=
          List.find?_eq_none.mpr (by simp [noMatch])
        simp [absent]
      | some sig' =>
        dsimp only
        cases check : signed env g.certificate leaf.signatureAlgorithm leaf.tbs sig' with
        | error =>
          rw [List.find?_cons_of_neg (by simp [Generation.matchesLeaf, sig, check, Except.toBool])]
          exact ih
        | ok =>
          rw [List.find?_cons_of_pos (by simp [Generation.matchesLeaf, named, sig, check, Except.toBool])]
          dsimp only
          rw [judge_eq_ok]
          simp
    · rw [if_pos (by simpa using named), List.find?_cons_of_neg (by simp [Generation.matchesLeaf, named])]
      exact ih

variable {s : Snapshot} {chain : List Bytes}

theorem accepts_iff (sized : Sized chain) (later : 0 < now) :
    (∃ p, verify env s chain now = .ok p) ↔ FirstVouches env s chain now := by
  unfold verify FirstVouches
  cases chain with
  | nil => simp
  | cons end' rest =>
    dsimp only
    have fits : ¬(decide (4 < (end' :: rest).length) ||
        (end' :: rest).any (fun c => decide (32768 < c.length)) || decide (now ≤ 0)) = true := by
      simp only [Bool.or_eq_true, decide_eq_true_eq, List.any_eq_true, not_or, not_exists, not_and, Int.not_le]
      exact ⟨⟨Nat.not_lt.mpr sized.1, fun c mem => Nat.not_lt.mpr (sized.2 c mem)⟩, later⟩
    rw [if_neg fits]
    cases read : env.certificate end' with
    | none => simp [read]
    | some leaf =>
      dsimp only
      constructor
      · rintro ⟨p, ok⟩
        obtain ⟨purpose, ok⟩ := of_check ok
        exact ⟨end', leaf, rfl, read, purpose, verifyLoop_eq_ok.mp ⟨p, ok⟩⟩
      · rintro ⟨e, l, is, decoded, purpose, vouched⟩
        cases is
        cases read.symm.trans decoded
        obtain ⟨p, ok⟩ := verifyLoop_eq_ok.mpr vouched
        exact ⟨p, check_bind_eq_ok.mpr ⟨purpose, ok⟩⟩

theorem leafPurpose_congr {trust' : Trust} (purpose : trust'.purpose = trust.purpose)
    (tenant : trust'.tenant = trust.tenant) (leaf : Certificate) :
    leafPurpose env trust' leaf = leafPurpose env trust leaf := by
  unfold leafPurpose agentPurpose
  rw [purpose, tenant]

theorem Generation.Vouches.congr {trust' : Trust} (v : g.Vouches env trust end' leaf now)
    (purpose : trust'.purpose = trust.purpose) (tenant : trust'.tenant = trust.tenant) :
    g.Vouches env trust' end' leaf now :=
  { v with marker := by rw [purpose, tenant]; exact v.marker }

variable {s' : Snapshot}

theorem FirstVouches.extend (v : FirstVouches env s chain now)
    (purpose : s'.trust.purpose = s.trust.purpose) (tenant : s'.trust.tenant = s.trust.tenant)
    (longer : s.generations <+: s'.generations) : FirstVouches env s' chain now := by
  obtain ⟨end', leaf, is, read, fits, g, first, vouches⟩ := v
  obtain ⟨more, grown⟩ := longer
  refine ⟨end', leaf, is, read, (leafPurpose_congr purpose tenant leaf).trans fits, g, ?_,
    vouches.congr purpose tenant⟩
  rw [← grown, List.find?_append, first]
  rfl

theorem find?_of_perm {α : Type} {l l' : List α} {p : α → Bool} {a : α} (perm : l.Perm l')
    (once : (l.filter p).length ≤ 1) (found : l.find? p = some a) : l'.find? p = some a := by
  have one : l.filter p = [a] := by
    have first : (l.filter p).head? = some a := by rw [List.head?_filter]; exact found
    cases all : l.filter p with
    | nil => rw [all] at first; cases first
    | cons =>
      rw [all] at first once
      cases first
      cases List.length_eq_zero_iff.mp (Nat.le_zero.mp (Nat.le_of_succ_le_succ once))
      rfl
  have same := perm.filter p
  rw [one] at same
  rw [← List.head?_filter, List.perm_singleton.mp same.symm]
  rfl

theorem FirstVouches.reorder (v : FirstVouches env s chain now)
    (purpose : s'.trust.purpose = s.trust.purpose) (tenant : s'.trust.tenant = s.trust.tenant)
    (perm : s.generations.Perm s'.generations) (once : MatchedOnce env s chain) :
    FirstVouches env s' chain now := by
  obtain ⟨end', leaf, is, read, fits, g, first, vouches⟩ := v
  exact ⟨end', leaf, is, read, (leafPurpose_congr purpose tenant leaf).trans fits, g,
    find?_of_perm perm (once end' leaf is read) first, vouches.congr purpose tenant⟩

theorem MatchedOnce.reorder (once : MatchedOnce env s chain)
    (perm : s.generations.Perm s'.generations) : MatchedOnce env s' chain := by
  intro end' leaf is read
  rw [← (perm.filter _).length_eq]
  exact once end' leaf is read

/-- A chain is accepted exactly when the first generation that matches its leaf vouches for it; generations
behind the others take nothing away, and their order matters only to a leaf that several of them match. -/
theorem verify_by_first_match {s : Snapshot} {chain : List Bytes} {now : Int} (sized : Sized chain) (later : 0 < now) :
    ((∃ p, verify env s chain now = .ok p) ↔ FirstVouches env s chain now) ∧
      (∀ s' : Snapshot, s'.trust.purpose = s.trust.purpose → s'.trust.tenant = s.trust.tenant →
        s.generations <+: s'.generations → (∃ p, verify env s chain now = .ok p) →
          ∃ p, verify env s' chain now = .ok p) ∧
      ∀ s' : Snapshot, s'.trust.purpose = s.trust.purpose → s'.trust.tenant = s.trust.tenant →
        s.generations.Perm s'.generations → MatchedOnce env s chain →
          ((∃ p, verify env s chain now = .ok p) ↔ ∃ p, verify env s' chain now = .ok p) := by
  refine ⟨accepts_iff sized later, ?_, ?_⟩
  · intro s' purpose tenant longer ok
    exact (accepts_iff sized later).mpr (((accepts_iff sized later).mp ok).extend purpose tenant longer)
  · intro s' purpose tenant perm once
    rw [accepts_iff sized later, accepts_iff sized later]
    constructor
    · intro v
      exact v.reorder purpose tenant perm once
    · intro v
      exact v.reorder purpose.symm tenant.symm perm.symm (once.reorder perm)

end

namespace Sample

/-- The first issuer's certificate before it was renewed under the same name and key. -/
def issuerBefore : Issuer :=
  ⟨documents.digest [8], .verifyOnly, "CA==", "AQ==", "BA==", "Bg==", "mdm", ""⟩

theorem renewed_built : snapshot documents (trust 1 [issuerBefore, issuerA]) .windows 20 false =
    .ok (snapshotOf 1 [issuerBefore, issuerA]) := by rfl

theorem expired_match_refused : verify documents (snapshotOf 1 [issuerBefore, issuerA]) [[9]] 20 = .error .expired := by
  rfl

theorem renewal_vouches : SomeVouches documents (snapshotOf 1 [issuerBefore, issuerA]) [[9]] 20 :=
  ⟨[9], leaf 9 2 2, rfl, rfl, rfl, _, .tail _ (.head _), rfl,
    ⟨by rintro ⟨⟩, rfl, rfl, by decide, by decide, rfl, by decide, rfl⟩⟩

/-- A generation that vouches behind one that matches and does not is not reached. -/
theorem not_every_voucher_counts : ¬∀ (env : Environment) (trust : Trust) (purpose : Purpose) (built : Int)
    (restoring : Bool) (s : Snapshot) (chain : List Bytes) (now : Int),
    snapshot env trust purpose built restoring = .ok s → Sized chain → 0 < now →
      ((∃ p, verify env s chain now = .ok p) ↔ SomeVouches env s chain now) := by
  intro always
  obtain ⟨p, ok⟩ := (always documents _ _ _ _ _ [[9]] 20 renewed_built (by decide) (by decide)).mpr renewal_vouches
  rw [expired_match_refused] at ok
  cases ok

/-- One generation, and two that match: the one in front decides. -/
theorem verify_by_first_match_renewed :
    (((∃ p, verify documents (snapshotOf 1 [issuerA]) [[9]] 20 = .ok p) ↔
        FirstVouches documents (snapshotOf 1 [issuerA]) [[9]] 20) ∧
      (∀ s' : Snapshot, s'.trust.purpose = .windows → s'.trust.tenant = 1 →
        (snapshotOf 1 [issuerA]).generations <+: s'.generations →
          (∃ p, verify documents (snapshotOf 1 [issuerA]) [[9]] 20 = .ok p) →
            ∃ p, verify documents s' [[9]] 20 = .ok p) ∧
      ∀ s' : Snapshot, s'.trust.purpose = .windows → s'.trust.tenant = 1 →
        (snapshotOf 1 [issuerA]).generations.Perm s'.generations →
          MatchedOnce documents (snapshotOf 1 [issuerA]) [[9]] →
            ((∃ p, verify documents (snapshotOf 1 [issuerA]) [[9]] 20 = .ok p) ↔
              ∃ p, verify documents s' [[9]] 20 = .ok p)) ∧
    FirstVouches documents (snapshotOf 1 [issuerA, issuerBefore]) [[9]] 20 ∧
      ¬FirstVouches documents (snapshotOf 1 [issuerBefore, issuerA]) [[9]] 20 := by
  have two : ∃ p, verify documents (snapshotOf 1 [issuerA, issuerBefore]) [[9]] 20 = .ok p := ⟨_, rfl⟩
  refine ⟨verify_by_first_match (by decide) (by decide),
    (verify_by_first_match (by decide) (by decide)).1.mp two, fun vouches => ?_⟩
  obtain ⟨p, ok⟩ := (verify_by_first_match (by decide) (by decide)).1.mpr vouches
  rw [expired_match_refused] at ok
  cases ok

end Sample

end RssMdm.DeviceTrust
