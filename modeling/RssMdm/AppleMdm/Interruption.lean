/- module: AppleMdm/Interruption
   source: crates/apple-mdm/src/native/ddm/projection.rs
   digest: Projections restored from their checkpoints go on as if nothing had happened, refused reports leave
   the checkpoint alone, and the budget decides when the order of the reports counts. -/

import RssMdm.AppleMdm.Commutation

set_option autoImplicit false

namespace RssMdm.AppleMdm

open Lib Lib.Json Lib.Commuting Lib.Fallible
open List (foldlM_cons foldl_cons mem_map)

section

variable {Context : Type} (env : Environment Context) (set : DeclarationSet) (target : Context)

def Projection.call (p : Projection) : Option (ReportEvidence Context) → Except Fault Projection
  | some e =>
      match p.observe env e with
      | (_, .error fault) => .error fault
      | (p', .ok ()) => .ok p'
  | none => Projection.restore env set target p.checkpoint

/-- `project`, interrupted wherever a call is none. -/
def projectInterrupted (calls : List (Option (ReportEvidence Context))) : Except Fault StatusProjection := do
  let p ← Projection.new env set target
  let p ← calls.foldlM (Projection.call env set target) p
  p.finish env

/-- The projections that calls can lead to, refused ones included. -/
inductive Reached : Projection → Prop where
  | new {p : Projection} : Projection.new env set target = .ok p → Reached p
  | observed {p : Projection} (e : ReportEvidence Context) : Reached p → Reached (p.observe env e).1
  | restored {p p' : Projection} :
      Reached p → Projection.restore env set target p.checkpoint = .ok p' → Reached p'

/-- The fold does not depend on the order of the reports, on repetitions and on interruptions, and refused
reports leave no trace. -/
structure Commutes (reports : List (ReportEvidence Context)) : Prop where
  orders : ∀ other : List (ReportEvidence Context), (∀ e, e ∈ other ↔ e ∈ reports) →
    project env set target other = project env set target reports
  interrupted : ∀ calls : List (Option (ReportEvidence Context)), calls.filterMap id = reports →
    projectInterrupted env set target calls = project env set target reports
  refused : ∀ p, Reached env set target p → ∀ e fault, (p.observe env e).2 = .error fault →
    (p.observe env e).1.checkpoint = p.checkpoint

end

section

variable {Context : Type} {env : Environment Context} {set : DeclarationSet} {target : Context}
  {p q : Projection} {c : Claims}

theorem get?_extend {α : Type} (m more : OrdMap String α) (k : String) :
    (extend m more).get? k = (more.get? k).or (m.get? k) := by
  have fold : ∀ (l : List (String × α)) (m : OrdMap String α), (l.map Prod.fst).Nodup →
      (l.foldl (fun m e => m.insert e.1 e.2) m).get? k = ((l.find? (fun e => e.1 = k)).map Prod.snd).or (m.get? k) := by
    intro l
    induction l with
    | nil => exact fun m _ => rfl
    | cons e rest ih =>
      intro m nodup
      obtain ⟨fresh, nodup⟩ := List.nodup_cons.mp nodup
      rw [foldl_cons, ih _ nodup, OrdMap.get?_insert]
      by_cases here : e.1 = k
      · have later : rest.find? (fun e => e.1 = k) = none := by
          rw [List.find?_eq_none]
          intro x mem same
          exact fresh (mem_map.mpr ⟨x, mem, (of_decide_eq_true same).trans here.symm⟩)
        rw [List.find?_cons_of_pos (by simpa using here), later, if_pos here.symm]
        rfl
      · rw [List.find?_cons_of_neg (by simpa using here), if_neg (fun is => here is.symm)]
  exact fold more.entries m more.nodup_keys

theorem extend_eq {α : Type} {m more : OrdMap String α} (same : ∀ k, more.contains k = m.contains k) :
    extend m more = more := by
  apply OrdMap.ext
  intro k
  rw [get?_extend]
  have known := same k
  unfold OrdMap.contains at known
  cases found : more.get? k with
  | some => rfl
  | none =>
    rw [found] at known
    rw [Option.none_or]
    exact Option.isNone_iff_eq_none.mp (by simpa using known.symm)

theorem restore_within (started : Projection.new env set target = .ok p) (same : SameArrays p.state.claims c) :
    Projection.restore env set target (p.within (some c)).checkpoint = .ok (p.within (some c)) := by
  unfold Projection.restore
  rw [started, ok_bind]
  have arrays : extend p.state.claims.arrays c.arrays = c.arrays := extend_eq same
  show Except.ok { p with state := ⟨{ c with arrays := extend p.state.claims.arrays c.arrays }, false⟩ } = _
  rw [arrays]
  rfl

def Unclaimed (arrays : OrdMap String ArrayClaims) : Prop := ∀ name a, arrays.get? name = some a → a = .default

theorem newArrays_unclaimed {names : List String} {arrays : OrdMap String ArrayClaims}
    (h : newArrays env target names = .ok arrays) : Unclaimed arrays := by
  induction names generalizing arrays with
  | nil =>
    cases h
    intro name a found
    cases found
  | cons _ _ ih =>
    unfold newArrays at h
    obtain ⟨-, h⟩ := of_guard h
    obtain ⟨-, h⟩ := of_guard h
    obtain ⟨others, made, h⟩ := of_bind h
    cases h
    intro name a found
    split at found
    · rw [OrdMap.get?_insert] at found
      split at found
      · exact (Option.some.inj found).symm
      · exact ih made name a found
    · exact ih made name a found

theorem new_unclaimed (started : Projection.new env set target = .ok p) : Unclaimed p.state.claims.arrays := by
  unfold Projection.new at started
  obtain ⟨arrays, made, started⟩ := of_bind started
  cases started
  exact newArrays_unclaimed made

/-- An exhausted projection, perhaps restored: there is nothing left but empty arrays. -/
structure Spent (p q : Projection) : Prop where
  is : q = { p with state := ⟨{ Claims.cleared with arrays := q.state.claims.arrays }, true⟩ }
  unclaimed : Unclaimed q.state.claims.arrays

theorem spent_within : Spent p (p.within none) where
  is := rfl
  unclaimed := by
    intro name a found
    cases found

theorem restore_spent (started : Projection.new env set target = .ok p) (spent : Spent p q) :
    ∃ q', Projection.restore env set target q.checkpoint = .ok q' ∧ Spent p q' := by
  unfold Projection.restore
  rw [started, ok_bind]
  refine ⟨_, rfl, ?_, ?_⟩
  · have state := congrArg Projection.state spent.is
    dsimp only [Projection.checkpoint]
    rw [state]
  · intro name a found
    rw [get?_extend] at found
    dsimp only [Projection.checkpoint] at found
    cases old : q.state.claims.arrays.get? name with
    | some =>
      rw [old] at found
      cases found
      exact spent.unclaimed name _ old
    | none =>
      rw [old, Option.none_or] at found
      exact new_unclaimed started name a found

theorem observe_spent (spent : Spent p q) (e : ReportEvidence Context) : q.observe env e = (q, .ok ()) := by
  have beyond : q.state.exhausted = true := congrArg (fun r => r.state.exhausted) spent.is
  unfold Projection.observe
  rw [if_pos beyond]

theorem finish_spent (spent : Spent p q) : q.finish env = (p.within none).finish env := by
  have skip : ∀ acc, q.state.claims.arrays.entries.foldlM (finishArray env) acc = .ok acc := by
    have all : ∀ e ∈ q.state.claims.arrays.entries, e.2 = .default := by
      rintro ⟨name, a⟩ mem
      exact spent.unclaimed name a (OrdMap.get?_eq_some.mpr mem)
    generalize q.state.claims.arrays.entries = entries at all
    induction entries with
    | nil => exact fun _ => rfl
    | cons e _ ih =>
      intro acc
      have first : finishArray env acc e = .ok acc := by
        unfold finishArray
        rw [all e List.mem_cons_self]
        rfl
      rw [foldlM_cons, first, ok_bind]
      exact ih (fun e mem => all e (.tail _ mem)) acc
  have set : q.set = p.set := by rw [spent.is]
  have wanted : q.wanted = p.wanted := by rw [spent.is]
  have beyond : q.state.exhausted = true := congrArg (fun r => r.state.exhausted) spent.is
  have claims : q.state.claims.claims = .empty := congrArg (fun r => r.state.claims.claims) spent.is
  have native : q.state.claims.native = .empty := congrArg (fun r => r.state.claims.native) spent.is
  have errors : q.state.claims.errors = .empty := congrArg (fun r => r.state.claims.errors) spent.is
  have full : q.state.claims.full = false := congrArg (fun r => r.state.claims.full) spent.is
  have states : ∀ id, nativeState env q.state id = nativeState env (p.within none).state id := by
    intro id
    unfold nativeState
    rw [native, beyond]
    rfl
  unfold Projection.finish
  simp only [skip, set, wanted, beyond, claims, errors, full, states]
  rfl

end

section

variable {Context : Type} {env : Environment Context} {set : DeclarationSet} {target : Context}
  {p q : Projection} {reports : List (ReportEvidence Context)}

def StandsFor (p : Projection) : Option Claims → Projection → Prop
  | some c, q => q = p.within (some c) ∧ SameArrays p.state.claims c
  | none, q => Spent p q

variable {o : Option Claims}

theorem restore_standsFor (started : Projection.new env set target = .ok p)
    (stands : StandsFor p o q) :
    ∃ q', Projection.restore env set target q.checkpoint = .ok q' ∧ StandsFor p o q' := by
  cases o with
  | some =>
    obtain ⟨rfl, same⟩ := stands
    exact ⟨_, restore_within started same, rfl, same⟩
  | none => exact restore_spent started stands

variable {e : ReportEvidence Context}

theorem observe_standsFor (fresh : Fresh env p) (stands : StandsFor p o q)
    (accepted : Accepted env e) :
    ∃ q', q.observe env e = (q', .ok ()) ∧ StandsFor p (budgeted env p o e) q' := by
  cases o with
  | some c =>
    obtain ⟨rfl, same⟩ := stands
    refine ⟨_, observe_accepted same fresh.incremental accepted, ?_⟩
    have kept : ∀ c', budgeted env p (some c) e = some c' → SameArrays p.state.claims c' :=
      sameArrays_budgeted (fun c' is => (by cases is; exact same))
    cases left : budgeted env p (some c) e with
    | some c' => exact ⟨rfl, kept c' left⟩
    | none => exact spent_within
  | none => exact ⟨q, observe_spent stands e, stands⟩

theorem finish_standsFor (stands : StandsFor p o q) :
    q.finish env = (p.within o).finish env := by
  cases o with
  | some => rw [stands.1]
  | none => exact finish_spent stands

variable {calls : List (Option (ReportEvidence Context))}

theorem calls_standsFor (started : Projection.new env set target = .ok p)
    (accepted : ∀ e ∈ calls.filterMap id, Accepted env e) (stands : StandsFor p o q) :
    ∃ q', calls.foldlM (Projection.call env set target) q = .ok q' ∧
      StandsFor p ((calls.filterMap id).foldl (budgeted env p) o) q' := by
  induction calls generalizing o q with
  | nil => exact ⟨q, rfl, stands⟩
  | cons call _ ih =>
    rw [foldlM_cons]
    cases call with
    | none =>
      obtain ⟨q', restored, stands⟩ := restore_standsFor started stands
      rw [show Projection.call env set target q none = .ok q' from restored, ok_bind]
      exact ih accepted stands
    | some e =>
      have first : Accepted env e := accepted e (.head _)
      obtain ⟨q', observed, stands⟩ := observe_standsFor (new_fresh started) stands first
      have called : Projection.call env set target q (some e) = .ok q' := by
        unfold Projection.call
        dsimp only
        rw [observed]
      rw [called, ok_bind]
      exact ih (fun e mem => accepted e (.tail _ mem)) stands

theorem projectInterrupted_eq (accepted : ∀ e ∈ reports, Accepted env e)
    (same : calls.filterMap id = reports) :
    projectInterrupted env set target calls = project env set target reports := by
  subst same
  cases started : Projection.new env set target with
  | error =>
    unfold projectInterrupted project
    rw [started]
    rfl
  | ok p =>
    have begin : StandsFor p (some p.state.claims) p := ⟨(new_fresh started).within.symm, fun _ => rfl⟩
    obtain ⟨q, run, stands⟩ := calls_standsFor started accepted begin
    rw [project_outcome started accepted]
    unfold projectInterrupted
    rw [started, ok_bind, run, ok_bind]
    exact finish_standsFor stands

theorem sameArrays_runSteps {c : Claims} {steps : List (Except Fault Fact)} : SameArrays c (runSteps c steps).1 := by
  induction steps generalizing c with
  | nil => exact fun _ => rfl
  | cons step _ ih =>
    cases step with
    | error => exact fun _ => rfl
    | ok fact => exact fun name => (ih name).trans (sameArrays_record fact name)

theorem observe_arrays (e : ReportEvidence Context) {name : String}
    (there : (p.observe env e).1.state.claims.arrays.contains name = true) :
    p.state.claims.arrays.contains name = true := by
  unfold Projection.observe at there
  split at there
  · exact there
  split at there
  · exact there
  split at there
  · exact there
  · rename_i report _ _ declared _
    dsimp only at there
    have kept : SameArrays p.state.claims
        (runSteps p.state.claims (reportSteps p e.subscriptions report declared)).1 := sameArrays_runSteps
    split at there
    · rename_i claims _ run
      rw [run] at kept
      exact (kept name).symm.trans there
    rename_i claims run
    rw [run] at kept
    split at there
    · cases there
    · exact (kept name).symm.trans there

theorem Reached.incremental (reached : Reached env set target p) : Incremental env p.state.claims := by
  induction reached with
  | new started => exact (new_fresh started).incremental
  | observed e _ ih => exact fun name there => ih name (observe_arrays e there)
  | @restored p _ _ restored ih =>
    unfold Projection.restore at restored
    obtain ⟨fresh, started, restored⟩ := of_bind restored
    cases restored
    intro name there
    change (extend fresh.state.claims.arrays p.state.claims.arrays).contains name = true at there
    unfold OrdMap.contains at there
    rw [get?_extend] at there
    cases old : p.state.claims.arrays.get? name with
    | some => exact ih name (by rw [OrdMap.contains, old]; rfl)
    | none =>
      rw [old, Option.none_or] at there
      exact (new_fresh started).incremental name there

theorem observe_error (incremental : Incremental env p.state.claims) {fault : Fault}
    (refused : (p.observe env e).2 = .error fault) : (p.observe env e).1 = p := by
  unfold Projection.observe at refused ⊢
  split at refused
  · cases refused
  rename_i running
  rw [if_neg running]
  split at refused
  · rfl
  rename_i report decoded
  obtain ⟨named, declared, known⟩ := decode_eq_ok decoded
  have total : Total (reportSteps p e.subscriptions report declared) := reportSteps_total named incremental
  rw [known] at refused
  dsimp only at refused
  rw [runSteps_total total] at refused
  dsimp only at refused
  split at refused <;> cases refused

/-- The order of the reports does not count exactly when no part of them exceeds the budget, or each order of
them does. -/
theorem evidence_commutes_iff (env : Environment Context) (set : DeclarationSet) (target : Context)
    (reports : List (ReportEvidence Context)) (accepted : ∀ e ∈ reports, Accepted env e) :
    Commutes env set target reports ↔ ∀ p, Projection.new env set target = .ok p →
      (∀ part : List (ReportEvidence Context), part ≠ [] → (∀ e ∈ part, e ∈ reports) →
        oversize (accumulated env p part) = false) ∨
      (∀ other : List (ReportEvidence Context), (∀ e, e ∈ other ↔ e ∈ reports) →
        ∃ front, front ≠ [] ∧ front <+: other ∧ oversize (accumulated env p front) = true) := by
  constructor
  · intro commutes p started
    refine absorb_settles.spend_congr_iff.mp fun other same => ?_
    exact (project_eq_iff started same accepted).mp (commutes.orders other same)
  · intro condition
    refine ⟨fun other same => ?_, fun calls same => projectInterrupted_eq accepted same,
      fun p reached e fault refused => ?_⟩
    · cases started : Projection.new env set target with
      | error =>
        unfold project
        rw [started]
        rfl
      | ok p =>
        refine (project_eq_iff started same accepted).mpr ?_
        exact absorb_settles.spend_congr_iff.mpr (condition p started) other same
    · rw [observe_error reached.incremental refused]

end

namespace Sample

def declarations : Json :=
  .object [("activations", .array []),
    ("configurations", .array [.object [("active", .bool true), ("identifier", .string "subscription"),
      ("server-token", .string "1"), ("valid", .string "valid")]]),
    ("assets", .array []), ("management", .array [])]

def report (value : String) : Json :=
  .object [("StatusItems", .object [
      ("test", .object [("string-value", .string value)]),
      ("management", .object [("declarations", declarations)])]),
    ("Errors", .array [])]

def activeText : Json :=
  .object [("active", .bool true), ("reasons", .array []), ("valid", .string "valid")]

/-- Only some values of the item are known, and the declaration as active and valid. -/
def env (values : List String) : Environment Unit where
  decodeJson := fun b => ((values.find? (fun v => bytes (report v) = b)).map report).elim (.error .encoding) .ok
  ofText := fun t => ((activeText :: values.map Json.string).find? (fun v => textOf v = t)).elim (.error .encoding) .ok
  envelope := fun _ _ => .ok ()
  status := ["management.declarations", "test.string-value"]
  applies := fun _ _ => .ok ()
  incremental := fun _ => false
  object := fun _ _ _ _ => .ok ()
  leaf := fun _ _ _ => .ok ()
  versioned := fun _ => true

def set : DeclarationSet where
  declarations := OrdMap.empty.insert "subscription" ⟨.configuration, "subscription", "1", ["test.string-value"]⟩

def evidence (value : String) : ReportEvidence Unit where
  report := bytes (report value)
  context := ()
  subscriptions := OrdMap.empty.insert "test.string-value" ()
  declarationsToken := "1"

def projection : Projection where
  set := set
  expectedVersions := OrdMap.empty.insert "subscription" "1"
  wanted := OrdMap.empty.insert "test.string-value" ()
  state := ⟨.cleared, false⟩

def status (value : String) : StatusReport where
  full := false
  items := (OrdMap.empty.insert "test.string-value" (.string value)).insert "management.declarations" declarations
  errors := []

variable {values : List String} {value : String}

theorem new_projection : Projection.new (env values) set () = .ok projection := by rfl

variable {out : OrdMap String Json} {rest : List (String × Json)}

theorem flatten_item {levels : Nat} {path key name : String} {json : Json}
    (plain : ¬(key.isEmpty || key.toList.contains '.') = true)
    (named : (if path.isEmpty then key else path ++ "." ++ key) = name)
    (known : (env values).status.contains name = true) :
    flatten (env values) () (levels + 1) path ((key, json) :: rest) out =
      flatten (env values) () (levels + 1) path rest (out.insert name json) := by
  have valid : (if isNull json then .ok () else validateLeaf (env values) () name json : Except Fault Unit) =
      .ok () := by
    split <;> rfl
  rw [flatten, foldlM_cons, if_neg plain]
  dsimp only
  rw [named, if_pos known, valid]
  rfl

theorem flatten_space {levels : Nat} {path key name : String} {inner : List (String × Json)}
    {out' : OrdMap String Json} (plain : ¬(key.isEmpty || key.toList.contains '.') = true)
    (named : (if path.isEmpty then key else path ++ "." ++ key) = name)
    (space : ¬(env values).status.contains name = true)
    (known : (env values).status.any (fun d => d.startsWith (name ++ ".")) = true)
    (below : flatten (env values) () levels name inner out = .ok out') :
    flatten (env values) () (levels + 1) path ((key, .object inner) :: rest) out =
      flatten (env values) () (levels + 1) path rest out' := by
  rw [flatten, foldlM_cons, if_neg plain]
  dsimp only
  rw [named, if_neg space, if_pos known, below]
  rfl

theorem flatten_report : flatten (env values) () 17 "" [("test", .object [("string-value", .string value)]),
    ("management", .object [("declarations", declarations)])] .empty = .ok (status value).items := by
  have status' : (env values).status = (env []).status := rfl
  have item : flatten (env values) () 16 "test" [("string-value", .string value)] .empty =
      .ok (OrdMap.empty.insert "test.string-value" (.string value)) :=
    flatten_item (by decide) (by decide) (by rw [status']; decide)
  have native : flatten (env values) () 16 "management" [("declarations", declarations)]
      (OrdMap.empty.insert "test.string-value" (.string value)) = .ok (status value).items :=
    flatten_item (by decide) (by decide) (by rw [status']; decide)
  rw [flatten_space (by decide) (by decide) (by rw [status']; decide)
      (by rw [status']; decide +kernel) item,
    flatten_space (by decide) (by decide) (by rw [status']; decide)
      (by rw [status']; decide +kernel) native]
  rfl

def active : DeclarationStatus := ⟨.configuration, "subscription", "1", true, .valid, []⟩

theorem native_status : (status value).declarations = .ok [active] := by
  have named : identifier "subscription" = .ok () := by decide
  have versioned : identifier "1" = .ok () := by decide
  have found : (status value).items.get? "management.declarations" = some declarations := by
    rw [status, OrdMap.get?_insert, if_pos rfl]
  have one : declarationOf .configuration [] (.object [("active", .bool true), ("identifier", .string "subscription"),
      ("server-token", .string "1"), ("valid", .string "valid")]) = .ok active := by
    show (identifier "subscription" >>= fun _ => identifier "1" >>= fun _ => _) = _
    rw [named, ok_bind, versioned, ok_bind]
    rfl
  have configurations : declarationsOf .configuration [] [.object [("active", .bool true),
      ("identifier", .string "subscription"), ("server-token", .string "1"), ("valid", .string "valid")]] =
      .ok [active] := by
    rw [declarationsOf, List.map_nil, one]
    rfl
  have all : ∀ f : List DeclarationStatus → String × DeclarationKind → Except Fault (List DeclarationStatus),
      f [] ("activations", .activation) = .ok [] → f [] ("configurations", .configuration) = .ok [active] →
      f [active] ("assets", .asset) = .ok [active] → f [active] ("management", .management) = .ok [active] →
      families.foldlM f [] = .ok [active] := by
    intro f first second third fourth
    rw [families, foldlM_cons, first, ok_bind, foldlM_cons, second, ok_bind, foldlM_cons, third,
      ok_bind, foldlM_cons, fourth]
    rfl
  unfold StatusReport.declarations
  rw [found]
  exact all _ rfl configurations rfl rfl

theorem decode_report (mem : value ∈ values) :
    StatusReport.decode (env values) () (bytes (report value)) = .ok (status value) := by
  have plain : ∀ value, Plain (report value) := by
    intro value
    simp [report, declarations, Plain, PlainItems, PlainMembers]
  have read : (env values).decodeJson (bytes (report value)) = .ok (report value) := by
    show ((values.find? (fun v => bytes (report v) = bytes (report value))).map report).elim
      (.error Fault.encoding) Except.ok = _
    cases found : values.find? (fun v => bytes (report v) = bytes (report value)) with
    | none =>
      have other := List.find?_eq_none.mp found value mem
      simp at other
    | some v =>
      have same : bytes (report v) = bytes (report value) := by simpa using List.find?_some found
      rw [Option.map_some, bytes_injective (plain v) (plain value) same]
      rfl
  unfold StatusReport.decode
  rw [read, ok_bind]
  show (flatten (env values) () 17 "" [("test", .object [("string-value", .string value)]),
    ("management", .object [("declarations", declarations)])] .empty >>= fun items => _) = _
  rw [flatten_report, ok_bind]
  show ((status value).declarations >>= fun _ => _) = _
  rw [native_status]
  rfl

def name : String := "test.string-value"

theorem decode_evidence (mem : value ∈ values) :
    StatusReport.decode (env values) (evidence value).context (evidence value).report = .ok (status value) := by
  simp only [evidence]
  exact decode_report mem

theorem accepted (mem : value ∈ values) : Accepted (env values) (evidence value) := ⟨_, decode_evidence mem⟩

def facts (value : String) : List Fact :=
  [.claim name (textOf (.string value)), .native "subscription" (nativeText active)]

theorem factsOf_evidence (mem : value ∈ values) : factsOf (env values) projection (evidence value) = facts value := by
  have current : isCurrent projection.expectedVersions [active] = true := by decide
  have known : (status value).items.get? name = some (.string value) := by
    rw [status, OrdMap.get?_insert, if_neg (by decide), name, OrdMap.get?_insert, if_pos rfl]
  have item : itemSteps (fun name => projection.state.claims.arrays.contains name) (status value) true name =
      [.ok (.claim name (textOf (.string value)))] := by
    unfold itemSteps
    rw [known]
    rfl
  have subscribed : projection.wanted.keys.filter (fun name => OrdMap.contains (evidence value).subscriptions name) =
      [name] := by
    show [name].filter (fun key => OrdMap.contains (OrdMap.empty.insert name ()) key) = [name]
    decide
  have native : nativeSteps set active = [.ok (.native "subscription" (nativeText active))] := by
    unfold nativeSteps
    rfl
  simp only [factsOf, decode_evidence mem, native_status]
  unfold reportSteps
  rw [current, subscribed]
  show stepFacts (([] ++ [name].flatMap (itemSteps _ _ true)) ++ [] ++ [active].flatMap (nativeSteps set)) = _
  rw [List.flatMap_cons, item, List.flatMap_cons, native]
  rfl

variable {c : Claims}

theorem budgeted_evidence (mem : value ∈ values) :
    budgeted (env values) projection (some c) (evidence value) =
    if oversize ((facts value).foldl record c) then none else some ((facts value).foldl record c) := by
  unfold budgeted spend absorb
  dsimp only
  rw [factsOf_evidence mem]

theorem oversize_of_long {v : Values} {text : String} (claimed : c.claims.get? name = some v)
    (mem : text ∈ v.keys) (big : projectionBytes < text.toList.length) : oversize c = true := by
  have inner : text.toList.length ≤ (write (valuesJson v)).length :=
    (length_le_string text).trans (length_le_array (mem_map.mpr ⟨text, mem, rfl⟩))
  have claims : (write (valuesJson v)).length ≤ (write (mapJson valuesJson c.claims)).length :=
    length_le_object (mem_map.mpr ⟨(name, v), OrdMap.get?_eq_some.mp claimed, rfl⟩)
  have state : (write (mapJson valuesJson c.claims)).length ≤ (write (stateJson ⟨c, false⟩)).length :=
    length_le_object (k := "claims") (.head _)
  have all := length_le_bytes (stateJson ⟨c, false⟩)
  unfold oversize
  exact decide_eq_true (by omega)

theorem oversize_first (big : projectionBytes < value.toList.length) :
    oversize ((facts value).foldl record .cleared) = true := by
  have text : projectionBytes < (textOf (.string value)).toList.length := by
    rw [textOf, String.toList_ofList]
    exact big.trans_le (length_le_string value)
  exact oversize_of_long (v := Least.empty.claim (textOf (.string value)))
    (by rw [show ((facts value).foldl record .cleared).claims = addClaim .empty name (textOf (.string value)) from rfl,
      get?_addClaim, if_pos rfl]; rfl) (by exact List.mem_singleton.mpr rfl) text

theorem facts_after {v : Values} {first second : String} (claimed : c.claims.get? name = some v)
    (keys : v.keys = [first, second]) (one : first < textOf (.string value))
    (two : second < textOf (.string value)) :
    record c (.claim name (textOf (.string value))) = c := by
  have same : v.claim (textOf (.string value)) = v := by
    apply Least.ext
    rw [Least.keys_claim, keys]
    simp [one.not_gt, one.ne', two.not_gt, two.ne']
  have claims : addClaim c.claims name (textOf (.string value)) = c.claims := by
    apply OrdMap.ext
    intro k
    rw [get?_addClaim]
    split
    · rename_i here
      rw [here, claimed, Option.getD_some, same]
    · rfl
  rw [record, claims]

/-- Two small values and one that does not fit the budget. -/
def long : String := String.ofList (List.replicate 600000 'z')

theorem long_big : projectionBytes < long.toList.length := by
  have length : long.toList.length = 600000 := by
    unfold long
    rw [String.toList_ofList]
    exact List.length_replicate
  have bound : projectionBytes = 524288 := rfl
  omega

theorem text_long : ∃ rest, (textOf (.string long)).toList = '"' :: 'z' :: rest := by
  have begins : ∀ n : Nat, 0 < n → ∃ rest, (List.replicate n 'z').flatMap escape = 'z' :: rest := by
    intro n positive
    obtain ⟨m, rfl⟩ := Nat.exists_eq_succ_of_ne_zero positive.ne'
    exact ⟨_, by rw [List.replicate_succ, List.flatMap_cons]; rfl⟩
  obtain ⟨rest, is⟩ := begins 600000 (by decide)
  refine ⟨rest ++ ['"'], ?_⟩
  unfold textOf write quoted long
  rw [String.toList_ofList, String.toList_ofList, is]
  rfl

theorem text_lt_long {text : String} {c : Char} {rest : List Char} (is : text.toList = '"' :: c :: rest)
    (before : c < 'z') : text < textOf (.string long) := by
  obtain ⟨more, long⟩ := text_long
  rw [String.lt_iff_toList_lt, is, long, List.cons_lt_cons_self, List.cons_lt_cons_iff]
  exact .inl before

def small : Claims := (facts "b").foldl record ((facts "a").foldl record .cleared)

set_option maxRecDepth 4000 in
theorem small_first : oversize ((facts "a").foldl record .cleared) = false := by decide

set_option maxRecDepth 4000 in
theorem small_second : oversize small = false := by decide

theorem small_keys : (small.claims.get? name).map Least.keys =
    some [textOf (.string "a"), textOf (.string "b")] := by
  decide

theorem native_again :
    record ((facts value).foldl record c) (.native "subscription" (nativeText active)) =
    (facts value).foldl record c := by
  rw [facts, foldl_cons, foldl_cons, List.foldl_nil]
  exact record_settles.idem _ _

theorem long_after_small : (facts long).foldl record small = small := by
  obtain ⟨v, claimed, keys⟩ := Option.map_eq_some_iff.mp small_keys
  have native : record small (.native "subscription" (nativeText active)) = small := native_again
  generalize small = c at claimed native ⊢
  have cut : record c (.claim name (textOf (.string long))) = c := by
    refine facts_after claimed keys ?_ ?_
    · have text : (textOf (.string "a")).toList = '"' :: 'a' :: ['"'] := by decide
      exact text_lt_long text (by decide)
    · have text : (textOf (.string "b")).toList = '"' :: 'b' :: ['"'] := by decide
      exact text_lt_long text (by decide)
  rw [facts, foldl_cons, cut, foldl_cons, native, List.foldl_nil]

def known : List String := ["a", "b", long]

theorem accepted_known : ∀ e ∈ [evidence "a", evidence "b", evidence long], Accepted (env known) e := by
  intro e mem
  rcases List.mem_cons.mp mem with rfl | mem
  · exact accepted (by simp [known])
  rcases List.mem_cons.mp mem with rfl | mem
  · exact accepted (by simp [known])
  · rw [List.mem_singleton.mp mem]
    exact accepted (by simp [known])

/-- One report exhausts the projection if it comes first, and is cut off if it comes last. -/
theorem evidence_depends_on_order :
    (∀ e ∈ [evidence "a", evidence "b", evidence long], Accepted (env known) e) ∧
    [evidence long, evidence "a", evidence "b"].Perm [evidence "a", evidence "b", evidence long] ∧
    project (env known) set () [evidence long, evidence "a", evidence "b"] ≠
      project (env known) set () [evidence "a", evidence "b", evidence long] := by
  have all := accepted_known
  have perm : [evidence long, evidence "a", evidence "b"].Perm [evidence "a", evidence "b", evidence long] :=
    (List.Perm.swap _ _ _).trans ((List.Perm.swap _ _ _).cons _)
  refine ⟨all, perm, fun equal => ?_⟩
  have same := (project_eq_iff new_projection (fun e => perm.mem_iff) all).mp equal
  have first : outcome (env known) projection [evidence long, evidence "a", evidence "b"] = none := by
    unfold outcome
    rw [foldl_cons, budgeted_evidence (by simp [known]),
      show projection.state.claims = .cleared from rfl, oversize_first long_big, if_pos rfl]
    exact foldl_spend_none
  have last : outcome (env known) projection [evidence "a", evidence "b", evidence long] ≠ none := by
    unfold outcome
    rw [foldl_cons, budgeted_evidence (by simp [known]), show projection.state.claims = .cleared from rfl,
      small_first, if_neg Bool.false_ne_true, foldl_cons, budgeted_evidence (by simp [known]), ← small, small_second,
      if_neg Bool.false_ne_true, foldl_cons, budgeted_evidence (by simp [known]), long_after_small, small_second,
      if_neg Bool.false_ne_true]
    exact Option.some_ne_none _
  exact last (same.symm.trans first)

theorem evidence_commutes_iff_known :
    Commutes (env known) set () [evidence "a", evidence "b", evidence long] ↔
      ∀ p, Projection.new (env known) set () = .ok p →
        (∀ part : List (ReportEvidence Unit), part ≠ [] →
          (∀ e ∈ part, e ∈ [evidence "a", evidence "b", evidence long]) →
            oversize (accumulated (env known) p part) = false) ∨
        (∀ other : List (ReportEvidence Unit), (∀ e, e ∈ other ↔ e ∈ [evidence "a", evidence "b", evidence long]) →
          ∃ front, front ≠ [] ∧ front <+: other ∧ oversize (accumulated (env known) p front) = true) :=
  evidence_commutes_iff (env known) set () [evidence "a", evidence "b", evidence long] accepted_known

end Sample

end RssMdm.AppleMdm
