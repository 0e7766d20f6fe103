/- module: AppleMdm/Commutation
   source: crates/apple-mdm/src/native/ddm/projection.rs, status.rs
   digest: The claims of status reports commute and do not count; the byte budget, tested after each report,
   is what the order of the reports can change. -/

import RssMdm.AppleMdm.Projection

set_option autoImplicit false

namespace RssMdm.AppleMdm

open Lib Lib.Json Lib.Commuting Lib.Fallible
open List (foldlM_cons mem_append mem_cons mem_cons_of_mem mem_cons_self mem_filter mem_flatMap
  mem_singleton)

theorem get?_addClaim (m : OrdMap String Values) (k value j : String) :
    (addClaim m k value).get? j =
      if j = k then some (((m.get? k).getD .empty).claim value) else m.get? j := OrdMap.get?_insert _ _ _ _

theorem addClaim_settles :
    Settles (fun (m : OrdMap String Values) (c : String × String) => addClaim m c.1 c.2) where
  comm := by
    rintro m ⟨j, v⟩ ⟨k, w⟩
    apply OrdMap.ext
    intro name
    simp only [get?_addClaim]
    by_cases same : j = k
    · subst same
      by_cases here : name = j
      · simp only [here, if_true, Option.getD_some, Least.settles.comm]
      · simp only [here, if_false]
    · have other : ¬k = j := fun is => same is.symm
      by_cases here : name = j
      · simp [here, same]
      · by_cases there : name = k
        · simp [there, other]
        · simp [here, there]
  idem := by
    rintro m ⟨k, v⟩
    apply OrdMap.ext
    intro name
    simp only [get?_addClaim]
    by_cases here : name = k
    · simp [here, Least.settles.idem]
    · simp [here]

theorem mem_intersect {s t : OrdSet String} {k : String} :
    k ∈ (intersect s t).keys ↔ k ∈ s.keys ∧ k ∈ t.keys := by
  unfold intersect
  rw [OrdSet.mem_ofList, mem_filter, OrdMap.contains, Option.isSome_iff_exists, ← OrdMap.mem_keys]

theorem addBaseline_settles : Settles addBaseline where
  comm := by
    intro full s t
    cases full with
    | none =>
      simp only [addBaseline, Option.some.injEq]
      apply OrdSet.ext_keys
      intro k
      rw [mem_intersect, mem_intersect, and_comm]
    | some =>
      simp only [addBaseline, Option.some.injEq]
      apply OrdSet.ext_keys
      intro k
      rw [mem_intersect, mem_intersect, mem_intersect, mem_intersect, and_assoc, and_assoc,
        and_comm (b := k ∈ t.keys)]
  idem := by
    intro full s
    cases full with
    | none =>
      simp only [addBaseline, Option.some.injEq]
      apply OrdSet.ext_keys
      intro k
      rw [mem_intersect, and_self]
    | some =>
      simp only [addBaseline, Option.some.injEq]
      apply OrdSet.ext_keys
      intro k
      rw [mem_intersect, mem_intersect, and_assoc, and_self]

theorem arrayRecord_settles : Settles ArrayClaims.record where
  comm := by
    intro a f g
    cases f with
    | object j v =>
      cases g with
      | object k w =>
        simp only [ArrayClaims.record, addClaim_settles.comm a.objects (j, v) (k, w)]
      | absent | baseline => rfl
    | absent => cases g <;> rfl
    | baseline s =>
      cases g with
      | object | absent => rfl
      | baseline t => simp only [ArrayClaims.record, addBaseline_settles.comm a.full s t]
  idem := by
    intro a f
    cases f with
    | object j v => simp only [ArrayClaims.record, addClaim_settles.idem a.objects (j, v)]
    | absent => rfl
    | baseline s => simp only [ArrayClaims.record, addBaseline_settles.idem a.full s]

theorem modify_settles : Settles (fun (m : OrdMap String ArrayClaims) (c : String × ArrayFact) =>
    m.modify c.1 (fun a => a.record c.2)) where
  comm := by
    rintro m ⟨j, f⟩ ⟨k, g⟩
    apply OrdMap.ext
    intro name
    simp only [OrdMap.get?_modify]
    by_cases here : name = j
    · by_cases there : name = k
      · simp only [if_pos here, if_pos there, Option.map_map]
        congr 1
        funext a
        exact arrayRecord_settles.comm a f g
      · simp only [if_pos here, if_neg there]
    · simp only [if_neg here]
  idem := by
    rintro m ⟨k, f⟩
    apply OrdMap.ext
    intro name
    simp only [OrdMap.get?_modify]
    by_cases here : name = k
    · simp only [if_pos here, Option.map_map]
      congr 1
      funext a
      exact arrayRecord_settles.idem a f
    · simp only [if_neg here]

theorem insert_settles : Settles (fun (s : OrdSet String) (text : String) => OrdMap.insert s text ()) where
  comm := by
    intro s a b
    apply OrdSet.ext_keys
    intro k
    rw [OrdSet.mem_keys_insert, OrdSet.mem_keys_insert, OrdSet.mem_keys_insert, OrdSet.mem_keys_insert,
      or_left_comm]
  idem := by
    intro s a
    exact OrdMap.insert_insert s a () ()

theorem record_settles : Settles record where
  comm := by
    intro c f g
    cases f <;> cases g <;> try rfl
    case claim.claim j v k w => simp only [record, addClaim_settles.comm c.claims (j, v) (k, w)]
    case array.array j f k g => simp only [record, modify_settles.comm c.arrays (j, f) (k, g)]
    case error.error a b => simp only [record, insert_settles.comm c.errors a b]
    case native.native j v k w => simp only [record, addClaim_settles.comm c.native (j, v) (k, w)]
  idem := by
    intro c f
    cases f with
    | full => rfl
    | claim j v => simp only [record, addClaim_settles.idem c.claims (j, v)]
    | array j f => simp only [record, modify_settles.idem c.arrays (j, f)]
    | error a => simp only [record, insert_settles.idem c.errors a]
    | native j v => simp only [record, addClaim_settles.idem c.native (j, v)]

section

variable {Context : Type} {env : Environment Context} {context : Context}

/-- A leaf of an incremental array is null, or a list of objects that name themselves. -/
def Named (env : Environment Context) (items : OrdMap String Json) : Prop :=
  ∀ name value, items.get? name = some value → env.incremental name = true →
    value = .null ∨ ∃ objects, value = .array objects ∧
      ∀ item ∈ objects, ∃ id, asString (memberOf item "identifier") = some id

theorem require_eq_ok {α : Type} {x : Option α} {a : α} (h : require x = .ok a) : x = some a := by
  cases x with
  | none => cases h
  | some =>
    cases h
    rfl

variable {path : String} {value : Json}

theorem validateObject_eq_ok {seen seen' : List String}
    (h : validateObject env context path seen value = .ok seen') :
    ∃ id, asString (memberOf value "identifier") = some id := by
  unfold validateObject at h
  split at h
  · obtain ⟨id, found, -⟩ := of_bind h
    exact ⟨id, require_eq_ok found⟩
  · cases h

theorem foldlM_validateObject {objects : List Json} {seen seen' : List String}
    (h : objects.foldlM (validateObject env context path) seen = .ok seen') :
    ∀ item ∈ objects, ∃ id, asString (memberOf item "identifier") = some id := by
  induction objects generalizing seen with
  | nil => exact fun _ mem => nomatch mem
  | cons _ _ ih =>
    obtain ⟨middle, one, h⟩ := of_bind h
    intro item mem
    rcases mem_cons.mp mem with rfl | mem
    · exact validateObject_eq_ok one
    · exact ih h item mem

theorem validateLeaf_eq_ok (h : validateLeaf env context path value = .ok ())
    (incremental : env.incremental path = true) :
    ∃ objects, value = .array objects ∧ ∀ item ∈ objects, ∃ id, asString (memberOf item "identifier") = some id := by
  unfold validateLeaf at h
  rw [if_pos incremental] at h
  split at h
  · rename_i objects
    obtain ⟨_, checked, -⟩ := of_bind h
    exact ⟨objects, rfl, foldlM_validateObject checked⟩
  · cases h

theorem isNull_eq_true (h : isNull value = true) : value = .null := by
  cases value with
  | null => rfl
  | bool | number | string | array | object => cases h

theorem flatten_named {levels : Nat} {members : List (String × Json)}
    {out out' : OrdMap String Json} (h : flatten env context levels path members out = .ok out')
    (named : Named env out) : Named env out' := by
  induction levels generalizing path members out out' with
  | zero => cases h
  | succ levels ih =>
    unfold flatten at h
    induction members generalizing out with
    | nil =>
      cases h
      exact named
    | cons m rest ihm =>
      obtain ⟨middle, one, h⟩ := of_bind h
      refine ihm ?_ h
      obtain ⟨-, one⟩ := of_guard one
      dsimp only at one
      generalize (if path.isEmpty = true then m.1 else path ++ "." ++ m.1) = name at one
      split at one
      · obtain ⟨-, one⟩ := of_check one
        obtain ⟨checked, one⟩ := of_check one
        cases one
        intro other value found incremental
        rcases OrdMap.get?_insert_cases found with ⟨same, rfl⟩ | ⟨-, found⟩
        · split at checked
          · rename_i null
            exact .inl (isNull_eq_true null)
          · rw [same] at incremental
            exact .inr (validateLeaf_eq_ok checked incremental)
        · exact named other value found incremental
      · split at one
        · split at one
          · exact ih one named
          · cases one
        · cases one

theorem decode_eq_ok {bytes : List UInt8} {report : StatusReport}
    (h : StatusReport.decode env context bytes = .ok report) :
    Named env report.items ∧ ∃ declared, report.declarations = .ok declared := by
  unfold StatusReport.decode at h
  obtain ⟨raw, -, h⟩ := of_bind h
  split at h
  · split at h
    · obtain ⟨-, h⟩ := of_check h
      obtain ⟨errors, -, h⟩ := of_bind h
      obtain ⟨items, flat, h⟩ := of_bind h
      obtain ⟨declared, known, h⟩ := of_bind h
      cases h
      have none : Named env (.empty : OrdMap String Json) := by
        intro name value found
        cases found
      exact ⟨flatten_named flat none, declared, known⟩
    · cases h
  · cases h

end

section

variable {Context : Type} {env : Environment Context} {p : Projection} {c : Claims}

def stepFacts (steps : List (Except Fault Fact)) : List Fact :=
  steps.filterMap (fun step => step.toOption)

def Total (steps : List (Except Fault Fact)) : Prop := ∀ step ∈ steps, ∃ fact, step = .ok fact

theorem runSteps_total {steps : List (Except Fault Fact)} (total : Total steps) :
    runSteps c steps = ((stepFacts steps).foldl record c, .ok ()) := by
  induction steps generalizing c with
  | nil => rfl
  | cons step _ ih =>
    obtain ⟨fact, rfl⟩ := total step (.head _)
    rw [runSteps, ih (fun s mem => total s (.tail _ mem))]
    rfl

theorem total_single {fact : Fact} : Total [.ok fact] := by
  intro step mem
  exact ⟨fact, mem_singleton.mp mem⟩

theorem total_nil : Total [] := fun _ mem => nomatch mem

theorem Total.append {a b : List (Except Fault Fact)} (first : Total a) (second : Total b) : Total (a ++ b) := by
  intro step mem
  rcases mem_append.mp mem with before | after
  · exact first step before
  · exact second step after

theorem Total.flatMap {α : Type} {l : List α} {f : α → List (Except Fault Fact)} (all : ∀ a ∈ l, Total (f a)) :
    Total (l.flatMap f) := by
  intro step mem
  obtain ⟨a, there, mem⟩ := mem_flatMap.mp mem
  exact all a there step mem

variable {name : String}

theorem arraySteps_null {full : Bool} : Total (arraySteps name .null full) := total_single

theorem arraySteps_total {objects : List Json} {full : Bool}
    (named : ∀ item ∈ objects, ∃ id, asString (memberOf item "identifier") = some id) :
    Total (arraySteps name (.array objects) full) := by
  unfold arraySteps
  refine .append ?_ ?_
  · intro step mem
    obtain ⟨item, there, rfl⟩ := List.mem_map.mp mem
    obtain ⟨id, is⟩ := named item there
    simp only [objectStep, is]
    exact ⟨_, rfl⟩
  · split
    · exact total_single
    · exact total_nil

variable {report : StatusReport} {arrays : String → Bool}

theorem itemSteps_total {current : Bool} (named : Named env report.items)
    (incremental : arrays name = true → env.incremental name = true) :
    Total (itemSteps arrays report current name) := by
  unfold itemSteps
  split
  · rename_i value found
    split
    · rename_i array
      cases current with
      | false => exact arraySteps_null
      | true =>
        rcases named name value found (incremental array) with rfl | ⟨objects, rfl, all⟩
        · exact arraySteps_null
        · exact arraySteps_total all
    · exact total_single
  · split
    · split
      · exact arraySteps_null
      · exact total_single
    · exact total_nil

variable {subscriptions : OrdSet String}

theorem errorSteps_total {wanted : OrdSet String} {error : Json} :
    Total (errorSteps arrays wanted subscriptions error) := by
  unfold errorSteps
  split
  · split
    · rename_i name _ _
      have rest : Total (if arrays name then arraySteps name .null false else [.ok (.claim name "null")]) := by
        split
        · exact arraySteps_null
        · exact total_single
      intro step mem
      rcases mem_cons.mp mem with rfl | later
      · exact ⟨_, rfl⟩
      · exact rest step later
    · exact total_nil
  · exact total_nil

theorem nativeSteps_total {set : DeclarationSet} {d : DeclarationStatus} : Total (nativeSteps set d) := by
  unfold nativeSteps
  split
  · split
    · exact total_single
    · exact total_nil
  · exact total_nil

def Incremental (env : Environment Context) (c : Claims) : Prop :=
  ∀ name, c.arrays.contains name = true → env.incremental name = true

theorem reportSteps_total {declared : List DeclarationStatus} (named : Named env report.items)
    (incremental : Incremental env p.state.claims) :
    Total (reportSteps p subscriptions report declared) := by
  unfold reportSteps
  refine .append (.append (.append ?_ ?_) ?_) ?_
  · split
    · exact total_single
    · exact total_nil
  · exact .flatMap fun name _ => itemSteps_total named (incremental name)
  · exact .flatMap fun _ _ => errorSteps_total
  · exact .flatMap fun _ _ => nativeSteps_total

def factsOf (env : Environment Context) (p : Projection) (e : ReportEvidence Context) : List Fact :=
  match StatusReport.decode env e.context e.report with
  | .error _ => []
  | .ok report =>
      match report.declarations with
      | .error _ => []
      | .ok declared => stepFacts (reportSteps p e.subscriptions report declared)

def absorb (env : Environment Context) (p : Projection) (c : Claims) (e : ReportEvidence Context) : Claims :=
  (factsOf env p e).foldl record c

theorem absorb_settles : Settles (absorb env p) := record_settles.flat (factsOf env p)

def accumulated (env : Environment Context) (p : Projection) (reports : List (ReportEvidence Context)) : Claims :=
  reports.foldl (absorb env p) p.state.claims

def SameArrays (c c' : Claims) : Prop := ∀ name, c'.arrays.contains name = c.arrays.contains name

theorem sameArrays_record (fact : Fact) : SameArrays c (record c fact) := by
  intro name
  cases fact with
  | array =>
    simp only [record, OrdMap.contains, OrdMap.get?_modify]
    split <;> simp
  | full | claim | error | native => rfl

theorem sameArrays_foldl (facts : List Fact) : SameArrays c (facts.foldl record c) := by
  induction facts generalizing c with
  | nil => exact fun _ => rfl
  | cons fact _ ih => exact fun name => (ih name).trans (sameArrays_record fact name)

theorem sameArrays_absorb (e : ReportEvidence Context) : SameArrays c (absorb env p c e) := sameArrays_foldl _

end

section

variable {Context : Type} {env : Environment Context} {p : Projection} {c : Claims}
  {e : ReportEvidence Context} {reports : List (ReportEvidence Context)}

def stateOf : Option Claims → ProjectionState
  | some c => ⟨c, false⟩
  | none => ⟨.cleared, true⟩

def Projection.within (p : Projection) (o : Option Claims) : Projection := { p with state := stateOf o }

def budgeted (env : Environment Context) (p : Projection) : Option Claims → ReportEvidence Context → Option Claims :=
  spend (absorb env p) oversize

def Accepted (env : Environment Context) (e : ReportEvidence Context) : Prop :=
  ∃ report, StatusReport.decode env e.context e.report = .ok report

theorem reportSteps_within (same : SameArrays p.state.claims c) {subscriptions : OrdSet String}
    {report : StatusReport} {declared : List DeclarationStatus} :
    reportSteps (p.within (some c)) subscriptions report declared =
      reportSteps p subscriptions report declared := by
  have arrays : (fun name => c.arrays.contains name) = fun name => p.state.claims.arrays.contains name :=
    funext same
  unfold reportSteps Projection.within stateOf
  rw [arrays]

theorem observe_accepted (same : SameArrays p.state.claims c) (incremental : Incremental env p.state.claims)
    (accepted : Accepted env e) :
    (p.within (some c)).observe env e = (p.within (budgeted env p (some c) e), .ok ()) := by
  obtain ⟨report, decoded⟩ := accepted
  obtain ⟨named, declared, known⟩ := decode_eq_ok decoded
  have total : Total (reportSteps p e.subscriptions report declared) := reportSteps_total named incremental
  have facts : factsOf env p e = stepFacts (reportSteps p e.subscriptions report declared) := by
    simp only [factsOf, decoded, known]
  unfold Projection.observe
  have running : (p.within (some c)).state.exhausted = false := rfl
  simp only [running, Bool.false_eq_true, if_false, decoded, known, reportSteps_within same]
  have claims : (p.within (some c)).state.claims = c := rfl
  rw [claims, runSteps_total total]
  simp only [budgeted, spend, absorb, facts]
  split
  · rfl
  · rfl

theorem observe_exhausted : (p.within none).observe env e = (p.within none, .ok ()) := by
  unfold Projection.observe
  rfl

theorem sameArrays_budgeted {o : Option Claims} (same : ∀ c, o = some c → SameArrays p.state.claims c) :
    ∀ c, budgeted env p o e = some c → SameArrays p.state.claims c := by
  intro c is
  cases o with
  | none => cases is
  | some c₀ =>
    have is : (if oversize (absorb env p c₀ e) then none else some (absorb env p c₀ e)) = some c := is
    split at is
    · cases is
    · cases is
      exact fun name => (sameArrays_absorb e name).trans (same c₀ rfl name)

theorem observeAll_accepted (incremental : Incremental env p.state.claims) {o : Option Claims}
    (same : ∀ c, o = some c → SameArrays p.state.claims c) (accepted : ∀ e ∈ reports, Accepted env e) :
    (p.within o).observeAll env reports = .ok (p.within (reports.foldl (budgeted env p) o)) ∧
      ∀ c, reports.foldl (budgeted env p) o = some c → SameArrays p.state.claims c := by
  induction reports generalizing o with
  | nil => exact ⟨rfl, same⟩
  | cons e _ ih =>
    have one : (p.within o).observe env e = (p.within (budgeted env p o e), .ok ()) := by
      cases o with
      | none => exact observe_exhausted
      | some c => exact observe_accepted (same c rfl) incremental (accepted e (.head _))
    rw [Projection.observeAll, one, List.foldl_cons]
    exact ih (sameArrays_budgeted same) (fun e mem => accepted e (.tail _ mem))

end

section

variable {Context : Type} {env : Environment Context} {p : Projection} {c : Claims}
  {e : ReportEvidence Context} {set : DeclarationSet} {target : Context}

theorem contains_eq_true {ν : Type} {m : OrdMap String ν} {k : String} : m.contains k = true ↔ k ∈ m.keys := by
  rw [OrdMap.contains, Option.isSome_iff_exists, ← OrdMap.mem_keys]

theorem declarations_unwanted : "management.declarations" ∉ (wantedNames set).keys := by
  unfold wantedNames
  rw [OrdSet.mem_ofList, mem_filter]
  rintro ⟨-, other⟩
  simp at other

theorem newArrays_eq_ok {names : List String} {arrays : OrdMap String ArrayClaims}
    (h : newArrays env target names = .ok arrays) :
    ∀ name, arrays.contains name = true → name ∈ names ∧ env.incremental name = true := by
  induction names generalizing arrays with
  | nil =>
    cases h
    intro name there
    cases there
  | cons first rest ih =>
    unfold newArrays at h
    obtain ⟨-, h⟩ := of_guard h
    obtain ⟨-, h⟩ := of_guard h
    obtain ⟨others, made, h⟩ := of_bind h
    cases h
    intro name there
    split at there
    · rename_i incremental
      rw [OrdMap.contains, OrdMap.get?_insert] at there
      split at there
      · rename_i same
        exact ⟨same ▸ mem_cons_self, same ▸ incremental⟩
      · obtain ⟨mem, is⟩ := ih made name there
        exact ⟨.tail _ mem, is⟩
    · obtain ⟨mem, is⟩ := ih made name there
      exact ⟨.tail _ mem, is⟩

structure Fresh (env : Environment Context) (p : Projection) : Prop where
  unwanted : "management.declarations" ∉ p.wanted.keys
  claims : p.state.claims.claims = .empty
  arrays : ∀ name, p.state.claims.arrays.contains name = true → name ∈ p.wanted.keys ∧ env.incremental name = true
  running : p.state.exhausted = false

theorem new_fresh (h : Projection.new env set target = .ok p) : Fresh env p := by
  unfold Projection.new at h
  obtain ⟨arrays, made, h⟩ := of_bind h
  cases h
  exact ⟨declarations_unwanted, rfl, newArrays_eq_ok made, rfl⟩

theorem Fresh.incremental (fresh : Fresh env p) : Incremental env p.state.claims :=
  fun name there => (fresh.arrays name there).2

theorem Fresh.within (fresh : Fresh env p) : p.within (some p.state.claims) = p := by
  have running := fresh.running
  obtain ⟨set, versions, wanted, claims, exhausted⟩ := p
  cases running
  rfl

theorem claim_arraySteps {name other value : String} {json : Json} {full : Bool} :
    .ok (.claim name value) ∉ arraySteps other json full := by
  intro mem
  unfold arraySteps at mem
  split at mem
  · rcases mem_append.mp mem with object | baseline
    · obtain ⟨item, -, is⟩ := List.mem_map.mp object
      unfold objectStep at is
      split at is <;> cases is
    · split at baseline
      · cases mem_singleton.mp baseline
      · cases baseline
  · cases mem_singleton.mp mem

theorem claim_wanted {name value : String} (mem : .claim name value ∈ factsOf env p e) : name ∈ p.wanted.keys := by
  unfold factsOf at mem
  split at mem
  · cases mem
  split at mem
  · cases mem
  obtain ⟨step, there, is⟩ := List.mem_filterMap.mp mem
  cases step with
  | error => cases is
  | ok fact =>
    cases is
    unfold reportSteps at there
    rcases mem_append.mp there with there | native
    · rcases mem_append.mp there with there | error
      · rcases mem_append.mp there with full | item
        · split at full
          · cases mem_singleton.mp full
          · cases full
        · obtain ⟨other, wanted, mem⟩ := mem_flatMap.mp item
          have wanted := (mem_filter.mp wanted).1
          unfold itemSteps at mem
          split at mem
          · split at mem
            · exact absurd mem claim_arraySteps
            · cases mem_singleton.mp mem
              exact wanted
          · split at mem
            · split at mem
              · exact absurd mem claim_arraySteps
              · cases mem_singleton.mp mem
                exact wanted
            · cases mem
      · obtain ⟨json, -, mem⟩ := mem_flatMap.mp error
        unfold errorSteps at mem
        split at mem
        · split at mem
          · rename_i wanted
            have wanted := contains_eq_true.mp (Bool.and_eq_true_iff.mp wanted).1
            rcases mem_cons.mp mem with same | mem
            · cases same
            split at mem
            · exact absurd mem claim_arraySteps
            · cases mem_singleton.mp mem
              exact wanted
          · cases mem
        · cases mem
    · obtain ⟨d, -, mem⟩ := mem_flatMap.mp native
      unfold nativeSteps at mem
      split at mem
      · split at mem
        · cases mem_singleton.mp mem
        · cases mem
      · cases mem

def Wanted (p : Projection) (c : Claims) : Prop := ∀ name, name ∈ c.claims.keys → name ∈ p.wanted.keys

theorem wanted_record {fact : Fact} (wanted : Wanted p c)
    (named : ∀ name value, fact = .claim name value → name ∈ p.wanted.keys) : Wanted p (record c fact) := by
  cases fact with
  | claim k v =>
    intro name mem
    obtain ⟨w, found⟩ := OrdMap.mem_keys.mp mem
    simp only [record, get?_addClaim] at found
    split at found
    · rename_i same
      rw [same]
      exact named k v rfl
    · exact wanted name (OrdMap.mem_keys.mpr ⟨w, found⟩)
  | full | array | error | native => exact wanted

theorem wanted_absorb (wanted : Wanted p c) : Wanted p (absorb env p c e) := by
  have fold : ∀ (facts : List Fact) (c : Claims), Wanted p c →
      (∀ fact ∈ facts, ∀ name value, fact = .claim name value → name ∈ p.wanted.keys) →
      Wanted p (facts.foldl record c) := by
    intro facts
    induction facts with
    | nil => exact fun _ wanted _ => wanted
    | cons fact _ ih =>
      intro c wanted named
      exact ih _ (wanted_record wanted (named fact (.head _)))
        (fun f mem => named f (.tail _ mem))
  refine fold _ c wanted fun fact mem name value is => ?_
  subst is
  exact claim_wanted mem

theorem wanted_foldl {reports : List (ReportEvidence Context)} (wanted : Wanted p c) :
    Wanted p (reports.foldl (absorb env p) c) := by
  induction reports generalizing c with
  | nil => exact wanted
  | cons _ _ ih => exact ih (wanted_absorb wanted)

end

section

variable {Context : Type} {env : Environment Context} {p : Projection} {c : Claims}
  {acc' acc : OrdMap String Json × OrdSet String}

theorem finishClaim_eq_ok {e : String × Values} (h : finishClaim env acc e = .ok acc') :
    ∀ k ∈ acc'.2.keys, k ∈ acc.2.keys ∨ k = e.1 := by
  intro k mem
  unfold finishClaim at h
  split at h
  · split at h
    · cases h
      exact ((OrdSet.mem_keys_insert _ _ _).mp mem).symm
    · obtain ⟨item, -, h⟩ := of_bind h
      cases h
      exact .inl mem
  · cases h
    exact ((OrdSet.mem_keys_insert _ _ _).mp mem).symm

theorem finishArray_eq_ok {e : String × ArrayClaims} (h : finishArray env acc e = .ok acc') :
    ∀ k ∈ acc'.2.keys, k ∈ acc.2.keys ∨ k = e.1 := by
  intro k mem
  unfold finishArray at h
  split at h
  · cases h
    exact .inl mem
  obtain ⟨read, -, h⟩ := of_bind h
  cases h
  split at mem
  · exact ((OrdSet.mem_keys_insert _ _ _).mp mem).symm
  · exact .inl mem

theorem foldlM_unknown {α : Type}
    {g : OrdMap String Json × OrdSet String → String × α → Except Fault (OrdMap String Json × OrdSet String)}
    (one : ∀ acc e acc', g acc e = .ok acc' → ∀ k ∈ acc'.2.keys, k ∈ acc.2.keys ∨ k = e.1)
    {entries : List (String × α)} (h : entries.foldlM g acc = .ok acc') :
    ∀ k ∈ acc'.2.keys, k ∈ acc.2.keys ∨ k ∈ entries.map Prod.fst := by
  induction entries generalizing acc with
  | nil =>
    cases h
    exact fun _ mem => .inl mem
  | cons e _ ih =>
    obtain ⟨middle, first, h⟩ := of_bind h
    intro k mem
    rcases ih h k mem with before | later
    · rcases one acc e middle first k before with old | same
      · exact .inl old
      · exact .inr (by simp [same])
    · exact .inr (.tail _ later)

theorem finish_within {r : StatusProjection} (fresh : Fresh env p) (wanted : Wanted p c)
    (arrays : SameArrays p.state.claims c) (h : (p.within (some c)).finish env = .ok r) :
    "management.declarations" ∉ r.unknownItems.keys := by
  unfold Projection.finish at h
  obtain ⟨acc, first, h⟩ := of_bind h
  obtain ⟨acc', second, h⟩ := of_bind h
  obtain ⟨declarations, -, h⟩ := of_bind h
  obtain ⟨errors, -, h⟩ := of_bind h
  cases h
  intro mem
  rcases foldlM_unknown (fun _ _ _ h => finishArray_eq_ok h) second _ mem with before | array
  · rcases foldlM_unknown (fun _ _ _ h => finishClaim_eq_ok h) first _ before with none | claim
    · cases none
    · exact fresh.unwanted (wanted _ claim)
  · have there : c.arrays.contains "management.declarations" = true := contains_eq_true.mpr array
    exact fresh.unwanted (fresh.arrays _ ((arrays _).symm.trans there)).1

theorem finish_exhausted : ∃ r, (p.within none).finish env = .ok r ∧ "management.declarations" ∈ r.unknownItems.keys := by
  have open' : "management.declarations" ∈
      (.insert p.wanted "management.declarations" () : OrdSet String).keys :=
    (OrdSet.mem_keys_insert _ _ _).mpr (.inl rfl)
  have all : ∃ declarations, (expectedOf p.set).mapM (fun d => do
      let native ← nativeState env (stateOf none) d.identifier
      .ok (⟨d.identifier, d.serverToken, d.kind, native⟩ : DeclarationProjection)) = (.ok declarations :
        Except Fault (List DeclarationProjection)) := by
    induction expectedOf p.set with
    | nil => exact ⟨[], rfl⟩
    | cons _ _ ih =>
      obtain ⟨others, made⟩ := ih
      exact ⟨_ :: others, by rw [List.mapM_cons, made]; rfl⟩
  obtain ⟨declarations, made⟩ := all
  unfold Projection.finish
  exact ⟨⟨.empty, _, declarations, [], false, _⟩, by rw [show (p.within none).set = p.set from rfl,
    show (p.within none).state = stateOf none from rfl, made]; rfl, open'⟩

end

variable {Context : Type} {env : Environment Context} {p : Projection} {set : DeclarationSet} {target : Context}
  {reports : List (ReportEvidence Context)}

/-- What the reports leave, with the budget tested after each of them. -/
def outcome (env : Environment Context) (p : Projection) (reports : List (ReportEvidence Context)) : Option Claims :=
  reports.foldl (budgeted env p) (some p.state.claims)

theorem outcome_some {c : Claims} (h : outcome env p reports = some c) : accumulated env p reports = c :=
  (foldl_spend_eq_some.mp h).1

theorem observeAll_outcome (fresh : Fresh env p) (accepted : ∀ e ∈ reports, Accepted env e) :
    p.observeAll env reports = .ok (p.within (outcome env p reports)) ∧
      ∀ c, outcome env p reports = some c → SameArrays p.state.claims c := by
  have run := observeAll_accepted (o := some p.state.claims) fresh.incremental
    (fun c is => (by cases is; exact fun _ => rfl)) accepted
  rw [fresh.within] at run
  exact run

theorem project_outcome (h : Projection.new env set target = .ok p) (accepted : ∀ e ∈ reports, Accepted env e) :
    project env set target reports = (p.within (outcome env p reports)).finish env := by
  unfold project
  rw [h, ok_bind, (observeAll_outcome (new_fresh h) accepted).1, ok_bind]

theorem project_eq_iff {other : List (ReportEvidence Context)} (h : Projection.new env set target = .ok p)
    (same : ∀ e, e ∈ other ↔ e ∈ reports) (accepted : ∀ e ∈ reports, Accepted env e) :
    project env set target other = project env set target reports ↔
      outcome env p other = outcome env p reports := by
  have fresh := new_fresh h
  have accepted' : ∀ e ∈ other, Accepted env e := fun e mem => accepted e ((same e).mp mem)
  rw [project_outcome h accepted, project_outcome h accepted']
  constructor
  · intro equal
    have wanted : ∀ {l c}, outcome env p l = some c → Wanted p c := by
      intro l c is
      rw [← outcome_some is]
      refine wanted_foldl fun name mem => ?_
      rw [fresh.claims] at mem
      cases mem
    have apart : ∀ {l c}, (∀ e ∈ l, Accepted env e) → outcome env p l = some c →
        (p.within none).finish env ≠ (p.within (some c)).finish env := by
      intro l c accepted is equal
      obtain ⟨r, read, mem⟩ : ∃ r, (p.within none).finish env = .ok r ∧
          "management.declarations" ∈ r.unknownItems.keys := finish_exhausted
      exact finish_within fresh (wanted is) ((observeAll_outcome fresh accepted).2 c is)
        (equal.symm.trans read) mem
    cases first : outcome env p other with
    | none =>
      cases second : outcome env p reports with
      | none => rfl
      | some =>
        rw [first, second] at equal
        exact absurd equal (apart accepted second)
    | some =>
      cases second : outcome env p reports with
      | none =>
        rw [first, second] at equal
        exact absurd equal.symm (apart accepted' first)
      | some =>
        rw [← outcome_some first, ← outcome_some second]
        exact congrArg some (absorb_settles.foldl_congr same _)
  · intro equal
    rw [equal]

end RssMdm.AppleMdm
