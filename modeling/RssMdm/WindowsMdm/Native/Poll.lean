/- module: WindowsMdm/Native/Poll
   source: crates/windows-mdm/src/provisioning/poll.rs, crates/windows-mdm/src/native/request.rs
   digest: DMClient polling schedules, the requests that write them and their two validators. -/

import Mathlib.Data.List.Nodup
import RssMdm.Lib.Json
import RssMdm.WindowsMdm.Native.Readback

set_option autoImplicit false

namespace RssMdm.WindowsMdm.Native

open Lib.Fallible Lib.Text
open Lib.Json (decimal)
open Std.TreeMap (contains_eq_isSome_getElem? getElem?_insert)

/-- The three native schedules and two native login triggers. -/
structure Poll where
  intervalForFirstSetOfRetries : UInt32
  numberOfFirstRetries : UInt32
  intervalForSecondSetOfRetries : UInt32
  numberOfSecondRetries : UInt32
  intervalForRemainingScheduledRetries : UInt32
  numberOfRemainingScheduledRetries : UInt32
  pollOnLogin : Bool
  allUsersPollOnFirstLogin : Bool
deriving DecidableEq

/-- The tiers in order; `infinite` is whether an earlier one never ends. -/
def validateTiers : Bool → List (UInt32 × UInt32) → Except CodecError Bool
  | infinite, [] => .ok infinite
  | infinite, (interval, count) :: rest =>
      if interval.toNat > 2 ^ 31 - 1 || count.toNat > 2 ^ 31 - 1 ||
          (interval = 0 && count ≠ 0) || (infinite && interval ≠ 0) then .error .invalidValue
      else validateTiers (infinite || (interval ≠ 0 && count = 0)) rest

/-- Bounded native integers, enabled tiers and a reachable infinite schedule. -/
def Poll.validate (p : Poll) : Except CodecError Unit := do
  let infinite ← validateTiers false
    [(p.intervalForFirstSetOfRetries, p.numberOfFirstRetries),
      (p.intervalForSecondSetOfRetries, p.numberOfSecondRetries),
      (p.intervalForRemainingScheduledRetries, p.numberOfRemainingScheduledRetries)]
  if !infinite || (p.intervalForSecondSetOfRetries ≠ 0 &&
      p.intervalForSecondSetOfRetries ≤ p.intervalForFirstSetOfRetries) then .error .invalidValue
  else .ok ()

def integerText (n : UInt32) : String := String.ofList (decimal n.toNat)

def booleanText (b : Bool) : String := if b then "true" else "false"

/-- The native parameter names, values and datatypes. -/
def Poll.parameters (p : Poll) : List (String × String × String) :=
  [("IntervalForFirstSetOfRetries", integerText p.intervalForFirstSetOfRetries, "integer"),
    ("NumberOfFirstRetries", integerText p.numberOfFirstRetries, "integer"),
    ("IntervalForSecondSetOfRetries", integerText p.intervalForSecondSetOfRetries, "integer"),
    ("NumberOfSecondRetries", integerText p.numberOfSecondRetries, "integer"),
    ("IntervalForRemainingScheduledRetries",
      integerText p.intervalForRemainingScheduledRetries, "integer"),
    ("NumberOfRemainingScheduledRetries",
      integerText p.numberOfRemainingScheduledRetries, "integer"),
    ("PollOnLogin", booleanText p.pollOnLogin, "boolean"),
    ("AllUsersPollOnFirstLogin", booleanText p.allUsersPollOnFirstLogin, "boolean")]

def pollNode (name : String) : String := "./Device/Vendor/MSFT/DMClient/Provider/*/Poll/" ++ name

def parameterValue (value kind : String) : Except Error Value :=
  if kind = "boolean" then .ok (.boolean (value = "true"))
  else match parseI64 value with
    | some n => .ok (.integer (Int64.ofInt n))
    | none => .error .value

/-- Replace a complete, validated native polling schedule. -/
def Request.pollSchedule (provider : String) (poll : Poll) : Except Error Request := do
  poll.validate.mapError (fun _ => Error.value)
  let operations ← poll.parameters.mapM fun (name, value, kind) => do
    let value ← parameterValue value kind
    .ok (Request.node (pollNode name) [provider] .replace (some value))
  .ok (.sequence operations)

/-- The stack of a validator; the members of a group are pushed in order, so the last one is on
top. -/
def popLoop {σ : Type} (visit : σ → String → List String → Verb → Option Value → Except Error σ) :
    Nat → List Request → σ → Except Error σ
  | _, [], s => .ok s
  | 0, _ :: _, _ => .error .limit
  | fuel + 1, request :: pending, s =>
      match request with
      | .atomic operations => popLoop visit fuel (operations.reverse ++ pending) s
      | .sequence operations => popLoop visit fuel (operations.reverse ++ pending) s
      | .node node instances operation value => do
          let s ← visit s node instances operation value
          popLoop visit fuel pending s

def providerVisit (provider : String) (_ : Unit) (node : String) (instances : List String)
    (operation : Verb) (value : Option Value) : Except Error Unit :=
  if contains node "/Vendor/MSFT/DMClient/Provider/*" && instances.head? ≠ some provider then
    .error .scope
  else if node = "./SyncML/DMAcc/*/ServerID" && (operation = .add || operation = .replace) &&
      value ≠ some (.text provider) then .error .scope
  else if node = "./Device/Vendor/MSFT/DMClient/Unenroll" && operation = .exec &&
      value ≠ some (.text provider) then .error .scope
  else .ok ()

/-- A schema-valid dynamic identity alone does not authorize another provider. -/
def Request.validateProvider (r : Request) (provider : String) : Except Error Unit := do
  let _ ← r.commandCount
  popLoop (providerVisit provider) r.size [r] ()

/-- A leaf that the schedule check collects. -/
def setsPoll (node : String) (operation : Verb) : Bool :=
  contains node "/DMClient/Provider/*/Poll/" && operation ≠ .get

def lastComponent (node : String) : String := ((splitAt node '/').getLast?).getD ""

def pollVisit (parameters : Std.TreeMap String Value) (node : String) (_ : List String)
    (operation : Verb) (value : Option Value) : Except Error (Std.TreeMap String Value) :=
  if setsPoll node operation then
    if operation ≠ .replace then .error .value
    else match value with
      | none => .error .value
      | some v =>
          if parameters.contains (lastComponent node) then .error .value
          else .ok (parameters.insert (lastComponent node) v)
  else .ok parameters

def integerParameter (parameters : Std.TreeMap String Value) (name : String) :
    Except Error UInt32 :=
  match parameters[name]? with
  | some (.integer v) =>
      if 0 ≤ v.toInt ∧ v.toInt < 2 ^ 32 then .ok (UInt32.ofNat v.toInt.toNat) else .error .value
  | _ => .error .value

def booleanParameter (parameters : Std.TreeMap String Value) (name : String) :
    Except Error Bool :=
  match parameters[name]? with
  | some (.boolean v) => .ok v
  | _ => .error .value

/-- The schedule that the collected parameters spell. -/
def readPoll (parameters : Std.TreeMap String Value) : Except Error Poll := do
  let firstInterval ← integerParameter parameters "IntervalForFirstSetOfRetries"
  let firstNumber ← integerParameter parameters "NumberOfFirstRetries"
  let secondInterval ← integerParameter parameters "IntervalForSecondSetOfRetries"
  let secondNumber ← integerParameter parameters "NumberOfSecondRetries"
  let remainingInterval ← integerParameter parameters "IntervalForRemainingScheduledRetries"
  let remainingNumber ← integerParameter parameters "NumberOfRemainingScheduledRetries"
  let pollOnLogin ← booleanParameter parameters "PollOnLogin"
  let allUsers ← booleanParameter parameters "AllUsersPollOnFirstLogin"
  .ok ⟨firstInterval, firstNumber, secondInterval, secondNumber, remainingInterval,
    remainingNumber, pollOnLogin, allUsers⟩

/-- Schedule changes are a complete tuple. -/
def Request.validatePoll (r : Request) : Except Error Unit := do
  let parameters ← popLoop pollVisit r.size [r] ∅
  if parameters.isEmpty then .ok ()
  else do
    let poll ← readPoll parameters
    if parameters.size ≠ 8 then .error .value
    else poll.validate.mapError (fun _ => Error.value)

variable {σ : Type} (visit : σ → String → List String → Verb → Option Value → Except Error σ)

def visitLeaf (s : σ) : Request → Except Error σ
  | .node node instances operation value => visit s node instances operation value
  | _ => .ok s

theorem leavesOf_eq_flatMap (rs : List Request) :
    leavesOf rs = rs.flatMap Request.leafRequests := by
  induction rs with
  | nil => rfl
  | cons _ _ ih => rw [leavesOf, ih, List.flatMap_cons]

/-- The leaves of a stack in the order in which they are popped. -/
def popped (pending : List Request) : List Request :=
  pending.flatMap (fun r => r.leafRequests.reverse)

theorem popped_reverse (operations : List Request) :
    popped operations.reverse = (leavesOf operations).reverse := by
  rw [leavesOf_eq_flatMap, List.reverse_flatMap]
  rfl

theorem popLoop_eq {fuel : Nat} {pending : List Request} (enough : requestsSize pending ≤ fuel)
    (s : σ) : popLoop visit fuel pending s = (popped pending).foldlM (visitLeaf visit) s := by
  induction fuel generalizing pending s with
  | zero =>
    cases pending with
    | nil => rfl
    | cons r =>
      have positive := r.size_pos
      rw [requestsSize] at enough
      omega
  | succ fuel ih =>
    cases pending with
    | nil => rfl
    | cons r pending =>
      have group : ∀ operations : List Request, r.size = 1 + requestsSize operations →
          r.leafRequests = leavesOf operations →
          popLoop visit fuel (operations.reverse ++ pending) s =
            (popped (r :: pending)).foldlM (visitLeaf visit) s := by
        intro operations size leaves
        rw [requestsSize, size] at enough
        have fits : requestsSize (operations.reverse ++ pending) ≤ fuel := by
          rw [requestsSize_append, requestsSize_reverse]
          omega
        have first : popped (r :: pending) = popped operations.reverse ++ popped pending := by
          rw [popped_reverse, ← leaves]
          rfl
        rw [ih fits, first, popped, List.flatMap_append]
        rfl
      cases r with
      | atomic operations | sequence operations => exact group operations rfl rfl
      | node node instances operation value =>
        rw [requestsSize, Request.size] at enough
        exact congrArg _ (funext fun t => ih (by omega) t)

theorem popLoop_request (r : Request) (s : σ) :
    popLoop visit r.size [r] s = r.leafRequests.reverse.foldlM (visitLeaf visit) s := by
  have enough : requestsSize [r] ≤ r.size := by rw [requestsSize, requestsSize, Nat.add_zero]
  have all : popped [r] = r.leafRequests.reverse := by
    rw [popped, List.flatMap_cons, List.flatMap_nil, List.append_nil]
  rw [popLoop_eq visit enough, all]

def pollNames : List String :=
  ["IntervalForFirstSetOfRetries", "NumberOfFirstRetries", "IntervalForSecondSetOfRetries",
    "NumberOfSecondRetries", "IntervalForRemainingScheduledRetries",
    "NumberOfRemainingScheduledRetries", "PollOnLogin", "AllUsersPollOnFirstLogin"]

def Poll.settings (p : Poll) : List (String × Value) :=
  [("IntervalForFirstSetOfRetries",
      .integer (Int64.ofInt p.intervalForFirstSetOfRetries.toNat)),
    ("NumberOfFirstRetries", .integer (Int64.ofInt p.numberOfFirstRetries.toNat)),
    ("IntervalForSecondSetOfRetries",
      .integer (Int64.ofInt p.intervalForSecondSetOfRetries.toNat)),
    ("NumberOfSecondRetries", .integer (Int64.ofInt p.numberOfSecondRetries.toNat)),
    ("IntervalForRemainingScheduledRetries",
      .integer (Int64.ofInt p.intervalForRemainingScheduledRetries.toNat)),
    ("NumberOfRemainingScheduledRetries",
      .integer (Int64.ofInt p.numberOfRemainingScheduledRetries.toNat)),
    ("PollOnLogin", .boolean p.pollOnLogin),
    ("AllUsersPollOnFirstLogin", .boolean p.allUsersPollOnFirstLogin)]

theorem Poll.settings_names (p : Poll) : p.settings.map Prod.fst = pollNames := rfl

theorem pollNames_nodup : pollNames.Nodup := by decide

theorem pollNames_clean : ∀ name ∈ pollNames, '/' ∉ name.toList := by decide

theorem contains_append (start part rest : String) :
    contains (start ++ part ++ rest) part = true := by
  have whole : (start ++ part ++ rest).toList = start.toList ++ part.toList ++ rest.toList := by
    rw [String.toList_append, String.toList_append]
  exact contains_of_infix whole

theorem component_of_contains {s : String} {part : List Char} (single : '/' ∉ part)
    (inside : contains s (String.ofList ('/' :: part ++ ['/'])) = true) :
    String.ofList part ∈ splitAt s '/' := by
  obtain ⟨rest, tail, front⟩ := List.any_eq_true.mp inside
  obtain ⟨start, whole⟩ := (List.mem_tails _ _).mp tail
  obtain ⟨last, more⟩ := List.isPrefixOf_iff_prefix.mp front
  have split : s.toList = start ++ '/' :: (part ++ '/' :: last) := by
    rw [← whole, ← more]
    simp
  rw [splitAt, split, List.splitOn_append_cons_self, List.splitOn_append_cons_self,
    List.splitOn_eq_singleton single]
  exact List.mem_map_of_mem
    (List.mem_append_right _ (List.mem_append_left _ (List.mem_singleton_self part)))

def pollFolder : String := "./Device/Vendor/MSFT/DMClient/Provider/*/Poll/"

theorem pollNode_eq (name : String) : pollNode name = pollFolder ++ name := rfl

variable {name : String}

theorem splitAt_append (start : String) (clean : '/' ∉ name.toList) :
    splitAt (start ++ "/" ++ name) '/' = splitAt start '/' ++ [name] := by
  have split : (start ++ "/" ++ name).toList = start.toList ++ '/' :: name.toList := by
    rw [String.toList_append, String.toList_append, List.append_assoc]
    rfl
  rw [splitAt, split, List.splitOn_append_cons_self, List.splitOn_eq_singleton clean,
    List.map_append, List.map_singleton, String.ofList_toList]
  rfl

theorem splitAt_pollNode (clean : '/' ∉ name.toList) :
    splitAt (pollNode name) '/' =
      [".", "Device", "Vendor", "MSFT", "DMClient", "Provider", "*", "Poll", name] := by
  have front : pollFolder = "./Device/Vendor/MSFT/DMClient/Provider/*/Poll" ++ "/" := by decide
  have parts : splitAt "./Device/Vendor/MSFT/DMClient/Provider/*/Poll" '/' =
      [".", "Device", "Vendor", "MSFT", "DMClient", "Provider", "*", "Poll"] := by decide
  rw [pollNode_eq, front, splitAt_append _ clean, parts]
  rfl

theorem lastComponent_pollNode (clean : '/' ∉ name.toList) :
    lastComponent (pollNode name) = name := by
  rw [lastComponent, splitAt_pollNode clean]
  rfl

theorem pollNames_ordinary : ∀ name ∈ pollNames, declaredNode (pollNode name) = false := by
  intro name member
  rw [Bool.eq_false_iff]
  intro declared
  have text : "/DeclaredConfiguration/" =
      String.ofList ('/' :: "DeclaredConfiguration".toList ++ ['/']) := by decide
  rw [declaredNode, text] at declared
  have component := component_of_contains (by decide) declared
  rw [String.ofList_toList, splitAt_pollNode (pollNames_clean name member)] at component
  have folder : "DeclaredConfiguration" ∉
      [".", "Device", "Vendor", "MSFT", "DMClient", "Provider", "*", "Poll"] := by decide
  have names : "DeclaredConfiguration" ∉ pollNames := by decide
  rcases List.mem_append.mp (show _ ∈ [".", "Device", "Vendor", "MSFT", "DMClient", "Provider", "*",
    "Poll"] ++ [name] from component) with inside | own
  · exact folder inside
  · exact names (List.mem_singleton.mp own ▸ member)

theorem contains_pollNode (name : String) :
    contains (pollNode name) "/DMClient/Provider/*/Poll/" = true := by
  have front : pollFolder = "./Device/Vendor/MSFT" ++ "/DMClient/Provider/*/Poll/" := by decide
  rw [pollNode_eq, front]
  exact contains_append _ _ _

theorem contains_provider (name : String) :
    contains (pollNode name) "/Vendor/MSFT/DMClient/Provider/*" = true := by
  have front : pollFolder = "./Device" ++ "/Vendor/MSFT/DMClient/Provider/*" ++ "/Poll/" := by
    decide
  rw [pollNode_eq, front, String.append_assoc]
  exact contains_append _ _ _

structure Sets (node : String) (operation : Verb) (value : Option Value) (kv : String × Value) :
    Prop where
  replaces : operation = .replace
  name : lastComponent node = kv.1
  value : value = some kv.2

/-- A leaf as the schedule check sees it. -/
def visitPoll (parameters : Std.TreeMap String Value) (l : Leaf) :
    Except Error (Std.TreeMap String Value) :=
  pollVisit parameters l.node l.instances l.operation l.value

def Leaf.setsPoll (l : Leaf) : Bool := Native.setsPoll l.node l.operation

theorem visitPoll_skips {l : Leaf} (other : l.setsPoll = false)
    (parameters : Std.TreeMap String Value) : visitPoll parameters l = .ok parameters := by
  have skips : Native.setsPoll l.node l.operation = false := other
  unfold visitPoll pollVisit
  rw [skips]
  rfl

variable {parameters : Std.TreeMap String Value}

theorem visitPoll_eq_ok {l : Leaf} (sets : l.setsPoll = true) {next : Std.TreeMap String Value} :
    visitPoll parameters l = .ok next ↔ ∃ kv, Sets l.node l.operation l.value kv ∧
      parameters[kv.1]? = none ∧ next = parameters.insert kv.1 kv.2 := by
  have collected : Native.setsPoll l.node l.operation = true := sets
  unfold visitPoll pollVisit
  rw [if_pos collected, guard_eq_ok, not_not]
  constructor
  · rintro ⟨replaces, h⟩
    split at h
    · cases h
    rename_i v given
    rw [guard_eq_ok] at h
    obtain ⟨fresh, h⟩ := h
    cases h
    refine ⟨(lastComponent l.node, v), ⟨replaces, rfl, given⟩, ?_, rfl⟩
    simpa using fresh
  · rintro ⟨⟨k, v⟩, ⟨replaces, name, given⟩, fresh, rfl⟩
    refine ⟨replaces, ?_⟩
    rw [given]
    dsimp only
    have unknown : ¬ parameters.contains k = true := by
      rw [contains_eq_isSome_getElem?, fresh]
      simp
    rw [name, if_neg unknown]

structure Collected (start : Std.TreeMap String Value) (ls : List Leaf)
    (done : Std.TreeMap String Value) (settings : List (String × Value)) : Prop where
  leaves : List.Forall₂ (fun l kv => Sets l.node l.operation l.value kv)
    (ls.filter Leaf.setsPoll) settings
  nodup : (settings.map Prod.fst).Nodup
  fresh : ∀ kv ∈ settings, start[kv.1]? = none
  entry : ∀ k v, done[k]? = some v ↔ (k, v) ∈ settings ∨ start[k]? = some v
  size : done.size = start.size + settings.length

theorem getElem?_insert_iff {k k' : String} {v v' : Value} (fresh : parameters[k]? = none) :
    (parameters.insert k v)[k']? = some v' ↔
      (k', v') = (k, v) ∨ parameters[k']? = some v' := by
  rw [getElem?_insert]
  by_cases same : k = k'
  · subst same
    rw [if_pos (Std.LawfulEqOrd.compare_eq_iff_eq.mpr rfl), fresh]
    simp [eq_comm]
  have other : ¬ compare k k' = .eq := fun equal =>
    same (Std.LawfulEqOrd.compare_eq_iff_eq.mp equal)
  have apart : ¬ k' = k := fun equal => same equal.symm
  rw [if_neg other]
  simp [apart]

variable {start : Std.TreeMap String Value}

theorem foldlM_visitPoll {ls : List Leaf} {done : Std.TreeMap String Value} :
    ls.foldlM visitPoll start = .ok done → ∃ settings, Collected start ls done settings := by
  induction ls generalizing start with
  | nil =>
    intro h
    cases h
    exact ⟨[], .nil, List.nodup_nil, fun _ none => absurd none List.not_mem_nil,
      fun k v => by simp, by simp⟩
  | cons l ls ih =>
    intro h
    obtain ⟨next, step, rest⟩ := of_bind h
    by_cases sets : l.setsPoll = true
    · obtain ⟨kv, own, fresh, rfl⟩ := (visitPoll_eq_ok sets).mp step
      obtain ⟨settings, collected⟩ := ih rest
      have later : ∀ other ∈ settings, other.1 ≠ kv.1 ∧ start[other.1]? = none := by
        intro other member
        have unknown := collected.fresh other member
        rw [getElem?_insert] at unknown
        by_cases same : kv.1 = other.1
        · rw [if_pos (Std.LawfulEqOrd.compare_eq_iff_eq.mpr same)] at unknown
          cases unknown
        · rw [if_neg (fun equal => same (Std.LawfulEqOrd.compare_eq_iff_eq.mp equal))] at unknown
          exact ⟨fun equal => same equal.symm, unknown⟩
      refine ⟨kv :: settings, ?_, ?_, ?_, ?_, ?_⟩
      · rw [List.filter_cons_of_pos sets]
        exact .cons own collected.leaves
      · rw [List.map_cons, List.nodup_cons]
        refine ⟨fun member => ?_, collected.nodup⟩
        obtain ⟨other, inside, same⟩ := List.mem_map.mp member
        exact (later other inside).1 same
      · intro other member
        rcases List.mem_cons.mp member with rfl | inside
        · exact fresh
        · exact (later other inside).2
      · intro k v
        rw [collected.entry, getElem?_insert_iff fresh, List.mem_cons]
        exact ⟨fun h => by tauto, fun h => by tauto⟩
      · have unknown : ¬ start.contains kv.1 = true := by
          rw [contains_eq_isSome_getElem?, fresh]
          simp
        rw [collected.size, Std.TreeMap.size_insert, if_neg unknown, List.length_cons]
        omega
    · have other : l.setsPoll = false := Bool.eq_false_iff.mpr sets
      rw [visitPoll_skips other] at step
      cases step
      obtain ⟨settings, collected⟩ := ih rest
      refine ⟨settings, ?_, collected.nodup, collected.fresh, collected.entry, collected.size⟩
      rw [List.filter_cons_of_neg sets]
      exact collected.leaves

theorem foldlM_visitPoll_of {ls : List Leaf} {settings : List (String × Value)}
    (leaves : List.Forall₂ (fun l kv => l.setsPoll = true ∧ Sets l.node l.operation l.value kv) ls settings)
    (nodup : (settings.map Prod.fst).Nodup) (fresh : ∀ kv ∈ settings, start[kv.1]? = none) :
    ∃ done, ls.foldlM visitPoll start = .ok done := by
  induction leaves generalizing start with
  | nil => exact ⟨start, rfl⟩
  | @cons l kv _ settings own _ ih =>
    rw [List.map_cons, List.nodup_cons] at nodup
    have step : visitPoll start l = .ok (start.insert kv.1 kv.2) :=
      (visitPoll_eq_ok own.1).mpr ⟨kv, own.2, fresh kv (.head _), rfl⟩
    have later : ∀ other ∈ settings, (start.insert kv.1 kv.2)[other.1]? = none := by
      intro other member
      have differs : ¬ compare kv.1 other.1 = .eq := by
        intro equal
        have same := Std.LawfulEqOrd.compare_eq_iff_eq.mp equal
        exact nodup.1 (List.mem_map.mpr ⟨other, member, same.symm⟩)
      rw [getElem?_insert, if_neg differs]
      exact fresh other (List.mem_cons_of_mem kv member)
    obtain ⟨done, rest⟩ := ih nodup.2 later
    refine ⟨done, ?_⟩
    rw [List.foldlM_cons, step]
    exact rest

theorem integerParameter_eq_ok {n : UInt32} :
    integerParameter parameters name = .ok n ↔
      parameters[name]? = some (.integer (Int64.ofInt n.toNat)) := by
  have small := n.toNat_lt
  have back : (Int64.ofInt n.toNat).toInt = n.toNat :=
    Int64.toInt_ofInt_of_le (by omega) (by omega)
  unfold integerParameter
  split
  · rename_i v found
    rw [found]
    constructor
    · intro h
      split at h
      · rename_i range
        have fits : v.toInt.toNat < 2 ^ 32 := by omega
        have whole : (UInt32.ofNat v.toInt.toNat).toNat = v.toInt.toNat :=
          UInt32.toNat_ofNat_of_lt' fits
        have same : ((v.toInt.toNat : Nat) : Int) = v.toInt := by omega
        cases h
        rw [whole, same, Int64.ofInt_toInt]
      · cases h
    · intro h
      cases h
      have range : 0 ≤ (Int64.ofInt n.toNat).toInt ∧ (Int64.ofInt n.toNat).toInt < 2 ^ 32 := by
        omega
      rw [if_pos range, back, Int.toNat_natCast, UInt32.ofNat_toNat]
  · rename_i other
    constructor
    · intro h
      cases h
    · intro found
      exact absurd found (other _)

theorem booleanParameter_eq_ok {b : Bool} :
    booleanParameter parameters name = .ok b ↔ parameters[name]? = some (.boolean b) := by
  unfold booleanParameter
  split
  · rename_i v found
    rw [found]
    simp
  rename_i other
  constructor
  · intro h
    cases h
  · intro found
    exact absurd found (other b)

theorem readPoll_eq_ok {poll : Poll} :
    readPoll parameters = .ok poll ↔ ∀ kv ∈ poll.settings, parameters[kv.1]? = some kv.2 := by
  simp only [readPoll, bind_eq_ok, integerParameter_eq_ok, booleanParameter_eq_ok, Poll.settings,
    List.mem_cons, List.not_mem_nil, or_false, forall_eq_or_imp, forall_eq]
  constructor
  · rintro ⟨a, ha, b, hb, c, hc, d, hd, e, he, f, hf, g, hg, i, hi, h⟩
    cases h
    exact ⟨ha, hb, hc, hd, he, hf, hg, hi⟩
  · rintro ⟨ha, hb, hc, hd, he, hf, hg, hi⟩
    exact ⟨_, ha, _, hb, _, hc, _, hd, _, he, _, hf, _, hg, _, hi, rfl⟩

end RssMdm.WindowsMdm.Native
