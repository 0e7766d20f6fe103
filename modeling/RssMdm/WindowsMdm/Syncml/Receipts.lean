/- module: WindowsMdm/Syncml/Receipts
   source: crates/windows-mdm/src/syncml/correlation.rs, crates/windows-mdm/src/syncml.rs
   digest: A message that is admitted for sending leaves room for every receipt of it. -/

import RssMdm.WindowsMdm.Syncml.Fragment
import RssMdm.WindowsMdm.Syncml.RoundTrip

set_option autoImplicit false

namespace RssMdm.WindowsMdm.Syncml

open Lib.Fallible
open WindowsMdm.Xml (Escape)

/-- What a status counts for against the item budget. -/
def Status.weight (s : Status) : Nat := s.items.length + s.targetRefs.length + s.sourceRefs.length

def Command.weight : Command → Nat
  | .status s => s.weight
  | .results r => r.items.length
  | _ => 0

def weights (body : List Command) : Nat := (body.map Command.weight).sum

def Command.isReceipt : Command → Bool
  | .status _ | .results _ => true
  | _ => false

/-- At most so many statuses, each with at most so many references, and so many results of one item. -/
def Receipts (statuses references results : Nat) (body : List Command) : Prop :=
  ∃ (ss : List Status) (rs : List Results), body = ss.map Command.status ++ rs.map Command.results ∧
    ss.length ≤ statuses ∧ rs.length ≤ results ∧ (∀ s ∈ ss, s.weight ≤ references) ∧ ∀ r ∈ rs, r.items.length ≤ 1

/-- What a device may send for one command. -/
def Command.Answered : Command → List Command → Prop
  | .get _ _ items => Receipts items.length 1 items.length
  | .add _ _ items | .replace _ _ items | .delete _ _ items | .exec _ _ items =>
      Receipts items.length 1 0
  | .atomic _ _ | .sequence _ _ => Receipts 1 0 0
  | .alert _ _ => Receipts 2 0 0
  | .status _ | .results _ | .devInfo _ _ => Receipts 0 0 0

/-- The status of the header and the receipts of the commands, in any order. -/
def AnswersAll (flat body : List Command) : Prop :=
  ∃ header parts, header.weight = 0 ∧ List.Forall₂ Command.Answered flat parts ∧
    body.Perm (.status header :: parts.flatten)

section

variable {body : List Command}

theorem receipt_cases {c : Command} (receipt : c.isReceipt = true) :
    (∃ s, c = .status s) ∨ ∃ r, c = .results r := by
  cases c with
  | status s => exact .inl ⟨s, rfl⟩
  | results r => exact .inr ⟨r, rfl⟩
  | _ => cases receipt

theorem weights_append (a b : List Command) : weights (a ++ b) = weights a + weights b := by
  rw [weights, List.map_append, List.sum_append, weights, weights]

theorem weights_le {n : Nat} (light : ∀ c ∈ body, c.weight ≤ n) : weights body ≤ body.length * n := by
  induction body with
  | nil => exact Nat.zero_le _
  | cons c _ ih =>
    have first := light c (.head _)
    have later := ih (fun c mem => light c (.tail _ mem))
    rw [List.length_cons, Nat.succ_mul]
    exact (Nat.add_le_add first later).trans (Nat.le_of_eq (Nat.add_comm _ _))

theorem Receipts.counts {statuses references results : Nat}
    (h : Receipts statuses references results body) :
    body.length ≤ statuses + results ∧ weights body ≤ statuses * references + results ∧
      ∀ c ∈ body, c.isReceipt = true := by
  obtain ⟨ss, rs, rfl, few, few', light, single⟩ := h
  have first : weights (ss.map Command.status) ≤ (ss.map Command.status).length * references := by
    apply weights_le
    intro c mem
    obtain ⟨s, there, rfl⟩ := List.mem_map.mp mem
    exact light s there
  have second : weights (rs.map Command.results) ≤ (rs.map Command.results).length * 1 := by
    apply weights_le
    intro c mem
    obtain ⟨r, there, rfl⟩ := List.mem_map.mp mem
    exact single r there
  rw [List.length_map] at first second
  refine ⟨?_, ?_, ?_⟩
  · rw [List.length_append, List.length_map, List.length_map]
    omega
  · have scaled := Nat.mul_le_mul_right references few
    rw [weights_append]
    omega
  · intro c mem
    rcases List.mem_append.mp mem with mem | mem <;> obtain ⟨x, -, rfl⟩ := List.mem_map.mp mem <;> rfl

theorem Command.Answered.estimated {c : Command} (answered : c.Answered body) {n : Nat × Nat}
    (estimate : receipts c = .ok n) :
    body.length ≤ n.1 ∧ weights body ≤ n.2 ∧ ∀ c ∈ body, c.isReceipt = true := by
  obtain ⟨few, light, receipt⟩ : body.length ≤ n.1 ∧ weights body ≤ n.2 ∧ _ := by
    cases c <;> cases estimate <;> obtain ⟨few, light, receipt⟩ := Receipts.counts answered <;>
      exact ⟨by omega, by omega, receipt⟩
  exact ⟨few, light, receipt⟩

theorem estimate_covers {l : CodecLimits} {flat : List Command} {parts : List (List Command)}
    (answered : List.Forall₂ Command.Answered flat parts) {counted total : Nat × Nat}
    (h : flat.foldlM (addReceipts l) counted = .ok total) (commands : counted.1 ≤ l.commands)
    (items : counted.2 ≤ l.items) :
    counted.1 + parts.flatten.length ≤ l.commands ∧ counted.2 + weights parts.flatten ≤ l.items ∧
      ∀ c ∈ parts.flatten, c.isReceipt = true := by
  induction answered generalizing counted with
  | nil => exact ⟨commands, items, by simp⟩
  | @cons c part flat parts head _ ih =>
    rw [List.foldlM_cons] at h
    obtain ⟨next, first, h⟩ := of_bind h
    obtain ⟨n, estimate, first⟩ := of_bind first
    obtain ⟨more, first⟩ := of_check first
    obtain ⟨more', first⟩ := of_check first
    cases first
    obtain ⟨few, light, receipt⟩ := head.estimated estimate
    obtain ⟨few', light', receipt'⟩ := ih h (bound_eq_ok.mp more) (bound_eq_ok.mp more')
    simp only at few' light'
    rw [List.flatten_cons, List.length_append, weights_append]
    refine ⟨by omega, by omega, ?_⟩
    intro c mem
    rcases List.mem_append.mp mem with mem | mem
    · exact receipt c mem
    · exact receipt' c mem

end

section

variable {d : Decoders} {l : CodecLimits} {body : List Command} {commands items : Nat}

theorem flattened_receipts (receipt : ∀ c ∈ body, c.isReceipt = true) (few : body.length ≤ l.commands) :
    flattened body l = .ok body := by
  have general : ∀ (rest output : List Command), (∀ c ∈ rest, c.isReceipt = true) →
      output.length + rest.length ≤ l.commands →
      flattenLoop l (forestSize rest) (rest.map (fun c => ⟨c, 0, none⟩)) output [] =
        .ok (output ++ rest) := by
    intro rest
    induction rest with
    | nil =>
      intro output _ _
      simp [flattenLoop, forestSize]
    | cons c rest ih =>
      intro output receipt few
      have head := receipt c (.head _)
      have leaf : c.size = 1 ∧ flattenVisit ⟨c, 0, none⟩ [] = .ok [] ∧ c.children = [] := by
        rcases receipt_cases head with ⟨s, rfl⟩ | ⟨r, rfl⟩ <;> exact ⟨rfl, rfl, rfl⟩
      obtain ⟨one, visit, leaf⟩ := leaf
      have size : forestSize (c :: rest) = forestSize rest + 1 := by rw [forestSize, one, Nat.add_comm]
      have later := ih (output ++ [c]) (fun c mem => receipt c (.tail _ mem))
        (by simpa [Nat.add_assoc, Nat.add_comm 1] using few)
      have room : bound (output.length + rest.length + 1) l.commands = .ok () :=
        bound_eq_ok.mpr few
      rw [size, List.map_cons, flattenLoop, bound_eq_ok.mpr (Nat.zero_le _), ok_bind, List.length_map,
        room, ok_bind, visit, ok_bind]
      simp only [Pending.children, leaf, List.length_nil, Nat.add_zero, List.map_nil, List.nil_append]
      rw [room, ok_bind, later, List.append_assoc, List.singleton_append]
  rw [flattened, bound_eq_ok.mpr few, ok_bind]
  exact general body [] receipt (by simpa using few)

theorem validateRefs_budget {refs : List String}
    (valid : validateRefs { l with commands := commands, items := items } refs = .ok ())
    (few : refs.length ≤ l.items) : validateRefs l refs = .ok () := by
  obtain ⟨-, fresh⟩ := of_check valid
  exact check_bind_eq_ok.mpr ⟨bound_eq_ok.mpr few, fresh⟩

theorem validateStatus_budget {s : Status} {n : Nat}
    (valid : validateStatus d s { l with commands := commands, items := items } = .ok n)
    (light : s.weight ≤ l.items) : validateStatus d s l = .ok s.weight := by
  unfold Status.weight at light
  obtain ⟨credential, valid⟩ := of_check valid
  obtain ⟨challenge, valid⟩ := of_check valid
  obtain ⟨coordinates, valid⟩ := of_guard valid
  obtain ⟨refs, valid⟩ := of_check valid
  obtain ⟨-, valid⟩ := of_check valid
  obtain ⟨details, -⟩ := of_check valid
  have referenced : each (validateRefs l) [s.targetRefs, s.sourceRefs] = .ok () := by
    rw [each_eq_ok] at refs ⊢
    intro r mem
    refine validateRefs_budget (refs r mem) ?_
    rcases List.mem_pair.mp mem with rfl | rfl <;> omega
  refine check_bind_eq_ok.mpr ⟨credential, check_bind_eq_ok.mpr ⟨challenge, guard_eq_ok.mpr
    ⟨coordinates, check_bind_eq_ok.mpr ⟨referenced, check_bind_eq_ok.mpr ⟨bound_eq_ok.mpr (by omega),
      check_bind_eq_ok.mpr ⟨details, rfl⟩⟩⟩⟩⟩⟩

theorem validateResults_budget {r : Results}
    (valid : validateResults r { l with commands := commands, items := items } = .ok ())
    (few : r.items.length ≤ l.items) : validateResults r l = .ok () := by
  obtain ⟨coordinates, valid⟩ := of_guard valid
  obtain ⟨described, valid⟩ := of_check valid
  obtain ⟨present, valid⟩ := of_guard valid
  obtain ⟨-, valid⟩ := of_check valid
  exact guard_eq_ok.mpr ⟨coordinates, check_bind_eq_ok.mpr ⟨described, guard_eq_ok.mpr ⟨present,
    check_bind_eq_ok.mpr ⟨bound_eq_ok.mpr few, valid⟩⟩⟩⟩

theorem validateCommand_budget {c : Command} (receipt : c.isReceipt = true) {n : Nat}
    (valid : validateCommand d { l with commands := commands, items := items } c = .ok n) :
    n = c.weight ∧ (c.weight ≤ l.items → validateCommand d l c = .ok c.weight) := by
  rcases receipt_cases receipt with ⟨s, rfl⟩ | ⟨r, rfl⟩
  · have weight : n = s.weight := by
      obtain ⟨-, valid⟩ := of_check valid
      obtain ⟨-, valid⟩ := of_check valid
      obtain ⟨-, valid⟩ := of_guard valid
      obtain ⟨-, valid⟩ := of_check valid
      obtain ⟨-, valid⟩ := of_check valid
      obtain ⟨-, valid⟩ := of_check valid
      exact (Except.ok.inj valid).symm
    exact ⟨weight, validateStatus_budget valid⟩
  · obtain ⟨sound, valid⟩ := of_check valid
    exact ⟨(Except.ok.inj valid).symm, fun few =>
      check_bind_eq_ok.mpr ⟨validateResults_budget sound few, rfl⟩⟩

theorem bodyLoop_budget (receipt : ∀ c ∈ body, c.isReceipt = true) {ids : List UInt32} {count : Nat}
    (valid : bodyLoop d { l with commands := commands, items := items } ids count body = .ok ())
    (light : count + weights body ≤ l.items) : bodyLoop d l ids count body = .ok () := by
  induction body generalizing ids count with
  | nil => rfl
  | cons c rest ih =>
    have split : weights (c :: rest) = c.weight + weights rest := rfl
    rw [bodyLoop] at valid ⊢
    obtain ⟨numbered, valid⟩ := of_guard valid
    obtain ⟨fresh, valid⟩ := of_guard valid
    obtain ⟨n, checked, valid⟩ := of_bind valid
    obtain ⟨-, valid⟩ := of_check valid
    obtain ⟨rfl, within⟩ := validateCommand_budget (receipt c (.head _)) checked
    refine guard_eq_ok.mpr ⟨numbered, guard_eq_ok.mpr ⟨fresh, bind_eq_ok.mpr ⟨c.weight,
      within (by omega), check_bind_eq_ok.mpr ⟨bound_eq_ok.mpr (by omega), ?_⟩⟩⟩⟩
    exact ih (fun c mem => receipt c (.tail _ mem)) valid (by omega)

theorem validate_budget {m : Message} (receipt : ∀ c ∈ m.commands, c.isReceipt = true)
    (few : m.commands.length ≤ l.commands) (light : weights m.commands ≤ l.items)
    (valid : validate d m { l with commands := commands, items := items } = .ok ()) :
    validate d m l = .ok () := by
  have flat := flattened_receipts receipt few
  obtain ⟨coordinates, valid⟩ := of_guard valid
  obtain ⟨target, valid⟩ := of_check valid
  obtain ⟨source, valid⟩ := of_check valid
  obtain ⟨described, valid⟩ := of_check valid
  obtain ⟨credential, valid⟩ := of_check valid
  obtain ⟨final, valid⟩ := of_check valid
  obtain ⟨fewer, valid⟩ := of_check valid
  obtain ⟨present, valid⟩ := of_guard valid
  obtain ⟨flat', flat'', valid⟩ := of_bind valid
  cases (flattened_receipts receipt (bound_eq_ok.mp fewer)).symm.trans flat''
  obtain ⟨looped, valid⟩ := of_check valid
  have finished : validateFinal m l = .ok () := by
    unfold validateFinal at final ⊢
    split at final
    · rename_i last
      obtain ⟨flat', flat''', final⟩ := of_bind final
      cases flat''.symm.trans flat'''
      rw [if_pos last, flat]
      exact final
    · rename_i last
      rw [if_neg last]
  refine guard_eq_ok.mpr ⟨coordinates, check_bind_eq_ok.mpr ⟨target, check_bind_eq_ok.mpr ⟨source,
    check_bind_eq_ok.mpr ⟨described, check_bind_eq_ok.mpr ⟨credential, check_bind_eq_ok.mpr ⟨finished,
      check_bind_eq_ok.mpr ⟨bound_eq_ok.mpr few, guard_eq_ok.mpr ⟨present, bind_eq_ok.mpr
        ⟨m.commands, flat, check_bind_eq_ok.mpr ⟨bodyLoop_budget receipt looped (by omega), valid⟩⟩⟩⟩⟩⟩⟩⟩⟩⟩

end

/-- Every valid answer to a message that was admitted for sending is within the command and item
budgets it was admitted under. -/
theorem receipts_fit {escape : Escape} {d : Decoders} {m : Message} {l : CodecLimits} {bytes : ByteArray}
    (admitted : encodeOutbound escape d m l = .ok bytes) {response : Message}
    (answers : AnswersAll ((preorderForest 0 none m.commands).map Prod.fst) response.commands)
    {commands items : Nat}
    (valid : validate d response { l with commands := commands, items := items } = .ok ()) :
    validate d response l = .ok () := by
  obtain ⟨flat, flattens, admitted⟩ := of_bind admitted
  obtain ⟨total, estimate, encoded⟩ := of_bind admitted
  obtain ⟨header, parts, bare, answered, perm⟩ := answers
  rw [← (flattened_eq_ok flattens).1] at answered
  have room : 1 ≤ l.commands := by
    obtain ⟨sound, -⟩ := of_check encoded
    obtain ⟨-, sound⟩ := of_guard sound
    obtain ⟨-, sound⟩ := of_check sound
    obtain ⟨-, sound⟩ := of_check sound
    obtain ⟨-, sound⟩ := of_check sound
    obtain ⟨-, sound⟩ := of_check sound
    obtain ⟨-, sound⟩ := of_check sound
    obtain ⟨few, sound⟩ := of_check sound
    obtain ⟨present, -⟩ := of_guard sound
    have few := bound_eq_ok.mp few
    have positive : 0 < m.commands.length := by
      apply List.length_pos_of_ne_nil
      intro empty
      simp [empty] at present
    omega
  obtain ⟨few, light, receipt⟩ := estimate_covers answered estimate room (Nat.zero_le _)
  apply validate_budget _ _ _ valid
  · intro c mem
    rcases List.mem_cons.mp (perm.mem_iff.mp mem) with rfl | mem
    · rfl
    · exact receipt c mem
  · rw [perm.length_eq, List.length_cons]
    omega
  · have same : weights response.commands = weights (.status header :: parts.flatten) :=
      (perm.map _).sum_nat
    have first : weights (.status header :: parts.flatten) = header.weight + weights parts.flatten := rfl
    omega

/-- The node that was read, with its value. -/
def sampleReport : Results := ⟨5, some 1, some 2, some .get, none, [⟨false, some "./x", none, none, some "v"⟩]⟩

def sampleReceipt (id command : UInt32) (name : CommandName) (refs : List String) : Status :=
  ⟨id, 1, command, name, refs, [], 200, [], none, none⟩

def sampleAnswer : Message where
  header := ⟨1, 2, "b", "a", none, none⟩
  commands := [.status (sampleReceipt 1 0 .syncHdr []), .status (sampleReceipt 2 1 .sequence []),
    .status (sampleReceipt 3 2 .get ["./x"]), .results sampleReport,
    .status (sampleReceipt 4 3 .replace ["./y"])]
  finalMessage := true

set_option maxRecDepth 4000 in
theorem sample_answer_fits : validate sampleDecoders sampleAnswer CodecLimits.default = .ok () := by
  have admitted : (encodeOutbound sampleXml.escape sampleDecoders sampleMessage
      CodecLimits.default).isOk = true := by decide
  cases sent : encodeOutbound sampleXml.escape sampleDecoders sampleMessage CodecLimits.default with
  | error =>
    rw [sent] at admitted
    cases admitted
  | ok =>
    have answers : AnswersAll ((preorderForest 0 none sampleMessage.commands).map Prod.fst)
        sampleAnswer.commands :=
      ⟨sampleReceipt 1 0 .syncHdr [], [[.status (sampleReceipt 2 1 .sequence [])],
        [.status (sampleReceipt 3 2 .get ["./x"]), .results sampleReport],
        [.status (sampleReceipt 4 3 .replace ["./y"])], []], rfl,
        .cons ⟨[_], [], rfl, by decide⟩ (.cons ⟨[_], [_], rfl, by decide⟩
          (.cons ⟨[_], [], rfl, by decide⟩ (.cons ⟨[], [], rfl, by decide⟩ .nil))), .refl _⟩
    exact receipts_fit sent answers (show validate sampleDecoders sampleAnswer
      { CodecLimits.default with commands := 9, items := 9 } = .ok () by decide)

end RssMdm.WindowsMdm.Syncml
