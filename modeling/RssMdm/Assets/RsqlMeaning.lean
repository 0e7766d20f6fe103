/- module: Assets/RsqlMeaning
   source: crates/inventory-service/src/assets/filter.rs, crates/inventory-service/src/assets/rsql.rs
   digest: Spliced criteria compile to a lighter rule; saved queries are read back and saved again. -/

import RssMdm.Assets.RsqlRoundTrip
import RssMdm.Group.Splicing

set_option autoImplicit false

namespace RssMdm.Assets

open Inventory Lib Lib.Fallible

section

variable {Timepoint Number : Type} [LinearOrder Timepoint] [Group.Floating Number]

theorem foldlM_count {cs : List (Group.Criteria Timepoint Number)} {start n : Nat}
    (low : start ≤ 256) :
    cs.foldlM (fun count c => Group.LimitKind.nodes.add count c.count) start = .ok n ↔
      n = start + Group.Criteria.countAll cs ∧ start + Group.Criteria.countAll cs ≤ 256 := by
  induction cs generalizing start with
  | nil =>
    rw [List.foldlM_nil, Group.Criteria.countAll, Nat.add_zero]
    exact ⟨fun h => ⟨(Except.ok.inj h).symm, low⟩, fun h => congrArg Except.ok h.1.symm⟩
  | cons c cs ih =>
    rw [List.foldlM_cons, Group.Criteria.countAll]
    constructor
    · intro h
      obtain ⟨next, added, h⟩ := of_bind h
      obtain ⟨-, fits, rfl⟩ := Group.LimitKind.add_eq_ok.mp added
      obtain ⟨rfl, total⟩ := (ih fits).mp h
      omega
    · rintro ⟨rfl, total⟩
      refine bind_eq_ok.mpr ⟨start + c.count, Group.LimitKind.add_eq_ok.mpr ⟨?_, ?_, rfl⟩,
        (ih ?_).mpr ?_⟩
      · omega
      · show start + c.count ≤ 256
        omega
      · omega
      · omega

theorem count_pos (c : Group.Criteria Timepoint Number) : 1 ≤ c.count := by
  cases c with
  | predicate | membership => exact Nat.le_refl 1
  | and | or => exact Nat.le_add_right 1 _

theorem length_le_countAll (cs : List (Group.Criteria Timepoint Number)) :
    cs.length ≤ Group.Criteria.countAll cs := by
  induction cs with
  | nil => exact Nat.le_refl 0
  | cons c =>
    have one := count_pos c
    rw [List.length_cons, Group.Criteria.countAll]
    omega

theorem group_eq_ok {children : List (Group.Criteria Timepoint Number)} {conjunction : Bool}
    {g : Group.Criteria Timepoint Number} :
    Group.Criteria.group children conjunction = .ok g ↔
      (1 ≤ children.length ∧ 1 + Group.Criteria.countAll children ≤ 256 ∧
        1 + Group.Criteria.depthAll children ≤ 16) ∧
      g = if conjunction then .and children else .or children := by
  have longest := length_le_countAll children
  have nonempty : children.isEmpty = false ↔ 1 ≤ children.length := by
    cases children with
    | nil | cons => simp
  unfold Group.Criteria.group
  constructor
  · intro h
    obtain ⟨some, h⟩ := of_guard h
    obtain ⟨-, h⟩ := of_check h
    obtain ⟨n, counted, h⟩ := of_bind h
    obtain ⟨deep, h⟩ := of_check h
    obtain ⟨-, total⟩ := (foldlM_count (by decide)).mp counted
    exact ⟨⟨nonempty.mp (by simpa using some), total, Group.LimitKind.check_eq_ok.mp deep⟩,
      (Except.ok.inj h).symm⟩
  · rintro ⟨⟨some, total, deep⟩, rfl⟩
    have few : Group.LimitKind.nodes.check children.length = .ok () :=
      Group.LimitKind.check_eq_ok.mpr (show children.length ≤ 256 by omega)
    have counted : children.foldlM (fun count c => Group.LimitKind.nodes.add count c.count) 1 =
        .ok (1 + Group.Criteria.countAll children) :=
      (foldlM_count (by decide)).mpr ⟨rfl, total⟩
    have deep' : Group.LimitKind.depth.check (1 + Group.Criteria.depthAll children) = .ok () :=
      Group.LimitKind.check_eq_ok.mpr deep
    refine guard_eq_ok.mpr ⟨by rw [nonempty.mpr some]; exact Bool.false_ne_true, ?_⟩
    exact check_bind_eq_ok.mpr ⟨few, bind_eq_ok.mpr ⟨_, counted, check_bind_eq_ok.mpr ⟨deep', rfl⟩⟩⟩

variable [Inventory.Environment] [Conversion Timepoint Number] {catalog : Catalog}

/-- Criteria that compile from any lighter state, to a lighter state with the same fields. -/
def CompilesTo (catalog : Catalog) (depth : Nat) (s s' : Compiling) (cs : List Criteria)
    (gs : List (Group.Criteria Timepoint Number)) : Prop :=
  ∀ d t, d ≤ depth → t.fields = s.fields → t.nodes ≤ s.nodes →
    ∃ t', criteriaAll catalog d t cs = .ok (gs, t') ∧ t'.fields = s'.fields ∧ t'.nodes ≤ s'.nodes

variable {depth : Nat} {gs gs' : List (Group.Criteria Timepoint Number)} {s' s : Compiling}

theorem criteriaAll_append {s'' : Compiling} {cs cs' : List Criteria}
    (h : criteriaAll catalog depth s cs = .ok (gs, s'))
    (h' : criteriaAll catalog depth s' cs' = .ok (gs', s'')) :
    criteriaAll catalog depth s (cs ++ cs') = .ok (gs ++ gs', s'') := by
  induction cs generalizing s gs with
  | nil =>
    cases h
    exact h'
  | cons _ _ ih =>
    rw [criteriaAll] at h
    obtain ⟨⟨g, s₁⟩, first, h⟩ := of_bind h
    obtain ⟨⟨rest, s₂⟩, more, h⟩ := of_bind h
    cases h
    rw [List.cons_append, criteriaAll]
    exact bind_eq_ok.mpr ⟨_, first, bind_eq_ok.mpr ⟨_, ih more, rfl⟩⟩

theorem CompilesTo.append {s'' : Compiling} {cs cs' : List Criteria}
    (h : CompilesTo catalog depth s s' cs gs) (h' : CompilesTo catalog depth s' s'' cs' gs') :
    CompilesTo catalog depth s s'' (cs ++ cs') (gs ++ gs') := by
  intro d t low fields nodes
  obtain ⟨t₁, first, fields₁, nodes₁⟩ := h d t low fields nodes
  obtain ⟨t₂, second, fields₂, nodes₂⟩ := h' d t₁ low fields₁ nodes₁
  exact ⟨t₂, criteriaAll_append first second, fields₂, nodes₂⟩

theorem criteriaAll_singleton {c : Criteria} :
    criteriaAll catalog depth s [c] = .ok (gs, s') ↔
      ∃ g, criteria catalog depth s c = .ok (g, s') ∧ gs = [g] := by
  rw [criteriaAll]
  constructor
  · intro h
    obtain ⟨⟨g, s₁⟩, first, h⟩ := of_bind h
    cases h
    exact ⟨g, first, rfl⟩
  · rintro ⟨g, first, rfl⟩
    exact bind_eq_ok.mpr ⟨_, first, rfl⟩

omit [LinearOrder Timepoint] [Group.Floating Number] [Inventory.Environment]
  [Conversion Timepoint Number] in
theorem enter_eq_ok :
    s.enter depth = .ok s' ↔
      (depth ≤ 16 ∧ s.nodes + 1 ≤ 256) ∧ s' = { s with nodes := s.nodes + 1 } := by
  unfold Compiling.enter
  rw [guard_eq_ok, not_or]
  constructor
  · rintro ⟨⟨shallow, few⟩, h⟩
    exact ⟨⟨Nat.not_lt.mp shallow, Nat.not_lt.mp few⟩, (Except.ok.inj h).symm⟩
  · rintro ⟨⟨shallow, few⟩, rfl⟩
    exact ⟨⟨Nat.not_lt.mpr shallow, Nat.not_lt.mpr few⟩, rfl⟩

theorem CompilesTo.node {depth : Nat} {s s' : Compiling} {conjunction : Bool}
    {F : List Kleene.Truth → Kleene.Truth} {cs : List Criteria}
    {gs gs' : List (Group.Criteria Timepoint Number)} {g : Group.Criteria Timepoint Number}
    (entered : depth ≤ 16 ∧ s.nodes + 1 ≤ 256)
    (children : CompilesTo catalog (depth + 1) { s with nodes := s.nodes + 1 } s' cs gs')
    (stands : Group.StandsFor F gs gs') (built : Group.Criteria.group gs conjunction = .ok g)
    (node : Criteria)
    (is : ∀ d t, criteria catalog d t node = (do
      let t ← t.enter d
      let (gs, t) ← criteriaAll catalog (d + 1) t cs
      let g ← checkedInput (Group.Criteria.group gs conjunction)
      .ok (g, t) : Except Error (Group.Criteria Timepoint Number × Compiling))) :
    CompilesTo catalog depth s s' [node] [if conjunction then .and gs' else .or gs'] := by
  intro d t low fields nodes
  obtain ⟨t', compiled, fields', nodes'⟩ := children (d + 1) { t with nodes := t.nodes + 1 }
    (Nat.succ_le_succ low) fields (Nat.succ_le_succ nodes)
  obtain ⟨⟨one, total, deep⟩, -⟩ := group_eq_ok.mp built
  have count := stands.count
  have depths := stands.depth
  have length := stands.length
  have built' : Group.Criteria.group gs' conjunction =
      .ok (if conjunction then .and gs' else .or gs') :=
    group_eq_ok.mpr ⟨⟨by omega, by omega, by omega⟩, rfl⟩
  refine ⟨t', criteriaAll_singleton.mpr ⟨_, ?_, rfl⟩, fields', nodes'⟩
  rw [is]
  refine bind_eq_ok.mpr ⟨_, enter_eq_ok.mpr ⟨⟨by omega, by omega⟩, rfl⟩, ?_⟩
  refine bind_eq_ok.mpr ⟨_, compiled, ?_⟩
  exact bind_eq_ok.mpr ⟨_, mapError_eq_ok.mpr built', rfl⟩

mutual

theorem criteria_operands : ∀ (c : Criteria) {depth : Nat} {s s' : Compiling}
    {g : Group.Criteria Timepoint Number}, criteria catalog depth s c = .ok (g, s') →
    g.Full ∧ CompilesTo catalog depth s s' c.conjunctsOf g.conjunctsOf ∧
      CompilesTo catalog depth s s' c.disjunctsOf g.disjunctsOf ∧
      CompilesTo catalog depth s s' [c.spliced] [g.spliced]
  | .predicate field op value values, depth, s, s', g, h => by
      rw [criteria] at h
      obtain ⟨s₁, entered, h⟩ := of_bind h
      obtain ⟨⟨shallow, few⟩, rfl⟩ := enter_eq_ok.mp entered
      have steps := h
      obtain ⟨path, found, h⟩ := of_bind h
      obtain ⟨definition, defined, h⟩ := of_bind h
      obtain ⟨operand, read, h⟩ := of_bind h
      obtain ⟨node, built, h⟩ := of_bind h
      cases h
      have leaf : ∃ p, g = .predicate p := by
        have made := mapError_eq_ok.mp built
        obtain ⟨b, -, made⟩ := of_bind made
        split at made
        · exact ⟨_, (Except.ok.inj made).symm⟩
        · obtain ⟨b', -, made⟩ := of_bind made
          obtain ⟨b'', -, made⟩ := of_bind made
          exact ⟨_, (Except.ok.inj made).symm⟩
      obtain ⟨p, rfl⟩ := leaf
      have compiles : CompilesTo catalog depth s
          ⟨s.fields.insert field.asStr definition, s.nodes + 1⟩
          [.predicate field op value values] [.predicate p] := by
        intro d t low fields nodes
        refine ⟨⟨t.fields.insert field.asStr definition, t.nodes + 1⟩,
          criteriaAll_singleton.mpr ⟨_, ?_, rfl⟩, by rw [fields], Nat.succ_le_succ nodes⟩
        rw [criteria]
        refine bind_eq_ok.mpr ⟨_, enter_eq_ok.mpr ⟨⟨by omega, by omega⟩, rfl⟩, ?_⟩
        exact bind_eq_ok.mpr ⟨path, found, bind_eq_ok.mpr ⟨definition, defined,
          bind_eq_ok.mpr ⟨operand, read, bind_eq_ok.mpr ⟨_, built, rfl⟩⟩⟩⟩
      exact ⟨trivial, compiles, compiles, compiles⟩
  | .and children, depth, s, s', g, h => by
      rw [criteria] at h
      obtain ⟨s₁, entered, h⟩ := of_bind h
      obtain ⟨room, rfl⟩ := enter_eq_ok.mp entered
      obtain ⟨⟨gs, s₂⟩, compiled, h⟩ := of_bind h
      obtain ⟨node, built, h⟩ := of_bind h
      cases h
      have made := mapError_eq_ok.mp built
      obtain ⟨⟨one, -⟩, rfl⟩ := group_eq_ok.mp made
      obtain ⟨full, inside, -⟩ := criteriaAll_operands children compiled
      obtain ⟨stands, -⟩ := Group.standsFor_children gs full
      have node : CompilesTo catalog depth s s' [.and (Criteria.conjuncts children)]
          [.and (Group.Criteria.conjuncts gs)] :=
        inside.node room stands made (.and (Criteria.conjuncts children)) (fun d t => by rw [criteria])
      refine ⟨⟨one, full⟩, ?_, node, node⟩
      intro d t low fields nodes
      exact inside d t (Nat.le_succ_of_le low) fields (Nat.le_succ_of_le nodes)
  | .or children, depth, s, s', g, h => by
      rw [criteria] at h
      obtain ⟨s₁, entered, h⟩ := of_bind h
      obtain ⟨room, rfl⟩ := enter_eq_ok.mp entered
      obtain ⟨⟨gs, s₂⟩, compiled, h⟩ := of_bind h
      obtain ⟨node, built, h⟩ := of_bind h
      cases h
      have made := mapError_eq_ok.mp built
      obtain ⟨⟨one, -⟩, rfl⟩ := group_eq_ok.mp made
      obtain ⟨full, -, inside⟩ := criteriaAll_operands children compiled
      obtain ⟨-, stands⟩ := Group.standsFor_children gs full
      have node : CompilesTo catalog depth s s' [.or (Criteria.disjuncts children)]
          [.or (Group.Criteria.disjuncts gs)] :=
        inside.node room stands made (.or (Criteria.disjuncts children)) (fun d t => by rw [criteria])
      refine ⟨⟨one, full⟩, node, ?_, node⟩
      intro d t low fields nodes
      exact inside d t (Nat.le_succ_of_le low) fields (Nat.le_succ_of_le nodes)

theorem criteriaAll_operands : ∀ (cs : List Criteria) {depth : Nat} {s s' : Compiling}
    {gs : List (Group.Criteria Timepoint Number)}, criteriaAll catalog depth s cs = .ok (gs, s') →
    Group.Criteria.FullAll gs ∧
      CompilesTo catalog depth s s' (Criteria.conjuncts cs) (Group.Criteria.conjuncts gs) ∧
      CompilesTo catalog depth s s' (Criteria.disjuncts cs) (Group.Criteria.disjuncts gs)
  | [], depth, s, s', gs, h => by
      cases h
      have compiles : CompilesTo catalog depth s s [] ([] : List (Group.Criteria Timepoint Number)) :=
        fun d t _ fields nodes => ⟨t, rfl, fields, nodes⟩
      exact ⟨trivial, compiles, compiles⟩
  | c :: cs, depth, s, s', gs, h => by
      rw [criteriaAll] at h
      obtain ⟨⟨g, s₁⟩, first, h⟩ := of_bind h
      obtain ⟨⟨rest, s₂⟩, more, h⟩ := of_bind h
      cases h
      obtain ⟨full, one, one', -⟩ := criteria_operands c first
      obtain ⟨fulls, all, all'⟩ := criteriaAll_operands cs more
      exact ⟨⟨full, fulls⟩, one.append all, one'.append all'⟩

end

theorem rule_spliced {TenantId : Type} {tenant : TenantId} {id : Text.Uuid} {c : Criteria}
    {r : Group.Rule Timepoint Number TenantId} (h : rule tenant id c catalog = .ok r) :
    ∃ r', rule tenant id c.spliced catalog = .ok r' ∧ Group.Lighter r r' := by
  obtain ⟨⟨g, s⟩, compiled, h⟩ := of_bind h
  have built := mapError_eq_ok.mp h
  obtain ⟨full, -, -, compiles⟩ := criteria_operands c compiled
  obtain ⟨t', listed, fields, -⟩ :=
    compiles 1 ⟨.empty, 0⟩ (Nat.le_refl 1) rfl (Nat.le_refl 0)
  obtain ⟨g', compiled', single⟩ := criteriaAll_singleton.mp listed
  cases single
  obtain ⟨r', built', lighter⟩ := Group.Rule.new_spliced full built
  refine ⟨r', bind_eq_ok.mpr ⟨_, compiled', mapError_eq_ok.mpr ?_⟩, lighter⟩
  rw [fields]
  exact built'

end

namespace Rsql

mutual

theorem operands_imp {P Q : Scalar → Prop} (imp : ∀ s, P s → Q s) :
    ∀ c : Criteria, c.Operands P → c.Operands Q
  | .predicate _ _ _ _, h =>
    ⟨fun s is => imp s (h.1 s is), fun all is s mem => imp s (h.2 all is s mem)⟩
  | .and children, h | .or children, h => operandsAll_imp imp children h

theorem operandsAll_imp {P Q : Scalar → Prop} (imp : ∀ s, P s → Q s) :
    ∀ cs : List Criteria, Criteria.OperandsAll P cs → Criteria.OperandsAll Q cs
  | [], _ => trivial
  | c :: cs, h => ⟨operands_imp imp c h.1, operandsAll_imp imp cs h.2⟩

end

section

variable [Inventory.Environment] [Numerals] {catalog : Catalog}

def DecidesLike (catalog : Catalog) (c c' : Criteria) : Prop :=
  ∀ (Timepoint Number TenantId : Type) [LinearOrder Timepoint] [LinearOrder TenantId]
    [Group.Floating Number] [Conversion Timepoint Number] (tenant : TenantId) (id : Text.Uuid)
    (r : Group.Rule Timepoint Number TenantId), rule tenant id c catalog = .ok r →
    ∃ r', rule tenant id c' catalog = .ok r' ∧
      (∀ v, r'.criteria.meaning v = r.criteria.meaning v) ∧
      ∀ input asOf e, Group.evaluatePage r input asOf = .ok e →
        ∃ e', Group.evaluatePage r' input asOf = .ok e' ∧
          e'.objects.map (fun o => (o.key, o.decision)) = e.objects.map (fun o => (o.key, o.decision))

omit [Numerals] in
theorem decidesLike_spliced (c : Criteria) : DecidesLike catalog c c.spliced := by
  intro Timepoint Number TenantId _ _ _ _ tenant id r built
  obtain ⟨r', built', lighter⟩ := rule_spliced built
  exact ⟨r', built', lighter.meaning, fun input asOf e evaluated => lighter.evaluatePage evaluated⟩

omit [Inventory.Environment] [Numerals] in
theorem isDefault_eq {scope : QueryScope} (h : scope.isDefault = true) : scope = .default := by
  obtain ⟨selector, quantifier⟩ := scope
  cases selector <;> cases quantifier <;> first | rfl | cases h

variable {condition : InventoryCondition} {input : QueryInput} {query : Query}

theorem compile_some {s : String} (filter : input.filter = some s)
    (criteria : query.criteria = some condition) :
    input.compile catalog = .ok query ↔
      (input.fields.length ≤ maxFields ∧ input.sort.length ≤ maxSort) ∧
        compileFilter catalog input.scope s = .ok condition ∧
        query.fields = input.fields ∧ query.sort = input.sort := by
  obtain ⟨found, fields, sort⟩ := query
  cases criteria
  unfold QueryInput.compile
  rw [guard_eq_ok, filter, not_or, Nat.not_lt, Nat.not_lt]
  constructor
  · rintro ⟨small, h⟩
    obtain ⟨c, compiled, h⟩ := of_bind h
    cases h
    exact ⟨small, compiled, rfl, rfl⟩
  · rintro ⟨small, compiled, rfl, rfl⟩
    exact ⟨small, bind_eq_ok.mpr ⟨condition, compiled, rfl⟩⟩

/-- Criteria without a filter come with the scope of a query without a predicate, and the other way
round. -/
theorem compile_cases (h : input.compile catalog = .ok query) :
    (∃ s condition, input.filter = some s ∧ query.criteria = some condition ∧
      compileFilter catalog input.scope s = .ok condition) ∨
    (input.filter = none ∧ input.scope = .default ∧ query = ⟨none, input.fields, input.sort⟩) := by
  unfold QueryInput.compile at h
  obtain ⟨-, h⟩ := of_guard h
  cases filter : input.filter with
  | some s =>
    rw [filter] at h
    obtain ⟨c, compiled, h⟩ := of_bind h
    cases h
    exact .inl ⟨s, c, rfl, rfl, compiled⟩
  | none =>
    rw [filter] at h
    obtain ⟨named, h⟩ := of_guard h
    cases h
    have scope : input.scope.isDefault = true := by simpa using named
    exact .inr ⟨rfl, isDefault_eq scope, rfl⟩

theorem compileFilter_scope {scope : QueryScope} {s : String}
    (h : compileFilter catalog scope s = .ok condition) :
    scope = ⟨condition.selector, condition.quantifier⟩ := by
  obtain ⟨expression, -, h⟩ := of_bind h
  obtain ⟨criteria, -, h⟩ := of_bind h
  obtain ⟨-, h⟩ := of_check h
  cases h
  rfl

theorem stored_eq_ok {name : String} {t : String} (compiled : input.compile catalog = .ok query)
    (criteria : query.criteria = some condition) (prints : formatted condition.criteria = .ok t) :
    StoredDefinition.compile ⟨name, input⟩ catalog = .ok ⟨name, query⟩ ∧
      (⟨name, query⟩ : StoredDefinition).intoView =
        .ok ⟨name, ⟨some t, ⟨condition.selector, condition.quantifier⟩, query.fields, query.sort⟩⟩ := by
  obtain ⟨found, fields, sort⟩ := query
  cases criteria
  constructor
  · exact bind_eq_ok.mpr ⟨_, compiled, bind_eq_ok.mpr ⟨t, prints, rfl⟩⟩
  · exact bind_eq_ok.mpr ⟨_, bind_eq_ok.mpr ⟨t, prints, rfl⟩, rfl⟩

omit [Inventory.Environment] in
theorem printable_of_free {c : Criteria} (free : c.Operands NotNumber) : c.Operands Printable :=
  operands_imp (fun _ free n is => absurd is (free n)) c free

theorem compile_printed {t : String} (compiled : input.compile catalog = .ok query)
    (criteria : query.criteria = some condition) (printable : condition.criteria.Operands Printable)
    (prints : formatted condition.criteria = .ok t) :
    ({ input with filter := some t } : QueryInput).compile catalog =
        .ok { query with criteria := some { condition with criteria := condition.criteria.spliced } } ∧
      formatted condition.criteria.spliced = .ok t := by
  rcases compile_cases compiled with ⟨s, c, filter, is, -⟩ | ⟨-, -, rfl⟩
  · obtain ⟨small, reads, fields, sort⟩ := (compile_some filter criteria).mp compiled
    obtain ⟨again, same⟩ := compileFilter_formatted reads printable prints
    exact ⟨(compile_some rfl rfl).mpr ⟨small, again, fields, sort⟩, same⟩
  · cases criteria

/-- A compiled filter that is printed compiles to the spliced criteria, which decide every object alike
and print to the same text; without numbers it prints to a text that is no longer and needs no more
nodes, set values or parentheses, so that it is saved, read back and saved again. -/
theorem saved_queries_round_trip {input : QueryInput} {query : Query}
    (compiled : input.compile catalog = .ok query) :
    (∀ condition t, query.criteria = some condition → condition.criteria.Operands Printable →
      formatted condition.criteria = .ok t →
      ({ input with filter := some t } : QueryInput).compile catalog =
          .ok { query with criteria := some { condition with criteria := condition.criteria.spliced } } ∧
        DecidesLike catalog condition.criteria condition.criteria.spliced ∧
        formatted condition.criteria.spliced = .ok t) ∧
    ((∀ condition, query.criteria = some condition → condition.criteria.Operands NotNumber) →
      (∀ s condition, input.filter = some s → query.criteria = some condition →
        ∃ t, formatted condition.criteria = .ok t ∧ t.utf8ByteSize ≤ s.utf8ByteSize ∧
          ∀ nodes setItems depth, (∃ e, Query.Filter.parseWithin nodes setItems depth s = .ok e) →
            ∃ e, Query.Filter.parseWithin nodes setItems depth t = .ok e) ∧
      ∀ name, ∃ stored view stored', StoredDefinition.compile ⟨name, input⟩ catalog = .ok stored ∧
        stored.intoView = .ok view ∧ StoredDefinition.compile view catalog = .ok stored' ∧
        stored'.intoView = .ok view) := by
  refine ⟨?_, fun free => ⟨?_, ?_⟩⟩
  · intro condition t criteria printable prints
    obtain ⟨again, same⟩ := compile_printed compiled criteria printable prints
    exact ⟨again, decidesLike_spliced condition.criteria, same⟩
  · intro s condition filter criteria
    obtain ⟨-, reads, -, -⟩ := (compile_some filter criteria).mp compiled
    have numberless := free condition criteria
    exact compileFilter_printed reads numberless (printable_of_free numberless)
  · intro name
    rcases compile_cases compiled with ⟨s, condition, filter, criteria, reads⟩ | ⟨missing, scope, rfl⟩
    · have numberless := free condition criteria
      have printable := printable_of_free numberless
      obtain ⟨t, prints, -, -⟩ := compileFilter_printed reads numberless printable
      obtain ⟨again, same⟩ := compile_printed compiled criteria printable prints
      obtain ⟨-, -, fields, sort⟩ := (compile_some filter criteria).mp compiled
      have scope := compileFilter_scope reads
      obtain ⟨first, view⟩ := stored_eq_ok compiled criteria prints
      obtain ⟨second, view'⟩ := stored_eq_ok again rfl same
      rw [scope, ← fields, ← sort] at second
      exact ⟨_, _, _, first, view, second, view'⟩
    · have view : input = ⟨none, .default, input.fields, input.sort⟩ := by
        rw [← missing, ← scope]
      have first : StoredDefinition.compile ⟨name, input⟩ catalog =
          .ok ⟨name, ⟨none, input.fields, input.sort⟩⟩ :=
        bind_eq_ok.mpr ⟨_, compiled, rfl⟩
      have read : (⟨name, ⟨none, input.fields, input.sort⟩⟩ : StoredDefinition).intoView =
          .ok ⟨name, input⟩ := by
        rw [view]
        rfl
      exact ⟨_, _, _, first, read, first, read⟩

end

namespace Sample

scoped instance environment : Inventory.Environment where
  timepoint time := 0 ≤ time.val
  toUppercase := String.toUpper
  parseUuid _ := none
  observationId s := 1 ≤ s.utf8ByteSize && s.utf8ByteSize ≤ 256
  seriesId s := 1 ≤ s.utf8ByteSize && s.utf8ByteSize ≤ 256
  numberText n := Json.decimal n.bits.toNat
  fromSlice _ := none

def one : NotNan := ⟨0x3ff0000000000000, by decide⟩

/-- Only the number one is read and written here. -/
scoped instance numerals : Numerals where
  parse text := if text = "1" then some one else none
  decimal _ := "1"
  scientific _ := "1e0"

def field (key : String) (valueType : ValueType) : FieldDefinition where
  timeSeries := none
  key := ⟨key⟩
  version := 1
  valueType := valueType
  nullable := false
  manual := false
  sources := OrdMap.empty.insert .agentNative 1
  platforms := [.windows]
  sensitivity := .standard
  unit := none
  searchable := true
  itemKey := none

def fields : Catalog :=
  (OrdMap.empty.insert ⟨"device.load"⟩ (field "device.load" .number)).insert ⟨"device.owner"⟩
    (field "device.owner" (.string 256 false))

/-- An alternative written inside an alternative. -/
def input : QueryInput :=
  ⟨some "device.load==1,(device.owner=='a',device.owner!='b c')", .default, [], []⟩

def owner (op : Operator) (name : String) : Criteria :=
  .predicate ⟨"device.owner"⟩ op (some (.string name)) none

def condition : InventoryCondition :=
  ⟨.device, .one, .or [.predicate ⟨"device.load"⟩ .eq (some (.number one)) none,
    .or [owner .eq "a", owner .ne "b c"]]⟩

def query : Query := ⟨some condition, [], []⟩

def text : String := "device.load==1,device.owner==a,device.owner!='b c'"

def load : Query.Expr := .compare "device.load" .eq ["1"]

def owners : List Query.Expr :=
  [.compare "device.owner" .eq ["a"], .compare "device.owner" .ne ["b c"]]

def nested : Query.Expr := .or [load, .or owners]

def flat : Query.Expr := .or (load :: owners)

theorem one_readsBack : NumberReadsBack one :=
  ⟨by decide, by decide⟩

theorem condition_printable : condition.criteria.Operands Printable := by
  have number : ∀ n, Scalar.number one = .number n → NumberReadsBack n := by
    intro n is
    cases is
    exact one_readsBack
  have word : ∀ name n, Scalar.string name = .number n → NumberReadsBack n := by
    intro name n is
    cases is
  refine ⟨⟨?_, fun _ is => nomatch is⟩, ⟨⟨?_, fun _ is => nomatch is⟩,
    ⟨?_, fun _ is => nomatch is⟩, trivial⟩, trivial⟩
  · rintro s ⟨⟩
    exact number
  · rintro s ⟨⟩
    exact word "a"
  · rintro s ⟨⟩
    exact word "b c"

def owned : QueryInput := ⟨some "device.owner=='a'", .default, [], []⟩

def ownedQuery : Query := ⟨some ⟨.device, .one, owner .eq "a"⟩, [], []⟩

theorem owned_compiled : owned.compile fields = .ok ownedQuery := by
  have parsed : Query.Filter.parse "device.owner=='a'" = .ok (.compare "device.owner" .eq ["a"]) := by
    with_unfolding_all rfl
  have bound : bind fields (.compare "device.owner" .eq ["a"]) = .ok (owner .eq "a") := by
    with_unfolding_all rfl
  exact (compile_some rfl rfl).mpr ⟨⟨by decide, by decide⟩,
    bind_eq_ok.mpr ⟨_, mapError_eq_ok.mpr parsed, bind_eq_ok.mpr ⟨_, bound, rfl⟩⟩, rfl, rfl⟩

/-- The parentheses and the quotes that are not needed are gone from the saved filter; a query without
numbers is saved as it is read again. -/
theorem saved_query_of_load_and_owner :
    (({ input with filter := some text } : QueryInput).compile fields =
        .ok { query with criteria := some { condition with criteria := condition.criteria.spliced } } ∧
      DecidesLike fields condition.criteria condition.criteria.spliced ∧
      formatted condition.criteria.spliced = .ok text) ∧
    ∀ name, ∃ stored view stored', StoredDefinition.compile ⟨name, owned⟩ fields = .ok stored ∧
      stored.intoView = .ok view ∧ StoredDefinition.compile view fields = .ok stored' ∧
        stored'.intoView = .ok view := by
  have parsed : Query.Filter.parse "device.load==1,(device.owner=='a',device.owner!='b c')" =
      .ok nested := by with_unfolding_all rfl
  have bound : bind fields nested = .ok condition.criteria := by with_unfolding_all rfl
  have reads : compileFilter fields .default "device.load==1,(device.owner=='a',device.owner!='b c')" =
      .ok condition :=
    bind_eq_ok.mpr ⟨nested, mapError_eq_ok.mpr parsed, bind_eq_ok.mpr ⟨_, bound, rfl⟩⟩
  have compiled : input.compile fields = .ok query :=
    (compile_some rfl rfl).mpr ⟨⟨by decide, by decide⟩, reads, rfl, rfl⟩
  have written : format 0 condition.criteria = .ok text := by with_unfolding_all rfl
  have reread : Query.Filter.parse text = .ok flat := by with_unfolding_all rfl
  have prints : formatted condition.criteria = .ok text :=
    bind_eq_ok.mpr ⟨text, written, bind_eq_ok.mpr ⟨flat, mapError_eq_ok.mpr reread, rfl⟩⟩
  have numberless : ∀ condition, ownedQuery.criteria = some condition →
      condition.criteria.Operands NotNumber := by
    rintro _ ⟨⟩
    refine ⟨?_, fun _ is => nomatch is⟩
    rintro s ⟨⟩ n is
    cases is
  exact ⟨(saved_queries_round_trip compiled).1 condition text rfl condition_printable prints,
    ((saved_queries_round_trip owned_compiled).2 numberless).2⟩

end Sample

end Rsql

end RssMdm.Assets
