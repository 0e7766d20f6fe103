/- module: Group/Pages
   source: crates/group/src/lib.rs, crates/group/src/evaluation.rs
   digest: The budgets of a page only rise, so a page that is evaluated can be cut anywhere. -/

import RssMdm.Group.Admission
import RssMdm.Lib.Meter

set_option autoImplicit false

namespace RssMdm.Group

open Lib Lib.Fallible Lib.Meter Lib.Outcome

variable {TenantId Timepoint Number : Type} [LinearOrder TenantId] [LinearOrder Timepoint]
  [Floating Number]

/-- Readings of one meter, compared in both counts. -/
instance : Preorder Budget where
  le a b := a.byteKind = b.byteKind ∧ a.bytes ≤ b.bytes ∧ a.items ≤ b.items
  le_refl a := ⟨rfl, le_refl _, le_refl _⟩
  le_trans a b c h h' := ⟨h.1.trans h'.1, h.2.1.trans h'.2.1, h.2.2.trans h'.2.2⟩

variable {kind : LimitKind} {n : Nat}

theorem LimitKind.check_eq_ok : kind.check n = .ok () ↔ n ≤ kind.maximum := by
  unfold LimitKind.check
  rw [guard_eq_ok, not_lt]
  exact and_iff_left rfl

theorem LimitKind.check_mono {m : Nat} (le : m ≤ n) (h : kind.check n = .ok ()) :
    kind.check m = .ok () :=
  LimitKind.check_eq_ok.mpr (le.trans (LimitKind.check_eq_ok.mp h))

theorem LimitKind.add_eq_ok {total next : Nat} :
    kind.add total n = .ok next ↔
      total + n < 2 ^ 64 ∧ total + n ≤ kind.maximum ∧ next = total + n := by
  unfold LimitKind.add
  by_cases fits : total + n < 2 ^ 64
  · rw [if_pos fits, check_bind_eq_ok, LimitKind.check_eq_ok, Except.ok.injEq, eq_comm,
      and_iff_right fits]
  · rw [if_neg fits]
    exact ⟨nofun, fun h => absurd h.1 fits⟩

theorem LimitKind.product_mono {a b : Nat} (le : a ≤ b) (h : kind.product b n = .ok ()) :
    kind.product a n = .ok () := by
  have lower : a * n ≤ b * n := Nat.mul_le_mul_right n le
  unfold LimitKind.product at h ⊢
  by_cases fits : b * n < 2 ^ 64
  · rw [if_pos fits] at h
    rw [if_pos (lower.trans_lt fits)]
    exact LimitKind.check_mono lower h
  · rw [if_neg fits] at h
    cases h

namespace Budget

theorem addBytes_metered (n : Nat) : Metered (fun b : Budget => b.addBytes n) where
  grows h := by
    obtain ⟨bytes, added, h⟩ := of_bind h
    obtain ⟨-, -, rfl⟩ := LimitKind.add_eq_ok.mp added
    cases h
    exact ⟨rfl, Nat.le_add_right _ _, le_refl _⟩
  eases {a b c} le h := by
    obtain ⟨bytes, added, h⟩ := of_bind h
    obtain ⟨fits, within, rfl⟩ := LimitKind.add_eq_ok.mp added
    cases h
    obtain ⟨kind, bytes, items⟩ := le
    have lower : a.bytes + n ≤ b.bytes + n := Nat.add_le_add_right bytes n
    refine ⟨{ a with bytes := a.bytes + n }, bind_eq_ok.mpr ⟨a.bytes + n, ?_, rfl⟩, kind, lower, items⟩
    rw [LimitKind.add_eq_ok, kind]
    exact ⟨lower.trans_lt fits, lower.trans within, rfl⟩

theorem addItems_metered (n : Nat) : Metered (fun b : Budget => b.addItems n) where
  grows h := by
    obtain ⟨items, added, h⟩ := of_bind h
    obtain ⟨-, -, rfl⟩ := LimitKind.add_eq_ok.mp added
    cases h
    exact ⟨rfl, le_refl _, Nat.le_add_right _ _⟩
  eases {a b c} le h := by
    obtain ⟨items, added, h⟩ := of_bind h
    obtain ⟨fits, within, rfl⟩ := LimitKind.add_eq_ok.mp added
    cases h
    obtain ⟨kind, bytes, items⟩ := le
    have lower : a.items + n ≤ b.items + n := Nat.add_le_add_right items n
    refine ⟨{ a with items := a.items + n }, bind_eq_ok.mpr ⟨a.items + n, ?_, rfl⟩, kind, bytes, lower⟩
    exact LimitKind.add_eq_ok.mpr ⟨lower.trans_lt fits, lower.trans within, rfl⟩

theorem eased_kind (c : LimitKind → Except Error Unit) : Eased (fun b : Budget => c b.byteKind) := by
  intro a b le h
  show c a.byteKind = .ok ()
  rw [le.1]
  exact h

theorem text_metered (s : String) : Metered (fun b : Budget => b.text s) :=
  .check (.const _) (addBytes_metered _)

theorem scalarText_metered (s : String) : Metered (fun b : Budget => b.scalarText s) :=
  .check (eased_kind fun kind =>
    (if kind = .ruleBytes then LimitKind.stringBytes else .factStringBytes).check s.utf8ByteSize)
    (addBytes_metered _)

theorem identity_metered (s : String) : Metered (fun b : Budget => b.identity s) :=
  (text_metered s).bind (.check (.const _) .ok)

end Budget

omit [LinearOrder Timepoint] in
theorem Scalar.validate_metered (v : Scalar Timepoint Number) :
    Metered (fun b : Budget => v.validate b) := by
  cases v with
  | number => exact .guard .ok
  | string s => exact Budget.scalarText_metered s
  | _ => exact .ok

theorem Value.validate_metered (value : Value Timepoint Number) :
    Metered (fun b : Budget => value.validate b) := by
  cases value with
  | scalar v => exact (Budget.addItems_metered 1).bind v.validate_metered
  | set element values =>
    have members : ∀ v : Scalar Timepoint Number,
        Metered (fun b : Budget => validateMember element b v) :=
      fun v => .guard v.validate_metered
    exact .check (Budget.eased_kind fun kind =>
        if kind = .ruleBytes then LimitKind.setItems.check values.size
        else LimitKind.factSetItems.check values.size)
      ((Budget.addItems_metered values.size).bind (.foldlM members values.keys))

theorem checkFact_metered (fields : OrdMap String Field) (coverage : OrdSet String)
    (entry : String × Fact Timepoint Number) :
    Metered (fun b => checkFact fields coverage b entry) := by
  unfold checkFact
  apply (Budget.identity_metered entry.1).bind
  cases fields.get? entry.1 with
  | none => exact .error _
  | some =>
    apply Metered.guard
    apply (Budget.identity_metered _).bind
    apply (Budget.identity_metered _).bind
    cases entry.2.state with
    | known value => exact value.validate_metered.bind (.guard .ok)
    | null => exact .guard .ok
    | denied => exact .error _
    | _ => exact .ok

omit [LinearOrder TenantId] in
theorem admitContext_metered (r : Rule Timepoint Number TenantId) (coverage : OrdSet String)
    (context : String × Facts Timepoint Number) :
    Metered (fun b => admitContext r coverage b context) :=
  (Budget.identity_metered context.1).bind (.check (Eased.const _)
    ((Metered.foldlM (checkFact_metered r.fields coverage) context.2.entries).bind (.guard .ok)))

instance : Preorder Progress where
  le p q := p.budget ≤ q.budget ∧ p.contexts ≤ q.contexts
  le_refl p := ⟨le_refl _, le_refl _⟩
  le_trans p q t h h' := ⟨h.1.trans h'.1, h.2.trans h'.2⟩

def headerBudget (object : ObjectSnapshot TenantId Timepoint Number) (b : Budget) :
    Except Error Budget := do
  let b ← b.text object.key.id
  object.memberships.keys.foldlM Budget.identity b

omit [LinearOrder TenantId] in
theorem headerBudget_metered (object : ObjectSnapshot TenantId Timepoint Number) :
    Metered (headerBudget object) :=
  (Budget.text_metered _).bind (.foldlM Budget.identity_metered _)

variable {object : ObjectSnapshot TenantId Timepoint Number}

theorem admitHeader_eq_ok {r : Rule Timepoint Number TenantId} {tenant : TenantId}
    {p p' : Progress} :
    admitHeader r tenant p object = .ok p' ↔
      (object.key.tenant = tenant ∧ object.memberships.keys = r.groups.keys ∧
        ¬(object.quantifier = .one ∧ (object.contexts.size ≠ 1 ∨ object.complete = false))) ∧
      headerBudget object p.budget = .ok p'.budget ∧
      p'.contexts = p.contexts + object.contexts.size ∧
      p'.contexts < 2 ^ 64 ∧
      LimitKind.visits.product p'.contexts r.criteria.count = .ok () ∧
      LimitKind.explanations.product p'.contexts (leafCount r.criteria) = .ok () := by
  obtain ⟨budget, contexts⟩ := p'
  unfold admitHeader headerBudget
  constructor
  · intro h
    obtain ⟨tenant, h⟩ := of_guard h
    obtain ⟨b₁, text, h⟩ := of_bind h
    obtain ⟨groups, h⟩ := of_guard h
    obtain ⟨b₂, named, h⟩ := of_bind h
    obtain ⟨one, h⟩ := of_guard h
    split at h
    · rename_i fits
      obtain ⟨visits, h⟩ := of_check h
      obtain ⟨explanations, h⟩ := of_check h
      cases h
      exact ⟨⟨not_not.mp tenant, not_not.mp groups, one⟩, bind_eq_ok.mpr ⟨b₁, text, named⟩, rfl, fits,
        visits, explanations⟩
    · cases h
  · rintro ⟨⟨tenant, groups, one⟩, spent, rfl, fits, visits, explanations⟩
    obtain ⟨b₁, text, named⟩ := of_bind spent
    rw [guard_eq_ok]
    refine ⟨not_not.mpr tenant, bind_eq_ok.mpr ⟨b₁, text, ?_⟩⟩
    rw [guard_eq_ok]
    refine ⟨not_not.mpr groups, bind_eq_ok.mpr ⟨budget, named, ?_⟩⟩
    rw [if_neg one, if_pos fits, visits, explanations]
    rfl

theorem admitHeader_metered (r : Rule Timepoint Number TenantId) (tenant : TenantId)
    (object : ObjectSnapshot TenantId Timepoint Number) :
    Metered (fun p => admitHeader r tenant p object) where
  grows h := by
    obtain ⟨-, spent, contexts, -⟩ := admitHeader_eq_ok.mp h
    exact ⟨(headerBudget_metered object).grows spent, contexts ▸ Nat.le_add_right _ _⟩
  eases {p q q'} le h := by
    obtain ⟨shape, spent, contexts, fits, visits, explanations⟩ := admitHeader_eq_ok.mp h
    obtain ⟨b, spent', lower⟩ := (headerBudget_metered object).eases le.1 spent
    have fewer : p.contexts + object.contexts.size ≤ q'.contexts :=
      contexts ▸ Nat.add_le_add_right le.2 _
    refine ⟨⟨b, p.contexts + object.contexts.size⟩, admitHeader_eq_ok.mpr ⟨shape, spent', rfl, ?_, ?_, ?_⟩,
      lower, fewer⟩
    · exact fewer.trans_lt fits
    · exact LimitKind.product_mono fewer visits
    · exact LimitKind.product_mono fewer explanations

theorem admitObject_metered (r : Rule Timepoint Number TenantId) (tenant : TenantId)
    (coverage : OrdSet String) (object : ObjectSnapshot TenantId Timepoint Number) :
    Metered (fun p => admitObject r tenant coverage p object) := by
  have contexts : Metered (fun p : Progress => do
      let b ← object.contexts.entries.foldlM (admitContext r coverage) p.budget
      (.ok { p with budget := b } : Except Error Progress)) := by
    have spent := Metered.foldlM (admitContext_metered r coverage) object.contexts.entries
    constructor
    · intro p p' h
      obtain ⟨b, admitted, h⟩ := of_bind h
      cases h
      exact ⟨spent.grows admitted, le_refl _⟩
    · intro p q q' le h
      obtain ⟨b, admitted, h⟩ := of_bind h
      cases h
      obtain ⟨b', admitted', lower⟩ := spent.eases le.1 admitted
      exact ⟨{ p with budget := b' }, bind_eq_ok.mpr ⟨b', admitted', rfl⟩, lower, le.2⟩
  exact (admitHeader_metered r tenant object).bind contexts

def lastKey (after : Option (ObjectKey TenantId))
    (objects : List (ObjectSnapshot TenantId Timepoint Number)) : Option (ObjectKey TenantId) :=
  objects.foldl (fun _ o => some o.key) after

omit [LinearOrder TenantId] in
theorem lastKey_append (after : Option (ObjectKey TenantId))
    (as bs : List (ObjectSnapshot TenantId Timepoint Number)) :
    lastKey after (as ++ bs) = lastKey (lastKey after as) bs := List.foldl_append

omit [LinearOrder TenantId] in
theorem lastKey_cases (after : Option (ObjectKey TenantId))
    (objects : List (ObjectSnapshot TenantId Timepoint Number)) :
    lastKey after objects = after ∨ ∃ o ∈ objects, lastKey after objects = some o.key := by
  induction objects generalizing after with
  | nil => exact .inl rfl
  | cons o _ ih =>
    rcases ih (some o.key) with same | ⟨o', mem, found⟩
    · exact .inr ⟨o, .head _, same⟩
    · exact .inr ⟨o', .tail _ mem, found⟩

theorem ordered_append (after : Option (ObjectKey TenantId))
    (as bs : List (ObjectSnapshot TenantId Timepoint Number)) :
    ordered after (as ++ bs) = (ordered after as && ordered (lastKey after as) bs) := by
  induction as generalizing after with
  | nil => rfl
  | cons _ _ ih =>
    rw [List.cons_append, ordered, ordered, ih, Bool.and_assoc]
    rfl

theorem ordered_above {key : ObjectKey TenantId}
    {objects : List (ObjectSnapshot TenantId Timepoint Number)}
    (h : ordered (some key) objects = true) : ∀ o ∈ objects, key < o.key := by
  induction objects generalizing key with
  | nil => simp
  | cons o _ ih =>
    rw [ordered, Bool.and_eq_true] at h
    have above : key < o.key := by simpa using h.1
    intro o' mem
    rcases List.mem_cons.mp mem with rfl | mem
    · exact above
    · exact above.trans (ih h.2 o' mem)

variable {r : Rule Timepoint Number TenantId}

theorem admitObject_tenant {tenant : TenantId} {coverage : OrdSet String} {p p' : Progress}
    (h : admitObject r tenant coverage p object = .ok p') : object.key.tenant = tenant := by
  obtain ⟨p₁, header, -⟩ := of_bind h
  exact (admitHeader_eq_ok.mp header).1.1

variable {s : PageInput TenantId Timepoint Number}

theorem admitPage_eq_ok :
    admitPage r s = .ok () ↔
      s.objects.length ≤ LimitKind.objects.maximum ∧
      r.required.keys.all s.coverage.contains = true ∧
      s.after.any (fun key => key.tenant ≠ r.tenant) = false ∧
      ordered s.after s.objects = true := by
  unfold admitPage
  rw [check_bind_eq_ok, LimitKind.check_eq_ok, guard_eq_ok, guard_eq_ok, guard_eq_ok]
  simp

variable {part : List (ObjectSnapshot TenantId Timepoint Number)}

theorem admitInput_cut {b b' : Budget} (h : admitInput r s b = .ok b')
    (shorter : part.length ≤ s.objects.length) (after : Option (ObjectKey TenantId)) :
    r.tenant = s.tenant ∧ admitInput r { s with objects := part, after } b = .ok b' := by
  unfold admitInput at h
  obtain ⟨tenant, h⟩ := of_guard h
  obtain ⟨b₁, id, h⟩ := of_bind h
  obtain ⟨b₂, version, h⟩ := of_bind h
  obtain ⟨b₃, dictionary, h⟩ := of_bind h
  obtain ⟨same, h⟩ := of_guard h
  obtain ⟨fields, h⟩ := of_check h
  obtain ⟨b₄, covered, h⟩ := of_bind h
  obtain ⟨objects, h⟩ := of_check h
  refine ⟨not_not.mp tenant, ?_⟩
  unfold admitInput
  rw [if_neg tenant, id, ok_bind, version, ok_bind, dictionary, ok_bind, if_neg same, fields, ok_bind,
    covered, ok_bind, LimitKind.check_mono shorter objects, ok_bind]
  exact h

theorem admission_cut (h : admission r s = .ok ())
    {earlier later : List (ObjectSnapshot TenantId Timepoint Number)}
    (cut : s.objects = earlier ++ part ++ later) :
    admission r { s with objects := part, after := lastKey s.after earlier } = .ok () := by
  obtain ⟨page, h⟩ := of_check h
  obtain ⟨b, input, h⟩ := of_bind h
  obtain ⟨p, objects, -⟩ := of_bind h
  obtain ⟨bounded, required, after, order⟩ := admitPage_eq_ok.mp page
  have shorter : part.length ≤ s.objects.length := by
    rw [cut]
    simp only [List.length_append]
    omega
  obtain ⟨tenant, input'⟩ := admitInput_cut input shorter (lastKey s.after earlier)
  have keys : ∀ o ∈ s.objects, o.key.tenant = r.tenant := fun o mem =>
    (foldlM_ok_each (fun _ _ _ h => admitObject_tenant h) _ objects o mem).trans tenant.symm
  have cursor : (lastKey s.after earlier).any (fun key => key.tenant ≠ r.tenant) = false := by
    rcases lastKey_cases s.after earlier with same | ⟨o, mem, found⟩
    · rw [same]
      exact after
    have mem' : o ∈ s.objects := by
      rw [cut]
      exact List.mem_append_left _ (List.mem_append_left _ mem)
    rw [found]
    simp [keys o mem']
  have order' : ordered (lastKey s.after earlier) part = true := by
    rw [cut, ordered_append, ordered_append, Bool.and_eq_true, Bool.and_eq_true] at order
    exact order.1.2
  have page' : admitPage r { s with objects := part, after := lastKey s.after earlier } = .ok () :=
    admitPage_eq_ok.mpr ⟨shorter.trans bounded, required, cursor, order'⟩
  rw [cut] at objects
  obtain ⟨p', objects'⟩ := Metered.stretch (admitObject_metered r s.tenant s.coverage) (le_refl _) objects
  unfold admission
  rw [page', ok_bind, input', ok_bind]
  exact bind_eq_ok.mpr ⟨p', objects', rfl⟩

def pagesFrom (s : PageInput TenantId Timepoint Number) (after : Option (ObjectKey TenantId)) :
    List (List (ObjectSnapshot TenantId Timepoint Number)) → List (PageInput TenantId Timepoint Number)
  | [] => []
  | part :: rest => { s with objects := part, after } :: pagesFrom s (lastKey after part) rest

/-- An object is not above the cursor, or not above its predecessor. -/
def Disordered (s : PageInput TenantId Timepoint Number) : Prop :=
  (∃ key, s.after = some key ∧ ∃ o ∈ s.objects, ¬key < o.key) ∨
    ∃ earlier a b later, s.objects = earlier ++ a :: b :: later ∧ ¬a.key < b.key

theorem ordered_of_disordered (h : Disordered s) :
    ordered s.after s.objects = false := by
  rw [← Bool.not_eq_true]
  intro order
  rcases h with ⟨key, after, o, mem, notAbove⟩ | ⟨earlier, a, b, later, objects, notAbove⟩
  · rw [after] at order
    exact notAbove (ordered_above order o mem)
  · rw [objects, ordered_append, Bool.and_eq_true] at order
    have tail := order.2
    rw [ordered, Bool.and_eq_true] at tail
    exact notAbove (ordered_above tail.2 b (.head _))

theorem evaluatePage_cut (asOf : Timepoint) (h : admission r s = .ok ())
    (parts : List (List (ObjectSnapshot TenantId Timepoint Number)))
    (earlier : List (ObjectSnapshot TenantId Timepoint Number))
    (cut : s.objects = earlier ++ parts.flatten) :
    List.Forall₂ (fun page part => evaluatePage r page asOf =
        .ok { pageEvaluation r s asOf with objects := part.map (objectEvaluation r) })
      (pagesFrom s (lastKey s.after earlier) parts) parts := by
  induction parts generalizing earlier with
  | nil => exact .nil
  | cons part _ ih =>
    rw [List.flatten_cons, ← List.append_assoc] at cut
    refine .cons (evaluatePage_eq_ok.mpr ⟨admission_cut h cut, rfl⟩) ?_
    rw [← lastKey_append]
    exact ih (earlier ++ part) cut

/-- Pages cut from an evaluated input are evaluated with its coordinates and give its objects
together; a page out of order is rejected. -/
theorem evaluatePage_paged (r : Rule Timepoint Number TenantId)
    (s : PageInput TenantId Timepoint Number) (asOf : Timepoint) :
    (∀ whole, evaluatePage r s asOf = .ok whole → ∀ parts, parts.flatten = s.objects →
      ∃ results, List.Forall₂ (fun page result => evaluatePage r page asOf = .ok result ∧
          { result with objects := whole.objects } = whole) (pagesFrom s s.after parts) results ∧
        results.flatMap PageEvaluation.objects = whole.objects) ∧
    (Disordered s → ∃ e, evaluatePage r s asOf = .error (.error e)) := by
  constructor
  · intro whole evaluated parts cut
    obtain ⟨admitted, rfl⟩ := evaluatePage_eq_ok.mp evaluated
    have pages := evaluatePage_cut asOf admitted parts [] cut.symm
    refine ⟨parts.map fun part =>
      { pageEvaluation r s asOf with objects := part.map (objectEvaluation r) }, ?_, ?_⟩
    · rw [List.forall₂_map_right_iff]
      exact pages.imp fun page part result => ⟨result, rfl⟩
    · show (parts.map _).flatMap PageEvaluation.objects = s.objects.map (objectEvaluation r)
      rw [← cut, List.map_flatten, List.flatMap_map]
      rfl
  · intro disordered
    rcases evaluatePage_returns r s asOf with ⟨e, evaluated⟩ | rejected
    · obtain ⟨admitted, -⟩ := evaluatePage_eq_ok.mp evaluated
      obtain ⟨page, -⟩ := of_check admitted
      have order := (admitPage_eq_ok.mp page).2.2.2
      rw [ordered_of_disordered disordered] at order
      cases order
    · exact rejected

end RssMdm.Group
