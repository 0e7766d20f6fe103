/- module: Lib/Fallible
   generality: library
   digest: Inversion of sequenced fallible computations that returned a value. -/

import Mathlib.Data.List.Forall2

set_option autoImplicit false

namespace RssMdm.Lib.Fallible

open List (mem_cons mem_cons_of_mem mem_cons_self)

variable {ε α β : Type}

@[simp] theorem ok_bind (a : α) (f : α → Except ε β) : (Except.ok a >>= f) = f a := rfl

@[simp] theorem error_bind (e : ε) (f : α → Except ε β) :
    (Except.error e >>= f) = Except.error e := rfl

variable {x : Except ε α}

theorem bind_eq_ok {f : α → Except ε β} {b : β} :
    (x >>= f) = .ok b ↔ ∃ a, x = .ok a ∧ f a = .ok b := by
  cases x with
  | error | ok => simp

theorem check_bind_eq_ok {x : Except ε Unit} {f : Unit → Except ε β} {b : β} :
    (x >>= f) = .ok b ↔ x = .ok () ∧ f () = .ok b := by
  cases x with
  | error | ok => simp

theorem guard_eq_ok {c : Prop} [Decidable c] {e : ε} {a : α} :
    (if c then .error e else x) = .ok a ↔ ¬c ∧ x = .ok a := by
  by_cases h : c <;> simp [h]

theorem of_bind {f : α → Except ε β} {b : β} (h : (x >>= f) = .ok b) :
    ∃ a, x = .ok a ∧ f a = .ok b := bind_eq_ok.mp h

theorem of_check {x : Except ε Unit} {f : Unit → Except ε β} {b : β} (h : (x >>= f) = .ok b) :
    x = .ok () ∧ f () = .ok b := check_bind_eq_ok.mp h

theorem of_guard {c : Prop} [Decidable c] {e : ε} {a : α}
    (h : (if c then .error e else x) = .ok a) : ¬c ∧ x = .ok a := guard_eq_ok.mp h

theorem mapError_eq_ok {δ : Type} {f : ε → δ} {a : α} :
    x.mapError f = .ok a ↔ x = .ok a := by
  cases x with
  | error | ok => simp [Except.mapError]

theorem map_eq_ok {f : α → β} {b : β} :
    x.map f = .ok b ↔ ∃ a, x = .ok a ∧ f a = b := by
  cases x with
  | error | ok => simp [Except.map]

/-- Visit the members in order until one is refused. -/
def each (f : α → Except ε Unit) : List α → Except ε Unit
  | [] => .ok ()
  | a :: rest => do
      f a
      each f rest

variable {as : List α}

theorem each_eq_ok {f : α → Except ε Unit} :
    each f as = .ok () ↔ ∀ a ∈ as, f a = .ok () := by
  induction as with
  | nil => simp [each]
  | cons _ _ ih => simp [each, check_bind_eq_ok, ih]

/-- Visit the members in order with the keys of the earlier ones: `key` runs before the key is
compared with them, `rest` after. -/
def eachFresh [BEq β] (key : α → Except ε β) (duplicate : ε) (rest : α → Except ε Unit) :
    List β → List α → Except ε Unit
  | _, [] => .ok ()
  | seen, a :: as => do
      let k ← key a
      if seen.contains k then .error duplicate
      else do
        rest a
        eachFresh key duplicate rest (k :: seen) as

theorem eachFresh_eq_ok [BEq β] [LawfulBEq β] {key : α → Except ε β} {duplicate : ε}
    {rest : α → Except ε Unit} {seen : List β} :
    eachFresh key duplicate rest seen as = .ok () ↔
      ∃ ks : List β, List.Forall₂ (fun a k => key a = .ok k ∧ rest a = .ok ()) as ks ∧
        ks.Nodup ∧ ∀ k ∈ ks, k ∉ seen := by
  induction as generalizing seen with
  | nil =>
    constructor
    · intro _
      exact ⟨[], .nil, List.nodup_nil, by simp⟩
    · intro _
      rfl
  | cons _ _ ih =>
    simp only [eachFresh, bind_eq_ok, guard_eq_ok, List.contains_iff_mem, ih]
    constructor
    · rintro ⟨k, hk, fresh, ⟨⟩, hrest, ks, hks, nodup, later⟩
      refine ⟨k :: ks, .cons ⟨hk, hrest⟩ hks, ?_, ?_⟩
      · exact List.nodup_cons.mpr ⟨fun mem => later k mem (.head _), nodup⟩
      · intro j hj
        rcases mem_cons.mp hj with rfl | hj
        · exact fresh
        · exact fun mem => later j hj (.tail _ mem)
    · rintro ⟨ks, hks, nodup, fresh⟩
      cases hks with
      | @cons _ k _ ks head tail =>
        obtain ⟨notMem, nodup⟩ := List.nodup_cons.mp nodup
        refine ⟨k, head.1, fresh k (.head _), (), head.2, ks, tail, nodup, ?_⟩
        intro j hj mem
        rcases mem_cons.mp mem with rfl | mem
        · exact notMem hj
        · exact fresh j (.tail _ hj) mem

variable {bs : List β}

theorem mapM_eq_ok {f : α → Except ε β} :
    as.mapM f = .ok bs ↔ List.Forall₂ (fun a b => f a = .ok b) as bs := by
  induction as generalizing bs with
  | nil =>
    rw [List.mapM_nil, List.forall₂_nil_left_iff]
    exact ⟨fun h => (Except.ok.inj h).symm, fun h => h ▸ rfl⟩
  | cons _ _ ih =>
    rw [List.mapM_cons]
    constructor
    · intro h
      obtain ⟨b, head, h⟩ := of_bind h
      obtain ⟨rest, tail, h⟩ := of_bind h
      cases h
      exact .cons head (ih.mp tail)
    · rintro (_ | ⟨head, tail⟩)
      rw [head, ok_bind, ih.mpr tail, ok_bind]
      rfl

variable {R : α → β → Prop}

theorem exists_left_of_mem (h : List.Forall₂ R as bs) {b : β} (mem : b ∈ bs) : ∃ a ∈ as, R a b := by
  induction h with
  | nil => cases mem
  | @cons a _ _ _ head _ ih =>
    rcases mem_cons.mp mem with rfl | mem
    · exact ⟨a, .head _, head⟩
    · obtain ⟨a', ha', related⟩ := ih mem
      exact ⟨a', .tail _ ha', related⟩

theorem exists_right_of_mem (h : List.Forall₂ R as bs) {a : α} (mem : a ∈ as) : ∃ b ∈ bs, R a b :=
  exists_left_of_mem (R := flip R) (List.Forall₂.flip h) mem

theorem forall₂_split {before after : List β} {b : β}
    (h : List.Forall₂ R as (before ++ b :: after)) :
    ∃ first a second, as = first ++ a :: second ∧ List.Forall₂ R first before ∧ R a b ∧
      List.Forall₂ R second after := by
  induction before generalizing as with
  | nil =>
    cases h with
    | cons head tail => exact ⟨[], _, _, rfl, .nil, head, tail⟩
  | cons _ _ ih =>
    cases h with
    | cons head tail =>
      obtain ⟨first, a, second, rfl, left, own, right⟩ := ih tail
      exact ⟨_ :: first, a, second, rfl, .cons head left, own, right⟩

theorem any_congr {p : α → Bool} {q : β → Bool} (agree : ∀ a b, R a b → p a = q b)
    (h : List.Forall₂ R as bs) :
    as.any p = bs.any q := by
  induction h with
  | nil => rfl
  | cons head _ ih => rw [List.any_cons, List.any_cons, agree _ _ head, ih]

theorem forall₂_exists (h : ∀ a ∈ as, ∃ b, R a b) :
    ∃ bs, List.Forall₂ R as bs := by
  induction as with
  | nil => exact ⟨[], .nil⟩
  | cons a _ ih =>
    obtain ⟨b, head⟩ := h a (.head _)
    obtain ⟨bs, tail⟩ := ih (fun a' mem => h a' (.tail _ mem))
    exact ⟨b :: bs, .cons head tail⟩

theorem foldlM_ok_each {σ α ε : Type} {f : σ → α → Except ε σ} {P : α → Prop}
    (each : ∀ s a s', f s a = .ok s' → P a) (as : List α) {s s' : σ}
    (h : as.foldlM f s = .ok s') : ∀ a ∈ as, P a := by
  induction as generalizing s with
  | nil => simp
  | cons _ _ ih =>
    rw [List.foldlM_cons] at h
    obtain ⟨s₁, first, later⟩ := of_bind h
    intro b hb
    rcases mem_cons.mp hb with rfl | hb
    · exact each s b s₁ first
    · exact ih later b hb

theorem foldlM_ok_imp {σ α ε : Type} {f g : σ → α → Except ε σ}
    (imp : ∀ s a s', f s a = .ok s' → g s a = .ok s') {l : List α} {s s' : σ}
    (h : l.foldlM f s = .ok s') : l.foldlM g s = .ok s' := by
  induction l generalizing s with
  | nil => exact h
  | cons a l ih =>
    rw [List.foldlM_cons] at h ⊢
    obtain ⟨next, first, rest⟩ := of_bind h
    exact bind_eq_ok.mpr ⟨next, imp s a next first, ih rest⟩

end RssMdm.Lib.Fallible
