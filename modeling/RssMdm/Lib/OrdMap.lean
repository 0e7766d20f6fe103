/- module: Lib/OrdMap
   generality: library
   digest: Finite maps in key order. -/

import Mathlib.Algebra.Order.Ring.Int
import Mathlib.Data.Finset.Card
import Mathlib.Data.List.Pairwise
import RssMdm.Lib.Fallible

set_option autoImplicit false

namespace RssMdm.Lib

open Lib.Fallible
open List (find?_cons_of_neg map_cons mem_cons mem_cons_of_mem mem_map pairwise_cons pairwise_map)

structure OrdMap (κ ν : Type) [LinearOrder κ] where
  entries : List (κ × ν)
  sorted : entries.Pairwise (fun a b => a.1 < b.1)

namespace OrdMap

variable {κ ν μ : Type} [LinearOrder κ]

instance [DecidableEq ν] : DecidableEq (OrdMap κ ν) := fun a b =>
  decidable_of_iff (a.entries = b.entries) (by
    constructor
    · intro same
      cases a
      cases b
      simp_all
    · intro same
      rw [same])

def empty : OrdMap κ ν := ⟨[], List.Pairwise.nil⟩

def get? (m : OrdMap κ ν) (k : κ) : Option ν := (m.entries.find? (fun e => e.1 = k)).map Prod.snd

def contains (m : OrdMap κ ν) (k : κ) : Bool := (m.get? k).isSome

def keys (m : OrdMap κ ν) : List κ := m.entries.map Prod.fst

def values (m : OrdMap κ ν) : List ν := m.entries.map Prod.snd

def size (m : OrdMap κ ν) : Nat := m.entries.length

/-- The entry goes before the first greater key and replaces an equal one. -/
def insertEntry (k : κ) (v : ν) : List (κ × ν) → List (κ × ν)
  | [] => [(k, v)]
  | e :: rest =>
      if k < e.1 then (k, v) :: e :: rest
      else if k = e.1 then (k, v) :: rest
      else e :: insertEntry k v rest

variable {k : κ}

theorem mem_insertEntry {v : ν} {l : List (κ × ν)} {e : κ × ν} (h : e ∈ insertEntry k v l) :
    e = (k, v) ∨ e ∈ l := by
  induction l with
  | nil => exact .inl (List.mem_singleton.mp h)
  | cons _ _ ih =>
    rw [insertEntry] at h
    split at h
    · exact mem_cons.mp h
    split at h
    · rcases mem_cons.mp h with h | h
      · exact .inl h
      · exact .inr (.tail _ h)
    · rcases mem_cons.mp h with h | h
      · exact .inr (h ▸ List.mem_cons_self)
      · exact (ih h).imp id (mem_cons_of_mem _)

theorem pairwise_insertEntry {v : ν} {l : List (κ × ν)} (h : l.Pairwise (fun a b => a.1 < b.1)) :
    (insertEntry k v l).Pairwise (fun a b => a.1 < b.1) := by
  induction l with
  | nil => exact List.pairwise_singleton _ _
  | cons x rest ih =>
    obtain ⟨first, tail⟩ := pairwise_cons.mp h
    rw [insertEntry]
    split
    · rename_i less
      refine pairwise_cons.mpr ⟨?_, h⟩
      intro e he
      rcases mem_cons.mp he with rfl | he
      · exact less
      · exact less.trans (first e he)
    · rename_i notLess
      split
      · rename_i same
        exact pairwise_cons.mpr ⟨fun e he => same ▸ first e he, tail⟩
      rename_i differ
      refine pairwise_cons.mpr ⟨?_, ih tail⟩
      intro e he
      rcases mem_insertEntry he with rfl | he
      · exact lt_of_le_of_ne (not_lt.mp notLess) (Ne.symm differ)
      · exact first e he

def insert (m : OrdMap κ ν) (k : κ) (v : ν) : OrdMap κ ν :=
  ⟨insertEntry k v m.entries, pairwise_insertEntry m.sorted⟩

def mapValues (m : OrdMap κ ν) (f : κ → ν → μ) : OrdMap κ μ :=
  ⟨m.entries.map (fun e => (e.1, f e.1 e.2)), pairwise_map.mpr m.sorted⟩

def modify (m : OrdMap κ ν) (k : κ) (f : ν → ν) : OrdMap κ ν :=
  m.mapValues (fun j v => if j = k then f v else v)

variable {m : OrdMap κ ν}

theorem get?_eq_some {v : ν} : m.get? k = some v ↔ (k, v) ∈ m.entries := by
  obtain ⟨l, sorted⟩ := m
  show (l.find? (fun e => e.1 = k)).map Prod.snd = some v ↔ (k, v) ∈ l
  induction l with
  | nil => simp
  | cons x _ ih =>
    obtain ⟨first, tail⟩ := pairwise_cons.mp sorted
    by_cases same : x.1 = k
    · rw [List.find?_cons_of_pos (by simpa using same)]
      simp only [Option.map_some, Option.some.injEq, mem_cons]
      constructor
      · rintro rfl
        exact .inl (by rw [← same])
      · rintro (eq | later)
        · rw [← eq]
        · exact absurd (first (k, v) later) (by simp [same])
    · rw [find?_cons_of_neg (by simpa using same), ih tail]
      constructor
      · exact fun mem => .tail _ mem
      · intro mem
        rcases mem_cons.mp mem with eq | mem
        · exact absurd (by rw [← eq]) same
        · exact mem

theorem get?_eq_none : m.get? k = none ↔ k ∉ m.keys := by
  rw [← not_iff_not, not_not, ← Ne, Option.ne_none_iff_exists']
  constructor
  · rintro ⟨v, h⟩
    exact List.mem_map_of_mem (get?_eq_some.mp h)
  · intro mem
    obtain ⟨e, he, rfl⟩ := mem_map.mp mem
    exact ⟨e.2, get?_eq_some.mpr he⟩

theorem mem_keys : k ∈ m.keys ↔ ∃ v, m.get? k = some v := by
  rw [← not_iff_not, ← get?_eq_none, ← not_iff_not, not_not, ← Ne, Option.ne_none_iff_exists']

theorem nodup_keys (m : OrdMap κ ν) : m.keys.Nodup :=
  (pairwise_map.mpr m.sorted).imp ne_of_lt

theorem ext {m' : OrdMap κ ν} (h : ∀ k, m.get? k = m'.get? k) : m = m' := by
  have members : ∀ e, e ∈ m.entries ↔ e ∈ m'.entries := by
    intro e
    rw [← get?_eq_some, ← get?_eq_some, h]
  obtain ⟨l, sorted⟩ := m
  obtain ⟨l', sorted'⟩ := m'
  have nodup : ∀ {l : List (κ × ν)}, l.Pairwise (fun a b => a.1 < b.1) → l.Nodup :=
    fun sorted => sorted.imp (fun less same => absurd (same ▸ less) (lt_irrefl _))
  have perm : l.Perm l' := (List.perm_ext_iff_of_nodup (nodup sorted) (nodup sorted')).mpr members
  have same : l = l' :=
    perm.eq_of_pairwise (fun _ _ _ _ less more => absurd less (lt_asymm more)) sorted sorted'
  subst same
  rfl

theorem keys_ext {m' : OrdMap κ μ} (h : ∀ k, k ∈ m.keys ↔ k ∈ m'.keys) :
    m.keys = m'.keys := by
  have perm : m.keys.Perm m'.keys :=
    (List.perm_ext_iff_of_nodup m.nodup_keys m'.nodup_keys).mpr h
  have sorted : m.keys.Pairwise (· < ·) := pairwise_map.mpr m.sorted
  have sorted' : m'.keys.Pairwise (· < ·) := pairwise_map.mpr m'.sorted
  exact perm.eq_of_pairwise (fun _ _ _ _ less more => absurd less (lt_asymm more)) sorted sorted'

theorem keys_mapValues (m : OrdMap κ ν) (f : κ → ν → μ) : (m.mapValues f).keys = m.keys := by
  rw [keys, keys, mapValues, List.map_map]
  rfl

@[simp] theorem get?_empty (k : κ) : (empty : OrdMap κ ν).get? k = none := rfl

theorem get?_insert (m : OrdMap κ ν) (k j : κ) (v : ν) :
    (m.insert k v).get? j = if j = k then some v else m.get? j := by
  obtain ⟨l, sorted⟩ := m
  show ((insertEntry k v l).find? (fun e => e.1 = j)).map Prod.snd =
    if j = k then some v else (l.find? (fun e => e.1 = j)).map Prod.snd
  clear sorted
  induction l with
  | nil =>
    by_cases same : j = k
    · simp [insertEntry, same]
    · simp [insertEntry, same, Ne.symm same]
  | cons x rest ih =>
    rw [insertEntry]
    split
    · by_cases same : j = k
      · simp [same]
      · simp [same, Ne.symm same]
    split
    · rename_i here
      by_cases same : j = k
      · simp [same]
      · have other : ¬x.1 = j := fun h => same (h ▸ here.symm)
        rw [find?_cons_of_neg (by simpa using Ne.symm same), if_neg same,
          find?_cons_of_neg (by simpa using other)]
    · rename_i notLess differ
      by_cases there : x.1 = j
      · have same : ¬j = k := fun h => differ (h ▸ there.symm)
        rw [List.find?_cons_of_pos (by simpa using there), if_neg same,
          List.find?_cons_of_pos (by simpa using there)]
      · rw [find?_cons_of_neg (by simpa using there), ih,
          find?_cons_of_neg (by simpa using there)]

theorem get?_insert_cases {j : κ} {v w : ν} (found : (m.insert k v).get? j = some w) :
    j = k ∧ v = w ∨ j ≠ k ∧ m.get? j = some w := by
  rw [get?_insert] at found
  split at found
  · rename_i same
    exact .inl ⟨same, Option.some.inj found⟩
  · rename_i other
    exact .inr ⟨other, found⟩

theorem get?_insert_absent {j : κ} {v w : ν} (absent : m.get? k = none) (found : m.get? j = some w) :
    (m.insert k v).get? j = some w := by
  rw [get?_insert, if_neg]
  · exact found
  · rintro rfl
    rw [absent] at found
    cases found

theorem insert_insert (m : OrdMap κ ν) (k : κ) (v w : ν) :
    (m.insert k v).insert k w = m.insert k w := by
  apply ext
  intro j
  rw [get?_insert, get?_insert, get?_insert]
  split <;> rfl

theorem get?_mapValues (m : OrdMap κ ν) (f : κ → ν → μ) (k : κ) :
    (m.mapValues f).get? k = (m.get? k).map (f k) := by
  obtain ⟨l, sorted⟩ := m
  show ((l.map (fun e => (e.1, f e.1 e.2))).find? (fun e => e.1 = k)).map Prod.snd =
    ((l.find? (fun e => e.1 = k)).map Prod.snd).map (f k)
  clear sorted
  induction l with
  | nil => rfl
  | cons x _ ih =>
    by_cases same : x.1 = k
    · subst same
      simp
    · rw [map_cons, find?_cons_of_neg (by simpa using same), ih,
        find?_cons_of_neg (by simpa using same)]

theorem get?_modify (m : OrdMap κ ν) (k j : κ) (f : ν → ν) :
    (m.modify k f).get? j = if j = k then (m.get? j).map f else m.get? j := by
  rw [modify, get?_mapValues]
  by_cases same : j = k
  · rw [if_pos same]
    simp [same]
  · rw [if_neg same]
    simp [same]

theorem sum_modify {v : ν} (g : ν → Nat) (found : m.get? k = some v) (f : ν → ν) :
    ((m.modify k f).values.map g).sum + g v = (m.values.map g).sum + g (f v) := by
  have mem := get?_eq_some.mp found
  obtain ⟨l, sorted⟩ := m
  simp only [modify, mapValues, values, List.map_map, Function.comp_def]
  clear found
  induction l with
  | nil => cases mem
  | cons e rest ih =>
    obtain ⟨before, later⟩ := pairwise_cons.mp sorted
    simp only [map_cons, List.sum_cons]
    rcases mem_cons.mp mem with rfl | inside
    · have others : rest.map (fun e => g (if e.1 = k then f e.2 else e.2)) =
          rest.map (fun e => g e.2) := by
        apply List.map_congr_left
        intro e there
        rw [if_neg (before e there).ne']
      rw [if_pos rfl, others]
      dsimp only
      omega
    · have other : e.1 ≠ k := (before (k, v) inside).ne
      have rest' := ih later inside
      rw [if_neg other]
      omega

def filter (m : OrdMap κ ν) (p : κ → ν → Bool) : OrdMap κ ν :=
  ⟨m.entries.filter (fun e => p e.1 e.2), m.sorted.filter _⟩

theorem get?_filter (m : OrdMap κ ν) (p : κ → ν → Bool) (k : κ) :
    (m.filter p).get? k = (m.get? k).filter (p k) := by
  apply Option.ext
  intro v
  rw [get?_eq_some, Option.filter_eq_some_iff, get?_eq_some, filter, List.mem_filter]

theorem perm_insert (fresh : k ∉ m.keys) (v : ν) :
    (m.insert k v).entries.Perm ((k, v) :: m.entries) := by
  obtain ⟨l, sorted⟩ := m
  change k ∉ l.map Prod.fst at fresh
  show (insertEntry k v l).Perm ((k, v) :: l)
  clear sorted
  induction l with
  | nil => exact .refl _
  | cons x _ ih =>
    rw [map_cons, mem_cons, not_or] at fresh
    rw [insertEntry]
    split
    · exact .refl _
    · rw [if_neg fresh.1]
      exact ((ih fresh.2).cons x).trans (.swap _ _ _)

theorem eq_of_perm {m' : OrdMap κ ν} (perm : m.entries.Perm m'.entries) : m = m' := by
  apply ext
  intro k
  apply Option.ext
  intro v
  rw [get?_eq_some, get?_eq_some, perm.mem_iff]

theorem any_values {p : ν → Bool} :
    m.values.any p = true ↔ ∃ k v, m.get? k = some v ∧ p v = true := by
  simp only [values, List.any_eq_true, mem_map, get?_eq_some]
  constructor
  · rintro ⟨_, ⟨⟨k, v⟩, member, rfl⟩, holds⟩
    exact ⟨k, v, member, holds⟩
  · rintro ⟨k, v, member, holds⟩
    exact ⟨v, ⟨(k, v), member, rfl⟩, holds⟩

theorem any_entries {p : κ × ν → Bool} :
    m.entries.any p = true ↔ ∃ k v, m.get? k = some v ∧ p (k, v) = true := by
  simp only [List.any_eq_true, get?_eq_some, Prod.exists]

theorem entries_eq_nil : m.entries = [] ↔ ∀ k, m.get? k = none := by
  constructor
  · intro empty k
    rw [get?_eq_none, keys, empty]
    exact List.not_mem_nil
  · intro none
    rw [List.eq_nil_iff_forall_not_mem]
    rintro ⟨k, v⟩ member
    cases (get?_eq_some.mpr member).symm.trans (none k)

theorem foldl_insert_entries (m : OrdMap κ ν) (f : κ → ν → μ) :
    m.entries.foldl (fun (out : OrdMap κ μ) e => out.insert e.1 (f e.1 e.2)) empty =
      m.mapValues f := by
  have fold : ∀ (l : List (κ × ν)) (out : OrdMap κ μ), (l.map Prod.fst ++ out.keys).Nodup →
      (l.foldl (fun (out : OrdMap κ μ) e => out.insert e.1 (f e.1 e.2)) out).entries.Perm
        (l.map (fun e => (e.1, f e.1 e.2)) ++ out.entries) := by
    intro l
    induction l with
    | nil => exact fun out _ => .refl _
    | cons e l ih =>
      intro out nodup
      rw [map_cons, List.cons_append, List.nodup_cons] at nodup
      have fresh : e.1 ∉ out.keys := fun mem => nodup.1 (List.mem_append_right _ mem)
      have added := perm_insert fresh (f e.1 e.2)
      have keys : (l.map Prod.fst ++ (out.insert e.1 (f e.1 e.2)).keys).Nodup := by
        have perm : (l.map Prod.fst ++ (out.insert e.1 (f e.1 e.2)).keys).Perm
            (e.1 :: (l.map Prod.fst ++ out.keys)) :=
          ((added.map Prod.fst).append_left _).trans List.perm_middle
        exact perm.nodup_iff.mpr (List.nodup_cons.mpr nodup)
      rw [List.foldl_cons]
      exact ((ih _ keys).trans (added.append_left _)).trans List.perm_middle
  apply eq_of_perm
  have perm := fold m.entries empty (by simpa [empty, keys] using m.nodup_keys)
  simpa [empty, mapValues] using perm

/-- No key has two values. -/
def Agree {κ ν : Type} (entries : List (κ × ν)) : Prop :=
  ∀ a ∈ entries, ∀ b ∈ entries, a.1 = b.1 → a.2 = b.2

theorem Agree.of_subset {κ ν : Type} {entries entries' : List (κ × ν)} (h : Agree entries)
    (sub : ∀ e ∈ entries', e ∈ entries) : Agree entries' :=
  fun a ha b hb => h a (sub a ha) b (sub b hb)

def Holds (m : OrdMap κ ν) (entries : List (κ × ν)) : Prop :=
  ∀ k v, m.get? k = some v ↔ (k, v) ∈ entries

theorem holds_empty : Holds (empty : OrdMap κ ν) [] := by
  intro k v
  simp

variable {m : OrdMap κ ν} {entries : List (κ × ν)}

theorem Holds.agree (h : m.Holds entries) :
    Agree entries := by
  rintro ⟨k, v⟩ ha ⟨_, w⟩ hb rfl
  exact Option.some.inj (((h k v).mpr ha).symm.trans ((h k w).mpr hb))

theorem Holds.size (h : m.Holds entries) :
    m.size = (entries.map Prod.fst).toFinset.card := by
  have same : m.keys.toFinset = (entries.map Prod.fst).toFinset := by
    ext k
    simp only [List.mem_toFinset, mem_keys, mem_map]
    constructor
    · rintro ⟨v, hv⟩
      exact ⟨(k, v), (h k v).mp hv, rfl⟩
    · rintro ⟨⟨_, v⟩, hv, rfl⟩
      exact ⟨v, (h _ v).mpr hv⟩
  rw [← same, List.toFinset_card_of_nodup m.nodup_keys, keys, List.length_map]
  rfl

variable [DecidableEq ν]

/-- Insert unless the key has another value. -/
def insertSame (m : OrdMap κ ν) (k : κ) (v : ν) : Option (OrdMap κ ν) :=
  if (m.get? k).any (fun old => old ≠ v) then none else some (m.insert k v)

theorem Holds.insertSame (h : m.Holds entries) (k : κ) (v : ν) :
    (Agree (entries ++ [(k, v)]) ↔ (m.insertSame k v).isSome = true) ∧
      ∀ m', m.insertSame k v = some m' → m'.Holds (entries ++ [(k, v)]) := by
  have passes : Agree (entries ++ [(k, v)]) ↔ ¬(m.get? k).any (fun old => old ≠ v) = true := by
    constructor
    · intro agree
      cases found : m.get? k with
      | none => simp
      | some old =>
        have member := (h _ _).mp found
        have same : old = v := agree _ (List.mem_append_left _ member) (k, v) (by simp) rfl
        simp [same]
    · intro passes
      have fresh : ∀ w, (k, w) ∈ entries → w = v := by
        intro w member
        rw [(h k w).mpr member] at passes
        simpa using passes
      rintro ⟨j, w⟩ ha ⟨_, u⟩ hb rfl
      have member : ∀ x, (j, x) ∈ entries ++ [(k, v)] → (j, x) ∈ entries ∨ (j = k ∧ x = v) := by
        intro x hx
        simpa using hx
      rcases member w ha with earlier | ⟨here, value⟩ <;>
        rcases member u hb with earlier' | ⟨here', value'⟩
      · exact h.agree _ earlier _ earlier' rfl
      · exact (fresh w (here' ▸ earlier)).trans value'.symm
      · exact value.trans (fresh u (here ▸ earlier')).symm
      · exact value.trans value'.symm
  constructor
  · rw [passes, OrdMap.insertSame]
    split <;> simp_all
  · intro m' inserted
    have agree : Agree (entries ++ [(k, v)]) := by
      rw [passes]
      intro other
      rw [OrdMap.insertSame, if_pos other] at inserted
      cases inserted
    rw [OrdMap.insertSame, if_neg (passes.mp agree)] at inserted
    cases Option.some.inj inserted
    intro j w
    rw [get?_insert]
    constructor
    · intro found
      by_cases own : j = k
      · rw [if_pos own] at found
        rw [own, ← Option.some.inj found]
        simp
      · rw [if_neg own] at found
        exact List.mem_append_left _ ((h j w).mp found)
    · intro member
      by_cases own : j = k
      · have same : w = v := agree _ member (k, v) (by simp) own
        rw [if_pos own, same]
      · rw [if_neg own]
        rcases List.mem_append.mp member with earlier | last
        · exact (h j w).mpr earlier
        · exact absurd (congrArg Prod.fst (List.mem_singleton.mp last)) own

theorem Holds.foldlM {ε α : Type} {f : OrdMap κ ν → α → Except ε (OrdMap κ ν)} {P : α → Prop}
    {entry : α → κ × ν}
    (hf : ∀ m a m', f m a = .ok m' ↔ P a ∧ m.insertSame (entry a).1 (entry a).2 = some m')
    (as : List α) (h : m.Holds entries) :
    (∀ m', as.foldlM f m = .ok m' → (∀ a ∈ as, P a) ∧ m'.Holds (entries ++ as.map entry)) ∧
    ((∀ a ∈ as, P a) → Agree (entries ++ as.map entry) → ∃ m', as.foldlM f m = .ok m') := by
  induction as generalizing m entries with
  | nil =>
    constructor
    · rintro m' ⟨⟩
      exact ⟨by simp, by simpa using h⟩
    · intro _ _
      exact ⟨m, rfl⟩
  | cons a as ih =>
    obtain ⟨agrees, holds⟩ := h.insertSame (entry a).1 (entry a).2
    have split : entries ++ (a :: as).map entry = (entries ++ [entry a]) ++ as.map entry := by
      simp
    rw [split]
    constructor
    · intro m' ok
      rw [List.foldlM_cons] at ok
      obtain ⟨m₁, first, later⟩ := of_bind ok
      obtain ⟨passed, inserted⟩ := (hf m a m₁).mp first
      obtain ⟨others, held⟩ := (ih (holds m₁ inserted)).1 m' later
      refine ⟨?_, held⟩
      intro b hb
      rcases mem_cons.mp hb with rfl | hb
      · exact passed
      · exact others b hb
    · intro passed agree
      have first : Agree (entries ++ [entry a]) :=
        agree.of_subset (fun e he => List.mem_append_left _ he)
      obtain ⟨m₁, inserted⟩ := Option.isSome_iff_exists.mp (agrees.mp first)
      obtain ⟨m', later⟩ := (ih (holds m₁ inserted)).2
        (fun b hb => passed b (.tail _ hb)) agree
      have step := (hf m a m₁).mpr ⟨passed a (.head _), inserted⟩
      exact ⟨m', by rw [List.foldlM_cons, step, ok_bind, later]⟩

end OrdMap

abbrev OrdSet (κ : Type) [LinearOrder κ] := OrdMap κ Unit

namespace OrdSet

variable {κ : Type} [LinearOrder κ]

def ofList (l : List κ) : OrdSet κ := l.foldl (fun s k => s.insert k ()) .empty

theorem pairwise_keys (s : OrdSet κ) : s.keys.Pairwise (· < ·) := pairwise_map.mpr s.sorted

theorem mem_keys_insert (s : OrdSet κ) (k j : κ) :
    j ∈ (OrdMap.insert s k ()).keys ↔ j = k ∨ j ∈ s.keys := by
  rw [OrdMap.mem_keys, OrdMap.mem_keys, OrdMap.get?_insert]
  by_cases same : j = k
  · simp [same]
  · simp [same]

theorem mem_ofList {l : List κ} {k : κ} : k ∈ (ofList l).keys ↔ k ∈ l := by
  have fold : ∀ s : OrdSet κ, k ∈ (l.foldl (fun s k => .insert s k ()) s).keys ↔
      k ∈ l ∨ k ∈ s.keys := by
    induction l with
    | nil => simp
    | cons _ _ ih =>
      intro s
      rw [List.foldl_cons, ih, mem_keys_insert, mem_cons]
      tauto
  rw [ofList, fold]
  simp [OrdMap.empty, OrdMap.keys]

theorem ext_keys {s t : OrdSet κ} (h : ∀ k, k ∈ s.keys ↔ k ∈ t.keys) : s = t := by
  apply OrdMap.ext
  intro k
  apply Option.ext
  rintro ⟨⟩
  have unit : ∀ u : OrdSet κ, k ∈ u.keys ↔ OrdMap.get? u k = some () := by
    intro u
    rw [OrdMap.mem_keys]
    constructor
    · rintro ⟨⟨⟩, found⟩
      exact found
    · exact fun found => ⟨(), found⟩
  rw [← unit, ← unit]
  exact h k

theorem keys_eq_nil {s : OrdSet κ} : s.entries.isEmpty = true ↔ ∀ k, k ∉ s.keys := by
  rw [List.isEmpty_iff, OrdMap.keys]
  constructor
  · intro empty k
    simp [empty]
  · intro none
    apply List.map_eq_nil_iff.mp
    exact List.eq_nil_iff_forall_not_mem.mpr none

end OrdSet

end RssMdm.Lib
