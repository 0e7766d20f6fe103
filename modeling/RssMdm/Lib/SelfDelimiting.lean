/- module: Lib/SelfDelimiting
   generality: library
   digest: Encoders whose words split off the front of any longer word without ambiguity. -/

import Mathlib.Algebra.Order.Ring.Int
import Mathlib.Data.Set.Function
import Mathlib.Data.List.Basic

set_option autoImplicit false

namespace RssMdm.Lib.SelfDelimiting

open List (append_assoc flatMap_cons mem_cons_of_mem mem_cons_self)

/-- Two words of `enc` that start the same longer word are the same word, for values in `dom`. -/
def IsSelfDelimiting {α β : Type} (dom : Set α) (enc : α → List β) : Prop :=
  ∀ a ∈ dom, ∀ b ∈ dom, ∀ r s : List β, enc a ++ r = enc b ++ s → a = b ∧ r = s

variable {β α : Type} {enc : α → List β} {dom : Set α}

theorem IsSelfDelimiting.of_fixed_length (n : Nat) (hlen : ∀ a ∈ dom, (enc a).length = n)
    (hinj : Set.InjOn enc dom) :
    IsSelfDelimiting dom enc := by
  intro a ha b hb r s heq
  have hsame : (enc a).length = (enc b).length := by rw [hlen a ha, hlen b hb]
  obtain ⟨henc, hrest⟩ := List.append_inj heq hsame
  exact ⟨hinj ha hb henc, hrest⟩

theorem IsSelfDelimiting.length_prefixed {bound : Nat} {num : Nat → List β}
    (h : IsSelfDelimiting {n | n < bound} num) :
    IsSelfDelimiting {w : List β | w.length < bound} (fun w => num w.length ++ w) := by
  intro a ha b hb r s heq
  simp only [append_assoc] at heq
  obtain ⟨hlen, hrest⟩ := h a.length ha b.length hb _ _ heq
  exact List.append_inj hrest hlen

theorem IsSelfDelimiting.pair {γ : Type} {da : Set α} {db : Set γ} {ea : α → List β}
    {eb : γ → List β} (ha : IsSelfDelimiting da ea) (hb : IsSelfDelimiting db eb) :
    IsSelfDelimiting {p : α × γ | p.1 ∈ da ∧ p.2 ∈ db} (fun p => ea p.1 ++ eb p.2) := by
  rintro ⟨a, c⟩ ⟨hac, hcc⟩ ⟨b, d⟩ ⟨hbd, hdd⟩ r s heq
  simp only [append_assoc] at heq
  obtain ⟨rfl, hrest⟩ := ha a hac b hbd _ _ heq
  obtain ⟨rfl, hend⟩ := hb c hcc d hdd _ _ hrest
  exact ⟨rfl, hend⟩

theorem IsSelfDelimiting.comap {γ : Type} (h : IsSelfDelimiting dom enc) {f : γ → α}
    (hf : Function.Injective f) :
    IsSelfDelimiting {c | f c ∈ dom} (fun c => enc (f c)) := by
  intro a ha b hb r s heq
  obtain ⟨hsame, hrest⟩ := h (f a) ha (f b) hb r s heq
  exact ⟨hf hsame, hrest⟩

theorem IsSelfDelimiting.mono {dom' : Set α} (h : IsSelfDelimiting dom enc)
    (hsub : ∀ a ∈ dom', a ∈ dom) : IsSelfDelimiting dom' enc :=
  fun a ha b hb r s heq => h a (hsub a ha) b (hsub b hb) r s heq

theorem IsSelfDelimiting.flatMap (h : IsSelfDelimiting dom enc) {as bs : List α}
    (ha : ∀ a ∈ as, a ∈ dom) (hb : ∀ b ∈ bs, b ∈ dom) (hlen : as.length = bs.length) {r s : List β}
    (heq : as.flatMap enc ++ r = bs.flatMap enc ++ s) :
    as = bs ∧ r = s := by
  induction as generalizing bs with
  | nil =>
    cases bs with
    | nil => exact ⟨rfl, heq⟩
    | cons => cases hlen
  | cons a _ ih =>
    cases bs with
    | nil => cases hlen
    | cons b =>
      simp only [flatMap_cons, append_assoc] at heq
      obtain ⟨rfl, hrest⟩ := h a (ha a (.head _)) b (hb b (.head _)) _ _ heq
      obtain ⟨rfl, hend⟩ := ih (fun x hx => ha x (.tail _ hx))
        (fun x hx => hb x (.tail _ hx)) (Nat.succ.inj hlen) hrest
      exact ⟨rfl, hend⟩

theorem IsSelfDelimiting.counted {bound : Nat} {num : Nat → List β}
    (hnum : IsSelfDelimiting {n | n < bound} num) (h : IsSelfDelimiting dom enc) :
    IsSelfDelimiting {as : List α | as.length < bound ∧ ∀ a ∈ as, a ∈ dom}
      (fun as => num as.length ++ as.flatMap enc) := by
  intro as ha bs hb r s heq
  simp only [append_assoc] at heq
  obtain ⟨hlen, hrest⟩ := hnum _ ha.1 _ hb.1 _ _ heq
  exact h.flatMap ha.2 hb.2 hlen hrest

theorem IsSelfDelimiting.terminated (h : IsSelfDelimiting dom enc) (mark : β)
    (head : ∀ a, ∃ c rest, enc a = c :: rest ∧ c ≠ mark) :
    IsSelfDelimiting {as : List α | ∀ a ∈ as, a ∈ dom} (fun as => as.flatMap enc ++ [mark]) := by
  intro as ha bs hb r s heq
  simp only [append_assoc, List.singleton_append] at heq
  induction as generalizing bs with
  | nil =>
    cases bs with
    | nil => exact ⟨rfl, (List.cons.inj heq).2⟩
    | cons b =>
      obtain ⟨c, rest, first, other⟩ := head b
      rw [List.flatMap_nil, flatMap_cons, first] at heq
      exact absurd (List.cons.inj heq).1.symm other
  | cons a _ ih =>
    cases bs with
    | nil =>
      obtain ⟨c, rest, first, other⟩ := head a
      rw [List.flatMap_nil, flatMap_cons, first] at heq
      exact absurd (List.cons.inj heq).1 other
    | cons b bs =>
      simp only [flatMap_cons, append_assoc] at heq
      obtain ⟨rfl, hrest⟩ := h a (ha a (.head _)) b (hb b (.head _)) _ _ heq
      obtain ⟨rfl, hend⟩ := ih (fun x hx => ha x (.tail _ hx)) bs
        (fun x hx => hb x (.tail _ hx)) hrest
      exact ⟨rfl, hend⟩

theorem isSelfDelimiting_terminated (mark : β) :
    IsSelfDelimiting {w : List β | mark ∉ w} (fun w => w ++ [mark]) := by
  intro a ha b hb r s heq
  simp only [append_assoc, List.singleton_append] at heq
  induction a generalizing b with
  | nil =>
    cases b with
    | nil => exact ⟨rfl, (List.cons.inj heq).2⟩
    | cons => exact absurd ((List.cons.inj heq).1 ▸ mem_cons_self) hb
  | cons _ _ ih =>
    cases b with
    | nil => exact absurd ((List.cons.inj heq).1 ▸ mem_cons_self) ha
    | cons _ b =>
      obtain ⟨rfl, htail⟩ := List.cons.inj heq
      obtain ⟨rfl, hrest⟩ := ih (fun mem => ha (.tail _ mem)) b
        (fun mem => hb (.tail _ mem)) htail
      exact ⟨rfl, hrest⟩

/-- The four big-endian octets of a 32-bit number; larger numbers wrap as a cast does. -/
def beBytes32 (n : Nat) : List UInt8 :=
  [UInt8.ofNat (n / 2 ^ 24), UInt8.ofNat (n / 2 ^ 16), UInt8.ofNat (n / 2 ^ 8), UInt8.ofNat n]

/-- The eight big-endian octets of a 64-bit number; larger numbers wrap as a cast does. -/
def beBytes (n : Nat) : List UInt8 :=
  [UInt8.ofNat (n / 2 ^ 56), UInt8.ofNat (n / 2 ^ 48), UInt8.ofNat (n / 2 ^ 40),
    UInt8.ofNat (n / 2 ^ 32), UInt8.ofNat (n / 2 ^ 24), UInt8.ofNat (n / 2 ^ 16),
    UInt8.ofNat (n / 2 ^ 8), UInt8.ofNat n]

private theorem ofNat_inj_mod {a b : Nat} (h : UInt8.ofNat a = UInt8.ofNat b) :
    a % 256 = b % 256 := by
  have hnat := congrArg UInt8.toNat h
  simpa using hnat

theorem isSelfDelimiting_beBytes : IsSelfDelimiting {n : Nat | n < 2 ^ 64} beBytes := by
  apply IsSelfDelimiting.of_fixed_length 8
  · intro a _
    rfl
  · intro a ha b hb heq
    simp only [Set.mem_ofPred_eq] at ha hb
    simp only [beBytes, List.cons.injEq, and_true] at heq
    obtain ⟨h7, h6, h5, h4, h3, h2, h1, h0⟩ := heq
    have m7 := ofNat_inj_mod h7
    have m6 := ofNat_inj_mod h6
    have m5 := ofNat_inj_mod h5
    have m4 := ofNat_inj_mod h4
    have m3 := ofNat_inj_mod h3
    have m2 := ofNat_inj_mod h2
    have m1 := ofNat_inj_mod h1
    have m0 := ofNat_inj_mod h0
    omega

theorem isSelfDelimiting_beBytes32 : IsSelfDelimiting {n : Nat | n < 2 ^ 32} beBytes32 := by
  apply IsSelfDelimiting.of_fixed_length 4
  · intro a _
    rfl
  · intro a ha b hb heq
    simp only [Set.mem_ofPred_eq] at ha hb
    simp only [beBytes32, List.cons.injEq, and_true] at heq
    obtain ⟨h3, h2, h1, h0⟩ := heq
    have m3 := ofNat_inj_mod h3
    have m2 := ofNat_inj_mod h2
    have m1 := ofNat_inj_mod h1
    have m0 := ofNat_inj_mod h0
    omega

end RssMdm.Lib.SelfDelimiting
