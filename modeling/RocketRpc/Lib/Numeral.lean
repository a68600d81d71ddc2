import Mathlib.Data.Nat.Digits.Defs
import Mathlib.Order.Monotone.Basic

/-
  Numerals of a fixed width, most significant digit first.

  `value b f l` is the number that `l` writes in base `b`; `f` is the value of a letter. Numerals of
  one length have the order of their values (`lt_iff_value_lt`). Behind its last letter that is
  not the greatest digit, a numeral has greatest digits only (`eq_replicate_or_carry`), and the
  next one has the next digit there and zeros behind it (`value_carry`).
-/

namespace Numeral

universe u

variable {α : Type u} {b : Nat} {f : α → Nat}

def value (b : Nat) (f : α → Nat) (l : List α) : Nat := Nat.ofDigits b (l.reverse.map f)

theorem value_append (l m : List α) :
    value b f (l ++ m) = value b f l * b ^ m.length + value b f m := by
  rw [value, List.reverse_append, List.map_append, Nat.ofDigits_append, List.length_map,
    List.length_reverse, Nat.add_comm, Nat.mul_comm]
  rfl

theorem value_cons (x : α) (l : List α) :
    value b f (x :: l) = f x * b ^ l.length + value b f l := by
  have hone : value b f [x] = f x := Nat.ofDigits_singleton
  rw [← List.singleton_append, value_append, hone]

theorem value_replicate_zero {z : α} (hz : f z = 0) (k : Nat) :
    value b f (List.replicate k z) = 0 := by
  induction k with
  | zero => rfl
  | succ k ih => rw [List.replicate_succ, value_cons, hz, ih, Nat.zero_mul]

/-- The greatest numeral of a width. -/
theorem value_replicate_last {x : α} (hx : f x + 1 = b) (k : Nat) :
    value b f (List.replicate k x) + 1 = b ^ k := by
  induction k with
  | zero => rfl
  | succ k ih =>
    rw [List.replicate_succ, value_cons, List.length_replicate, Nat.add_assoc, ih, Nat.pow_succ,
      ← hx, Nat.mul_add, Nat.mul_comm]
    omega

/-! ## Counting up -/

/-- The greatest digits at the end become zeros, and the digit in front of them the next one. -/
theorem value_carry {x z d e : α} (hx : f x + 1 = b) (hz : f z = 0) (he : f e = f d + 1)
    (l : List α) (k : Nat) :
    value b f (l ++ e :: List.replicate k z) =
      value b f (l ++ d :: List.replicate k x) + 1 := by
  have hlast := value_replicate_last hx k
  rw [value_append, value_append, value_cons, value_cons, value_replicate_zero hz, he]
  simp only [List.length_cons, List.length_replicate, Nat.add_mul]
  omega

theorem eq_replicate_or_carry [DecidableEq α] (x : α) (l : List α) :
    l = List.replicate l.length x ∨
      ∃ m d k, d ≠ x ∧ l = m ++ d :: List.replicate k x := by
  induction l with
  | nil => exact Or.inl rfl
  | cons y l ih =>
    rcases ih with hall | ⟨m, d, k, hd, hl⟩
    · by_cases hy : y = x
      · left
        rw [hy, List.length_cons, List.replicate_succ, ← hall]
      · exact Or.inr ⟨[], y, l.length, hy, by rw [List.nil_append, ← hall]⟩
    · exact Or.inr ⟨y :: m, d, k, hd, by rw [hl, List.cons_append]⟩

/-! ## The order -/

/-- A greater first digit outweighs what is behind it. -/
theorem value_cons_lt {x y : α} {l m : List α} (hxy : f x < f y)
    (hl : value b f l < b ^ l.length) (hlength : l.length = m.length) :
    value b f (x :: l) < value b f (y :: m) := by
  have hle : (f x + 1) * b ^ l.length ≤ f y * b ^ l.length := Nat.mul_le_mul_right _ hxy
  rw [Nat.succ_mul] at hle
  rw [value_cons, value_cons, ← hlength]
  omega

/-- The letters of `s` have values below the base, in their order. -/
structure Digits [LT α] (b : Nat) (f : α → Nat) (s : Set α) : Prop where
  value_lt : ∀ x ∈ s, f x < b
  injOn : Set.InjOn f s
  lt_iff : ∀ x ∈ s, ∀ y ∈ s, x < y ↔ f x < f y

section

variable [LT α] {s : Set α}

theorem value_lt (hs : Digits b f s) {l : List α} (hl : ∀ x ∈ l, x ∈ s) :
    value b f l < b ^ l.length := by
  induction l with
  | nil => exact Nat.one_pos
  | cons x l ih =>
    have hx : f x + 1 ≤ b := hs.value_lt x (hl x List.mem_cons_self)
    have htail := ih fun y hy => hl y (List.mem_cons_of_mem x hy)
    calc value b f (x :: l) = f x * b ^ l.length + value b f l := value_cons x l
      _ < f x * b ^ l.length + b ^ l.length := Nat.add_lt_add_left htail _
      _ = (f x + 1) * b ^ l.length := (Nat.succ_mul _ _).symm
      _ ≤ b * b ^ l.length := Nat.mul_le_mul_right _ hx
      _ = b ^ (x :: l).length := Nat.pow_succ'.symm

theorem lt_iff_value_lt (hs : Digits b f s) {l m : List α} (hl : ∀ x ∈ l, x ∈ s)
    (hm : ∀ x ∈ m, x ∈ s) (hlength : l.length = m.length) :
    l < m ↔ value b f l < value b f m := by
  induction l generalizing m with
  | nil =>
    rw [List.length_eq_zero_iff.mp hlength.symm]
    simp
  | cons x l ih =>
    cases m with
    | nil => exact absurd hlength (Nat.succ_ne_zero _)
    | cons y m =>
      have hx := hl x List.mem_cons_self
      have hy := hm y List.mem_cons_self
      have hl' : ∀ z ∈ l, z ∈ s := fun z hz => hl z (List.mem_cons_of_mem x hz)
      have hm' : ∀ z ∈ m, z ∈ s := fun z hz => hm z (List.mem_cons_of_mem y hz)
      have hlength' := Nat.succ.inj hlength
      rw [List.cons_lt_cons_iff, hs.lt_iff x hx y hy, ih hl' hm' hlength']
      rcases Nat.lt_trichotomy (f x) (f y) with hlt | heq | hgt
      · exact iff_of_true (Or.inl hlt) (value_cons_lt hlt (value_lt hs hl') hlength')
      · have hxy := hs.injOn hx hy heq
        rw [value_cons, value_cons, hlength', hxy]
        simp
      · have hmore := value_cons_lt hgt (value_lt hs hm') hlength'.symm
        refine iff_of_false ?_ (Nat.lt_asymm hmore)
        rintro (hlt | ⟨rfl, -⟩)
        · exact Nat.lt_asymm hgt hlt
        · exact Nat.lt_irrefl _ hgt

end

end Numeral
