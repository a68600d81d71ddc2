import Mathlib.Algebra.Group.Nat.Defs
import Mathlib.Order.Bounds.Basic
import Mathlib.Tactic.Common

/-
  Powers of two: rounding a word up to one, and the places of a ring of that size.

  A word that is or-ed with itself shifted right, by one place and then by twice as many each
  time, has in the end a bit for every place with a bit at it or above (`Smeared`). One more than
  that is the least power of two above the word (`isLeast_of_smeared`).
-/

namespace PowerOfTwo

/-- Bit `i` of `u` says whether one of the `n` bits of `v` from `i` on is set. -/
def Smeared (v n u : Nat) : Prop :=
  ∀ i, u.testBit i = true ↔ ∃ j < n, v.testBit (i + j) = true

theorem smeared_one (v : Nat) : Smeared v 1 v := by
  intro i
  constructor
  · intro h
    exact ⟨0, Nat.zero_lt_one, h⟩
  · rintro ⟨j, hj, h⟩
    obtain rfl := Nat.lt_one_iff.mp hj
    exact h

/-- A shift by as many places as are seen doubles their number. -/
theorem Smeared.shift {v n u : Nat} (h : Smeared v n u) : Smeared v (n + n) (u ||| u >>> n) := by
  intro i
  rw [Nat.testBit_or, Nat.testBit_shiftRight, Bool.or_eq_true, h i, h (n + i)]
  constructor
  · rintro (⟨j, hj, hbit⟩ | ⟨j, hj, hbit⟩)
    · exact ⟨j, by omega, hbit⟩
    · exact ⟨n + j, by omega, by rwa [show i + (n + j) = n + i + j by omega]⟩
  · rintro ⟨j, hj, hbit⟩
    rcases Nat.lt_or_ge j n with hlt | hge
    · exact Or.inl ⟨j, hlt, hbit⟩
    · exact Or.inr ⟨j - n, by omega, by rwa [show n + i + (j - n) = i + j by omega]⟩

/-- A word that is smeared over its whole length has all bits up to its highest one. -/
theorem Smeared.eq {v n u : Nat} (h : Smeared v n u) (hpos : v ≠ 0) (hlt : v < 2 ^ n) :
    u = 2 ^ (v.log2 + 1) - 1 := by
  have hlog : v.log2 < n := (Nat.log2_lt hpos).mpr hlt
  refine Nat.eq_of_testBit_eq fun i => ?_
  rw [Nat.testBit_two_pow_sub_one, Bool.eq_iff_iff, h i, decide_eq_true_iff]
  constructor
  · rintro ⟨j, -, hbit⟩
    refine Nat.not_le.mp fun hle => ?_
    have hhigh : v < 2 ^ (i + j) :=
      Nat.lt_of_lt_of_le Nat.lt_log2_self (Nat.pow_le_pow_right (by decide) (by omega))
    rw [Nat.testBit_lt_two_pow hhigh] at hbit
    exact absurd hbit (by decide)
  · intro hi
    refine ⟨v.log2 - i, by omega, ?_⟩
    rw [show i + (v.log2 - i) = v.log2 by omega]
    exact Nat.testBit_log2 hpos

/-- One more than the smeared word is the least power of two above the word. -/
theorem isLeast_of_smeared {v n u : Nat} (h : Smeared v n u) (hpos : v ≠ 0) (hlt : v < 2 ^ n) :
    IsLeast {m | m.isPowerOfTwo ∧ v < m} (u + 1) := by
  have hpow : u + 1 = 2 ^ (v.log2 + 1) := by
    have := Nat.two_pow_pos (v.log2 + 1)
    rw [h.eq hpos hlt]
    omega
  rw [hpow]
  refine ⟨⟨⟨_, rfl⟩, Nat.lt_log2_self⟩, ?_⟩
  rintro m ⟨⟨k, rfl⟩, hm⟩
  exact Nat.pow_le_pow_right (by decide) ((Nat.log2_lt hpos).mpr hm)

/-! ## Places of a ring -/

/-- Two numbers less than a turn apart have different places. -/
theorem mod_ne_of_lt {n j k : Nat} (hlt : j < k) (hnear : k < j + n) : j % n ≠ k % n := by
  intro heq
  have hzero : (k - j) % n = 0 := Nat.sub_mod_eq_zero_of_mod_eq heq.symm
  rw [Nat.mod_eq_of_lt (by omega)] at hzero
  omega

/-- The place of a number is the one of its low bits, also after the number was cut to `w`
    bits. -/
theorem mod_and_mask {k w : Nat} (hk : k ≤ w) (x : Nat) :
    x % 2 ^ w &&& 2 ^ k - 1 = x % 2 ^ k := by
  rw [Nat.and_two_pow_sub_one_eq_mod, Nat.mod_mod_of_dvd _ (Nat.pow_dvd_pow 2 hk)]

end PowerOfTwo
