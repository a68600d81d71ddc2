import Mathlib

/-
  Shift registers as remainders of polynomials over the field of two elements.

  A register of `w` bits stands for a polynomial of degree less than `w`, read in reflected
  order: the lowest bit is the highest coefficient (`toPoly`). `clock` moves a register one
  place down and puts the feedback word in where a bit fell out. In terms of polynomials it
  is a multiplication by `X` modulo `generator` (`toPoly_clock`), and registers are
  determined by their polynomials (`toPoly_injective`); so what a register holds after any
  number of steps is known as soon as it is known modulo the generator (`eq_of_dvd`).
-/

namespace ShiftRegister

open Polynomial

variable {w : Nat}

/-- A register as a polynomial: the lowest bit is the highest coefficient. -/
noncomputable def toPoly (r : BitVec w) : (ZMod 2)[X] :=
  ∑ k ∈ Finset.range w, if r.getLsbD (w - 1 - k) then X ^ k else 0

/-- One step: the register moves one place down, and the feedback word `poly` goes in if a
    bit fell out. -/
def clock (poly r : BitVec w) : BitVec w :=
  if r.getLsbD 0 then (r >>> 1) ^^^ poly else r >>> 1

/-- The polynomial the feedback word `poly` divides by. -/
noncomputable def generator (poly : BitVec w) : (ZMod 2)[X] := X ^ w + toPoly poly

/-! ## Registers and polynomials -/

theorem coeff_term (b : Bool) (n k : Nat) :
    (if b then (X : (ZMod 2)[X]) ^ n else 0).coeff k = if k = n ∧ b = true then 1 else 0 := by
  cases b <;> simp [coeff_X_pow]

theorem coeff_toPoly (r : BitVec w) (k : Nat) :
    (toPoly r).coeff k = if k < w ∧ r.getLsbD (w - 1 - k) = true then 1 else 0 := by
  rw [toPoly, finsetSum_coeff, Finset.sum_congr rfl fun i _ => coeff_term _ i k]
  simp only [ite_and, Finset.sum_ite_eq, Finset.mem_range]

theorem degree_toPoly_lt (r : BitVec w) : (toPoly r).degree < w := by
  rw [degree_lt_iff_coeff_zero]
  intro k hk
  rw [coeff_toPoly, if_neg (by omega)]

theorem toPoly_injective {r s : BitVec w} (h : toPoly r = toPoly s) : r = s := by
  apply BitVec.eq_of_getLsbD_eq
  intro i hi
  have hcoeff := congrArg (fun p => p.coeff (w - 1 - i)) h
  simp only [coeff_toPoly, show w - 1 - (w - 1 - i) = i by omega,
    show w - 1 - i < w by omega, true_and] at hcoeff
  cases hr : r.getLsbD i <;> cases hs : s.getLsbD i <;> simp_all

/-- In characteristic two a sum of bits is their exclusive or. -/
theorem bit_add (a b : Bool) :
    (if a then (1 : ZMod 2) else 0) + (if b then 1 else 0) = if a ^^ b then 1 else 0 := by
  cases a <;> cases b <;> decide

theorem toPoly_xor (r s : BitVec w) : toPoly (r ^^^ s) = toPoly r + toPoly s := by
  ext k
  rw [coeff_add, coeff_toPoly, coeff_toPoly, coeff_toPoly]
  by_cases hk : k < w
  · simpa only [hk, true_and, BitVec.getLsbD_xor] using (bit_add _ _).symm
  · simp [hk]

@[simp] theorem toPoly_zero : toPoly (0#w) = 0 := by
  ext k
  simp [coeff_toPoly]

/-- A register in the low places of a wider one has its coefficients further up. -/
theorem toPoly_setWidth {v : Nat} (r : BitVec v) (h : v ≤ w) :
    toPoly (r.setWidth w) = X ^ (w - v) * toPoly r := by
  ext k
  rw [coeff_X_pow_mul', coeff_toPoly, coeff_toPoly]
  by_cases hk : k < w
  · by_cases hv : w - v ≤ k
    · have hlast : w - 1 - k = v - 1 - (k - (w - v)) := by omega
      simp [hk, hv, hlast, show k - (w - v) < v by omega,
        show v - 1 - (k - (w - v)) < w by omega]
    · have hout : r.getLsbD (w - 1 - k) = false := BitVec.getLsbD_of_ge r _ (by omega)
      simp [hv, hout]
  · have hv : w - v ≤ k := by omega
    simp [hk, hv, show ¬ k - (w - v) < v by omega]

/-! ## The generator -/

theorem generator_monic (poly : BitVec w) : (generator poly).Monic :=
  monic_X_pow_add (degree_toPoly_lt poly)

theorem degree_generator (poly : BitVec w) : (generator poly).degree = w := by
  rw [generator, degree_add_eq_left_of_degree_lt, degree_X_pow]
  rw [degree_X_pow]
  exact degree_toPoly_lt poly

/-- What has fewer coefficients than the generator and is a multiple of it is zero. -/
theorem eq_zero_of_dvd {poly : BitVec w} {p : (ZMod 2)[X]} (h : generator poly ∣ p)
    (hp : p.degree < w) : p = 0 := by
  by_contra hne
  exact (generator_monic poly).not_dvd_of_degree_lt hne (by rwa [degree_generator]) h

/-- Registers that agree modulo the generator are equal. -/
theorem eq_of_dvd {poly r s : BitVec w} (h : generator poly ∣ toPoly r - toPoly s) : r = s := by
  have hzero := eq_zero_of_dvd h
    (lt_of_le_of_lt (degree_sub_le _ _) (max_lt (degree_toPoly_lt r) (degree_toPoly_lt s)))
  exact toPoly_injective (sub_eq_zero.mp hzero)

/-- What a register stands for is the remainder of anything it agrees with. -/
theorem eq_modByMonic {poly r : BitVec w} {p : (ZMod 2)[X]} (h : generator poly ∣ toPoly r - p) :
    toPoly r = p %ₘ generator poly := by
  have hmod := (modByMonic_eq_zero_iff_dvd (generator_monic poly)).mpr h
  rw [sub_modByMonic, sub_eq_zero] at hmod
  rw [← hmod, (modByMonic_eq_self_iff (generator_monic poly)).mpr]
  rw [degree_generator]
  exact degree_toPoly_lt r

/-! ## Steps -/

/-- A step multiplies by `X`, and takes the generator away where a bit fell out. -/
theorem toPoly_clock (poly r : BitVec w) :
    toPoly (clock poly r) = X * toPoly r + if r.getLsbD 0 then generator poly else 0 := by
  have hshift : toPoly (r >>> 1) = X * toPoly r + if r.getLsbD 0 then X ^ w else 0 := by
    ext k
    rw [coeff_add, coeff_toPoly, coeff_term, BitVec.getLsbD_ushiftRight]
    cases k with
    | zero =>
      have hout : r.getLsbD (1 + (w - 1 - 0)) = false := BitVec.getLsbD_of_ge r _ (by omega)
      rw [mul_coeff_zero, coeff_X_zero, zero_mul, zero_add, hout]
      by_cases hw : 0 = w
      · subst hw
        simp
      · simp [hw]
    | succ k =>
      rw [coeff_X_mul, coeff_toPoly]
      by_cases hk : k + 1 < w
      · have hplace : 1 + (w - 1 - (k + 1)) = w - 1 - k := by omega
        have hne : k + 1 ≠ w := by omega
        simp [hk, hne, hplace, show k < w by omega]
      · by_cases hlast : k + 1 = w
        · subst hlast
          simp [CharTwo.add_self_eq_zero]
        · simp [hk, hlast, show ¬ k < w by omega]
  unfold clock
  split
  · rename_i hbit
    rw [toPoly_xor, hshift, if_pos hbit, generator, add_assoc]
  · rename_i hbit
    rw [hshift, if_neg hbit]

/-- Any number of steps multiply by that power of `X`, modulo the generator. -/
theorem dvd_clock_iterate (poly r : BitVec w) (n : Nat) :
    generator poly ∣ toPoly ((clock poly)^[n] r) - X ^ n * toPoly r := by
  induction n generalizing r with
  | zero => simp
  | succ n ih =>
    rw [Function.iterate_succ_apply]
    have hstep : generator poly ∣ toPoly (clock poly r) - X * toPoly r := by
      rw [toPoly_clock, add_sub_cancel_left]
      split
      · exact dvd_rfl
      · exact dvd_zero _
    have hsum := dvd_add (ih (clock poly r)) (dvd_mul_of_dvd_right hstep (X ^ n))
    have heq : toPoly ((clock poly)^[n] (clock poly r)) - X ^ n * toPoly (clock poly r) +
        X ^ n * (toPoly (clock poly r) - X * toPoly r) =
        toPoly ((clock poly)^[n] (clock poly r)) - X ^ (n + 1) * toPoly r := by ring
    rwa [heq] at hsum

/-! ## Streams of bits -/

/-- A stream of bits as a polynomial: the first bit is the highest coefficient. -/
noncomputable def streamPoly : List Bool → (ZMod 2)[X]
  | [] => 0
  | b :: bs => (if b then X ^ bs.length else 0) + streamPoly bs

/-- The bits of a word, the lowest first. -/
def wordBits (x : BitVec w) : List Bool := (List.range w).map x.getLsbD

@[simp] theorem length_wordBits (x : BitVec w) : (wordBits x).length = w := by
  simp [wordBits]

theorem length_flatMap_wordBits (xs : List (BitVec w)) :
    (xs.flatMap wordBits).length = w * xs.length := by
  rw [List.length_flatMap, List.map_congr_left fun y _ => length_wordBits y, List.map_const',
    List.sum_replicate, smul_eq_mul, Nat.mul_comm]

theorem coeff_streamPoly (bs : List Bool) (k : Nat) :
    (streamPoly bs).coeff k =
      if k < bs.length ∧ bs.getD (bs.length - 1 - k) false = true then 1 else 0 := by
  induction bs with
  | nil => simp [streamPoly]
  | cons b bs ih =>
    rw [streamPoly, coeff_add, coeff_term, ih, List.length_cons]
    by_cases hlast : k = bs.length
    · subst hlast
      simp
    · by_cases hk : k < bs.length
      · have hplace : (b :: bs).getD (bs.length + 1 - 1 - k) false =
            bs.getD (bs.length - 1 - k) false := by
          rw [show bs.length + 1 - 1 - k = (bs.length - 1 - k) + 1 by omega, List.getD_cons_succ]
        rw [hplace]
        simp [hlast, hk, show k < bs.length + 1 by omega]
      · simp [hlast, hk, show ¬ k < bs.length + 1 by omega]

theorem streamPoly_append (as bs : List Bool) :
    streamPoly (as ++ bs) = X ^ bs.length * streamPoly as + streamPoly bs := by
  induction as with
  | nil => simp [streamPoly]
  | cons a as ih =>
    rw [List.cons_append, streamPoly, ih, streamPoly, List.length_append]
    split <;> ring

/-- The bits of a word are its register. -/
theorem streamPoly_wordBits (x : BitVec w) : streamPoly (wordBits x) = toPoly x := by
  ext k
  rw [coeff_streamPoly, coeff_toPoly, length_wordBits]
  by_cases hk : k < w
  · simp [hk, wordBits, List.getD_eq_getElem?_getD, show w - 1 - k < w by omega]
  · simp [hk]

/-- Put a word into the low end of the register and clock it through. -/
def absorbWord {v : Nat} (poly r : BitVec w) (x : BitVec v) : BitVec w :=
  (clock poly)^[v] (r ^^^ x.setWidth w)

/-- What the register holds after a list of words: the remainder of the stream of their
    bits, `w` places up, with what it held before in front. -/
theorem dvd_absorb {v : Nat} (h : v ≤ w) (poly r : BitVec w) (xs : List (BitVec v)) :
    generator poly ∣ toPoly (xs.foldl (absorbWord poly) r) -
      (X ^ (v * xs.length) * toPoly r + X ^ w * streamPoly (xs.flatMap wordBits)) := by
  induction xs generalizing r with
  | nil => simp [streamPoly]
  | cons x xs ih =>
    have hstep := dvd_clock_iterate poly (r ^^^ x.setWidth w) v
    rw [toPoly_xor, toPoly_setWidth x h] at hstep
    have hsum := dvd_add (ih (absorbWord poly r x))
      (dvd_mul_of_dvd_right hstep (X ^ (v * xs.length)))
    have hpow : (X : (ZMod 2)[X]) ^ w = X ^ v * X ^ (w - v) := by
      rw [← pow_add, Nat.add_sub_cancel' h]
    rw [List.foldl_cons, List.flatMap_cons, streamPoly_append, streamPoly_wordBits,
      length_flatMap_wordBits,
      List.length_cons, Nat.mul_succ, pow_add]
    have heq : ∀ s t : (ZMod 2)[X],
        s - (X ^ (v * xs.length) * toPoly (absorbWord poly r x) + X ^ w * t) +
          X ^ (v * xs.length) * (toPoly (absorbWord poly r x) -
            X ^ v * (toPoly r + X ^ (w - v) * toPoly x)) =
        s - (X ^ (v * xs.length) * X ^ v * toPoly r +
          X ^ w * (X ^ (v * xs.length) * toPoly x + t)) := by
      intro s t
      rw [hpow]
      ring
    rw [← heq]
    exact hsum

/-! ## Errors that are seen -/

/-- Two streams of words leave the same in a register exactly if their difference is a
    multiple of the generator, given that no step forgets a bit. -/
theorem absorb_eq_iff {v : Nat} (h : v ≤ w) {poly : BitVec w} (hp : IsCoprime X (generator poly))
    (r : BitVec w) {xs ys : List (BitVec v)} (hlen : xs.length = ys.length) :
    xs.foldl (absorbWord poly) r = ys.foldl (absorbWord poly) r ↔
      generator poly ∣ streamPoly (xs.flatMap wordBits) - streamPoly (ys.flatMap wordBits) := by
  have hx := dvd_absorb h poly r xs
  have hy := dvd_absorb h poly r ys
  have hsplit : toPoly (xs.foldl (absorbWord poly) r) - toPoly (ys.foldl (absorbWord poly) r) =
      toPoly (xs.foldl (absorbWord poly) r) -
        (X ^ (v * xs.length) * toPoly r + X ^ w * streamPoly (xs.flatMap wordBits)) -
      (toPoly (ys.foldl (absorbWord poly) r) -
        (X ^ (v * ys.length) * toPoly r + X ^ w * streamPoly (ys.flatMap wordBits))) +
      X ^ w * (streamPoly (xs.flatMap wordBits) - streamPoly (ys.flatMap wordBits)) := by
    rw [hlen]
    ring
  constructor
  · intro heq
    have hzero := hsplit
    rw [sub_eq_zero.mpr (congrArg toPoly heq)] at hzero
    have hdvd : generator poly ∣
        X ^ w * (streamPoly (xs.flatMap wordBits) - streamPoly (ys.flatMap wordBits)) :=
      (dvd_add_right (dvd_sub hx hy)).mp (hzero ▸ dvd_zero _)
    exact (hp.symm.pow_right).dvd_of_dvd_mul_left hdvd
  · intro hdvd
    have hagree : generator poly ∣
        toPoly (xs.foldl (absorbWord poly) r) - toPoly (ys.foldl (absorbWord poly) r) := by
      rw [hsplit]
      exact dvd_add (dvd_sub hx hy) (dvd_mul_of_dvd_right hdvd _)
    exact eq_of_dvd hagree

/-- The feedback word has its top bit, so that no step forgets one. -/
theorem isCoprime_generator {poly : BitVec w} (hw : 0 < w) (h : poly.getLsbD (w - 1) = true) :
    IsCoprime X (generator poly) := by
  have hconst : (generator poly).coeff 0 = 1 := by
    rw [generator, coeff_add, coeff_X_pow, if_neg (by omega), coeff_toPoly, zero_add, Nat.sub_zero,
      if_pos ⟨hw, h⟩]
  refine ⟨-(generator poly).divX, 1, ?_⟩
  have hdiv := divX_mul_X_add (generator poly)
  rw [hconst, map_one] at hdiv
  rw [one_mul]
  nth_rewrite 2 [← hdiv]
  ring

theorem coeff_streamPoly_sub {as bs : List Bool} (hlen : as.length = bs.length) {i : Nat}
    (hi : i < as.length) (h : as[i]? = bs[i]?) :
    (streamPoly as - streamPoly bs).coeff (as.length - 1 - i) = 0 := by
  have hplace : as.length - 1 - (as.length - 1 - i) = i := by omega
  rw [coeff_sub, coeff_streamPoly, coeff_streamPoly, ← hlen, hplace,
    List.getD_eq_getElem?_getD, List.getD_eq_getElem?_getD, h, sub_self]

theorem streamPoly_inj {as bs : List Bool} (hlen : as.length = bs.length)
    (h : streamPoly as = streamPoly bs) : as = bs := by
  apply List.ext_getElem hlen
  intro i hi hi'
  have hcoeff := congrArg (fun p => p.coeff (as.length - 1 - i)) h
  have hplace : as.length - 1 - (as.length - 1 - i) = i := by omega
  simp only [coeff_streamPoly, ← hlen, hplace, show as.length - 1 - i < as.length by omega,
    true_and, List.getD_eq_getElem?_getD, List.getElem?_eq_getElem hi,
    List.getElem?_eq_getElem hi', Option.getD_some] at hcoeff
  cases ha : as[i] <;> cases hb : bs[i] <;> simp_all

/-- A burst: streams that differ, but only inside a window no longer than the register, do
    not differ by a multiple of the generator. -/
theorem not_dvd_of_burst {poly : BitVec w} (hp : IsCoprime X (generator poly)) {as bs : List Bool}
    (hlen : as.length = bs.length) (hne : as ≠ bs) (s : Nat)
    (hburst : ∀ i, i < s ∨ s + w ≤ i → as[i]? = bs[i]?) :
    ¬ generator poly ∣ streamPoly as - streamPoly bs := by
  intro hdvd
  have hout : ∀ k, as.length ≤ k → (streamPoly as - streamPoly bs).coeff k = 0 := by
    intro k hk
    rw [coeff_sub, coeff_streamPoly, coeff_streamPoly, if_neg (by omega), if_neg (by omega),
      sub_self]
  have hsame : ∀ k, k < as.length → as.length - 1 - k < s ∨ s + w ≤ as.length - 1 - k →
      (streamPoly as - streamPoly bs).coeff k = 0 := by
    intro k hk hi
    have hcoeff := coeff_streamPoly_sub hlen (i := as.length - 1 - k) (by omega) (hburst _ hi)
    rwa [show as.length - 1 - (as.length - 1 - k) = k by omega] at hcoeff
  -- the difference is a power of `X` times what lies in the window
  obtain ⟨q, hq⟩ : X ^ (as.length - (s + w)) ∣ streamPoly as - streamPoly bs :=
    X_pow_dvd_iff.mpr fun k hk => hsame k (by omega) (by omega)
  have hdeg : q.degree < w := by
    rw [degree_lt_iff_coeff_zero]
    intro k hk
    rw [← coeff_X_pow_mul q (as.length - (s + w)) k, ← hq]
    by_cases hin : k + (as.length - (s + w)) < as.length
    · exact hsame _ hin (by omega)
    · exact hout _ (by omega)
  rw [hq] at hdvd
  have hzero : q = 0 := eq_zero_of_dvd (hp.symm.pow_right.dvd_of_dvd_mul_left hdvd) hdeg
  rw [hzero, mul_zero] at hq
  exact hne (streamPoly_inj hlen (sub_eq_zero.mp hq))

theorem lt_of_getElem?_ne {as bs : List Bool} (hlen : as.length = bs.length) {i : Nat}
    (h : as[i]? ≠ bs[i]?) : i < as.length := by
  by_contra hout
  rw [List.getElem?_eq_none (by omega), List.getElem?_eq_none (by omega)] at h
  exact h rfl

/-- Where two streams differ their difference has a coefficient. -/
theorem coeff_streamPoly_flip {as bs : List Bool} (hlen : as.length = bs.length) {i : Nat}
    (h : as[i]? ≠ bs[i]?) : (streamPoly as - streamPoly bs).coeff (as.length - 1 - i) = 1 := by
  have hia := lt_of_getElem?_ne hlen h
  have hib : i < bs.length := hlen ▸ hia
  have hplace : as.length - 1 - (as.length - 1 - i) = i := by omega
  have hin : as.length - 1 - i < as.length := by omega
  rw [List.getElem?_eq_getElem hia, List.getElem?_eq_getElem hib] at h
  rw [coeff_sub, coeff_streamPoly, coeff_streamPoly, ← hlen, hplace,
    List.getD_eq_getElem?_getD, List.getD_eq_getElem?_getD, List.getElem?_eq_getElem hia,
    List.getElem?_eq_getElem hib]
  cases ha : as[i] <;> cases hb : bs[i] <;> simp_all

/-- Streams that differ at exactly two places differ by two powers of `X`. -/
theorem streamPoly_sub_of_two {as bs : List Bool} (hlen : as.length = bs.length) {p q : Nat}
    (hpq : p < q) (hp : as[p]? ≠ bs[p]?) (hq : as[q]? ≠ bs[q]?)
    (htwo : ∀ i, i ≠ p → i ≠ q → as[i]? = bs[i]?) :
    streamPoly as - streamPoly bs = X ^ (as.length - 1 - q) * (X ^ (q - p) - 1) := by
  have hlt := lt_of_getElem?_ne hlen hq
  have hsum : (X : (ZMod 2)[X]) ^ (as.length - 1 - q) * (X ^ (q - p) - 1) =
      X ^ (as.length - 1 - p) - X ^ (as.length - 1 - q) := by
    rw [mul_sub, mul_one, ← pow_add]
    congr 2
    omega
  rw [hsum]
  ext k
  rw [coeff_sub (X ^ (as.length - 1 - p)), coeff_X_pow, coeff_X_pow]
  by_cases hk : k < as.length
  · by_cases hkp : k = as.length - 1 - p
    · rw [if_pos hkp, if_neg (by omega), hkp, coeff_streamPoly_flip hlen hp, sub_zero]
    · by_cases hkq : k = as.length - 1 - q
      · rw [if_neg hkp, if_pos hkq, hkq, coeff_streamPoly_flip hlen hq]
        decide
      · have hcoeff := coeff_streamPoly_sub hlen (i := as.length - 1 - k) (by omega)
          (htwo _ (by omega) (by omega))
        rw [show as.length - 1 - (as.length - 1 - k) = k by omega] at hcoeff
        rw [if_neg hkp, if_neg hkq, hcoeff, sub_zero]
  · rw [coeff_sub, coeff_streamPoly, coeff_streamPoly, if_neg (by omega), if_neg (by omega),
      if_neg (by omega), if_neg (by omega)]

/-- At most two bits: streams that agree except at two places do not differ by a multiple of
    a generator whose order is at least the length of the streams. -/
theorem not_dvd_of_two {poly : BitVec w} (hw : 0 < w) (hp : IsCoprime X (generator poly))
    {as bs : List Bool} (hlen : as.length = bs.length) (hne : as ≠ bs) (p q : Nat)
    (htwo : ∀ i, i ≠ p → i ≠ q → as[i]? = bs[i]?)
    (hord : ∀ d, 0 < d → d < as.length → ¬ generator poly ∣ X ^ d - 1) :
    ¬ generator poly ∣ streamPoly as - streamPoly bs := by
  -- one bit is a burst
  have hone : ∀ p, (∀ i, i ≠ p → as[i]? = bs[i]?) →
      ¬ generator poly ∣ streamPoly as - streamPoly bs := fun p h =>
    not_dvd_of_burst hp hlen hne p fun i hi => h i (by omega)
  by_cases hap : as[p]? = bs[p]?
  · refine hone q fun i hi => ?_
    by_cases hip : i = p
    · rw [hip, hap]
    · exact htwo i hip hi
  by_cases haq : as[q]? = bs[q]?
  · refine hone p fun i hi => ?_
    by_cases hiq : i = q
    · rw [hiq, haq]
    · exact htwo i hi hiq
  have hlt : ∀ p q : Nat, p < q → as[p]? ≠ bs[p]? → as[q]? ≠ bs[q]? →
      (∀ i, i ≠ p → i ≠ q → as[i]? = bs[i]?) →
      ¬ generator poly ∣ streamPoly as - streamPoly bs := by
    intro p q hpq hap haq htwo hdvd
    have hql := lt_of_getElem?_ne hlen haq
    rw [streamPoly_sub_of_two hlen hpq hap haq htwo] at hdvd
    exact hord (q - p) (by omega) (by omega) (hp.symm.pow_right.dvd_of_dvd_mul_left hdvd)
  rcases Nat.lt_trichotomy p q with hpq | hpq | hpq
  · exact hlt p q hpq hap haq htwo
  · exact hone p fun i hi => htwo i hi (hpq ▸ hi)
  · exact hlt q p hpq haq hap fun i hi hi' => htwo i hi' hi

/-! ## The order of the generator -/

section Order

variable (poly : BitVec w)

/-- The class of a register modulo the generator. -/
noncomputable def residue (r : BitVec w) : AdjoinRoot (generator poly) := AdjoinRoot.mk _ (toPoly r)

theorem residue_injective {r s : BitVec w} (h : residue poly r = residue poly s) : r = s :=
  eq_of_dvd (AdjoinRoot.mk_eq_mk.mp h)

theorem residue_xor (r s : BitVec w) :
    residue poly (r ^^^ s) = residue poly r + residue poly s := by
  rw [residue, toPoly_xor, map_add]
  rfl

theorem residue_clock (r : BitVec w) :
    residue poly (clock poly r) = AdjoinRoot.root (generator poly) * residue poly r := by
  rw [residue, toPoly_clock, map_add, map_mul, AdjoinRoot.mk_X]
  split
  · rw [AdjoinRoot.mk_self, add_zero]
    rfl
  · rw [map_zero, add_zero]
    rfl

/-- The product with the `n` highest coefficients of `b`. -/
def mulFrom (a b : BitVec w) : Nat → BitVec w
  | 0 => 0#w
  | n + 1 => clock poly (mulFrom a b n) ^^^ if b.getLsbD n then a else 0#w

def mul (a b : BitVec w) : BitVec w := mulFrom poly a b w

/-- `a` to the power `e`, of which `n` bits are looked at. -/
def pow (a : BitVec w) : Nat → Nat → BitVec w
  | 0, _ => BitVec.twoPow w (w - 1)
  | n + 1, e =>
    if e % 2 = 1 then mul poly (mul poly (pow a n (e / 2)) (pow a n (e / 2))) a
    else mul poly (pow a n (e / 2)) (pow a n (e / 2))

theorem residue_mulFrom (a b : BitVec w) (n : Nat) :
    residue poly (mulFrom poly a b n) =
      residue poly a * AdjoinRoot.mk _ (streamPoly ((List.range n).map b.getLsbD)) := by
  induction n with
  | zero => simp [mulFrom, residue, streamPoly]
  | succ n ih =>
    rw [mulFrom, residue_xor, residue_clock, ih, List.range_succ, List.map_append,
      streamPoly_append, map_add, map_mul, map_pow, AdjoinRoot.mk_X]
    cases hb : b.getLsbD n with
    | false =>
      simp only [residue, streamPoly, hb, List.map_cons, List.map_nil, List.length_singleton,
        pow_one, if_false, Bool.false_eq_true, toPoly_zero, map_zero, add_zero]
      ring
    | true =>
      simp only [streamPoly, hb, List.map_cons, List.map_nil, List.length_singleton,
        List.length_nil, pow_one, pow_zero, if_true, map_one, add_zero]
      ring

theorem residue_mul (a b : BitVec w) :
    residue poly (mul poly a b) = residue poly a * residue poly b := by
  rw [mul, residue_mulFrom, show (List.range w).map b.getLsbD = wordBits b from rfl,
    streamPoly_wordBits]
  rfl

theorem residue_one (hw : 0 < w) : residue poly (BitVec.twoPow w (w - 1)) = 1 := by
  have hone : toPoly (BitVec.twoPow w (w - 1)) = 1 := by
    ext k
    rw [coeff_toPoly, coeff_one, BitVec.getLsbD_twoPow]
    by_cases hk : k = 0
    · subst hk
      simp [hw]
    · simp [hk]
      omega
  rw [residue, hone, map_one]

theorem residue_pow (hw : 0 < w) (a : BitVec w) (n e : Nat) (h : e < 2 ^ n) :
    residue poly (pow poly a n e) = residue poly a ^ e := by
  induction n generalizing e with
  | zero =>
    obtain rfl : e = 0 := by omega
    rw [pow, residue_one poly hw, pow_zero]
  | succ n ih =>
    have hhalf := ih (e / 2) (by omega)
    rw [pow]
    split
    · rename_i hodd
      rw [residue_mul, residue_mul, hhalf, ← pow_add, ← pow_succ]
      congr 1
      omega
    · rw [residue_mul, hhalf, ← pow_add]
      congr 1
      omega

theorem residue_X (hw : 1 < w) :
    residue poly (BitVec.twoPow w (w - 2)) = AdjoinRoot.root (generator poly) := by
  have hx : toPoly (BitVec.twoPow w (w - 2)) = X := by
    ext k
    rw [coeff_toPoly, coeff_X, BitVec.getLsbD_twoPow]
    by_cases hk : 1 = k
    · subst hk
      simp [hw, show w - 2 < w by omega, show w - 1 - 1 = w - 2 by omega]
    · simp [hk]
      omega
  rw [residue, hx, AdjoinRoot.mk_X]

end Order

end ShiftRegister
