import RocketRpc.Common.EtcdAnswer
import RocketRpc.Lib.PrefixOrder

/-
  The range of a prefix (`EtcdRegistry::base64RangeEnd`).

  The loop looks for the last byte that can be incremented, from `static_cast<int>` of the size
  on downwards (`incrementLast_cases`). That is the end of the keys with this prefix if it sees
  every byte but ones that cannot be incremented (`rangeEnd_iff`), and so for every prefix of
  less than 2 GiB. (Where that `int` is the least one, and taking 1 off it overflows, the model
  has the loop see no byte.)
-/

namespace RocketRpc.Registry

open RocketRpc.Tcp PrefixOrder

/-! ## The last byte that can be incremented -/

theorem greatest_of_all {t : Bytes} (ht : ∀ c ∈ t, c = 0xff) : Greatest t := by
  intro y hy c hc
  rw [ht y hy, UInt8.lt_iff_toNat_lt] at hc
  have hmax : (0xff : UInt8).toNat = 255 := rfl
  have hlt := c.toNat_lt
  omega

theorem lt_succ_iff {b : UInt8} (hb : b < 0xff) (c : UInt8) : c < b + 1 ↔ ¬ b < c := by
  have hmax : (0xff : UInt8).toNat = 255 := rfl
  have hone : (1 : UInt8).toNat = 1 := rfl
  rw [UInt8.lt_iff_toNat_lt, hmax] at hb
  rw [UInt8.lt_iff_toNat_lt, UInt8.lt_iff_toNat_lt, UInt8.toNat_add, hone]
  omega

/-- The loop ends at a byte that is not `0xff`, or there is none. -/
theorem incrementLast_cases {key : Bytes} {i : Nat} (hi : i ≤ key.length) :
    (incrementLast key i = [0] ∧ ∀ c ∈ key.take i, c = 0xff) ∨
      ∃ q b t, key.take i = q ++ b :: t ∧ b < 0xff ∧ (∀ c ∈ t, c = 0xff) ∧
        incrementLast key i = q ++ [b + 1] := by
  induction i with
  | zero => exact Or.inl ⟨rfl, by simp⟩
  | succ i ih =>
    have hat : key.getD i 0 = key[i] := by
      rw [List.getD_eq_getElem?_getD, List.getElem?_eq_getElem hi, Option.getD_some]
    have htake : key.take (i + 1) = key.take i ++ [key[i]] := List.take_succ_eq_append_getElem hi
    rw [incrementLast, hat, htake]
    split
    · rename_i hbyte
      exact Or.inr ⟨key.take i, key[i], [], rfl, hbyte, by simp, rfl⟩
    · rename_i hbyte
      have hmax : key[i] = 0xff := by
        rw [UInt8.lt_iff_toNat_lt] at hbyte
        have hff : (0xff : UInt8).toNat = 255 := rfl
        have hlt := key[i].toNat_lt
        exact UInt8.toNat_inj.mp (by omega)
      rcases ih (by omega) with ⟨hend, hall⟩ | ⟨q, b, t, hsplit, hb, ht, hend⟩
      · refine Or.inl ⟨hend, fun c hc => ?_⟩
        rcases List.mem_append.mp hc with hc | hc
        · exact hall c hc
        · exact (List.mem_singleton.mp hc).trans hmax
      · refine Or.inr ⟨q, b, t ++ [key[i]], ?_, hb, fun c hc => ?_, hend⟩
        · rw [hsplit, List.append_assoc, List.cons_append]
        · rcases List.mem_append.mp hc with hc | hc
          · exact ht c hc
          · exact (List.mem_singleton.mp hc).trans hmax

/-- What starts like the key is before the incremented one. -/
theorem lt_incrementLast {key other : Bytes} {i : Nat} (hi : i ≤ key.length)
    (h : key.take i <+: other) : incrementLast key i = [0] ∨ other < incrementLast key i := by
  rcases incrementLast_cases hi with ⟨hend, -⟩ | ⟨q, b, t, hsplit, hb, ht, hend⟩
  · exact Or.inl hend
  · rw [hsplit] at h
    rw [hend]
    exact Or.inr ((prefix_iff_range (lt_succ_iff hb) (greatest_of_all ht) other).mp h).2

theorem intSize_le (n : Nat) : intSize n ≤ n := by
  unfold intSize
  have h := Int.bmod_def (n : Int) 4294967296
  split at h <;> omega

/-! ## The range -/

/-- The texts with a prefix are those from it up to the end that `base64RangeEnd` writes, or all
    from it on if that is a zero byte, which it is for a prefix of `0xff` only. -/
def PrefixRange (p : Bytes) : Prop :=
  ∃ e, base64RangeEnd p = base64Encode e ∧
    (∀ x, p <+: x ↔ p ≤ x ∧ (e = [0] ∨ x < e)) ∧ (e = [0] ↔ ∀ b ∈ p, b = 0xff)

theorem append_succ_ne {q : Bytes} {b : UInt8} (hb : b < 0xff) : q ++ [b + 1] ≠ [0] := by
  intro h
  have hlast : b + 1 = 0 := by
    have hget := congrArg List.getLast? h
    simpa using hget
  have hnot := (lt_succ_iff hb b).mpr (UInt8.lt_irrefl b)
  rw [hlast, UInt8.lt_iff_toNat_lt] at hnot
  exact absurd hnot (Nat.not_lt_zero _)

theorem prefixRange_of_seen {p : Bytes} (hseen : ∀ b ∈ p.drop (intSize p.length), b = 0xff) :
    PrefixRange p := by
  refine ⟨incrementLast p (intSize p.length), rfl, ?_⟩
  have hp := List.take_append_drop (intSize p.length) p
  rcases incrementLast_cases (intSize_le p.length) with
    ⟨hend, hall⟩ | ⟨q, b, t, hsplit, hb, ht, hend⟩
  · have hff : ∀ c ∈ p, c = 0xff := by
      intro c hc
      rw [← hp] at hc
      exact (List.mem_append.mp hc).elim (hall c) (hseen c)
    rw [hend]
    refine ⟨fun x => ?_, fun _ => hff, fun _ => rfl⟩
    rw [prefix_iff_le (greatest_of_all hff)]
    exact (and_iff_left (Or.inl rfl)).symm
  · have htail : ∀ c ∈ t ++ p.drop (intSize p.length), c = 0xff := fun c hc =>
      (List.mem_append.mp hc).elim (ht c) (hseen c)
    have hpq : p = q ++ b :: (t ++ p.drop (intSize p.length)) := by
      conv_lhs => rw [← hp, hsplit]
      rw [List.append_assoc, List.cons_append]
    have hne := append_succ_ne (q := q) hb
    rw [hend]
    refine ⟨fun x => ?_, fun h => absurd h hne, fun hff => ?_⟩
    · rw [or_iff_right hne, hpq]
      exact prefix_iff_range (lt_succ_iff hb) (greatest_of_all htail) x
    · have hbff : b = 0xff := hff b (by rw [hpq]; simp)
      exact absurd (hbff ▸ hb) (UInt8.lt_irrefl _)

/-- Where the loop does not see a byte that it could increment, the range has other texts too. -/
theorem seen_of_prefixRange {p : Bytes} (h : PrefixRange p) :
    ∀ b ∈ p.drop (intSize p.length), b = 0xff := by
  obtain ⟨e, henc, hrange, -⟩ := h
  obtain rfl : incrementLast p (intSize p.length) = e := base64Encode_inj henc
  rcases incrementLast_cases (Nat.le_refl p.length) with ⟨-, hall⟩ | ⟨q, b, t, hsplit, hb, ht, -⟩
  · rw [List.take_length] at hall
    exact fun c hc => hall c (List.mem_of_mem_drop hc)
  · rw [List.take_length] at hsplit
    have hin := prefix_iff_range (q := q) (lt_succ_iff hb) (greatest_of_all ht)
    rw [← hsplit] at hin
    by_contra hunseen
    -- the byte stands behind the ones that the loop sees
    have hbehind : ∀ n, q.length < n → ∀ c ∈ p.drop n, c = 0xff := by
      intro n hn c hc
      obtain ⟨k, rfl⟩ : ∃ k, n = q.length + 1 + k := ⟨n - (q.length + 1), by omega⟩
      rw [hsplit, ← List.drop_drop, List.append_cons, List.drop_left' (by simp)] at hc
      exact ht c (List.mem_of_mem_drop hc)
    have hlen : intSize p.length ≤ q.length :=
      Nat.not_lt.mp fun hlt => hunseen (hbehind _ hlt)
    have hq : ∀ n ≤ q.length, p.take n = q.take n := by
      intro n hn
      rw [hsplit, List.take_append_of_le_length hn]
    have htake : p.take (intSize p.length) <+: q ++ [b + 1] := by
      rw [hq _ hlen]
      exact (List.take_prefix _ q).trans (List.prefix_append q _)
    have hle : p ≤ q ++ [b + 1] := List.le_of_lt ((hin p).mp List.prefix_rfl).2
    have hpre := (hrange (q ++ [b + 1])).mpr ⟨hle, lt_incrementLast (intSize_le _) htake⟩
    exact List.lt_irrefl _ ((hin _).mp hpre).2

/-- The range is right for a prefix if and only if behind the bytes that the loop sees there are
    only ones that cannot be incremented. -/
theorem rangeEnd_iff (p : Bytes) :
    PrefixRange p ↔ ∀ b ∈ p.drop (intSize p.length), b = 0xff :=
  ⟨seen_of_prefixRange, prefixRange_of_seen⟩

/-- The loop sees all of a prefix of less than 2 GiB. -/
theorem intSize_of_lt {n : Nat} (h : n < 2147483648) : intSize n = n := by
  unfold intSize
  have hmod := Int.bmod_def (n : Int) 4294967296
  split at hmod <;> omega

/-- Of one zero byte more than 2 GiB the loop sees none. -/
theorem rangeEnd_long :
    ¬ ∀ p : Bytes, p ≠ [] → ∃ e, base64RangeEnd p = base64Encode e ∧
      (∀ x, p <+: x ↔ p ≤ x ∧ (e = [0] ∨ x < e)) ∧ (e = [0] ↔ ∀ b ∈ p, b = 0xff) := by
  intro hclaim
  have hne : List.replicate 2147483649 (0 : UInt8) ≠ [] := by
    rw [List.replicate_succ]
    exact List.cons_ne_nil _ _
  have hseen := seen_of_prefixRange (hclaim _ hne)
  have hsize : intSize 2147483649 = 0 := by decide
  rw [List.length_replicate, hsize, List.drop_zero] at hseen
  exact absurd (hseen 0 (List.mem_replicate.mpr ⟨by decide, rfl⟩)) (by decide)

end RocketRpc.Registry
