import Mathlib.Algebra.Group.Nat.Defs
import Mathlib.Tactic.Common

/-
  Words in memory, least significant byte first.

  `toBytes k v` are the `k` bytes of a word, `ofBytes` the word that bytes are. A word that fits
  into `k` bytes is read back from them.
-/

namespace LittleEndian

def toBytes : Nat → Nat → List UInt8
  | 0, _ => []
  | k + 1, v => UInt8.ofNat v :: toBytes k (v / 256)

def ofBytes : List UInt8 → Nat
  | [] => 0
  | b :: bs => b.toNat + 256 * ofBytes bs

@[simp] theorem length_toBytes (k v : Nat) : (toBytes k v).length = k := by
  induction k generalizing v with
  | zero => rfl
  | succ k ih => rw [toBytes, List.length_cons, ih]

/-- What is read back is the word modulo its size. -/
theorem ofBytes_toBytes_mod (k v : Nat) : ofBytes (toBytes k v) = v % 256 ^ k := by
  induction k generalizing v with
  | zero => rw [toBytes, ofBytes, Nat.pow_zero, Nat.mod_one]
  | succ k ih =>
    have hpow : 256 ^ (k + 1) = 256 * 256 ^ k := by rw [Nat.pow_succ, Nat.mul_comm]
    rw [toBytes, ofBytes, ih, UInt8.toNat_ofNat', hpow, Nat.mod_mul]

theorem ofBytes_toBytes {k v : Nat} (h : v < 256 ^ k) : ofBytes (toBytes k v) = v := by
  rw [ofBytes_toBytes_mod, Nat.mod_eq_of_lt h]

end LittleEndian
