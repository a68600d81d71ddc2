import Mathlib.Data.List.Nodup

/-
  Base64.

  Three bytes are a number of 24 bits, which is written with four digits of six bits; what is
  missing of the last three is padded. So the text is digits of the alphabet with at most two
  characters of padding behind them (`encode_shape`).
-/

namespace Base64

def alphabet : List UInt8 :=
  "ABCDEFGHIJKLMNOPQRSTUVWXYZabcdefghijklmnopqrstuvwxyz0123456789+/".toUTF8.toList

def pad : UInt8 := 61

/-- The character of a digit. -/
def digit (n : Nat) : UInt8 := alphabet.getD n 0

/-- Three bytes as a number. -/
def group (a b c : UInt8) : Nat := a.toNat * 65536 + b.toNat * 256 + c.toNat

def digit₀ (n : Nat) : UInt8 := digit (n / 262144)

def digit₁ (n : Nat) : UInt8 := digit (n / 4096 % 64)

def digit₂ (n : Nat) : UInt8 := digit (n / 64 % 64)

def digit₃ (n : Nat) : UInt8 := digit (n % 64)

def encode : List UInt8 → List UInt8
  | [] => []
  | [a] => [digit₀ (group a 0 0), digit₁ (group a 0 0), pad, pad]
  | [a, b] => [digit₀ (group a b 0), digit₁ (group a b 0), digit₂ (group a b 0), pad]
  | a :: b :: c :: data =>
    digit₀ (group a b c) :: digit₁ (group a b c) :: digit₂ (group a b c) ::
      digit₃ (group a b c) :: encode data

theorem group_lt (a b c : UInt8) : group a b c < 16777216 := by
  have ha := a.toNat_lt
  have hb := b.toNat_lt
  have hc := c.toNat_lt
  unfold group
  omega

theorem alphabet_spec : alphabet.length = 64 ∧ alphabet.Nodup ∧ pad ∉ alphabet := by
  decide +kernel

theorem digit_eq {n : Nat} (h : n < alphabet.length) : digit n = alphabet[n] :=
  (List.getElem_eq_getD 0).symm

/-- The value of a character of the alphabet. -/
theorem idxOf_digit {n : Nat} (h : n < 64) : alphabet.idxOf (digit n) = n := by
  rw [← alphabet_spec.1] at h
  rw [digit_eq h, alphabet_spec.2.1.idxOf_getElem]

theorem digit_mem {n : Nat} (h : n < 64) : digit n ∈ alphabet := by
  rw [← alphabet_spec.1] at h
  rw [digit_eq h]
  exact List.getElem_mem h

theorem pad_not_mem : pad ∉ alphabet := alphabet_spec.2.2

theorem digit_ne_pad {n : Nat} (h : n < 64) : digit n ≠ pad :=
  fun heq => pad_not_mem (heq ▸ digit_mem h)

/-! ## The text -/

theorem digit₀_mem (a b c : UInt8) : digit₀ (group a b c) ∈ alphabet := by
  have hlt := group_lt a b c
  exact digit_mem (by omega)

theorem digit₁_mem (n : Nat) : digit₁ n ∈ alphabet := digit_mem (Nat.mod_lt _ (by decide))

theorem digit₂_mem (n : Nat) : digit₂ n ∈ alphabet := digit_mem (Nat.mod_lt _ (by decide))

theorem digit₃_mem (n : Nat) : digit₃ n ∈ alphabet := digit_mem (Nat.mod_lt _ (by decide))

theorem length_encode (data : List UInt8) :
    (encode data).length = 4 * ((data.length + 2) / 3) := by
  induction data using encode.induct with
  | case1 => rfl
  | case2 a => simp [encode]
  | case3 a b => simp [encode]
  | case4 a b c data ih =>
    simp only [encode, List.length_cons, ih]
    omega

/-- The text is digits of the alphabet, and at most two characters of padding behind them. -/
theorem encode_shape (data : List UInt8) :
    ∃ digits k, encode data = digits ++ List.replicate k pad ∧ k ≤ 2 ∧
      ∀ c ∈ digits, c ∈ alphabet := by
  induction data using encode.induct with
  | case1 => exact ⟨[], 0, rfl, by omega, by simp⟩
  | case2 a =>
    refine ⟨[digit₀ (group a 0 0), digit₁ (group a 0 0)], 2, rfl, by omega, ?_⟩
    simp [digit₀_mem, digit₁_mem]
  | case3 a b =>
    refine ⟨[digit₀ (group a b 0), digit₁ (group a b 0), digit₂ (group a b 0)], 1, rfl, by omega,
      ?_⟩
    simp [digit₀_mem, digit₁_mem, digit₂_mem]
  | case4 a b c data ih =>
    obtain ⟨digits, k, htext, hk, hmem⟩ := ih
    refine ⟨digit₀ (group a b c) :: digit₁ (group a b c) :: digit₂ (group a b c) ::
      digit₃ (group a b c) :: digits, k, ?_, hk, ?_⟩
    · rw [encode, htext]
      rfl
    · simpa [digit₀_mem, digit₁_mem, digit₂_mem, digit₃_mem] using hmem

theorem not_mem_encode {x : UInt8} (hx : x ∉ alphabet) (hpad : x ≠ pad) (data : List UInt8) :
    x ∉ encode data := by
  obtain ⟨digits, k, htext, -, hmem⟩ := encode_shape data
  rw [htext, List.mem_append, List.mem_replicate]
  rintro (hdigit | ⟨-, heq⟩)
  · exact hx (hmem x hdigit)
  · exact hpad heq

end Base64
