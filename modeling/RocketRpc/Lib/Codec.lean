import Mathlib.Data.List.Basic
import Mathlib.Tactic.Common

/-
  Prefix codecs over lists.

  A `Codec` writes a value as a list and reads it back from the front of a longer one. Its
  two laws are the two directions of a format: what was written is read back
  (`decode_encode`), and only what would have been written is read (`encode_of_decode`).
  The instances are the 32-bit words in network byte order (`uint32`, `int32`).
-/

universe u v

structure Codec (α : Type u) (β : Type v) where
  encode : β → List α
  decode : List α → Option (β × List α)
  decode_encode : ∀ x rest, decode (encode x ++ rest) = some (x, rest)
  encode_of_decode : ∀ {xs x rest}, decode xs = some (x, rest) → xs = encode x ++ rest

namespace Codec

/-! ## Words in network byte order -/

/-- The four bytes of a word, most significant first. -/
def encode32 (w : UInt32) : List UInt8 :=
  [UInt8.ofNat (w.toNat / 0x1000000), UInt8.ofNat (w.toNat / 0x10000), UInt8.ofNat (w.toNat / 0x100),
    UInt8.ofNat w.toNat]

/-- The word of four bytes, most significant first. -/
def word32 (a b c d : UInt8) : UInt32 :=
  UInt32.ofNat (a.toNat * 0x1000000 + b.toNat * 0x10000 + c.toNat * 0x100 + d.toNat)

def decode32 : List UInt8 → Option (UInt32 × List UInt8)
  | a :: b :: c :: d :: rest => some (word32 a b c d, rest)
  | _ => none

theorem word32_encode (w : UInt32) :
    word32 (UInt8.ofNat (w.toNat / 0x1000000)) (UInt8.ofNat (w.toNat / 0x10000))
      (UInt8.ofNat (w.toNat / 0x100)) (UInt8.ofNat w.toNat) = w := by
  apply UInt32.toNat_inj.mp
  have := w.toNat_lt
  simp only [word32, UInt32.toNat_ofNat', UInt8.toNat_ofNat']
  omega

theorem encode32_word (a b c d : UInt8) : encode32 (word32 a b c d) = [a, b, c, d] := by
  have ha := a.toNat_lt
  have hb := b.toNat_lt
  have hc := c.toNat_lt
  have hd := d.toNat_lt
  simp only [encode32, List.cons.injEq, and_true]
  refine ⟨?_, ?_, ?_, ?_⟩ <;> apply UInt8.toNat_inj.mp <;>
    simp only [word32, UInt32.toNat_ofNat', UInt8.toNat_ofNat'] <;> omega

def uint32 : Codec UInt8 UInt32 where
  encode := encode32
  decode := decode32
  decode_encode := by
    intro w rest
    simp only [encode32, List.cons_append, List.nil_append, decode32, word32_encode]
  encode_of_decode := by
    intro xs w rest h
    match xs, h with
    | a :: b :: c :: d :: r, h =>
      obtain ⟨rfl, rfl⟩ : word32 a b c d = w ∧ r = rest := by simpa [decode32] using h
      rw [encode32_word]
      rfl

/-- Two's complement words in network byte order. -/
def int32 : Codec UInt8 Int32 where
  encode v := encode32 v.toUInt32
  decode xs := (decode32 xs).map fun p => (p.1.toInt32, p.2)
  decode_encode := by
    intro v rest
    rw [show decode32 (encode32 v.toUInt32 ++ rest) = some (v.toUInt32, rest) from
      uint32.decode_encode v.toUInt32 rest]
    rfl
  encode_of_decode := by
    intro xs v rest h
    obtain ⟨⟨w, r⟩, hw, h⟩ := Option.map_eq_some_iff.mp h
    obtain ⟨rfl, rfl⟩ : w.toInt32 = v ∧ r = rest := by simpa using h
    exact uint32.encode_of_decode hw

theorem encode_injective {α : Type u} {β : Type v} (c : Codec α β) {x y : β}
    (h : c.encode x = c.encode y) : x = y := by
  have hx := c.decode_encode x []
  rw [h, c.decode_encode y []] at hx
  exact (Prod.mk.inj (Option.some.inj hx)).1.symm

@[simp] theorem length_encode32 (w : UInt32) : (encode32 w).length = 4 := rfl

@[simp] theorem length_encode_int32 (v : Int32) : (int32.encode v).length = 4 := rfl

end Codec
