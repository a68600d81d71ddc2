import Mathlib.Data.List.Basic
import Mathlib.Tactic.Common

/-
  A flat storage as a list: reading a slice, storing a block, changing the length.

  `slice_store`, `slice_store_before` and `slice_store_after` say what a read sees after a store;
  `slice_add` splits a slice in two. Every law names the bound under which the access is in
  range. `load`, `save` and `move` are the accesses that check it: they give nothing where a cell
  they touch is not in the storage.
-/

namespace Storage

universe u

variable {α : Type u}

/-- The `n` cells from `i`. -/
def slice (m : List α) (i n : Nat) : List α := (m.drop i).take n

/-- Store the block `xs` from cell `i` on. -/
def store (m : List α) (i : Nat) (xs : List α) : List α := m.take i ++ xs ++ m.drop (i + xs.length)

/-- Cut off, or fill up with `x`, to `n` cells. -/
def resize (m : List α) (n : Nat) (x : α) : List α := m.take n ++ List.replicate (n - m.length) x

@[simp] theorem length_slice (m : List α) (i n : Nat) :
    (slice m i n).length = min n (m.length - i) := by
  simp [slice]

theorem length_slice_of_le {m : List α} {i n : Nat} (h : i + n ≤ m.length) :
    (slice m i n).length = n := by
  rw [length_slice]
  omega

theorem length_store {m : List α} {i : Nat} {xs : List α} (h : i + xs.length ≤ m.length) :
    (store m i xs).length = m.length := by
  simp [store]
  omega

@[simp] theorem length_resize (m : List α) (n : Nat) (x : α) : (resize m n x).length = n := by
  simp [resize]
  omega

/-- A slice in two parts. -/
theorem slice_add (m : List α) (i j n : Nat) :
    slice m i (j + n) = slice m i j ++ slice m (i + j) n := by
  rw [slice, slice, slice, List.take_add, List.drop_drop]

theorem drop_slice (m : List α) (i n k : Nat) : (slice m i n).drop k = slice m (i + k) (n - k) := by
  rw [slice, slice, List.drop_take, List.drop_drop]

/-- A read of the stored block. -/
theorem slice_store {m : List α} {i : Nat} {xs : List α} (h : i ≤ m.length) :
    slice (store m i xs) i xs.length = xs := by
  have hlen : (m.take i).length = i := List.length_take_of_le h
  rw [slice, store, List.append_assoc, List.drop_append, hlen, Nat.sub_self, List.drop_zero,
    List.drop_eq_nil_of_le (Nat.le_of_eq hlen), List.nil_append, List.take_left']
  rfl

/-- A read in front of the stored block. -/
theorem slice_store_before {m : List α} {i j n : Nat} {xs : List α} (hi : i ≤ m.length)
    (h : j + n ≤ i) : slice (store m i xs) j n = slice m j n := by
  have hlen : (m.take i).length = i := List.length_take_of_le hi
  rw [slice, slice, store, List.append_assoc,
    List.drop_append_of_le_length (by rw [hlen]; omega),
    List.take_append_of_le_length (by rw [List.length_drop, hlen]; omega), List.drop_take,
    List.take_take, Nat.min_eq_left (by omega)]

/-- A read behind the stored block. -/
theorem slice_store_after {m : List α} {i j n : Nat} {xs : List α} (h : i + xs.length ≤ j)
    (hi : i + xs.length ≤ m.length) : slice (store m i xs) j n = slice m j n := by
  have hlen : (m.take i ++ xs).length = i + xs.length := by
    rw [List.length_append, List.length_take_of_le (by omega)]
  rw [slice, slice, store, List.drop_append, hlen, List.drop_eq_nil_of_le (by omega),
    List.nil_append, List.drop_drop, Nat.add_sub_cancel' h]

/-- A block stored where it was read. -/
theorem store_slice (m : List α) (i n : Nat) : store m i (slice m i n) = m := by
  have hrest : (m.drop i).drop (slice m i n).length = (m.drop i).drop n := by
    rw [length_slice]
    rcases Nat.le_total n (m.length - i) with hle | hge
    · rw [Nat.min_eq_left hle]
    · rw [Nat.min_eq_right hge, List.drop_eq_nil_of_le (Nat.le_of_eq List.length_drop),
        List.drop_eq_nil_of_le (Nat.le_trans (Nat.le_of_eq List.length_drop) hge)]
  rw [store, List.append_assoc, ← List.drop_drop, hrest, slice, List.take_append_drop,
    List.take_append_drop]

@[simp] theorem store_nil (m : List α) (i : Nat) : store m i [] = m := by
  simp [store]

@[simp] theorem resize_self (m : List α) (x : α) : resize m m.length x = m := by
  simp [resize]

/-- A read below both lengths does not see a change of length. -/
theorem slice_resize {m : List α} {i n k : Nat} (x : α) (hm : i + n ≤ m.length) (hk : i + n ≤ k) :
    slice (resize m k x) i n = slice m i n := by
  have hlen : i + n ≤ (m.take k).length := by rw [List.length_take]; omega
  rw [slice, slice, resize, List.drop_append_of_le_length (by omega),
    List.take_append_of_le_length (by rw [List.length_drop]; omega), List.drop_take,
    List.take_take, Nat.min_eq_left (by omega)]

/-! ## Checked accesses -/

/-- Read the `n` cells from `i`. -/
def load (m : List α) (i n : Nat) : Option (List α) :=
  if i + n ≤ m.length then some (slice m i n) else none

def save (m : List α) (i : Nat) (xs : List α) : Option (List α) :=
  if i + xs.length ≤ m.length then some (store m i xs) else none

/-- Move the `n` cells from `src` to `dst`; the ranges may overlap. -/
def move (m : List α) (dst src n : Nat) : Option (List α) := (load m src n).bind (save m dst)

theorem load_of_le {m : List α} {i n : Nat} (h : i + n ≤ m.length) :
    load m i n = some (slice m i n) := if_pos h

theorem save_of_le {m : List α} {i : Nat} {xs : List α} (h : i + xs.length ≤ m.length) :
    save m i xs = some (store m i xs) := if_pos h

theorem save_of_lt {m : List α} {i : Nat} {xs : List α} (h : m.length < i + xs.length) :
    save m i xs = none := if_neg (Nat.not_le.mpr h)

theorem move_of_le {m : List α} {dst src n : Nat} (hs : src + n ≤ m.length)
    (hd : dst + n ≤ m.length) : move m dst src n = some (store m dst (slice m src n)) := by
  rw [move, load_of_le hs, Option.bind_some, save_of_le]
  rw [length_slice_of_le hs]
  exact hd

theorem move_of_lt {m : List α} {dst src n : Nat} (hs : src + n ≤ m.length)
    (hd : m.length < dst + n) : move m dst src n = none := by
  rw [move, load_of_le hs, Option.bind_some, save_of_lt]
  rw [length_slice_of_le hs]
  exact hd

/-- A block stored behind `pre`. -/
theorem save_append {pre m xs : List α} {i : Nat} (hi : i = pre.length)
    (h : xs.length ≤ m.length) :
    save (pre ++ m) i xs = some (pre ++ (xs ++ m.drop xs.length)) := by
  subst hi
  rw [save_of_le (by rw [List.length_append]; omega), store, List.take_left' rfl,
    List.append_assoc, List.drop_append, List.drop_eq_nil_of_le (by omega), List.nil_append,
    Nat.add_sub_cancel_left]

/-- The block between `pre` and `m`. -/
theorem load_append {pre xs m : List α} {i n : Nat} (hi : i = pre.length) (hn : n = xs.length) :
    load (pre ++ (xs ++ m)) i n = some xs := by
  subst hi hn
  rw [load_of_le (by simp only [List.length_append]; omega), slice, List.drop_left' rfl,
    List.take_left' rfl]

end Storage
