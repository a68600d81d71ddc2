import Mathlib.Algebra.GroupWithZero.Nat
import Mathlib.Data.List.Count
import Mathlib.Logic.Function.Basic
import Mathlib.Tactic.Common

/-
  Counters that are kept beside the items they count.

  Every item has a key, and some items count. `Exact` says that the counter of each key is
  the number of its items that count. An item that is replaced in place enters the count,
  leaves it or does neither; each of the three has its rule. `among` counts the numbers below
  a bound, for items that are numbered as they are made. `total` adds up weights of the items,
  for the measures of runs that come to an end.
-/

namespace Tally

variable {ι κ : Type} [DecidableEq κ] {key : ι → κ} {counts : ι → Bool}

/-- The number of items of `k` that count. -/
def number (key : ι → κ) (counts : ι → Bool) (items : List ι) (k : κ) : Nat :=
  items.countP fun i => key i = k ∧ counts i = true

def Exact (key : ι → κ) (counts : ι → Bool) (items : List ι) (count : κ → Int) : Prop :=
  ∀ k, count k = number key counts items k

/-- Replacing one item changes the number by what the two items count. -/
theorem number_set (key : ι → κ) (counts : ι → Bool) {items : List ι} {n : Nat} {i : ι}
    (hi : items[n]? = some i) (j : ι) (k : κ) :
    number key counts (items.set n j) k + (if key i = k ∧ counts i = true then 1 else 0) =
      number key counts items k + (if key j = k ∧ counts j = true then 1 else 0) := by
  obtain ⟨hn, rfl⟩ := List.getElem?_eq_some_iff.mp hi
  unfold number
  rw [List.countP_set hn]
  simp only [decide_eq_true_eq]
  by_cases hold : key items[n] = k ∧ counts items[n] = true
  · have hpos : 0 < items.countP fun i => key i = k ∧ counts i = true :=
      List.countP_pos_iff.mpr ⟨items[n], List.getElem_mem hn, by simpa using hold⟩
    simp only [if_pos hold]
    omega
  · simp only [if_neg hold]
    omega

theorem exact_nil : Exact key counts [] fun _ => 0 := fun _ => rfl

section Exact

variable {items : List ι} {count : κ → Int} (h : Exact key counts items count)

include h

theorem Exact.append {j : ι} (hj : counts j = false) : Exact key counts (items ++ [j]) count := by
  intro k
  rw [h k, number, number, List.countP_append]
  simp [hj]

variable {n : Nat} {i j : ι} (hi : items[n]? = some i) (hkey : key j = key i)

include hi hkey

/-- The item goes on as before. -/
theorem Exact.set (hcounts : counts j = counts i) : Exact key counts (items.set n j) count := by
  intro k
  have hset := number_set key counts hi j k
  rw [hkey, hcounts] at hset
  rw [h k]
  omega

/-- A key's count that moves by what its item's replacement moves stays exact. -/
theorem Exact.update {v : Int}
    (hv : v + (if counts i = true then 1 else 0) =
      count (key i) + (if counts j = true then 1 else 0)) :
    Exact key counts (items.set n j) (Function.update count (key i) v) := by
  intro k
  have hset := number_set key counts hi j k
  rw [hkey] at hset
  by_cases hk : k = key i
  · subst hk
    rw [h (key i)] at hv
    simp only [Function.update_self, true_and] at hset ⊢
    cases hci : counts i <;> cases hcj : counts j <;>
      simp [hci, hcj] at hset hv <;> omega
  · have hk' : key i ≠ k := Ne.symm hk
    simp only [hk', false_and, if_false, Nat.add_zero] at hset
    rw [Function.update_of_ne hk, h k, hset]

/-- The item begins to count. -/
theorem Exact.enter (hi₀ : counts i = false) (hj : counts j = true) :
    Exact key counts (items.set n j) (Function.update count (key i) (count (key i) + 1)) := by
  apply h.update hi hkey
  simp [hi₀, hj]

/-- The item does not count any more. -/
theorem Exact.leave (hi₁ : counts i = true) (hj : counts j = false) :
    Exact key counts (items.set n j) (Function.update count (key i) (count (key i) - 1)) := by
  apply h.update hi hkey
  simp [hi₁, hj]

end Exact

/-! ## Numbered items -/

/-- How many of the first `n` numbers have the property. -/
def among (n : Nat) (p : Nat → Bool) : Nat := (List.range n).countP p

theorem among_congr {n : Nat} {p q : Nat → Bool} (h : ∀ i < n, q i = p i) :
    among n q = among n p := by
  unfold among
  exact List.countP_congr fun i hi => by rw [h i (List.mem_range.mp hi)]

theorem among_succ (n : Nat) (p : Nat → Bool) :
    among (n + 1) p = among n p + if p n = true then 1 else 0 := by
  unfold among
  rw [List.range_succ, List.countP_append, List.countP_singleton]

/-- A property that changes at one number changes the count by that number. -/
theorem among_update {n i : Nat} (hi : i < n) {p q : Nat → Bool} (h : ∀ j < n, j ≠ i → q j = p j) :
    among n q + (if p i = true then 1 else 0) = among n p + if q i = true then 1 else 0 := by
  induction n with
  | zero => omega
  | succ n ih =>
    rw [among_succ, among_succ]
    by_cases hin : i = n
    · subst hin
      rw [among_congr fun j hj => h j (by omega) (by omega)]
      omega
    · rw [h n (by omega) (Ne.symm hin)]
      have hrest := ih (by omega) fun j hj hne => h j (by omega) hne
      omega

/-- The numbers of a list lose the property. -/
theorem among_remove {n : Nat} {p : Nat → Bool} {xs : List Nat} (hxs : xs.Nodup)
    (hlt : ∀ x ∈ xs, x < n) :
    among n (fun i => p i && !xs.contains i) + xs.countP p = among n p := by
  induction xs with
  | nil => simp
  | cons x xs ih =>
    obtain ⟨hx, hnodup⟩ := List.nodup_cons.mp hxs
    have hrest := ih hnodup fun y hy => hlt y (List.mem_cons_of_mem _ hy)
    have hone : among n (fun i => p i && !(x :: xs).contains i) + (if p x = true then 1 else 0) =
        among n fun i => p i && !xs.contains i := by
      have hother : ∀ j < n, j ≠ x →
          (p j && !(x :: xs).contains j) = (p j && !xs.contains j) := by
        intro j _ hj
        simp [hj]
      have hupdate := among_update (hlt x List.mem_cons_self) hother
      simpa [hx] using hupdate
    rw [List.countP_cons]
    omega

/-! ## Weights -/

/-- The weight of all items. -/
def total (weight : ι → Nat) (items : List ι) : Nat := (items.map weight).sum

/-- Replacing one item changes the total by the weights of the two items. -/
theorem total_set (weight : ι → Nat) {items : List ι} {n : Nat} {i : ι}
    (hi : items[n]? = some i) (j : ι) :
    total weight (items.set n j) + weight i = total weight items + weight j := by
  induction items generalizing n with
  | nil => simp at hi
  | cons a items ih =>
    cases n with
    | zero =>
      obtain rfl : a = i := by simpa using hi
      simp [total]
      omega
    | succ n =>
      have hrest := ih (by simpa using hi)
      simp only [total, List.set_cons_succ, List.map_cons, List.sum_cons] at hrest ⊢
      omega

end Tally
