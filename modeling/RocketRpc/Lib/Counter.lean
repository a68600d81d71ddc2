import Mathlib.Data.Nat.Notation
import Mathlib.Tactic.Common

/-
  A counter below a limit that starts again from a number it is given.

  `none` is a counter that has not started. From one start to the next the numbers are
  consecutive (`number_add`), so the next start after the number `v` is the one behind the greatest
  number (`starts_iff`).
-/

namespace Counter

variable {limit : Nat}

/-- The number behind the last one, or the one to start from. -/
def next (limit start : Nat) : Option Nat → Nat
  | none => start
  | some n => if n + 1 = limit then start else n + 1

/-- The next number is the one to start from. -/
def Starts (limit : Nat) : Option Nat → Prop
  | none => True
  | some n => n + 1 = limit

/-- The number after `n` steps; step `n` starts from `starts n` if it starts again. -/
def number (limit : Nat) (starts : Nat → Nat) (first : Option Nat) : Nat → Option Nat
  | 0 => first
  | n + 1 => some (next limit (starts n) (number limit starts first n))

theorem next_of_starts {start : Nat} {c : Option Nat} (h : Starts limit c) :
    next limit start c = start := by
  cases c with
  | none => rfl
  | some n => exact if_pos h

theorem next_of_not_starts {start n : Nat} (h : ¬ Starts limit (some n)) :
    next limit start (some n) = n + 1 := if_neg h

variable {starts : Nat → Nat} {first : Option Nat}

/-- The numbers are consecutive until the next start. -/
theorem number_add {i v m : Nat} (hi : number limit starts first i = some v)
    (hgo : ∀ k, i ≤ k → k < i + m → ¬ Starts limit (number limit starts first k)) :
    number limit starts first (i + m) = some (v + m) := by
  induction m with
  | zero => exact hi
  | succ m ih =>
    have hm := ih fun k hik hk => hgo k hik (by omega)
    have hstay := hgo (i + m) (by omega) (by omega)
    rw [hm] at hstay
    rw [← Nat.add_assoc, number, hm, next_of_not_starts hstay, Nat.add_assoc]

/-- When the next start is. -/
theorem starts_iff {i v m : Nat} (hi : number limit starts first i = some v)
    (hgo : ∀ k, i ≤ k → k < i + m → ¬ Starts limit (number limit starts first k)) :
    Starts limit (number limit starts first (i + m)) ↔ v + m + 1 = limit := by
  rw [number_add hi hgo]
  rfl

end Counter
