import Mathlib.Algebra.Group.Nat.Defs
import Mathlib.Tactic.Common

/-
  Unsigned arithmetic that must not wrap around.

  `add`, `sub` and `mul` compute with words of `w` bits and give nothing where the result is
  not the one of the numbers. A computation that gives a result has not wrapped around
  anywhere.
-/

namespace Checked

def add (w a b : Nat) : Option Nat := if a + b < 2 ^ w then some (a + b) else none

def sub (a b : Nat) : Option Nat := if b ≤ a then some (a - b) else none

def mul (w a b : Nat) : Option Nat := if a * b < 2 ^ w then some (a * b) else none

variable {w a b : Nat}

theorem add_of_lt (h : a + b < 2 ^ w) : add w a b = some (a + b) := if_pos h

theorem sub_of_le (h : b ≤ a) : sub a b = some (a - b) := if_pos h

theorem mul_of_lt (h : a * b < 2 ^ w) : mul w a b = some (a * b) := if_pos h

end Checked
