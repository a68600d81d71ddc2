import Mathlib.Data.List.Nodup
import Mathlib.Data.List.Perm.Basic
import Mathlib.Logic.Function.Basic

/-
  A ledger of resources.

  What is taken is written down once, under the one who has it: `Ledger taken owned` says that
  `owned` lists what is taken, nothing twice. Taking something that is free, giving something
  back and handing something over keep a ledger (`take`, `release`, `perm`); so nothing is lost
  and nothing is given back by two.
-/

universe u

variable {α : Type u}

structure Ledger (taken : α → Bool) (owned : List α) : Prop where
  nodup : owned.Nodup
  mem : ∀ x, taken x = true ↔ x ∈ owned

namespace Ledger

variable {taken : α → Bool} {owned owned' : List α} {x : α}

theorem nil : Ledger (fun _ : α => false) [] where
  nodup := List.nodup_nil
  mem := by simp

/-- Something changes hands. -/
theorem perm (h : Ledger taken owned) (hp : owned.Perm owned') : Ledger taken owned' where
  nodup := hp.nodup h.nodup
  mem y := (h.mem y).trans hp.mem_iff

variable [DecidableEq α]

theorem take (h : Ledger taken owned) (hx : taken x = false) :
    Ledger (Function.update taken x true) (x :: owned) where
  nodup := List.nodup_cons.mpr ⟨fun hmem => by simp [(h.mem x).mpr hmem] at hx, h.nodup⟩
  mem y := by
    by_cases heq : y = x
    · simp [heq]
    · simpa [heq] using h.mem y

theorem release (h : Ledger taken (x :: owned)) : Ledger (Function.update taken x false) owned where
  nodup := (List.nodup_cons.mp h.nodup).2
  mem y := by
    by_cases heq : y = x
    · simpa [heq] using (List.nodup_cons.mp h.nodup).1
    · simpa [heq] using h.mem y

/-- One after another is given back. -/
theorem release_all {xs : List α} (h : Ledger taken (xs ++ owned)) :
    Ledger (xs.foldl (fun taken x => Function.update taken x false) taken) owned := by
  induction xs generalizing taken with
  | nil => exact h
  | cons x xs ih => exact ih h.release

end Ledger
