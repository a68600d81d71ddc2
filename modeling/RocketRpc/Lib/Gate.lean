import Mathlib.Data.List.Basic
import Mathlib.Tactic.Common

/-
  A gate that one of many parties wins once.

  The parties race to win the gate; the winner alone uses the objects behind it, closes the
  gate when it is through, and after that observers may leave. `Log` is the set of the
  histories of such a gate: a system keeps to it when its states are related to the phases
  of the gate. What a history looks like is said by `countP_isWin`, `countP_isClose`,
  `before_use` and `at_leave`.
-/

namespace Gate

universe u v w

variable {ι : Type u} {α : Type v} {ρ : Type w}

inductive Phase (ι : Type u) where
  | open
  | held (winner : ι)
  | closed (winner : ι)

inductive Act (ι : Type u) (α : Type v) (ρ : Type w) where
  | win (i : ι)
  | use (i : ι) (a : α)
  | close (i : ι)
  /-- An observer that waits for the gate to close goes on. -/
  | leave (r : ρ)
  deriving DecidableEq, Repr

namespace Act

def isWin : Act ι α ρ → Bool
  | .win _ => true
  | _ => false

def isClose : Act ι α ρ → Bool
  | .close _ => true
  | _ => false

end Act

/-- The histories that lead from the open gate to a phase. -/
inductive Log : Phase ι → List (Act ι α ρ) → Prop where
  | nil : Log .open []
  | win {tr} (i : ι) : Log .open tr → Log (.held i) (tr ++ [.win i])
  | use {tr} {i : ι} (a : α) : Log (.held i) tr → Log (.held i) (tr ++ [.use i a])
  | close {tr} {i : ι} : Log (.held i) tr → Log (.closed i) (tr ++ [.close i])
  | leave {tr} {i : ι} (r : ρ) : Log (.closed i) tr → Log (.closed i) (tr ++ [.leave r])

/-- Where the last of a list stands when the list is cut. -/
theorem snoc_eq_append_cons {β : Type v} {tr as bs : List β} {x y : β}
    (h : tr ++ [x] = as ++ y :: bs) :
    (tr = as ∧ x = y ∧ bs = []) ∨ ∃ cs, bs = cs ++ [x] ∧ tr = as ++ y :: cs := by
  rcases List.eq_nil_or_concat bs with rfl | ⟨cs, z, rfl⟩
  · obtain ⟨htr, hx⟩ := List.append_inj' h rfl
    exact Or.inl ⟨htr, by simpa using hx, rfl⟩
  · have h' : tr ++ [x] = (as ++ y :: cs) ++ [z] := by simpa using h
    obtain ⟨htr, hx⟩ := List.append_inj' h' rfl
    obtain rfl : x = z := by simpa using hx
    exact Or.inr ⟨cs, List.concat_eq_append, htr⟩

namespace Phase

/-- How often the gate was won in a phase. -/
def wins : Phase ι → Nat
  | .open => 0
  | .held _ => 1
  | .closed _ => 1

def closes : Phase ι → Nat
  | .open => 0
  | .held _ => 0
  | .closed _ => 1

end Phase

namespace Log

variable {p : Phase ι} {tr : List (Act ι α ρ)}

theorem countP_isWin (h : Log p tr) : tr.countP Act.isWin = p.wins := by
  induction h with
  | nil => rfl
  | win i _ ih => simp [ih, Act.isWin, Phase.wins]
  | use a _ ih => simp [ih, Act.isWin, Phase.wins]
  | close _ ih => simp [ih, Act.isWin, Phase.wins]
  | leave r _ ih => simp [ih, Act.isWin, Phase.wins]

theorem countP_isClose (h : Log p tr) : tr.countP Act.isClose = p.closes := by
  induction h with
  | nil => rfl
  | win i _ ih => simp [ih, Act.isClose, Phase.closes]
  | use a _ ih => simp [ih, Act.isClose, Phase.closes]
  | close _ ih => simp [ih, Act.isClose, Phase.closes]
  | leave r _ ih => simp [ih, Act.isClose, Phase.closes]

theorem win_mem {i : ι} (h : Log (.held i) tr) : .win i ∈ tr := by
  generalize hp : Phase.held i = q at h
  induction h with
  | win j _ _ =>
    obtain rfl : i = j := by simpa using hp
    simp
  | use a _ ih => exact List.mem_append_left _ (ih hp)
  | _ => exact absurd hp (by simp)

theorem close_mem {i : ι} (h : Log (.closed i) tr) : .close i ∈ tr := by
  generalize hp : Phase.closed i = q at h
  induction h with
  | close hheld _ =>
    obtain rfl : i = _ := by simpa using hp
    simp
  | leave r _ ih => exact List.mem_append_left _ (ih hp)
  | _ => exact absurd hp (by simp)

/-- Who has won is known from the phase. -/
theorem win_mem_iff {i : ι} (h : Log p tr) : .win i ∈ tr ↔ p = .held i ∨ p = .closed i := by
  induction h with
  | nil => simp
  | win j hlog _ =>
    have hnone : Act.win i ∉ _ := fun hmem =>
      List.countP_eq_zero.mp hlog.countP_isWin _ hmem rfl
    simp [hnone, eq_comm]
  | use a _ ih => simp [ih]
  | close _ ih => simp [ih]
  | leave r _ ih => simp [ih]

theorem not_close_mem {i : ι} (h : Log (.held i) tr) (j : ι) : .close j ∉ tr := by
  have hzero := List.countP_eq_zero.mp h.countP_isClose
  intro hmem
  exact hzero _ hmem rfl

theorem closed_of_close {i : ι} (h : Log p tr) (hi : .close i ∈ tr) : p = .closed i := by
  induction h with
  | nil => exact absurd hi (by simp)
  | win _ _ ih | use _ _ ih => exact absurd (ih (by simpa using hi)) (by simp)
  | leave _ _ ih => exact ih (by simpa using hi)
  | close hheld ih =>
    rcases List.mem_append.mp hi with hmem | hmem
    · exact absurd hmem (hheld.not_close_mem i)
    · obtain rfl : i = _ := by simpa using hmem
      rfl

/-- Only the winner uses the objects, after its win and while the gate is not closed. -/
theorem before_use (h : Log p tr) {i : ι} {a : α} {as bs : List (Act ι α ρ)}
    (htr : tr = as ++ .use i a :: bs) : .win i ∈ as ∧ ∀ j, .close j ∉ as := by
  induction h generalizing bs with
  | nil => exact absurd htr (by simp)
  | use b hheld ih =>
    rcases snoc_eq_append_cons htr with ⟨rfl, hact, -⟩ | ⟨cs, -, hcs⟩
    · obtain ⟨rfl, -⟩ : _ = i ∧ b = a := by simpa using hact
      exact ⟨hheld.win_mem, hheld.not_close_mem⟩
    · exact ih hcs
  | win _ _ ih | close _ ih | leave _ _ ih =>
    rcases snoc_eq_append_cons htr with ⟨-, hact, -⟩ | ⟨cs, -, hcs⟩
    · exact absurd hact (by simp)
    · exact ih hcs

theorem closed_of_leave (h : Log p tr) {r : ρ} (hr : .leave r ∈ tr) : ∃ i, p = .closed i := by
  induction h with
  | nil => exact absurd hr (by simp)
  | win _ _ ih | use _ _ ih =>
    obtain ⟨j, hj⟩ := ih (by simpa using hr)
    exact absurd hj (by simp)
  | close _ _ => exact ⟨_, rfl⟩
  | leave _ _ _ => exact ⟨_, rfl⟩

/-- An observer leaves after the gate was closed, and then nobody uses the objects. -/
theorem at_leave (h : Log p tr) {r : ρ} {as bs : List (Act ι α ρ)}
    (htr : tr = as ++ .leave r :: bs) : (∃ i, .close i ∈ as) ∧ ∀ i a, .use i a ∉ bs := by
  induction h generalizing bs with
  | nil => exact absurd htr (by simp)
  | win _ hlog _ | use _ hlog _ | close hlog _ =>
    rcases snoc_eq_append_cons htr with ⟨-, hact, -⟩ | ⟨cs, -, rfl⟩
    · exact absurd hact (by simp)
    · have hmem : Act.leave r ∈ as ++ Act.leave r :: cs := by simp
      obtain ⟨j, hj⟩ := hlog.closed_of_leave hmem
      exact absurd hj (by simp)
  | leave s hlog ih =>
    rcases snoc_eq_append_cons htr with ⟨rfl, -, rfl⟩ | ⟨cs, rfl, hcs⟩
    · exact ⟨⟨_, hlog.close_mem⟩, by simp⟩
    · obtain ⟨hclose, hcs⟩ := ih hcs
      refine ⟨hclose, fun i a hmem => ?_⟩
      rcases List.mem_append.mp hmem with hmem | hmem
      · exact hcs i a hmem
      · exact absurd hmem (by simp)

end Log

end Gate
