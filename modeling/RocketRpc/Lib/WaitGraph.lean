import Mathlib.Logic.Relation

/-
  Who waits for whom.

  A relation is `Acyclic` when nothing is reached from itself. An edge that is added keeps it
  so when its source is not reached from its target (`Acyclic.insert`), and edges that are
  taken away always do (`Acyclic.mono`).
-/

namespace WaitGraph

open Relation

universe u

variable {α : Type u} {r r' : α → α → Prop}

/-- Nothing waits for itself, directly or through others. -/
def Acyclic (r : α → α → Prop) : Prop := ∀ a, ¬ TransGen r a a

theorem acyclic_of_forall_not (h : ∀ a b, ¬ r a b) : Acyclic r := by
  intro a ha
  obtain ⟨b, hb, -⟩ := TransGen.head'_iff.mp ha
  exact h a b hb

theorem Acyclic.mono (h : Acyclic r) (hle : ∀ a b, r' a b → r a b) : Acyclic r' :=
  fun a ha => h a (TransGen.mono hle a a ha)

/-- A path with one more edge goes over that edge or is a path without it. -/
theorem transGen_insert {a b x y : α} (hle : ∀ x y, r' x y → r x y ∨ x = a ∧ y = b)
    (h : TransGen r' x y) : TransGen r x y ∨ ReflTransGen r x a ∧ ReflTransGen r b y := by
  induction h with
  | single hxy =>
    rcases hle _ _ hxy with hxy | ⟨rfl, rfl⟩
    · exact Or.inl (.single hxy)
    · exact Or.inr ⟨.refl, .refl⟩
  | tail _ hyz ih =>
    rcases hle _ _ hyz with hyz | ⟨rfl, rfl⟩
    · rcases ih with hxy | ⟨hxa, hby⟩
      · exact Or.inl (hxy.tail hyz)
      · exact Or.inr ⟨hxa, hby.tail hyz⟩
    · rcases ih with hxy | ⟨hxa, -⟩
      · exact Or.inr ⟨hxy.to_reflTransGen, .refl⟩
      · exact Or.inr ⟨hxa, .refl⟩

/-- An edge whose source is not reached from its target closes no cycle. -/
theorem Acyclic.insert {a b : α} (h : Acyclic r) (hne : a ≠ b) (hback : ¬ TransGen r b a)
    (hle : ∀ x y, r' x y → r x y ∨ x = a ∧ y = b) : Acyclic r' := by
  intro x hx
  rcases transGen_insert hle hx with hx | ⟨hxa, hbx⟩
  · exact h x hx
  · rcases reflTransGen_iff_eq_or_transGen.mp (hbx.trans hxa) with heq | hba
    · exact hne heq
    · exact hback hba

end WaitGraph
