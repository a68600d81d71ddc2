import Mathlib.Data.List.Basic
import Mathlib.Tactic.Common

/-
  The lists with a prefix, as a range of the lexicographic order.

  Behind its last letter that is not the greatest one, a prefix has greatest letters only. The
  lists with this prefix are those from it up to the list that ends with the next letter there
  (`prefix_iff_range`); where all letters are greatest, there is no end (`prefix_iff_le`).
-/

namespace PrefixOrder

variable {α : Type*} [LT α] [Std.Asymm (· < · : α → α → Prop)]
  [Std.Trichotomous (· < · : α → α → Prop)]

/-- No letter is above these. -/
def Greatest (t : List α) : Prop := ∀ y ∈ t, ∀ c, ¬ y < c

theorem prefix_iff_le {t : List α} (ht : Greatest t) (x : List α) : t <+: x ↔ t ≤ x := by
  induction t generalizing x with
  | nil => simp
  | cons y t ih =>
    cases x with
    | nil => simp
    | cons c x =>
      have hy : ¬ y < c := ht y List.mem_cons_self c
      rw [List.cons_prefix_cons, List.cons_le_cons_iff,
        ih fun z hz => ht z (List.mem_cons_of_mem y hz)]
      exact (or_iff_right hy).symm

/-- `b'` is the next letter behind `b`. -/
theorem prefix_iff_range {q t : List α} {b b' : α} (hnext : ∀ c, c < b' ↔ ¬ b < c)
    (ht : Greatest t) (x : List α) :
    q ++ b :: t <+: x ↔ q ++ b :: t ≤ x ∧ x < q ++ [b'] := by
  induction q generalizing x with
  | nil =>
    cases x with
    | nil => simp
    | cons c x =>
      simp only [List.nil_append, List.cons_prefix_cons, List.cons_le_cons_iff,
        List.cons_lt_cons_iff, List.not_lt_nil, and_false, or_false, hnext, prefix_iff_le ht]
      constructor
      · rintro ⟨rfl, hx⟩
        exact ⟨Or.inr ⟨rfl, hx⟩, Std.Irrefl.irrefl b⟩
      · rintro ⟨hbc | ⟨rfl, hx⟩, hc⟩
        · exact absurd hbc hc
        · exact ⟨rfl, hx⟩
  | cons d q ih =>
    cases x with
    | nil => simp
    | cons c x =>
      simp only [List.cons_append, List.cons_prefix_cons, List.cons_le_cons_iff,
        List.cons_lt_cons_iff, ih]
      constructor
      · rintro ⟨rfl, hx⟩
        exact ⟨Or.inr ⟨rfl, hx.1⟩, Or.inr ⟨rfl, hx.2⟩⟩
      · rintro ⟨hdc | ⟨rfl, hle⟩, hcd | ⟨heq, hlt⟩⟩
        · exact absurd hcd (Std.Asymm.asymm d c hdc)
        · exact absurd (heq ▸ hdc) (Std.Irrefl.irrefl d)
        · exact absurd hcd (Std.Irrefl.irrefl d)
        · exact ⟨rfl, hle, hlt⟩

end PrefixOrder
