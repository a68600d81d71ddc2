import Mathlib.Data.List.Basic
import Mathlib.Data.List.Infix
import Mathlib.Tactic.Common

/-
  Searching a text for the first occurrence of a pattern.

  `Absent pat u v` says that no occurrence of the pattern starts in `u`, with `v` behind it: the
  search then goes on in `v` (`search_append`). A pattern that starts with a delimiter occurs at
  a delimiter only, and between two of them whole texts are compared (`delimited_eq`).
-/

namespace TextSearch

variable {α : Type*} [DecidableEq α]

/-- The index at which the pattern first occurs. -/
def search (pat : List α) : List α → Option Nat
  | [] => if pat = [] then some 0 else none
  | x :: xs => if pat.isPrefixOf (x :: xs) then some 0 else (search pat xs).map (· + 1)

theorem search_eq_zero {pat s : List α} (h : pat <+: s) : search pat s = some 0 := by
  cases s with
  | nil => simp [search, List.prefix_nil.mp h]
  | cons x xs => simp [search, h]

theorem search_cons_of_not {pat xs : List α} {x : α} (h : ¬ pat <+: x :: xs) :
    search pat (x :: xs) = (search pat xs).map (· + 1) := by
  simp [search, h]

theorem search_eq_none {pat s : List α} (h : ¬ pat <:+: s) : search pat s = none := by
  induction s with
  | nil =>
    have hne : pat ≠ [] := fun heq => h (heq ▸ List.infix_rfl)
    simp [search, hne]
  | cons x xs ih =>
    rw [List.infix_cons_iff, not_or] at h
    rw [search_cons_of_not h.1, ih h.2]
    rfl

theorem add_le_of_search {pat s : List α} {i : Nat} (h : search pat s = some i) :
    i + pat.length ≤ s.length := by
  induction s generalizing i with
  | nil =>
    rw [search] at h
    split at h
    · rename_i hpat
      obtain rfl := Option.some.inj h
      simp [hpat]
    · exact absurd h (by simp)
  | cons x xs ih =>
    by_cases hpre : pat <+: x :: xs
    · rw [search_eq_zero hpre] at h
      obtain rfl := Option.some.inj h
      rw [Nat.zero_add]
      exact hpre.length_le
    · rw [search_cons_of_not hpre] at h
      obtain ⟨j, hj, rfl⟩ := Option.map_eq_some_iff.mp h
      have hle := ih hj
      rw [List.length_cons]
      omega

/-! ## Parts without the pattern -/

omit [DecidableEq α] in
/-- No occurrence of the pattern starts in `u`, which `v` follows. -/
def Absent (pat : List α) : List α → List α → Prop
  | [], _ => True
  | x :: u, v => ¬ pat <+: x :: (u ++ v) ∧ Absent pat u v

theorem search_append {pat u v : List α} (h : Absent pat u v) :
    search pat (u ++ v) = (search pat v).map (· + u.length) := by
  induction u with
  | nil => simp
  | cons x u ih =>
    rw [List.cons_append, search_cons_of_not h.1, ih h.2, Option.map_map]
    congr 1

omit [DecidableEq α]

theorem Absent.append {pat u₁ u₂ v : List α} (h₁ : Absent pat u₁ (u₂ ++ v))
    (h₂ : Absent pat u₂ v) : Absent pat (u₁ ++ u₂) v := by
  induction u₁ with
  | nil => exact h₂
  | cons x u₁ ih =>
    have hassoc : x :: (u₁ ++ u₂ ++ v) = x :: (u₁ ++ (u₂ ++ v)) := by rw [List.append_assoc]
    exact ⟨hassoc ▸ h₁.1, ih h₁.2⟩

/-- A pattern occurs only where its first character stands. -/
theorem absent_of_not_mem {c : α} {pat u : List α} (h : c ∉ u) (v : List α) :
    Absent (c :: pat) u v := by
  induction u with
  | nil => trivial
  | cons x u ih =>
    rw [List.mem_cons, not_or] at h
    exact ⟨fun hpre => h.1 (List.cons_prefix_cons.mp hpre).1, ih h.2⟩

/-- What is not there up to the last character of an occurrence is not there before it. -/
theorem absent_before {pat u v : List α} (h : ¬ pat <:+: u ++ pat.dropLast) :
    Absent pat u (pat ++ v) := by
  induction u with
  | nil => trivial
  | cons x u ih =>
    rw [List.cons_append, List.infix_cons_iff, not_or] at h
    refine ⟨fun hpre => h.1 ?_, ih h.2⟩
    refine List.prefix_of_prefix_length_le hpre ?_ ?_
    · exact List.cons_prefix_cons.mpr ⟨rfl, List.prefix_append_right_inj u |>.mpr
        ((List.dropLast_prefix pat).trans (List.prefix_append pat v))⟩
    · simp only [List.length_cons, List.length_append, List.length_dropLast]
      omega

/-! ## Delimiters -/

/-- Between a start and a delimiter, whole texts are compared. -/
theorem delimited_eq {c : α} {a b x y : List α} (ha : c ∉ a) (hb : c ∉ b)
    (h : a ++ c :: x <+: b ++ c :: y) : a = b ∧ x <+: y := by
  induction a generalizing b with
  | nil =>
    cases b with
    | nil => exact ⟨rfl, (List.cons_prefix_cons.mp h).2⟩
    | cons d b =>
      obtain ⟨hcd, -⟩ := List.cons_prefix_cons.mp h
      exact absurd (hcd ▸ List.mem_cons_self) hb
  | cons d a ih =>
    cases b with
    | nil =>
      obtain ⟨hcd, -⟩ := List.cons_prefix_cons.mp h
      exact absurd (hcd ▸ List.mem_cons_self) ha
    | cons e b =>
      obtain ⟨rfl, htail⟩ := List.cons_prefix_cons.mp h
      rw [List.mem_cons, not_or] at ha hb
      obtain ⟨rfl, hxy⟩ := ih ha.2 hb.2 htail
      exact ⟨rfl, hxy⟩

theorem search_delimiter [DecidableEq α] {c : α} {a : List α} (ha : c ∉ a) (y : List α) :
    search [c] (a ++ c :: y) = some a.length := by
  have hpre : [c] <+: c :: y := List.prefix_append [c] y
  rw [search_append (absent_of_not_mem ha _), search_eq_zero hpre]
  simp

end TextSearch
