import Mathlib.Logic.Function.Basic
import RocketRpc.Lib.Machine

/-
  Two machines at the ends of a link.

  What one end puts on the link is on its way to the other, which takes it in the same order and
  as much of it at a time as it likes, and sees that nothing follows only behind all of it. Each
  end goes through a run of its machine (`run_part`), along which an invariant of the machine and
  of what it has taken holds (`run_takes`). What one end has put is what the other has taken and
  what is on its way to it (`run_conserves`).
-/

namespace Link

open Machine

universe u v w x

inductive End where
  | near
  | far
  deriving DecidableEq, Repr

namespace End

def other : End → End
  | .near => .far
  | .far => .near

@[simp] theorem other_other (e : End) : e.other.other = e := by cases e <;> rfl

theorem other_ne (e : End) : e.other ≠ e := by cases e <;> simp [other]

theorem eq_or_other (d e : End) : d = e ∨ d = e.other := by
  cases d <;> cases e <;> simp [other]

end End

/-- A machine, what its steps take from a stream, and what its events put on another. -/
structure Port (σ : Type u) (ℓ : Type v) (ε : Type w) (α : Type x) where
  step : σ → ℓ → Option (σ × List ε)
  takes : σ → ℓ → List α
  /-- The step sees that nothing follows what it takes. -/
  seesEnd : σ → ℓ → Bool
  puts : ε → List α
  /-- Nothing more is put on the stream. -/
  ended : σ → Bool

structure Joined (σ : Type u) (α : Type x) where
  ends : End → σ
  /-- What each end has taken. -/
  taken : End → List α
  /-- What is on its way to each end. -/
  wire : End → List α

variable {σ : Type u} {ℓ : Type v} {ε : Type w} {α : Type x}

namespace Joined

/-- Nothing was put on the link. -/
def new (ends : End → σ) : Joined σ α := { ends, taken := fun _ => [], wire := fun _ => [] }

/-- One end goes on to `x`, takes something and puts something. -/
def pass (s : Joined σ α) (e : End) (x : σ) (takes puts : List α) : Joined σ α where
  ends := Function.update s.ends e x
  taken := Function.update s.taken e (s.taken e ++ takes)
  wire := Function.update (Function.update s.wire e ((s.wire e).drop takes.length)) e.other
    (s.wire e.other ++ puts)

/-- What an end may do: take what is on its way to it, and see the end of it where it is. -/
def May (p : Port σ ℓ ε α) (s : Joined σ α) (e : End) (l : ℓ) : Prop :=
  p.takes (s.ends e) l <+: s.wire e ∧
    (p.seesEnd (s.ends e) l = true →
      p.takes (s.ends e) l = s.wire e ∧ p.ended (s.ends e.other) = true)

instance [DecidableEq α] (p : Port σ ℓ ε α) (s : Joined σ α) (e : End) (l : ℓ) :
    Decidable (s.May p e l) := inferInstanceAs (Decidable (_ ∧ (_ → _)))

def step [DecidableEq α] (p : Port σ ℓ ε α) (s : Joined σ α) :
    End × ℓ → Option (Joined σ α × List (End × ε))
  | (e, l) =>
    if s.May p e l then
      (p.step (s.ends e) l).map fun r =>
        (s.pass e r.1 (p.takes (s.ends e) l) (r.2.flatMap p.puts), r.2.map (Prod.mk e))
    else none

section Pass

variable (s : Joined σ α) (e : End) (x : σ) (takes puts : List α)

@[simp] theorem pass_ends : (s.pass e x takes puts).ends e = x := Function.update_self ..

@[simp] theorem pass_taken : (s.pass e x takes puts).taken e = s.taken e ++ takes :=
  Function.update_self ..

@[simp] theorem pass_wire : (s.pass e x takes puts).wire e = (s.wire e).drop takes.length :=
  (Function.update_of_ne e.other_ne.symm _ _).trans (Function.update_self ..)

@[simp] theorem pass_ends_other : (s.pass e x takes puts).ends e.other = s.ends e.other :=
  Function.update_of_ne e.other_ne _ _

@[simp] theorem pass_taken_other : (s.pass e x takes puts).taken e.other = s.taken e.other :=
  Function.update_of_ne e.other_ne _ _

@[simp] theorem pass_wire_other :
    (s.pass e x takes puts).wire e.other = s.wire e.other ++ puts := Function.update_self ..

end Pass

end Joined

/-! ## What one end has of a run -/

variable {β : Type*}

def part (e : End) (xs : List (End × β)) : List β :=
  xs.filterMap fun x => if x.1 = e then some x.2 else none

@[simp] theorem part_nil (e : End) : part e ([] : List (End × β)) = [] := rfl

theorem part_append (e : End) (xs ys : List (End × β)) :
    part e (xs ++ ys) = part e xs ++ part e ys := List.filterMap_append

@[simp] theorem part_cons (e : End) (b : β) (xs : List (End × β)) :
    part e ((e, b) :: xs) = b :: part e xs := List.filterMap_cons_some (if_pos rfl)

@[simp] theorem part_other_cons (e : End) (b : β) (xs : List (End × β)) :
    part e.other ((e, b) :: xs) = part e.other xs :=
  List.filterMap_cons_none (if_neg fun h => e.other_ne h.symm)

@[simp] theorem part_map (e : End) (bs : List β) : part e (bs.map (Prod.mk e)) = bs := by
  induction bs with
  | nil => rfl
  | cons b bs ih => rw [List.map_cons, part_cons, ih]

@[simp] theorem part_other_map (e : End) (bs : List β) :
    part e.other (bs.map (Prod.mk e)) = [] := by
  induction bs with
  | nil => rfl
  | cons b bs ih => rw [List.map_cons, part_other_cons, ih]

/-! ## Steps and runs -/

variable [DecidableEq α] {p : Port σ ℓ ε α} {s t : Joined σ α} {es : List (End × ε)}

theorem step_cases {e : End} {l : ℓ} (h : s.step p (e, l) = some (t, es)) :
    ∃ x fs, p.step (s.ends e) l = some (x, fs) ∧ s.May p e l ∧
      t = s.pass e x (p.takes (s.ends e) l) (fs.flatMap p.puts) ∧ es = fs.map (Prod.mk e) := by
  obtain ⟨hmay, h⟩ := Option.ite_none_right_eq_some.mp h
  obtain ⟨⟨x, fs⟩, hstep, heq⟩ := Option.map_eq_some_iff.mp h
  obtain ⟨rfl, rfl⟩ := Prod.mk.inj heq
  exact ⟨x, fs, hstep, hmay, rfl, rfl⟩

/-- At each end a run is a run of the machine. -/
theorem run_part {ls : List (End × ℓ)} (h : run (Joined.step p) s ls = some (t, es)) (e : End) :
    run p.step (s.ends e) (part e ls) = some (t.ends e, part e es) := by
  induction ls generalizing s es with
  | nil =>
    obtain ⟨rfl, rfl⟩ : s = t ∧ [] = es := by simpa using h
    rfl
  | cons l ls ih =>
    obtain ⟨d, l⟩ := l
    obtain ⟨u, es₁, es₂, hstep, hrest, rfl⟩ := run_cons_eq_some.mp h
    obtain ⟨x, fs, hx, -, rfl, rfl⟩ := step_cases hstep
    have hrun := ih hrest
    rcases e.eq_or_other d with rfl | rfl
    · rw [Joined.pass_ends] at hrun
      rw [part_cons, part_append, part_map]
      exact run_cons_eq_some.mpr ⟨x, fs, _, hx, hrun, rfl⟩
    · rw [Joined.pass_ends_other] at hrun
      rw [part_other_cons, part_append, part_other_map, List.nil_append]
      exact hrun

/-- The invariant rule for one end, over its state, its events and what it has taken. -/
theorem run_takes (P : σ → List ε → List α → Prop) (e : End)
    (hstep : ∀ x tr xs l y fs, P x tr xs → p.step x l = some (y, fs) →
      P y (tr ++ fs) (xs ++ p.takes x l))
    {ls : List (End × ℓ)} (h₀ : P (s.ends e) [] (s.taken e))
    (h : run (Joined.step p) s ls = some (t, es)) : P (t.ends e) (part e es) (t.taken e) := by
  refine run_induction (fun u tr => P (u.ends e) (part e tr) (u.taken e)) ?_ [] h₀ h
  rintro u tr ⟨d, l⟩ u' fs hu hs
  obtain ⟨x, gs, hx, -, rfl, rfl⟩ := step_cases hs
  rw [part_append]
  rcases e.eq_or_other d with rfl | rfl
  · rw [Joined.pass_ends, Joined.pass_taken, part_map]
    exact hstep _ _ _ l _ _ hu hx
  · rw [Joined.pass_ends_other, Joined.pass_taken_other, part_other_map, List.append_nil]
    exact hu

/-- Nothing is lost, made up or put in another order on the way to an end. -/
theorem run_conserves {ls : List (End × ℓ)} {ends : End → σ}
    (h : run (Joined.step p) (.new ends) ls = some (t, es)) (e : End) :
    (part e.other es).flatMap p.puts = t.taken e ++ t.wire e := by
  refine run_induction
    (fun u tr => (part e.other tr).flatMap p.puts = u.taken e ++ u.wire e) ?_ [] rfl h
  rintro u tr ⟨d, l⟩ u' fs hu hs
  obtain ⟨x, gs, -, hmay, rfl, rfl⟩ := step_cases hs
  rw [part_append, List.flatMap_append, hu]
  rcases e.eq_or_other d with rfl | rfl
  · obtain ⟨rest, hrest⟩ := hmay.1
    rw [part_other_map, List.flatMap_nil, List.append_nil, Joined.pass_taken, Joined.pass_wire,
      ← hrest, List.drop_left, List.append_assoc]
  · rw [End.other_other, part_map, Joined.pass_taken_other, Joined.pass_wire_other,
      List.append_assoc]

end Link
