import Mathlib.Data.List.Perm.Basic
import Mathlib.Data.List.Perm.Subperm
import Mathlib.Tactic.Common

/-
  Items that are handed from a producer to a consumer through two buffers.

  The producer fills one buffer and trades it for the one that is given; the consumer takes
  the given buffer and puts out what it has taken. A trade for a buffer that was not taken
  puts the newer items in front of the older ones, so no order survives it, but no item is
  lost either: `all` is then a permutation of what came in.
-/

/-- The items, by where they are. -/
structure Handoff (α : Type) where
  out : List α := []
  taken : List α := []
  given : List α := []
  filling : List α := []

namespace Handoff

variable {α β : Type} (h : Handoff α)

def put (x : α) : Handoff α := { h with filling := h.filling ++ [x] }

def trade : Handoff α := { h with given := h.filling, filling := h.given }

def take : Handoff α := { h with taken := h.given, given := h.taken }

def emit : Handoff α := { h with out := h.out ++ h.taken, taken := [] }

/-- All items, the ones that are put out first. -/
def all : List α := h.out ++ h.taken ++ h.given ++ h.filling

theorem all_put (x : α) : (h.put x).all = h.all ++ [x] := by
  simp [all, put]

theorem all_take (ht : h.taken = []) : h.take.all = h.all := by
  simp [all, take, ht]

theorem all_emit : h.emit.all = h.all := by
  simp [all, emit]

/-- A trade for an empty buffer keeps the order. -/
theorem all_trade (hg : h.given = []) : h.trade.all = h.all := by
  simp [all, trade, hg]

theorem all_trade_perm : h.trade.all.Perm h.all := by
  simp only [all, trade, List.append_assoc]
  exact (List.perm_append_comm.append_left _).append_left _

/-- Nothing is behind the items that are put out. -/
theorem all_eq_out (ht : h.taken = []) (hg : h.given = []) (hf : h.filling = []) :
    h.all = h.out := by
  simp [all, ht, hg, hf]

end Handoff

namespace List

variable {α : Type}

/-- Taking the head off one of several queues takes it out of all of them. -/
theorem flatten_set_perm {ls : List (List α)} {i : Nat} {x : α} {xs : List α}
    (hi : ls[i]? = some (x :: xs)) : ls.flatten.Perm (x :: (ls.set i xs).flatten) := by
  induction ls generalizing i with
  | nil => simp at hi
  | cons l ls ih =>
    cases i with
    | zero =>
      obtain rfl : l = x :: xs := by simpa using hi
      simp
    | succ i =>
      have hrest := ih (by simpa using hi)
      simp only [set_cons_succ, flatten_cons]
      exact (hrest.append_left l).trans perm_middle

/-- What one item of a list yields is replaced by what its successor yields. -/
theorem filterMap_set_perm {β : Type} (f : α → Option β) {l : List α} {i : Nat} {a : α}
    (hi : l[i]? = some a) (b : α) :
    ((f a).toList ++ (l.set i b).filterMap f).Perm ((f b).toList ++ l.filterMap f) := by
  have hcons : ∀ (c : α) (l : List α), (c :: l).filterMap f = (f c).toList ++ l.filterMap f := by
    intro c l
    rw [filterMap_cons]
    cases f c <;> rfl
  induction l generalizing i with
  | nil => simp at hi
  | cons c l ih =>
    cases i with
    | zero =>
      obtain rfl : c = a := by simpa using hi
      rw [set_cons_zero, hcons, hcons]
      exact perm_append_comm_assoc _ _ _
    | succ i =>
      have hrest := ih (by simpa using hi)
      rw [set_cons_succ, hcons, hcons]
      refine (perm_append_comm_assoc _ _ _).trans ?_
      exact (hrest.append_left _).trans (perm_append_comm_assoc _ _ _)

/-- What is appended to one of several queues is appended to all of them. -/
theorem flatten_set_append_perm {ls : List (List α)} {i : Nat} {xs : List α}
    (hi : ls[i]? = some xs) (ys : List α) :
    (ls.set i (xs ++ ys)).flatten.Perm (ls.flatten ++ ys) := by
  induction ls generalizing i with
  | nil => simp at hi
  | cons l ls ih =>
    cases i with
    | zero =>
      obtain rfl : l = xs := by simpa using hi
      simpa using (@perm_append_comm _ ys ls.flatten).append_left l
    | succ i =>
      have hrest := ih (by simpa using hi)
      simpa using hrest.append_left l

end List
