import Mathlib.Data.List.Basic
import Mathlib.Data.List.Perm.Basic
import Mathlib.Tactic.Common

/-
  Two ways to keep entries with a deadline: a ring of slots and an ordered multimap.

  `ring tick base slots` lists the entries of a ring whose first slot is due one tick after
  `base`, the next one two ticks after it, and so on. `ring_filter` says that the slots which
  have had their turn by a time are exactly the entries due by then. A `Multimap` carries the
  proof that its entries are in order of their keys; `due_eq_filter` says that the entries
  taken from its front are the ones with a key up to the bound.
-/

namespace Deadlines

universe u v

variable {α : Type u}

/-! ## A ring of slots -/

/-- The entries of the slots with their deadlines. -/
def ring (tick base : Int) : List (List α) → List (α × Int)
  | [] => []
  | s :: rest => s.map (fun x => (x, base + tick)) ++ ring tick (base + tick) rest

theorem ring_append (tick base : Int) (s t : List (List α)) :
    ring tick base (s ++ t) = ring tick base s ++ ring tick (base + tick * s.length) t := by
  induction s generalizing base with
  | nil => simp [ring]
  | cons x s ih =>
    have hbase : base + tick + tick * s.length = base + tick * (x :: s).length := by
      rw [List.length_cons, Int.natCast_add, Int.natCast_one, Int.mul_add, Int.mul_one]
      omega
    rw [List.cons_append, ring, ring, ih, hbase, List.append_assoc]

@[simp] theorem ring_replicate_nil (tick base : Int) (n : Nat) :
    ring tick base (List.replicate n ([] : List α)) = [] := by
  induction n generalizing base with
  | zero => rfl
  | succ n ih => rw [List.replicate_succ, ring, ih, List.map_nil, List.append_nil]

/-- The ring after its first `n` slots have had their turn and were emptied. -/
theorem ring_drop (tick base : Int) (s : List (List α)) {n : Nat} (hn : n ≤ s.length) :
    ring tick base s = ring tick base (s.take n) ++
      ring tick (base + tick * n) (s.drop n ++ List.replicate n []) := by
  conv_lhs => rw [← List.take_append_drop n s]
  rw [ring_append, ring_append, ring_replicate_nil, List.append_nil, List.length_take_of_le hn]

theorem ring_map_fst (tick base : Int) (s : List (List α)) :
    (ring tick base s).map Prod.fst = s.flatten := by
  induction s generalizing base with
  | nil => rfl
  | cons x s ih => simp [ring, ih, Function.comp_def]

/-- A later base puts off every deadline by as much. -/
theorem ring_shift (tick base d : Int) (s : List (List α)) :
    ring tick (base + d) s = (ring tick base s).map fun p => (p.1, p.2 + d) := by
  induction s generalizing base with
  | nil => rfl
  | cons x s ih =>
    have hbase : base + d + tick = base + tick + d := by omega
    rw [ring, ring, hbase, ih, List.map_append, List.map_map]
    rfl

/-- A deadline lies between the turn of the first slot and the turn of the last. -/
theorem mem_ring {tick base : Int} (htick : 0 ≤ tick) {s : List (List α)} {p : α × Int}
    (hp : p ∈ ring tick base s) : base + tick ≤ p.2 ∧ p.2 ≤ base + tick * s.length := by
  induction s generalizing base with
  | nil => simp [ring] at hp
  | cons x s ih =>
    have hlen : 0 ≤ tick * (s.length : Int) := Int.mul_nonneg htick (Int.natCast_nonneg _)
    rw [List.length_cons, Int.natCast_add, Int.natCast_one, Int.mul_add, Int.mul_one]
    rw [ring, List.mem_append] at hp
    rcases hp with hp | hp
    · obtain ⟨y, -, rfl⟩ := List.mem_map.mp hp
      exact ⟨Int.le_refl _, by simp only; omega⟩
    · obtain ⟨h1, h2⟩ := ih hp
      exact ⟨by omega, by omega⟩

/-- An entry stands in the slot that its deadline says. -/
theorem exists_slot_of_mem_ring {tick base : Int} {s : List (List α)} {p : α × Int}
    (hp : p ∈ ring tick base s) :
    ∃ k, ∃ h : k < s.length, p.1 ∈ s[k] ∧ p.2 = base + tick * (k + 1) := by
  induction s generalizing base with
  | nil => simp [ring] at hp
  | cons x s ih =>
    rw [ring, List.mem_append] at hp
    rcases hp with hp | hp
    · obtain ⟨y, hy, rfl⟩ := List.mem_map.mp hp
      exact ⟨0, Nat.zero_lt_succ _, hy, by simp⟩
    · obtain ⟨k, hk, hmem, hdeadline⟩ := ih hp
      refine ⟨k + 1, Nat.succ_lt_succ hk, hmem, ?_⟩
      rw [hdeadline, Int.natCast_add, Int.natCast_one, Int.mul_add tick (k + 1) 1, Int.mul_one]
      omega

/-- One more entry in slot `k`. -/
theorem ring_modify_perm (tick base : Int) (s : List (List α)) {k : Nat} (hk : k < s.length)
    (x : α) : (ring tick base (s.modify k (· ++ [x]))).Perm
      ((x, base + tick * (k + 1)) :: ring tick base s) := by
  induction s generalizing base k with
  | nil => simp at hk
  | cons y s ih =>
    cases k with
    | zero =>
      rw [List.modify_zero_cons, ring, ring, List.map_append, List.append_assoc,
        Int.natCast_zero, Int.zero_add, Int.mul_one]
      exact List.perm_middle
    | succ k =>
      rw [List.modify_succ_cons, ring, ring]
      have hbase : base + tick + tick * ((k : Int) + 1) = base + tick * ((k + 1 : Nat) + 1) := by
        rw [Int.natCast_add, Int.natCast_one, Int.mul_add, Int.mul_add, Int.mul_add]
        omega
      have hrec := ih (base + tick) (by simpa using hk)
      rw [hbase] at hrec
      exact (hrec.append_left _).trans List.perm_middle

/-- After `n` turns the entries due by `now` are the ones of the first `n` slots, if `n` is
    the number of whole ticks that have passed, or every slot has had its turn. -/
theorem ring_filter {tick base now : Int} (htick : 0 < tick) {s : List (List α)} {n : Nat}
    (hn : n ≤ s.length) (hpast : 0 < n → base + tick * n ≤ now)
    (hfuture : n < s.length → now < base + tick * n + tick) :
    (ring tick base s).filter (fun p => decide (p.2 ≤ now)) = ring tick base (s.take n) ∧
      (ring tick base s).filter (fun p => decide (now < p.2)) =
        ring tick (base + tick * n) (s.drop n ++ List.replicate n []) := by
  have hle := Int.le_of_lt htick
  have front : ∀ p ∈ ring tick base (s.take n), p.2 ≤ now := by
    intro p hp
    have hpos : 0 < n := by
      rcases Nat.eq_zero_or_pos n with rfl | h
      · simp [ring] at hp
      · exact h
    have hup := (mem_ring hle hp).2
    rw [List.length_take_of_le hn] at hup
    exact Int.le_trans hup (hpast hpos)
  have back : ∀ p ∈ ring tick (base + tick * n) (s.drop n ++ List.replicate n []), now < p.2 := by
    intro p hp
    have hlow := (mem_ring hle hp).1
    rcases Nat.lt_or_ge n s.length with hlt | hge
    · exact Int.lt_of_lt_of_le (hfuture hlt) hlow
    · rw [List.drop_eq_nil_of_le hge, List.nil_append, ring_replicate_nil] at hp
      simp at hp
  rw [ring_drop tick base s hn, List.filter_append, List.filter_append]
  constructor
  · rw [List.filter_eq_self.mpr fun p hp => decide_eq_true (front p hp),
      List.filter_eq_nil_iff.mpr fun p hp => by simpa using back p hp, List.append_nil]
  · rw [List.filter_eq_nil_iff.mpr fun p hp => by simpa using front p hp,
      List.filter_eq_self.mpr fun p hp => decide_eq_true (back p hp), List.nil_append]

/-! ## An ordered multimap -/

/-- Entries in order of their keys; equal keys stay in order of insertion. -/
structure Multimap (α : Type u) where
  entries : List (Int × α)
  sorted : entries.Pairwise fun p q => p.1 ≤ q.1

/-- Insert behind the entries with a key up to `k`. -/
def insertEntry (k : Int) (x : α) : List (Int × α) → List (Int × α)
  | [] => [(k, x)]
  | p :: m => if k < p.1 then (k, x) :: p :: m else p :: insertEntry k x m

theorem insertEntry_perm (k : Int) (x : α) (m : List (Int × α)) :
    (insertEntry k x m).Perm ((k, x) :: m) := by
  induction m with
  | nil => exact List.Perm.refl _
  | cons p m ih =>
    rw [insertEntry]
    split
    · exact List.Perm.refl _
    · exact (ih.cons p).trans (List.Perm.swap _ _ _)

theorem insertEntry_sorted (k : Int) (x : α) {m : List (Int × α)}
    (h : m.Pairwise fun p q => p.1 ≤ q.1) :
    (insertEntry k x m).Pairwise fun p q => p.1 ≤ q.1 := by
  induction m with
  | nil => exact List.pairwise_singleton _ _
  | cons p m ih =>
    obtain ⟨hp, hm⟩ := List.pairwise_cons.mp h
    rw [insertEntry]
    split
    · rename_i hlt
      refine List.pairwise_cons.mpr ⟨?_, h⟩
      intro q hq
      rcases List.mem_cons.mp hq with rfl | hq
      · exact Int.le_of_lt hlt
      · exact Int.le_trans (Int.le_of_lt hlt) (hp q hq)
    · rename_i hge
      refine List.pairwise_cons.mpr ⟨?_, ih hm⟩
      intro q hq
      rcases List.mem_cons.mp ((insertEntry_perm k x m).mem_iff.mp hq) with rfl | hq
      · exact Int.not_lt.mp hge
      · exact hp q hq

namespace Multimap

def empty : Multimap α := ⟨[], List.Pairwise.nil⟩

def insert (m : Multimap α) (k : Int) (x : α) : Multimap α :=
  ⟨insertEntry k x m.entries, insertEntry_sorted k x m.sorted⟩

/-- Erase the first entry of `x` among those with key `k`. -/
def erase [DecidableEq α] (m : Multimap α) (k : Int) (x : α) : Multimap α :=
  ⟨m.entries.eraseP fun p => decide (p = (k, x)), m.sorted.sublist (List.eraseP_sublist)⟩

/-- The entries with a key up to `now`, from the front. -/
def due (m : Multimap α) (now : Int) : List (Int × α) :=
  m.entries.takeWhile fun p => decide (p.1 ≤ now)

/-- What is left without them. -/
def rest (m : Multimap α) (now : Int) : Multimap α :=
  ⟨m.entries.dropWhile fun p => decide (p.1 ≤ now), m.sorted.sublist (List.dropWhile_sublist _)⟩

theorem due_rest_eq_filter {m : List (Int × α)} (h : m.Pairwise fun p q => p.1 ≤ q.1)
    (now : Int) :
    m.takeWhile (fun p => decide (p.1 ≤ now)) = m.filter (fun p => decide (p.1 ≤ now)) ∧
      m.dropWhile (fun p => decide (p.1 ≤ now)) = m.filter fun p => decide (now < p.1) := by
  induction m with
  | nil => exact ⟨rfl, rfl⟩
  | cons p m ih =>
    obtain ⟨hp, hm⟩ := List.pairwise_cons.mp h
    rcases Int.lt_or_le now p.1 with hlt | hge
    · have later : ∀ q ∈ m, now < q.1 := fun q hq => Int.lt_of_lt_of_le hlt (hp q hq)
      constructor
      · rw [List.takeWhile_cons_of_neg (by simpa using hlt),
          List.filter_cons_of_neg (by simpa using hlt),
          List.filter_eq_nil_iff.mpr fun q hq => by simpa using later q hq]
      · rw [List.dropWhile_cons_of_neg (by simpa using hlt),
          List.filter_cons_of_pos (by simpa using hlt),
          List.filter_eq_self.mpr fun q hq => decide_eq_true (later q hq)]
    · obtain ⟨h1, h2⟩ := ih hm
      constructor
      · rw [List.takeWhile_cons_of_pos (by simpa using hge),
          List.filter_cons_of_pos (by simpa using hge), h1]
      · rw [List.dropWhile_cons_of_pos (by simpa using hge),
          List.filter_cons_of_neg (by simpa using hge), h2]

theorem due_eq_filter (m : Multimap α) (now : Int) :
    m.due now = m.entries.filter fun p => decide (p.1 ≤ now) :=
  (due_rest_eq_filter m.sorted now).1

theorem rest_eq_filter (m : Multimap α) (now : Int) :
    (m.rest now).entries = m.entries.filter fun p => decide (now < p.1) :=
  (due_rest_eq_filter m.sorted now).2

end Multimap

end Deadlines
