import Mathlib.Data.List.Nodup
import Mathlib.Logic.Function.Basic
import Mathlib.Tactic.Common

/-
  Free lists over one heap.

  Each of several parties keeps the blocks it no longer needs in a list of its own, linked through
  the blocks themselves, up to `max` of them; it takes blocks from there first, and from the heap
  when its list is empty. A block may be taken by one party and given back by another one.
  `Sound` says that the lists are linked as they should be and share nothing, and `InUse` which
  blocks are out. `take_sound` and `give_sound` are all that a user of the lists needs: what is
  taken was not in use, and nothing else changes.
-/

universe u v

/-- `allocated` are the blocks that the heap has given out, those in the lists among them; `link` is
    the word of a block that leads to the next one of its list. -/
structure FreeLists (κ : Type u) (α : Type v) where
  allocated : α → Bool := fun _ => false
  link : α → Option α := fun _ => none
  head : κ → Option α := fun _ => none
  count : κ → Nat := fun _ => 0

namespace FreeLists

variable {κ : Type u} {α : Type v}

/-- The list from `head` on has the blocks `l`. -/
def Linked (link : α → Option α) : Option α → List α → Prop
  | head, [] => head = none
  | head, n :: l => head = some n ∧ Linked link (link n) l

/-- A write to a block outside of a list. -/
theorem Linked.write [DecidableEq α] {link : α → Option α} {n : α} {v : Option α} {l : List α}
    {head : Option α} (h : Linked link head l) (hn : n ∉ l) :
    Linked (Function.update link n v) head l := by
  induction l generalizing head with
  | nil => exact h
  | cons m l ih =>
    have hm : m ≠ n := fun heq => hn (heq ▸ List.mem_cons_self)
    refine ⟨h.1, ?_⟩
    rw [Function.update_of_ne hm]
    exact ih h.2 fun hmem => hn (List.mem_cons_of_mem _ hmem)

variable [DecidableEq κ] [DecidableEq α]

/-- Party `i` takes a block, from its list or else `fresh` from the heap. -/
def take (f : FreeLists κ α) (i : κ) (fresh : α) : FreeLists κ α × α :=
  match f.head i with
  | some n =>
    ({ f with
      head := Function.update f.head i (f.link n)
      count := Function.update f.count i (f.count i - 1) }, n)
  | none => ({ f with allocated := Function.update f.allocated fresh true }, fresh)

/-- Party `i` gives a block to its list, or back to the heap if the list is full. -/
def give (max : Nat) (f : FreeLists κ α) (i : κ) (n : α) : FreeLists κ α :=
  if f.count i < max then
    { f with
      link := Function.update f.link n (f.head i)
      head := Function.update f.head i (some n)
      count := Function.update f.count i (f.count i + 1) }
  else { f with allocated := Function.update f.allocated n false }

/-- The blocks of the lists are `free`. -/
structure Sound (max : Nat) (f : FreeLists κ α) (free : κ → List α) : Prop where
  linked : ∀ i, Linked f.link (f.head i) (free i)
  count : ∀ i, f.count i = (free i).length
  le_max : ∀ i, (free i).length ≤ max
  nodup : ∀ i, (free i).Nodup
  disjoint : ∀ i j n, n ∈ free i → n ∈ free j → i = j
  allocated : ∀ i, ∀ n ∈ free i, f.allocated n = true

/-- The block is out. -/
def InUse (f : FreeLists κ α) (free : κ → List α) (n : α) : Prop :=
  f.allocated n = true ∧ ∀ i, n ∉ free i

variable {max : Nat} {f : FreeLists κ α} {free : κ → List α}

omit [DecidableEq κ] [DecidableEq α] in
theorem sound_new : Sound max ({} : FreeLists κ α) fun _ => [] where
  linked _ := rfl
  count _ := rfl
  le_max _ := Nat.zero_le _
  nodup _ := List.nodup_nil
  disjoint _ _ _ h := absurd h List.not_mem_nil
  allocated _ _ h := absurd h List.not_mem_nil

omit [DecidableEq α] in
theorem mem_update {i j : κ} {l : List α} {n : α} :
    n ∈ Function.update free i l j ↔ (j = i ∧ n ∈ l) ∨ (j ≠ i ∧ n ∈ free j) := by
  by_cases heq : j = i
  · subst heq
    simp
  · simp [heq]

omit [DecidableEq α] in
/-- The list of one party becomes `l`. -/
theorem Sound.setList (h : Sound max f free) (i : κ) {link : α → Option α} {head : Option α}
    {l : List α} (hothers : ∀ j ≠ i, Linked link (f.head j) (free j)) (hlinked : Linked link head l)
    (hle : l.length ≤ max) (hnodup : l.Nodup) (hdisjoint : ∀ j ≠ i, ∀ m ∈ l, m ∉ free j)
    (hallocated : ∀ m ∈ l, f.allocated m = true) :
    Sound max { f with
      link, head := Function.update f.head i head
      count := Function.update f.count i l.length } (Function.update free i l) where
  linked j := by
    by_cases heq : j = i
    · subst heq
      simpa using hlinked
    · simpa [heq] using hothers j heq
  count j := by
    by_cases heq : j = i
    · subst heq
      simp
    · simpa [heq] using h.count j
  le_max j := by
    by_cases heq : j = i
    · subst heq
      simpa using hle
    · simpa [heq] using h.le_max j
  nodup j := by
    by_cases heq : j = i
    · subst heq
      simpa using hnodup
    · simpa [heq] using h.nodup j
  disjoint j k m hj hk := by
    rcases mem_update.mp hj with ⟨rfl, hmj⟩ | ⟨hji, hmj⟩ <;>
      rcases mem_update.mp hk with ⟨rfl, hmk⟩ | ⟨hki, hmk⟩
    · rfl
    · exact absurd hmk (hdisjoint k hki m hmj)
    · exact absurd hmj (hdisjoint j hji m hmk)
    · exact h.disjoint j k m hmj hmk
  allocated j m hm := by
    rcases mem_update.mp hm with ⟨-, hm⟩ | ⟨-, hm⟩
    · exact hallocated m hm
    · exact h.allocated j m hm

omit [DecidableEq κ] in
/-- The heap gives out or takes back a block that is in no list. -/
theorem Sound.setAllocated (h : Sound max f free) {n : α} (hout : ∀ j, n ∉ free j) (b : Bool) :
    Sound max { f with allocated := Function.update f.allocated n b } free where
  linked := h.linked
  count := h.count
  le_max := h.le_max
  nodup := h.nodup
  disjoint := h.disjoint
  allocated j m hm := by
    have hne : m ≠ n := fun heq => hout j (heq ▸ hm)
    simpa [hne] using h.allocated j m hm

theorem take_sound (h : Sound max f free) (i : κ) {fresh : α} (hfresh : f.allocated fresh = false) :
    ∃ free', Sound max (f.take i fresh).1 free' ∧ ¬ InUse f free (f.take i fresh).2 ∧
      ∀ m, InUse (f.take i fresh).1 free' m ↔ InUse f free m ∨ m = (f.take i fresh).2 := by
  have hlinked := h.linked i
  cases hl : free i with
  | nil =>
    have hhead : f.head i = none := by rwa [hl] at hlinked
    have hout : ∀ j, fresh ∉ free j := fun j hj => by simp [h.allocated j fresh hj] at hfresh
    simp only [take, hhead]
    refine ⟨free, h.setAllocated hout true, fun huse => by simp [huse.1] at hfresh, fun m => ?_⟩
    by_cases heq : m = fresh
    · subst heq
      simp [InUse, hout]
    · simp [InUse, heq]
  | cons n l =>
    rw [hl] at hlinked
    obtain ⟨hhead, hrest⟩ := hlinked
    obtain ⟨hn, hnodup⟩ := List.nodup_cons.mp (hl ▸ h.nodup i)
    have hsub : ∀ m ∈ n :: l, m ∈ free i := fun m hm => hl ▸ hm
    have hcount : f.count i - 1 = l.length := by simp [h.count, hl]
    have hmax : l.length ≤ max := Nat.le_of_succ_le (by simpa [hl] using h.le_max i)
    simp only [take, hhead, hcount]
    refine ⟨Function.update free i l, h.setList i (fun j _ => h.linked j) hrest hmax hnodup
      (fun j hj m hm hmem => hj (h.disjoint j i m hmem (hsub m (List.mem_cons_of_mem _ hm))))
      (fun m hm => h.allocated i m (hsub m (List.mem_cons_of_mem _ hm))),
      fun huse => huse.2 i (hsub n List.mem_cons_self), fun m => ?_⟩
    by_cases heq : m = n
    · -- the block that was taken is in no other list
      subst heq
      simp only [InUse, or_true, iff_true]
      refine ⟨h.allocated i m (hsub m List.mem_cons_self), fun j hj => ?_⟩
      rcases mem_update.mp hj with ⟨-, hm⟩ | ⟨hne, hm⟩
      · exact hn hm
      · exact hne (h.disjoint j i m hm (hsub m List.mem_cons_self))
    · simp only [InUse, heq, or_false]
      refine and_congr_right fun _ => forall_congr' fun j => not_congr ?_
      by_cases hj : j = i
      · subst hj
        simp [hl, heq]
      · simp [hj]

theorem give_sound (h : Sound max f free) (i : κ) {n : α} (huse : InUse f free n) :
    ∃ free', Sound max (f.give max i n) free' ∧
      ∀ m, InUse (f.give max i n) free' m ↔ InUse f free m ∧ m ≠ n := by
  obtain ⟨halloc, hout⟩ := huse
  rw [give]
  split_ifs with hlt
  · rw [h.count] at hlt
    have hlinked : ∀ j, Linked (Function.update f.link n (f.head i)) (f.head j) (free j) :=
      fun j => (h.linked j).write (hout j)
    have hcons : Linked (Function.update f.link n (f.head i)) (some n) (n :: free i) :=
      ⟨rfl, by rw [Function.update_self]; exact hlinked i⟩
    have hsound := h.setList i (fun j _ => hlinked j) hcons hlt
      (List.nodup_cons.mpr ⟨hout i, h.nodup i⟩)
      (fun j hj m hm hmem => by
        rcases List.mem_cons.mp hm with rfl | hm
        · exact hout j hmem
        · exact hj (h.disjoint j i m hmem hm))
      (fun m hm => by
        rcases List.mem_cons.mp hm with rfl | hm
        · exact halloc
        · exact h.allocated i m hm)
    rw [List.length_cons, ← h.count] at hsound
    refine ⟨Function.update free i (n :: free i), hsound, fun m => ?_⟩
    by_cases heq : m = n
    · subst heq
      simp only [InUse, ne_eq, not_true_eq_false, and_false, iff_false]
      rintro ⟨-, hnot⟩
      exact hnot i (by simp)
    · simp only [InUse, ne_eq, heq, not_false_eq_true, and_true]
      refine and_congr_right fun _ => forall_congr' fun j => not_congr ?_
      by_cases hj : j = i
      · subst hj
        simp [heq]
      · simp [hj]
  · refine ⟨free, h.setAllocated hout false, fun m => ?_⟩
    by_cases heq : m = n
    · subst heq
      simp [InUse]
    · simp [InUse, heq]

end FreeLists
