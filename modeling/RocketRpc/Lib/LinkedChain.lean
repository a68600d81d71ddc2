import Mathlib.Data.List.Nodup
import Mathlib.Logic.Function.Basic
import Mathlib.Tactic.Common

/-
  Singly linked chains whose links may lag behind their order.

  `next` holds the link of every node. Several parties append to one chain: a party first
  makes its node the last one and stores the link that leads to it later; in between the
  link is `pending`. `Chain next pending first last l` says that the nodes of the chain are
  `l`, and that each link is either stored or pending. The operations on such a chain are
  `Chain.append`, `Chain.link`, `Chain.advance` and `Chain.write`, a store to a node that
  is not part of it.
-/

namespace LinkedChain

universe u

variable {α : Type u}

/-- `b` comes right after `a` in the list. -/
def Follows : List α → α → α → Prop
  | [], _, _ => False
  | x :: l, a, b => (x = a ∧ l.head? = some b) ∨ Follows l a b

@[simp] theorem not_follows_nil (a b : α) : ¬ Follows [] a b := id

@[simp] theorem follows_cons (x a b : α) (l : List α) :
    Follows (x :: l) a b ↔ (x = a ∧ l.head? = some b) ∨ Follows l a b := Iff.rfl

theorem Follows.mem {l : List α} {a b : α} (h : Follows l a b) : a ∈ l ∧ b ∈ l := by
  induction l with
  | nil => exact h.elim
  | cons x l ih =>
    rcases h with ⟨rfl, hb⟩ | h
    · exact ⟨List.mem_cons_self, List.mem_cons_of_mem _ (List.mem_of_head? hb)⟩
    · exact ⟨List.mem_cons_of_mem _ (ih h).1, List.mem_cons_of_mem _ (ih h).2⟩

theorem follows_append_singleton (l : List α) (a b y : α) :
    Follows (l ++ [y]) a b ↔ Follows l a b ∨ (l.getLast? = some a ∧ y = b) := by
  induction l with
  | nil => simp
  | cons x l ih =>
    rw [List.cons_append, follows_cons, ih]
    cases l with
    | nil => simp
    | cons z l => simp [or_assoc]

theorem Follows.right_unique {l : List α} (hl : l.Nodup) {a b c : α} (hb : Follows l a b)
    (hc : Follows l a c) : b = c := by
  induction l with
  | nil => exact hb.elim
  | cons x l ih =>
    have hx := (List.nodup_cons.mp hl).1
    rcases hb with ⟨rfl, hb⟩ | hb <;> rcases hc with ⟨hxa, hc⟩ | hc
    · exact Option.some.inj (hb.symm.trans hc)
    · exact absurd hc.mem.1 hx
    · exact absurd (hxa ▸ hb.mem.1) hx
    · exact ih (List.nodup_cons.mp hl).2 hb hc

/-- A node with a successor is not the last one. -/
theorem Follows.ne_last {l : List α} (hl : l.Nodup) {a b c : α} (h : Follows l a b)
    (hc : l.getLast? = some c) : a ≠ c := by
  induction l with
  | nil => exact h.elim
  | cons x l ih =>
    have hx := (List.nodup_cons.mp hl).1
    cases l with
    | nil => simp at h
    | cons z l =>
      rw [List.getLast?_cons_cons] at hc
      rcases h with ⟨rfl, -⟩ | h
      · exact fun hac => hx (hac ▸ List.mem_of_getLast? hc)
      · exact ih (List.nodup_cons.mp hl).2 h hc

/-- A node with a predecessor is not the first one. -/
theorem Follows.ne_first {l : List α} (hl : l.Nodup) {a b c : α} (h : Follows l a b)
    (hc : l.head? = some c) : b ≠ c := by
  cases l with
  | nil => exact h.elim
  | cons x l =>
    obtain rfl : x = c := by simpa using hc
    have hx := (List.nodup_cons.mp hl).1
    rintro rfl
    rcases h with ⟨-, hb⟩ | h
    · exact hx (List.mem_of_head? hb)
    · exact hx h.mem.2

/-- The nodes `l` of a chain from `first` to `last`: between two neighbours the link is
    stored or pending, and a pending link is one that is still missing. -/
structure Chain (next : α → Option α) (pending : α → α → Prop) (first last : α)
    (l : List α) : Prop where
  head_eq : l.head? = some first
  last_eq : l.getLast? = some last
  nodup : l.Nodup
  linked : ∀ a b, Follows l a b → next a = some b ∨ pending a b
  missing : ∀ a b, pending a b → Follows l a b ∧ next a = none
  stop : next last = none

namespace Chain

variable {next : α → Option α} {pending pending' : α → α → Prop} {first last : α} {l : List α}

theorem singleton {a : α} (h : next a = none) : Chain next (fun _ _ => False) a a [a] where
  head_eq := rfl
  last_eq := rfl
  nodup := List.nodup_singleton a
  linked := by simp
  missing _ _ h := h.elim
  stop := h

theorem first_mem (h : Chain next pending first last l) : first ∈ l :=
  List.mem_of_head? h.head_eq

theorem last_mem (h : Chain next pending first last l) : last ∈ l :=
  List.mem_of_getLast? h.last_eq

theorem congr_pending (h : Chain next pending first last l)
    (hp : ∀ a b, pending' a b ↔ pending a b) : Chain next pending' first last l where
  head_eq := h.head_eq
  last_eq := h.last_eq
  nodup := h.nodup
  linked a b hf := (h.linked a b hf).imp_right (hp a b).mpr
  missing a b hab := h.missing a b ((hp a b).mp hab)
  stop := h.stop

/-- A chain whose first node is also its last one has no other. -/
theorem eq_singleton (h : Chain next pending first first l) : l = [first] := by
  have hh := h.head_eq
  have hl := h.last_eq
  have hn := h.nodup
  cases l with
  | nil => simp at hh
  | cons x l =>
    obtain rfl : x = first := by simpa using hh
    cases l with
    | nil => rfl
    | cons z l =>
      rw [List.getLast?_cons_cons] at hl
      exact absurd (List.mem_of_getLast? hl) (List.nodup_cons.mp hn).1

/-- A stored link leads to the successor. -/
theorem follows_of_next (h : Chain next pending first last l) {a b : α} (ha : a ∈ l)
    (hb : next a = some b) : Follows l a b := by
  have key : ∀ l' : List α, a ∈ l' → l'.getLast? = some a ∨ ∃ c, Follows l' a c := by
    intro l' ha
    induction l' with
    | nil => simp at ha
    | cons x l' ih =>
      cases l' with
      | nil => exact Or.inl (by rw [List.mem_singleton.mp ha]; rfl)
      | cons z l' =>
        rcases List.mem_cons.mp ha with rfl | ha
        · exact Or.inr ⟨z, Or.inl ⟨rfl, rfl⟩⟩
        · rw [List.getLast?_cons_cons]
          exact (ih ha).imp_right fun ⟨c, hc⟩ => ⟨c, Or.inr hc⟩
  rcases key l ha with hlast | ⟨c, hc⟩
  · obtain rfl : last = a := Option.some.inj (h.last_eq.symm.trans hlast)
    exact absurd (h.stop.symm.trans hb) (by simp)
  · rcases h.linked a c hc with hn | hp
    · exact Option.some.inj (hn.symm.trans hb) ▸ hc
    · exact absurd ((h.missing a c hp).2.symm.trans hb) (by simp)

/-- The chain splits at its first node. -/
theorem eq_cons (h : Chain next pending first last l) (hne : first ≠ last) :
    ∃ b l', l = first :: b :: l' := by
  have hh := h.head_eq
  have hl := h.last_eq
  cases l with
  | nil => simp at hh
  | cons x l =>
    obtain rfl : x = first := by simpa using hh
    cases l with
    | nil => exact absurd (by simpa using hl) hne
    | cons b l' => exact ⟨b, l', rfl⟩

/-- With no link pending at the first node, its link is stored unless it is the last. -/
theorem next_first (h : Chain next pending first last l) (hp : ∀ b, ¬ pending first b)
    (hnext : next first = none) : first = last := by
  by_contra hne
  obtain ⟨b, l', rfl⟩ := h.eq_cons hne
  have hf : Follows (first :: b :: l') first b := Or.inl ⟨rfl, rfl⟩
  rcases h.linked first b hf with hn | hb
  · exact absurd (hnext.symm.trans hn) (by simp)
  · exact hp b hb

/-- A party makes `n` the last node; the link to it is then pending. -/
theorem append (h : Chain next pending first last l) {n : α} (hn : n ∉ l)
    (hnext : next n = none)
    (hp : ∀ a b, pending' a b ↔ pending a b ∨ (a = last ∧ b = n)) :
    Chain next pending' first n (l ++ [n]) where
  head_eq := by
    rw [List.head?_append, h.head_eq, Option.some_or]
  last_eq := List.getLast?_concat
  nodup := List.nodup_append.mpr
    ⟨h.nodup, List.nodup_singleton n, fun a ha b hb => by
      rw [List.mem_singleton.mp hb]
      exact fun e => hn (e ▸ ha)⟩
  linked a b hf := by
    rw [hp]
    rcases (follows_append_singleton l a b n).mp hf with hf | ⟨ha, rfl⟩
    · exact (h.linked a b hf).imp_right Or.inl
    · exact Or.inr (Or.inr ⟨Option.some.inj (ha.symm.trans h.last_eq), rfl⟩)
  missing a b hab := by
    rw [follows_append_singleton]
    rcases (hp a b).mp hab with hab | ⟨rfl, rfl⟩
    · exact ⟨Or.inl (h.missing a b hab).1, (h.missing a b hab).2⟩
    · exact ⟨Or.inr ⟨h.last_eq, rfl⟩, h.stop⟩
  stop := hnext

/-- The owner of the first node follows its stored link and drops the node. -/
theorem advance (h : Chain next pending first last l) {b : α} (hb : next first = some b) :
    ∃ l', l = first :: l' ∧ Chain next pending b last l' := by
  have hf := h.follows_of_next h.first_mem hb
  obtain ⟨c, l', rfl⟩ := h.eq_cons (hf.ne_last h.nodup h.last_eq)
  obtain ⟨hx, hn⟩ := List.nodup_cons.mp h.nodup
  have hc : Follows (first :: c :: l') first c := Or.inl ⟨rfl, rfl⟩
  obtain rfl : c = b := hc.right_unique h.nodup hf
  refine ⟨c :: l', rfl, ⟨rfl, ?_, hn, fun a d had => h.linked a d (Or.inr had), ?_, h.stop⟩⟩
  · rw [← h.last_eq, List.getLast?_cons_cons]
  · intro a d had
    obtain ⟨hfad, hna⟩ := h.missing a d had
    refine ⟨?_, hna⟩
    rcases hfad with ⟨rfl, -⟩ | hfad
    · exact absurd (hna.symm.trans hb) (by simp)
    · exact hfad

variable [DecidableEq α]

/-- A store to one node is not seen at the others. -/
theorem update_of_mem {n : α} (hn : n ∉ l) (v : Option α) {a : α} (ha : a ∈ l) :
    Function.update next n v a = next a := by
  rw [Function.update_of_ne]
  rintro rfl
  exact hn ha

/-- A store to a node outside the chain leaves the chain as it is. -/
theorem write (h : Chain next pending first last l) {n : α} (hn : n ∉ l) (v : Option α) :
    Chain (Function.update next n v) pending first last l where
  head_eq := h.head_eq
  last_eq := h.last_eq
  nodup := h.nodup
  linked a b hf := by
    rw [update_of_mem hn v hf.mem.1]
    exact h.linked a b hf
  missing a b hab := by
    rw [update_of_mem hn v (h.missing a b hab).1.mem.1]
    exact h.missing a b hab
  stop := by
    rw [update_of_mem hn v h.last_mem]
    exact h.stop

/-- A party stores the link it owes. -/
theorem link (h : Chain next pending first last l) {a b : α} (hab : pending a b)
    (hp : ∀ c d, pending' c d ↔ pending c d ∧ c ≠ a) :
    Chain (Function.update next a (some b)) pending' first last l where
  head_eq := h.head_eq
  last_eq := h.last_eq
  nodup := h.nodup
  linked c d hf := by
    by_cases hca : c = a
    · subst hca
      rw [Function.update_self, hf.right_unique h.nodup (h.missing c b hab).1]
      exact Or.inl rfl
    · rw [Function.update_of_ne hca, hp]
      exact (h.linked c d hf).imp_right fun hcd => ⟨hcd, hca⟩
  missing c d hcd := by
    obtain ⟨hcd, hca⟩ := (hp c d).mp hcd
    rw [Function.update_of_ne hca]
    exact h.missing c d hcd
  stop := by
    rw [Function.update_of_ne ((h.missing a b hab).1.ne_last h.nodup h.last_eq).symm]
    exact h.stop

end Chain

end LinkedChain
