import RocketRpc.Lib.Deadlines

/-
  An agenda: slots that have their turn one after another, and later entries in order of a key.

  What is due after `n` turns comes from the slots first and then from the later entries. `map`
  replaces the items and commutes with every operation, so an agenda of ids is followed by one
  of records about them. `pairwise_place` and `pairwise_due` say what an insertion and a call
  that takes items out need to keep them in an order.
-/

namespace Deadlines

universe u v

variable {α : Type u} {β : Type v}

structure Agenda (α : Type u) where
  slots : List (List α)
  later : Multimap α

theorem Multimap.eq_of_entries {m m' : Multimap α} (h : m.entries = m'.entries) : m = m' := by
  cases m
  cases m'
  simpa using h

/-- The same keys with other items. -/
def Multimap.map (f : α → β) (m : Multimap α) : Multimap β :=
  ⟨m.entries.map fun p => (p.1, f p.2), List.pairwise_map.mpr m.sorted⟩

theorem insertEntry_map (f : α → β) (k : Int) (x : α) (m : List (Int × α)) :
    insertEntry k (f x) (m.map fun p => (p.1, f p.2)) =
      (insertEntry k x m).map fun p => (p.1, f p.2) := by
  induction m with
  | nil => rfl
  | cons p m ih =>
    rw [List.map_cons, insertEntry, insertEntry, ih]
    split <;> rfl

namespace Agenda

/-- An item goes into slot `k`, or among the later entries. -/
def place (q : Agenda α) (k : Option Nat) (key : Int) (x : α) : Agenda α :=
  match k with
  | some k => { q with slots := q.slots.modify k (· ++ [x]) }
  | none => { q with later := q.later.insert key x }

/-- The first later entry with the key and an item that meets `p` is erased. -/
def eraseLater (q : Agenda α) (key : Int) (p : α → Bool) : Agenda α :=
  { q with later := ⟨q.later.entries.eraseP fun e => decide (e.1 = key) && p e.2,
      q.later.sorted.sublist List.eraseP_sublist⟩ }

/-- What `n` turns and the time `now` take out. -/
def due (q : Agenda α) (n : Nat) (now : Int) : List α :=
  (q.slots.take n).flatten ++ (q.later.due now).map Prod.snd

/-- What they leave; the slots that had their turn come again, empty. -/
def rest (q : Agenda α) (n : Nat) (now : Int) : Agenda α where
  slots := q.slots.drop n ++ List.replicate n []
  later := q.later.rest now

def map (f : α → β) (q : Agenda α) : Agenda β where
  slots := q.slots.map (List.map f)
  later := q.later.map f

variable (f : α → β) (q : Agenda α)

theorem map_place (k : Option Nat) (key : Int) (x : α) :
    (q.place k key x).map f = (q.map f).place k key (f x) := by
  cases k with
  | some k =>
    have hslots : (q.slots.modify k (· ++ [x])).map (List.map f) =
        (q.slots.map (List.map f)).modify k (· ++ [f x]) := by
      apply List.ext_getElem?
      intro i
      simp only [List.getElem?_map, List.getElem?_modify]
      split <;> simp [Function.comp_def]
    exact congrArg (Agenda.mk · _) hslots
  | none =>
    exact congrArg (Agenda.mk _) (Multimap.eq_of_entries (insertEntry_map f key x _).symm)

theorem map_eraseLater (key : Int) (p : β → Bool) :
    (q.eraseLater key fun x => p (f x)).map f = (q.map f).eraseLater key p := by
  refine congrArg (Agenda.mk _) (Multimap.eq_of_entries ?_)
  show List.map _ (List.eraseP _ _) = List.eraseP _ (List.map _ _)
  rw [List.eraseP_map]
  rfl

theorem map_due (n : Nat) (now : Int) : (q.due n now).map f = (q.map f).due n now := by
  simp only [due, map, Multimap.map, Multimap.due, List.map_append, List.map_flatten,
    List.map_take, List.takeWhile_map, List.map_map, Function.comp_def]

theorem map_rest (n : Nat) (now : Int) : (q.rest n now).map f = (q.map f).rest n now := by
  have hslots : (q.slots.drop n ++ List.replicate n []).map (List.map f) =
      (q.slots.map (List.map f)).drop n ++ List.replicate n [] := by simp
  refine congrArg₂ Agenda.mk hslots (Multimap.eq_of_entries ?_)
  show List.map _ (List.dropWhile _ _) = List.dropWhile _ (List.map _ _)
  rw [List.dropWhile_map]
  rfl

/-! ## Order -/

variable {q} {r : α → α → Prop}

theorem flatten_modify {l : List (List α)} {k : Nat} (hk : k < l.length) (x : α) :
    (l.modify k (· ++ [x])).flatten =
      (l.take (k + 1)).flatten ++ x :: (l.drop (k + 1)).flatten := by
  rw [List.modify_eq_take_cons_drop hk, ← List.take_append_getElem hk, List.flatten_append,
    List.flatten_append, List.flatten_cons, List.flatten_singleton, List.append_assoc,
    List.append_assoc]
  rfl

theorem flatten_take_drop (l : List (List α)) (k : Nat) :
    l.flatten = (l.take k).flatten ++ (l.drop k).flatten := by
  rw [← List.flatten_append, List.take_append_drop]

/-- An insertion keeps the slots in order if it fits in between those up to its slot and those
    behind it, and only then. -/
theorem pairwise_place {k : Nat} (hk : k < q.slots.length) (key : Int) (x : α) :
    (q.place (some k) key x).slots.flatten.Pairwise r ↔
      q.slots.flatten.Pairwise r ∧ (∀ y ∈ (q.slots.take (k + 1)).flatten, r y x) ∧
        ∀ y ∈ (q.slots.drop (k + 1)).flatten, r x y := by
  show ((q.slots.modify k (· ++ [x])).flatten).Pairwise r ↔ _
  rw [flatten_modify hk, flatten_take_drop q.slots (k + 1), List.pairwise_append,
    List.pairwise_cons, List.pairwise_append]
  constructor
  · rintro ⟨hfront, ⟨hafter, hback⟩, hcross⟩
    exact ⟨⟨hfront, hback, fun y hy z hz => hcross y hy z (List.mem_cons_of_mem _ hz)⟩,
      fun y hy => hcross y hy x List.mem_cons_self, hafter⟩
  · rintro ⟨⟨hfront, hback, hcross⟩, hbefore, hafter⟩
    refine ⟨hfront, ⟨hafter, hback⟩, fun y hy z hz => ?_⟩
    rcases List.mem_cons.mp hz with rfl | hz
    · exact hbefore y hy
    · exact hcross y hy z hz

/-- The slots that had their turn are in order, and the later entries that are due, and each
    of the first may come before each of the second. -/
theorem pairwise_due {n : Nat} {now : Int} :
    (q.due n now).Pairwise r ↔ (q.slots.take n).flatten.Pairwise r ∧
      (q.later.due now).Pairwise (fun p p' => r p.2 p'.2) ∧
        ∀ y ∈ (q.slots.take n).flatten, ∀ p ∈ q.later.due now, r y p.2 := by
  rw [due, List.pairwise_append, List.pairwise_map]
  refine and_congr_right fun _ => and_congr_right fun _ => ?_
  simp only [List.mem_map, forall_exists_index, and_imp, forall_apply_eq_imp_iff₂]

theorem flatten_take_sublist (l : List (List α)) (n : Nat) :
    (l.take n).flatten.Sublist l.flatten := by
  rw [flatten_take_drop l n]
  exact List.sublist_append_left _ _

theorem flatten_rest_sublist (n : Nat) (now : Int) :
    (q.rest n now).slots.flatten.Sublist q.slots.flatten := by
  rw [rest, List.flatten_append, List.flatten_replicate_nil, List.append_nil,
    flatten_take_drop q.slots n]
  exact List.sublist_append_right _ _

end Agenda

end Deadlines
