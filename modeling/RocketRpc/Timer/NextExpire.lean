import RocketRpc.Timer.WheelEntries

/-
  How long the wheel lets its loop sleep: `msUntilNextExpire`.

  The function looks for the first slot from the cursor on that holds an event, and counts the
  ticks up to it, but from the clock of the wheel it takes no more than what is left of one tick.
  `slot_wakes` and `overflow_wakes` are what this says about one entry: the sleep ends by the
  deadline of an entry, and a slot of a wheel whose clock is a tick or more behind lets it end
  later by as much.
-/

namespace RocketRpc.Timer

open Deadlines

namespace TimingWheel

/-- How far the clock of the wheel is behind. -/
def elapsed (w : TimingWheel) (now : Int) : Int :=
  if w.lastTickMs = 0 then 0 else max 0 (now - w.lastTickMs)

def untilNextTick (w : TimingWheel) (now : Int) : Int :=
  max 1 (kTickMs - min (w.elapsed now) kTickMs)

/-- The first slot from the cursor on that is not empty. -/
def firstSlot (w : TimingWheel) : Option Nat :=
  (List.range kSlotsPerLevel).find? fun i => !(w.l1 (slotAt w.l1Cursor i)).isEmpty

/-- `msUntilNextExpire()` at clock time `now`. -/
def msUntilNextExpire (w : TimingWheel) (now : Int) : Option Int :=
  let next := w.firstSlot.map fun i : Nat => w.untilNextTick now + i * kTickMs
  match w.overflow.entries.head? with
  | none => next
  | some earliest =>
    let overflowWait := max 0 (earliest.1 - now)
    some (match next with
      | some ms => min ms overflowWait
      | none => overflowWait)

/-- An entry of the wheel is in a slot or in the overflow map. -/
theorem mem_entries {w : TimingWheel} {p : EventId × Int} (hp : p ∈ w.entries) :
    (∃ k < kSlotsPerLevel, p.1 ∈ w.l1 (slotAt w.l1Cursor k) ∧
      p.2 = w.lastTickMs + kTickMs * (k + 1)) ∨ (p.2, p.1) ∈ w.overflow.entries := by
  rcases List.mem_append.mp hp with hp | hp
  · obtain ⟨k, hk, hmem, hdeadline⟩ := exists_slot_of_mem_ring hp
    rw [getElem_slots] at hmem
    exact Or.inl ⟨k, by simpa using hk, hmem, hdeadline⟩
  · obtain ⟨q, hq, rfl⟩ := List.mem_map.mp hp
    exact Or.inr hq

theorem untilNextTick_pos (w : TimingWheel) (now : Int) : 0 < w.untilNextTick now :=
  Int.lt_of_lt_of_le Int.zero_lt_one (Int.le_max_left _ _)

/-- The search stops at the first slot that is not empty. -/
theorem firstSlot_le {w : TimingWheel} {k : Nat} {ev : EventId} (hk : k < kSlotsPerLevel)
    (hev : ev ∈ w.l1 (slotAt w.l1Cursor k)) : ∃ i ≤ k, w.firstSlot = some i := by
  have hne : (!(w.l1 (slotAt w.l1Cursor k)).isEmpty) = true := by
    rw [List.isEmpty_eq_false_iff_exists_mem.mpr ⟨ev, hev⟩]
    rfl
  unfold firstSlot
  cases hfind : (List.range kSlotsPerLevel).find? fun i =>
      !(w.l1 (slotAt w.l1Cursor i)).isEmpty with
  | none =>
    have hall := List.find?_eq_none.mp hfind k (List.mem_range.mpr hk)
    exact absurd hne hall
  | some i =>
    obtain ⟨-, -, hbefore⟩ := List.find?_range_eq_some.mp hfind
    refine ⟨i, Nat.not_lt.mp fun hlt => ?_, rfl⟩
    have hempty := hbefore k hlt
    rw [hne] at hempty
    exact absurd hempty (by simp)

theorem msUntilNextExpire_nonneg {w : TimingWheel} {now ms : Int}
    (h : w.msUntilNextExpire now = some ms) : 0 ≤ ms := by
  have hnext : ∀ n, (w.firstSlot.map fun i : Nat => w.untilNextTick now + i * kTickMs) = some n →
      0 ≤ n := by
    intro n hn
    obtain ⟨i, -, rfl⟩ := Option.map_eq_some_iff.mp hn
    have htick : kTickMs = 10 := rfl
    have hpos := w.untilNextTick_pos now
    rw [htick]
    omega
  unfold msUntilNextExpire at h
  split at h
  · exact hnext ms h
  · obtain rfl := Option.some.inj h
    split
    · rename_i n hn
      have := hnext n hn
      omega
    · exact Int.le_max_left _ _

/-- The wait is no longer than the one for a slot that holds an event. -/
theorem msUntilNextExpire_slot {w : TimingWheel} {k : Nat} {ev : EventId} (now : Int)
    (hk : k < kSlotsPerLevel) (hev : ev ∈ w.l1 (slotAt w.l1Cursor k)) :
    ∃ ms, w.msUntilNextExpire now = some ms ∧ ms ≤ w.untilNextTick now + kTickMs * k := by
  obtain ⟨i, hi, hfirst⟩ := firstSlot_le hk hev
  have hle : w.untilNextTick now + i * kTickMs ≤ w.untilNextTick now + kTickMs * k := by
    have htick : kTickMs = 10 := rfl
    rw [htick]
    omega
  unfold msUntilNextExpire
  rw [hfirst]
  split
  · exact ⟨_, rfl, hle⟩
  · exact ⟨_, rfl, Int.le_trans (Int.min_le_left _ _) hle⟩

/-- Nor than the one for an event of the overflow map. -/
theorem msUntilNextExpire_overflow {w : TimingWheel} {K : Int} {ev : EventId} (now : Int)
    (hev : (K, ev) ∈ w.overflow.entries) :
    ∃ ms, w.msUntilNextExpire now = some ms ∧ ms ≤ max 0 (K - now) := by
  have hsorted := w.overflow.sorted
  unfold msUntilNextExpire
  cases hentries : w.overflow.entries with
  | nil =>
    rw [hentries] at hev
    exact absurd hev (by simp)
  | cons earliest rest =>
    have hfirst : earliest.1 ≤ K := by
      rw [hentries] at hev hsorted
      rcases List.mem_cons.mp hev with heq | hmem
      · exact Int.le_of_eq (congrArg Prod.fst heq).symm
      · exact (List.pairwise_cons.mp hsorted).1 _ hmem
    refine ⟨_, rfl, ?_⟩
    split
    · omega
    · omega

/-- A sleep ends by the deadline of a slot, and by as much later as the clock of the wheel is
    behind by more than what is left of a tick. -/
theorem slot_wakes {w : TimingWheel} {k : Nat} {ev : EventId} {now : Int}
    (hpos : 0 < w.lastTickMs) (hnow : w.lastTickMs ≤ now) (hk : k < kSlotsPerLevel)
    (hev : ev ∈ w.l1 (slotAt w.l1Cursor k)) :
    ∃ ms, w.msUntilNextExpire now = some ms ∧
      now + ms ≤ max (w.lastTickMs + kTickMs * (k + 1)) (now + 1 + kTickMs * k) ∧
      (now < w.lastTickMs + kTickMs → now + ms ≤ w.lastTickMs + kTickMs * (k + 1)) := by
  have htick : kTickMs = 10 := rfl
  obtain ⟨ms, hms, hle⟩ := msUntilNextExpire_slot now hk hev
  refine ⟨ms, hms, ?_⟩
  unfold untilNextTick elapsed at hle
  rw [if_neg (by omega)] at hle
  rw [htick] at hle ⊢
  omega

/-- A sleep ends by the arrival of an event of the overflow map. -/
theorem overflow_wakes {w : TimingWheel} {K : Int} {ev : EventId} (now : Int)
    (hev : (K, ev) ∈ w.overflow.entries) :
    ∃ ms, w.msUntilNextExpire now = some ms ∧ now + ms ≤ max now K := by
  obtain ⟨ms, hms, hle⟩ := msUntilNextExpire_overflow now hev
  exact ⟨ms, hms, by omega⟩

end TimingWheel

end RocketRpc.Timer
