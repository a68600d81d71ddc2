import RocketRpc.Timer.TimingWheel

/-
  The wheel as a queue of entries with deadlines.

  `entries` lists the events the wheel holds, each with the clock time from which a call of
  `fireExpired` takes it out: for a slot the end of the tick in which it has its turn, for the
  overflow map its key. An insertion adds one entry (`schedule_entries`), a cancellation takes
  out at most one entry of its event (`eraseOverflow_entries`), and `fireExpired` takes out
  the entries that are due and no others (`collect_entries`), whichever branch it takes.
-/

namespace RocketRpc.Timer

open Deadlines

/-- An event is live as long as it is not cancelled. -/
def live (events : Events) (ev : EventId) : Bool := !(events ev).isCancelled

namespace TimingWheel

def entries (w : TimingWheel) : List (EventId × Int) :=
  ring kTickMs w.lastTickMs w.slots ++ w.overflow.entries.map Prod.swap

@[simp] theorem entries_new : new.entries = [] := by
  rw [entries, slots_new, ring_replicate_nil]
  rfl

/-- Setting the wheel's clock puts off the deadlines of the slots. -/
theorem started_entries (w : TimingWheel) (now : Int) {p : EventId × Int}
    (hp : p ∈ (w.started now).entries) (hnow : w.lastTickMs = 0 → 0 ≤ now ∨ w.entries = []) :
    ∃ D ≤ p.2, (p.1, D) ∈ w.entries := by
  unfold started at hp
  split at hp
  · rename_i hzero
    have hring := ring_shift kTickMs 0 now w.slots
    rw [Int.zero_add] at hring
    unfold entries at hp hnow ⊢
    rw [show slots { w with lastTickMs := now } = w.slots from rfl, hring] at hp
    rw [hzero] at hnow ⊢
    rcases List.mem_append.mp hp with hp | hp
    · obtain ⟨q, hq, rfl⟩ := List.mem_map.mp hp
      rcases hnow rfl with h | h
      · exact ⟨q.2, by simp only; omega, List.mem_append_left _ hq⟩
      · rw [List.append_eq_nil_iff] at h
        rw [h.1] at hq
        simp at hq
    · exact ⟨p.2, Int.le_refl _, List.mem_append_right _ hp⟩
  · exact ⟨p.2, Int.le_refl _, hp⟩

theorem started_entries_of_nil (w : TimingWheel) (now : Int)
    (h : w.lastTickMs = 0 → w.entries = []) : (w.started now).entries = w.entries := by
  by_cases hzero : w.lastTickMs = 0
  · rw [h hzero]
    refine List.eq_nil_iff_forall_not_mem.mpr ?_
    intro p hp
    obtain ⟨D, -, hD⟩ := started_entries w now hp fun _ => Or.inr (h hzero)
    rw [h hzero] at hD
    simp at hD
  · rw [started, if_neg hzero]

/-- The deadline of an event scheduled at clock time `now`. -/
def turn (w : TimingWheel) (arriveTime now : Int) : Int :=
  if arriveTime - now ≤ 0 then w.lastTickMs + kTickMs
  else if arriveTime - now ≤ kL1Range then
    w.lastTickMs + kTickMs * ((arriveTime - now - 1) / kTickMs + 1)
  else arriveTime

/-- An event put into a slot is due when the slot has had its turn. -/
theorem put_entries (w : TimingWheel) (event : EventId) {k : Nat} (hk : k < kSlotsPerLevel) :
    (w.put (slotAt w.l1Cursor k) event).entries.Perm
      ((event, w.lastTickMs + kTickMs * (k + 1)) :: w.entries) := by
  unfold entries
  rw [slots_put w event hk]
  exact (ring_modify_perm kTickMs w.lastTickMs w.slots (by simpa using hk) event).append_right _

theorem schedule_entries (w : TimingWheel) (event : EventId) (arriveTime now : Int) :
    (w.schedule event arriveTime now).entries.Perm
      ((event, w.turn arriveTime now) :: w.entries) := by
  have htick : kTickMs = 10 := rfl
  have hrange : kL1Range = 2560 := rfl
  have hslots : kSlotsPerLevel = 256 := rfl
  unfold schedule turn
  by_cases hnow : arriveTime - now ≤ 0
  · have hput := put_entries w event (k := 0) (by decide)
    rw [if_pos hnow, if_pos hnow]
    simpa [htick, hrange] using hput
  rw [if_neg hnow, if_neg hnow]
  by_cases hslot : arriveTime - now ≤ kL1Range
  · have hquot : (arriveTime - now - 1) / kTickMs = (arriveTime - now - 1) / 10 := rfl
    have hput := put_entries w event (k := ((arriveTime - now - 1) / kTickMs).toNat) (by omega)
    rw [Int.toNat_of_nonneg (by omega)] at hput
    simpa only [if_pos hslot] using hput
  · simp only [if_neg hslot, entries]
    have hins := (insertEntry_perm arriveTime event w.overflow.entries).map Prod.swap
    exact (hins.append_left _).trans List.perm_middle

theorem schedule_lastTickMs (w : TimingWheel) (event : EventId) (arriveTime now : Int) :
    (w.schedule event arriveTime now).lastTickMs = w.lastTickMs := by
  unfold schedule
  by_cases hnow : arriveTime - now ≤ 0
  · simp only [if_pos hnow]
    split <;> rfl
  · simp only [if_neg hnow]
    split <;> rfl

theorem eraseOverflow_entries (w : TimingWheel) (event : EventId) (arriveTime : Int) :
    (w.eraseOverflow event arriveTime).entries.Sublist w.entries ∧
      ∀ ev D, ev ≠ event → ((ev, D) ∈ (w.eraseOverflow event arriveTime).entries ↔
        (ev, D) ∈ w.entries) := by
  constructor
  · exact (List.eraseP_sublist.map Prod.swap).append_left _
  · intro ev D hne
    unfold entries
    rw [List.mem_append, List.mem_append]
    refine or_congr Iff.rfl ?_
    simp only [List.mem_map, Prod.exists]
    constructor
    · rintro ⟨k, x, hmem, heq⟩
      exact ⟨k, x, List.mem_of_mem_eraseP hmem, heq⟩
    · rintro ⟨k, x, hmem, heq⟩
      obtain ⟨rfl, rfl⟩ : x = ev ∧ k = D := by simpa using heq
      refine ⟨k, x, ?_, rfl⟩
      refine (List.mem_eraseP_of_neg ?_).mpr hmem
      simp [hne]

/-! ## What `fireExpired` takes out -/

theorem collectTicks_spec (events : Events) (n : Nat) (w : TimingWheel) (out : List EventId)
    (hn : n ≤ kSlotsPerLevel) :
    (collectTicks events n w out).1.slots = w.slots.drop n ++ List.replicate n [] ∧
      (collectTicks events n w out).2 = out ++ (w.slots.take n).flatten.filter (live events) ∧
      (collectTicks events n w out).1.lastTickMs = w.lastTickMs ∧
      (collectTicks events n w out).1.overflow = w.overflow := by
  induction n generalizing w out with
  | zero => simp [collectTicks]
  | succ n ih =>
    obtain ⟨h1, h2, h3, h4⟩ := ih (collectExpired events w out).1.tickL1
      (collectExpired events w out).2 (by omega)
    have hlen : n ≤ (w.slots.drop 1).length := by
      rw [List.length_drop, length_slots]
      omega
    have hslots : (collectExpired events w out).1.tickL1.slots = w.slots.drop 1 ++ [[]] := by
      rw [slots_tickL1, slots_collectExpired_drop]
    rw [hslots] at h1 h2
    refine ⟨?_, ?_, h3, h4⟩
    · rw [collectTicks, h1, List.drop_append_of_le_length hlen, List.drop_drop, List.append_assoc,
        Nat.add_comm 1 n]
      rfl
    · rw [collectTicks, h2, List.take_append_of_le_length hlen]
      conv_rhs => rw [slots_eq_cons]
      rw [List.take_succ_cons, List.flatten_cons, List.filter_append, ← List.append_assoc]
      rfl

/-- The number of ticks the loop takes, and the clock of the wheel after it. -/
structure Ticks (lastTick now : Int) (n : Nat) (last : Int) : Prop where
  count : n = min (max (now - lastTick) 0 / kTickMs).toNat kSlotsPerLevel
  past : 0 < n → lastTick + kTickMs * n ≤ now
  future : n < kSlotsPerLevel → now < lastTick + kTickMs * n + kTickMs
  clock : n < kSlotsPerLevel → last = lastTick + kTickMs * n
  last_le : last ≤ now ∨ last = lastTick
  mono : lastTick ≤ last

theorem Ticks.le {lastTick now last : Int} {n : Nat} (h : Ticks lastTick now n last) :
    n ≤ kSlotsPerLevel := by
  rw [h.count]
  exact Nat.min_le_right _ _

theorem ticks_spec {lastTick now : Int} :
    let passed := max (now - lastTick) 0 / kTickMs
    let r : Nat × Int := if passed > kSlotsPerLevel then (kSlotsPerLevel, now)
      else (passed.toNat, lastTick + passed * kTickMs)
    Ticks lastTick now r.1 r.2 := by
  have htick : kTickMs = 10 := rfl
  have hslots : kSlotsPerLevel = 256 := rfl
  intro passed r
  have hpassed : passed = max (now - lastTick) 0 / 10 := rfl
  by_cases hbig : passed > kSlotsPerLevel
  · simp only [r, if_pos hbig]
    constructor <;> simp -failIfUnchanged only [htick] <;> omega
  · simp only [r, if_neg hbig]
    constructor <;> simp -failIfUnchanged only [htick] <;> omega

/-- Before the wheel's clock was set, `fireExpired` sets it and takes nothing out. -/
theorem collect_unset (events : Events) {w : TimingWheel} (now : Int) (h : w.lastTickMs = 0) :
    collect events w now = (w.started now, []) := if_pos h

/-- `fireExpired(now)` takes out what is in the next `n` slots, and what is late of the others. -/
theorem collect_ticks (events : Events) {w : TimingWheel} (now : Int) (h : w.lastTickMs ≠ 0) :
    ∃ n, Ticks w.lastTickMs now n (collect events w now).1.lastTickMs ∧
      (collect events w now).1.slots = w.slots.drop n ++ List.replicate n [] ∧
      (collect events w now).1.overflow = w.overflow.rest now ∧
      (collect events w now).2 = (w.slots.take n).flatten.filter (live events) ++
        ((w.overflow.due now).map Prod.snd).filter (live events) := by
  unfold collect
  rw [if_neg h]
  have hticks := @ticks_spec w.lastTickMs now
  simp only at hticks ⊢
  generalize (if max (now - w.lastTickMs) 0 / kTickMs > (kSlotsPerLevel : Int) then
    ((kSlotsPerLevel, now) : Nat × Int) else ((max (now - w.lastTickMs) 0 / kTickMs).toNat,
      w.lastTickMs + max (now - w.lastTickMs) 0 / kTickMs * kTickMs)) = r at hticks ⊢
  obtain ⟨hslots, hout, hlast, hover⟩ :=
    collectTicks_spec events r.1 { w with lastTickMs := r.2 } [] hticks.le
  refine ⟨r.1, ?_, hslots, ?_, ?_⟩
  · rw [hlast]
    exact hticks
  · rw [hover]
  · rw [hout, hover, List.nil_append]
    rfl

/-- `fireExpired(now)` takes out the entries that are due at `now`, and leaves the others. -/
theorem collect_entries (events : Events) {w : TimingWheel} (now : Int) (h : w.lastTickMs ≠ 0) :
    (collect events w now).1.entries = w.entries.filter (fun p => decide (now < p.2)) ∧
      (collect events w now).2 =
        ((w.entries.filter fun p => decide (p.2 ≤ now)).map Prod.fst).filter (live events) := by
  obtain ⟨n, hticks, hslots, hover, hout⟩ := collect_ticks events now h
  have hlen : w.slots.length = kSlotsPerLevel := length_slots w
  have htick : 0 < kTickMs := by decide
  obtain ⟨hdue, hleft⟩ := ring_filter htick (by rw [hlen]; exact hticks.le) hticks.past
    (by rw [hlen]; exact hticks.future)
  have hring : ring kTickMs (collect events w now).1.lastTickMs
      (w.slots.drop n ++ List.replicate n []) =
      ring kTickMs (w.lastTickMs + kTickMs * n) (w.slots.drop n ++ List.replicate n []) := by
    rcases Nat.lt_or_eq_of_le hticks.le with hlt | heq
    · rw [hticks.clock hlt]
    · rw [heq, ← hlen, List.drop_length, List.nil_append, ring_replicate_nil, ring_replicate_nil]
  constructor
  · rw [entries, entries, List.filter_append, hleft, List.filter_map, ← hring, hslots, hover,
      Multimap.rest_eq_filter]
    rfl
  · have hlate : ((w.overflow.entries.map Prod.swap).filter fun p => decide (p.2 ≤ now)).map
        Prod.fst = (w.overflow.due now).map Prod.snd := by
      rw [List.filter_map, List.map_map, Multimap.due_eq_filter]
      rfl
    rw [hout, entries, List.filter_append, List.map_append, List.filter_append, hdue, ring_map_fst,
      hlate]

theorem collect_lastTickMs (events : Events) (w : TimingWheel) (now : Int) :
    ((collect events w now).1.lastTickMs ≤ now ∨
        (collect events w now).1.lastTickMs = w.lastTickMs) ∧
      (w.lastTickMs ≠ 0 → w.lastTickMs ≤ (collect events w now).1.lastTickMs) := by
  by_cases h : w.lastTickMs = 0
  · rw [collect_unset events now h, started, if_pos h]
    exact ⟨Or.inl (Int.le_refl _), fun hne => absurd h hne⟩
  · obtain ⟨n, hticks, -, -, -⟩ := collect_ticks events now h
    exact ⟨hticks.last_le, fun _ => hticks.mono⟩

end TimingWheel

end RocketRpc.Timer
