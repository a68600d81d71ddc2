import RocketRpc.Timer.Insertions

/-
  The order in which one call of `fireExpired` runs timers.

  The batch has the slots in the order of their turns, and the overflow map behind them in the
  order of its keys. So it is in the order of the arrival times, up to a tick, if the slots are,
  and if no entry of the map should come before a slot (`collect_batch_iff`). An insertion keeps
  the slots in order when it fits between those up to its slot and those behind it
  (`insert_slots_iff`): the slot is counted from the cursor, which may stand anywhere behind the
  clock. `InPlace` is the condition on the steps of a run for both; `misplaced_batch` says what
  comes of an insertion that does not meet it.
-/

namespace RocketRpc.Timer

open Deadlines Machine TimingWheel

/-- The callback of an event that was added before its arrival can still be called. -/
def Insertion.counts (events : Events) (i : Insertion) : Bool :=
  i.future && (events i.event).task && live events i.event

/-- `i` may run before `j`. -/
def MayPrecede (events : Events) (i j : Insertion) : Prop :=
  i.counts events = true → j.counts events = true → i.arriveTime ≤ j.arriveTime + kTickMs

/-- If both arrivals were in the future, the first is no more than a tick behind the second. -/
def InOrder (i j : Insertion) : Prop :=
  i.future = true → j.future = true → i.arriveTime ≤ j.arriveTime + kTickMs

instance (events : Events) : DecidableRel (MayPrecede events) := fun _ _ =>
  inferInstanceAs (Decidable (_ → _ → _))

instance : DecidableRel InOrder := fun _ _ => inferInstanceAs (Decidable (_ → _ → _))

/-- The slot that is chosen has no event behind it that should run before, and none in it or
    before it that should run after. -/
def Insertion.Fits (events : Events) (slots : List (List Insertion)) (i : Insertion) : Prop :=
  ∀ k ∈ i.chosen, (∀ j ∈ (slots.take (k + 1)).flatten, MayPrecede events j i) ∧
    ∀ j ∈ (slots.drop (k + 1)).flatten, MayPrecede events i j

instance (events : Events) (slots : List (List Insertion)) :
    DecidablePred (Insertion.Fits events slots) := fun _ =>
  inferInstanceAs (Decidable (∀ _ ∈ _, _))

/-- The condition on a step: what it inserts fits, and no event of the overflow map that is due
    should run before an event of a slot that has its turn in the same call. -/
def InPlace (x : Recorded) : Label → Prop
  | .fireExpired now => x.world.wheel.lastTickMs ≠ 0 →
      ∀ i ∈ (x.agenda.slots.take (x.world.wheel.turns now)).flatten,
        ∀ p ∈ x.agenda.later.due now, MayPrecede x.world.events i p.2
  | l => ∀ i ∈ l.inserts x.world, i.Fits x.world.events x.agenda.slots

instance (x : Recorded) : DecidablePred (InPlace x)
  | .fireExpired _ => inferInstanceAs (Decidable (_ → ∀ _ ∈ _, ∀ _ ∈ _, _))
  | .addEvent _ _ _ | .cancelEvent _ | .nextExpired | .callbackReturns _ _ _ | .fireEnd =>
    inferInstanceAs (Decidable (∀ _ ∈ _, _))

/-! ## The order in the wheel and in the batch -/

/-- A callback that can be called after a step could be called before it. -/
theorem counts_sameTimer {w w' : World} (h : ∀ ev, SameTimer w w' ev) {i : Insertion}
    (hi : i.counts w'.events = true) : i.counts w.events = true := by
  simp only [Insertion.counts, live, Bool.and_eq_true, Bool.not_eq_true'] at hi ⊢
  obtain ⟨⟨hfuture, htask⟩, hlive⟩ := hi
  refine ⟨⟨hfuture, (h i.event).task ▸ htask⟩, ?_⟩
  by_contra hc
  exact absurd (((h i.event).isCancelled (by simpa using hc)).symm.trans hlive) (by decide)

theorem MayPrecede.sameTimer {w w' : World} (h : ∀ ev, SameTimer w w' ev) {i j : Insertion}
    (hij : MayPrecede w.events i j) : MayPrecede w'.events i j :=
  fun hi hj => hij (counts_sameTimer h hi) (counts_sameTimer h hj)

/-- What is cancelled stands in nobody's way. -/
theorem pairwise_live {events : Events} {l : List Insertion} :
    (l.filter fun i => live events i.event).Pairwise (MayPrecede events) ↔
      l.Pairwise (MayPrecede events) := by
  rw [List.pairwise_filter]
  refine ⟨fun h => h.imp fun hij hi hj => ?_, fun h => h.imp fun hij _ _ => hij⟩
  simp only [Insertion.counts, Bool.and_eq_true] at hi hj
  exact hij hi.2 hj.2 (by simp [Insertion.counts, hi]) (by simp [Insertion.counts, hj])

/-- The keys of the overflow map are the arrival times of its events. -/
def Keyed (m : Multimap Insertion) : Prop := ∀ p ∈ m.entries, p.1 = p.2.arriveTime

theorem Keyed.due_pairwise {m : Multimap Insertion} (h : Keyed m) (events : Events) (now : Int) :
    (m.due now).Pairwise fun p q => MayPrecede events p.2 q.2 := by
  have hsub : (m.due now).Sublist m.entries := List.takeWhile_sublist _
  refine (m.sorted.sublist hsub).imp_of_mem fun hp hq hle _ _ => ?_
  rw [← h _ (hsub.subset hp), ← h _ (hsub.subset hq)]
  exact Int.le_trans hle (Int.le_add_of_nonneg_right (by decide))

/-- The batch of a call is in order if the slots that have their turn are, and each of their
    events may run before each of the overflow map, and only then. -/
theorem collect_batch_iff {x : Recorded} (now : Int) (hset : x.world.wheel.lastTickMs ≠ 0)
    (hkeyed : Keyed x.agenda.later) :
    (x.collect now).batch.Pairwise (MayPrecede x.world.events) ↔
      (x.agenda.slots.take (x.world.wheel.turns now)).flatten.Pairwise
          (MayPrecede x.world.events) ∧
        InPlace x (.fireExpired now) := by
  have hdue := hkeyed.due_pairwise x.world.events now
  rw [Recorded.collect, if_neg hset]
  show ((x.agenda.due _ now).filter _).Pairwise _ ↔ _
  rw [pairwise_live, Agenda.pairwise_due]
  exact ⟨fun h => ⟨h.1, fun _ => h.2.2⟩, fun h => ⟨h.1, hdue, h.2 hset⟩⟩

/-- An insertion into a slot keeps the slots in order if it fits, and only then. -/
theorem insert_slots_iff {x : Recorded} {i : Insertion} {k : Nat} (hk : i.chosen = some k)
    (hlen : x.agenda.slots.length = kSlotsPerLevel) :
    (x.insert (some i)).agenda.slots.flatten.Pairwise (MayPrecede x.world.events) ↔
      x.agenda.slots.flatten.Pairwise (MayPrecede x.world.events) ∧
        i.Fits x.world.events x.agenda.slots := by
  have hlt : k < x.agenda.slots.length := hlen ▸ chosen_lt hk
  show (x.agenda.place i.chosen i.arriveTime i).slots.flatten.Pairwise _ ↔ _
  rw [hk, Agenda.pairwise_place hlt]
  simp only [Insertion.Fits, hk, Option.mem_def, Option.some.injEq, forall_eq']

/-- Slots that are not in order make a batch that is not, in a call that is late enough for all
    of them. -/
theorem misplaced_batch {x : Recorded} {now : Int} (hset : x.world.wheel.lastTickMs ≠ 0)
    (hlen : x.agenda.slots.length = kSlotsPerLevel) (hkeyed : Keyed x.agenda.later)
    (hlate : x.world.wheel.lastTickMs + kL1Range ≤ now)
    (hnot : ¬ x.agenda.slots.flatten.Pairwise (MayPrecede x.world.events)) :
    ¬ (x.collect now).batch.Pairwise (MayPrecede x.world.events) := by
  have hrange : kL1Range = 2560 := rfl
  have htick : kTickMs = 10 := rfl
  have hslots : kSlotsPerLevel = 256 := rfl
  have hturns : x.world.wheel.turns now = kSlotsPerLevel := by
    rw [turns, htick]
    omega
  rw [collect_batch_iff now hset hkeyed, hturns, ← hlen, List.take_length]
  exact fun h => hnot h.1

/-- The slots and the batch are in order, what was called comes before what is left of the
    batch, and was called in order. -/
structure Ordered (x : Recorded) : Prop where
  slots : x.agenda.slots.flatten.Pairwise (MayPrecede x.world.events)
  keyed : Keyed x.agenda.later
  batch : x.batch.Pairwise (MayPrecede x.world.events)
  fired : x.fired.Pairwise InOrder
  rest : ∀ i ∈ x.fired, i.future = true → ∀ j ∈ x.batch, j.counts x.world.events = true →
    i.arriveTime ≤ j.arriveTime + kTickMs

theorem ordered_init (events : Events) (clock : Int) : Ordered (Recorded.init events clock) where
  slots := by simp [Recorded.init]
  keyed := fun p hp => absurd hp (by simp [Recorded.init, Multimap.empty])
  batch := List.Pairwise.nil
  fired := List.Pairwise.nil
  rest := fun i hi => absurd hi (by simp [Recorded.init])

/-- The step to the next world changes no record. -/
theorem Ordered.sameTimer {x : Recorded} {w : World} (h : Ordered x)
    (hsame : ∀ ev, SameTimer x.world w ev) : Ordered { x with world := w } where
  slots := h.slots.imp fun hij => hij.sameTimer hsame
  keyed := h.keyed
  batch := h.batch.imp fun hij => hij.sameTimer hsame
  fired := h.fired
  rest i hi hfuture j hj hcounts := h.rest i hi hfuture j hj (counts_sameTimer hsame hcounts)

theorem Ordered.insert {x : Recorded} (h : Ordered x)
    (hlen : x.agenda.slots.length = kSlotsPerLevel) {o : Option Insertion}
    (hfits : ∀ i ∈ o, i.Fits x.world.events x.agenda.slots) : Ordered (x.insert o) := by
  cases o with
  | none => exact h
  | some i =>
    cases hk : i.chosen with
    | some k =>
      have hslots := (insert_slots_iff hk hlen).mpr ⟨h.slots, hfits i rfl⟩
      have hlater : (x.insert (some i)).agenda.later = x.agenda.later := by
        rw [Recorded.insert, hk]
        rfl
      exact ⟨hslots, hlater ▸ h.keyed, h.batch, h.fired, h.rest⟩
    | none =>
      have hslots : (x.insert (some i)).agenda.slots = x.agenda.slots := by
        rw [Recorded.insert, hk]
        rfl
      have hlater : (x.insert (some i)).agenda.later = x.agenda.later.insert i.arriveTime i := by
        rw [Recorded.insert, hk]
        rfl
      refine ⟨hslots ▸ h.slots, fun p hp => ?_, h.batch, h.fired, h.rest⟩
      rw [hlater] at hp
      rcases List.mem_cons.mp ((insertEntry_perm _ _ _).mem_iff.mp hp) with rfl | hp
      · rfl
      · exact h.keyed p hp

/-- A call of `fireExpired` in place makes a batch that is in order. -/
theorem Ordered.collect {x : Recorded} (h : Ordered x) {now : Int}
    (hok : InPlace x (.fireExpired now)) : Ordered (x.collect now) := by
  by_cases hset : x.world.wheel.lastTickMs = 0
  · rw [Recorded.collect, if_pos hset]
    exact ⟨h.slots, h.keyed, .nil, .nil, by simp⟩
  · have htaken := h.slots.sublist (Agenda.flatten_take_sublist _ (x.world.wheel.turns now))
    have hbatch := (collect_batch_iff now hset h.keyed).mpr ⟨htaken, hok⟩
    rw [Recorded.collect, if_neg hset] at hbatch ⊢
    exact ⟨h.slots.sublist (Agenda.flatten_rest_sublist _ _),
      fun p hp => h.keyed p ((List.dropWhile_sublist _).subset hp), hbatch, .nil, by simp⟩

/-- The first of the batch goes, and its callback is not called. -/
theorem Ordered.skip {x : Recorded} (h : Ordered x) : Ordered { x with batch := x.batch.tail } :=
  ⟨h.slots, h.keyed, h.batch.sublist (List.tail_sublist _), h.fired,
    fun i hi hfuture j hj => h.rest i hi hfuture j (List.mem_of_mem_tail hj)⟩

/-- The first of the batch is called. -/
theorem Ordered.call {x : Recorded} (h : Ordered x) {i : Insertion} {batch : List Insertion}
    (hbatch : x.batch = i :: batch) (htask : (x.world.events i.event).task = true)
    (hlive : live x.world.events i.event = true) :
    Ordered { x with batch, fired := x.fired ++ [i] } := by
  have hcounts : i.future = true → i.counts x.world.events = true := fun hfuture => by
    simp [Insertion.counts, hfuture, htask, hlive]
  have hrest := h.rest
  rw [hbatch] at hrest
  obtain ⟨hfirst, htail⟩ := List.pairwise_cons.mp (hbatch ▸ h.batch)
  refine ⟨h.slots, h.keyed, htail, ?_, fun j hj hfuture k hk hk' => ?_⟩
  · refine List.pairwise_append.mpr ⟨h.fired, List.pairwise_singleton _ _, fun j hj k hk => ?_⟩
    obtain rfl := List.mem_singleton.mp hk
    exact fun hj' hk' => hrest j hj hj' k List.mem_cons_self (hcounts hk')
  · rcases List.mem_append.mp hj with hj | hj
    · exact hrest j hj hfuture k (List.mem_cons_of_mem _ hk) hk'
    · obtain rfl := List.mem_singleton.mp hj
      exact hfirst k hk (hcounts hfuture) hk'

theorem Follows.length_slots {x : Recorded} (h : Follows x) :
    x.agenda.slots.length = kSlotsPerLevel := by
  have hlen := congrArg (fun q => q.slots.length) h.agenda
  exact (List.length_map _).symm.trans (hlen.trans (TimingWheel.length_slots _))

/-- What a step in place does to the records keeps them in order. -/
theorem step_ordered {x x' : Recorded} {l : Label} {es : List Event} (hf : Follows x)
    (h : Ordered x) (hok : InPlace x l) (hs : x.step l = some (x', es)) : Ordered x' := by
  obtain ⟨w, hw, rfl⟩ := Recorded.step_eq_some hs
  have hsame : ∀ ev, SameTimer x.world w ev := step_sameTimer hw
  suffices hafter : Ordered (x.after es l) from
    hafter.sameTimer fun ev => (Recorded.after_world x es l).symm ▸ hsame ev
  cases steps_of_step hw with
  | addEvent h₁ h₂ => exact h.insert hf.length_slots hok
  | cancelEvent =>
    exact ⟨h.slots, fun p hp => h.keyed p (List.mem_of_mem_eraseP hp), h.batch, h.fired, h.rest⟩
  | fireExpired hnone hnow => exact h.collect hok
  | skipped hfiring hc => exact h.skip
  | @called now ev rest hfiring hc =>
    have hbatch := hf.batch
    rw [World.expired_of_firing hfiring] at hbatch
    obtain ⟨i, batch, hcons, rfl, -⟩ := List.map_eq_cons_iff.mp hbatch
    cases htask : (x.world.events i.event).task with
    | true =>
      have hcall := h.call hcons htask (by simp [live, hc])
      simpa [Recorded.after, hcons, htask] using hcall
    | false => simpa [Recorded.after, htask] using h.skip
  | done hfiring hno => exact h.insert hf.length_slots hok
  | rearmed hfiring hrep hc h₀ h₁ h₂ => exact h.insert hf.length_slots hok
  | fireEnd hfiring => exact h.insert hf.length_slots hok

/-- A run in place keeps the records in order. -/
theorem run_ordered {events : Events} {clock : Int} {ls : List Label} {x : Recorded}
    {es : List Event} (hrun : run Recorded.step (Recorded.init events clock) ls = some (x, es))
    (hok : RunOk Recorded.step InPlace (Recorded.init events clock) ls) : Ordered x :=
  (runOk_induction (fun y _ => Follows y ∧ Ordered y)
    (fun _ _ _ _ _ hy hl hs => ⟨step_follows hy.1 hs, step_ordered hy.1 hy.2 hl hs⟩) []
    ⟨follows_init events clock, ordered_init events clock⟩ hok hrun).2

/-- In a run whose steps are all in place, what a call of `fireExpired` has run, as the run
    shows it, came in the order of the arrivals, up to a tick, as far as they were in the future
    when the events were added. -/
theorem expiry_in_order (events : Events) (clock now : Int) (ls ms : List Label)
    (y x : Recorded) (es fs : List Event)
    (hcall : run Recorded.step (Recorded.init events clock) (ls ++ [.fireExpired now]) =
      some (y, es))
    (hrest : run Recorded.step y ms = some (x, fs)) (hms : ∀ t, .fireExpired t ∉ ms)
    (hok : RunOk Recorded.step InPlace (Recorded.init events clock)
      (ls ++ [.fireExpired now] ++ ms)) :
    x.fired.map Insertion.event = fs.filterMap Event.ranOf ∧ x.fired.Pairwise InOrder := by
  have hrun := run_append.mpr ⟨y, es, fs, hcall, hrest, rfl⟩
  refine ⟨?_, (run_ordered hrun hok).fired⟩
  obtain ⟨u, es₁, es₂, -, hlast, -⟩ := run_append.mp hcall
  obtain ⟨v, es₃, es₄, hfire, hnil, -⟩ := run_cons_eq_some.mp hlast
  obtain ⟨rfl, -⟩ : v = y ∧ [] = es₄ := by simpa using hnil
  rw [run_fired (run_follows hcall) hms hrest, fired_of_fireExpired hfire]
  rfl

/-- Timers of 30, 10 and 20 ms that expire in one call. -/
def threeTimers : Events
  | 0 => ⟨1030, 30, false, false, true⟩
  | 1 => ⟨1010, 10, false, false, true⟩
  | _ => ⟨1020, 20, false, false, true⟩

def addAll : List Label :=
  [.addEvent 0 1000 1000, .addEvent 1 1000 1000, .addEvent 2 1000 1000]

def runAll : List Label :=
  [.nextExpired, .callbackReturns 0 0 0, .nextExpired, .callbackReturns 0 0 0, .nextExpired]

theorem expiry_in_order_three_timers :
    ∃ y x es fs,
      run Recorded.step (Recorded.init threeTimers 1000) (addAll ++ [.fireExpired 1060]) =
        some (y, es) ∧
      run Recorded.step y runAll = some (x, fs) ∧ x.fired.map Insertion.event = [1, 2, 0] ∧
      x.fired.map Insertion.event = fs.filterMap Event.ranOf ∧ x.fired.Pairwise InOrder := by
  have hrun : (run Recorded.step (Recorded.init threeTimers 1000)
      (addAll ++ [.fireExpired 1060] ++ runAll)).map
      (fun r => r.1.fired.map Insertion.event) = some [1, 2, 0] := by
    decide +kernel
  obtain ⟨⟨x, es⟩, hx, hfired⟩ := Option.map_eq_some_iff.mp hrun
  obtain ⟨y, es, fs, hy, hx, -⟩ := run_append.mp hx
  exact ⟨y, x, es, fs, hy, hx, hfired, expiry_in_order threeTimers 1000 1060 _ _ y x es fs hy hx
    (by simp [runAll]) (by decide +kernel)⟩

theorem collectTicks_of_empty (events : Events) (n : Nat) {w : TimingWheel} (out : List EventId)
    (h : ∀ idx, w.l1 idx = []) :
    collectTicks events n w out = ({ w with l1Cursor := slotAt w.l1Cursor n }, out) := by
  induction n generalizing w with
  | zero => rw [collectTicks, slotAt_zero]
  | succ n ih =>
    have htick : (collectExpired events w out).1.tickL1 =
        { w with l1Cursor := slotAt w.l1Cursor 1 } := by
      have hl1 : w.l1 = fun _ => [] := funext h
      simp only [tickL1, collectExpired, hl1]
      congr 1
      funext idx
      simp [Function.update_apply]
    have hout : (collectExpired events w out).2 = out := by simp [collectExpired, h]
    have hrest := @ih { w with l1Cursor := slotAt w.l1Cursor 1 } h
    rw [slotAt_slotAt, Nat.add_comm] at hrest
    rw [collectTicks, htick, hout, hrest]

/-- A timer of 3000 ms, and one of 100 ms that is added 10 ms before the first arrives. -/
def longAndShort : Events
  | 0 => ⟨4000, 3000, false, false, true⟩
  | _ => ⟨4090, 100, false, false, true⟩

/-- The long timer waits, and the wheel was read at `t`. -/
def longWaits (t : Int) : Recorded where
  world := ⟨longAndShort, { new with overflow := .insert .empty 4000 0, lastTickMs := t }, t, none⟩
  agenda := ⟨List.replicate kSlotsPerLevel [], .insert .empty 4000 ⟨0, 4000, 1000⟩⟩

theorem longWaits_collect : TimingWheel.collect longAndShort (longWaits 1000).world.wheel 3990 =
    ((longWaits 3990).world.wheel, []) := by
  unfold TimingWheel.collect
  rw [if_neg (by decide)]
  dsimp only
  rw [if_pos (by decide)]
  dsimp only
  rw [collectTicks_of_empty longAndShort _ _ fun _ => rfl]
  rfl

theorem longWaits_records : (longWaits 1000).collect 3990 = longWaits 1000 := by
  have hturns : (longWaits 1000).world.wheel.turns 3990 = kSlotsPerLevel := by decide
  have hslots : (List.replicate kSlotsPerLevel ([] : List Insertion)).drop kSlotsPerLevel ++
      List.replicate kSlotsPerLevel [] = List.replicate kSlotsPerLevel [] := by simp
  have htaken : ((List.replicate kSlotsPerLevel ([] : List Insertion)).take
      kSlotsPerLevel).flatten = [] := by simp
  rw [Recorded.collect, if_neg (by decide), hturns]
  simp only [longWaits, Agenda.rest, Agenda.due, hslots, htaken]
  rfl

theorem longWaits_run : run Recorded.step (Recorded.init longAndShort 1000)
    [.addEvent 0 1000 1000, .fireExpired 3990, .fireEnd] =
      some (longWaits 3990, [.added 0]) := by
  have hadd : (Recorded.init longAndShort 1000).step (.addEvent 0 1000 1000) =
      some (longWaits 1000, [.added 0]) := rfl
  have hcall : (longWaits 1000).world.fireExpired 3990 =
      { (longWaits 3990).world with firing := some ⟨3990, [], none⟩ } := by
    show (⟨longAndShort, (TimingWheel.collect longAndShort _ 3990).1, 3990, some ⟨3990,
      (TimingWheel.collect longAndShort _ 3990).2, none⟩⟩ : World) = _
    rw [longWaits_collect]
    rfl
  have hfire : (longWaits 1000).step (.fireExpired 3990) =
      some ({ longWaits 3990 with
        world := { (longWaits 3990).world with firing := some ⟨3990, [], none⟩ } }, []) := by
    show some ({ (longWaits 1000).collect 3990 with
      world := (longWaits 1000).world.fireExpired 3990 }, ([] : List Event)) = _
    rw [longWaits_records, hcall]
    rfl
  exact run_cons_eq_some.mpr ⟨_, _, _, hadd, run_cons_eq_some.mpr ⟨_, _, _, hfire, rfl, rfl⟩, rfl⟩

/-- When the short timer has arrived too, one call runs it before the long one. -/
theorem expiry_slot_before_overflow :
    ∃ events clock ls x es,
      run Recorded.step (Recorded.init events clock) ls = some (x, es) ∧
        ¬ x.fired.Pairwise InOrder := by
  have hrun : (run Recorded.step (longWaits 3990)
      [.addEvent 1 3990 3990, .fireExpired 4100, .nextExpired, .callbackReturns 0 0 0,
        .nextExpired]).map (fun r => decide (r.1.fired.Pairwise InOrder)) = some false := by
    decide +kernel
  obtain ⟨⟨x, es⟩, hx, hfired⟩ := Option.map_eq_some_iff.mp hrun
  exact ⟨longAndShort, 1000, _, x, _, run_append.mpr ⟨_, _, _, longWaits_run, hx, rfl⟩,
    of_decide_eq_false hfired⟩

end RocketRpc.Timer
