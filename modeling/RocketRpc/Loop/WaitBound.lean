import RocketRpc.Loop.PollTimeout

/-
  How long the wait is that the wheel gives.

  `msUntilNextExpire` counts the ticks up to the first slot that holds an event from the next
  tick on, and takes at most one tick off for the time since the wheel was called last. So a
  look at a wheel whose clock is a tick or more behind counts ticks that have passed already.
  `Near` says when this does no harm: for every pending event in a slot, the ticks up to some
  slot that holds an event, counted from the look, end soon enough, or an event of the overflow
  map comes soon enough. In every state that the calls on a wheel can lead to, the wait is not too
  long if and only if the clock of the wheel is less than a tick behind or this holds
  (`wait_in_time_iff`).
-/

namespace RocketRpc.Loop

open Machine
open Timer (EventId Events Started World live kTickMs kSlotsPerLevel)
open Timer.TimingWheel (slotAt)

/-! ## Events come from `create` -/

/-- A wheel, and the events that were created for it. -/
structure Timers where
  created : List EventId
  world : World

inductive CreateLabel where
  /-- `TimerEvent::create(interval, is_repeated, cb)` for a new event; `resetArriveTime` in the
      constructor reads the clock at `t`. -/
  | create (ev : EventId) (interval : Int) (isRepeated task : Bool) (t : Int)
  | timer (l : Timer.Label)
  deriving DecidableEq, Repr

namespace Timers

def new (clock : Int) : Timers where
  created := []
  world := World.init (fun _ => ⟨0, 0, false, false, false⟩) clock

def create (m : Timers) (ev : EventId) (interval : Int) (isRepeated task : Bool) (t : Int) :
    Timers where
  created := ev :: m.created
  world := { m.world with
    events := Function.update m.world.events ev
      ((⟨0, interval, isRepeated, false, task⟩ : Timer.TimerEvent).resetArriveTime t)
    clock := t }

/-- Only an event that was created can be added or cancelled. -/
def has (m : Timers) : Timer.Label → Bool
  | .addEvent ev _ _ | .cancelEvent ev => decide (ev ∈ m.created)
  | _ => true

def step (m : Timers) : CreateLabel → Option (Timers × List Timer.Event)
  | .create ev interval isRepeated task t =>
    if ev ∉ m.created ∧ m.world.clock ≤ t then
      some (m.create ev interval isRepeated task t, [])
    else none
  | .timer l =>
    if m.has l then (Timer.step m.world l).map fun r => ({ m with world := r.1 }, r.2) else none

end Timers

/-- What holds between the calls: the wheel and a running `fireExpired` have only events that
    were created, and no event arrives later than if it were created now. -/
structure Sound (m : Timers) : Prop where
  started : Started m.world
  settled : Settled m.world
  stored : ∀ p ∈ m.world.wheel.entries, p.1 ∈ m.created
  expired : ∀ f, m.world.firing = some f → ∀ ev ∈ f.expired, ev ∈ m.created
  running : ∀ f, m.world.firing = some f → ∀ ev, f.running = some ev → ev ∈ m.created
  arrives : ∀ ev ∈ m.created,
    (m.world.events ev).arriveTime ≤ m.world.clock + (m.world.events ev).interval

theorem sound_new {clock : Int} (h : 0 < clock) : Sound (Timers.new clock) where
  started := Timer.started_init _ h
  settled := by simp [Settled, Timers.new, World.init]
  stored := by simp [Timers.new, World.init]
  expired := by simp [Timers.new, World.init]
  running := by simp [Timers.new, World.init]
  arrives := by simp [Timers.new]

theorem Sound.create {m : Timers} (h : Sound m) {ev : EventId} {interval t : Int}
    {isRepeated task : Bool} (hnew : ev ∉ m.created) (ht : m.world.clock ≤ t) :
    Sound (m.create ev interval isRepeated task t) where
  started := by
    have hst := h.started
    exact ⟨Int.lt_of_lt_of_le hst.clock_pos ht, hst.last_nonneg, Int.le_trans hst.last_le ht,
      hst.unset⟩
  settled := by
    intro p hp
    have hne : p.1 ≠ ev := fun heq => hnew (heq ▸ h.stored p hp)
    have hsettled := h.settled p hp
    simpa [Timers.create, hne] using hsettled
  stored := fun p hp => List.mem_cons_of_mem _ (h.stored p hp)
  expired := fun f hf e he => List.mem_cons_of_mem _ (h.expired f hf e he)
  running := fun f hf e he => List.mem_cons_of_mem _ (h.running f hf e he)
  arrives := by
    intro e he
    by_cases heq : e = ev
    · simp [Timers.create, heq, Timer.TimerEvent.resetArriveTime]
    · have harrives := h.arrives e (List.mem_of_ne_of_mem heq he)
      simp only [Timers.create, Function.update_of_ne heq]
      omega

/-! ## A step of the wheel -/

/-- The entries after an insertion. -/
theorem mem_addEvent_entries {w : World} (hst : Started w) {events : Events} {ev : EventId}
    {t₁ t₂ : Int} (h₁ : w.clock ≤ t₁) (h₂ : t₁ ≤ t₂) {p : EventId × Int}
    (hp : p ∈ (w.wheel.addEvent events ev t₁ t₂).entries) : p.1 = ev ∨ p ∈ w.wheel.entries := by
  cases hc : (events ev).isCancelled with
  | true =>
    rw [Timer.addEvent_of_cancelled t₁ t₂ hc] at hp
    exact Or.inr hp
  | false =>
    obtain ⟨D, -, hperm⟩ := hst.addEvent_entries events h₁ h₂ hc
    rcases List.mem_cons.mp (hperm.mem_iff.mp hp) with rfl | hmem
    · exact Or.inl rfl
    · exact Or.inr hmem

/-- `fireExpired` takes its batch from the entries, and leaves the others. -/
theorem mem_collect {w : World} (hst : Started w) {now : Int} (hnow : w.clock ≤ now) :
    (∀ p ∈ (w.fireExpired now).wheel.entries, p ∈ w.wheel.entries) ∧
      ∀ ev ∈ (Timer.TimingWheel.collect w.events w.wheel now).2,
        ∃ p ∈ w.wheel.entries, p.1 = ev := by
  by_cases hz : w.wheel.lastTickMs = 0
  · have hwheel := hst.wheel_started hnow
    constructor
    · intro p hp
      have hp' : p ∈ (Timer.TimingWheel.collect w.events w.wheel now).1.entries := hp
      rw [Timer.TimingWheel.collect_unset w.events now hz] at hp'
      rw [← hwheel.2.2]
      exact hp'
    · rw [Timer.TimingWheel.collect_unset w.events now hz]
      simp
  · obtain ⟨hleft, hout⟩ := Timer.TimingWheel.collect_entries w.events now hz
    constructor
    · intro p hp
      have hp' : p ∈ (Timer.TimingWheel.collect w.events w.wheel now).1.entries := hp
      rw [hleft] at hp'
      exact (List.mem_filter.mp hp').1
    · intro ev hev
      rw [hout] at hev
      obtain ⟨p, hp, heq⟩ := List.mem_map.mp (List.mem_filter.mp hev).1
      exact ⟨p, (List.mem_filter.mp hp).1, heq⟩

/-- An event that is added again arrives later than before. -/
theorem Sound.rearmedInTime {m : Timers} (h : Sound m) {t₀ t₁ t₂ : Int} {w' : World}
    {es : List Timer.Event}
    (hs : Timer.step m.world (.callbackReturns t₀ t₁ t₂) = some (w', es)) :
    RearmedInTime m.world t₀ := by
  cases Timer.steps_of_step hs with
  | @done _ _ _ _ ev rest hf hno =>
    unfold RearmedInTime
    rw [hf]
    intro hrep hlive
    exact absurd ⟨hrep, by simpa [live] using hlive⟩ hno
  | @rearmed now _ _ _ ev rest hf hrep hc h₀ h₁ h₂ =>
    unfold RearmedInTime
    rw [hf]
    intro _ _ p hp heq
    have hsettled := h.settled p hp
    have harrives := h.arrives ev (h.running _ hf ev rfl)
    rw [heq] at hsettled
    omega

theorem Sound.timer {m : Timers} (h : Sound m) {l : Timer.Label} {w' : World}
    {es : List Timer.Event} (hhas : m.has l = true)
    (hs : Timer.step m.world l = some (w', es)) : Sound { m with world := w' } := by
  have hst := h.started
  have hstarted := Timer.step_started hst hs
  have hsettled : Settled w' := by
    refine step_settled hst h.settled (fun t₀ t₁ t₂ heq => ?_) hs
    rw [heq] at hs
    exact h.rearmedInTime hs
  cases Timer.steps_of_step hs with
  | @addEvent ev t₁ t₂ h₁ h₂ =>
    refine ⟨hstarted, hsettled, fun p hp => ?_, h.expired, h.running, fun e he => ?_⟩
    · rcases mem_addEvent_entries hst h₁ h₂ hp with heq | hmem
      · rw [heq]
        exact of_decide_eq_true hhas
      · exact h.stored p hmem
    · have harrives := h.arrives e he
      simp only [World.addEvent]
      omega
  | @cancelEvent ev =>
    refine ⟨hstarted, hsettled, fun p hp => ?_, h.expired, h.running, fun e he => ?_⟩
    · have hsub := (Timer.TimingWheel.eraseOverflow_entries m.world.wheel ev
        (m.world.events ev).arriveTime).1
      exact h.stored p (hsub.subset hp)
    · have hinterval : ((m.world.cancelEvent ev).events e).interval =
          (m.world.events e).interval := by
        by_cases heq : e = ev
        · simp [World.cancelEvent, Timer.TimerEvent.cancel, heq]
        · simp [World.cancelEvent, heq]
      simp only [Timer.cancelEvent_arriveTime, hinterval]
      exact h.arrives e he
  | @fireExpired now hnone hnow =>
    obtain ⟨hleft, hout⟩ := mem_collect hst hnow
    refine ⟨hstarted, hsettled, fun p hp => h.stored p (hleft p hp), ?_, ?_, fun e he => ?_⟩
    · intro f hf e he
      obtain rfl := Option.some.inj hf
      obtain ⟨p, hp, rfl⟩ := hout e he
      exact h.stored p hp
    · intro f hf e he
      obtain rfl := Option.some.inj hf
      simp at he
    · have harrives := h.arrives e he
      simp only [World.fireExpired]
      omega
  | skipped hf hc =>
    refine ⟨hstarted, hsettled, h.stored, ?_, ?_, h.arrives⟩
    · rintro f ⟨⟩ e he
      exact h.expired _ hf e (List.mem_cons_of_mem _ he)
    · rintro f ⟨⟩ e he
      simp at he
  | called hf hc =>
    refine ⟨hstarted, hsettled, h.stored, ?_, ?_, h.arrives⟩
    · rintro f ⟨⟩ e he
      exact h.expired _ hf e (List.mem_cons_of_mem _ he)
    · rintro f ⟨⟩ e he
      rw [← Option.some.inj he]
      exact h.expired _ hf _ List.mem_cons_self
  | done hf hno =>
    refine ⟨hstarted, hsettled, h.stored, ?_, ?_, h.arrives⟩
    · rintro f ⟨⟩ e he
      exact h.expired _ hf e he
    · rintro f ⟨⟩ e he
      simp at he
  | @rearmed now t₀ t₁ t₂ ev rest hf hrep hc h₀ h₁ h₂ =>
    refine ⟨hstarted, hsettled, fun p hp => ?_, ?_, ?_, fun e he => ?_⟩
    · rcases mem_addEvent_entries hst (Int.le_trans h₀ h₁) h₂ hp with heq | hmem
      · rw [heq]
        exact h.running _ hf ev rfl
      · exact h.stored p hmem
    · rintro f ⟨⟩ e he
      exact h.expired _ hf e he
    · rintro f ⟨⟩ e he
      simp at he
    · by_cases heq : e = ev
      · simp only [World.rearm, heq, Function.update_self, Timer.TimerEvent.resetArriveTime]
        omega
      · have harrives := h.arrives e he
        simp only [World.rearm, Function.update_of_ne heq]
        omega
  | fireEnd hf => exact ⟨hstarted, hsettled, h.stored, by simp, by simp, h.arrives⟩

theorem step_sound {m m' : Timers} {l : CreateLabel} {es : List Timer.Event} (h : Sound m)
    (hs : m.step l = some (m', es)) : Sound m' := by
  cases l with
  | create ev interval isRepeated task t =>
    obtain ⟨⟨hnew, ht⟩, heq⟩ := Option.ite_none_right_eq_some.mp hs
    obtain ⟨rfl, rfl⟩ := Prod.mk.inj (Option.some.inj heq)
    exact h.create hnew ht
  | timer l =>
    obtain ⟨hhas, heq⟩ := Option.ite_none_right_eq_some.mp hs
    obtain ⟨⟨w', es'⟩, hstep, heq⟩ := Option.map_eq_some_iff.mp heq
    obtain ⟨rfl, rfl⟩ := Prod.mk.inj heq
    exact h.timer hhas hstep

/-! ## The wait -/

/-- There is no wait if and only if nothing is stored, and a wait ends at most a tick after the
    arrival of every pending event, or after the look if it has arrived by then. -/
def WaitInTime (w : World) (now : Int) : Prop :=
  (w.wheel.msUntilNextExpire now = none ↔ w.wheel.entries = []) ∧
    ∀ ms, w.wheel.msUntilNextExpire now = some ms → ∀ p ∈ w.wheel.entries,
      live w.events p.1 = true → now + ms ≤ max now (w.events p.1).arriveTime + kTickMs

/-- Something is stored that the wait up to it, counted from `now`, ends at most a tick after
    `t`: a slot that holds an event, or an event of the overflow map. -/
def Near (w : World) (now t : Int) : Prop :=
  (∃ j < kSlotsPerLevel, w.wheel.l1 (slotAt w.wheel.l1Cursor j) ≠ [] ∧
    now + kTickMs * j < t + kTickMs) ∨
  ∃ q ∈ w.wheel.overflow.entries, q.1 ≤ t + kTickMs

instance (w : World) (now t : Int) : Decidable (Near w now t) :=
  inferInstanceAs (Decidable (_ ∨ _))

/-- The clock of the wheel is less than a tick behind, or something is near enough for every
    pending event in a slot. -/
def LookedInTime (w : World) (now : Int) : Prop :=
  now < w.wheel.lastTickMs + kTickMs ∨
    ∀ k < kSlotsPerLevel, ∀ ev ∈ w.wheel.l1 (slotAt w.wheel.l1Cursor k),
      live w.events ev = true → Near w now (max now (w.events ev).arriveTime)

instance (w : World) (now : Int) : Decidable (LookedInTime w now) :=
  inferInstanceAs (Decidable (_ ∨ _))

/-- The wait is the one for some slot that holds an event, or for an event of the overflow
    map. -/
theorem msUntilNextExpire_cases {w : Timer.TimingWheel} {now ms : Int}
    (h : w.msUntilNextExpire now = some ms) :
    (∃ i < kSlotsPerLevel, w.l1 (slotAt w.l1Cursor i) ≠ [] ∧
      ms = w.untilNextTick now + i * kTickMs) ∨
    ∃ q ∈ w.overflow.entries, ms = max 0 (q.1 - now) := by
  have hslot : ∀ n, (w.firstSlot.map fun i : Nat => w.untilNextTick now + i * kTickMs) = some n →
      ∃ i < kSlotsPerLevel, w.l1 (slotAt w.l1Cursor i) ≠ [] ∧
        n = w.untilNextTick now + i * kTickMs := by
    intro n hn
    obtain ⟨i, hi, rfl⟩ := Option.map_eq_some_iff.mp hn
    obtain ⟨hholds, hrange, -⟩ := List.find?_range_eq_some.mp hi
    exact ⟨i, List.mem_range.mp hrange, by simpa using hholds, rfl⟩
  unfold Timer.TimingWheel.msUntilNextExpire at h
  split at h
  · exact Or.inl (hslot ms h)
  · rename_i earliest hhead
    have hmem := List.mem_of_mem_head? (Option.mem_def.mpr hhead)
    obtain rfl := Option.some.inj h
    split
    · rename_i n hn
      rcases Int.le_total n (max 0 (earliest.1 - now)) with hle | hle
      · rw [Int.min_eq_left hle]
        exact Or.inl (hslot n hn)
      · rw [Int.min_eq_right hle]
        exact Or.inr ⟨earliest, hmem, rfl⟩
    · exact Or.inr ⟨earliest, hmem, rfl⟩

/-- A slot that holds an event gives an entry of the wheel. -/
theorem mem_entries_of_slot {w : Timer.TimingWheel} {k : Nat} {ev : EventId}
    (hk : k < kSlotsPerLevel) (hev : ev ∈ w.l1 (slotAt w.l1Cursor k)) :
    ∃ p ∈ w.entries, p.1 = ev := by
  have hlen : k < w.slots.length := by rwa [Timer.TimingWheel.length_slots]
  have hslots : ev ∈ w.slots.flatten := by
    refine List.mem_flatten.mpr ⟨w.slots[k], List.getElem_mem hlen, ?_⟩
    rwa [Timer.TimingWheel.getElem_slots]
  rw [← Deadlines.ring_map_fst kTickMs w.lastTickMs] at hslots
  obtain ⟨p, hp, heq⟩ := List.mem_map.mp hslots
  exact ⟨p, List.mem_append_left _ hp, heq⟩

theorem mem_entries_of_overflow {w : Timer.TimingWheel} {q : Int × EventId}
    (hq : q ∈ w.overflow.entries) : q.swap ∈ w.entries :=
  List.mem_append_right _ (List.mem_map_of_mem hq)

/-- There is no wait if and only if nothing is stored. -/
theorem msUntilNextExpire_eq_none (w : Timer.TimingWheel) (now : Int) :
    w.msUntilNextExpire now = none ↔ w.entries = [] := by
  constructor
  · intro hnone
    refine List.eq_nil_iff_forall_not_mem.mpr fun p hp => ?_
    rcases Timer.TimingWheel.mem_entries hp with ⟨k, hk, hmem, -⟩ | hmem
    · obtain ⟨ms, hms, -⟩ := Timer.TimingWheel.msUntilNextExpire_slot now hk hmem
      exact absurd (hnone.symm.trans hms) (by simp)
    · obtain ⟨ms, hms, -⟩ := Timer.TimingWheel.msUntilNextExpire_overflow now hmem
      exact absurd (hnone.symm.trans hms) (by simp)
  · intro hnil
    refine Option.eq_none_iff_forall_ne_some.mpr fun ms hms => ?_
    rcases msUntilNextExpire_cases hms with ⟨i, hi, hne, -⟩ | ⟨q, hq, -⟩
    · obtain ⟨ev, hev⟩ := List.exists_mem_of_ne_nil _ hne
      obtain ⟨p, hp, -⟩ := mem_entries_of_slot hi hev
      rw [hnil] at hp
      exact List.not_mem_nil hp
    · have hp := mem_entries_of_overflow hq
      rw [hnil] at hp
      exact List.not_mem_nil hp

/-- The bound for one event, where something near enough is stored. -/
theorem wait_of_near {w : World} {now t ms : Int} (hpos : 0 < w.wheel.lastTickMs)
    (hle : w.wheel.lastTickMs ≤ now) (hnow : now ≤ t)
    (hbehind : w.wheel.lastTickMs + kTickMs ≤ now) (hnear : Near w now t)
    (hms : w.wheel.msUntilNextExpire now = some ms) : now + ms ≤ t + kTickMs := by
  have htick : kTickMs = 10 := rfl
  rcases hnear with ⟨j, hj, hne, hends⟩ | ⟨q, hq, hends⟩
  · obtain ⟨ev, hev⟩ := List.exists_mem_of_ne_nil _ hne
    obtain ⟨ms', hms', hwakes, -⟩ := Timer.TimingWheel.slot_wakes hpos hle hj hev
    obtain rfl := Option.some.inj (hms.symm.trans hms')
    rw [htick] at hwakes hends hbehind ⊢
    omega
  · obtain ⟨ms', hms', hwakes⟩ := Timer.TimingWheel.overflow_wakes now hq
    obtain rfl := Option.some.inj (hms.symm.trans hms')
    omega

/-- And back. -/
theorem near_of_wait {w : World} {now t ms : Int}
    (hms : w.wheel.msUntilNextExpire now = some ms) (hwait : now + ms ≤ t + kTickMs) :
    Near w now t := by
  have htick : kTickMs = 10 := rfl
  rcases msUntilNextExpire_cases hms with ⟨i, hi, hne, rfl⟩ | ⟨q, hq, rfl⟩
  · have hone := w.wheel.untilNextTick_pos now
    refine Or.inl ⟨i, hi, hne, ?_⟩
    rw [htick] at hwait ⊢
    omega
  · exact Or.inr ⟨q, hq, by omega⟩

/-- What one look at a wheel that holds something gives. -/
theorem Sound.waitInTime_iff {m : Timers} (h : Sound m) {now : Int} (hnow : m.world.clock ≤ now) :
    WaitInTime m.world now ↔ LookedInTime m.world now := by
  have htick : kTickMs = 10 := rfl
  have hle := Int.le_trans h.started.last_le hnow
  have hpos : ∀ p, p ∈ m.world.wheel.entries → 0 < m.world.wheel.lastTickMs := by
    intro p hp
    rcases Int.lt_or_eq_of_le h.started.last_nonneg with hlt | heq
    · exact hlt
    · rw [h.started.unset heq.symm] at hp
      exact absurd hp List.not_mem_nil
  constructor
  · intro hwait
    by_cases hfresh : now < m.world.wheel.lastTickMs + kTickMs
    · exact Or.inl hfresh
    · refine Or.inr fun k hk ev hev hlive => ?_
      obtain ⟨p, hp, rfl⟩ := mem_entries_of_slot hk hev
      obtain ⟨ms, hms, -⟩ := Timer.TimingWheel.msUntilNextExpire_slot now hk hev
      exact near_of_wait hms (hwait.2 ms hms p hp hlive)
  · intro hlook
    refine ⟨msUntilNextExpire_eq_none _ now, fun ms hms p hp hlive => ?_⟩
    have hsettled := h.settled p hp
    have hlast := hpos p hp
    rcases Timer.TimingWheel.mem_entries hp with ⟨k, hk, hmem, hdeadline⟩ | hmem
    · by_cases hfresh : now < m.world.wheel.lastTickMs + kTickMs
      · obtain ⟨ms', hms', -, hwakes⟩ := Timer.TimingWheel.slot_wakes hlast hle hk hmem
        obtain rfl := Option.some.inj (hms.symm.trans hms')
        have := hwakes hfresh
        omega
      · have hnear := (hlook.resolve_left hfresh) k hk p.1 hmem hlive
        exact wait_of_near hlast hle (Int.le_max_left _ _) (Int.not_lt.mp hfresh) hnear hms
    · obtain ⟨ms', hms', hwakes⟩ := Timer.TimingWheel.overflow_wakes now hmem
      obtain rfl := Option.some.inj (hms.symm.trans hms')
      omega

/-! ## Main result -/

/-- In every state that calls on a wheel lead to and at every time from then on, the wait is in
    time if and only if the look is. -/
theorem wait_in_time_iff (clock : Int) (ls : List CreateLabel) (m : Timers)
    (es : List Timer.Event) (now : Int) (hclock : 0 < clock)
    (hrun : run Timers.step (Timers.new clock) ls = some (m, es))
    (hnow : m.world.clock ≤ now) : WaitInTime m.world now ↔ LookedInTime m.world now := by
  have h := run_invariant Sound (fun _ _ _ _ hp hs => step_sound hp hs) (sound_new hclock) hrun
  exact h.waitInTime_iff hnow

/-- A timer of 100 ms is added right after a call of `fireExpired`. -/
def longTimer : List CreateLabel :=
  [.timer (.fireExpired 1000), .timer .fireEnd, .create 0 100 false true 1000,
    .timer (.addEvent 0 1000 1000)]

/-- A look at 1009 gives a wait that ends at 1100. -/
theorem wait_in_time_at_once :
    ∃ m es, run Timers.step (Timers.new 1000) longTimer = some (m, es) ∧
      m.world.wheel.msUntilNextExpire 1009 = some 91 ∧ WaitInTime m.world 1009 := by
  have hrun : (run Timers.step (Timers.new 1000) longTimer).map (fun r =>
      decide (r.1.world.wheel.msUntilNextExpire 1009 = some 91 ∧ r.1.world.clock ≤ 1009 ∧
        LookedInTime r.1.world 1009)) = some true := by decide +kernel
  obtain ⟨⟨m, es⟩, hm, heq⟩ := Option.map_eq_some_iff.mp hrun
  obtain ⟨hms, hclock, hlook⟩ : m.world.wheel.msUntilNextExpire 1009 = some 91 ∧
    m.world.clock ≤ 1009 ∧ LookedInTime m.world 1009 := of_decide_eq_true heq
  exact ⟨m, es, hm, hms,
    (wait_in_time_iff 1000 longTimer m es 1009 (by decide) hm hclock).mpr hlook⟩

/-- A look at 1095 gives the same wait, and it ends at 1186. -/
theorem wait_too_long :
    ¬ ∀ (clock : Int) (ls : List CreateLabel) (m : Timers) (es : List Timer.Event) (now : Int),
      0 < clock → run Timers.step (Timers.new clock) ls = some (m, es) → m.world.clock ≤ now →
        WaitInTime m.world now := by
  intro h
  have hrun : (run Timers.step (Timers.new 1000) longTimer).map (fun r =>
      decide (r.1.world.wheel.msUntilNextExpire 1095 = some 91 ∧ r.1.world.clock ≤ 1095 ∧
        r.1.world.wheel.entries = [(0, 1100)] ∧ live r.1.world.events 0 = true ∧
        (r.1.world.events 0).arriveTime = 1100)) = some true := by decide +kernel
  obtain ⟨⟨m, es⟩, hm, heq⟩ := Option.map_eq_some_iff.mp hrun
  obtain ⟨hms, hclock, hentries, hlive, harrive⟩ :
    m.world.wheel.msUntilNextExpire 1095 = some 91 ∧ m.world.clock ≤ 1095 ∧
      m.world.wheel.entries = [(0, 1100)] ∧ live m.world.events 0 = true ∧
      (m.world.events 0).arriveTime = 1100 := of_decide_eq_true heq
  have hwait := (h 1000 longTimer m es 1095 (by decide) hm hclock).2 91 hms (0, 1100)
    (by simp [hentries]) hlive
  rw [harrive] at hwait
  exact absurd hwait (by decide)

end RocketRpc.Loop
