import RocketRpc.Timer.WheelRun

/-
  Timers are not lost, not doubled and not late.

  Three facts about one event that is not repeated, along any run: its entries, its places in
  the batch and its callbacks together are no more than its calls of `addEvent`
  (`step_counted`); from its insertion on it is in the wheel with a deadline at most one tick
  late, or in the batch, or has run, or is cancelled (`step_kept`); and a cancelled event
  never runs (`step_cancelled`). `timer_exactly_once` puts them together.
-/

namespace RocketRpc.Timer

open Deadlines Machine TimingWheel

def Event.isRan (ev : EventId) : Event → Bool
  | .ran e _ _ => e == ev
  | .added _ => false

def Label.isAdd (ev : EventId) : Label → Bool
  | .addEvent e _ _ => e == ev
  | _ => false

/-! ## What does not change -/

/-- What stays of an event that is not repeated: its kind, its callback and its arrival time;
    and once cancelled it stays cancelled. -/
structure SameTimer (w w' : World) (ev : EventId) : Prop where
  isRepeated : (w'.events ev).isRepeated = (w.events ev).isRepeated
  task : (w'.events ev).task = (w.events ev).task
  arriveTime : (w.events ev).isRepeated = false →
    (w'.events ev).arriveTime = (w.events ev).arriveTime
  isCancelled : (w.events ev).isCancelled = true → (w'.events ev).isCancelled = true

theorem SameTimer.of_events_eq {w w' : World} {ev : EventId} (h : w'.events ev = w.events ev) :
    SameTimer w w' ev := by
  constructor <;> intros <;> simp_all

theorem step_sameTimer {w w' : World} {l : Label} {es : List Event}
    (h : step w l = some (w', es)) (ev : EventId) : SameTimer w w' ev := by
  cases steps_of_step h with
  | addEvent h₁ h₂ => exact .of_events_eq rfl
  | cancelEvent =>
    rename_i e
    by_cases he : ev = e
    · subst he
      have hself : (w.cancelEvent ev).events ev = (w.events ev).cancel :=
        Function.update_self _ _ _
      constructor <;> intros <;> simp_all [TimerEvent.cancel]
    · exact .of_events_eq (Function.update_of_ne he _ _)
  | fireExpired hnone hnow => exact .of_events_eq rfl
  | skipped hf hc => exact .of_events_eq rfl
  | called hf hc => exact .of_events_eq rfl
  | done hf hno => exact .of_events_eq rfl
  | rearmed hf hrep hc h₀ h₁ h₂ =>
    rename_i now t₀ t₁ t₂ e rest
    by_cases he : ev = e
    · subst he
      have hself : (({ w with firing := some ⟨now, rest, none⟩ } : World).rearm ev t₀ t₁ t₂).events
          ev = (w.events ev).resetArriveTime t₀ := Function.update_self _ _ _
      constructor <;> intros <;> simp_all [TimerEvent.resetArriveTime]
    · exact .of_events_eq (Function.update_of_ne he _ _)
  | fireEnd hf => exact .of_events_eq rfl

theorem rearm_live {events : Events} {ev : EventId} (h : (events ev).isCancelled = false)
    (t₀ : Int) : ((Function.update events ev ((events ev).resetArriveTime t₀)) ev).isCancelled =
      false := by
  rw [Function.update_self]
  exact h

/-! ## The clock of the wheel -/

/-- On a clock with positive times, a wheel whose clock is not set is empty. -/
structure Started (w : World) : Prop where
  clock_pos : 0 < w.clock
  last_nonneg : 0 ≤ w.wheel.lastTickMs
  last_le : w.wheel.lastTickMs ≤ w.clock
  unset : w.wheel.lastTickMs = 0 → w.wheel.entries = []

theorem started_init (events : Events) {clock : Int} (h : 0 < clock) :
    Started (World.init events clock) :=
  ⟨h, Int.le_refl _, Int.le_of_lt h, fun _ => entries_new⟩

theorem Started.wheel_started {w : World} (h : Started w) {now : Int} (hnow : w.clock ≤ now) :
    0 < (w.wheel.started now).lastTickMs ∧ (w.wheel.started now).lastTickMs ≤ now ∧
      (w.wheel.started now).entries = w.wheel.entries := by
  refine ⟨?_, ?_, started_entries_of_nil w.wheel now h.unset⟩
  · have := h.clock_pos
    have := h.last_nonneg
    unfold TimingWheel.started
    split
    · simp only
      omega
    · omega
  · unfold TimingWheel.started
    split
    · exact Int.le_refl _
    · exact Int.le_trans h.last_le hnow

/-- An insertion adds one entry, with a deadline at most one tick after the arrival time, or
    after the call if the event has arrived by then. -/
theorem Started.addEvent_entries {w : World} (h : Started w) (events : Events) {ev : EventId}
    {t₁ t₂ : Int} (h₁ : w.clock ≤ t₁) (h₂ : t₁ ≤ t₂) (hc : (events ev).isCancelled = false) :
    ∃ D ≤ max (events ev).arriveTime t₁ + kTickMs,
      (w.wheel.addEvent events ev t₁ t₂).entries.Perm ((ev, D) :: w.wheel.entries) := by
  obtain ⟨-, hlast, hentries⟩ := h.wheel_started h₁
  refine ⟨(w.wheel.started t₁).turn (events ev).arriveTime t₂, ?_, ?_⟩
  · have htick : kTickMs = 10 := rfl
    simp only [turn, htick]
    split
    · omega
    split
    · omega
    · omega
  · rw [TimingWheel.addEvent, if_neg (by simp [hc]), ← hentries]
    exact schedule_entries _ ev _ t₂

theorem Started.addEvent_lastTickMs {w : World} (h : Started w) (events : Events) {ev : EventId}
    {t₁ t₂ : Int} (h₁ : w.clock ≤ t₁) (h₂ : t₁ ≤ t₂) (hc : (events ev).isCancelled = false) :
    0 < (w.wheel.addEvent events ev t₁ t₂).lastTickMs ∧
      (w.wheel.addEvent events ev t₁ t₂).lastTickMs ≤ t₂ := by
  obtain ⟨hpos, hlast, -⟩ := h.wheel_started h₁
  rw [TimingWheel.addEvent, if_neg (by simp [hc]), schedule_lastTickMs]
  exact ⟨hpos, Int.le_trans hlast h₂⟩

theorem addEvent_of_cancelled {wheel : TimingWheel} {events : Events} {ev : EventId}
    (t₁ t₂ : Int) (hc : (events ev).isCancelled = true) :
    wheel.addEvent events ev t₁ t₂ = wheel := by
  rw [TimingWheel.addEvent, hc, if_pos rfl]

theorem step_started {w w' : World} {l : Label} {es : List Event} (h : Started w)
    (hstep : step w l = some (w', es)) : Started w' := by
  have hpos := h.clock_pos
  have added : ∀ (events : Events) (ev : EventId) (t₁ t₂ : Int) (f : Option Firing),
      w.clock ≤ t₁ → t₁ ≤ t₂ →
      Started ⟨events, w.wheel.addEvent events ev t₁ t₂, t₂, f⟩ := by
    intro events ev t₁ t₂ f h₁ h₂
    cases hc : (events ev).isCancelled with
    | true =>
      rw [addEvent_of_cancelled t₁ t₂ hc]
      have := h.last_le
      exact ⟨by simp only; omega, h.last_nonneg, by simp only; omega, h.unset⟩
    | false =>
      obtain ⟨hpos', hle⟩ := h.addEvent_lastTickMs events h₁ h₂ hc
      exact ⟨by simp only; omega, Int.le_of_lt hpos', hle,
        fun hz => absurd hz (by simp only; omega)⟩
  cases steps_of_step hstep with
  | addEvent h₁ h₂ => exact added _ _ _ _ _ h₁ h₂
  | cancelEvent =>
    rename_i ev
    refine ⟨h.clock_pos, h.last_nonneg, h.last_le, ?_⟩
    intro hz
    have hsub := (eraseOverflow_entries w.wheel ev (w.events ev).arriveTime).1
    rw [h.unset hz] at hsub
    exact List.sublist_nil.mp hsub
  | fireExpired hnone hnow =>
    rename_i now
    obtain ⟨hle, hmono⟩ := collect_lastTickMs w.events w.wheel now
    have := h.last_nonneg
    have := h.last_le
    have hlast : 0 < (collect w.events w.wheel now).1.lastTickMs := by
      by_cases hz : w.wheel.lastTickMs = 0
      · rw [collect_unset w.events now hz]
        exact (h.wheel_started hnow).1
      · have := hmono hz
        omega
    refine ⟨?_, Int.le_of_lt hlast, ?_, fun hz => absurd hz ?_⟩
    · simp only [World.fireExpired]
      omega
    · simp only [World.fireExpired]
      omega
    · simp only [World.fireExpired]
      omega
  | skipped hf hc => exact ⟨h.clock_pos, h.last_nonneg, h.last_le, h.unset⟩
  | called hf hc => exact ⟨h.clock_pos, h.last_nonneg, h.last_le, h.unset⟩
  | done hf hno => exact ⟨h.clock_pos, h.last_nonneg, h.last_le, h.unset⟩
  | rearmed hf hrep hc h₀ h₁ h₂ => exact added _ _ _ _ _ (Int.le_trans h₀ h₁) h₂
  | fireEnd hf => exact ⟨h.clock_pos, h.last_nonneg, h.last_le, h.unset⟩

/-! ## Not twice -/

/-- How many entries of the wheel are of the event. -/
def pending (w : World) (ev : EventId) : Nat := w.wheel.entries.countP fun p => p.1 == ev

/-- How many places it has in the rest of the batch. -/
def batched (w : World) (ev : EventId) : Nat :=
  match w.firing with
  | none => 0
  | some f => f.expired.count ev

/-- The entries and the batch come from the calls of `addEvent` that no callback has used up. -/
def Counted (ev : EventId) (w : World) (tr : List Event) : Prop :=
  pending w ev + batched w ev + tr.countP (Event.isRan ev) ≤ tr.count (.added ev)

/-- What `fireExpired` takes out and what it leaves are no more than there was. -/
theorem count_collect (events : Events) {wheel : TimingWheel} (now : Int) (ev : EventId)
    (h : wheel.lastTickMs ≠ 0) :
    (collect events wheel now).1.entries.countP (fun p => p.1 == ev) +
      (collect events wheel now).2.count ev ≤ wheel.entries.countP fun p => p.1 == ev := by
  obtain ⟨hleft, hout⟩ := collect_entries events now h
  have hbatch : (collect events wheel now).2.count ev ≤
      (wheel.entries.filter fun p => decide (p.2 ≤ now)).countP fun p => p.1 == ev := by
    rw [hout]
    refine Nat.le_trans (List.filter_sublist.count_le ev) (Nat.le_of_eq ?_)
    rw [List.count, List.countP_map]
    rfl
  have hsplit := List.countP_eq_countP_filter_add wheel.entries (fun p => p.1 == ev)
    fun p => decide (p.2 ≤ now)
  have hnot : (fun p : EventId × Int => !decide (p.2 ≤ now)) = fun p => decide (now < p.2) := by
    funext p
    rw [← decide_not]
    exact decide_eq_decide.mpr Int.not_le
  rw [hnot] at hsplit
  rw [hleft]
  omega

theorem batched_of_firing {w : World} {now : Int} {expired : List EventId}
    {running : Option EventId} (hf : w.firing = some ⟨now, expired, running⟩) (ev : EventId) :
    batched w ev = expired.count ev := by
  simp only [batched, hf]

/-- Insertions bring one entry of their event. -/
theorem Started.count_addEvent {w : World} (h : Started w) (events : Events) (ev : EventId)
    {e : EventId} {t₁ t₂ : Int} (h₁ : w.clock ≤ t₁) (h₂ : t₁ ≤ t₂)
    (hc : (events e).isCancelled = false) :
    (w.wheel.addEvent events e t₁ t₂).entries.countP (fun p => p.1 == ev) =
      pending w ev + if e == ev then 1 else 0 := by
  obtain ⟨D, -, hperm⟩ := h.addEvent_entries events h₁ h₂ hc
  rw [hperm.countP_eq, List.countP_cons]
  rfl

/-- What `fireExpired` puts into the batch comes out of the wheel. -/
theorem Started.count_fireExpired {w : World} (h : Started w) (ev : EventId) {now : Int}
    (hnow : w.clock ≤ now) :
    pending (w.fireExpired now) ev + batched (w.fireExpired now) ev ≤ pending w ev := by
  by_cases hz : w.wheel.lastTickMs = 0
  · have hnil := (h.wheel_started hnow).2.2
    rw [h.unset hz] at hnil
    simp only [pending, batched, World.fireExpired, collect_unset w.events now hz, hnil]
    simp
  · exact count_collect w.events now ev hz

theorem step_counted {w w' : World} {l : Label} {tr es : List Event} {ev : EventId}
    (h : Counted ev w tr) (hs : Started w) (hone : (w.events ev).isRepeated = false)
    (hstep : step w l = some (w', es)) : Counted ev w' (tr ++ es) := by
  unfold Counted at h ⊢
  rw [List.countP_append, List.count_append]
  -- while a batch is worked off, the wheel stays
  have hwheel : ∀ firing, pending { w with firing } ev = pending w ev := fun _ => rfl
  cases steps_of_step hstep with
  | @addEvent e t₁ t₂ h₁ h₂ =>
    have hbatch : batched (w.addEvent e t₁ t₂) ev = batched w ev := rfl
    have hran : [Event.added e].countP (Event.isRan ev) = 0 := rfl
    cases hc : (w.events e).isCancelled with
    | true =>
      have hpend : pending (w.addEvent e t₁ t₂) ev = pending w ev := by
        simp only [pending, World.addEvent, addEvent_of_cancelled t₁ t₂ hc]
      omega
    | false =>
      have hpend : pending (w.addEvent e t₁ t₂) ev = pending w ev + if e == ev then 1 else 0 :=
        hs.count_addEvent w.events ev h₁ h₂ hc
      have hadd : [Event.added e].count (.added ev) = if e == ev then 1 else 0 := by
        rw [List.count_singleton]
        simp
      omega
  | @cancelEvent e =>
    have hsub := (eraseOverflow_entries w.wheel e (w.events e).arriveTime).1
    have hpend : pending (w.cancelEvent e) ev ≤ pending w ev := hsub.countP_le
    have hbatch : batched (w.cancelEvent e) ev = batched w ev := rfl
    simp only [List.countP_nil, List.count_nil]
    omega
  | fireExpired hnone hnow =>
    have hb : batched w ev = 0 := by rw [batched, hnone]
    have htaken := hs.count_fireExpired ev hnow
    simp only [List.countP_nil, List.count_nil]
    omega
  | skipped hf hc =>
    rw [batched_of_firing hf, List.count_cons] at h
    rw [hwheel, batched_of_firing rfl]
    simp only [List.countP_nil, List.count_nil]
    omega
  | @called now e rest hf hc =>
    rw [batched_of_firing hf, List.count_cons] at h
    rw [hwheel, batched_of_firing rfl]
    have hran : (if (w.events e).task then [Event.ran e now (w.events e).arriveTime]
        else []).countP (Event.isRan ev) ≤ if e == ev then 1 else 0 := by
      split
      · simp [List.countP_cons, Event.isRan]
      · simp
    omega
  | done hf hno =>
    rw [batched_of_firing hf] at h
    rw [hwheel, batched_of_firing rfl]
    simp only [List.countP_nil, List.count_nil]
    omega
  | @rearmed now t₀ t₁ t₂ e rest hf hrep hc h₀ h₁ h₂ =>
    have hne : (e == ev) = false := by
      rw [beq_eq_false_iff_ne]
      rintro rfl
      rw [hone] at hrep
      exact absurd hrep (by simp)
    have hpend : pending (({ w with firing := some ⟨now, rest, none⟩ } : World).rearm e t₀ t₁ t₂)
        ev = pending w ev + if e == ev then 1 else 0 :=
      hs.count_addEvent _ ev (Int.le_trans h₀ h₁) h₂ (rearm_live hc t₀)
    rw [hne, if_neg Bool.false_ne_true, Nat.add_zero] at hpend
    have hb : batched (({ w with firing := some ⟨now, rest, none⟩ } : World).rearm e t₀ t₁ t₂)
        ev = rest.count ev := rfl
    rw [batched_of_firing hf] at h
    simp only [List.countP_nil, List.count_nil]
    omega
  | fireEnd hf =>
    have hb : batched { w with firing := none } ev = 0 := rfl
    rw [hwheel]
    simp only [List.countP_nil, List.count_nil]
    omega

/-! ## Not lost -/

/-- The event is cancelled, or has run, or is in the batch, or is in the wheel with a deadline
    up to `B`. -/
def Kept (ev : EventId) (B : Int) (w : World) (tr : List Event) : Prop :=
  (w.events ev).isCancelled = true ∨ (∃ e ∈ tr, e.isRan ev = true) ∨
    (∃ f, w.firing = some f ∧ ev ∈ f.expired) ∨ ∃ D ≤ B, (ev, D) ∈ w.wheel.entries

/-- The same without the wheel: the event has been taken out. -/
def TakenOut (ev : EventId) (w : World) (tr : List Event) : Prop :=
  (w.events ev).isCancelled = true ∨ (∃ e ∈ tr, e.isRan ev = true) ∨
    ∃ f, w.firing = some f ∧ ev ∈ f.expired

theorem TakenOut.kept {ev : EventId} {B : Int} {w : World} {tr : List Event}
    (h : TakenOut ev w tr) : Kept ev B w tr := by
  rcases h with h | h | h
  · exact Or.inl h
  · exact Or.inr (Or.inl h)
  · exact Or.inr (Or.inr (Or.inl h))

/-- An event that was taken out has run, or is cancelled, or is still in the batch. -/
theorem step_takenOut {w w' : World} {l : Label} {tr es : List Event} {ev : EventId}
    (h : TakenOut ev w tr) (htask : (w.events ev).task = true)
    (hstep : step w l = some (w', es)) : TakenOut ev w' (tr ++ es) := by
  rcases h with h | ⟨e, he, hran⟩ | ⟨f, hf, hmem⟩
  · exact Or.inl ((step_sameTimer hstep ev).isCancelled h)
  · exact Or.inr (Or.inl ⟨e, List.mem_append_left _ he, hran⟩)
  cases steps_of_step hstep with
  | addEvent h₁ h₂ => exact Or.inr (Or.inr ⟨f, hf, hmem⟩)
  | cancelEvent => exact Or.inr (Or.inr ⟨f, hf, hmem⟩)
  | fireExpired hnone hnow =>
    rw [hnone] at hf
    simp at hf
  | skipped hf' hc =>
    obtain rfl := Option.some.inj (hf'.symm.trans hf)
    rcases List.mem_cons.mp hmem with rfl | hmem
    · exact Or.inl hc
    · exact Or.inr (Or.inr ⟨_, rfl, hmem⟩)
  | called hf' hc =>
    rename_i now e rest
    obtain rfl := Option.some.inj (hf'.symm.trans hf)
    rcases List.mem_cons.mp hmem with rfl | hmem
    · refine Or.inr (Or.inl ⟨.ran ev now (w.events ev).arriveTime,
        List.mem_append_right _ ?_, ?_⟩)
      · rw [if_pos htask]
        exact List.mem_singleton_self _
      · simp [Event.isRan]
    · exact Or.inr (Or.inr ⟨_, rfl, hmem⟩)
  | done hf' hno =>
    obtain rfl := Option.some.inj (hf'.symm.trans hf)
    exact Or.inr (Or.inr ⟨_, rfl, hmem⟩)
  | rearmed hf' hrep hc h₀ h₁ h₂ =>
    obtain rfl := Option.some.inj (hf'.symm.trans hf)
    exact Or.inr (Or.inr ⟨_, rfl, hmem⟩)
  | fireEnd hf' =>
    obtain rfl := Option.some.inj (hf'.symm.trans hf)
    simp at hmem

/-- `fireExpired(now)` takes out an event with a deadline up to `now`. -/
theorem fireExpired_takesOut {w : World} {ev : EventId} {D now : Int} {tr : List Event}
    (hs : Started w) (hmem : (ev, D) ∈ w.wheel.entries) (hD : D ≤ now) :
    TakenOut ev (w.fireExpired now) tr := by
  cases hc : (w.events ev).isCancelled with
  | true => exact Or.inl hc
  | false =>
    have hz : w.wheel.lastTickMs ≠ 0 := by
      intro hz
      rw [hs.unset hz] at hmem
      simp at hmem
    refine Or.inr (Or.inr ⟨_, rfl, ?_⟩)
    simp only [(collect_entries w.events now hz).2, List.mem_filter, List.mem_map]
    exact ⟨⟨(ev, D), ⟨hmem, decide_eq_true hD⟩, rfl⟩, by simp [live, hc]⟩

theorem step_kept {w w' : World} {l : Label} {tr es : List Event} {ev : EventId} {B : Int}
    (h : Kept ev B w tr) (hs : Started w) (htask : (w.events ev).task = true)
    (hstep : step w l = some (w', es)) : Kept ev B w' (tr ++ es) := by
  rcases h with h | h | h | ⟨D, hD, hmem⟩
  · exact (step_takenOut (Or.inl h) htask hstep).kept
  · exact (step_takenOut (Or.inr (Or.inl h)) htask hstep).kept
  · exact (step_takenOut (Or.inr (Or.inr h)) htask hstep).kept
  have added : ∀ (events : Events) (e : EventId) (t₁ t₂ : Int), w.clock ≤ t₁ → t₁ ≤ t₂ →
      (ev, D) ∈ (w.wheel.addEvent events e t₁ t₂).entries := by
    intro events e t₁ t₂ h₁ h₂
    cases hc : (events e).isCancelled with
    | true =>
      rw [addEvent_of_cancelled t₁ t₂ hc]
      exact hmem
    | false =>
      obtain ⟨D', -, hperm⟩ := hs.addEvent_entries events h₁ h₂ hc
      exact hperm.mem_iff.mpr (List.mem_cons_of_mem _ hmem)
  cases steps_of_step hstep with
  | addEvent h₁ h₂ => exact Or.inr (Or.inr (Or.inr ⟨D, hD, added _ _ _ _ h₁ h₂⟩))
  | cancelEvent =>
    rename_i e
    by_cases he : ev = e
    · subst he
      refine Or.inl ?_
      show ((Function.update w.events ev (w.events ev).cancel) ev).isCancelled = true
      rw [Function.update_self]
      rfl
    · have hiff := (eraseOverflow_entries w.wheel e (w.events e).arriveTime).2 ev D he
      exact Or.inr (Or.inr (Or.inr ⟨D, hD, hiff.mpr hmem⟩))
  | fireExpired hnone hnow =>
    rename_i now
    rcases Int.lt_or_le now D with hlt | hle
    · by_cases hz : w.wheel.lastTickMs = 0
      · rw [hs.unset hz] at hmem
        simp at hmem
      · refine Or.inr (Or.inr (Or.inr ⟨D, hD, ?_⟩))
        show (ev, D) ∈ (collect w.events w.wheel now).1.entries
        rw [(collect_entries w.events now hz).1]
        exact List.mem_filter.mpr ⟨hmem, decide_eq_true hlt⟩
    · exact (fireExpired_takesOut hs hmem hle).kept
  | skipped hf hc => exact Or.inr (Or.inr (Or.inr ⟨D, hD, hmem⟩))
  | called hf hc => exact Or.inr (Or.inr (Or.inr ⟨D, hD, hmem⟩))
  | done hf hno => exact Or.inr (Or.inr (Or.inr ⟨D, hD, hmem⟩))
  | rearmed hf hrep hc h₀ h₁ h₂ =>
    exact Or.inr (Or.inr (Or.inr ⟨D, hD, added _ _ _ _ (Int.le_trans h₀ h₁) h₂⟩))
  | fireEnd hf => exact Or.inr (Or.inr (Or.inr ⟨D, hD, hmem⟩))

/-! ## Not after a cancellation -/

theorem step_cancelled {w w' : World} {l : Label} {es : List Event} {ev : EventId}
    (h : (w.events ev).isCancelled = true) (hstep : step w l = some (w', es)) :
    (w'.events ev).isCancelled = true ∧ es.countP (Event.isRan ev) = 0 := by
  refine ⟨(step_sameTimer hstep ev).isCancelled h, ?_⟩
  cases steps_of_step hstep with
  | called hf hc =>
    rename_i now e rest
    split
    · rw [List.countP_singleton, if_neg]
      simp only [Event.isRan, beq_iff_eq]
      rintro rfl
      rw [h] at hc
      exact absurd hc (by simp)
    · rfl
  | _ => rfl

/-! ## Whole runs -/

/-- What a run keeps of an event that is not repeated and has a callback. -/
structure OneShot (events : Events) (ev : EventId) (w : World) : Prop where
  started : Started w
  isRepeated : (w.events ev).isRepeated = false
  task : (w.events ev).task = true
  arriveTime : (w.events ev).arriveTime = (events ev).arriveTime

theorem step_oneShot {events : Events} {ev : EventId} {w w' : World} {l : Label}
    {es : List Event} (h : OneShot events ev w) (hstep : step w l = some (w', es)) :
    OneShot events ev w' := by
  have hsame := step_sameTimer hstep ev
  exact ⟨step_started h.started hstep, hsame.isRepeated.trans h.isRepeated,
    hsame.task.trans h.task, (hsame.arriveTime h.isRepeated).trans h.arriveTime⟩

theorem run_oneShot {events : Events} {ev : EventId} {w w' : World} {ls : List Label}
    {es : List Event} (h : OneShot events ev w) (hrun : run step w ls = some (w', es)) :
    OneShot events ev w' :=
  run_invariant (OneShot events ev) (fun _ _ _ _ hi hs => step_oneShot hi hs) h hrun

theorem run_counted {events : Events} {ev : EventId} {w w' : World} {ls : List Label}
    {es : List Event} (tr : List Event) (h : OneShot events ev w) (hc : Counted ev w tr)
    (hrun : run step w ls = some (w', es)) : Counted ev w' (tr ++ es) := by
  have hinv := run_induction (fun w tr => OneShot events ev w ∧ Counted ev w tr)
    (fun w tr l w' es hp hs =>
      ⟨step_oneShot hp.1 hs, step_counted hp.2 hp.1.started hp.1.isRepeated hs⟩)
    tr ⟨h, hc⟩ hrun
  exact hinv.2

theorem run_kept {events : Events} {ev : EventId} {w w' : World} {ls : List Label} {B : Int}
    {es : List Event} (tr : List Event) (h : OneShot events ev w) (hk : Kept ev B w tr)
    (hrun : run step w ls = some (w', es)) : Kept ev B w' (tr ++ es) := by
  have hinv := run_induction (fun w tr => OneShot events ev w ∧ Kept ev B w tr)
    (fun w tr l w' es hp hs =>
      ⟨step_oneShot hp.1 hs, step_kept hp.2 hp.1.started hp.1.task hs⟩)
    tr ⟨h, hk⟩ hrun
  exact hinv.2

theorem run_takenOut {events : Events} {ev : EventId} {w w' : World} {ls : List Label}
    {es : List Event} (tr : List Event) (h : OneShot events ev w) (hk : TakenOut ev w tr)
    (hrun : run step w ls = some (w', es)) : TakenOut ev w' (tr ++ es) := by
  have hinv := run_induction (fun w tr => OneShot events ev w ∧ TakenOut ev w tr)
    (fun w tr l w' es hp hs => ⟨step_oneShot hp.1 hs, step_takenOut hp.2 hp.1.task hs⟩)
    tr ⟨h, hk⟩ hrun
  exact hinv.2

theorem run_cancelled {ev : EventId} {w w' : World} {ls : List Label} {es : List Event}
    (h : (w.events ev).isCancelled = true) (hrun : run step w ls = some (w', es)) :
    es.countP (Event.isRan ev) = 0 := by
  have hinv := run_induction
    (fun w tr => (w.events ev).isCancelled = true ∧ tr.countP (Event.isRan ev) = 0)
    (fun w tr l w' es hp hs => by
      obtain ⟨hc, hes⟩ := step_cancelled hp.1 hs
      exact ⟨hc, by rw [List.countP_append, hp.2, hes]⟩)
    [] ⟨h, rfl⟩ hrun
  exact hinv.2

/-- A run shows as many additions of the event as it has calls that add it. -/
theorem run_added {ev : EventId} {w w' : World} {ls : List Label} {es : List Event}
    (hrun : run step w ls = some (w', es)) :
    es.count (.added ev) = ls.countP (Label.isAdd ev) := by
  induction ls generalizing w es with
  | nil =>
    obtain ⟨-, rfl⟩ : w = w' ∧ [] = es := by simpa using hrun
    rfl
  | cons l ls ih =>
    obtain ⟨u, es₁, es₂, hs, hrest, rfl⟩ := run_cons_eq_some.mp hrun
    rw [List.count_append, ih hrest, List.countP_cons, Nat.add_comm]
    congr 1
    cases steps_of_step hs with
    | addEvent h₁ h₂ =>
      rw [List.count_singleton]
      simp [Label.isAdd]
    | called hf hc =>
      split <;> rfl
    | _ => rfl

theorem oneShot_init {events : Events} {clock : Int} {ev : EventId} (hclock : 0 < clock)
    (hone : (events ev).isRepeated = false) (htask : (events ev).task = true) :
    OneShot events ev (World.init events clock) :=
  ⟨started_init events hclock, hone, htask, rfl⟩

/-- A timer that is not repeated and is added once runs at most once; if it is not cancelled,
    it has run when a `fireExpired(now)` returns that was called after the insertion at least
    a tick after its arrival; and it does not run after it was cancelled. -/
theorem timer_exactly_once (events : Events) (clock : Int) (ev : EventId) (ls₁ ls₂ : List Label)
    (t₁ t₂ : Int) (w : World) (es : List Event) (hclock : 0 < clock)
    (hone : (events ev).isRepeated = false) (htask : (events ev).task = true)
    (hrun : run step (World.init events clock) (ls₁ ++ .addEvent ev t₁ t₂ :: ls₂) = some (w, es))
    (honce : ∀ s₁ s₂, Label.addEvent ev s₁ s₂ ∉ ls₁ ++ ls₂) :
    es.countP (Event.isRan ev) ≤ 1 ∧
      (∀ ms now ns, ls₂ = ms ++ .fireExpired now :: ns → w.firing = none →
        (w.events ev).isCancelled = false →
        max (events ev).arriveTime t₁ + kTickMs ≤ now → es.countP (Event.isRan ev) = 1) ∧
      ∀ ms ns u us vs, ls₁ ++ .addEvent ev t₁ t₂ :: ls₂ = ms ++ .cancelEvent ev :: ns →
        run step (World.init events clock) (ms ++ [.cancelEvent ev]) = some (u, us) →
        run step u ns = some (w, vs) → vs.countP (Event.isRan ev) = 0 := by
  have hinit := oneShot_init hclock hone htask
  have hadds : (ls₁ ++ Label.addEvent ev t₁ t₂ :: ls₂).countP (Label.isAdd ev) = 1 := by
    have hnone : ∀ l ∈ ls₁ ++ ls₂, ¬ Label.isAdd ev l = true := by
      intro l hl hadd
      cases l with
      | addEvent e s₁ s₂ =>
        rw [Label.isAdd, beq_iff_eq] at hadd
        exact honce s₁ s₂ (hadd ▸ hl)
      | _ => exact absurd hadd (by simp [Label.isAdd])
    have hzero := List.countP_eq_zero.mpr hnone
    rw [List.countP_append] at hzero ⊢
    rw [List.countP_cons]
    simp only [Label.isAdd, beq_self_eq_true, if_true]
    omega
  have hle : es.countP (Event.isRan ev) ≤ 1 := by
    have hcount := run_counted [] hinit (by simp [Counted, pending, batched, World.init]) hrun
    rw [Counted, List.nil_append, run_added hrun, hadds] at hcount
    omega
  refine ⟨hle, ?_, ?_⟩
  · rintro ms now ns rfl hnone hlive hnow
    -- the run cut at the insertion and at the call of `fireExpired`
    obtain ⟨u₁, es₁, es₂, hrun₁, hrun₂, rfl⟩ := run_append.mp hrun
    obtain ⟨u₂, es₃, es₄, hadd, hrest, rfl⟩ := run_cons_eq_some.mp hrun₂
    obtain ⟨u₃, es₅, es₆, hrun₃, hend, rfl⟩ := run_append.mp hrest
    obtain ⟨u₄, es₇, es₈, hfire, hrun₄, rfl⟩ := run_cons_eq_some.mp hend
    have h₁ := run_oneShot hinit hrun₁
    have h₂ := step_oneShot h₁ hadd
    have h₃ := run_oneShot h₂ hrun₃
    have h₄ := step_oneShot h₃ hfire
    have hkept : Kept ev (max (events ev).arriveTime t₁ + kTickMs) u₂ [] := by
      cases steps_of_step hadd with
      | addEvent hc₁ hc₂ =>
        cases hc : (u₁.events ev).isCancelled with
        | true => exact Or.inl hc
        | false =>
          obtain ⟨D, hD, hperm⟩ := h₁.started.addEvent_entries u₁.events hc₁ hc₂ hc
          rw [h₁.arriveTime] at hD
          exact Or.inr (Or.inr (Or.inr ⟨D, hD, hperm.mem_iff.mpr List.mem_cons_self⟩))
    have hout : TakenOut ev u₄ ([] ++ es₅) := by
      cases steps_of_step hfire with
      | fireExpired hidle hclock' =>
        rcases run_kept [] h₂ hkept hrun₃ with h | h | ⟨f, hf, -⟩ | ⟨D, hD, hmem⟩
        · exact Or.inl h
        · exact Or.inr (Or.inl h)
        · rw [hidle] at hf
          exact absurd hf (by simp)
        · exact fireExpired_takesOut h₃.started hmem (Int.le_trans hD hnow)
    have hran : ∃ e ∈ es₅ ++ es₈, e.isRan ev = true := by
      rcases run_takenOut _ h₄ hout hrun₄ with h | h | ⟨f, hf, -⟩
      · rw [hlive] at h
        exact absurd h (by simp)
      · simpa using h
      · rw [hnone] at hf
        exact absurd hf (by simp)
    have hpos : 0 < (es₅ ++ es₈).countP (Event.isRan ev) := List.countP_pos_iff.mpr hran
    simp only [List.countP_append] at hle hpos ⊢
    omega
  · intro ms ns u us vs _ hu hv
    obtain ⟨u', us₁, us₂, -, hcancel, -⟩ := run_append.mp hu
    obtain ⟨u'', us₃, us₄, hstep, hnil, -⟩ := run_cons_eq_some.mp hcancel
    obtain ⟨rfl, -⟩ : u'' = u ∧ [] = us₄ := by simpa using hnil
    refine run_cancelled ?_ hv
    cases steps_of_step hstep with
    | cancelEvent =>
      show ((Function.update u'.events ev (u'.events ev).cancel) ev).isCancelled = true
      rw [Function.update_self]
      rfl

/-- A timer of 30 ms. -/
theorem timer_exactly_once_short_timer :
    ∃ w es, run step (World.init (fun _ => ⟨1030, 30, false, false, true⟩) 1000)
        ([] ++ .addEvent 0 1000 1000 :: ([] ++ .fireExpired 1040 :: [.nextExpired,
          .callbackReturns 0 0 0, .fireEnd])) = some (w, es) ∧
      es.countP (Event.isRan 0) ≤ 1 ∧ es.countP (Event.isRan 0) = 1 := by
  have hrun : (run step (World.init (fun _ => ⟨1030, 30, false, false, true⟩) 1000)
      ([] ++ .addEvent 0 1000 1000 :: ([] ++ .fireExpired 1040 :: [.nextExpired,
        .callbackReturns 0 0 0, .fireEnd]))).map
      (fun r => (r.1.firing.isNone, (r.1.events 0).isCancelled)) = some (true, false) := by
    decide +kernel
  obtain ⟨⟨w, es⟩, hw, heq⟩ := Option.map_eq_some_iff.mp hrun
  obtain ⟨hnone, hlive⟩ : w.firing = none ∧ (w.events 0).isCancelled = false := by
    simpa using heq
  obtain ⟨hle, hran, -⟩ := timer_exactly_once (fun _ => ⟨1030, 30, false, false, true⟩) 1000 0
    [] _ 1000 1000 w es (by decide) rfl rfl hw (by simp)
  exact ⟨w, es, hw, hle, hran [] 1040 _ rfl hnone hlive (by decide)⟩

end RocketRpc.Timer
