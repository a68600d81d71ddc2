import RocketRpc.Timer.WheelRun

/-
  When timers are early.

  A slot is counted from the clock of the wheel, which only `fireExpired` moves, but the
  distance to it is computed from the real clock. `InTime` is the condition under which an
  insertion still gets a turn no more than a tick before the arrival of its event. In a run
  whose insertions are all in time no callback is more than a tick early
  (`no_timer_early`); a wheel that was idle for a while breaks the condition
  (`timer_early_after_pause`).
-/

namespace RocketRpc.Timer

open Deadlines Machine TimingWheel

/-- An event that arrives after `t₂` and within the range of the slots gets a turn that is at
    most a tick before its arrival, or has come at `t₂` with the arrival a tick away. -/
def InsertionInTime (wheel : TimingWheel) (arriveTime t₁ t₂ : Int) : Prop :=
  0 < arriveTime - t₂ → arriveTime - t₂ ≤ kL1Range →
    arriveTime - kTickMs ≤
      max ((wheel.started t₁).lastTickMs + kTickMs * ((arriveTime - t₂ - 1) / kTickMs + 1)) t₂

/-- An insertion is in time if the wheel's clock is at most one tick behind. -/
theorem insertionInTime_of_fresh {wheel : TimingWheel} {t₁ t₂ : Int} (arriveTime : Int)
    (h : t₂ - (wheel.started t₁).lastTickMs ≤ kTickMs) :
    InsertionInTime wheel arriveTime t₁ t₂ := by
  have htick : kTickMs = 10 := rfl
  intro _ _
  simp only [htick] at *
  omega

/-- An insertion that is not in time leaves the event where a call of `fireExpired` takes it
    out more than a tick before its arrival. -/
theorem early_of_not_inTime {w : World} {ev : EventId} {t₁ t₂ : Int}
    (hset : (w.wheel.started t₁).lastTickMs ≠ 0) (hc : (w.events ev).isCancelled = false)
    (hlate : ¬ InsertionInTime w.wheel (w.events ev).arriveTime t₁ t₂) :
    ∃ now, t₂ ≤ now ∧ now < (w.events ev).arriveTime - kTickMs ∧
      ev ∈ (collect w.events (w.addEvent ev t₁ t₂).wheel now).2 := by
  simp only [InsertionInTime, Classical.not_imp, Int.not_le] at hlate
  obtain ⟨hfuture, hrange, hearly⟩ := hlate
  refine ⟨_, Int.le_max_right _ _, hearly, ?_⟩
  have hwheel : (w.addEvent ev t₁ t₂).wheel =
      (w.wheel.started t₁).schedule ev (w.events ev).arriveTime t₂ := by
    simp only [World.addEvent, TimingWheel.addEvent, hc]
    rfl
  have hturn : (w.wheel.started t₁).turn (w.events ev).arriveTime t₂ =
      (w.wheel.started t₁).lastTickMs +
        kTickMs * (((w.events ev).arriveTime - t₂ - 1) / kTickMs + 1) := by
    rw [turn, if_neg (by omega), if_pos hrange]
  have hmem := (schedule_entries (w.wheel.started t₁) ev (w.events ev).arriveTime t₂).mem_iff.mpr
    List.mem_cons_self
  rw [hturn] at hmem
  rw [hwheel, (collect_entries w.events _ (by rw [schedule_lastTickMs]; exact hset)).2]
  simp only [List.mem_filter, List.mem_map]
  exact ⟨⟨_, ⟨hmem, decide_eq_true (Int.le_max_left _ _)⟩, rfl⟩, by simp [live, hc]⟩

/-- The insertions of a step are in time; and a repeated event that gets a new arrival time
    has no other entry that comes more than a tick before it. -/
def InTime (w : World) : Label → Prop
  | .addEvent ev t₁ t₂ => (w.events ev).isCancelled = false →
      InsertionInTime w.wheel (w.events ev).arriveTime t₁ t₂
  | .callbackReturns t₀ t₁ t₂ => ∀ now rest ev, w.firing = some ⟨now, rest, some ev⟩ →
      (w.events ev).isRepeated = true → (w.events ev).isCancelled = false →
      let arriveTime := t₀ + (w.events ev).interval
      InsertionInTime w.wheel arriveTime t₁ t₂ ∧
        (∀ D, (ev, D) ∈ w.wheel.entries → arriveTime - kTickMs ≤ max D t₂) ∧
        (ev ∈ rest → arriveTime - kTickMs ≤ now)
  | _ => True

/-- No entry of the wheel and no event of the batch is more than a tick early. -/
structure Punctual (w : World) : Prop where
  started : (w.wheel.lastTickMs = 0 ∧ w.wheel.entries = []) ∨ w.wheel.lastTickMs ≤ w.clock
  pending : ∀ p ∈ w.wheel.entries,
    (w.events p.1).arriveTime - kTickMs ≤ max p.2 w.clock
  batch : ∀ f, w.firing = some f → f.now ≤ w.clock ∧
    ∀ ev ∈ f.expired, (w.events ev).arriveTime - kTickMs ≤ f.now

theorem punctual_init (events : Events) (clock : Int) : Punctual (World.init events clock) where
  started := Or.inl ⟨rfl, entries_new⟩
  pending := by simp [World.init]
  batch := by simp [World.init]

/-- Setting the clock of the wheel keeps what is known of its entries. -/
theorem started_pending {w : World} {now : Int} (h : Punctual w) (hnow : w.clock ≤ now) :
    (w.wheel.started now).lastTickMs ≤ now ∧
      ∀ p ∈ (w.wheel.started now).entries, (w.events p.1).arriveTime - kTickMs ≤ max p.2 now := by
  constructor
  · unfold TimingWheel.started
    split
    · exact Int.le_refl _
    · rename_i hne
      rcases h.started with ⟨hz, -⟩ | hle
      · exact absurd hz hne
      · exact Int.le_trans hle hnow
  · intro p hp
    obtain ⟨D, hD, hmem⟩ := started_entries w.wheel now hp (by
      intro hz
      rcases h.started with ⟨-, hnil⟩ | hle
      · exact Or.inr hnil
      · rw [hz] at hle
        exact Or.inl (Int.le_trans hle hnow))
    have := h.pending _ hmem
    simp only at this
    omega

/-- An insertion in time keeps the entries punctual. -/
theorem addEvent_pending {wheel : TimingWheel} {events : Events} {ev : EventId} {t₁ t₂ : Int}
    (h₂ : t₁ ≤ t₂) (hlast : (wheel.started t₁).lastTickMs ≤ t₁)
    (hstart : ∀ p ∈ (wheel.started t₁).entries,
      (events p.1).arriveTime - kTickMs ≤ max p.2 t₂)
    (hlive : (events ev).isCancelled = false)
    (hin : InsertionInTime wheel (events ev).arriveTime t₁ t₂) :
    (wheel.addEvent events ev t₁ t₂).lastTickMs ≤ t₂ ∧
      ∀ p ∈ (wheel.addEvent events ev t₁ t₂).entries,
        (events p.1).arriveTime - kTickMs ≤ max p.2 t₂ := by
  unfold TimingWheel.addEvent
  rw [if_neg (by simp [hlive])]
  refine ⟨?_, ?_⟩
  · rw [schedule_lastTickMs]
    exact Int.le_trans hlast h₂
  intro p hp
  rcases List.mem_cons.mp ((schedule_entries _ ev _ t₂).mem_iff.mp hp) with rfl | hp
  · have htick : kTickMs = 10 := rfl
    simp only [InsertionInTime] at hin
    simp only [turn]
    split
    · omega
    split
    · exact hin (by omega) (by assumption)
    · omega
  · exact hstart p hp

theorem punctual_addEvent {w : World} {ev : EventId} {t₁ t₂ : Int} (h : Punctual w)
    (h₁ : w.clock ≤ t₁) (h₂ : t₁ ≤ t₂)
    (hin : (w.events ev).isCancelled = false →
      InsertionInTime w.wheel (w.events ev).arriveTime t₁ t₂) :
    Punctual (w.addEvent ev t₁ t₂) := by
  have hbatch : ∀ f, w.firing = some f → f.now ≤ t₂ ∧
      ∀ e ∈ f.expired, (w.events e).arriveTime - kTickMs ≤ f.now := by
    intro f hf
    obtain ⟨hnow, hexp⟩ := h.batch f hf
    exact ⟨by omega, hexp⟩
  cases hc : (w.events ev).isCancelled with
  | true =>
    have hsame : w.wheel.addEvent w.events ev t₁ t₂ = w.wheel := by
      rw [TimingWheel.addEvent, hc, if_pos rfl]
    refine ⟨?_, ?_, hbatch⟩
    · show (TimingWheel.addEvent w.events w.wheel ev t₁ t₂).lastTickMs = 0 ∧ _ ∨ _
      rw [World.addEvent, hsame]
      rcases h.started with hz | hle
      · exact Or.inl hz
      · exact Or.inr (by simp only; omega)
    · intro p hp
      rw [World.addEvent, hsame] at hp
      have := h.pending p hp
      simp only [World.addEvent]
      omega
  | false =>
    obtain ⟨hlast, hstart⟩ := started_pending h h₁
    obtain ⟨hclock, hpend⟩ := addEvent_pending h₂ hlast (fun p hp => by
      have := hstart p hp
      omega) hc (hin hc)
    exact ⟨Or.inr hclock, hpend, hbatch⟩

@[simp] theorem cancelEvent_arriveTime (w : World) (ev e : EventId) :
    ((w.cancelEvent ev).events e).arriveTime = (w.events e).arriveTime := by
  simp only [World.cancelEvent, Function.update_apply]
  split
  · rename_i he
    rw [he]
    rfl
  · rfl

theorem punctual_cancelEvent {w : World} (h : Punctual w) (ev : EventId) :
    Punctual (w.cancelEvent ev) := by
  have hsub := (eraseOverflow_entries w.wheel ev (w.events ev).arriveTime).1
  refine ⟨?_, ?_, ?_⟩
  · rcases h.started with ⟨hz, hnil⟩ | hle
    · rw [hnil] at hsub
      exact Or.inl ⟨hz, List.sublist_nil.mp hsub⟩
    · exact Or.inr hle
  · intro p hp
    rw [cancelEvent_arriveTime]
    exact h.pending p (hsub.subset hp)
  · intro f hf
    simp only [cancelEvent_arriveTime]
    exact h.batch f hf

/-- The batch of `fireExpired(now)` is punctual, because its entries are due. -/
theorem punctual_fireExpired {w : World} {now : Int} (h : Punctual w) (hnow : w.clock ≤ now) :
    Punctual (w.fireExpired now) := by
  by_cases hz : w.wheel.lastTickMs = 0
  · obtain ⟨hlast, hstart⟩ := started_pending h hnow
    have hcol := collect_unset w.events now hz
    refine ⟨Or.inr ?_, ?_, ?_⟩
    · show (collect w.events w.wheel now).1.lastTickMs ≤ now
      rw [hcol]
      exact hlast
    · show ∀ p ∈ (collect w.events w.wheel now).1.entries, _
      rw [hcol]
      exact hstart
    · intro f hf
      obtain rfl := Option.some.inj hf
      rw [hcol]
      exact ⟨Int.le_refl _, by simp⟩
  · obtain ⟨hleft, hout⟩ := collect_entries w.events now hz
    refine ⟨Or.inr ?_, ?_, ?_⟩
    · show (collect w.events w.wheel now).1.lastTickMs ≤ now
      rcases (collect_lastTickMs w.events w.wheel now).1 with hle | heq
      · exact hle
      · rcases h.started with ⟨hz', -⟩ | hle
        · exact absurd hz' hz
        · omega
    · intro p hp
      have hp' : p ∈ (collect w.events w.wheel now).1.entries := hp
      rw [hleft, List.mem_filter] at hp'
      have := h.pending p hp'.1
      show (w.events p.1).arriveTime - kTickMs ≤ max p.2 now
      omega
    · intro f hf
      obtain rfl := Option.some.inj hf
      refine ⟨Int.le_refl _, ?_⟩
      intro ev hev
      simp only [hout, List.mem_filter, List.mem_map] at hev
      obtain ⟨⟨p, ⟨hp, hdue⟩, rfl⟩, -⟩ := hev
      have := h.pending p hp
      have hdue := of_decide_eq_true hdue
      show (w.events p.1).arriveTime - kTickMs ≤ now
      omega

/-- A smaller batch at the same time. -/
theorem punctual_batch {w : World} {now : Int} {exp rest : List EventId} {r r' : Option EventId}
    (h : Punctual w) (hf : w.firing = some ⟨now, exp, r⟩) (hsub : ∀ ev ∈ rest, ev ∈ exp) :
    Punctual { w with firing := some ⟨now, rest, r'⟩ } := by
  refine ⟨h.started, h.pending, ?_⟩
  intro f hf'
  obtain rfl := Option.some.inj hf'
  obtain ⟨hnow, hexp⟩ := h.batch _ hf
  exact ⟨hnow, fun ev hev => hexp ev (hsub ev hev)⟩

theorem punctual_rearm {w : World} {now t₀ t₁ t₂ : Int} {ev : EventId} {rest : List EventId}
    (h : Punctual w) (hf : w.firing = some ⟨now, rest, none⟩)
    (hc : (w.events ev).isCancelled = false) (h₀ : w.clock ≤ t₀) (h₁ : t₀ ≤ t₁) (h₂ : t₁ ≤ t₂)
    (hin : InsertionInTime w.wheel (t₀ + (w.events ev).interval) t₁ t₂)
    (hother : ∀ D, (ev, D) ∈ w.wheel.entries →
      t₀ + (w.events ev).interval - kTickMs ≤ max D t₂)
    (hrest : ev ∈ rest → t₀ + (w.events ev).interval - kTickMs ≤ now) :
    Punctual (w.rearm ev t₀ t₁ t₂) := by
  have hself : (Function.update w.events ev ((w.events ev).resetArriveTime t₀)) ev =
      (w.events ev).resetArriveTime t₀ := Function.update_self _ _ _
  have hne : ∀ {e}, e ≠ ev →
      (Function.update w.events ev ((w.events ev).resetArriveTime t₀)) e = w.events e :=
    fun he => Function.update_of_ne he _ _
  have hzero : w.wheel.lastTickMs = 0 → 0 ≤ t₁ ∨ w.wheel.entries = [] := by
    intro hz
    rcases h.started with ⟨-, hnil⟩ | hle
    · exact Or.inr hnil
    · exact Or.inl (by omega)
  have hlast := (started_pending h (Int.le_trans h₀ h₁)).1
  have hstart : ∀ p ∈ (w.wheel.started t₁).entries,
      (Function.update w.events ev ((w.events ev).resetArriveTime t₀) p.1).arriveTime - kTickMs ≤
        max p.2 t₂ := by
    intro p hp
    obtain ⟨D, hD, hmem⟩ := started_entries w.wheel t₁ hp hzero
    by_cases he : p.1 = ev
    · rw [he] at hmem
      have := hother D hmem
      rw [he, hself]
      simp only [TimerEvent.resetArriveTime]
      omega
    · rw [hne he]
      have := h.pending _ hmem
      simp only at this
      omega
  obtain ⟨hclock, hpend⟩ := addEvent_pending h₂ hlast hstart (by rw [hself]; exact hc)
    (by rw [hself]; exact hin)
  refine ⟨Or.inr hclock, hpend, ?_⟩
  intro f hf'
  obtain rfl : ⟨now, rest, none⟩ = f := Option.some.inj (hf.symm.trans hf')
  obtain ⟨hnow, hexp⟩ := h.batch _ hf
  refine ⟨by simp only [World.rearm] at *; omega, ?_⟩
  intro e he
  by_cases heq : e = ev
  · subst heq
    simp only [World.rearm, hself]
    exact hrest he
  · simp only [World.rearm, hne heq]
    exact hexp e he

/-- A step in time keeps the world punctual, and calls no callback too early. -/
theorem step_punctual {w w' : World} {l : Label} {es : List Event} (h : Punctual w)
    (hok : InTime w l) (hstep : step w l = some (w', es)) :
    Punctual w' ∧ ∀ ev now a, Event.ran ev now a ∈ es → a - kTickMs ≤ now := by
  cases steps_of_step hstep with
  | addEvent h₁ h₂ => exact ⟨punctual_addEvent h h₁ h₂ hok, by simp⟩
  | cancelEvent => exact ⟨punctual_cancelEvent h _, by simp⟩
  | fireExpired hnone hnow => exact ⟨punctual_fireExpired h hnow, by simp⟩
  | skipped hf hc => exact ⟨punctual_batch h hf fun _ => List.mem_cons_of_mem _, by simp⟩
  | called hf hc =>
    refine ⟨punctual_batch h hf fun _ => List.mem_cons_of_mem _, ?_⟩
    intro ev now a hran
    split at hran
    · obtain ⟨rfl, rfl, rfl⟩ := Event.ran.inj (List.mem_singleton.mp hran)
      exact (h.batch _ hf).2 _ List.mem_cons_self
    · simp at hran
  | done hf hno => exact ⟨punctual_batch h hf fun _ => id, by simp⟩
  | rearmed hf hrep hc h₀ h₁ h₂ =>
    obtain ⟨hin, hother, hrest⟩ := hok _ _ _ hf hrep hc
    exact ⟨punctual_rearm (punctual_batch h hf fun _ => id) rfl hc h₀ h₁ h₂ hin hother hrest,
      by simp⟩
  | fireEnd hf => exact ⟨⟨h.started, h.pending, by simp⟩, by simp⟩

/-- In a run whose insertions are all in time no callback is called more than a tick before
    the arrival time of its event. -/
theorem no_timer_early (events : Events) (clock : Int) (ls : List Label) (w : World)
    (es : List Event) (hrun : run step (World.init events clock) ls = some (w, es))
    (hok : RunOk step InTime (World.init events clock) ls) (ev : EventId) (now a : Int)
    (hran : Event.ran ev now a ∈ es) : a - kTickMs ≤ now := by
  have hinv := runOk_induction
    (fun w es => Punctual w ∧ ∀ ev now a, Event.ran ev now a ∈ es → a - kTickMs ≤ now)
    (fun w tr l w' es' hp hin hs => by
      obtain ⟨hw, htr⟩ := hp
      obtain ⟨hw', hes⟩ := step_punctual hw hin hs
      refine ⟨hw', ?_⟩
      intro ev now a hmem
      rcases List.mem_append.mp hmem with hmem | hmem
      · exact htr ev now a hmem
      · exact hes ev now a hmem)
    [] ⟨punctual_init events clock, by simp⟩ hok hrun
  exact hinv.2 ev now a hran

/-- A timer of 50 ms on a new wheel. -/
theorem no_timer_early_new_wheel :
    ∃ w es, run step (World.init (fun _ => ⟨1050, 50, false, false, true⟩) 1000)
        [.addEvent 0 1000 1000, .fireExpired 1050, .nextExpired] = some (w, es) ∧
      Event.ran 0 1050 1050 ∈ es ∧ (1050 : Int) - kTickMs ≤ 1050 := by
  have hrun : (run step (World.init (fun _ => ⟨1050, 50, false, false, true⟩) 1000)
      [.addEvent 0 1000 1000, .fireExpired 1050, .nextExpired]).map Prod.snd =
        some [.added 0, .ran 0 1050 1050] := by decide +kernel
  obtain ⟨⟨w, es⟩, hw, hes⟩ := Option.map_eq_some_iff.mp hrun
  have hran : Event.ran 0 1050 1050 ∈ es := by
    rw [show es = _ from hes]
    simp
  refine ⟨w, es, hw, hran, no_timer_early _ _ _ w es hw ?_ 0 1050 1050 hran⟩
  refine ⟨fun _ _ _ => by decide, fun _ _ _ => ?_⟩
  exact ⟨trivial, fun _ _ _ => ⟨trivial, fun _ _ _ => trivial⟩⟩

/-- A wheel that was last called at 1000 and is idle for a second runs a timer of one second
    at once. -/
theorem timer_early_after_pause :
    ¬ ∀ (events : Events) (clock : Int) (ls : List Label) (w : World) (es : List Event),
      run step (World.init events clock) ls = some (w, es) →
        ∀ ev now a, Event.ran ev now a ∈ es → a - kTickMs ≤ now := by
  intro h
  have hrun : (run step (World.init (fun _ => ⟨3000, 1000, false, false, true⟩) 1000)
      [.fireExpired 1000, .fireEnd, .addEvent 0 2000 2000, .fireExpired 2000, .nextExpired]).map
        Prod.snd = some [.added 0, .ran 0 2000 3000] := by decide +kernel
  obtain ⟨⟨w, es⟩, hw, hes⟩ := Option.map_eq_some_iff.mp hrun
  have hlate := h _ _ _ w es hw 0 2000 3000 (by rw [show es = _ from hes]; simp)
  exact absurd hlate (by decide)

end RocketRpc.Timer
