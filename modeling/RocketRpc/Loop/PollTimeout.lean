import RocketRpc.Loop.EventLoop
import RocketRpc.Timer.ExactlyOnce
import RocketRpc.Timer.OnTime
import Mathlib.Algebra.Group.Int.Defs

/-
  How long the loop sleeps while timers are pending.

  The timeout of `poll` comes from a look at the wheel, and nobody looks again before `poll`
  returns: `addTimerEvent` does not signal the channel. `Attended` is the condition on a step
  under which this is harmless. A timer that is added to a sleeping loop must arrive late enough,
  and where the timeout is chosen the wheel must be up to date: no timer is overdue, and the clock
  of the wheel is not so far behind that the ticks counted from now on end too late. In a run
  whose steps all meet it, a loop asleep in `poll` with no wakeup on the way wakes at most a tick
  after the arrival of every pending timer (`poll_wakes_for_timers`). A call that adds its
  deadline from its own thread to an idle loop breaks it (`poll_sleeps_past_deadline`).
-/

namespace RocketRpc.Loop

open Machine
open Timer (EventId Events Started live kTickMs kSlotsPerLevel)
open Timer.TimingWheel (slotAt)

/-- No wakeup is pending, and nobody is about to signal one. -/
def EventLoop.Quiet (x : EventLoop) : Prop := x.channel = 0 ∧ ∀ t, x.callers t = .idle

/-- A loop that only its timeout will wake does not sleep past a pending timer and a tick. -/
def SleepsInTime (x : EventLoop) : Prop :=
  ∀ timeout t₀, x.place = .polling timeout t₀ → x.Quiet →
    ∀ p ∈ x.timers.wheel.entries, live x.timers.events p.1 = true →
      0 ≤ timeout ∧ t₀ + timeout ≤ (x.timers.events p.1).arriveTime + kTickMs

/-! ## The condition -/

/-- A wheel from which a timeout can be chosen at `now`: no timer is overdue by a tick, one whose
    turn is the next tick does not arrive before the clock of the wheel, and some timer is near
    enough for an `int`; and if the clock of the wheel is a tick or more behind, the ticks up to a
    timer, counted from `now`, end less than a tick after its arrival. -/
def UpToDate (w : Timer.World) (now : Int) : Prop :=
  (∀ p ∈ w.wheel.entries, live w.events p.1 = true →
    now < (w.events p.1).arriveTime + kTickMs ∧
    (p.2 ≤ w.wheel.lastTickMs + kTickMs → w.wheel.lastTickMs ≤ (w.events p.1).arriveTime) ∧
    ∃ q ∈ w.wheel.entries, q.2 < now + 2 ^ 31) ∧
  (w.wheel.lastTickMs + kTickMs ≤ now → ∀ k < kSlotsPerLevel,
    ∀ ev ∈ w.wheel.l1 (slotAt w.wheel.l1Cursor k), live w.events ev = true →
      now + kTickMs * k < (w.events ev).arriveTime + kTickMs)

instance (w : Timer.World) (now : Int) : Decidable (UpToDate w now) :=
  inferInstanceAs (Decidable (_ ∧ _))

/-- A timer added to a sleeping loop arrives no more than a tick before the end of the sleep. -/
def AddedInTime (x : EventLoop) (ev : EventId) : Prop :=
  match x.place with
  | .polling timeout t₀ => live x.timers.events ev = true →
      0 ≤ timeout ∧ t₀ + timeout ≤ (x.timers.events ev).arriveTime + kTickMs
  | _ => True

instance (x : EventLoop) (ev : EventId) : Decidable (AddedInTime x ev) := by
  unfold AddedInTime
  split <;> infer_instance

/-- A repeated event that is added again has no other entry that comes more than a tick after its
    new arrival time. -/
def RearmedInTime (w : Timer.World) (t₀ : Int) : Prop :=
  match w.firing with
  | some ⟨_, _, some ev⟩ => (w.events ev).isRepeated = true → live w.events ev = true →
      ∀ p ∈ w.wheel.entries, p.1 = ev →
        p.2 ≤ max (t₀ + (w.events ev).interval) w.wheel.lastTickMs + kTickMs
  | _ => True

instance (w : Timer.World) (t₀ : Int) : Decidable (RearmedInTime w t₀) := by
  unfold RearmedInTime
  split <;> infer_instance

/-- What a step does to the timers, with or without a wakeup on the way. -/
def Timely (x : EventLoop) : Label → Prop
  | .choose now => UpToDate x.timers now
  | .timer (.addEvent ev _ _) => AddedInTime x ev
  | _ => True

def RearmsInTime (x : EventLoop) : Label → Prop
  | .timer (.callbackReturns t₀ _ _) => RearmedInTime x.timers t₀
  | _ => True

instance (x : EventLoop) (l : Label) : Decidable (Timely x l) := by
  unfold Timely
  split <;> infer_instance

instance (x : EventLoop) (l : Label) : Decidable (RearmsInTime x l) := by
  unfold RearmsInTime
  split <;> infer_instance

/-- The condition on a step. -/
def Attended (x : EventLoop) (l : Label) : Prop :=
  (x.Quiet → Timely x l) ∧ RearmsInTime x l

/-! ## Deadlines -/

/-- Every entry comes at most a tick after the arrival of its event, or with the next tick. -/
def Settled (w : Timer.World) : Prop :=
  ∀ p ∈ w.wheel.entries,
    p.2 ≤ max (w.events p.1).arriveTime w.wheel.lastTickMs + kTickMs

/-- An insertion is settled, also where it is the one of an event with a new arrival time. -/
theorem settled_addEvent {w : Timer.World} (hst : Started w) {events : Events} {ev : EventId}
    {t₁ t₂ : Int} (h₁ : w.clock ≤ t₁) (h₂ : t₁ ≤ t₂)
    (h : ∀ p ∈ w.wheel.entries,
      p.2 ≤ max (events p.1).arriveTime w.wheel.lastTickMs + kTickMs) :
    ∀ p ∈ (w.wheel.addEvent events ev t₁ t₂).entries,
      p.2 ≤ max (events p.1).arriveTime (w.wheel.addEvent events ev t₁ t₂).lastTickMs +
        kTickMs := by
  have htick : kTickMs = 10 := rfl
  intro p hp
  cases hc : (events ev).isCancelled with
  | true =>
    rw [Timer.addEvent_of_cancelled t₁ t₂ hc] at hp ⊢
    exact h p hp
  | false =>
    obtain ⟨-, hlast, hentries⟩ := hst.wheel_started h₁
    have hlater : w.wheel.lastTickMs ≤ (w.wheel.started t₁).lastTickMs := by
      have := hst.last_le
      unfold Timer.TimingWheel.started
      split
      · simp only
        omega
      · exact Int.le_refl _
    unfold Timer.TimingWheel.addEvent at hp ⊢
    rw [if_neg (by simp [hc])] at hp ⊢
    rw [Timer.TimingWheel.schedule_lastTickMs]
    have hmem := (Timer.TimingWheel.schedule_entries _ ev _ t₂).mem_iff.mp hp
    rw [hentries] at hmem
    rcases List.mem_cons.mp hmem with rfl | hmem
    · simp only [Timer.TimingWheel.turn, htick]
      split
      · omega
      split
      · omega
      · omega
    · have := h p hmem
      omega

theorem settled_fireExpired {w : Timer.World} (hst : Started w) (h : Settled w) {now : Int}
    (hnow : w.clock ≤ now) : Settled (w.fireExpired now) := by
  intro p hp
  show p.2 ≤ max (w.events p.1).arriveTime
    (Timer.TimingWheel.collect w.events w.wheel now).1.lastTickMs + kTickMs
  have hp' : p ∈ (Timer.TimingWheel.collect w.events w.wheel now).1.entries := hp
  by_cases hz : w.wheel.lastTickMs = 0
  · rw [Timer.TimingWheel.collect_unset w.events now hz] at hp'
    have hnil := (hst.wheel_started hnow).2.2
    rw [hst.unset hz] at hnil
    rw [show (w.wheel.started now, ([] : List EventId)).1.entries = [] from hnil] at hp'
    exact absurd hp' List.not_mem_nil
  · rw [(Timer.TimingWheel.collect_entries w.events now hz).1] at hp'
    have hlater := (Timer.TimingWheel.collect_lastTickMs w.events w.wheel now).2 hz
    have := h p (List.mem_filter.mp hp').1
    omega

theorem settled_cancelEvent {w : Timer.World} (h : Settled w) (ev : EventId) :
    Settled (w.cancelEvent ev) := by
  intro p hp
  have hsub := (Timer.TimingWheel.eraseOverflow_entries w.wheel ev (w.events ev).arriveTime).1
  rw [Timer.cancelEvent_arriveTime]
  exact h p (hsub.subset hp)

/-- A step of the timers keeps the entries settled. -/
theorem step_settled {w w' : Timer.World} {l : Timer.Label} {es : List Timer.Event}
    (hst : Started w) (h : Settled w)
    (hre : ∀ t₀ t₁ t₂, l = .callbackReturns t₀ t₁ t₂ → RearmedInTime w t₀)
    (hs : Timer.step w l = some (w', es)) : Settled w' := by
  cases Timer.steps_of_step hs with
  | addEvent h₁ h₂ => exact settled_addEvent hst h₁ h₂ h
  | cancelEvent => exact settled_cancelEvent h _
  | fireExpired hnone hnow => exact settled_fireExpired hst h hnow
  | skipped hf hc => exact h
  | called hf hc => exact h
  | done hf hno => exact h
  | @rearmed now t₀ t₁ t₂ ev rest hf hrep hc h₀ h₁ h₂ =>
    have hev := hre t₀ t₁ t₂ rfl
    unfold RearmedInTime at hev
    rw [hf] at hev
    refine settled_addEvent hst (Int.le_trans h₀ h₁) h₂ ?_
    intro p hp
    by_cases heq : p.1 = ev
    · have := hev hrep (by simp [live, hc]) p hp heq
      rw [heq, Function.update_self]
      exact this
    · rw [Function.update_of_ne heq]
      exact h p hp
  | fireEnd hf => exact h

/-! ## The timeout -/

theorem chooseTimeout_some {ms : Int} (h₀ : 0 ≤ ms) (h : ms < 2 ^ 31) :
    chooseTimeout (some ms) = max 1 ms := by
  have hint : toInt ms = ms := by
    unfold toInt
    exact Int.bmod_eq_of_le (by omega) (by omega)
  unfold chooseTimeout
  simp only [hint]
  split
  · omega
  · omega

/-- The wait up to an entry of the wheel fits into an `int`. -/
theorem wait_fits {w : Timer.World} {now : Int} (hpos : 0 < w.wheel.lastTickMs)
    (hle : w.wheel.lastTickMs ≤ now) {q : EventId × Int} (hq : q ∈ w.wheel.entries)
    (hnear : q.2 < now + 2 ^ 31) :
    ∃ ms, w.wheel.msUntilNextExpire now = some ms ∧ ms < 2 ^ 31 := by
  rcases Timer.TimingWheel.mem_entries hq with ⟨k, hk, hmem, hdeadline⟩ | hmem
  · obtain ⟨ms, hms, hwakes, -⟩ := Timer.TimingWheel.slot_wakes hpos hle hk hmem
    have htick : kTickMs = 10 := rfl
    have hslots : kSlotsPerLevel = 256 := rfl
    rw [htick] at hwakes hdeadline
    exact ⟨ms, hms, by omega⟩
  · obtain ⟨ms, hms, hwakes⟩ := Timer.TimingWheel.overflow_wakes now hmem
    exact ⟨ms, hms, by omega⟩

/-- The wait that an up-to-date wheel gives ends at most a tick after the arrival of a timer. -/
theorem wait_ends {w : Timer.World} {now : Int} (h : Settled w) (hpos : 0 < w.wheel.lastTickMs)
    (hle : w.wheel.lastTickMs ≤ now) (hup : UpToDate w now) {p : EventId × Int}
    (hp : p ∈ w.wheel.entries) (hlive : live w.events p.1 = true) :
    ∃ ms, w.wheel.msUntilNextExpire now = some ms ∧
      now + ms ≤ (w.events p.1).arriveTime + kTickMs := by
  have htick : kTickMs = 10 := rfl
  obtain ⟨hdue, hnext, -⟩ := hup.1 p hp hlive
  -- the deadline of the entry is at most a tick late
  have hdeadline : p.2 ≤ (w.events p.1).arriveTime + kTickMs := by
    have hsettled := h p hp
    by_cases hfirst : p.2 ≤ w.wheel.lastTickMs + kTickMs
    · have := hnext hfirst
      omega
    · omega
  rcases Timer.TimingWheel.mem_entries hp with ⟨k, hk, hmem, heq⟩ | hmem
  · obtain ⟨ms, hms, hwakes, hfresh⟩ := Timer.TimingWheel.slot_wakes hpos hle hk hmem
    refine ⟨ms, hms, ?_⟩
    by_cases hbehind : w.wheel.lastTickMs + kTickMs ≤ now
    · have := hup.2 hbehind k hk p.1 hmem hlive
      rw [htick] at *
      omega
    · have := hfresh (by omega)
      omega
  · obtain ⟨ms, hms, hwakes⟩ := Timer.TimingWheel.overflow_wakes now hmem
    exact ⟨ms, hms, by omega⟩

/-- So does the timeout. -/
theorem timeout_ends {w : Timer.World} {now : Int} (hst : Started w) (h : Settled w)
    (hnow : w.clock ≤ now) (hup : UpToDate w now) {p : EventId × Int}
    (hp : p ∈ w.wheel.entries) (hlive : live w.events p.1 = true) :
    0 ≤ chooseTimeout (w.wheel.msUntilNextExpire now) ∧
      now + chooseTimeout (w.wheel.msUntilNextExpire now) ≤
        (w.events p.1).arriveTime + kTickMs := by
  have hle := Int.le_trans hst.last_le hnow
  have hpos : 0 < w.wheel.lastTickMs := by
    rcases Int.lt_or_eq_of_le hst.last_nonneg with hlt | heq
    · exact hlt
    · rw [hst.unset heq.symm] at hp
      exact absurd hp List.not_mem_nil
  obtain ⟨hdue, -, q, hq, hnear⟩ := hup.1 p hp hlive
  obtain ⟨ms, hms, hends⟩ := wait_ends h hpos hle hup hp hlive
  obtain ⟨ms', hms', hfits⟩ := wait_fits hpos hle hq hnear
  obtain rfl := Option.some.inj (hms.symm.trans hms')
  rw [hms, chooseTimeout_some (Timer.TimingWheel.msUntilNextExpire_nonneg hms) hfits]
  omega

/-! ## A loop that is asleep -/

/-- The timers of a loop are settled, and it does not sleep past them. -/
structure Watchful (x : EventLoop) : Prop where
  started : Started x.timers
  settled : Settled x.timers
  sleeps : SleepsInTime x

theorem sleepsInTime_of_awake {x : EventLoop} (h : ∀ timeout t₀, x.place ≠ .polling timeout t₀) :
    SleepsInTime x :=
  fun timeout t₀ hp => absurd hp (h timeout t₀)

/-- Somebody will wake the loop. -/
theorem sleepsInTime_of_not_quiet {x : EventLoop} (h : ¬ x.Quiet) : SleepsInTime x :=
  fun _ _ _ hquiet => absurd hquiet h

/-- A thread between its two steps is about to signal the channel. -/
theorem not_quiet_setCaller {x : EventLoop} {t : ThreadId} {caller : Caller}
    (h : caller ≠ .idle) : ¬ (x.setCaller t caller).Quiet := by
  intro hquiet
  have hidle := hquiet.2 t
  rw [EventLoop.setCaller_self] at hidle
  exact h hidle

/-- A step that leaves the timers as they are, to a place that is not in `poll`. -/
theorem Watchful.awake {x x' : EventLoop} (h : Watchful x) (htimers : x'.timers = x.timers)
    (hplace : ∀ timeout t₀, x'.place ≠ .polling timeout t₀) : Watchful x' where
  started := by rw [htimers]; exact h.started
  settled := by rw [htimers]; exact h.settled
  sleeps := sleepsInTime_of_awake hplace

theorem Watchful.woken {x x' : EventLoop} (h : Watchful x) (htimers : x'.timers = x.timers)
    (hquiet : ¬ x'.Quiet) : Watchful x' where
  started := by rw [htimers]; exact h.started
  settled := by rw [htimers]; exact h.settled
  sleeps := sleepsInTime_of_not_quiet hquiet

/-- A step of the timers in `poll` is an insertion or a cancellation. -/
theorem timerPlace_polling {place : LoopPlace} {l : Timer.Label} {timeout t₀ : Int}
    (h : EventLoop.timerPlace place l = some (.polling timeout t₀)) :
    place = .polling timeout t₀ ∧ ((∃ ev t₁ t₂, l = .addEvent ev t₁ t₂) ∨
      ∃ ev, l = .cancelEvent ev) := by
  obtain ⟨heq, hl⟩ | ⟨-, heq⟩ | ⟨-, heq | heq⟩ := EventLoop.timerPlace_cases h
  · exact ⟨heq.symm, hl⟩
  all_goals exact absurd heq (by simp)

/-- An insertion into the wheel of a sleeping loop. -/
theorem sleepsInTime_addEvent {x : EventLoop} (h : Watchful x) {ev : EventId} {t₁ t₂ : Int}
    (h₁ : x.timers.clock ≤ t₁) (h₂ : t₁ ≤ t₂) (hin : x.Quiet → AddedInTime x ev) :
    SleepsInTime { x with timers := x.timers.addEvent ev t₁ t₂ } := by
  intro timeout t₀ hplace hquiet p hp hlive
  have hp' : p ∈ (x.timers.wheel.addEvent x.timers.events ev t₁ t₂).entries := hp
  have hold : p ∈ x.timers.wheel.entries →
      0 ≤ timeout ∧ t₀ + timeout ≤ (x.timers.events p.1).arriveTime + kTickMs :=
    fun hmem => h.sleeps timeout t₀ hplace hquiet p hmem hlive
  cases hc : (x.timers.events ev).isCancelled with
  | true =>
    rw [Timer.addEvent_of_cancelled t₁ t₂ hc] at hp'
    exact hold hp'
  | false =>
    obtain ⟨D, -, hperm⟩ := h.started.addEvent_entries x.timers.events h₁ h₂ hc
    rcases List.mem_cons.mp (hperm.mem_iff.mp hp') with rfl | hmem
    · have hadded := hin hquiet
      unfold AddedInTime at hadded
      rw [show x.place = .polling timeout t₀ from hplace] at hadded
      exact hadded hlive
    · exact hold hmem

theorem sleepsInTime_cancelEvent {x : EventLoop} (h : SleepsInTime x) (ev : EventId) :
    SleepsInTime { x with timers := x.timers.cancelEvent ev } := by
  intro timeout t₀ hplace hquiet p hp hlive
  have hsub := (Timer.TimingWheel.eraseOverflow_entries x.timers.wheel ev
    (x.timers.events ev).arriveTime).1
  have hlive' : live x.timers.events p.1 = true := by
    by_cases heq : p.1 = ev
    · have hcancelled : live (x.timers.cancelEvent ev).events p.1 = false := by
        rw [heq]
        simp [live, Timer.World.cancelEvent, Timer.TimerEvent.cancel]
      exact absurd (hcancelled.symm.trans hlive) (by simp)
    · simpa [live, Timer.World.cancelEvent, heq] using hlive
  show 0 ≤ timeout ∧
    t₀ + timeout ≤ ((x.timers.cancelEvent ev).events p.1).arriveTime + kTickMs
  rw [Timer.cancelEvent_arriveTime]
  exact h timeout t₀ hplace hquiet p (hsub.subset hp) hlive'

/-- A step of the timers. -/
theorem Watchful.timer {x : EventLoop} (h : Watchful x) {l : Timer.Label} {place : LoopPlace}
    {timers : Timer.World} {es : List Timer.Event} (hok : Attended x (.timer l))
    (hp : EventLoop.timerPlace x.place l = some place)
    (hs : Timer.step x.timers l = some (timers, es)) :
    Watchful { x with timers, place } where
  started := Timer.step_started h.started hs
  settled := by
    refine step_settled h.started h.settled (fun t₀ t₁ t₂ heq => ?_) hs
    rw [heq] at hok
    exact hok.2
  sleeps := by
    by_cases hpolling : ∃ timeout t₀, place = .polling timeout t₀
    · obtain ⟨timeout, t₀, rfl⟩ := hpolling
      obtain ⟨hplace, hl⟩ := timerPlace_polling hp
      rw [← hplace]
      rcases hl with ⟨ev, t₁, t₂, rfl⟩ | ⟨ev, rfl⟩
      · cases Timer.steps_of_step hs with
        | addEvent h₁ h₂ => exact sleepsInTime_addEvent h h₁ h₂ hok.1
      · cases Timer.steps_of_step hs with
        | cancelEvent => exact sleepsInTime_cancelEvent h.sleeps ev
    · exact sleepsInTime_of_awake fun timeout t₀ heq => hpolling ⟨timeout, t₀, heq⟩

/-- Code of the owner runs while the loop is awake. -/
theorem not_polling_of_inUserCode {x : EventLoop} (h : x.inUserCode = true) (timeout t₀ : Int) :
    x.place ≠ .polling timeout t₀ := by
  intro hp
  unfold EventLoop.inUserCode at h
  rw [hp] at h
  exact absurd h (by simp)

/-- A step that meets the condition. -/
theorem step_watchful {x x' : EventLoop} {l : Label} {es : List Event} (h : Watchful x)
    (hok : Attended x l) (hs : x.step l = some (x', es)) : Watchful x' := by
  cases steps_of_step hs with
  | start hp | tested hp | stopped hp | polled hp | failed hp | handles hp | drained hp
  | handled hp | swapped hp | empty hp | remains hp | begins hp | ends hp | roundEnds hp =>
    exact h.awake rfl (by simp [EventLoop.setPlace])
  | reads hp => exact h.awake rfl (by simp [hp])
  | wakes hp => exact h.awake x.wakeup_timers (by simp [EventLoop.setPlace])
  | @chosen now hp hnow =>
    have hst := h.started
    refine ⟨⟨?_, hst.last_nonneg, ?_, hst.unset⟩, h.settled, ?_⟩
    · exact Int.lt_of_lt_of_le hst.clock_pos hnow
    · exact Int.le_trans hst.last_le hnow
    · intro timeout t₀ hplace hquiet p hmem hlive
      obtain ⟨rfl, rfl⟩ : chooseTimeout (x.timers.wheel.msUntilNextExpire now) = timeout ∧
        now = t₀ := by simpa using hplace
      exact timeout_ends hst h.settled hnow (hok.1 hquiet) hmem hlive
  | timer hp htimer => exact h.timer hok hp htimer
  | call c hu =>
    have hplace : (x.call c).1.place = x.place ∧ (x.call c).1.timers = x.timers := by
      cases c with
      | addTask isWakeUp => cases isWakeUp <;> simp [EventLoop.call, EventLoop.push]
      | stop => simp [EventLoop.call]
    refine h.awake hplace.2 fun timeout t₀ => ?_
    rw [hplace.1]
    exact not_polling_of_inUserCode hu timeout t₀
  | queued hc | flagged hc => exact h.woken rfl (not_quiet_setCaller (by simp))
  | signals hc | stopSignals hc =>
    refine h.woken x.wakeup_timers fun hquiet => ?_
    exact absurd hquiet.1 (Nat.ne_of_gt x.wakeup_channel_pos)

/-! ## Main result -/

/-- In a run whose steps all meet the condition, a loop that is in `poll` with no wakeup pending
    or about to be signalled wakes at most a tick after the arrival of every pending timer, and
    has no timeout only if there is none. -/
theorem poll_wakes_for_timers (events : Events) (clock : Int) (ls : List Label) (x : EventLoop)
    (tr : List Event) (hclock : 0 < clock)
    (hrun : run EventLoop.step (EventLoop.new events clock) ls = some (x, tr))
    (hok : RunOk EventLoop.step Attended (EventLoop.new events clock) ls) :
    SleepsInTime x := by
  have hnew : Watchful (EventLoop.new events clock) := by
    refine ⟨Timer.started_init events hclock, ?_, sleepsInTime_of_awake (by simp [EventLoop.new])⟩
    intro p hp
    simp [EventLoop.new, Timer.World.init] at hp
  have h := runOk_induction (fun y _ => Watchful y)
    (fun _ _ _ _ _ hp hin hs => step_watchful hp hin hs) [] hnew hok hrun
  exact h.sleeps

/-- Two threads add a timer each, one in front of the choice of the timeout, and one with a later
    arrival while the loop is asleep. -/
def twoTimers : List Label :=
  [.start, .timer (.addEvent 0 1000 1000), .testFlag, .choose 1003,
    .timer (.addEvent 1 1005 1005)]

def twoTimersEvents : Events := fun ev => ⟨1050 + ev, 50, false, false, true⟩

theorem poll_wakes_for_two_timers :
    ∃ x tr, run EventLoop.step (EventLoop.new twoTimersEvents 1000) twoTimers = some (x, tr) ∧
      x.place = .polling 47 1003 ∧ x.channel = 0 ∧ x.timers.wheel.entries.map Prod.fst = [0, 1] ∧
      SleepsInTime x := by
  have hrun : (run EventLoop.step (EventLoop.new twoTimersEvents 1000) twoTimers).map
      (fun r => decide (r.1.place = .polling 47 1003 ∧ r.1.channel = 0 ∧
        r.1.timers.wheel.entries.map Prod.fst = [0, 1])) = some true := by decide +kernel
  obtain ⟨⟨x, tr⟩, hx, heq⟩ := Option.map_eq_some_iff.mp hrun
  obtain ⟨hplace, hchannel, hentries⟩ : x.place = .polling 47 1003 ∧ x.channel = 0 ∧
    x.timers.wheel.entries.map Prod.fst = [0, 1] := of_decide_eq_true heq
  have hok : RunOk EventLoop.step (fun y l => Timely y l ∧ RearmsInTime y l)
    (EventLoop.new twoTimersEvents 1000) twoTimers := by decide +kernel
  exact ⟨x, tr, hx, hplace, hchannel, hentries,
    poll_wakes_for_timers twoTimersEvents 1000 twoTimers x tr (by decide) hx
      (hok.mono fun _ _ h => ⟨fun _ => h.1, h.2⟩)⟩

/-- The loop has no timer and is asleep when a call adds its deadline, five seconds ahead. -/
def deadlineToIdleLoop : List Label :=
  [.start, .testFlag, .choose 1000, .timer (.addEvent 0 2000 2000)]

theorem poll_sleeps_past_deadline :
    ¬ ∀ (events : Events) (clock : Int) (ls : List Label) (x : EventLoop) (tr : List Event),
      0 < clock → run EventLoop.step (EventLoop.new events clock) ls = some (x, tr) →
        SleepsInTime x := by
  intro h
  let start := EventLoop.new (fun _ => ⟨7000, 5000, false, false, true⟩) 1000
  have hrun : (run EventLoop.step start deadlineToIdleLoop).map (fun r =>
      decide (r.1.place = .polling (-1) 1000 ∧ r.1.channel = 0 ∧
        r.1.timers.wheel.entries = [(0, 7000)] ∧ live r.1.timers.events 0 = true)) =
      some true := by decide +kernel
  have hcallers : (run EventLoop.step start deadlineToIdleLoop).map (fun r => r.1.callers) =
      some fun _ => .idle := by rfl
  obtain ⟨⟨x, tr⟩, hx, heq⟩ := Option.map_eq_some_iff.mp hrun
  obtain ⟨hplace, hchannel, hentries, hlive⟩ : x.place = .polling (-1) 1000 ∧ x.channel = 0 ∧
    x.timers.wheel.entries = [(0, 7000)] ∧ live x.timers.events 0 = true := of_decide_eq_true heq
  have hidle : x.callers = fun _ => .idle := by
    rw [hx] at hcallers
    exact Option.some.inj hcallers
  have hsleeps := h _ 1000 deadlineToIdleLoop x tr (by decide) hx (-1) 1000 hplace
    ⟨hchannel, fun t => congrFun hidle t⟩ (0, 7000) (by simp [hentries]) hlive
  exact absurd hsleeps.1 (by decide)

end RocketRpc.Loop
