import RocketRpc.Lib.Agenda
import RocketRpc.Timer.ExactlyOnce

/-
  The wheel as an agenda, with a record of every insertion.

  Read from the cursor, the slots and the overflow map are an agenda of events: `schedule`
  places one (`agenda_schedule`), `cancelEvent` erases a later one, and `fireExpired` takes out
  what is due (`collect_agenda`). The wheel itself does not keep when an event was added, nor
  with which arrival time. `Recorded` runs an agenda of these insertions beside a world, with
  the insertions of the batch and those whose callbacks the last call of `fireExpired` has
  called. They are about the same events (`run_follows`), and about the callbacks that the run
  shows (`run_fired`).
-/

namespace RocketRpc.Timer

open Deadlines Machine

namespace TimingWheel

def agenda (w : TimingWheel) : Agenda EventId := ⟨w.slots, w.overflow⟩

/-- How far from the cursor `schedule` puts an event at clock time `now`; `none` is the overflow
    map. -/
def chosen (arriveTime now : Int) : Option Nat :=
  if arriveTime - now ≤ 0 then some 0
  else if arriveTime - now ≤ kL1Range then some ((arriveTime - now - 1) / kTickMs).toNat
  else none

theorem chosen_lt {arriveTime now : Int} {k : Nat} (h : chosen arriveTime now = some k) :
    k < kSlotsPerLevel := by
  have htick : kTickMs = 10 := rfl
  have hrange : kL1Range = 2560 := rfl
  have hslots : kSlotsPerLevel = 256 := rfl
  unfold chosen at h
  split at h
  · obtain rfl := Option.some.inj h
    decide
  split at h
  · obtain rfl := Option.some.inj h
    rw [htick]
    omega
  · exact absurd h (by simp)

theorem agenda_put (w : TimingWheel) (event : EventId) {k : Nat} (hk : k < kSlotsPerLevel)
    (arriveTime : Int) : (w.put (slotAt w.l1Cursor k) event).agenda =
      w.agenda.place (some k) arriveTime event :=
  congrArg (Agenda.mk · w.overflow) (slots_put w event hk)

theorem agenda_schedule (w : TimingWheel) (event : EventId) (arriveTime now : Int) :
    (w.schedule event arriveTime now).agenda =
      w.agenda.place (chosen arriveTime now) arriveTime event := by
  have hlt := @chosen_lt arriveTime now
  unfold chosen at hlt ⊢
  unfold schedule
  by_cases hnow : arriveTime - now ≤ 0
  · rw [if_pos hnow, if_pos hnow]
    exact agenda_put w event (by decide) arriveTime
  rw [if_neg hnow] at hlt ⊢
  rw [if_neg hnow]
  by_cases hslot : arriveTime - now ≤ kL1Range
  · rw [if_pos hslot] at hlt
    simp only [if_pos hslot]
    exact agenda_put w event (hlt rfl) arriveTime
  · simp only [if_neg hslot]
    rfl

theorem agenda_started (w : TimingWheel) (now : Int) : (w.started now).agenda = w.agenda := by
  unfold started
  split <;> rfl

theorem agenda_addEvent (events : Events) (w : TimingWheel) {event : EventId} (t₁ t₂ : Int)
    (hc : (events event).isCancelled = false) :
    (w.addEvent events event t₁ t₂).agenda =
      w.agenda.place (chosen (events event).arriveTime t₂) (events event).arriveTime event := by
  rw [addEvent, if_neg (by simp [hc]), agenda_schedule, agenda_started]

theorem agenda_eraseOverflow (w : TimingWheel) (event : EventId) (arriveTime : Int) :
    (w.eraseOverflow event arriveTime).agenda =
      w.agenda.eraseLater arriveTime fun ev => ev == event := by
  refine congrArg (Agenda.mk w.slots) (Multimap.eq_of_entries ?_)
  show w.overflow.entries.eraseP _ = w.overflow.entries.eraseP _
  congr 1
  funext p
  simp only [Prod.ext_iff, Bool.decide_and, beq_eq_decide]

/-- How many slots `fireExpired(now)` reads. -/
def turns (w : TimingWheel) (now : Int) : Nat :=
  min (max (now - w.lastTickMs) 0 / kTickMs).toNat kSlotsPerLevel

theorem collect_agenda (events : Events) {w : TimingWheel} (now : Int) (h : w.lastTickMs ≠ 0) :
    (collect events w now).1.agenda = w.agenda.rest (w.turns now) now ∧
      (collect events w now).2 = (w.agenda.due (w.turns now) now).filter (live events) := by
  obtain ⟨n, hticks, hslots, hover, hout⟩ := collect_ticks events now h
  obtain rfl : n = w.turns now := hticks.count
  constructor
  · exact congrArg₂ Agenda.mk hslots hover
  · rw [hout, Agenda.due, List.filter_append]
    rfl

end TimingWheel

open TimingWheel

/-- An event that was added to the wheel: its arrival time then, and what the clock said. -/
structure Insertion where
  event : EventId
  arriveTime : Int
  addedAt : Int
  deriving DecidableEq, Repr

namespace Insertion

def chosen (i : Insertion) : Option Nat := TimingWheel.chosen i.arriveTime i.addedAt

/-- The arrival time was in the future. -/
def future (i : Insertion) : Bool := i.addedAt < i.arriveTime

end Insertion

/-- What a step adds to the wheel: the event of the call, or a repeated one whose callback
    returns. -/
def Label.inserts (w : World) : Label → Option Insertion
  | .addEvent ev _ t₂ =>
    if (w.events ev).isCancelled then none else some ⟨ev, (w.events ev).arriveTime, t₂⟩
  | .callbackReturns t₀ _ t₂ =>
    match w.firing with
    | some ⟨_, _, some ev⟩ =>
      if (w.events ev).isRepeated && !(w.events ev).isCancelled then
        some ⟨ev, t₀ + (w.events ev).interval, t₂⟩
      else none
    | _ => none
  | _ => none

/-- A world with the insertions that its wheel and its batch still hold, and those whose
    callbacks the last call of `fireExpired` has called. -/
structure Recorded where
  world : World
  agenda : Agenda Insertion := ⟨List.replicate kSlotsPerLevel [], Multimap.empty⟩
  batch : List Insertion := []
  fired : List Insertion := []

namespace Recorded

def insert (x : Recorded) : Option Insertion → Recorded
  | none => x
  | some i => { x with agenda := x.agenda.place i.chosen i.arriveTime i }

/-- What the lock of `fireExpired(now)` takes out of the wheel. -/
def collect (x : Recorded) (now : Int) : Recorded :=
  if x.world.wheel.lastTickMs = 0 then { x with batch := [], fired := [] }
  else
    let n := x.world.wheel.turns now
    { x with
      agenda := x.agenda.rest n now
      batch := (x.agenda.due n now).filter fun i => live x.world.events i.event
      fired := [] }

/-- The records behind a step that shows `es`. -/
def after (x : Recorded) (es : List Event) : Label → Recorded
  | .cancelEvent ev =>
    { x with agenda :=
        x.agenda.eraseLater (x.world.events ev).arriveTime fun i => i.event == ev }
  | .fireExpired now => x.collect now
  | .nextExpired =>
    { x with
      batch := x.batch.tail
      fired := if es = [] then x.fired else x.fired ++ x.batch.take 1 }
  | l => x.insert (l.inserts x.world)

def step (x : Recorded) (l : Label) : Option (Recorded × List Event) :=
  (Timer.step x.world l).map fun (w, es) => ({ x.after es l with world := w }, es)

theorem step_eq_some {x x' : Recorded} {l : Label} {es : List Event}
    (h : x.step l = some (x', es)) :
    ∃ w, Timer.step x.world l = some (w, es) ∧ x' = { x.after es l with world := w } := by
  obtain ⟨⟨w, es'⟩, hw, heq⟩ := Option.map_eq_some_iff.mp h
  obtain ⟨rfl, rfl⟩ := Prod.mk.inj heq
  exact ⟨w, hw, rfl⟩

/-- Every run of the wheel is one of these. -/
theorem run_world (x : Recorded) (ls : List Label) :
    (run step x ls).map (fun r => r.1.world) = (run Timer.step x.world ls).map fun r => r.1 :=
  run_project Recorded.world (fun _ _ => Option.map_map ..) x ls

end Recorded

/-- What is left of the batch. -/
def World.expired (w : World) : List EventId := w.firing.elim [] Firing.expired

theorem World.expired_of_firing {w : World} {f : Firing} (hf : w.firing = some f) :
    w.expired = f.expired := by
  rw [World.expired, hf]
  rfl

/-- The records are about the events that the wheel and the batch hold. -/
structure Follows (x : Recorded) : Prop where
  agenda : x.agenda.map Insertion.event = x.world.wheel.agenda
  batch : x.batch.map Insertion.event = x.world.expired

/-- The world before the first call, with nothing recorded. -/
def Recorded.init (events : Events) (clock : Int) : Recorded :=
  { world := World.init events clock }

theorem follows_init (events : Events) (clock : Int) : Follows (Recorded.init events clock) where
  agenda := by
    refine congrArg₂ Agenda.mk ?_ rfl
    show (List.replicate kSlotsPerLevel []).map (List.map Insertion.event) = TimingWheel.new.slots
    rw [TimingWheel.slots_new, List.map_replicate]
    rfl
  batch := rfl

theorem Recorded.after_world (x : Recorded) (es : List Event) (l : Label) :
    (x.after es l).world = x.world := by
  have hinsert : ∀ i, (x.insert i).world = x.world := fun i => by cases i <;> rfl
  cases l with
  | fireExpired now =>
    show (x.collect now).world = x.world
    unfold Recorded.collect
    split <;> rfl
  | cancelEvent | nextExpired => rfl
  | addEvent | callbackReturns | fireEnd => exact hinsert _

/-- A recorded insertion is placed where the wheel places its event. -/
theorem Follows.addEvent {x : Recorded} (h : Follows x) {events : Events} (i : Insertion)
    (t₁ : Int) (hc : (events i.event).isCancelled = false)
    (harrive : (events i.event).arriveTime = i.arriveTime) :
    (x.insert (some i)).agenda.map Insertion.event =
      (x.world.wheel.addEvent events i.event t₁ i.addedAt).agenda := by
  rw [agenda_addEvent events x.world.wheel t₁ i.addedAt hc, harrive, ← h.agenda]
  exact Agenda.map_place _ _ _ _ _

theorem Follows.collect {x : Recorded} (h : Follows x) (now : Int) :
    (x.collect now).agenda.map Insertion.event =
        (TimingWheel.collect x.world.events x.world.wheel now).1.agenda ∧
      (x.collect now).batch.map Insertion.event =
        (TimingWheel.collect x.world.events x.world.wheel now).2 := by
  unfold Recorded.collect
  split
  · next hunset =>
    rw [collect_unset x.world.events now hunset, agenda_started]
    exact ⟨h.agenda, rfl⟩
  · next hset =>
    obtain ⟨hleft, hout⟩ := collect_agenda x.world.events now hset
    rw [hleft, hout, ← h.agenda]
    refine ⟨Agenda.map_rest _ _ _ _, ?_⟩
    rw [← Agenda.map_due, List.filter_map]
    rfl

theorem step_follows {x x' : Recorded} {l : Label} {es : List Event} (h : Follows x)
    (hs : x.step l = some (x', es)) : Follows x' := by
  obtain ⟨w, hw, rfl⟩ := Recorded.step_eq_some hs
  have hbatch := h.batch
  cases steps_of_step hw with
  | @addEvent ev t₁ t₂ h₁ h₂ =>
    cases hc : (x.world.events ev).isCancelled with
    | true =>
      have hnone : Label.inserts x.world (.addEvent ev t₁ t₂) = none := if_pos hc
      have hsame : (x.world.addEvent ev t₁ t₂).wheel = x.world.wheel := addEvent_of_cancelled _ _ hc
      simp only [Recorded.after, hnone]
      exact ⟨hsame ▸ h.agenda, hbatch⟩
    | false =>
      have hsome : Label.inserts x.world (.addEvent ev t₁ t₂) =
          some ⟨ev, (x.world.events ev).arriveTime, t₂⟩ := if_neg (by simp [hc])
      simp only [Recorded.after, hsome]
      exact ⟨h.addEvent ⟨ev, _, t₂⟩ t₁ hc rfl, hbatch⟩
  | @cancelEvent ev =>
    refine ⟨?_, hbatch⟩
    show (x.agenda.eraseLater _ _).map _ = (x.world.wheel.eraseOverflow ev _).agenda
    rw [agenda_eraseOverflow, ← h.agenda]
    exact Agenda.map_eraseLater _ _ _ fun e => e == ev
  | @fireExpired now hnone hnow => exact ⟨(h.collect now).1, (h.collect now).2⟩
  | skipped hf hc | called hf hc =>
    rw [World.expired_of_firing hf] at hbatch
    refine ⟨h.agenda, ?_⟩
    show x.batch.tail.map Insertion.event = _
    rw [List.map_tail, hbatch]
    rfl
  | @done now t₀ t₁ t₂ ev rest hf hno =>
    rw [World.expired_of_firing hf] at hbatch
    have hnone : Label.inserts x.world (.callbackReturns t₀ t₁ t₂) = none := by
      simp only [Label.inserts, hf]
      exact if_neg (by simpa using hno)
    simp only [Recorded.after, hnone]
    exact ⟨h.agenda, hbatch⟩
  | @rearmed now t₀ t₁ t₂ ev rest hf hrep hc h₀ h₁ h₂ =>
    rw [World.expired_of_firing hf] at hbatch
    have hsome : Label.inserts x.world (.callbackReturns t₀ t₁ t₂) =
        some ⟨ev, t₀ + (x.world.events ev).interval, t₂⟩ := by
      simp only [Label.inserts, hf]
      exact if_pos (by simp [hrep, hc])
    simp only [Recorded.after, hsome]
    refine ⟨h.addEvent ⟨ev, _, t₂⟩ t₁ (rearm_live hc t₀) ?_, hbatch⟩
    rw [Function.update_self]
    rfl
  | fireEnd hf =>
    rw [World.expired_of_firing hf] at hbatch
    exact ⟨h.agenda, hbatch⟩

theorem run_follows {events : Events} {clock : Int} {ls : List Label} {x : Recorded}
    {es : List Event} (hrun : run Recorded.step (Recorded.init events clock) ls = some (x, es)) :
    Follows x :=
  run_invariant Follows (fun _ _ _ _ hi hs => step_follows hi hs) (follows_init events clock) hrun

/-- The event whose callback is called. -/
def Event.ranOf : Event → Option EventId
  | .ran ev _ _ => some ev
  | .added _ => none

/-- A callback that is called is recorded with its insertion. -/
theorem step_fired {x x' : Recorded} {l : Label} {es : List Event} (h : Follows x)
    (hl : ∀ now, l ≠ .fireExpired now) (hs : x.step l = some (x', es)) :
    x'.fired.map Insertion.event =
      x.fired.map Insertion.event ++ es.filterMap Event.ranOf := by
  obtain ⟨w, hw, rfl⟩ := Recorded.step_eq_some hs
  have hinsert : ∀ i, (x.insert i).fired = x.fired := fun i => by cases i <;> rfl
  have hnone : x.fired.map Insertion.event = x.fired.map Insertion.event ++ [] := by simp
  cases steps_of_step hw with
  | addEvent | done | rearmed | fireEnd =>
    exact (congrArg (List.map Insertion.event) (hinsert _)).trans hnone
  | cancelEvent | skipped => exact hnone
  | fireExpired => exact absurd rfl (hl _)
  | @called now ev rest hf hc =>
    have hbatch := h.batch
    rw [World.expired_of_firing hf] at hbatch
    obtain ⟨i, batch, hcons, rfl, -⟩ := List.map_eq_cons_iff.mp hbatch
    cases htask : (x.world.events i.event).task with
    | true => simp [Recorded.after, hcons, Event.ranOf]
    | false => simp [Recorded.after]

/-- A call of `fireExpired` starts with no callback called. -/
theorem fired_of_fireExpired {x x' : Recorded} {now : Int} {es : List Event}
    (hs : x.step (.fireExpired now) = some (x', es)) : x'.fired = [] := by
  obtain ⟨w, -, rfl⟩ := Recorded.step_eq_some hs
  show (x.collect now).fired = []
  unfold Recorded.collect
  split <;> rfl

/-- What was recorded as called since a call of `fireExpired` is what the run shows. -/
theorem run_fired {x x' : Recorded} {ls : List Label} {es : List Event} (h : Follows x)
    (hls : ∀ now, .fireExpired now ∉ ls) (hrun : run Recorded.step x ls = some (x', es)) :
    x'.fired.map Insertion.event =
      x.fired.map Insertion.event ++ es.filterMap Event.ranOf := by
  induction ls generalizing x es with
  | nil =>
    obtain ⟨rfl, rfl⟩ : x = x' ∧ [] = es := by simpa using hrun
    simp
  | cons l ls ih =>
    obtain ⟨y, es₁, es₂, hs, hrest, rfl⟩ := run_cons_eq_some.mp hrun
    have hfirst := step_fired h (fun now heq => hls now (heq ▸ List.mem_cons_self)) hs
    rw [ih (step_follows h hs) (fun now hmem => hls now (List.mem_cons_of_mem _ hmem)) hrest,
      hfirst, List.filterMap_append, List.append_assoc]

end RocketRpc.Timer
