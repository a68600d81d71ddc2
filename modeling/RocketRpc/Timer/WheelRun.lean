import RocketRpc.Lib.Machine
import RocketRpc.Timer.WheelEntries

/-
  Runs of a timing wheel: any order of `addEvent`, `cancelEvent` and `fireExpired`.

  `fireExpired` takes several steps: it takes the batch out of the wheel under the lock, and
  then runs the callbacks one by one outside of it, so that a callback, or another thread,
  adds and cancels events in between. The clock never goes back: each call and each reading
  is at a time not before the last one.
-/

namespace RocketRpc.Timer

open Deadlines Machine

/-- A `fireExpired(now)` under way: the rest of its batch, and the event whose callback is
    running. -/
structure Firing where
  now : Int
  expired : List EventId
  running : Option EventId

structure World where
  events : Events
  wheel : TimingWheel
  clock : Int
  firing : Option Firing

/-- The world before the first call: no event was added. -/
def World.init (events : Events) (clock : Int) : World := ⟨events, TimingWheel.new, clock, none⟩

inductive Label where
  /-- `addEvent(event)`, with its two clock readings. -/
  | addEvent (event : EventId) (t₁ t₂ : Int)
  | cancelEvent (event : EventId)
  /-- The call `fireExpired(now)` up to the end of its lock. -/
  | fireExpired (now : Int)
  /-- The next event of the batch: its callback is called unless it was cancelled. -/
  | nextExpired
  /-- The callback returns; a repeated event is reset at clock time `t₀` and added again. -/
  | callbackReturns (t₀ t₁ t₂ : Int)
  | fireEnd
  deriving DecidableEq, Repr

/-- What a run shows: the calls of `addEvent`, and the callbacks with the `now` of the
    `fireExpired` that called them and the arrival time of their event. -/
inductive Event where
  | added (event : EventId)
  | ran (event : EventId) (now arriveTime : Int)
  deriving DecidableEq, Repr

namespace World

def addEvent (w : World) (event : EventId) (t₁ t₂ : Int) : World :=
  { w with wheel := w.wheel.addEvent w.events event t₁ t₂, clock := t₂ }

def cancelEvent (w : World) (event : EventId) : World :=
  { w with
    events := Function.update w.events event (w.events event).cancel
    wheel := w.wheel.eraseOverflow event (w.events event).arriveTime }

def fireExpired (w : World) (now : Int) : World :=
  { w with
    wheel := (TimingWheel.collect w.events w.wheel now).1
    clock := now
    firing := some ⟨now, (TimingWheel.collect w.events w.wheel now).2, none⟩ }

/-- The end of a callback: a repeated event that was not cancelled is added again. -/
def rearm (w : World) (event : EventId) (t₀ t₁ t₂ : Int) : World :=
  let events := Function.update w.events event ((w.events event).resetArriveTime t₀)
  { w with events := events, wheel := w.wheel.addEvent events event t₁ t₂, clock := t₂ }

end World

def step (w : World) : Label → Option (World × List Event)
  | .addEvent event t₁ t₂ =>
    if w.clock ≤ t₁ ∧ t₁ ≤ t₂ then some (w.addEvent event t₁ t₂, [.added event]) else none
  | .cancelEvent event => some (w.cancelEvent event, [])
  | .fireExpired now =>
    match w.firing with
    | some _ => none
    | none => if w.clock ≤ now then some (w.fireExpired now, []) else none
  | .nextExpired =>
    match w.firing with
    | some ⟨now, ev :: rest, none⟩ =>
      if (w.events ev).isCancelled then some ({ w with firing := some ⟨now, rest, none⟩ }, [])
      else some ({ w with firing := some ⟨now, rest, some ev⟩ },
        if (w.events ev).task then [.ran ev now (w.events ev).arriveTime] else [])
    | _ => none
  | .callbackReturns t₀ t₁ t₂ =>
    match w.firing with
    | some ⟨now, rest, some ev⟩ =>
      let w := { w with firing := some ⟨now, rest, none⟩ }
      if (w.events ev).isRepeated ∧ (w.events ev).isCancelled = false then
        if w.clock ≤ t₀ ∧ t₀ ≤ t₁ ∧ t₁ ≤ t₂ then some (w.rearm ev t₀ t₁ t₂, []) else none
      else some (w, [])
    | _ => none
  | .fireEnd =>
    match w.firing with
    | some ⟨_, [], none⟩ => some ({ w with firing := none }, [])
    | _ => none

/-- Everything a step can do, one case for each way it can go. -/
inductive Steps (w : World) : Label → World → List Event → Prop where
  | addEvent {ev : EventId} {t₁ t₂ : Int} (h₁ : w.clock ≤ t₁) (h₂ : t₁ ≤ t₂) :
      Steps w (.addEvent ev t₁ t₂) (w.addEvent ev t₁ t₂) [.added ev]
  | cancelEvent {ev : EventId} : Steps w (.cancelEvent ev) (w.cancelEvent ev) []
  | fireExpired {now : Int} (hnone : w.firing = none) (h : w.clock ≤ now) :
      Steps w (.fireExpired now) (w.fireExpired now) []
  | skipped {now : Int} {ev : EventId} {rest : List EventId}
      (hf : w.firing = some ⟨now, ev :: rest, none⟩) (hc : (w.events ev).isCancelled = true) :
      Steps w .nextExpired { w with firing := some ⟨now, rest, none⟩ } []
  | called {now : Int} {ev : EventId} {rest : List EventId}
      (hf : w.firing = some ⟨now, ev :: rest, none⟩) (hc : (w.events ev).isCancelled = false) :
      Steps w .nextExpired { w with firing := some ⟨now, rest, some ev⟩ }
        (if (w.events ev).task then [.ran ev now (w.events ev).arriveTime] else [])
  | done {now t₀ t₁ t₂ : Int} {ev : EventId} {rest : List EventId}
      (hf : w.firing = some ⟨now, rest, some ev⟩)
      (hno : ¬ ((w.events ev).isRepeated ∧ (w.events ev).isCancelled = false)) :
      Steps w (.callbackReturns t₀ t₁ t₂) { w with firing := some ⟨now, rest, none⟩ } []
  | rearmed {now t₀ t₁ t₂ : Int} {ev : EventId} {rest : List EventId}
      (hf : w.firing = some ⟨now, rest, some ev⟩) (hrep : (w.events ev).isRepeated = true)
      (hc : (w.events ev).isCancelled = false) (h₀ : w.clock ≤ t₀) (h₁ : t₀ ≤ t₁)
      (h₂ : t₁ ≤ t₂) :
      Steps w (.callbackReturns t₀ t₁ t₂)
        ({ w with firing := some ⟨now, rest, none⟩ }.rearm ev t₀ t₁ t₂) []
  | fireEnd {now : Int} (hf : w.firing = some ⟨now, [], none⟩) :
      Steps w .fireEnd { w with firing := none } []

theorem steps_of_step {w w' : World} {l : Label} {es : List Event}
    (h : step w l = some (w', es)) : Steps w l w' es := by
  cases l with
  | addEvent ev t₁ t₂ =>
    rw [step] at h
    split at h
    · rename_i hclock
      obtain ⟨rfl, rfl⟩ : w.addEvent ev t₁ t₂ = w' ∧ [Event.added ev] = es := by simpa using h
      exact .addEvent hclock.1 hclock.2
    · simp at h
  | cancelEvent ev =>
    obtain ⟨rfl, rfl⟩ : w.cancelEvent ev = w' ∧ [] = es := by simpa [step] using h
    exact .cancelEvent
  | fireExpired now =>
    rw [step] at h
    split at h
    · simp at h
    rename_i hnone
    split at h
    · rename_i hclock
      obtain ⟨rfl, rfl⟩ : w.fireExpired now = w' ∧ [] = es := by simpa using h
      exact .fireExpired hnone hclock
    · simp at h
  | nextExpired =>
    rw [step] at h
    split at h
    · rename_i now ev rest hf
      split at h
      · rename_i hc
        obtain ⟨rfl, rfl⟩ : _ = w' ∧ [] = es := by simpa using h
        exact .skipped hf hc
      · rename_i hc
        obtain ⟨rfl, rfl⟩ : _ = w' ∧ _ = es := by simpa using h
        exact .called hf (by simpa using hc)
    · simp at h
  | callbackReturns t₀ t₁ t₂ =>
    rw [step] at h
    split at h
    · rename_i now rest ev hf
      dsimp only at h
      split at h
      · rename_i hrep
        split at h
        · rename_i hclock
          obtain ⟨rfl, rfl⟩ : _ = w' ∧ [] = es := by simpa using h
          exact .rearmed hf hrep.1 hrep.2 hclock.1 hclock.2.1 hclock.2.2
        · simp at h
      · rename_i hrep
        obtain ⟨rfl, rfl⟩ : _ = w' ∧ [] = es := by simpa using h
        exact .done hf hrep
    · simp at h
  | fireEnd =>
    rw [step] at h
    split at h
    · rename_i now hf
      obtain ⟨rfl, rfl⟩ : _ = w' ∧ [] = es := by simpa using h
      exact .fireEnd hf
    · simp at h

end RocketRpc.Timer
