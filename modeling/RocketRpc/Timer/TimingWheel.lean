import Mathlib.Logic.Function.Basic
import RocketRpc.Lib.Deadlines

/-
  Timers: `rocket/net/timer_event`, `rocket/net/timing_wheel`.

  Events are objects that callers and the wheel share, so a table `Events` gives the fields
  of each by its id. The wheel keeps ids: in 256 slots of one tick each, read from the cursor
  on, and beyond their range in a map ordered by arrival. Times are milliseconds; a function
  that reads the clock takes what it read as an argument. `slots` is the wheel read from the
  cursor, and what a tick and an insertion do to it is `slots_tickL1` and `slots_put`.
-/

namespace RocketRpc.Timer

open Deadlines

abbrev EventId := Nat

structure TimerEvent where
  arriveTime : Int
  interval : Int
  isRepeated : Bool
  isCancelled : Bool
  /-- Whether there is a callback. -/
  task : Bool
  deriving DecidableEq, Repr

def TimerEvent.cancel (ev : TimerEvent) : TimerEvent := { ev with isCancelled := true }

def TimerEvent.resetArriveTime (ev : TimerEvent) (now : Int) : TimerEvent :=
  { ev with arriveTime := now + ev.interval }

abbrev Events := EventId → TimerEvent

def kTickMs : Int := 10

def kSlotsPerLevel : Nat := 256

/-- 2560 ms. -/
def kL1Range : Int := kSlotsPerLevel * kTickMs

structure TimingWheel where
  l1 : Fin kSlotsPerLevel → List EventId
  overflow : Multimap EventId
  l1Cursor : Fin kSlotsPerLevel
  lastTickMs : Int

namespace TimingWheel

/-- A wheel nothing was added to. -/
def new : TimingWheel where
  l1 := fun _ => []
  overflow := Multimap.empty
  l1Cursor := ⟨0, by decide⟩
  lastTickMs := 0

/-- The slot `k` places after slot `c`. -/
def slotAt (c : Fin kSlotsPerLevel) (k : Nat) : Fin kSlotsPerLevel :=
  ⟨(c.val + k) % kSlotsPerLevel, Nat.mod_lt _ (by decide)⟩

/-- `m_l1[idx].push_back(event)`. -/
def put (w : TimingWheel) (idx : Fin kSlotsPerLevel) (event : EventId) : TimingWheel :=
  { w with l1 := Function.update w.l1 idx (w.l1 idx ++ [event]) }

/-- `schedule(event)`, with the arrival time of the event, at clock time `now`. The quotient
    is of a non-negative number, so it rounds as the one of the sources. -/
def schedule (w : TimingWheel) (event : EventId) (arriveTime now : Int) : TimingWheel :=
  let (delay, arrival) :=
    if arriveTime - now ≤ 0 then (kTickMs, now + kTickMs) else (arriveTime - now, arriveTime)
  if delay ≤ kL1Range then
    let ticksAhead := ((delay - 1) / kTickMs).toNat
    w.put (slotAt w.l1Cursor ticksAhead) event
  else { w with overflow := w.overflow.insert arrival event }

/-- The clock of the wheel is set by the first call. -/
def started (w : TimingWheel) (now : Int) : TimingWheel :=
  if w.lastTickMs = 0 then { w with lastTickMs := now } else w

/-- `addEvent(event)`; `t₁` is the clock reading of its first branch, `t₂` the one of
    `schedule`. -/
def addEvent (events : Events) (w : TimingWheel) (event : EventId) (t₁ t₂ : Int) :
    TimingWheel :=
  if (events event).isCancelled then w
  else (w.started t₁).schedule event (events event).arriveTime t₂

/-- The part of `cancelEvent` under the lock: erase the event from the overflow map. -/
def eraseOverflow (w : TimingWheel) (event : EventId) (arriveTime : Int) : TimingWheel :=
  { w with overflow := w.overflow.erase arriveTime event }

/-- `collectExpired` on the slot at the cursor: what is not cancelled goes to `out`, what is
    cancelled goes away. -/
def collectExpired (events : Events) (w : TimingWheel) (out : List EventId) :
    TimingWheel × List EventId :=
  let live := (w.l1 w.l1Cursor).filter fun ev => !(events ev).isCancelled
  ({ w with l1 := Function.update w.l1 w.l1Cursor live }, out ++ live)

def tickL1 (w : TimingWheel) : TimingWheel :=
  { w with
    l1 := Function.update w.l1 w.l1Cursor []
    l1Cursor := slotAt w.l1Cursor 1 }

/-- The `for` loop of `fireExpired`. -/
def collectTicks (events : Events) : Nat → TimingWheel → List EventId → TimingWheel × List EventId
  | 0, w, out => (w, out)
  | n + 1, w, out =>
    collectTicks events n (collectExpired events w out).1.tickL1 (collectExpired events w out).2

/-- The part of `fireExpired(now)` under the lock: the wheel after it, and the batch of
    events to run. -/
def collect (events : Events) (w : TimingWheel) (now : Int) : TimingWheel × List EventId :=
  if w.lastTickMs = 0 then (w.started now, [])
  else
    let elapsed := max (now - w.lastTickMs) 0
    let passed := elapsed / kTickMs
    -- more than a whole turn: every slot once, and the wheel's clock jumps
    let (ticks, lastTick) :=
      if passed > kSlotsPerLevel then (kSlotsPerLevel, now)
      else (passed.toNat, w.lastTickMs + passed * kTickMs)
    let (w, expired) := collectTicks events ticks { w with lastTickMs := lastTick } []
    let late := (w.overflow.due now).map Prod.snd
    ({ w with overflow := w.overflow.rest now },
      expired ++ late.filter fun ev => !(events ev).isCancelled)

/-! ## The wheel read from the cursor -/

def slots (w : TimingWheel) : List (List EventId) :=
  (List.range kSlotsPerLevel).map fun k => w.l1 (slotAt w.l1Cursor k)

@[simp] theorem length_slots (w : TimingWheel) : w.slots.length = kSlotsPerLevel := by
  simp [slots]

theorem getElem_slots (w : TimingWheel) (k : Nat) (h : k < w.slots.length) :
    w.slots[k] = w.l1 (slotAt w.l1Cursor k) := by
  simp [slots]

@[simp] theorem slots_new : new.slots = List.replicate kSlotsPerLevel [] := by
  apply List.ext_getElem
  · simp
  · intro k h1 h2
    rw [getElem_slots, List.getElem_replicate]
    rfl

theorem slotAt_zero (c : Fin kSlotsPerLevel) : slotAt c 0 = c := by
  apply Fin.ext
  show (c.val + 0) % kSlotsPerLevel = c.val
  rw [Nat.add_zero]
  exact Nat.mod_eq_of_lt c.isLt

theorem slotAt_slotAt (c : Fin kSlotsPerLevel) (j k : Nat) :
    slotAt (slotAt c j) k = slotAt c (j + k) := by
  apply Fin.ext
  show ((c.val + j) % kSlotsPerLevel + k) % kSlotsPerLevel = (c.val + (j + k)) % kSlotsPerLevel
  rw [Nat.mod_add_mod, Nat.add_assoc]

/-- Different places less than a turn apart are different slots. -/
theorem slotAt_inj {c : Fin kSlotsPerLevel} {j k : Nat} (hj : j < kSlotsPerLevel)
    (hk : k < kSlotsPerLevel) (h : slotAt c j = slotAt c k) : j = k := by
  have hc := c.isLt
  have hval : (c.val + j) % kSlotsPerLevel = (c.val + k) % kSlotsPerLevel := congrArg Fin.val h
  simp only [kSlotsPerLevel] at *
  omega

/-- An event put `k` slots after the cursor. -/
theorem slots_put (w : TimingWheel) (event : EventId) {k : Nat} (hk : k < kSlotsPerLevel) :
    (w.put (slotAt w.l1Cursor k) event).slots = w.slots.modify k (· ++ [event]) := by
  apply List.ext_getElem
  · simp
  · intro j h1 h2
    rw [getElem_slots, List.getElem_modify, getElem_slots]
    have hj : j < kSlotsPerLevel := by simpa using h1
    by_cases hjk : k = j
    · subst hjk
      simp [put]
    · have hne : slotAt w.l1Cursor j ≠ slotAt w.l1Cursor k := by
        intro h
        exact hjk (slotAt_inj hk hj h.symm)
      rw [if_neg hjk]
      exact Function.update_of_ne hne _ _

/-- A tick drops the first slot and brings in an empty one at the end of the turn. -/
theorem slots_tickL1 (w : TimingWheel) : w.tickL1.slots = w.slots.drop 1 ++ [[]] := by
  apply List.ext_getElem
  · simp [kSlotsPerLevel]
  · intro j h1 h2
    have hj : j < kSlotsPerLevel := by simpa using h1
    rw [getElem_slots]
    show Function.update w.l1 w.l1Cursor [] (slotAt (slotAt w.l1Cursor 1) j) = _
    rw [slotAt_slotAt]
    by_cases hlast : 1 + j < kSlotsPerLevel
    · rw [List.getElem_append_left (by simp; omega), List.getElem_drop, getElem_slots,
        Function.update_of_ne]
      intro h
      rw [← slotAt_zero w.l1Cursor, slotAt_slotAt] at h
      have := slotAt_inj (by omega) (by decide) h
      omega
    · have hturn : slotAt w.l1Cursor (1 + j) = w.l1Cursor := by
        apply Fin.ext
        have := w.l1Cursor.isLt
        show (w.l1Cursor.val + (1 + j)) % kSlotsPerLevel = w.l1Cursor.val
        simp only [kSlotsPerLevel] at *
        omega
      rw [hturn, Function.update_self, List.getElem_append_right (by simp; omega)]
      simp

/-- What a pass of the loop takes from the first slot does not change the other slots. -/
theorem slots_collectExpired_drop (events : Events) (w : TimingWheel) (out : List EventId) :
    (collectExpired events w out).1.slots.drop 1 = w.slots.drop 1 := by
  apply List.ext_getElem
  · simp
  · intro j h1 h2
    have hj : 1 + j < kSlotsPerLevel := by
      simp only [List.length_drop, length_slots] at h1
      omega
    rw [List.getElem_drop, List.getElem_drop, getElem_slots, getElem_slots]
    refine Function.update_of_ne ?_ _ _
    intro h
    rw [show (collectExpired events w out).1.l1Cursor = w.l1Cursor from rfl] at h
    have := slotAt_inj hj (by decide) (h.trans (slotAt_zero w.l1Cursor).symm)
    omega

theorem slots_eq_cons (w : TimingWheel) : w.slots = w.l1 w.l1Cursor :: w.slots.drop 1 := by
  have hlen : 0 < w.slots.length := by simp [kSlotsPerLevel]
  have hcons := List.drop_eq_getElem_cons hlen
  rwa [List.drop_zero, getElem_slots, slotAt_zero] at hcons

end TimingWheel

end RocketRpc.Timer
