import RocketRpc.Timer.NextExpire
import RocketRpc.Timer.WheelRun
import Mathlib.Algebra.Group.Nat.Defs

/-
  An event loop (`rocket/net/event_loop.cc`) with its wakeup channel and its timers.

  The thread of the loop goes from place to place in `loop` and the functions it calls; where a
  place has code of the owner in it (a handler of a descriptor, the callback of a timer, a task),
  that code adds tasks, with or without a wakeup, and may stop the loop. Other threads push
  a task and then signal the channel, store the stop flag and then signal the channel, and add
  and cancel timers, each between any two steps of the loop. A task is the number of its push.
-/

namespace RocketRpc.Loop

abbrev ThreadId := Nat

abbrev TaskId := Nat

def kMaxPendingTaskRounds : Nat := 8

/-- No timeout. -/
def kEpollWaitTimeoutMs : Int := -1

/-- The largest counter of an eventfd; a write that would exceed it fails. -/
def eventFdMax : Nat := 2 ^ 64 - 2

/-- Where the thread of the loop is. -/
inductive LoopPlace where
  | notStarted
  /-- `loop` at its test of `m_stop_flag`. -/
  | atFlag
  /-- In front of `msUntilNextExpire`. -/
  | choosing
  /-- In `poll`, with the timeout that was chosen at clock time `t₀`. -/
  | polling (timeout t₀ : Int)
  /-- In `processEvents`; the handler of the wakeup channel is still to be called or not. -/
  | handling (wake : Bool)
  /-- In `drain` of the wakeup channel, at a `read`. -/
  | draining
  /-- In front of `fireExpired`. -/
  | timers
  /-- In `fireExpired` behind its lock. -/
  | firing
  /-- `processPendingTasks` at the lock of a round, or at its last one. -/
  | swapping (round : Nat)
  /-- Between two tasks of a generation. -/
  | running (round : Nat) (tasks : List TaskId)
  /-- In a task. -/
  | inTask (round : Nat) (tasks : List TaskId)
  /-- `processPendingTasks` in front of its `wakeup`. -/
  | waking
  | ended
  deriving DecidableEq, Repr

/-- Where another thread is in `queueInLoop` or `stop`. -/
inductive Caller where
  | idle
  /-- In front of the `wakeup` of `queueInLoop`. -/
  | pushed (task : TaskId)
  /-- In front of the `wakeup` of `stop`. -/
  | stopping
  deriving DecidableEq, Repr

structure EventLoop where
  timers : Timer.World
  /-- The counter of the wakeup channel. -/
  channel : Nat := 0
  pending : List TaskId := []
  stopFlag : Bool := false
  isLooping : Bool := false
  place : LoopPlace := .notStarted
  callers : ThreadId → Caller := fun _ => .idle
  /-- The number of the next push. -/
  next : TaskId := 0

/-- What code of the owner on the loop calls; a null function is a task that does nothing, and
    `runInLoop` runs its function as part of that code. -/
inductive Call where
  /-- `addTask`; `queueInLoop` is `addTask` with a wakeup. -/
  | addTask (isWakeUp : Bool)
  | stop
  deriving DecidableEq, Repr

inductive Foreign where
  | queueInLoop
  | stop
  /-- The `wakeup` of the function under way. -/
  | goOn
  deriving DecidableEq, Repr

inductive Label where
  | start
  | testFlag
  /-- `msUntilNextExpire`, with its clock reading, and the call of `poll`. -/
  | choose (now : Int)
  /-- `poll` returns, with or without the event of the wakeup channel. -/
  | pollReturns (wake : Bool)
  /-- A fatal error of `poll`. -/
  | pollFails
  /-- The handler of the wakeup channel is called. -/
  | handleWake
  /-- A `read` of `drain`. -/
  | readChannel
  | eventsDone
  /-- A step of the timers: `addTimerEvent` and `deleteTimerEvent` of any thread, and
      `processTimerEvents`. -/
  | timer (l : Timer.Label)
  | swap
  | beginTask
  | endTask
  | endRound
  | wakeAgain
  | call (c : Call)
  | foreign (t : ThreadId) (f : Foreign)
  deriving DecidableEq, Repr

inductive Event where
  | pushed (task : TaskId)
  /-- The `queueInLoop` of a task has returned. -/
  | returned (task : TaskId)
  | ran (task : TaskId)
  | timer (e : Timer.Event)
  /-- `loop()` returns. -/
  | ended
  deriving DecidableEq, Repr

/-- `static_cast<int>` of a 64-bit number. -/
def toInt (ms : Int) : Int := ms.bmod (2 ^ 32)

/-- The timeout that `loop` passes to `poll`. -/
def chooseTimeout (ms : Option Int) : Int :=
  let timeout := match ms with
    | some ms => toInt ms
    | none => kEpollWaitTimeoutMs
  if timeout = 0 then 1 else timeout

namespace EventLoop

/-- A loop before `loop()` is called. -/
def new (events : Timer.Events) (clock : Int) : EventLoop :=
  { timers := Timer.World.init events clock }

/-- A push under the mutex. -/
def push (x : EventLoop) : EventLoop :=
  { x with pending := x.pending ++ [x.next], next := x.next + 1 }

def wakeup (x : EventLoop) : EventLoop :=
  if x.channel < eventFdMax then { x with channel := x.channel + 1 } else x

def setCaller (x : EventLoop) (t : ThreadId) (c : Caller) : EventLoop :=
  { x with callers := Function.update x.callers t c }

/-- Code of the owner may be running on the loop. -/
def inUserCode (x : EventLoop) : Bool :=
  match x.place with
  | .handling _ | .inTask _ _ => true
  | .firing => x.timers.firing.any fun f => f.running.isSome
  | _ => false

def call (x : EventLoop) : Call → EventLoop × List Event
  | .addTask isWakeUp =>
    if isWakeUp then (x.push.wakeup, [.pushed x.next, .returned x.next])
    else (x.push, [.pushed x.next])
  | .stop => ({ x with stopFlag := true }.wakeup, [])

def foreign (x : EventLoop) (t : ThreadId) : Caller → Foreign → Option (EventLoop × List Event)
  | .idle, .queueInLoop => some (x.push.setCaller t (.pushed x.next), [.pushed x.next])
  | .idle, .stop => some ({ x with stopFlag := true }.setCaller t .stopping, [])
  | .pushed task, .goOn => some (x.wakeup.setCaller t .idle, [.returned task])
  | .stopping, .goOn => some (x.wakeup.setCaller t .idle, [])
  | _, _ => none

/-- Where the loop is behind a step of the timers. -/
def timerPlace (place : LoopPlace) : Timer.Label → Option LoopPlace
  | .addEvent .. | .cancelEvent _ => some place
  | .fireExpired _ => if place = .timers then some .firing else none
  | .nextExpired | .callbackReturns .. => if place = .firing then some .firing else none
  | .fireEnd => if place = .firing then some (.swapping 0) else none

/-- An insertion or a cancellation leaves the loop where it is. -/
theorem timerPlace_cases {place place' : LoopPlace} {l : Timer.Label}
    (h : timerPlace place l = some place') :
    (place' = place ∧ ((∃ ev t₁ t₂, l = .addEvent ev t₁ t₂) ∨ ∃ ev, l = .cancelEvent ev)) ∨
      (place = .timers ∧ place' = .firing) ∨
      (place = .firing ∧ (place' = .firing ∨ place' = .swapping 0)) := by
  unfold timerPlace at h
  split at h
  · exact Or.inl ⟨(Option.some.inj h).symm, Or.inl ⟨_, _, _, rfl⟩⟩
  · exact Or.inl ⟨(Option.some.inj h).symm, Or.inr ⟨_, rfl⟩⟩
  all_goals
    obtain ⟨hplace, h⟩ := Option.ite_none_right_eq_some.mp h
    have hplace' := (Option.some.inj h).symm
    simp [hplace, hplace']

def setPlace (x : EventLoop) (place : LoopPlace) : EventLoop := { x with place }

def step (x : EventLoop) : Label → Option (EventLoop × List Event)
  | .start =>
    if x.place = .notStarted then some ({ x with isLooping := true, place := .atFlag }, [])
    else none
  | .testFlag =>
    if x.place = .atFlag then
      if x.stopFlag then some ({ x with isLooping := false, place := .ended }, [.ended])
      else some (x.setPlace .choosing, [])
    else none
  | .choose now =>
    if x.place = .choosing ∧ x.timers.clock ≤ now then
      some ({ x with
        timers := { x.timers with clock := now }
        place := .polling (chooseTimeout (x.timers.wheel.msUntilNextExpire now)) now }, [])
    else none
  | .pollReturns wake =>
    match x.place with
    | .polling _ _ =>
      if wake = true ∧ x.channel = 0 then none else some (x.setPlace (.handling wake), [])
    | _ => none
  | .pollFails =>
    match x.place with
    | .polling _ _ => some ({ x with isLooping := false, place := .ended }, [.ended])
    | _ => none
  | .handleWake => if x.place = .handling true then some (x.setPlace .draining, []) else none
  | .readChannel =>
    if x.place = .draining then
      if 0 < x.channel then some ({ x with channel := 0 }, [])
      else some (x.setPlace (.handling false), [])
    else none
  | .eventsDone => if x.place = .handling false then some (x.setPlace .timers, []) else none
  | .timer l =>
    match timerPlace x.place l, Timer.step x.timers l with
    | some place, some (timers, es) => some ({ x with timers, place }, es.map .timer)
    | _, _ => none
  | .swap =>
    match x.place with
    | .swapping round =>
      if round = kMaxPendingTaskRounds then
        some (x.setPlace (if x.pending = [] then .atFlag else .waking), [])
      else if x.pending = [] then some (x.setPlace .atFlag, [])
      else some ({ x with pending := [], place := .running round x.pending }, [])
    | _ => none
  | .beginTask =>
    match x.place with
    | .running round (task :: tasks) => some (x.setPlace (.inTask round tasks), [.ran task])
    | _ => none
  | .endTask =>
    match x.place with
    | .inTask round tasks => some (x.setPlace (.running round tasks), [])
    | _ => none
  | .endRound =>
    match x.place with
    | .running round [] => some (x.setPlace (.swapping (round + 1)), [])
    | _ => none
  | .wakeAgain => if x.place = .waking then some (x.wakeup.setPlace .atFlag, []) else none
  | .call c => if x.inUserCode then some (x.call c) else none
  | .foreign t f => x.foreign t (x.callers t) f

end EventLoop

/-! ## What a step can do -/

/-- Everything a step can do, one case for each way it can go. -/
inductive Steps (x : EventLoop) : Label → EventLoop → List Event → Prop where
  | start (hp : x.place = .notStarted) :
      Steps x .start { x with isLooping := true, place := .atFlag } []
  | tested (hp : x.place = .atFlag) (hf : x.stopFlag = false) :
      Steps x .testFlag (x.setPlace .choosing) []
  | stopped (hp : x.place = .atFlag) (hf : x.stopFlag = true) :
      Steps x .testFlag { x with isLooping := false, place := .ended } [.ended]
  | chosen {now : Int} (hp : x.place = .choosing) (hnow : x.timers.clock ≤ now) :
      Steps x (.choose now) { x with
        timers := { x.timers with clock := now }
        place := .polling (chooseTimeout (x.timers.wheel.msUntilNextExpire now)) now } []
  | polled {wake : Bool} {timeout t₀ : Int} (hp : x.place = .polling timeout t₀)
      (hw : wake = true → 0 < x.channel) :
      Steps x (.pollReturns wake) (x.setPlace (.handling wake)) []
  | failed {timeout t₀ : Int} (hp : x.place = .polling timeout t₀) :
      Steps x .pollFails { x with isLooping := false, place := .ended } [.ended]
  | handles (hp : x.place = .handling true) : Steps x .handleWake (x.setPlace .draining) []
  | reads (hp : x.place = .draining) (hc : 0 < x.channel) :
      Steps x .readChannel { x with channel := 0 } []
  | drained (hp : x.place = .draining) (hc : x.channel = 0) :
      Steps x .readChannel (x.setPlace (.handling false)) []
  | handled (hp : x.place = .handling false) : Steps x .eventsDone (x.setPlace .timers) []
  | timer {l : Timer.Label} {place : LoopPlace} {timers : Timer.World} {es : List Timer.Event}
      (hp : EventLoop.timerPlace x.place l = some place)
      (hs : Timer.step x.timers l = some (timers, es)) :
      Steps x (.timer l) { x with timers, place } (es.map .timer)
  | swapped {round : Nat} (hp : x.place = .swapping round) (hr : round ≠ kMaxPendingTaskRounds)
      (hne : x.pending ≠ []) :
      Steps x .swap { x with pending := [], place := .running round x.pending } []
  | empty {round : Nat} (hp : x.place = .swapping round) (hnil : x.pending = []) :
      Steps x .swap (x.setPlace .atFlag) []
  | remains (hp : x.place = .swapping kMaxPendingTaskRounds) (hne : x.pending ≠ []) :
      Steps x .swap (x.setPlace .waking) []
  | begins {round : Nat} {task : TaskId} {tasks : List TaskId}
      (hp : x.place = .running round (task :: tasks)) :
      Steps x .beginTask (x.setPlace (.inTask round tasks)) [.ran task]
  | ends {round : Nat} {tasks : List TaskId} (hp : x.place = .inTask round tasks) :
      Steps x .endTask (x.setPlace (.running round tasks)) []
  | roundEnds {round : Nat} (hp : x.place = .running round []) :
      Steps x .endRound (x.setPlace (.swapping (round + 1))) []
  | wakes (hp : x.place = .waking) : Steps x .wakeAgain (x.wakeup.setPlace .atFlag) []
  | call (c : Call) (hu : x.inUserCode = true) : Steps x (.call c) (x.call c).1 (x.call c).2
  | queued {t : ThreadId} (hc : x.callers t = .idle) :
      Steps x (.foreign t .queueInLoop) (x.push.setCaller t (.pushed x.next)) [.pushed x.next]
  | flagged {t : ThreadId} (hc : x.callers t = .idle) :
      Steps x (.foreign t .stop) ({ x with stopFlag := true }.setCaller t .stopping) []
  | signals {t : ThreadId} {task : TaskId} (hc : x.callers t = .pushed task) :
      Steps x (.foreign t .goOn) (x.wakeup.setCaller t .idle) [.returned task]
  | stopSignals {t : ThreadId} (hc : x.callers t = .stopping) :
      Steps x (.foreign t .goOn) (x.wakeup.setCaller t .idle) []

theorem steps_of_step {x x' : EventLoop} {l : Label} {es : List Event}
    (h : x.step l = some (x', es)) : Steps x l x' es := by
  have hinj : ∀ {y : EventLoop} {fs : List Event}, some (y, fs) = some (x', es) →
      Steps x l y fs → Steps x l x' es := by
    intro y fs heq hy
    obtain ⟨rfl, rfl⟩ := Prod.mk.inj (Option.some.inj heq)
    exact hy
  cases l with
  | start =>
    obtain ⟨hp, h⟩ := Option.ite_none_right_eq_some.mp h
    exact hinj h (.start hp)
  | testFlag =>
    obtain ⟨hp, h⟩ := Option.ite_none_right_eq_some.mp h
    split at h
    · rename_i hf
      exact hinj h (.stopped hp hf)
    · rename_i hf
      exact hinj h (.tested hp (by simpa using hf))
  | choose now =>
    obtain ⟨⟨hp, hnow⟩, h⟩ := Option.ite_none_right_eq_some.mp h
    exact hinj h (.chosen hp hnow)
  | pollReturns wake =>
    simp only [EventLoop.step] at h
    split at h
    · rename_i timeout t₀ hp
      obtain ⟨hw, h⟩ := Option.ite_none_left_eq_some.mp h
      exact hinj h (.polled hp fun hwake => Nat.pos_of_ne_zero fun hz => hw ⟨hwake, hz⟩)
    · exact absurd h (by simp)
  | pollFails =>
    simp only [EventLoop.step] at h
    split at h
    · rename_i timeout t₀ hp
      exact hinj h (.failed hp)
    · exact absurd h (by simp)
  | handleWake =>
    obtain ⟨hp, h⟩ := Option.ite_none_right_eq_some.mp h
    exact hinj h (.handles hp)
  | readChannel =>
    obtain ⟨hp, h⟩ := Option.ite_none_right_eq_some.mp h
    split at h
    · rename_i hc
      exact hinj h (.reads hp hc)
    · rename_i hc
      exact hinj h (.drained hp (Nat.eq_zero_of_not_pos hc))
  | eventsDone =>
    obtain ⟨hp, h⟩ := Option.ite_none_right_eq_some.mp h
    exact hinj h (.handled hp)
  | timer l =>
    simp only [EventLoop.step] at h
    split at h
    · rename_i place timers es' hp hs
      exact hinj h (.timer hp hs)
    · exact absurd h (by simp)
  | swap =>
    simp only [EventLoop.step] at h
    split at h
    · rename_i round hp
      by_cases hnil : x.pending = []
      · simp only [hnil, if_true, ite_self] at h
        exact hinj h (.empty hp hnil)
      · rw [if_neg hnil, if_neg hnil] at h
        split at h
        · rename_i hr
          exact hinj h (.remains (hr ▸ hp) hnil)
        · rename_i hr
          exact hinj h (.swapped hp hr hnil)
    · exact absurd h (by simp)
  | beginTask =>
    simp only [EventLoop.step] at h
    split at h
    · rename_i round task tasks hp
      exact hinj h (.begins hp)
    · exact absurd h (by simp)
  | endTask =>
    simp only [EventLoop.step] at h
    split at h
    · rename_i round tasks hp
      exact hinj h (.ends hp)
    · exact absurd h (by simp)
  | endRound =>
    simp only [EventLoop.step] at h
    split at h
    · rename_i round hp
      exact hinj h (.roundEnds hp)
    · exact absurd h (by simp)
  | wakeAgain =>
    obtain ⟨hp, h⟩ := Option.ite_none_right_eq_some.mp h
    exact hinj h (.wakes hp)
  | call c =>
    obtain ⟨hu, h⟩ := Option.ite_none_right_eq_some.mp h
    exact hinj h (.call c hu)
  | foreign t f =>
    simp only [EventLoop.step, EventLoop.foreign] at h
    split at h
    · rename_i hc
      exact hinj h (.queued hc)
    · rename_i hc
      exact hinj h (.flagged hc)
    · rename_i task hc
      exact hinj h (.signals hc)
    · rename_i hc
      exact hinj h (.stopSignals hc)
    · exact absurd h (by simp)

/-! ## Pushes and signals -/

namespace EventLoop

variable (x : EventLoop)

@[simp] theorem push_next : x.push.next = x.next + 1 := rfl

@[simp] theorem push_place : x.push.place = x.place := rfl

theorem setCaller_self (t : ThreadId) (c : Caller) : (x.setCaller t c).callers t = c := by
  simp [setCaller]

theorem setCaller_of_ne {t t' : ThreadId} (h : t' ≠ t) (c : Caller) :
    (x.setCaller t c).callers t' = x.callers t' := by
  simp [setCaller, h]

@[simp] theorem wakeup_pending : x.wakeup.pending = x.pending := by
  unfold wakeup
  split <;> rfl

@[simp] theorem wakeup_place : x.wakeup.place = x.place := by
  unfold wakeup
  split <;> rfl

@[simp] theorem wakeup_callers : x.wakeup.callers = x.callers := by
  unfold wakeup
  split <;> rfl

@[simp] theorem wakeup_next : x.wakeup.next = x.next := by
  unfold wakeup
  split <;> rfl

@[simp] theorem wakeup_timers : x.wakeup.timers = x.timers := by
  unfold wakeup
  split <;> rfl

@[simp] theorem wakeup_stopFlag : x.wakeup.stopFlag = x.stopFlag := by
  unfold wakeup
  split <;> rfl

@[simp] theorem wakeup_isLooping : x.wakeup.isLooping = x.isLooping := by
  unfold wakeup
  split <;> rfl

/-- A signalled channel is readable, also where the write fails. -/
theorem wakeup_channel_pos : 0 < x.wakeup.channel := by
  unfold wakeup
  split
  · exact Nat.succ_pos _
  · rename_i hfull
    have hmax : 0 < eventFdMax := by decide
    omega

end EventLoop

end RocketRpc.Loop
