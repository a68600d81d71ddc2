import RocketRpc.Lib.Simulation
import RocketRpc.Loop.EventLoop

/-
  The loop with a pipe in place of the eventfd (`PipeWakeupChannel` in
  `rocket/net/poller/wakeup_channel.cc`).

  A `wakeup` writes one byte, and fails where the pipe is full; a `read` of `drain` takes as many
  bytes as its buffer holds, so a `drain` may need several of them where the eventfd needs one.
  The two loops differ in nothing but that: each does what the other one can do
  (`pipe_loop_agrees`).
-/

namespace RocketRpc.Loop

open Machine

/-- `sizeof(buf)` in `drain`. -/
def kDrainBytes : Nat := 64

namespace EventLoop

/-- `PipeWakeupChannel::wakeup`, over a pipe of `capacity` bytes. -/
def wakeupPipe (capacity : Nat) (x : EventLoop) : EventLoop :=
  if x.channel < capacity then { x with channel := x.channel + 1 } else x

def pipeCall (capacity : Nat) (x : EventLoop) : Call → EventLoop × List Event
  | .addTask isWakeUp =>
    if isWakeUp then (x.push.wakeupPipe capacity, [.pushed x.next, .returned x.next])
    else (x.push, [.pushed x.next])
  | .stop => ({ x with stopFlag := true }.wakeupPipe capacity, [])

def pipeForeign (capacity : Nat) (x : EventLoop) (t : ThreadId) :
    Caller → Foreign → Option (EventLoop × List Event)
  | .idle, .queueInLoop => some (x.push.setCaller t (.pushed x.next), [.pushed x.next])
  | .idle, .stop => some ({ x with stopFlag := true }.setCaller t .stopping, [])
  | .pushed task, .goOn => some ((x.wakeupPipe capacity).setCaller t .idle, [.returned task])
  | .stopping, .goOn => some ((x.wakeupPipe capacity).setCaller t .idle, [])
  | _, _ => none

/-- The steps of the loop over a pipe; those that leave the channel alone are the same. -/
def pipeStep (capacity : Nat) (x : EventLoop) : Label → Option (EventLoop × List Event)
  | .readChannel =>
    if x.place = .draining then
      if 0 < x.channel then some ({ x with channel := x.channel - min kDrainBytes x.channel }, [])
      else some (x.setPlace (.handling false), [])
    else none
  | .wakeAgain =>
    if x.place = .waking then some ((x.wakeupPipe capacity).setPlace .atFlag, []) else none
  | .call c => if x.inUserCode then some (x.pipeCall capacity c) else none
  | .foreign t f => x.pipeForeign capacity t (x.callers t) f
  | l => x.step l

def setChannel (x : EventLoop) (n : Nat) : EventLoop := { x with channel := n }

/-- A loop over a pipe and one over an eventfd are at the same place with the same tasks and
    timers, and both channels are readable or neither is. -/
def SameSignal (x y : EventLoop) : Prop :=
  ∃ n, x = y.setChannel n ∧ (n = 0 ↔ y.channel = 0)

end EventLoop

open EventLoop

/-- The label is a `wakeup` of some thread, or a `read` of the channel. -/
def Label.usesChannel : Label → Bool
  | .readChannel | .wakeAgain | .call _ | .foreign _ _ => true
  | _ => false

theorem pipeStep_of_not_usesChannel {l : Label} (hl : l.usesChannel = false) (capacity : Nat)
    (x : EventLoop) : x.pipeStep capacity l = x.step l := by
  cases l <;> first | rfl | simp [Label.usesChannel] at hl

/-- The other steps only look whether the channel is readable. -/
theorem step_setChannel {l : Label} (hl : l.usesChannel = false) {x : EventLoop} {n : Nat}
    (hn : n = 0 ↔ x.channel = 0) :
    (x.setChannel n).step l = (x.step l).map fun r => (r.1.setChannel n, r.2) := by
  cases l with
  | readChannel | wakeAgain | call c | foreign t f => simp [Label.usesChannel] at hl
  | start => by_cases hp : x.place = .notStarted <;> simp [step, setChannel, hp]
  | testFlag =>
    by_cases hp : x.place = .atFlag <;> cases hf : x.stopFlag <;>
      simp [step, setChannel, setPlace, hp, hf]
  | choose now =>
    by_cases hp : x.place = .choosing ∧ x.timers.clock ≤ now <;> simp [step, setChannel, hp]
  | handleWake => by_cases hp : x.place = .handling true <;> simp [step, setChannel, setPlace, hp]
  | eventsDone => by_cases hp : x.place = .handling false <;> simp [step, setChannel, setPlace, hp]
  | pollFails | beginTask | endTask | endRound =>
    simp only [step, setChannel]
    split <;> rfl
  | pollReturns wake =>
    simp only [step, setChannel]
    cases x.place with
    | polling timeout t₀ => by_cases hc : wake = true ∧ x.channel = 0 <;> simp [setPlace, hn, hc]
    | _ => rfl
  | timer l =>
    simp only [step, setChannel]
    split <;> rfl
  | swap =>
    simp only [step, setChannel]
    cases x.place with
    | swapping round =>
      by_cases hr : round = kMaxPendingTaskRounds <;> by_cases hp : x.pending = [] <;>
        simp [setPlace, hr, hp]
    | _ => rfl

theorem step_channel {l : Label} (hl : l.usesChannel = false) {x x' : EventLoop} {es : List Event}
    (hs : x.step l = some (x', es)) : x'.channel = x.channel := by
  cases steps_of_step hs with
  | reads | drained | wakes | call | queued | flagged | signals | stopSignals =>
    simp [Label.usesChannel] at hl
  | _ => rfl

/-! ## Equal steps -/

namespace EventLoop

variable {capacity : Nat} {x y : EventLoop}

theorem SameSignal.place_eq (h : SameSignal x y) : x.place = y.place := by
  obtain ⟨n, rfl, -⟩ := h
  rfl

theorem SameSignal.setPlace (h : SameSignal x y) (place : LoopPlace) :
    SameSignal (x.setPlace place) (y.setPlace place) := by
  obtain ⟨n, rfl, hn⟩ := h
  exact ⟨n, rfl, hn⟩

theorem SameSignal.setCaller (h : SameSignal x y) (t : ThreadId) (c : Caller) :
    SameSignal (x.setCaller t c) (y.setCaller t c) := by
  obtain ⟨n, rfl, hn⟩ := h
  exact ⟨n, rfl, hn⟩

theorem SameSignal.push (h : SameSignal x y) : SameSignal x.push y.push := by
  obtain ⟨n, rfl, hn⟩ := h
  exact ⟨n, rfl, hn⟩

theorem SameSignal.stop (h : SameSignal x y) :
    SameSignal { x with stopFlag := true } { y with stopFlag := true } := by
  obtain ⟨n, rfl, hn⟩ := h
  exact ⟨n, rfl, hn⟩

theorem wakeupPipe_channel_pos (hcapacity : 0 < capacity) (x : EventLoop) :
    0 < (x.wakeupPipe capacity).channel := by
  unfold wakeupPipe
  split
  · exact Nat.succ_pos _
  · omega

/-- Both writes leave the channel readable, also where they fail. -/
theorem SameSignal.wakeup (hcapacity : 0 < capacity) (h : SameSignal x y) :
    SameSignal (x.wakeupPipe capacity) y.wakeup := by
  have hx := wakeupPipe_channel_pos hcapacity x
  have hy := y.wakeup_channel_pos
  refine ⟨(x.wakeupPipe capacity).channel, ?_, by omega⟩
  obtain ⟨n, rfl, -⟩ := h
  unfold wakeupPipe EventLoop.wakeup
  split_ifs <;> rfl

theorem SameSignal.call (hcapacity : 0 < capacity) (h : SameSignal x y) (c : Call) :
    SameSignal (x.pipeCall capacity c).1 (y.call c).1 ∧
      (x.pipeCall capacity c).2 = (y.call c).2 := by
  have hnext : x.next = y.next := by
    obtain ⟨n, rfl, -⟩ := h
    rfl
  cases c with
  | addTask isWakeUp =>
    cases isWakeUp with
    | false => exact ⟨h.push, by simp [pipeCall, EventLoop.call, hnext]⟩
    | true => exact ⟨h.push.wakeup hcapacity, by simp [pipeCall, EventLoop.call, hnext]⟩
  | stop => exact ⟨h.stop.wakeup hcapacity, rfl⟩

/-- The steps lead to loops that are the same again, and show the same. -/
def SameStep (r r' : EventLoop × List Event) : Prop := SameSignal r.1 r'.1 ∧ r.2 = r'.2

theorem SameSignal.foreign (hcapacity : 0 < capacity) (h : SameSignal x y) (t : ThreadId)
    (c : Caller) (f : Foreign) :
    Option.Rel SameStep (x.pipeForeign capacity t c f) (y.foreign t c f) := by
  have hnext : x.next = y.next := by
    obtain ⟨n, rfl, -⟩ := h
    rfl
  cases c with
  | idle =>
    cases f with
    | queueInLoop =>
      simp only [pipeForeign, EventLoop.foreign, hnext]
      exact .some ⟨h.push.setCaller t _, rfl⟩
    | stop => exact .some ⟨h.stop.setCaller t _, rfl⟩
    | goOn => exact .none
  | pushed task =>
    cases f with
    | goOn => exact .some ⟨(h.wakeup hcapacity).setCaller t _, rfl⟩
    | _ => exact .none
  | stopping =>
    cases f with
    | goOn => exact .some ⟨(h.wakeup hcapacity).setCaller t _, rfl⟩
    | _ => exact .none

/-- All steps but those of `drain` are taken together. -/
theorem SameSignal.step (hcapacity : 0 < capacity) (h : SameSignal x y) {l : Label}
    (hl : l ≠ .readChannel) : Option.Rel SameStep (x.pipeStep capacity l) (y.step l) := by
  by_cases huses : l.usesChannel = false
  · obtain ⟨n, rfl, hn⟩ := h
    rw [pipeStep_of_not_usesChannel huses, step_setChannel huses hn]
    cases hs : y.step l with
    | none => exact .none
    | some r => exact .some ⟨⟨n, rfl, by rwa [step_channel huses hs]⟩, rfl⟩
  · cases l with
    | readChannel => exact absurd rfl hl
    | wakeAgain =>
      simp only [pipeStep, EventLoop.step, h.place_eq]
      split
      · exact .some ⟨(h.wakeup hcapacity).setPlace _, rfl⟩
      · exact .none
    | call c =>
      have huser : x.inUserCode = y.inUserCode := by
        obtain ⟨n, rfl, -⟩ := h
        rfl
      simp only [pipeStep, EventLoop.step, huser]
      split
      · exact .some (h.call hcapacity c)
      · exact .none
    | foreign t f =>
      have hcallers : x.callers = y.callers := by
        obtain ⟨n, rfl, -⟩ := h
        rfl
      simp only [pipeStep, EventLoop.step, hcallers]
      exact h.foreign hcapacity t _ f
    | _ => exact absurd rfl huses

end EventLoop

/-! ## Both directions -/

variable {capacity : Nat}

/-- A `read` that leaves bytes in the pipe is no step of the loop over an eventfd. -/
theorem read_simulated {x x' y : EventLoop} {es : List Event} (h : SameSignal x y)
    (hs : x.pipeStep capacity .readChannel = some (x', es)) :
    ∃ ms y', run step y ms = some (y', es) ∧ SameSignal x' y' := by
  obtain ⟨n, rfl, hn⟩ := h
  obtain ⟨hplace, hs⟩ := Option.ite_none_right_eq_some.mp hs
  have hdraining : y.place = .draining := hplace
  split at hs
  · rename_i hpos
    obtain ⟨rfl, rfl⟩ := Prod.mk.inj (Option.some.inj hs)
    have hchannel : 0 < y.channel := by
      have hn' : 0 < n := hpos
      omega
    by_cases hfew : n ≤ kDrainBytes
    · refine ⟨[.readChannel], { y with channel := 0 }, run_of_step ?_, 0, ?_, by simp⟩
      · simp [step, hdraining, hchannel]
      · simp [setChannel, hfew]
    · refine ⟨[], y, rfl, n - min kDrainBytes n, rfl, ?_⟩
      omega
  · rename_i hzero
    obtain ⟨rfl, rfl⟩ := Prod.mk.inj (Option.some.inj hs)
    have hn0 : n = 0 := Nat.eq_zero_of_not_pos hzero
    have hchannel := hn.mp hn0
    refine ⟨[.readChannel], y.setPlace (.handling false), run_of_step ?_, n, rfl, hn⟩
    simp [step, hdraining, hchannel]

theorem pipe_simulated (hcapacity : 0 < capacity) :
    Simulates (pipeStep capacity) step some some SameSignal := by
  intro x y l x' es h hs
  by_cases hl : l = .readChannel
  · subst hl
    obtain ⟨ms, y', hrun, h'⟩ := read_simulated h hs
    exact ⟨ms, y', es, hrun, rfl, h'⟩
  · have hrel := h.step hcapacity hl
    rw [hs] at hrel
    cases hy : y.step l with
    | none =>
      rw [hy] at hrel
      cases hrel
    | some r =>
      rw [hy] at hrel
      obtain ⟨hsame, hes⟩ : SameStep (x', es) r := by
        cases hrel
        assumption
      exact ⟨[l], r.1, r.2, run_of_step hy, by simp [← hes], hsame⟩

/-- `drain` empties the pipe. -/
theorem drain_run (capacity : Nat) (y : EventLoop) (hplace : y.place = .draining) (n : Nat) :
    ∃ ms, run (pipeStep capacity) (y.setChannel n) ms = some (y.setChannel 0, []) := by
  induction n using Nat.strongRecOn with
  | ind n ih =>
    by_cases hn : n = 0
    · exact ⟨[], by rw [hn]; rfl⟩
    · have hless : n - min kDrainBytes n < n := by
        have hbytes : 0 < kDrainBytes := by decide
        omega
      obtain ⟨ms, hms⟩ := ih _ hless
      refine ⟨.readChannel :: ms, run_cons_eq_some.mpr ⟨y.setChannel _, [], [], ?_, hms, rfl⟩⟩
      have hpos : 0 < n := Nat.pos_of_ne_zero hn
      simp [pipeStep, setChannel, hplace, hpos]

/-- One `read` of the eventfd is as many of the pipe as it takes. -/
theorem read_simulates {x y y' : EventLoop} {es : List Event} (h : SameSignal x y)
    (hs : y.step .readChannel = some (y', es)) :
    ∃ ms x', run (pipeStep capacity) x ms = some (x', es) ∧ SameSignal x' y' := by
  obtain ⟨n, rfl, hn⟩ := h
  obtain ⟨hplace, hs⟩ := Option.ite_none_right_eq_some.mp hs
  split at hs
  · obtain ⟨rfl, rfl⟩ := Prod.mk.inj (Option.some.inj hs)
    obtain ⟨ms, hms⟩ := drain_run capacity y hplace n
    exact ⟨ms, y.setChannel 0, hms, 0, rfl, by simp⟩
  · rename_i hzero
    obtain ⟨rfl, rfl⟩ := Prod.mk.inj (Option.some.inj hs)
    have hn0 : n = 0 := hn.mpr (Nat.eq_zero_of_not_pos hzero)
    refine ⟨[.readChannel], (y.setChannel n).setPlace (.handling false), run_of_step ?_, n, rfl, hn⟩
    simp [pipeStep, setChannel, hplace, hn0]

theorem pipe_simulates (hcapacity : 0 < capacity) :
    Simulates step (pipeStep capacity) some some fun y x => SameSignal x y := by
  intro y x l y' es h hs
  by_cases hl : l = .readChannel
  · subst hl
    obtain ⟨ms, x', hrun, h'⟩ := read_simulates h hs
    exact ⟨ms, x', es, hrun, rfl, h'⟩
  · have hrel := h.step hcapacity hl
    rw [hs] at hrel
    cases hx : x.pipeStep capacity l with
    | none =>
      rw [hx] at hrel
      cases hrel
    | some r =>
      rw [hx] at hrel
      obtain ⟨hsame, hes⟩ : SameStep r (y', es) := by
        cases hrel
        assumption
      exact ⟨[l], r.1, r.2, run_of_step hx, by simp [hes], hsame⟩

/-- Whatever a loop over a pipe does, a loop over an eventfd can do, and the other way round: the
    same tasks, timers and threads, the same events in the same order, and a channel that is
    readable at the same time. -/
theorem pipe_loop_agrees (hcapacity : 0 < capacity) (events : Timer.Events) (clock : Int)
    (es : List Event) :
    (∀ ls x, run (pipeStep capacity) (.new events clock) ls = some (x, es) →
      ∃ ms y, run step (.new events clock) ms = some (y, es) ∧ SameSignal x y) ∧
    ∀ ls y, run step (.new events clock) ls = some (y, es) →
      ∃ ms x, run (pipeStep capacity) (.new events clock) ms = some (x, es) ∧ SameSignal x y := by
  have hnew : SameSignal (.new events clock) (.new events clock) := ⟨0, rfl, by simp [new]⟩
  constructor
  · intro ls x hrun
    obtain ⟨ms, y, fs, hms, hfs, h⟩ := run_simulates (pipe_simulated hcapacity) hnew hrun
    obtain rfl : fs = es := by simpa using hfs
    exact ⟨ms, y, hms, h⟩
  · intro ls y hrun
    obtain ⟨ms, x, fs, hms, hfs, h⟩ := run_simulates (pipe_simulates hcapacity) hnew hrun
    obtain rfl : fs = es := by simpa using hfs
    exact ⟨ms, x, hms, h⟩

/-- Two tasks are queued over a pipe that has room for one byte. -/
def fullPipe : List Label :=
  [.start, .testFlag, .choose 0, .foreign 1 .queueInLoop, .foreign 1 .goOn,
    .foreign 2 .queueInLoop, .foreign 2 .goOn, .pollReturns true, .handleWake, .readChannel]

theorem pipe_loop_agrees_full_pipe :
    ∃ ms y, run step (.new (fun _ => ⟨0, 0, false, false, false⟩) 0) ms =
      some (y, [.pushed 0, .returned 0, .pushed 1, .returned 1]) ∧ y.place = .draining ∧
        y.channel = 0 ∧ y.pending = [0, 1] := by
  have hrun : ∃ x, run (pipeStep 1) (.new (fun _ => ⟨0, 0, false, false, false⟩) 0) fullPipe =
      some (x, [.pushed 0, .returned 0, .pushed 1, .returned 1]) ∧ x.place = .draining ∧
        x.channel = 0 ∧ x.pending = [0, 1] := ⟨_, rfl, rfl, rfl, rfl⟩
  obtain ⟨x, hrun, hplace, hchannel, hpending⟩ := hrun
  obtain ⟨ms, y, hms, n, rfl, hn⟩ := (pipe_loop_agrees (by decide) _ 0 _).1 fullPipe x hrun
  exact ⟨ms, y, hms, hplace, hn.mp hchannel, hpending⟩

end RocketRpc.Loop
