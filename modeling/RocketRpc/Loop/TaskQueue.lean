import RocketRpc.Lib.Machine
import RocketRpc.Loop.EventLoop

/-
  The task queue of a running event loop.

  What has run, what is left of the generation that is running, and what is pending are the
  pushes so far, in their order (`InTurn`): so no task runs twice or in front of an earlier one.
  From the last swap of a turn to the end of the next `poll` nobody takes pending tasks, and
  with some pending the channel is signalled, or a thread has pushed and is about to signal it
  (`Woken`): a drain of the channel is always followed by a swap. `task_queue` has both for every
  run.
-/

namespace RocketRpc.Loop

open Machine

/-- What is left of the generation that is running. -/
def LoopPlace.generation : LoopPlace → List TaskId
  | .running _ tasks | .inTask _ tasks => tasks
  | _ => []

/-- The places from which the loop comes to `poll` without a look at the pending tasks. -/
def LoopPlace.sleeps : LoopPlace → Bool
  | .notStarted | .atFlag | .choosing | .polling _ _ => true
  | _ => false

def Event.ranTask : Event → Option TaskId
  | .ran task => some task
  | _ => none

def Event.pushedTask : Event → Option TaskId
  | .pushed task => some task
  | _ => none

/-- The tasks that were executed, in this order. -/
def ranTasks (es : List Event) : List TaskId := es.filterMap Event.ranTask

/-- The tasks that were pushed, in this order. -/
def pushedTasks (es : List Event) : List TaskId := es.filterMap Event.pushedTask

theorem ranTasks_append (es fs : List Event) : ranTasks (es ++ fs) = ranTasks es ++ ranTasks fs :=
  List.filterMap_append

theorem pushedTasks_append (es fs : List Event) :
    pushedTasks (es ++ fs) = pushedTasks es ++ pushedTasks fs :=
  List.filterMap_append

theorem ranTasks_timer (es : List Timer.Event) : ranTasks (es.map .timer) = [] := by
  unfold ranTasks
  rw [List.filterMap_map]
  exact List.filterMap_eq_nil_iff.mpr fun _ _ => rfl

theorem pushedTasks_timer (es : List Timer.Event) : pushedTasks (es.map .timer) = [] := by
  unfold pushedTasks
  rw [List.filterMap_map]
  exact List.filterMap_eq_nil_iff.mpr fun _ _ => rfl

namespace EventLoop

/-- The channel is signalled, or a thread is in front of the `wakeup` of its `queueInLoop`. -/
def Signalled (x : EventLoop) : Prop :=
  0 < x.channel ∨ ∃ t task, x.callers t = .pushed task

/-- The steps of the timers stay where no generation is running, and go to a swap. -/
theorem timerPlace_generation {place place' : LoopPlace} {l : Timer.Label}
    (h : timerPlace place l = some place') : place'.generation = place.generation := by
  obtain ⟨rfl, -⟩ | ⟨rfl, rfl⟩ | ⟨rfl, rfl | rfl⟩ := timerPlace_cases h <;> rfl

theorem timerPlace_sleeps {place place' : LoopPlace} {l : Timer.Label}
    (h : timerPlace place l = some place') (hs : place'.sleeps = true) : place' = place := by
  obtain ⟨heq, -⟩ | ⟨-, rfl⟩ | ⟨-, rfl | rfl⟩ := timerPlace_cases h
  · exact heq
  all_goals exact absurd hs (by simp [LoopPlace.sleeps])

end EventLoop

/-! ## Order -/

/-- The tasks that have run, those of the generation and the pending ones are all pushes. -/
structure InTurn (x : EventLoop) (tr : List Event) : Prop where
  order : ranTasks tr ++ (x.place.generation ++ x.pending) = List.range x.next
  pushed : pushedTasks tr = List.range x.next

theorem InTurn.of_same {x x' : EventLoop} {tr es : List Event} (h : InTurn x tr)
    (hgeneration : x'.place.generation ++ x'.pending = x.place.generation ++ x.pending)
    (hnext : x'.next = x.next) (hran : ranTasks es = []) (hpushed : pushedTasks es = []) :
    InTurn x' (tr ++ es) where
  order := by rw [ranTasks_append, hran, List.append_nil, hgeneration, hnext, h.order]
  pushed := by rw [pushedTasks_append, hpushed, List.append_nil, hnext, h.pushed]

/-- A push gets the next number. -/
theorem InTurn.push {x x' : EventLoop} {tr es : List Event} (h : InTurn x tr)
    (hplace : x'.place = x.place) (hpending : x'.pending = x.pending ++ [x.next])
    (hnext : x'.next = x.next + 1) (hran : ranTasks es = []) (hpushed : pushedTasks es = [x.next]) :
    InTurn x' (tr ++ es) where
  order := by
    rw [ranTasks_append, hran, List.append_nil, hplace, hpending, hnext, List.range_succ, ← h.order]
    simp only [List.append_assoc]
  pushed := by
    rw [pushedTasks_append, hpushed, hnext, List.range_succ, h.pushed]

/-- A step keeps the tasks in turn. -/
theorem step_inTurn {x x' : EventLoop} {tr : List Event} {l : Label} {es : List Event}
    (h : InTurn x tr) (hs : x.step l = some (x', es)) : InTurn x' (tr ++ es) := by
  have hmoved : ∀ {place : LoopPlace}, place.generation = x.place.generation →
      InTurn (x.setPlace place) (tr ++ []) := fun hg =>
    h.of_same (congrArg (· ++ x.pending) hg) rfl rfl rfl
  cases steps_of_step hs with
  | start hp | stopped hp | failed hp | chosen hp =>
    exact h.of_same (by simp [hp, LoopPlace.generation]) rfl rfl rfl
  | tested hp | polled hp | handles hp | drained hp | handled hp | empty hp | remains hp
  | roundEnds hp =>
    exact hmoved (by rw [hp]; rfl)
  | reads hp hc => exact h.of_same rfl rfl rfl rfl
  | timer hp hs =>
    exact h.of_same (congrArg (· ++ x.pending) (EventLoop.timerPlace_generation hp)) rfl
      (ranTasks_timer _) (pushedTasks_timer _)
  | swapped hp hr hne =>
    refine h.of_same ?_ rfl rfl rfl
    rw [hp]
    exact List.append_nil _
  | @begins round task tasks hp =>
    refine ⟨?_, ?_⟩
    · have horder := h.order
      rw [hp] at horder
      rw [ranTasks_append, List.append_assoc]
      exact horder
    · rw [pushedTasks_append]
      exact (List.append_nil _).trans h.pushed
  | ends hp => exact hmoved (by rw [hp]; rfl)
  | wakes hp =>
    refine h.of_same ?_ x.wakeup_next rfl rfl
    rw [hp]
    exact x.wakeup_pending
  | call c hu =>
    cases c with
    | addTask isWakeUp =>
      cases isWakeUp with
      | false => exact h.push rfl rfl rfl rfl rfl
      | true =>
        exact h.push (x.push.wakeup_place) (x.push.wakeup_pending) (x.push.wakeup_next) rfl rfl
    | stop =>
      exact h.of_same (by simp [EventLoop.call]) (EventLoop.wakeup_next _) rfl rfl
  | queued hc => exact h.push rfl rfl rfl rfl rfl
  | flagged hc => exact h.of_same rfl rfl rfl rfl
  | signals hc | stopSignals hc =>
    exact h.of_same (by simp [EventLoop.setCaller]) x.wakeup_next rfl rfl

/-! ## No wakeup is lost -/

/-- With tasks pending, a loop that comes to `poll` finds it signalled. -/
def Woken (x : EventLoop) : Prop :=
  x.place.sleeps = true → x.pending ≠ [] → x.Signalled

theorem woken_of_awake {x : EventLoop} (h : x.place.sleeps = false) : Woken x :=
  fun hs => absurd (h.symm.trans hs) (by simp)

/-- A thread that has no `wakeup` in front of it keeps the signal of the others. -/
theorem EventLoop.Signalled.setCaller {x x' : EventLoop} {t : ThreadId} {c : Caller}
    (h : x.Signalled) (hc : ∀ task, x.callers t ≠ .pushed task)
    (hchannel : x.channel ≤ x'.channel) (hcallers : x'.callers = x.callers) :
    (x'.setCaller t c).Signalled := by
  rcases h with hpos | ⟨t', task, ht'⟩
  · exact Or.inl (Nat.lt_of_lt_of_le hpos hchannel)
  · refine Or.inr ⟨t', task, ?_⟩
    have hne : t' ≠ t := by
      rintro rfl
      exact hc task ht'
    rw [x'.setCaller_of_ne hne, hcallers]
    exact ht'

theorem step_woken {x x' : EventLoop} {l : Label} {es : List Event} (h : Woken x)
    (hs : x.step l = some (x', es)) : Woken x' := by
  cases steps_of_step hs with
  | start hp | tested hp | chosen hp =>
    intro _ hne
    exact h (by rw [hp]; rfl) hne
  | stopped | failed | polled | handles | drained | handled | swapped | remains | begins | ends
  | roundEnds =>
    exact woken_of_awake rfl
  | reads hp hc => exact woken_of_awake (by rw [hp]; rfl)
  | timer hp hs =>
    intro hsleeps hne
    refine h ?_ hne
    rw [← EventLoop.timerPlace_sleeps hp hsleeps]
    exact hsleeps
  | empty hp hnil => exact fun _ hne => absurd hnil hne
  | wakes hp => exact fun _ _ => Or.inl x.wakeup_channel_pos
  | call c hu =>
    have hawake : x.place.sleeps = false := by
      unfold EventLoop.inUserCode at hu
      split at hu
      · rename_i hp
        rw [hp]
        rfl
      · rename_i hp
        rw [hp]
        rfl
      · rename_i hp
        rw [hp]
        rfl
      · exact absurd hu (by simp)
    have hplace : (x.call c).1.place = x.place := by
      cases c with
      | addTask isWakeUp => cases isWakeUp <;> simp [EventLoop.call, EventLoop.push]
      | stop => simp [EventLoop.call]
    exact woken_of_awake (hplace ▸ hawake)
  | @queued t hc => exact fun _ _ => Or.inr ⟨t, x.next, x.push.setCaller_self t _⟩
  | flagged hc =>
    exact fun hsleeps hne =>
      (h hsleeps hne).setCaller (by simp [hc]) (Nat.le_refl _) rfl
  | signals hc | stopSignals hc => exact fun _ _ => Or.inl x.wakeup_channel_pos

/-! ## Main result -/

/-- In every run the executed tasks are the first of the pushed ones, each once and in the order
    of the pushes, and while the loop is in `poll` with tasks pending, the channel is signalled
    or a thread has pushed and is about to signal it. -/
theorem task_queue (events : Timer.Events) (clock : Int) (ls : List Label) (x : EventLoop)
    (tr : List Event) (hrun : run EventLoop.step (EventLoop.new events clock) ls = some (x, tr)) :
    (pushedTasks tr).Nodup ∧ ranTasks tr <+: pushedTasks tr ∧
      ∀ timeout t₀, x.place = .polling timeout t₀ → x.pending ≠ [] →
        0 < x.channel ∨ ∃ t task, x.callers t = .pushed task := by
  have h : InTurn x tr ∧ Woken x := run_induction (fun y es => InTurn y es ∧ Woken y)
    (fun _ _ _ _ _ hp hs => ⟨step_inTurn hp.1 hs, step_woken hp.2 hs⟩) []
    ⟨⟨rfl, rfl⟩, fun _ hne => absurd rfl hne⟩ hrun
  refine ⟨?_, ⟨x.place.generation ++ x.pending, ?_⟩, fun timeout t₀ hp hne => ?_⟩
  · rw [h.1.pushed]
    exact List.nodup_range
  · rw [h.1.pushed, h.1.order]
  · exact h.2 (by rw [hp]; rfl) hne

/-- One turn of the loop: another thread's task, and one that this task adds without a wakeup. In
    the next `poll` a third one is pushed. -/
def threeTasks : List Label :=
  [.start, .foreign 1 .queueInLoop, .testFlag, .choose 1, .foreign 1 .goOn, .pollReturns true,
    .handleWake, .readChannel, .readChannel, .eventsDone, .timer (.fireExpired 1),
    .timer .fireEnd, .swap, .beginTask, .call (.addTask false), .endTask, .endRound, .swap,
    .beginTask, .endTask, .endRound, .swap, .testFlag, .choose 2, .foreign 1 .queueInLoop]

theorem task_queue_three_tasks :
    ∃ x tr, run EventLoop.step (EventLoop.new (fun _ => ⟨0, 0, false, false, false⟩) 1)
        threeTasks = some (x, tr) ∧
      x.place = .polling (-1) 2 ∧ x.pending = [2] ∧ x.channel = 0 ∧ ranTasks tr = [0, 1] ∧
      ∃ t task, x.callers t = .pushed task := by
  have hrun : (run EventLoop.step (EventLoop.new (fun _ => ⟨0, 0, false, false, false⟩) 1)
      threeTasks).map (fun r => decide (r.1.place = .polling (-1) 2 ∧ r.1.pending = [2] ∧
        r.1.channel = 0 ∧ ranTasks r.2 = [0, 1])) = some true := by decide +kernel
  obtain ⟨⟨x, tr⟩, hx, heq⟩ := Option.map_eq_some_iff.mp hrun
  obtain ⟨hplace, hpending, hchannel, hran⟩ : x.place = .polling (-1) 2 ∧ x.pending = [2] ∧
    x.channel = 0 ∧ ranTasks tr = [0, 1] := of_decide_eq_true heq
  have hwoken := (task_queue _ 1 threeTasks x tr hx).2.2 (-1) 2 hplace (by simp [hpending])
  refine ⟨x, tr, hx, hplace, hpending, hchannel, hran, ?_⟩
  rcases hwoken with hpos | hcaller
  · exact absurd hpos (by simp [hchannel])
  · exact hcaller

end RocketRpc.Loop
