import RocketRpc.Loop.TaskQueue

/-
  The tasks that were queued in front of a `stop`.

  A task is promised when its `queueInLoop` has returned in front of a `stop` of a loop that is
  looping. The flag is tested once a turn, and the turn in which it was set takes pending tasks
  only if a swap is still ahead of it (`LoopPlace.swapsAhead`): a task that is pushed behind
  the last swap is left behind if `stop` comes before the test. `Drains` is the condition on a
  step, and `stop_drains` says that a loop that has ended has run what was promised if and
  only if all steps met it.
-/

namespace RocketRpc.Loop

open Machine

/-- The loop comes to a swap of the pending tasks before it tests `m_stop_flag` again. -/
def LoopPlace.swapsAhead : LoopPlace → Bool
  | .choosing | .polling _ _ | .handling _ | .draining | .timers | .firing => true
  | .swapping round => round ≠ kMaxPendingTaskRounds
  | .running round _ | .inTask round _ => round + 1 ≠ kMaxPendingTaskRounds
  | .notStarted | .atFlag | .waking | .ended => false

def Event.returnedTask : Event → Option TaskId
  | .returned task => some task
  | _ => none

/-- A step in which somebody calls `stop`. -/
def Label.isStop : Label → Bool
  | .call .stop | .foreign _ .stop => true
  | _ => false

/-- A loop, with the tasks whose `queueInLoop` has returned and those that were among them at a
    `stop` of the looping loop. -/
structure Stopping where
  loop : EventLoop
  returned : List TaskId := []
  promised : List TaskId := []

namespace Stopping

def step (x : Stopping) (l : Label) : Option (Stopping × List Event) :=
  (x.loop.step l).map fun r =>
    (⟨r.1, x.returned ++ r.2.filterMap Event.returnedTask,
      if l.isStop ∧ x.loop.isLooping then x.returned else x.promised⟩, r.2)

def new (events : Timer.Events) (clock : Int) : Stopping := { loop := EventLoop.new events clock }

theorem step_loop {x x' : Stopping} {l : Label} {es : List Event}
    (h : x.step l = some (x', es)) :
    x.loop.step l = some (x'.loop, es) ∧
      x'.returned = x.returned ++ es.filterMap Event.returnedTask ∧
      x'.promised = if l.isStop ∧ x.loop.isLooping then x.returned else x.promised := by
  obtain ⟨⟨y, es'⟩, hy, heq⟩ := Option.map_eq_some_iff.mp h
  obtain ⟨rfl, rfl⟩ := Prod.mk.inj heq
  exact ⟨hy, rfl, rfl⟩

end Stopping

/-- The condition on a step: a `stop` of the looping loop finds a swap ahead of the flag, or
    nothing pending whose `queueInLoop` has returned; and `poll` does not fail with promised
    tasks pending. -/
def Drains (x : Stopping) (l : Label) : Prop :=
  (l.isStop = true → x.loop.isLooping = true →
    x.loop.place.swapsAhead = true ∨ ∀ task ∈ x.returned, task ∉ x.loop.pending) ∧
  (l = .pollFails → ∀ task ∈ x.promised, task ∉ x.loop.pending)

instance (x : Stopping) : DecidablePred (Drains x) := fun _ => inferInstanceAs (Decidable (_ ∧ _))

/-! ## What has returned -/

/-- A task has a number of a push, and the loop is looping from its start to its end. -/
structure Handed (x : EventLoop) : Prop where
  callers : ∀ t task, x.callers t = .pushed task → task < x.next
  looping : x.isLooping = true ↔ x.place ≠ .notStarted ∧ x.place ≠ .ended

theorem Handed.of_same {x x' : EventLoop} (h : Handed x) (hcallers : x'.callers = x.callers)
    (hnext : x.next ≤ x'.next) (hlooping : x'.isLooping = x.isLooping)
    (hplace : (x'.place ≠ .notStarted ∧ x'.place ≠ .ended) ↔
      (x.place ≠ .notStarted ∧ x.place ≠ .ended)) : Handed x' where
  callers t task ht := Nat.lt_of_lt_of_le (h.callers t task (hcallers ▸ ht)) hnext
  looping := by rw [hlooping, h.looping, hplace]

/-- A thread goes on, and its new place has a task of a push. -/
theorem Handed.setCaller {x x' : EventLoop} {t : ThreadId} {c : Caller} (h : Handed x)
    (hcallers : x'.callers = x.callers) (hnext : x.next ≤ x'.next)
    (hlooping : x'.isLooping = x.isLooping) (hplace : x'.place = x.place)
    (hc : ∀ task, c = .pushed task → task < x'.next) : Handed (x'.setCaller t c) where
  callers t' task ht' := by
    by_cases heq : t' = t
    · subst heq
      exact hc task ((x'.setCaller_self t' c).symm.trans ht')
    · refine Nat.lt_of_lt_of_le (h.callers t' task ?_) hnext
      rw [← hcallers, ← x'.setCaller_of_ne heq c]
      exact ht'
  looping := by
    show x'.isLooping = true ↔ x'.place ≠ .notStarted ∧ x'.place ≠ .ended
    rw [hlooping, hplace, h.looping]

theorem timerPlace_started {place place' : LoopPlace} {l : Timer.Label}
    (h : EventLoop.timerPlace place l = some place') :
    (place' ≠ .notStarted ∧ place' ≠ .ended) ↔ (place ≠ .notStarted ∧ place ≠ .ended) := by
  obtain ⟨rfl, -⟩ | ⟨rfl, rfl⟩ | ⟨rfl, rfl | rfl⟩ := EventLoop.timerPlace_cases h <;> simp

/-- A step keeps this, and what returns in it was pushed. -/
theorem step_handed {x x' : EventLoop} {l : Label} {es : List Event} (h : Handed x)
    (hs : x.step l = some (x', es)) :
    Handed x' ∧ x.next ≤ x'.next ∧ ∀ task ∈ es.filterMap Event.returnedTask, task < x'.next := by
  have hnone : ∀ task ∈ ([] : List Event).filterMap Event.returnedTask, task < x'.next := by simp
  cases steps_of_step hs with
  | start hp | stopped hp | failed hp =>
    refine ⟨⟨h.callers, ?_⟩, Nat.le_refl _, by simp [Event.returnedTask]⟩
    simp
  | chosen hp | swapped hp | reads hp =>
    exact ⟨h.of_same rfl (Nat.le_refl _) rfl (by simp [hp]), Nat.le_refl _, hnone⟩
  | tested hp | polled hp | handles hp | drained hp | handled hp | empty hp | remains hp
  | roundEnds hp | ends hp =>
    refine ⟨h.of_same rfl (Nat.le_refl _) rfl ?_, Nat.le_refl _, hnone⟩
    simp [EventLoop.setPlace, hp]
  | begins hp =>
    refine ⟨h.of_same rfl (Nat.le_refl _) rfl ?_, Nat.le_refl _, by simp [Event.returnedTask]⟩
    simp [EventLoop.setPlace, hp]
  | timer hp hs =>
    refine ⟨h.of_same rfl (Nat.le_refl _) rfl (timerPlace_started hp), Nat.le_refl _, ?_⟩
    rw [List.filterMap_map]
    simp [Event.returnedTask]
  | wakes hp =>
    refine ⟨h.of_same x.wakeup_callers (Nat.le_of_eq x.wakeup_next.symm) x.wakeup_isLooping ?_,
      Nat.le_of_eq x.wakeup_next.symm, hnone⟩
    simp [EventLoop.setPlace, hp]
  | call c hu =>
    cases c with
    | addTask isWakeUp =>
      cases isWakeUp with
      | false =>
        exact ⟨h.of_same rfl (Nat.le_succ _) rfl Iff.rfl, Nat.le_succ _,
          by simp [Event.returnedTask, EventLoop.call, EventLoop.push]⟩
      | true =>
        refine ⟨h.of_same x.push.wakeup_callers (by simp [EventLoop.call])
          x.push.wakeup_isLooping ?_, by simp [EventLoop.call],
          by simp [Event.returnedTask, EventLoop.call]⟩
        rw [show (x.call (.addTask true)).1.place = x.place from x.push.wakeup_place]
    | stop =>
      have hnext : (x.call .stop).1.next = x.next := EventLoop.wakeup_next _
      refine ⟨h.of_same (EventLoop.wakeup_callers _) (Nat.le_of_eq hnext.symm)
        (EventLoop.wakeup_isLooping _) ?_, Nat.le_of_eq hnext.symm, hnone⟩
      rw [show (x.call .stop).1.place = x.place from EventLoop.wakeup_place _]
  | queued hc =>
    refine ⟨@Handed.setCaller x x.push _ _ h rfl (Nat.le_succ _) rfl rfl fun task heq => ?_,
      Nat.le_succ _, by simp [Event.returnedTask]⟩
    obtain rfl := Caller.pushed.inj heq
    exact Nat.lt_succ_self _
  | flagged hc =>
    exact ⟨@Handed.setCaller x { x with stopFlag := true } _ _ h rfl (Nat.le_refl _) rfl rfl
      (by simp),
      Nat.le_refl _, hnone⟩
  | @signals t task hc =>
    refine ⟨h.setCaller x.wakeup_callers (Nat.le_of_eq x.wakeup_next.symm) x.wakeup_isLooping
      x.wakeup_place (by simp), Nat.le_of_eq x.wakeup_next.symm, fun task' hmem => ?_⟩
    obtain rfl : task' = task := by simpa [Event.returnedTask] using hmem
    exact Nat.lt_of_lt_of_le (h.callers t task' hc) (Nat.le_of_eq x.wakeup_next.symm)
  | stopSignals hc =>
    exact ⟨h.setCaller x.wakeup_callers (Nat.le_of_eq x.wakeup_next.symm) x.wakeup_isLooping
      x.wakeup_place (by simp), Nat.le_of_eq x.wakeup_next.symm, hnone⟩

/-- What holds along a run, whatever its steps are. -/
structure Accounted (x : Stopping) (tr : List Event) : Prop where
  inTurn : InTurn x.loop tr
  handed : Handed x.loop
  returned : ∀ task ∈ x.returned, task < x.loop.next
  promised : ∀ task ∈ x.promised, task ∈ x.returned

theorem accounted_new (events : Timer.Events) (clock : Int) :
    Accounted (Stopping.new events clock) [] where
  inTurn := ⟨rfl, rfl⟩
  handed := ⟨fun _ _ h => absurd h (by simp [Stopping.new, EventLoop.new]),
    by simp [Stopping.new, EventLoop.new]⟩
  returned := by simp [Stopping.new]
  promised := by simp [Stopping.new]

theorem step_accounted {x x' : Stopping} {tr : List Event} {l : Label} {es : List Event}
    (h : Accounted x tr) (hs : x.step l = some (x', es)) : Accounted x' (tr ++ es) := by
  obtain ⟨hloop, hreturned, hpromised⟩ := Stopping.step_loop hs
  obtain ⟨hhanded, hnext, hnew⟩ := step_handed h.handed hloop
  refine ⟨step_inTurn h.inTurn hloop, hhanded, fun task ht => ?_, fun task ht => ?_⟩
  · rw [hreturned] at ht
    rcases List.mem_append.mp ht with ht | ht
    · exact Nat.lt_of_lt_of_le (h.returned task ht) hnext
    · exact hnew task ht
  · rw [hreturned]
    refine List.mem_append_left _ ?_
    rw [hpromised] at ht
    split at ht
    · exact ht
    · exact h.promised task ht

/-- A task that was pushed has run, or is in the generation, or is pending. -/
theorem InTurn.somewhere {x : EventLoop} {tr : List Event} (h : InTurn x tr) {task : TaskId}
    (ht : task < x.next) :
    task ∈ ranTasks tr ∨ task ∈ x.place.generation ∨ task ∈ x.pending := by
  have hmem : task ∈ ranTasks tr ++ (x.place.generation ++ x.pending) := by
    rw [h.order]
    exact List.mem_range.mpr ht
  simpa using hmem

/-- A pending task has not run. -/
theorem InTurn.not_ran {x : EventLoop} {tr : List Event} (h : InTurn x tr) {task : TaskId}
    (ht : task ∈ x.pending) : task ∉ ranTasks tr := by
  have hnodup : (ranTasks tr ++ (x.place.generation ++ x.pending)).Nodup := by
    rw [h.order]
    exact List.nodup_range
  intro hran
  exact (List.nodup_append.mp hnodup).2.2 task hran task (List.mem_append_right _ ht) rfl

/-! ## What was promised -/

/-- A promised task that is pending has a swap ahead of it. -/
def Kept (x : Stopping) : Prop :=
  x.loop.place.swapsAhead = true ∨ ∀ task ∈ x.promised, task ∉ x.loop.pending

/-- The loop is on its way to the end, or has come to it, with a promised task pending. -/
structure Lost (x : Stopping) : Prop where
  flag : x.loop.stopFlag = true ∨ x.loop.place = .ended
  started : x.loop.place ≠ .notStarted
  noSwap : x.loop.place.swapsAhead = false
  task : ∃ task ∈ x.promised, task ∈ x.loop.pending

theorem timerPlace_swapsAhead {place place' : LoopPlace} {l : Timer.Label}
    (h : EventLoop.timerPlace place l = some place') : place'.swapsAhead = place.swapsAhead := by
  obtain ⟨rfl, -⟩ | ⟨rfl, rfl⟩ | ⟨rfl, rfl | rfl⟩ := EventLoop.timerPlace_cases h <;> rfl

/-- The places with a swap ahead lead to one another until the swap is made. -/
theorem Kept.step {x x' : Stopping} (h : Kept x)
    (hplace : x.loop.place.swapsAhead = true →
      x'.loop.place.swapsAhead = true ∨ x'.loop.pending = [])
    (hpending : ∀ task ∈ x.promised, task ∈ x'.loop.pending → task ∈ x.loop.pending)
    (hpromised : x'.promised = x.promised) : Kept x' := by
  have hnone : (∀ task ∈ x.promised, task ∉ x.loop.pending) → Kept x' := fun hno =>
    Or.inr fun task ht hmem => hno task (hpromised ▸ ht) (hpending task (hpromised ▸ ht) hmem)
  rcases h with hs | hno
  · rcases hplace hs with hs' | hnil
    · exact Or.inl hs'
    · exact Or.inr fun task _ hmem => by simp [hnil] at hmem
  · exact hnone hno

/-- In a `stop` the loop stays where it is, and its pending tasks stay. -/
theorem stop_same {x x' : EventLoop} {l : Label} {es : List Event} (hl : l.isStop = true)
    (hs : x.step l = some (x', es)) :
    x'.place = x.place ∧ x'.pending = x.pending ∧ x'.stopFlag = true := by
  cases steps_of_step hs with
  | call c hu =>
    cases c with
    | addTask isWakeUp => exact absurd hl (by simp [Label.isStop])
    | stop => simp [EventLoop.call]
  | flagged hc => exact ⟨rfl, rfl, rfl⟩
  | _ => exact absurd hl (by simp [Label.isStop])

/-- A push has a number that nobody was promised. -/
theorem mem_push {x : Stopping} {tr : List Event} (h : Accounted x tr) {task : TaskId}
    (ht : task ∈ x.promised) (hmem : task ∈ x.loop.pending ++ [x.loop.next]) :
    task ∈ x.loop.pending := by
  rcases List.mem_append.mp hmem with hmem | hmem
  · exact hmem
  · have hlt := h.returned task (h.promised task ht)
    rw [List.mem_singleton.mp hmem] at hlt
    exact absurd hlt (Nat.lt_irrefl _)

/-- A step that meets the condition keeps what was promised. -/
theorem step_kept {x x' : Stopping} {tr : List Event} {l : Label} {es : List Event}
    (ha : Accounted x tr) (h : Kept x) (hok : Drains x l) (hs : x.step l = some (x', es)) :
    Kept x' := by
  obtain ⟨hloop, -, hpromised⟩ := Stopping.step_loop hs
  obtain ⟨y, returned, promised⟩ := x'
  dsimp only at hloop hpromised
  by_cases hstop : l.isStop = true ∧ x.loop.isLooping = true
  · obtain ⟨hplace, hpending, -⟩ := stop_same hstop.1 hloop
    rw [if_pos hstop] at hpromised
    unfold Kept
    dsimp only
    rw [hplace, hpending, hpromised]
    exact hok.1 hstop.1 hstop.2
  rw [if_neg hstop] at hpromised
  cases steps_of_step hloop with
  | start hp | stopped hp | remains hp =>
    exact h.step (by simp [hp, LoopPlace.swapsAhead]) (fun _ _ => id) hpromised
  | tested | chosen | polled | handles | drained | handled => exact Or.inl rfl
  | failed hp => exact Or.inr fun task ht => hok.2 rfl task (hpromised ▸ ht)
  | reads hp => exact h.step Or.inl (fun _ _ => id) hpromised
  | timer hp =>
    exact h.step (fun hs => Or.inl ((timerPlace_swapsAhead hp).trans hs)) (fun _ _ => id) hpromised
  | swapped => exact Or.inr fun task _ => List.not_mem_nil
  | empty hp hnil => exact Or.inr fun task _ hmem => by simp [EventLoop.setPlace, hnil] at hmem
  | begins hp | ends hp | roundEnds hp =>
    refine h.step (fun hs => Or.inl ?_) (fun _ _ => id) hpromised
    rw [hp] at hs
    exact hs
  | wakes hp =>
    refine h.step (by simp [hp, LoopPlace.swapsAhead]) (fun task _ hmem => ?_) hpromised
    exact x.loop.wakeup_pending ▸ hmem
  | call c hu =>
    have hplace : (x.loop.call c).1.place = x.loop.place := by
      cases c with
      | addTask isWakeUp => cases isWakeUp <;> simp [EventLoop.call]
      | stop => simp [EventLoop.call]
    refine h.step (fun hs => Or.inl (hplace ▸ hs)) (fun task ht hmem => ?_) hpromised
    cases c with
    | addTask isWakeUp =>
      refine mem_push ha ht ?_
      cases isWakeUp <;> simpa [EventLoop.call, EventLoop.push] using hmem
    | stop => simpa [EventLoop.call] using hmem
  | queued hc => exact h.step Or.inl (fun task ht hmem => mem_push ha ht hmem) hpromised
  | flagged hc => exact h.step Or.inl (fun _ _ => id) hpromised
  | signals hc | stopSignals hc =>
    refine h.step (fun hs => Or.inl ?_) (fun task _ hmem => ?_) hpromised
    · exact (congrArg _ x.loop.wakeup_place).trans hs
    · exact x.loop.wakeup_pending ▸ hmem

/-- A step that does not meet the condition leaves a promised task behind. -/
theorem step_loses {x x' : Stopping} {tr : List Event} {l : Label} {es : List Event}
    (ha : Accounted x tr) (hnot : ¬ Drains x l) (hs : x.step l = some (x', es)) : Lost x' := by
  obtain ⟨hloop, -, hpromised⟩ := Stopping.step_loop hs
  obtain ⟨y, returned, promised⟩ := x'
  dsimp only at hloop hpromised
  rcases not_and_or.mp hnot with hstop | hfail
  · obtain ⟨hl, hstop⟩ := Classical.not_imp.mp hstop
    obtain ⟨hlooping, hbehind⟩ := Classical.not_imp.mp hstop
    obtain ⟨hno, htask⟩ := not_or.mp hbehind
    obtain ⟨hplace, hpending, hflag⟩ := stop_same hl hloop
    rw [if_pos ⟨hl, hlooping⟩] at hpromised
    refine ⟨Or.inl hflag, hplace ▸ (ha.handed.looping.mp hlooping).1, ?_, ?_⟩
    · rw [show y.place = x.loop.place from hplace]
      simpa using hno
    · obtain ⟨task, ht⟩ := not_forall.mp htask
      obtain ⟨ht, hmem⟩ := Classical.not_imp.mp ht
      exact ⟨task, hpromised ▸ ht, hpending ▸ not_not.mp hmem⟩
  · obtain ⟨rfl, htask⟩ := Classical.not_imp.mp hfail
    obtain ⟨task, ht⟩ := not_forall.mp htask
    obtain ⟨ht, hmem⟩ := Classical.not_imp.mp ht
    rw [if_neg (by simp [Label.isStop])] at hpromised
    cases steps_of_step hloop with
    | failed hp => exact ⟨Or.inr rfl, by simp, rfl, task, hpromised ▸ ht, not_not.mp hmem⟩

/-- What is promised stays promised. -/
theorem step_promised {x x' : Stopping} {tr : List Event} {l : Label} {es : List Event}
    (ha : Accounted x tr) (hs : x.step l = some (x', es)) : x.promised ⊆ x'.promised := by
  obtain ⟨-, -, hpromised⟩ := Stopping.step_loop hs
  intro task ht
  rw [hpromised]
  split
  · exact ha.promised task ht
  · exact ht

theorem timerPlace_behind {place place' : LoopPlace} {l : Timer.Label}
    (h : EventLoop.timerPlace place l = some place') (hno : place.swapsAhead = false) :
    place' = place := by
  obtain ⟨heq, -⟩ | ⟨rfl, -⟩ | ⟨rfl, -⟩ := EventLoop.timerPlace_cases h
  · exact heq
  all_goals exact absurd hno (by simp [LoopPlace.swapsAhead])

/-- The loop stays where it is. -/
theorem Lost.same {x x' : Stopping} (h : Lost x) (hplace : x'.loop.place = x.loop.place)
    (hflag : x.loop.stopFlag = true → x'.loop.stopFlag = true)
    (hpending : x.loop.pending ⊆ x'.loop.pending) (hpromised : x.promised ⊆ x'.promised) :
    Lost x' := by
  obtain ⟨task, ht, hmem⟩ := h.task
  exact ⟨h.flag.imp hflag fun hend => hplace.trans hend, hplace ▸ h.started, hplace ▸ h.noSwap,
    task, hpromised ht, hpending hmem⟩

/-- The loop goes on behind its last swap. -/
theorem Lost.goOn {x x' : Stopping} (h : Lost x) (hopen : x.loop.place ≠ .ended)
    (hstarted : x'.loop.place ≠ .notStarted) (hno : x'.loop.place.swapsAhead = false)
    (hflag : x'.loop.stopFlag = x.loop.stopFlag) (hpending : x.loop.pending ⊆ x'.loop.pending)
    (hpromised : x.promised ⊆ x'.promised) : Lost x' := by
  obtain ⟨task, ht, hmem⟩ := h.task
  refine ⟨Or.inl ?_, hstarted, hno, task, hpromised ht, hpending hmem⟩
  rw [hflag]
  exact h.flag.resolve_right hopen

/-- Behind its last look at the tasks of a turn the loop takes none, and the flag ends it. -/
theorem step_lost {x x' : Stopping} {tr : List Event} {l : Label} {es : List Event}
    (ha : Accounted x tr) (h : Lost x) (hs : x.step l = some (x', es)) : Lost x' := by
  have hpromised := step_promised ha hs
  obtain ⟨hloop, -, -⟩ := Stopping.step_loop hs
  obtain ⟨y, returned, promised⟩ := x'
  dsimp only at hloop
  have hno := h.noSwap
  cases steps_of_step hloop with
  | start hp => exact absurd hp h.started
  | tested hp hf =>
    have hflag := h.flag.resolve_right (by simp [hp])
    exact absurd (hf.symm.trans hflag) (by simp)
  | stopped hp => exact h.goOn (by simp [hp]) (by simp) rfl rfl (List.Subset.refl _) hpromised
  | chosen hp | polled hp | failed hp | handles hp | reads hp | drained hp | handled hp =>
    exact absurd hno (by simp [hp, LoopPlace.swapsAhead])
  | timer hp =>
    exact h.same (timerPlace_behind hp hno) id (List.Subset.refl _) hpromised
  | swapped hp hr => exact absurd hno (by simp [hp, hr, LoopPlace.swapsAhead])
  | empty hp hnil =>
    obtain ⟨task, -, hmem⟩ := h.task
    exact absurd hmem (by simp [hnil])
  | remains hp =>
    exact h.goOn (by simp [hp]) (by simp [EventLoop.setPlace]) rfl rfl (List.Subset.refl _)
      hpromised
  | begins hp | ends hp | roundEnds hp =>
    rw [hp] at hno
    exact h.goOn (by simp [hp]) (by simp [EventLoop.setPlace]) hno rfl (List.Subset.refl _)
      hpromised
  | wakes hp =>
    exact h.goOn (by simp [hp]) (by simp [EventLoop.setPlace]) rfl x.loop.wakeup_stopFlag
      (by simp [EventLoop.setPlace]) hpromised
  | call c hu =>
    cases c with
    | addTask isWakeUp =>
      cases isWakeUp with
      | false => exact h.same rfl id (List.subset_append_left _ _) hpromised
      | true =>
        exact h.same x.loop.push.wakeup_place (fun hf => x.loop.push.wakeup_stopFlag.trans hf)
          (by simp [EventLoop.call, EventLoop.push]) hpromised
    | stop =>
      exact h.same (EventLoop.wakeup_place _) (fun _ => EventLoop.wakeup_stopFlag _)
        (by simp [EventLoop.call]) hpromised
  | queued hc => exact h.same rfl id (List.subset_append_left _ _) hpromised
  | flagged hc => exact h.same rfl (fun _ => rfl) (List.Subset.refl _) hpromised
  | signals hc | stopSignals hc =>
    exact h.same x.loop.wakeup_place (fun hf => x.loop.wakeup_stopFlag.trans hf)
      (by simp [EventLoop.setCaller]) hpromised

/-! ## Main result -/

/-- A loop that has ended has run every task whose `queueInLoop` had returned in front of a
    `stop` of the looping loop, if and only if every step of the run met the condition. -/
theorem stop_drains (events : Timer.Events) (clock : Int) (ls : List Label) (x : Stopping)
    (tr : List Event) (hrun : run Stopping.step (Stopping.new events clock) ls = some (x, tr))
    (hended : x.loop.place = .ended) :
    (∀ task ∈ x.promised, task ∈ ranTasks tr) ↔
      RunOk Stopping.step Drains (Stopping.new events clock) ls := by
  have h := runOk_history (fun ms y es => Accounted y es ∧
    ((RunOk Stopping.step Drains (Stopping.new events clock) ms ∧ Kept y) ∨
      (¬ RunOk Stopping.step Drains (Stopping.new events clock) ms ∧ Lost y)))
    (fun ms u es l u' fs hms hu _ hl => ?_)
    ⟨accounted_new events clock, Or.inl ⟨trivial, Or.inr (by simp [Stopping.new])⟩⟩
    (runOk_true _ ls) hrun
  · obtain ⟨ha, ⟨hok, hkept⟩ | ⟨hnot, hlost⟩⟩ := h
    · refine iff_of_true (fun task ht => ?_) hok
      rcases ha.inTurn.somewhere (ha.returned task (ha.promised task ht)) with hran | hg | hmem
      · exact hran
      · simp [hended, LoopPlace.generation] at hg
      · rcases hkept with hs | hno
        · simp [hended, LoopPlace.swapsAhead] at hs
        · exact absurd hmem (hno task ht)
    · refine iff_of_false (fun hall => ?_) hnot
      obtain ⟨task, ht, hmem⟩ := hlost.task
      exact ha.inTurn.not_ran hmem (hall task ht)
  · obtain ⟨ha, ⟨hok, hkept⟩ | ⟨hnot, hlost⟩⟩ := hu
    · refine ⟨step_accounted ha hl, ?_⟩
      by_cases hd : Drains u l
      · refine Or.inl ⟨runOk_append.mpr ⟨hok, fun v gs hv => ?_⟩, step_kept ha hkept hd hl⟩
        obtain ⟨rfl, -⟩ := Prod.mk.inj (Option.some.inj (hms.symm.trans hv))
        exact ⟨hd, fun _ _ _ => trivial⟩
      · refine Or.inr ⟨fun hall => hd ?_, step_loses ha hd hl⟩
        exact ((runOk_append.mp hall).2 u es hms).1
    · exact ⟨step_accounted ha hl, Or.inr ⟨fun hall => hnot (runOk_append.mp hall).1,
        step_lost ha hlost hl⟩⟩

/-- The turn in which another thread queues a task and stops the loop. -/
def stoppedInPoll : List Label :=
  [.start, .testFlag, .choose 1, .foreign 1 .queueInLoop, .foreign 1 .goOn, .foreign 1 .stop,
    .foreign 1 .goOn, .pollReturns true, .handleWake, .readChannel, .readChannel, .eventsDone,
    .timer (.fireExpired 1), .timer .fireEnd, .swap, .beginTask, .endTask, .endRound, .swap,
    .testFlag]

theorem stop_drains_in_poll :
    ∃ x tr, run Stopping.step (Stopping.new (fun _ => ⟨0, 0, false, false, false⟩) 1)
        stoppedInPoll = some (x, tr) ∧ x.promised = [0] ∧
      ∀ task ∈ x.promised, task ∈ ranTasks tr := by
  have hrun : (run Stopping.step (Stopping.new (fun _ => ⟨0, 0, false, false, false⟩) 1)
      stoppedInPoll).map (fun r => decide (r.1.promised = [0] ∧ r.1.loop.place = .ended)) =
        some true := by decide +kernel
  obtain ⟨⟨x, tr⟩, hx, heq⟩ := Option.map_eq_some_iff.mp hrun
  obtain ⟨hpromised, hended⟩ : x.promised = [0] ∧ x.loop.place = .ended := of_decide_eq_true heq
  exact ⟨x, tr, hx, hpromised,
    (stop_drains _ 1 stoppedInPoll x tr hx hended).mpr (by decide +kernel)⟩

/-- The same behind the last swap of the turn: the loop ends with the task in its queue. -/
theorem stop_leaves_task :
    ∃ x tr, run Stopping.step (Stopping.new (fun _ => ⟨0, 0, false, false, false⟩) 1)
        [.start, .testFlag, .choose 1, .pollReturns false, .eventsDone, .timer (.fireExpired 1),
          .timer .fireEnd, .swap, .foreign 1 .queueInLoop, .foreign 1 .goOn, .foreign 1 .stop,
          .foreign 1 .goOn, .testFlag] = some (x, tr) ∧
      x.loop.place = .ended ∧ x.promised = [0] ∧ ranTasks tr = [] ∧ x.loop.pending = [0] := by
  have hrun : (run Stopping.step (Stopping.new (fun _ => ⟨0, 0, false, false, false⟩) 1)
      [.start, .testFlag, .choose 1, .pollReturns false, .eventsDone, .timer (.fireExpired 1),
        .timer .fireEnd, .swap, .foreign 1 .queueInLoop, .foreign 1 .goOn, .foreign 1 .stop,
        .foreign 1 .goOn, .testFlag]).map (fun r => decide (r.1.loop.place = .ended ∧
          r.1.promised = [0] ∧ ranTasks r.2 = [] ∧ r.1.loop.pending = [0])) = some true := by
    decide +kernel
  obtain ⟨⟨x, tr⟩, hx, heq⟩ := Option.map_eq_some_iff.mp hrun
  exact ⟨x, tr, hx, of_decide_eq_true heq⟩

end RocketRpc.Loop
