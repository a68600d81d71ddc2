import RocketRpc.Common.ThreadPool
import RocketRpc.Lib.Handoff
import RocketRpc.Lib.Machine

/-
  Runs of the worker pool, up to the drain of `stopAndDrain`.

  Any thread submits tasks or stops the pool, each worker goes round its loop, and each
  critical section is one step. `Kept` is the invariant: the tasks that were accepted are, in
  order, the ones that workers took and the ones in the queue, and the ones taken have
  returned or are running. A worker exits only where the queue is empty for good, so a
  `stopAndDrain` that has joined all of them leaves no task behind (`pool_guarantees`).
-/

namespace RocketRpc.Common

open Machine

/-- Where a thread is in `stopAndDrain`: before it, or about to join worker `i`. -/
inductive Stopper where
  | idle
  | joining (i : Nat)
  deriving DecidableEq, Repr

structure PoolWorld (τ : Type) where
  pool : ThreadPool τ
  stoppers : Nat → Stopper := fun _ => .idle

inductive PoolLabel (τ : Type) where
  | tryExecute (task : τ)
  | submit (task : τ)
  /-- Worker `i` takes a task or exits. -/
  | take (i : Nat)
  /-- The task of worker `i` returns. -/
  | finish (i : Nat)
  /-- Thread `t` calls `stopAndDrain`. -/
  | stopAndDrain (t : Nat)
  /-- Thread `t` joins its next worker, or returns behind the last one. -/
  | join (t : Nat)
  deriving DecidableEq, Repr

inductive PoolEvent (τ : Type) where
  | accepted (task : τ)
  | refused (task : τ)
  /-- `submit` throws. -/
  | threw (task : τ) (what : String)
  | dequeued (task : τ)
  | done (task : τ)
  | exited (i : Nat)
  | stopped (t : Nat)
  | returned (t : Nat)
  deriving DecidableEq, Repr

/-- The task a worker is running. -/
def Worker.task {τ : Type} : Worker τ → Option τ
  | .running task => some task
  | _ => none

namespace PoolWorld

variable {τ : Type}

def new (threads maxPendingTasks : Nat) : PoolWorld τ :=
  { pool := ThreadPool.new threads maxPendingTasks }

def setStopper (w : PoolWorld τ) (t : Nat) (stopper : Stopper) : PoolWorld τ :=
  { w with stoppers := fun t' => if t' = t then stopper else w.stoppers t' }

def step (w : PoolWorld τ) : PoolLabel τ → Option (PoolWorld τ × List (PoolEvent τ))
  | .tryExecute task =>
    match w.pool.tryExecute task with
    | (true, pool) => some ({ w with pool }, [.accepted task])
    | (false, pool) => some ({ w with pool }, [.refused task])
  | .submit task =>
    match w.pool.submit task with
    | .ok pool => some ({ w with pool }, [.accepted task])
    | .error what => some (w, [.threw task what])
  | .take i =>
    match w.pool.take i with
    | some (some task, pool) => some ({ w with pool }, [.dequeued task])
    | some (none, pool) => some ({ w with pool }, [.exited i])
    | none => none
  | .finish i =>
    match w.pool.workers[i]?, w.pool.finish i with
    | some (.running task), some pool => some ({ w with pool }, [.done task])
    | _, _ => none
  | .stopAndDrain t =>
    match w.stoppers t with
    | .idle => some ({ w with pool := w.pool.stopFlag }.setStopper t (.joining 0), [.stopped t])
    | .joining _ => none
  | .join t =>
    match w.stoppers t with
    | .idle => none
    | .joining i =>
      match w.pool.workers[i]? with
      | none => some (w.setStopper t .idle, [.returned t])
      | some .exited => some (w.setStopper t (.joining (i + 1)), [])
      | some _ => none

/-! ## The events of a run -/

def acceptedTasks (es : List (PoolEvent τ)) : List τ :=
  es.filterMap fun | .accepted task => some task | _ => none

def dequeuedTasks (es : List (PoolEvent τ)) : List τ :=
  es.filterMap fun | .dequeued task => some task | _ => none

def doneTasks (es : List (PoolEvent τ)) : List τ :=
  es.filterMap fun | .done task => some task | _ => none

theorem acceptedTasks_append (es fs : List (PoolEvent τ)) :
    acceptedTasks (es ++ fs) = acceptedTasks es ++ acceptedTasks fs := List.filterMap_append

theorem dequeuedTasks_append (es fs : List (PoolEvent τ)) :
    dequeuedTasks (es ++ fs) = dequeuedTasks es ++ dequeuedTasks fs := List.filterMap_append

theorem doneTasks_append (es fs : List (PoolEvent τ)) :
    doneTasks (es ++ fs) = doneTasks es ++ doneTasks fs := List.filterMap_append

/-- Everything a step can do. -/
inductive Steps (w : PoolWorld τ) : PoolWorld τ → List (PoolEvent τ) → Prop where
  | accept {task : τ} {pool : ThreadPool τ} (h : w.pool.tryExecute task = (true, pool)) :
      Steps w { w with pool } [.accepted task]
  | refuse {task : τ} : Steps w w [.refused task]
  | throw {task : τ} {what : String} : Steps w w [.threw task what]
  | dequeue {i : Nat} {task : τ} {pool : ThreadPool τ} (h : w.pool.take i = some (some task, pool)) :
      Steps w { w with pool } [.dequeued task]
  | exit {i : Nat} {pool : ThreadPool τ} (h : w.pool.take i = some (none, pool)) :
      Steps w { w with pool } [.exited i]
  | finish {i : Nat} {task : τ} {pool : ThreadPool τ}
      (hi : w.pool.workers[i]? = some (.running task)) (h : w.pool.finish i = some pool) :
      Steps w { w with pool } [.done task]
  | stop {t : Nat} :
      Steps w ({ w with pool := w.pool.stopFlag }.setStopper t (.joining 0)) [.stopped t]
  | join {t i : Nat} (ht : w.stoppers t = .joining i) (hi : w.pool.workers[i]? = some .exited) :
      Steps w (w.setStopper t (.joining (i + 1))) []
  | return {t i : Nat} (ht : w.stoppers t = .joining i) (hi : w.pool.workers.length ≤ i) :
      Steps w (w.setStopper t .idle) [.returned t]

theorem steps_of_step {w w' : PoolWorld τ} {l : PoolLabel τ} {es : List (PoolEvent τ)}
    (h : w.step l = some (w', es)) : Steps w w' es := by
  cases l with
  | tryExecute task =>
    rw [step] at h
    split at h <;> rename_i pool hpool <;> obtain ⟨rfl, rfl⟩ := Prod.mk.inj (Option.some.inj h)
    · exact .accept hpool
    · obtain ⟨rfl, -⟩ := ThreadPool.tryExecute_eq_false hpool
      exact .refuse
  | submit task =>
    rw [step] at h
    split at h <;> rename_i hpool <;> obtain ⟨rfl, rfl⟩ := Prod.mk.inj (Option.some.inj h)
    · exact .accept (ThreadPool.submit_ok_iff.mp hpool)
    · exact .throw
  | take i =>
    rw [step] at h
    split at h
    · rename_i hpool
      obtain ⟨rfl, rfl⟩ := Prod.mk.inj (Option.some.inj h)
      exact .dequeue hpool
    · rename_i hpool
      obtain ⟨rfl, rfl⟩ := Prod.mk.inj (Option.some.inj h)
      exact .exit hpool
    · exact absurd h (by simp)
  | finish i =>
    rw [step] at h
    split at h
    · rename_i hi hpool
      obtain ⟨rfl, rfl⟩ := Prod.mk.inj (Option.some.inj h)
      exact .finish hi hpool
    · exact absurd h (by simp)
  | stopAndDrain t =>
    rw [step] at h
    split at h
    · obtain ⟨rfl, rfl⟩ := Prod.mk.inj (Option.some.inj h)
      exact .stop
    · exact absurd h (by simp)
  | join t =>
    rw [step] at h
    split at h
    · exact absurd h (by simp)
    rename_i i ht
    split at h
    · rename_i hi
      obtain ⟨rfl, rfl⟩ := Prod.mk.inj (Option.some.inj h)
      exact .return ht (by simpa using hi)
    · rename_i hi
      obtain ⟨rfl, rfl⟩ := Prod.mk.inj (Option.some.inj h)
      exact .join ht hi
    · exact absurd h (by simp)

/-! ## The invariant -/

/-- The tasks that workers are running. -/
def running (p : ThreadPool τ) : List τ := p.workers.filterMap Worker.task

/-- What holds along a run. -/
structure Kept (w : PoolWorld τ) (es : List (PoolEvent τ)) : Prop where
  staffed : w.pool.Staffed
  bounded : w.pool.maxPendingTasks ≠ 0 → w.pool.tasks.length ≤ w.pool.maxPendingTasks
  fifo : acceptedTasks es = dequeuedTasks es ++ w.pool.tasks
  taken : (dequeuedTasks es).Perm (doneTasks es ++ running w.pool)
  stopping : ∀ t, .stopped t ∈ es → w.pool.stop = true
  final : ∀ t es₁ es₂, es = es₁ ++ .stopped t :: es₂ → acceptedTasks es₂ = []
  joined : ∀ t i, w.stoppers t = .joining i → ∀ j < i, w.pool.workers[j]? = some .exited
  drained : ∀ t, .returned t ∈ es → ∀ x ∈ w.pool.workers, x = .exited

theorem kept_new (threads maxPendingTasks : Nat) :
    Kept (new threads maxPendingTasks : PoolWorld τ) [] where
  staffed := ThreadPool.staffed_new threads maxPendingTasks
  bounded _ := Nat.zero_le _
  fifo := rfl
  taken := by
    have hnone : running (new threads maxPendingTasks : PoolWorld τ).pool = [] := by
      simp [running, new, ThreadPool.new, Worker.task]
    rw [hnone]
    exact List.Perm.refl _
  stopping _ h := absurd h (by simp)
  final _ es₁ _ h := absurd h (by simp)
  joined _ _ h := absurd h (by simp [new])
  drained _ h := absurd h (by simp)

/-- One more event keeps that nothing is accepted behind a stop. -/
theorem final_append {es : List (PoolEvent τ)} {e : PoolEvent τ}
    (h : ∀ t es₁ es₂, es = es₁ ++ .stopped t :: es₂ → acceptedTasks es₂ = [])
    (he : acceptedTasks [e] = [] ∨ ∀ t, .stopped t ∉ es ++ [e]) (t : Nat)
    (es₁ es₂ : List (PoolEvent τ)) (heq : es ++ [e] = es₁ ++ .stopped t :: es₂) :
    acceptedTasks es₂ = [] := by
  rcases he with he | hno
  · rcases List.eq_nil_or_concat' es₂ with rfl | ⟨es₃, e', rfl⟩
    · rfl
    · rw [← List.cons_append, ← List.append_assoc] at heq
      obtain ⟨hes, hlast⟩ := List.append_inj' heq rfl
      obtain rfl : e = e' := by simpa using hlast
      rw [acceptedTasks_append, h t es₁ es₃ hes, he]
      rfl
  · exact absurd (heq ▸ List.mem_append_right _ List.mem_cons_self) (hno t)

theorem fifo_append {es : List (PoolEvent τ)} {e : PoolEvent τ} {tasks : List τ}
    (h : acceptedTasks es = dequeuedTasks es ++ tasks) (ha : acceptedTasks [e] = [])
    (hd : dequeuedTasks [e] = []) :
    acceptedTasks (es ++ [e]) = dequeuedTasks (es ++ [e]) ++ tasks := by
  rw [acceptedTasks_append, dequeuedTasks_append, ha, hd, List.append_nil, List.append_nil, h]

theorem taken_append {es : List (PoolEvent τ)} {e : PoolEvent τ} {tasks : List τ}
    (h : (dequeuedTasks es).Perm (doneTasks es ++ tasks)) (hd : dequeuedTasks [e] = [])
    (hn : doneTasks [e] = []) :
    (dequeuedTasks (es ++ [e])).Perm (doneTasks (es ++ [e]) ++ tasks) := by
  rw [dequeuedTasks_append, doneTasks_append, hd, hn, List.append_nil, List.append_nil]
  exact h

/-- A worker that goes on replaces the task it runs. -/
theorem running_set {p : ThreadPool τ} {i : Nat} {x : Worker τ} (hi : p.workers[i]? = some x)
    (y : Worker τ) :
    (x.task.toList ++ running { p with workers := p.workers.set i y }).Perm
      (y.task.toList ++ running p) :=
  List.filterMap_set_perm Worker.task hi y

/-- A worker that has exited is not one that goes on. -/
theorem exited_set {p : ThreadPool τ} {i j : Nat} {x y : Worker τ} (hi : p.workers[i]? = some x)
    (hx : x ≠ .exited) (hj : p.workers[j]? = some .exited) :
    (p.workers.set i y)[j]? = some .exited := by
  have hne : i ≠ j := by
    rintro rfl
    exact hx (Option.some.inj (hi.symm.trans hj))
  rw [List.getElem?_set_ne hne]
  exact hj

section Kept

variable {w w' : PoolWorld τ} {es : List (PoolEvent τ)} (h : Kept w es)

include h

/-- Nobody has returned from `stopAndDrain` while a worker goes on. -/
theorem Kept.not_returned {i : Nat} {x : Worker τ} (hi : w.pool.workers[i]? = some x)
    (hx : x ≠ .exited) (t : Nat) : .returned t ∉ es := fun hmem =>
  hx (h.drained t hmem x (List.mem_of_getElem? hi))

theorem Kept.accept {task : τ} {pool : ThreadPool τ} (hp : w.pool.tryExecute task = (true, pool)) :
    Kept { w with pool } (es ++ [.accepted task]) := by
  have hstaffed := h.staffed.tryExecute hp
  have hroom : w.pool.rejects = false := by
    unfold ThreadPool.tryExecute at hp
    split at hp
    · exact absurd (Prod.mk.inj hp).1 (by simp)
    · rename_i hadmit
      exact Bool.eq_false_iff.mpr hadmit
  obtain ⟨rfl, hstop, hworkers⟩ := ThreadPool.tryExecute_eq_true hp
  have hnone : ∀ t, .stopped t ∉ es := fun t hmem =>
    absurd (hstop.symm.trans (h.stopping t hmem)) (by simp)
  refine ⟨hstaffed, fun hmax => ?_, ?_, taken_append h.taken rfl rfl, fun t hmem => ?_,
    final_append h.final (Or.inr fun t => ?_), h.joined, fun t hmem => ?_⟩
  · have hmax' : w.pool.maxPendingTasks ≠ 0 := hmax
    simp only [ThreadPool.rejects, Bool.or_eq_false_iff] at hroom
    have hlt : w.pool.tasks.length < w.pool.maxPendingTasks := by simpa [hmax'] using hroom.2
    rw [List.length_append, List.length_singleton]
    exact hlt
  · rw [acceptedTasks_append, dequeuedTasks_append, h.fifo]
    simp [acceptedTasks, dequeuedTasks]
  · simp [hnone t] at hmem
  · simp [hnone t]
  · exact h.drained t (by simpa using hmem)

/-- A step that emits an event of no consequence and leaves the pool alone. -/
theorem Kept.aside {e : PoolEvent τ} (ha : acceptedTasks [e] = []) (hd : dequeuedTasks [e] = [])
    (hn : doneTasks [e] = []) (hs : ∀ t, e ≠ .stopped t) (hr : ∀ t, e ≠ .returned t) :
    Kept w (es ++ [e]) := by
  refine ⟨h.staffed, h.bounded, fifo_append h.fifo ha hd, taken_append h.taken hd hn,
    fun t hmem => ?_, final_append h.final (Or.inl ha), h.joined, fun t hmem => ?_⟩
  · exact h.stopping t (by simpa [(hs t).symm] using hmem)
  · exact h.drained t (by simpa [(hr t).symm] using hmem)

theorem Kept.dequeue {i : Nat} {task : τ} {pool : ThreadPool τ}
    (hp : w.pool.take i = some (some task, pool)) :
    Kept { w with pool } (es ++ [.dequeued task]) := by
  have hstaffed := h.staffed.take hp
  obtain ⟨hi, tasks, htasks, rfl⟩ := ThreadPool.take_eq_some hp
  refine ⟨hstaffed, fun hmax => ?_, ?_, ?_, fun t hmem => h.stopping t (by simpa using hmem),
    final_append h.final (Or.inl rfl),
    fun t j ht k hk => exited_set hi (by simp) (h.joined t j ht k hk), fun t hmem => ?_⟩
  · have hle := h.bounded hmax
    rw [htasks, List.length_cons] at hle
    exact Nat.le_of_succ_le hle
  · rw [acceptedTasks_append, dequeuedTasks_append, h.fifo, htasks]
    simp [acceptedTasks, dequeuedTasks]
  · rw [dequeuedTasks_append, doneTasks_append]
    have hrun : (running { w.pool with workers := w.pool.workers.set i (.running task) }).Perm
        (task :: running w.pool) := running_set hi (.running task)
    have hone : dequeuedTasks [(.dequeued task : PoolEvent τ)] = [task] := rfl
    rw [hone, show doneTasks [(.dequeued task : PoolEvent τ)] = [] from rfl, List.append_nil]
    refine (h.taken.append_right [task]).trans ?_
    rw [List.append_assoc]
    exact (List.perm_append_singleton task _).trans hrun.symm |>.append_left _
  · exact absurd (by simpa using hmem) (h.not_returned hi (by simp) t)

theorem Kept.exit {i : Nat} {pool : ThreadPool τ} (hp : w.pool.take i = some (none, pool)) :
    Kept { w with pool } (es ++ [.exited i]) := by
  have hstaffed := h.staffed.take hp
  obtain ⟨hi, htasks, hstop, rfl⟩ := ThreadPool.take_eq_none hp
  refine ⟨hstaffed, h.bounded, fifo_append h.fifo rfl rfl, ?_,
    fun t hmem => h.stopping t (by simpa using hmem), final_append h.final (Or.inl rfl),
    fun t j ht k hk => exited_set hi (by simp) (h.joined t j ht k hk), fun t hmem => ?_⟩
  · have hrun : (running { w.pool with workers := w.pool.workers.set i .exited }).Perm
        (running w.pool) := running_set hi .exited
    exact taken_append (h.taken.trans (hrun.symm.append_left _)) rfl rfl
  · exact absurd (by simpa using hmem) (h.not_returned hi (by simp) t)

theorem Kept.finish {i : Nat} {task : τ} {pool : ThreadPool τ}
    (hi : w.pool.workers[i]? = some (.running task)) (hp : w.pool.finish i = some pool) :
    Kept { w with pool } (es ++ [.done task]) := by
  have hstaffed := h.staffed.finish hp
  obtain ⟨-, rfl⟩ := ThreadPool.finish_eq_some hp
  refine ⟨hstaffed, h.bounded, fifo_append h.fifo rfl rfl, ?_,
    fun t hmem => h.stopping t (by simpa using hmem), final_append h.final (Or.inl rfl),
    fun t j ht k hk => exited_set hi (by simp) (h.joined t j ht k hk), fun t hmem => ?_⟩
  · rw [dequeuedTasks_append, doneTasks_append]
    have hrun : (task :: running { w.pool with workers := w.pool.workers.set i .waiting }).Perm
        (running w.pool) := running_set hi .waiting
    rw [show dequeuedTasks [(.done task : PoolEvent τ)] = [] from rfl, List.append_nil,
      show doneTasks [(.done task : PoolEvent τ)] = [task] from rfl, List.append_assoc]
    exact h.taken.trans (hrun.symm.append_left _)
  · exact absurd (by simpa using hmem) (h.not_returned hi (by simp) t)

theorem Kept.stop (t : Nat) :
    Kept ({ w with pool := w.pool.stopFlag }.setStopper t (.joining 0)) (es ++ [.stopped t]) := by
  refine ⟨h.staffed.stopFlag, h.bounded, fifo_append h.fifo rfl rfl, taken_append h.taken rfl rfl,
    fun _ _ => rfl, final_append h.final (Or.inl rfl), fun t' i ht j hj => ?_,
    fun t' hmem => h.drained t' (by simpa using hmem)⟩
  simp only [setStopper] at ht
  split at ht
  · obtain rfl := Stopper.joining.inj ht
    exact absurd hj (Nat.not_lt_zero j)
  · exact h.joined t' i ht j hj

theorem Kept.join {t i : Nat} (ht : w.stoppers t = .joining i)
    (hi : w.pool.workers[i]? = some .exited) : Kept (w.setStopper t (.joining (i + 1))) es := by
  refine ⟨h.staffed, h.bounded, h.fifo, h.taken, h.stopping, h.final, fun t' k ht' j hj => ?_,
    h.drained⟩
  simp only [setStopper] at ht'
  split at ht'
  · obtain rfl := Stopper.joining.inj ht'
    rcases Nat.lt_succ_iff_lt_or_eq.mp hj with hj | rfl
    · exact h.joined t i ht j hj
    · exact hi
  · exact h.joined t' k ht' j hj

/-- A thread that has joined every worker returns. -/
theorem Kept.return {t i : Nat} (ht : w.stoppers t = .joining i) (hi : w.pool.workers.length ≤ i) :
    Kept (w.setStopper t .idle) (es ++ [.returned t]) := by
  refine ⟨h.staffed, h.bounded, fifo_append h.fifo rfl rfl, taken_append h.taken rfl rfl,
    fun t' hmem => h.stopping t' (by simpa using hmem), final_append h.final (Or.inl rfl),
    fun t' k ht' j hj => ?_, fun t' _ x hx => ?_⟩
  · simp only [setStopper] at ht'
    split at ht'
    · exact absurd ht' (by simp)
    · exact h.joined t' k ht' j hj
  · obtain ⟨j, hj⟩ := List.mem_iff_getElem?.mp hx
    have hlt : j < w.pool.workers.length := (List.getElem?_eq_some_iff.mp hj).1
    exact Option.some.inj (hj.symm.trans (h.joined t i ht j (Nat.lt_of_lt_of_le hlt hi)))

theorem step_kept {l : PoolLabel τ} {fs : List (PoolEvent τ)} (hs : w.step l = some (w', fs)) :
    Kept w' (es ++ fs) := by
  cases steps_of_step hs with
  | accept hp => exact h.accept hp
  | refuse => exact h.aside rfl rfl rfl (by simp) (by simp)
  | throw => exact h.aside rfl rfl rfl (by simp) (by simp)
  | dequeue hp => exact h.dequeue hp
  | exit hp => exact h.exit hp
  | finish hi hp => exact h.finish hi hp
  | @stop t => exact h.stop t
  | join ht hi =>
    rw [List.append_nil]
    exact h.join ht hi
  | «return» ht hi => exact h.return ht hi

/-- Where every worker has exited, the queue is empty. -/
theorem Kept.empty (hall : ∀ x ∈ w.pool.workers, x = .exited) : w.pool.tasks = [] := by
  cases hw : w.pool.workers with
  | nil =>
    by_contra hne
    exact h.staffed.workers hne hw
  | cons x xs =>
    have hx : x = .exited := hall x (hw ▸ List.mem_cons_self)
    exact (h.staffed.drained (hx ▸ hw ▸ List.mem_cons_self)).2

end Kept

theorem step_maxPendingTasks {w w' : PoolWorld τ} {l : PoolLabel τ} {es : List (PoolEvent τ)}
    (hs : w.step l = some (w', es)) : w'.pool.maxPendingTasks = w.pool.maxPendingTasks := by
  cases steps_of_step hs with
  | accept hp =>
    obtain ⟨rfl, -, -⟩ := ThreadPool.tryExecute_eq_true hp
    rfl
  | dequeue hp =>
    obtain ⟨-, tasks, -, rfl⟩ := ThreadPool.take_eq_some hp
    rfl
  | exit hp =>
    obtain ⟨-, -, -, rfl⟩ := ThreadPool.take_eq_none hp
    rfl
  | finish hi hp =>
    obtain ⟨-, rfl⟩ := ThreadPool.finish_eq_some hp
    rfl
  | refuse | throw | stop | join | «return» => rfl

/-! ## Main result -/

/-- In every run of a pool the queue keeps its bound, tasks are taken in the order they were
    accepted and each once, nothing is accepted behind a stop, and where all workers have
    exited the queue is empty; so every accepted task has returned when `stopAndDrain` does. -/
theorem pool_guarantees (threads maxPendingTasks : Nat) (ls : List (PoolLabel τ))
    (w : PoolWorld τ) (es : List (PoolEvent τ))
    (hrun : run step (new threads maxPendingTasks) ls = some (w, es)) :
    (maxPendingTasks ≠ 0 → w.pool.tasks.length ≤ maxPendingTasks) ∧
      acceptedTasks es = dequeuedTasks es ++ w.pool.tasks ∧
      (∀ t es₁ es₂, es = es₁ ++ .stopped t :: es₂ → acceptedTasks es₂ = []) ∧
      ((∀ x ∈ w.pool.workers, x = .exited) → w.pool.tasks = []) ∧
      ∀ t, .returned t ∈ es → (doneTasks es).Perm (acceptedTasks es) := by
  have h : Kept w es := run_induction Kept (fun _ _ _ _ _ hk hs => step_kept hk hs) []
    (kept_new threads maxPendingTasks) hrun
  have hmax : w.pool.maxPendingTasks = maxPendingTasks :=
    run_invariant (fun v => v.pool.maxPendingTasks = maxPendingTasks)
      (fun _ _ _ _ hv hs => (step_maxPendingTasks hs).trans hv) rfl hrun
  refine ⟨hmax ▸ h.bounded, h.fifo, h.final, h.empty, fun t hmem => ?_⟩
  have hall := h.drained t hmem
  have hnone : running w.pool = [] := List.filterMap_eq_nil_iff.mpr fun x hx => by
    rw [hall x hx]
    rfl
  have htaken := h.taken
  rw [hnone, List.append_nil] at htaken
  rw [h.fifo, h.empty hall, List.append_nil]
  exact htaken.symm

/-- One worker runs a task, a second one is refused while the first waits, and the drain
    returns behind the worker's exit. -/
theorem pool_guarantees_one_worker :
    ∃ w es, run step (new 1 1) [.tryExecute 7, .tryExecute 8, .stopAndDrain 0, .submit 9,
        .take 0, .finish 0, .take 0, .join 0, .join 0] = some (w, es) ∧
      .returned 0 ∈ es ∧ (doneTasks es).Perm (acceptedTasks es) := by
  have hrun : (run step (new 1 1 : PoolWorld Nat) [.tryExecute 7, .tryExecute 8, .stopAndDrain 0,
      .submit 9, .take 0, .finish 0, .take 0, .join 0, .join 0]).map
        (fun r => decide (.returned 0 ∈ r.2)) = some true := by decide +kernel
  obtain ⟨⟨w, es⟩, hw, hmem⟩ := Option.map_eq_some_iff.mp hrun
  have hmem : .returned 0 ∈ es := of_decide_eq_true hmem
  exact ⟨w, es, hw, hmem, (pool_guarantees 1 1 _ w es hw).2.2.2.2 0 hmem⟩

end PoolWorld

end RocketRpc.Common
