import Mathlib.Data.List.Basic

/-
  The worker pool (`rocket/common/thread_pool.h`).

  Each critical section of the pool is one operation: the admission of a task, what a worker
  does between two tasks, and the stop flag. A task is what the worker runs outside the lock.
-/

namespace RocketRpc.Common

/-- Where a worker is in its loop. -/
inductive Worker (τ : Type) where
  /-- At the lock, or waiting on `m_cv`. -/
  | waiting
  | running (task : τ)
  | exited
  deriving DecidableEq, Repr

structure ThreadPool (τ : Type) where
  workers : List (Worker τ)
  tasks : List τ := []
  stop : Bool := false
  maxPendingTasks : Nat

namespace ThreadPool

variable {τ : Type}

def new (threads maxPendingTasks : Nat) : ThreadPool τ :=
  { workers := List.replicate threads .waiting, maxPendingTasks }

/-- The pool takes no task. -/
def rejects (p : ThreadPool τ) : Bool :=
  p.stop || p.workers.isEmpty || (p.maxPendingTasks != 0 && p.maxPendingTasks ≤ p.tasks.length)

/-- `tryExecute`: its result, and the pool. -/
def tryExecute (p : ThreadPool τ) (task : τ) : Bool × ThreadPool τ :=
  if p.rejects then (false, p) else (true, { p with tasks := p.tasks ++ [task] })

/-- `submit`: the pool with the task, or the text of the `runtime_error` it throws. -/
def submit (p : ThreadPool τ) (task : τ) : Except String (ThreadPool τ) :=
  if p.stop || p.workers.isEmpty then .error "submit on stopped ThreadPool"
  else if p.maxPendingTasks != 0 && p.maxPendingTasks ≤ p.tasks.length then
    .error "submit on full ThreadPool"
  else .ok { p with tasks := p.tasks ++ [task] }

/-- The critical section of worker `i`: it takes the first task, or exits. -/
def take (p : ThreadPool τ) (i : Nat) : Option (Option τ × ThreadPool τ) :=
  match p.workers[i]? with
  | some .waiting =>
    match p.tasks with
    | task :: tasks =>
      some (some task, { p with tasks, workers := p.workers.set i (.running task) })
    | [] => if p.stop then some (none, { p with workers := p.workers.set i .exited }) else none
  | _ => none

/-- The task of worker `i` returns. -/
def finish (p : ThreadPool τ) (i : Nat) : Option (ThreadPool τ) :=
  match p.workers[i]? with
  | some (.running _) => some { p with workers := p.workers.set i .waiting }
  | _ => none

/-- The critical section of `stopAndDrain`. -/
def stopFlag (p : ThreadPool τ) : ThreadPool τ := { p with stop := true }

/-! ## What each operation does -/

theorem tryExecute_eq_true {p p' : ThreadPool τ} {task : τ}
    (h : p.tryExecute task = (true, p')) :
    p' = { p with tasks := p.tasks ++ [task] } ∧ p.stop = false ∧ p.workers ≠ [] := by
  unfold tryExecute at h
  split at h
  · exact absurd (Prod.mk.inj h).1 (by simp)
  · rename_i hadmit
    simp only [rejects, Bool.or_eq_true, not_or, Bool.not_eq_true] at hadmit
    exact ⟨(Prod.mk.inj h).2.symm, hadmit.1.1, by simpa using hadmit.1.2⟩

/-- A task that is not accepted leaves the pool as it was. -/
theorem tryExecute_eq_false {p p' : ThreadPool τ} {task : τ}
    (h : p.tryExecute task = (false, p')) : p' = p ∧ p.rejects = true := by
  unfold tryExecute at h
  split at h
  · rename_i hrej
    exact ⟨(Prod.mk.inj h).2.symm, hrej⟩
  · exact absurd (Prod.mk.inj h).1 (by simp)

/-- `submit` accepts what `tryExecute` accepts, and does the same then. -/
theorem submit_ok_iff {p p' : ThreadPool τ} {task : τ} :
    p.submit task = .ok p' ↔ p.tryExecute task = (true, p') := by
  unfold submit tryExecute rejects
  cases p.stop || p.workers.isEmpty <;>
    cases p.maxPendingTasks != 0 && decide (p.maxPendingTasks ≤ p.tasks.length) <;> simp

/-- A waiting worker takes the first task, or leaves if there is none and the pool is stopped. -/
theorem take_cases {p : ThreadPool τ} {i : Nat} {r : Option τ × ThreadPool τ}
    (h : p.take i = some r) :
    p.workers[i]? = some .waiting ∧
      ((∃ task tasks, p.tasks = task :: tasks ∧
          r = (some task, { p with tasks, workers := p.workers.set i (.running task) })) ∨
        p.tasks = [] ∧ p.stop = true ∧
          r = (none, { p with workers := p.workers.set i .exited })) := by
  unfold take at h
  split at h
  case h_2 => exact absurd h (by simp)
  rename_i hi
  refine ⟨hi, ?_⟩
  split at h
  · rename_i task tasks htasks
    exact Or.inl ⟨task, tasks, htasks, (Option.some.inj h).symm⟩
  · rename_i htasks
    split at h
    · rename_i hstop
      exact Or.inr ⟨htasks, hstop, (Option.some.inj h).symm⟩
    · exact absurd h (by simp)

theorem take_eq_some {p p' : ThreadPool τ} {i : Nat} {task : τ}
    (h : p.take i = some (some task, p')) :
    p.workers[i]? = some .waiting ∧ ∃ tasks, p.tasks = task :: tasks ∧
      p' = { p with tasks, workers := p.workers.set i (.running task) } := by
  obtain ⟨hi, ⟨task', tasks, htasks, heq⟩ | ⟨-, -, heq⟩⟩ := take_cases h
  · obtain ⟨htask, rfl⟩ := Prod.mk.inj heq
    obtain rfl := Option.some.inj htask
    exact ⟨hi, tasks, htasks, rfl⟩
  · exact absurd (Prod.mk.inj heq).1 (by simp)

theorem take_eq_none {p p' : ThreadPool τ} {i : Nat} (h : p.take i = some (none, p')) :
    p.workers[i]? = some .waiting ∧ p.tasks = [] ∧ p.stop = true ∧
      p' = { p with workers := p.workers.set i .exited } := by
  obtain ⟨hi, ⟨task, tasks, -, heq⟩ | ⟨htasks, hstop, heq⟩⟩ := take_cases h
  · exact absurd (Prod.mk.inj heq).1 (by simp)
  · exact ⟨hi, htasks, hstop, (Prod.mk.inj heq).2⟩

theorem finish_eq_some {p p' : ThreadPool τ} {i : Nat} (h : p.finish i = some p') :
    (∃ task, p.workers[i]? = some (.running task)) ∧
      p' = { p with workers := p.workers.set i .waiting } := by
  unfold finish at h
  split at h
  · rename_i task hi
    exact ⟨⟨task, hi⟩, (Option.some.inj h).symm⟩
  · exact absurd h (by simp)

/-! ## Workers stay while there are tasks -/

/-- No worker has exited while there are tasks, and there are tasks only where there are
    workers. -/
structure Staffed (p : ThreadPool τ) : Prop where
  drained : .exited ∈ p.workers → p.stop = true ∧ p.tasks = []
  workers : p.tasks ≠ [] → p.workers ≠ []

theorem staffed_new (threads maxPendingTasks : Nat) :
    (new threads maxPendingTasks : ThreadPool τ).Staffed where
  drained h := absurd (List.eq_of_mem_replicate h) (by simp)
  workers h := absurd rfl h

section Staffed

variable {p p' : ThreadPool τ} (h : p.Staffed)

include h

theorem Staffed.tryExecute {task : τ} (hp : p.tryExecute task = (true, p')) : p'.Staffed := by
  obtain ⟨rfl, hstop, hworkers⟩ := tryExecute_eq_true hp
  refine ⟨fun hexit => ?_, fun _ => hworkers⟩
  have hdrained : p.stop = true := (h.drained hexit).1
  exact absurd (hstop.symm.trans hdrained) (by simp)

theorem Staffed.take {i : Nat} {o : Option τ} (hp : p.take i = some (o, p')) : p'.Staffed := by
  cases o with
  | some task =>
    obtain ⟨hi, tasks, htasks, rfl⟩ := take_eq_some hp
    refine ⟨fun hexit => ?_, fun _ hnil => ?_⟩
    · have hmem : Worker.exited ∈ p.workers :=
        (List.mem_or_eq_of_mem_set hexit).resolve_right (by simp)
      exact absurd (htasks.symm.trans (h.drained hmem).2) (by simp)
    · have hlen : p.workers = [] := by simpa using hnil
      simp [hlen] at hi
  | none =>
    obtain ⟨-, htasks, hstop, rfl⟩ := take_eq_none hp
    exact ⟨fun _ => ⟨hstop, htasks⟩, fun hne => absurd htasks hne⟩

theorem Staffed.finish {i : Nat} (hp : p.finish i = some p') : p'.Staffed := by
  obtain ⟨⟨task, hi⟩, rfl⟩ := finish_eq_some hp
  refine ⟨fun hexit => h.drained ((List.mem_or_eq_of_mem_set hexit).resolve_right (by simp)),
    fun hne hnil => h.workers hne (by simpa using hnil)⟩

theorem Staffed.stopFlag : p.stopFlag.Staffed :=
  ⟨fun hexit => ⟨rfl, (h.drained hexit).2⟩, h.workers⟩

/-- While there are tasks some worker is still in its loop. -/
theorem Staffed.exists_worker (hne : p.tasks ≠ []) :
    p.workers[0]? = some .waiting ∨ ∃ task, p.workers[0]? = some (.running task) := by
  cases hw : p.workers with
  | nil => exact absurd hw (h.workers hne)
  | cons w ws =>
    cases w with
    | waiting => exact Or.inl rfl
    | running task => exact Or.inr ⟨task, rfl⟩
    | exited => exact absurd (h.drained (hw ▸ List.mem_cons_self)).2 hne

end Staffed

end ThreadPool

end RocketRpc.Common
