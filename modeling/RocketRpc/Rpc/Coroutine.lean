import RocketRpc.Lib.Machine

/-
  The completion of a coroutine (`rocket/net/rpc/coroutine.h`).

  One thread calls `Task::run` and destroys the `Task` afterwards; the coroutine goes on there
  until it is resumed on another thread. At its end the thread it is on goes through
  `FinalAwaiter::await_suspend`, whose every step touches the promise. Each lock, unlock, wait
  and store is a step of its own. The handshake keeps every step but the last from a destroyed
  promise; `touches_alive` says when it keeps that one too.
-/

namespace RocketRpc.Rpc

open Machine

/-- What `await_suspend` does next. -/
inductive FinalStep where
  | lock
  | store
  | unlock
  | notify
  deriving DecidableEq, Repr

/-- Where the coroutine is; `own` says that it is on the thread of `Task::run`, inside
    `resume`. -/
inductive CoPlace where
  | initial
  | body (own : Bool)
  /-- Suspended at a `co_await`. -/
  | awaiting
  | final (next : FinalStep) (own : Bool)
  /-- `await_suspend` has returned. -/
  | finished
  deriving DecidableEq, Repr

/-- Where the thread of `Task::run` is. -/
inductive RunnerPlace where
  | outside
  /-- Inside `resume`. -/
  | resuming
  | locking
  /-- It holds `completion_mutex` and tests `completed`. -/
  | testing
  /-- In `completion_cv.wait`, without the mutex. -/
  | sleeping
  /-- It holds the mutex and has found `completed` set. -/
  | leaving
  | reading
  deriving DecidableEq, Repr

/-- Who holds `completion_mutex`. -/
inductive CoHolder where
  | runner
  | finisher
  deriving DecidableEq, Repr

/-- The coroutine and the thread of `Task::run`; `τ` is the type of its result and `ε` that of
    the exceptions. -/
structure CoTask (τ ε : Type) where
  alive : Bool := true
  completed : Bool := false
  mutex : Option CoHolder := none
  /-- What `co_return` stored, until `run` moves it away. -/
  result : Option τ := none
  exception : Option ε := none
  place : CoPlace := .initial
  runner : RunnerPlace := .outside
  deriving DecidableEq, Repr

inductive CoLabel (τ ε : Type) where
  /-- The next step of the thread of `Task::run`. -/
  | run
  /-- A spurious wakeup of its wait. -/
  | wake
  | await
  /-- The coroutine is resumed at its `co_await`. -/
  | resume (own : Bool)
  | coReturn (value : τ)
  | throw (e : ε)
  /-- The next step of `await_suspend`. -/
  | final
  /-- `~Task`. -/
  | destroy
  deriving DecidableEq, Repr

inductive CoEvent (τ ε : Type) where
  | returned (result : Option τ)
  | threw (e : ε)
  /-- A step of `await_suspend` touches the promise. -/
  | touched (alive : Bool)
  deriving DecidableEq, Repr

namespace CoPlace

/-- The coroutine runs inside the `resume` of `Task::run`. -/
def own : CoPlace → Bool
  | .body own | .final _ own => own
  | _ => false

/-- `await_suspend` holds the mutex. -/
def holds : CoPlace → Bool
  | .final .store _ | .final .unlock _ => true
  | _ => false

/-- `completed` is set. -/
def stored : CoPlace → Bool
  | .final .unlock _ | .final .notify _ | .finished => true
  | _ => false

/-- `completed` is set and the mutex free again. -/
def released : CoPlace → Bool
  | .final .notify _ | .finished => true
  | _ => false

/-- The coroutine is suspended for good: `handle.done()`. -/
def done : CoPlace → Bool
  | .final _ _ | .finished => true
  | _ => false

theorem released_of_stored {p : CoPlace} (hs : p.stored = true) (hh : p.holds = false) :
    p.released = true := by
  rcases p with _ | _ | _ | ⟨_ | _ | _ | _, own⟩ | _ <;> simp_all [stored, holds, released]

theorem finished_of_released {p : CoPlace} (h : p.released = true)
    (hn : ∀ own, p ≠ .final .notify own) : p = .finished := by
  unfold released at h
  split at h
  · exact absurd rfl (hn _)
  · rfl
  · exact absurd h (by simp)

end CoPlace

namespace CoTask

variable {τ ε : Type}

/-- The next step of `Task::run`. -/
def runStep (w : CoTask τ ε) : Option (CoTask τ ε × List (CoEvent τ ε)) :=
  match w.runner with
  | .outside =>
    if !w.alive then none
    else if w.place.done then some ({ w with runner := .locking }, [])
    else if w.place = .initial then some ({ w with place := .body true, runner := .resuming }, [])
    else none
  | .resuming => if w.place.own then none else some ({ w with runner := .locking }, [])
  | .locking =>
    if w.mutex = none then some ({ w with mutex := some .runner, runner := .testing }, []) else none
  | .testing =>
    if w.completed then some ({ w with runner := .leaving }, [])
    else some ({ w with mutex := none, runner := .sleeping }, [])
  | .sleeping => none
  | .leaving => some ({ w with mutex := none, runner := .reading }, [])
  | .reading =>
    match w.exception with
    | some e => some ({ w with runner := .outside }, [.threw e])
    | none => some ({ w with runner := .outside, result := none }, [.returned w.result])

/-- The next step of `FinalAwaiter::await_suspend`. -/
def finalStep (w : CoTask τ ε) : Option (CoTask τ ε × List (CoEvent τ ε)) :=
  match w.place with
  | .final .lock own =>
    if w.mutex = none then
      some ({ w with mutex := some .finisher, place := .final .store own }, [.touched w.alive])
    else none
  | .final .store own =>
    some ({ w with completed := true, place := .final .unlock own }, [.touched w.alive])
  | .final .unlock own =>
    some ({ w with mutex := none, place := .final .notify own }, [.touched w.alive])
  | .final .notify _ =>
    let runner := if w.runner = .sleeping then .locking else w.runner
    some ({ w with runner, place := .finished }, [.touched w.alive])
  | _ => none

def step (w : CoTask τ ε) : CoLabel τ ε → Option (CoTask τ ε × List (CoEvent τ ε))
  | .run => w.runStep
  | .wake => if w.runner = .sleeping then some ({ w with runner := .locking }, []) else none
  | .await =>
    match w.place with
    | .body _ => some ({ w with place := .awaiting }, [])
    | _ => none
  | .resume own =>
    if w.place = .awaiting ∧ (own = true → w.runner = .resuming) then
      some ({ w with place := .body own }, [])
    else none
  | .coReturn value =>
    match w.place with
    | .body own => some ({ w with result := some value, place := .final .lock own }, [])
    | _ => none
  | .throw e =>
    match w.place with
    | .body own => some ({ w with exception := some e, place := .final .lock own }, [])
    | _ => none
  | .final => w.finalStep
  | .destroy =>
    if w.alive = true ∧ w.runner = .outside then some ({ w with alive := false }, []) else none

/-- The `Task` is not destroyed between the unlock of `await_suspend` and the end of its
    `notify_all`. -/
def Notified (w : CoTask τ ε) : CoLabel τ ε → Prop
  | .destroy => ∀ own, w.place ≠ .final .notify own
  | _ => True

instance (w : CoTask τ ε) : DecidablePred w.Notified
  | .destroy => inferInstanceAs (Decidable (∀ own, w.place ≠ .final .notify own))
  | .run | .wake | .await | .resume _ | .coReturn _ | .throw _ | .final => .isTrue trivial

/-- Everything a step can do. -/
inductive Steps (w : CoTask τ ε) : CoLabel τ ε → CoTask τ ε → List (CoEvent τ ε) → Prop where
  | again (ha : w.alive = true) (hr : w.runner = .outside) (hp : w.place.done = true) :
      Steps w .run { w with runner := .locking } []
  | start (ha : w.alive = true) (hr : w.runner = .outside) (hp : w.place = .initial) :
      Steps w .run { w with place := .body true, runner := .resuming } []
  | resumed (hr : w.runner = .resuming) (hp : w.place.own = false) :
      Steps w .run { w with runner := .locking } []
  | acquire (hr : w.runner = .locking) (hm : w.mutex = none) :
      Steps w .run { w with mutex := some .runner, runner := .testing } []
  | leave (hr : w.runner = .testing) (hc : w.completed = true) :
      Steps w .run { w with runner := .leaving } []
  | sleep (hr : w.runner = .testing) (hc : w.completed = false) :
      Steps w .run { w with mutex := none, runner := .sleeping } []
  | release (hr : w.runner = .leaving) : Steps w .run { w with mutex := none, runner := .reading } []
  | threw {e : ε} (hr : w.runner = .reading) : Steps w .run { w with runner := .outside } [.threw e]
  | returned (hr : w.runner = .reading) :
      Steps w .run { w with runner := .outside, result := none } [.returned w.result]
  | wake (hr : w.runner = .sleeping) : Steps w .wake { w with runner := .locking } []
  | await {own : Bool} (hp : w.place = .body own) : Steps w .await { w with place := .awaiting } []
  | resume {own : Bool} (hp : w.place = .awaiting) (hown : own = true → w.runner = .resuming) :
      Steps w (.resume own) { w with place := .body own } []
  | coReturn {own : Bool} {value : τ} (hp : w.place = .body own) :
      Steps w (.coReturn value) { w with result := some value, place := .final .lock own } []
  | throw {own : Bool} {e : ε} (hp : w.place = .body own) :
      Steps w (.throw e) { w with exception := some e, place := .final .lock own } []
  | lock {own : Bool} (hp : w.place = .final .lock own) (hm : w.mutex = none) :
      Steps w .final { w with mutex := some .finisher, place := .final .store own } [.touched w.alive]
  | store {own : Bool} (hp : w.place = .final .store own) :
      Steps w .final { w with completed := true, place := .final .unlock own } [.touched w.alive]
  | unlock {own : Bool} (hp : w.place = .final .unlock own) :
      Steps w .final { w with mutex := none, place := .final .notify own } [.touched w.alive]
  | notify {own : Bool} (hp : w.place = .final .notify own) :
      Steps w .final { w with
        runner := if w.runner = .sleeping then .locking else w.runner
        place := .finished } [.touched w.alive]
  | destroy (ha : w.alive = true) (hr : w.runner = .outside) :
      Steps w .destroy { w with alive := false } []

theorem steps_of_runStep {w w' : CoTask τ ε} {es : List (CoEvent τ ε)}
    (h : w.runStep = some (w', es)) : Steps w .run w' es := by
  unfold runStep at h
  split at h <;> rename_i hr
  · split at h
    · exact absurd h (by simp)
    rename_i ha
    have ha : w.alive = true := by simpa using ha
    split at h
    · rename_i hp
      obtain ⟨rfl, rfl⟩ := Prod.mk.inj (Option.some.inj h)
      exact .again ha hr hp
    split at h
    · rename_i hp
      obtain ⟨rfl, rfl⟩ := Prod.mk.inj (Option.some.inj h)
      exact .start ha hr hp
    · exact absurd h (by simp)
  · split at h
    · exact absurd h (by simp)
    rename_i hp
    obtain ⟨rfl, rfl⟩ := Prod.mk.inj (Option.some.inj h)
    exact .resumed hr (by simpa using hp)
  · split at h
    · rename_i hm
      obtain ⟨rfl, rfl⟩ := Prod.mk.inj (Option.some.inj h)
      exact .acquire hr hm
    · exact absurd h (by simp)
  · split at h <;> rename_i hc <;> obtain ⟨rfl, rfl⟩ := Prod.mk.inj (Option.some.inj h)
    · exact .leave hr hc
    · exact .sleep hr (by simpa using hc)
  · exact absurd h (by simp)
  · obtain ⟨rfl, rfl⟩ := Prod.mk.inj (Option.some.inj h)
    exact .release hr
  · split at h <;> obtain ⟨rfl, rfl⟩ := Prod.mk.inj (Option.some.inj h)
    · exact .threw hr
    · exact .returned hr

theorem steps_of_finalStep {w w' : CoTask τ ε} {es : List (CoEvent τ ε)}
    (h : w.finalStep = some (w', es)) : Steps w .final w' es := by
  unfold finalStep at h
  split at h
  · rename_i own hp
    split at h
    · rename_i hm
      obtain ⟨rfl, rfl⟩ := Prod.mk.inj (Option.some.inj h)
      exact .lock hp hm
    · exact absurd h (by simp)
  · rename_i own hp
    obtain ⟨rfl, rfl⟩ := Prod.mk.inj (Option.some.inj h)
    exact .store hp
  · rename_i own hp
    obtain ⟨rfl, rfl⟩ := Prod.mk.inj (Option.some.inj h)
    exact .unlock hp
  · rename_i own hp
    obtain ⟨rfl, rfl⟩ := Prod.mk.inj (Option.some.inj h)
    exact .notify hp
  · exact absurd h (by simp)

theorem steps_of_step {w w' : CoTask τ ε} {l : CoLabel τ ε} {es : List (CoEvent τ ε)}
    (h : w.step l = some (w', es)) : Steps w l w' es := by
  cases l with
  | run => exact steps_of_runStep h
  | final => exact steps_of_finalStep h
  | wake =>
    rw [step] at h
    split at h
    · rename_i hr
      obtain ⟨rfl, rfl⟩ := Prod.mk.inj (Option.some.inj h)
      exact .wake hr
    · exact absurd h (by simp)
  | await =>
    rw [step] at h
    split at h
    · rename_i hp
      obtain ⟨rfl, rfl⟩ := Prod.mk.inj (Option.some.inj h)
      exact .await hp
    · exact absurd h (by simp)
  | resume own =>
    rw [step] at h
    split at h
    · rename_i hp
      obtain ⟨rfl, rfl⟩ := Prod.mk.inj (Option.some.inj h)
      exact .resume hp.1 hp.2
    · exact absurd h (by simp)
  | coReturn value =>
    rw [step] at h
    split at h
    · rename_i hp
      obtain ⟨rfl, rfl⟩ := Prod.mk.inj (Option.some.inj h)
      exact .coReturn hp
    · exact absurd h (by simp)
  | throw e =>
    rw [step] at h
    split at h
    · rename_i hp
      obtain ⟨rfl, rfl⟩ := Prod.mk.inj (Option.some.inj h)
      exact .throw hp
    · exact absurd h (by simp)
  | destroy =>
    rw [step] at h
    split at h
    · rename_i hd
      obtain ⟨rfl, rfl⟩ := Prod.mk.inj (Option.some.inj h)
      exact .destroy hd.1 hd.2
    · exact absurd h (by simp)

/-! ## The handshake -/

/-- What the mutex and `completed` say about the two threads, whenever the `Task` is
    destroyed. -/
structure Handshake (w : CoTask τ ε) : Prop where
  finisher : w.mutex = some .finisher ↔ w.place.holds = true
  runner : w.mutex = some .runner ↔ w.runner = .testing ∨ w.runner = .leaving
  completed : w.completed = w.place.stored
  own : w.place.own = true → w.runner = .resuming
  passed : w.runner = .leaving ∨ w.runner = .reading → w.place.released = true
  outside : w.runner = .outside → w.place = .initial ∨ w.place.released = true
  dead : w.alive = false → w.runner = .outside

theorem handshake_new : ({} : CoTask τ ε).Handshake where
  finisher := by simp [CoPlace.holds]
  runner := by simp
  completed := rfl
  own h := absurd h (by simp [CoPlace.own])
  passed h := absurd h (by simp)
  outside _ := Or.inl rfl
  dead h := absurd h (by simp)

section Handshake

variable {w w' : CoTask τ ε} (h : w.Handshake)

include h

theorem Handshake.alive (hr : w.runner ≠ .outside) : w.alive = true := by
  rw [← Bool.not_eq_false]
  exact fun hd => hr (h.dead hd)

theorem Handshake.not_own (hr : w.runner ≠ .resuming) : w.place.own = false := by
  rw [← Bool.not_eq_true]
  exact fun ho => hr (h.own ho)

/-- While the runner holds the mutex, `await_suspend` does not. -/
theorem Handshake.not_holds (hr : w.runner = .testing ∨ w.runner = .leaving) :
    w.place.holds = false := by
  rw [← Bool.not_eq_true, ← h.finisher, h.runner.mpr hr]
  simp

/-- A step of the thread of `Task::run`. -/
theorem Handshake.moveRunner (hr : w.runner ≠ .outside ∨ w.alive = true) (mutex : Option CoHolder)
    (runner : RunnerPlace) (result : Option τ)
    (hfin : mutex = some .finisher ↔ w.mutex = some .finisher)
    (hrun : mutex = some .runner ↔ runner = .testing ∨ runner = .leaving)
    (hown : w.place.own = false)
    (hpassed : runner = .leaving ∨ runner = .reading ∨ runner = .outside →
      w.place.released = true) :
    Handshake { w with mutex, runner, result } where
  finisher := hfin.trans h.finisher
  runner := hrun
  completed := h.completed
  own ho := absurd (hown.symm.trans ho) (by simp)
  passed hp := hpassed (hp.imp id Or.inl)
  outside hp := Or.inr (hpassed (Or.inr (Or.inr hp)))
  dead hd := by
    have ha : w.alive = true := hr.elim h.alive id
    exact absurd (ha.symm.trans hd) (by simp)

/-- A step of the coroutine. -/
theorem Handshake.moveCoroutine (completed : Bool) (mutex : Option CoHolder) (place : CoPlace)
    (result : Option τ) (exception : Option ε) (hcompleted : completed = place.stored)
    (hfin : mutex = some .finisher ↔ place.holds = true)
    (hrun : mutex = some .runner ↔ w.mutex = some .runner)
    (hown : place.own = true → w.runner = .resuming)
    (hplace : w.place ≠ .initial) (hreleased : w.place.released = true → place.released = true) :
    Handshake { w with completed, mutex, place, result, exception } where
  finisher := hfin
  runner := hrun.trans h.runner
  completed := hcompleted
  own := hown
  passed hp := hreleased (h.passed hp)
  outside hp := Or.inr (hreleased ((h.outside hp).resolve_left hplace))
  dead := h.dead

/-- The body of the coroutine is over. -/
theorem Handshake.ended {own : Bool} (hp : w.place = .body own) (result : Option τ)
    (exception : Option ε) :
    Handshake { w with result, exception, place := .final .lock own } :=
  h.moveCoroutine w.completed w.mutex (.final .lock own) result exception
    (by rw [h.completed, hp]; rfl) (by simp [h.finisher, hp, CoPlace.holds]) Iff.rfl
    (fun ho => h.own (by rw [hp]; exact ho)) (by simp [hp]) (by simp [hp, CoPlace.released])

theorem step_handshake {l : CoLabel τ ε} {es : List (CoEvent τ ε)}
    (hs : w.step l = some (w', es)) : w'.Handshake := by
  have hc := h.completed
  cases steps_of_step hs with
  | again ha hr hp =>
    exact h.moveRunner (.inr ha) w.mutex .locking w.result Iff.rfl
      (by simp [h.runner, hr]) (h.not_own (by simp [hr])) (by simp)
  | start ha hr hp =>
    have hnone : w.mutex ≠ some .runner := by simp [h.runner, hr]
    exact ⟨by simp [h.finisher, hp, CoPlace.holds], by simpa using hnone,
      by simpa [hp, CoPlace.stored] using hc, fun _ => rfl, by simp, by simp,
      fun hd => absurd (ha.symm.trans hd) (by simp)⟩
  | resumed hr hp =>
    exact h.moveRunner (.inl (by simp [hr])) w.mutex .locking w.result Iff.rfl
      (by simp [h.runner, hr]) hp (by simp)
  | acquire hr hm =>
    exact h.moveRunner (.inl (by simp [hr])) (some .runner) .testing w.result (by simp [hm])
      (by simp) (h.not_own (by simp [hr])) (by simp)
  | leave hr hcompleted =>
    have hmutex : w.mutex = some .runner := h.runner.mpr (Or.inl hr)
    exact h.moveRunner (.inl (by simp [hr])) w.mutex .leaving w.result Iff.rfl (by simp [hmutex])
      (h.not_own (by simp [hr]))
      fun _ => CoPlace.released_of_stored (hc ▸ hcompleted) (h.not_holds (Or.inl hr))
  | sleep hr hcompleted =>
    have hmutex : w.mutex = some .runner := h.runner.mpr (Or.inl hr)
    exact h.moveRunner (.inl (by simp [hr])) none .sleeping w.result (by simp [hmutex]) (by simp)
      (h.not_own (by simp [hr])) (by simp)
  | release hr =>
    have hmutex : w.mutex = some .runner := h.runner.mpr (Or.inr hr)
    exact h.moveRunner (.inl (by simp [hr])) none .reading w.result (by simp [hmutex]) (by simp)
      (h.not_own (by simp [hr])) fun _ => h.passed (Or.inl hr)
  | threw hr =>
    exact h.moveRunner (.inl (by simp [hr])) w.mutex .outside w.result Iff.rfl
      (by simp [h.runner, hr]) (h.not_own (by simp [hr])) fun _ => h.passed (Or.inr hr)
  | returned hr =>
    exact h.moveRunner (.inl (by simp [hr])) w.mutex .outside none Iff.rfl
      (by simp [h.runner, hr]) (h.not_own (by simp [hr])) fun _ => h.passed (Or.inr hr)
  | wake hr =>
    exact h.moveRunner (.inl (by simp [hr])) w.mutex .locking w.result Iff.rfl
      (by simp [h.runner, hr]) (h.not_own (by simp [hr])) (by simp)
  | await hp =>
    exact h.moveCoroutine w.completed w.mutex .awaiting w.result w.exception (by rw [hc, hp]; rfl)
      (by simp [h.finisher, hp, CoPlace.holds]) Iff.rfl (by simp [CoPlace.own]) (by simp [hp])
      (by simp [hp, CoPlace.released])
  | @resume own hp hown =>
    exact h.moveCoroutine w.completed w.mutex (.body own) w.result w.exception
      (by rw [hc, hp]; rfl) (by simp [h.finisher, hp, CoPlace.holds]) Iff.rfl hown (by simp [hp])
      (by simp [hp, CoPlace.released])
  | @coReturn own value hp => exact h.ended hp (some value) w.exception
  | @throw own e hp => exact h.ended hp w.result (some e)
  | @lock own hp hm =>
    exact h.moveCoroutine w.completed (some .finisher) (.final .store own) w.result w.exception
      (by rw [hc, hp]; rfl) (by simp [CoPlace.holds]) (by simp [hm])
      (fun ho => h.own (by rw [hp]; exact ho)) (by simp [hp]) (by simp [hp, CoPlace.released])
  | @store own hp =>
    exact h.moveCoroutine true w.mutex (.final .unlock own) w.result w.exception rfl
      (by simp [h.finisher, hp, CoPlace.holds]) Iff.rfl (fun ho => h.own (by rw [hp]; exact ho))
      (by simp [hp]) (by simp [hp, CoPlace.released])
  | @unlock own hp =>
    have hmutex : w.mutex = some .finisher := h.finisher.mpr (by rw [hp]; rfl)
    exact h.moveCoroutine w.completed none (.final .notify own) w.result w.exception
      (by rw [hc, hp]; rfl) (by simp [CoPlace.holds]) (by simp [hmutex])
      (fun ho => h.own (by rw [hp]; exact ho)) (by simp [hp]) fun _ => rfl
  | notify hp =>
    have hover : Handshake { w with place := .finished } :=
      h.moveCoroutine w.completed w.mutex .finished w.result w.exception (by rw [hc, hp]; rfl)
        (by simp [h.finisher, hp, CoPlace.holds]) Iff.rfl (by simp [CoPlace.own]) (by simp [hp])
        fun _ => rfl
    by_cases hr : w.runner = .sleeping
    · rw [if_pos hr]
      exact hover.moveRunner (.inl (by simp [hr])) w.mutex .locking w.result Iff.rfl
        (by simp [h.runner, hr]) rfl (by simp)
    · rw [if_neg hr]
      exact hover
  | destroy ha hr => exact { h with dead := fun _ => hr }

end Handshake

/-- A destroyed `Task` has no coroutine that is still to take a step. -/
structure Safe (w : CoTask τ ε) (es : List (CoEvent τ ε)) : Prop where
  handshake : w.Handshake
  ended : w.alive = false → w.place = .initial ∨ w.place = .finished
  alive : .touched false ∉ es

theorem step_safe {w w' : CoTask τ ε} {l : CoLabel τ ε} {es fs : List (CoEvent τ ε)}
    (h : w.Safe es) (hok : w.Notified l) (hs : w.step l = some (w', fs)) : w'.Safe (es ++ fs) := by
  have hnot : ∀ {n own}, w.place = .final n own → w.alive = true := by
    intro n own hp
    rw [← Bool.not_eq_false]
    exact fun hd => (h.ended hd).elim (by simp [hp]) (by simp [hp])
  refine ⟨step_handshake h.handshake hs, ?_, ?_⟩
  · cases steps_of_step hs with
    | again ha | start ha => exact fun hd => absurd (ha.symm.trans hd) (by simp)
    | await hp | coReturn hp | throw hp => exact fun hd => absurd (h.ended hd) (by simp [hp])
    | resume hp hown => exact fun hd => absurd (h.ended hd) (by simp [hp])
    | lock hp hm => exact fun hd => absurd ((hnot hp).symm.trans hd) (by simp)
    | store hp | unlock hp => exact fun hd => absurd ((hnot hp).symm.trans hd) (by simp)
    | notify hp => exact fun _ => Or.inr rfl
    | destroy ha hr =>
      exact fun _ => (h.handshake.outside hr).imp id fun hp =>
        CoPlace.finished_of_released hp hok
    | resumed | acquire | leave | sleep | release | threw | returned | wake => exact h.ended
  · rw [List.mem_append, not_or]
    refine ⟨h.alive, ?_⟩
    cases steps_of_step hs with
    | lock hp hm => simp [hnot hp]
    | store hp | unlock hp | notify hp => simp [hnot hp]
    | _ => simp

theorem run_safe {ls : List (CoLabel τ ε)} {w : CoTask τ ε} {es : List (CoEvent τ ε)}
    (hok : RunOk step Notified {} ls) (hrun : run step {} ls = some (w, es)) : w.Safe es :=
  runOk_induction Safe (fun _ _ _ _ _ h hok hs => step_safe h hok hs) []
    ⟨handshake_new, fun hd => absurd hd (by simp), by simp⟩ hok hrun

/-! ## Main result -/

/-- In every run whose `Task` is not destroyed between the unlock and the end of `notify_all`,
    every step of `await_suspend` finds the promise alive; and a `Task` destroyed between the
    two is touched by the next step of `await_suspend`. -/
theorem touches_alive (ls : List (CoLabel τ ε)) (w : CoTask τ ε) (es : List (CoEvent τ ε))
    (hok : RunOk step Notified {} ls) (hrun : run step {} ls = some (w, es)) :
    .touched false ∉ es ∧
      ∀ w' fs, w.step .destroy = some (w', fs) → ¬ w.Notified .destroy →
        ∃ w'', w'.step .final = some (w'', [.touched false]) := by
  refine ⟨(run_safe hok hrun).alive, fun w' fs hs hnot => ?_⟩
  obtain ⟨own, hp⟩ : ∃ own, w.place = .final .notify own := by
    by_contra hno
    exact hnot fun own hp => hno ⟨own, hp⟩
  cases steps_of_step hs with
  | destroy ha hr =>
    refine ⟨{ w with
      alive := false
      runner := if w.runner = .sleeping then .locking else w.runner
      place := .finished }, ?_⟩
    simp [step, finalStep, hp]

/-- The coroutine ends on another thread; the wait sees `completed` after the notification. -/
theorem touches_alive_waited :
    ∃ w es, run step ({} : CoTask Nat Nat) [.run, .await, .run, .run, .run, .resume false,
        .coReturn 42, .final, .final, .final, .final, .run, .run, .run, .run, .destroy] =
          some (w, es) ∧
      .touched false ∉ es := by
  have hok : RunOk step Notified ({} : CoTask Nat Nat) [.run, .await, .run, .run, .run,
      .resume false, .coReturn 42, .final, .final, .final, .final, .run, .run, .run, .run,
      .destroy] := by decide +kernel
  have hrun : (run step ({} : CoTask Nat Nat) [.run, .await, .run, .run, .run, .resume false,
      .coReturn 42, .final, .final, .final, .final, .run, .run, .run, .run, .destroy]).map
        (fun r => decide (.returned (some 42) ∈ r.2)) = some true := by decide +kernel
  obtain ⟨⟨w, es⟩, hw, -⟩ := Option.map_eq_some_iff.mp hrun
  exact ⟨w, es, hw, (touches_alive _ w es hok hw).1⟩

/-- The coroutine ends on another thread, which has unlocked the mutex when the runner first
    tests `completed`: `run` returns and the `Task` is destroyed ahead of the notification. -/
theorem touches_destroyed :
    ∃ w es, run step ({} : CoTask Nat Nat) [.run, .await, .resume false, .coReturn 42, .final,
        .final, .final, .run, .run, .run, .run, .run, .destroy, .final] = some (w, es) ∧
      .returned (some 42) ∈ es ∧ .touched false ∈ es := by
  have hrun : (run step ({} : CoTask Nat Nat) [.run, .await, .resume false, .coReturn 42, .final,
      .final, .final, .run, .run, .run, .run, .run, .destroy, .final]).map
        (fun r => decide (.returned (some 42) ∈ r.2 ∧ .touched false ∈ r.2)) = some true := by
    decide +kernel
  obtain ⟨⟨w, es⟩, hw, hes⟩ := Option.map_eq_some_iff.mp hrun
  exact ⟨w, es, hw, of_decide_eq_true hes⟩

end CoTask

end RocketRpc.Rpc
