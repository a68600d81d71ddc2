import RocketRpc.Rpc.Coroutine
import RocketRpc.Rpc.ErrorPropagation

/-
  The calls that a coroutine awaits (`rocket/net/rpc/coroutine.h`).

  A `co_await` of a `coCall` starts a call whose closure resumes the coroutine, on whatever
  thread finishes the call. `Task::errorCode` reads the error code of the promise. The outcome of
  a call is in the controller of its `CoCallState`, and stays there: neither the closure nor
  `await_resume` reads it, so the code is 0 however the calls end (`reports_iff`).
-/

namespace RocketRpc.Rpc

open RocketRpc.Tcp RocketRpc.Coder Machine

/-- A `co_await` of a `coCall`. -/
structure CoCallState (Message : Type) where
  /-- `await_suspend` was called on the thread of `Task::run`, inside `resume`. -/
  own : Bool
  /-- `handle` is not null. -/
  handle : Bool := true
  /-- The call, with the controller and the response of the state. -/
  world : World Message
  /-- What finished the call, if its arguments were not refused; for the proofs. -/
  cause : Option Finisher := none

/-- What `await_suspend` makes for a call. -/
def CoCallState.new {Message : Type} (own : Bool) (channel : RpcChannel) (args : Arguments)
    (timeoutMs : Int) (response : Message) : CoCallState Message where
  own
  world := World.call channel args (.callMethod true) { timeout := timeoutMs } response

structure CoCalls (Message τ ε : Type) where
  task : CoTask τ ε := {}
  /-- `err_code` of the promise. Only `setError` changes it, which nothing calls. -/
  errCode : Int32 := 0
  /-- The calls awaited so far. -/
  calls : List (CoCallState Message) := []

inductive CoCallsLabel (Message τ ε : Type) where
  /-- A step of the coroutine or of `Task::run` other than at a `co_await`. -/
  | task (l : CoLabel τ ε)
  /-- The coroutine awaits a call; says what of the method and the request is not null. -/
  | coAwait (channel : RpcChannel) (method request : Bool) (timeoutMs : Int) (response : Message)
  | call (k : Nat) (l : Label)

/-- The thread and the finisher that have run the closure. -/
def Event.ranBy {Message : Type} : Event Message → Option (ThreadId × Finisher)
  | .ran t f => some (t, f)
  | _ => none

namespace CoCalls

variable {Message τ ε : Type}

/-- `Task::errorCode`. -/
def errorCode (s : CoCalls Message τ ε) : Int32 := if s.task.alive then s.errCode else 0

/-- Every `CallMethod` on the thread of `Task::run` has returned. -/
def returned (s : CoCalls Message τ ε) : Bool :=
  s.calls.all fun c => !c.own || c.world.idle caller

def setCall (s : CoCalls Message τ ε) (k : Nat) (c : CoCallState Message) : CoCalls Message τ ε :=
  { s with calls := s.calls.set k c }

/-- `ResumeClosure::Run` of call `k`. -/
def resumeClosure (s : CoCalls Message τ ε) (k : Nat) (c : CoCallState Message) (own : Bool)
    (cause : Option Finisher) : Option (CoCalls Message τ ε × List (CoEvent τ ε)) :=
  if c.handle then
    (s.task.step (.resume own)).map fun r =>
      ({ s with task := r.1 }.setCall k { c with handle := false, cause }, r.2)
  else some (s.setCall k c, [])

/-- A step of the coroutine or of `Task::run` that does not wait for a call. -/
def mayStep (s : CoCalls Message τ ε) : CoLabel τ ε → Bool
  | .await | .resume _ => false
  -- `resume` returns when the calls that were made inside it have
  | .run => s.task.runner != .resuming || s.returned
  | _ => true

def step (parse : Bytes → Message × Bool) (s : CoCalls Message τ ε) :
    CoCallsLabel Message τ ε → Option (CoCalls Message τ ε × List (CoEvent τ ε))
  | .task l =>
    if s.mayStep l then (s.task.step l).map fun r => ({ s with task := r.1 }, r.2) else none
  | .coAwait channel method request timeoutMs response =>
    (s.task.step .await).bind fun r =>
      let args : Arguments := ⟨method, true, request, true⟩
      let c := CoCallState.new s.task.place.own channel args timeoutMs response
      let s' := { s with task := r.1, calls := s.calls ++ [c] }
      -- the closure of a call that is refused has run inside `CallMethod`
      if args.passes then some (s', r.2) else s'.resumeClosure s.calls.length c c.own none
  | .call k l =>
    s.calls[k]?.bind fun c =>
      (c.world.step parse l).bind fun r =>
        let c' := { c with world := r.1 }
        match r.2.findSome? Event.ranBy with
        | some (t, f) => s.resumeClosure k c' (c.own && t == caller) (some f)
        | none => some (s.setCall k c', [])

end CoCalls

/-! ## The outcome of a call -/

section

variable {Message : Type} {parse : Bytes → Message × Bool}

theorem due_isFailed {f : Finisher} {ws : List (Write Message)} (h : Due parse f ws)
    (o : Owned Message) :
    (ws.foldl Owned.write o).isFailed = (o.isFailed || !f.succeeds parse) := by
  rcases f with error | _ | msg | _ | _
  · obtain ⟨v, -, rfl⟩ := h
    cases error <;> simp [World.beforeDone, PreSend.writes, setError, Owned.write,
      Finisher.succeeds]
  · obtain ⟨v, -, rfl⟩ := h
    simp [World.beforeDone, setError, Owned.write, Finisher.succeeds]
  · cases msg with
    | tinyPB m =>
      rw [due_response_isFailed h, Finisher.succeeds, Bool.not_and, Bool.or_assoc]
      rfl
    | other =>
      obtain ⟨v, -, rfl⟩ := h
      simp [World.beforeDone, setError, Owned.write, Finisher.succeeds]
  · obtain ⟨v, -, rfl⟩ := h
    simp [World.beforeDone, startCancel, setError, Owned.write, Finisher.succeeds]
  · obtain ⟨v, -, rfl⟩ := h
    simp [World.beforeDone, startCancel, setError, Owned.write, Finisher.succeeds]

/-- A call of `await_suspend` that has come this far; its controller is new. -/
def Called (parse : Bytes → Message × Bool) (w : World Message) (es : List (Event Message)) :
    Prop :=
  ∃ channel args controller response ls, args.passes = true ∧ controller.isFailed = false ∧
    run (World.step parse) (World.call channel args (.callMethod true) controller response) ls =
      some (w, es)

theorem Called.step {w w' : World Message} {l : Label} {es es' : List (Event Message)}
    (h : Called parse w es) (hstep : w.step parse l = some (w', es')) :
    Called parse w' (es ++ es') := by
  obtain ⟨channel, args, controller, response, ls, hargs, hnew, hrun⟩ := h
  refine ⟨channel, args, controller, response, ls ++ [l], hargs, hnew, ?_⟩
  exact run_append.mpr ⟨w, es, es', hrun,
    run_cons_eq_some.mpr ⟨w', es', [], hstep, rfl, by simp⟩, rfl⟩

/-- When the closure has run, the controller says how the call ended. -/
theorem Called.isFailed {w : World Message} {es : List (Event Message)} {t : ThreadId}
    {f : Finisher} (h : Called parse w es) (hran : .ran t f ∈ es) :
    w.controller.isFailed = !f.succeeds parse := by
  obtain ⟨channel, args, controller, response, ls, hargs, hnew, hrun⟩ := h
  obtain ⟨p, haccount⟩ := run_account hargs hrun
  have hclosed : p = .closed (t, f) :=
    haccount.log.closed_of_close (List.mem_map_of_mem hran)
  have hwon : .won t f ∈ es := (won_mem_iff haccount.log t f).mpr (Or.inr hclosed)
  have hleft : (w.threads t).finishing = none := by
    rw [Option.eq_none_iff_forall_ne_some]
    rintro ⟨g, stage⟩ hat
    exact absurd ((haccount.keeps.winner t g stage hat).symm.trans hclosed) (by simp)
  obtain ⟨ws, hdue, -, howned⟩ := haccount.through hwon hleft
  have hfailed := congrArg Owned.isFailed howned
  rw [due_isFailed hdue, call_owned_isFailed channel _ controller response hargs, hnew,
    Bool.false_or] at hfailed
  exact hfailed

/-- A call that was refused: its controller has failed, and nothing is left to do. -/
structure NotStarted (w : World Message) : Prop where
  isFailed : w.controller.isFailed = true
  threads : ∀ t, w.threads t = ⟨none, []⟩
  armed : w.armed = false
  connecting : w.client.connecting = false
  readCallback : w.client.readCallback = false

theorem refused_call (channel : RpcChannel) {args : Arguments} (controller : RpcController)
    (response : Message) (hargs : args.passes = false) (hcontroller : args.controller = true) :
    NotStarted (World.call channel args (.callMethod true) controller response) := by
  rw [World.call, if_neg (by simp [hargs]), World.refused]
  simp only [hcontroller, if_true]
  refine ⟨rfl, fun t => ?_, rfl, rfl, rfl⟩
  rw [World.goOn, threads_setThread]
  split <;> rfl

theorem NotStarted.step {w w' : World Message} {l : Label} {es : List (Event Message)}
    (h : NotStarted w) (hstep : w.step parse l = some (w', es)) : NotStarted w' ∧ es = [] := by
  cases callMoves_of_step hstep with
  | finishes hat => exact absurd ((h.threads _).symm.trans hat) (by simp)
  | execs hat => exact absurd ((h.threads _).symm.trans hat) (by simp)
  | timerFires harmed => exact absurd (h.armed.symm.trans harmed) (by simp)
  | responseArrives hread => exact absurd (h.readCallback.symm.trans hread) (by simp)
  | connectReturns hconnecting => exact absurd (h.connecting.symm.trans hconnecting) (by simp)
  | readReplaced => exact ⟨⟨h.isFailed, h.threads, h.armed, h.connecting, rfl⟩, rfl⟩

/-- A call that is awaited, and how it has resumed the coroutine. -/
inductive CallsTracked (parse : Bytes → Message × Bool) (c : CoCallState Message) : Prop where
  | «open» {es} (hhandle : c.handle = true) (hcalled : Called parse c.world es)
  /-- The closure has still to run inside `CallMethod`. -/
  | refusing (hhandle : c.handle = true) (hrefused : NotStarted c.world)
  | ran {es t f} (hhandle : c.handle = false) (hcause : c.cause = some f)
      (hcalled : Called parse c.world es) (hran : .ran t f ∈ es)
  | refused (hhandle : c.handle = false) (hcause : c.cause = none) (hrefused : NotStarted c.world)

theorem CallsTracked.isFailed {c : CoCallState Message} (h : CallsTracked parse c)
    (hhandle : c.handle = false) :
    c.world.controller.isFailed = !c.cause.any (Finisher.succeeds parse) := by
  cases h with
  | «open» hopen | refusing hopen => exact absurd (hopen.symm.trans hhandle) (by simp)
  | ran _ hcause hcalled hran => rw [hcalled.isFailed hran, hcause, Option.any_some]
  | refused _ hcause hrefused => rw [hrefused.isFailed, hcause, Option.any_none, Bool.not_false]

/-- A step of the call. -/
theorem CallsTracked.step {c : CoCallState Message} {w : World Message} {l : Label}
    {es : List (Event Message)} (h : CallsTracked parse c)
    (hstep : c.world.step parse l = some (w, es)) : CallsTracked parse { c with world := w } := by
  cases h with
  | «open» hhandle hcalled => exact .open hhandle (hcalled.step hstep)
  | refusing hhandle hrefused => exact .refusing hhandle (hrefused.step hstep).1
  | ran hhandle hcause hcalled hran =>
    exact .ran hhandle hcause (hcalled.step hstep) (List.mem_append_left _ hran)
  | refused hhandle hcause hrefused => exact .refused hhandle hcause (hrefused.step hstep).1

/-- The step at which the closure runs. -/
theorem CallsTracked.close {c : CoCallState Message} {w : World Message} {l : Label}
    {es : List (Event Message)} {t : ThreadId} {f : Finisher} (h : CallsTracked parse c)
    (hhandle : c.handle = true) (hstep : c.world.step parse l = some (w, es))
    (hran : .ran t f ∈ es) :
    CallsTracked parse { c with world := w, handle := false, cause := some f } := by
  cases h with
  | «open» _ hcalled => exact .ran rfl rfl (hcalled.step hstep) (List.mem_append_right _ hran)
  | refusing _ hrefused => exact absurd hran (by simp [(hrefused.step hstep).2])
  | ran hclosed | refused hclosed => exact absurd (hclosed.symm.trans hhandle) (by simp)

end

/-! ## The invariant -/

namespace CoTask

variable {τ ε : Type} {w w' : CoTask τ ε} {l : CoLabel τ ε} {es : List (CoEvent τ ε)}

/-- A coroutine at a `co_await` goes on only when it is resumed. -/
theorem step_awaiting (h : w.step l = some (w', es)) (hat : w.place = .awaiting)
    (hl : ∀ own, l ≠ .resume own) : w'.place = .awaiting := by
  cases steps_of_step h with
  | start _ _ hp | await hp | coReturn hp | throw hp => exact absurd (hat.symm.trans hp) (by simp)
  | lock hp | store hp | unlock hp | notify hp => exact absurd (hat.symm.trans hp) (by simp)
  | resume => exact absurd rfl (hl _)
  | _ => exact hat

theorem step_released (h : w.step l = some (w', es)) (hat : w.place.released = true) :
    w'.place.released = true := by
  cases steps_of_step h with
  | start _ _ hp | await hp | resume hp | coReturn hp | throw hp =>
    exact absurd hat (by simp [hp, CoPlace.released])
  | lock hp | store hp => exact absurd hat (by simp [hp, CoPlace.released])
  | unlock | notify => rfl
  | _ => exact hat

/-- `Task::run` returns when the coroutine is over. -/
theorem step_returned (hs : w.Handshake) (h : w.step l = some (w', es)) {r : Option τ}
    (hr : .returned r ∈ es) : w'.place.released = true := by
  cases steps_of_step h with
  | returned hreading => exact hs.passed (Or.inr hreading)
  | _ => exact absurd hr (by simp)

end CoTask

namespace CoCalls

variable {Message τ ε : Type} {parse : Bytes → Message × Bool}

/-- What holds in every state of a run with these events. -/
structure Kept (parse : Bytes → Message × Bool) (s : CoCalls Message τ ε)
    (es : List (CoEvent τ ε)) : Prop where
  handshake : s.task.Handshake
  errCode : s.errCode = 0
  tracked : ∀ (k : Nat) c, s.calls[k]? = some c → CallsTracked parse c
  awaiting : ∀ (k : Nat) c, s.calls[k]? = some c → c.handle = true → s.task.place = .awaiting
  sole : ∀ (j k : Nat) c d, s.calls[j]? = some c → s.calls[k]? = some d → c.handle = true →
    d.handle = true → j = k
  finished : ∀ r, .returned r ∈ es → s.task.place.released = true

theorem kept_new : Kept parse ({} : CoCalls Message τ ε) [] :=
  ⟨CoTask.handshake_new, rfl, by simp, by simp, by simp, by simp⟩

variable {s s' : CoCalls Message τ ε} {es tr : List (CoEvent τ ε)}

/-- The coroutine takes a step. -/
theorem Kept.task (h : Kept parse s tr) {l : CoLabel τ ε} {task : CoTask τ ε}
    (hstep : s.task.step l = some (task, es)) {calls : List (CoCallState Message)}
    (htracked : ∀ (k : Nat) c, calls[k]? = some c → CallsTracked parse c)
    (hawaiting : ∀ (k : Nat) c, calls[k]? = some c → c.handle = true → task.place = .awaiting)
    (hsole : ∀ (j k : Nat) c d, calls[j]? = some c → calls[k]? = some d → c.handle = true →
      d.handle = true → j = k) :
    Kept parse { s with task, calls } (tr ++ es) := by
  refine ⟨CoTask.step_handshake h.handshake hstep, h.errCode, htracked, hawaiting, hsole,
    fun r hr => ?_⟩
  rcases List.mem_append.mp hr with hr | hr
  · exact CoTask.step_released hstep (h.finished r hr)
  · exact CoTask.step_returned h.handshake hstep hr

theorem calls_setCall {k j : Nat} {c d : CoCallState Message}
    (h : (s.setCall k c).calls[j]? = some d) : j = k ∧ d = c ∨ j ≠ k ∧ s.calls[j]? = some d := by
  rw [setCall, List.getElem?_set] at h
  split at h
  · rename_i hkj
    split at h
    · exact Or.inl ⟨hkj.symm, (Option.some.inj h).symm⟩
    · exact absurd h (by simp)
  · rename_i hkj
    exact Or.inr ⟨fun heq => hkj heq.symm, h⟩

/-- A call goes on. -/
theorem Kept.setCall (h : Kept parse s tr) {k : Nat} {c c' : CoCallState Message}
    (hat : s.calls[k]? = some c) (hhandle : c'.handle = c.handle) (hc' : CallsTracked parse c') :
    Kept parse (s.setCall k c') tr := by
  -- an open call of the new list stands where one of the old list did
  have hold : ∀ {j : Nat} {d}, (s.setCall k c').calls[j]? = some d → d.handle = true →
      ∃ d₀, s.calls[j]? = some d₀ ∧ d₀.handle = true := by
    intro j d hd hopen
    rcases calls_setCall hd with ⟨rfl, rfl⟩ | ⟨-, hd⟩
    · exact ⟨c, hat, hhandle ▸ hopen⟩
    · exact ⟨d, hd, hopen⟩
  refine ⟨h.handshake, h.errCode, fun j d hd => ?_, fun j d hd hopen => ?_,
    fun i j d e hd he hdopen heopen => ?_, h.finished⟩
  · rcases calls_setCall hd with ⟨rfl, rfl⟩ | ⟨-, hd⟩
    · exact hc'
    · exact h.tracked j d hd
  · obtain ⟨d₀, hd₀, hopen₀⟩ := hold hd hopen
    exact h.awaiting j d₀ hd₀ hopen₀
  · obtain ⟨d₀, hd₀, hdopen₀⟩ := hold hd hdopen
    obtain ⟨e₀, he₀, heopen₀⟩ := hold he heopen
    exact h.sole i j d₀ e₀ hd₀ he₀ hdopen₀ heopen₀

/-- The closure of a call runs. -/
theorem Kept.resumeClosure (h : Kept parse s tr) {k : Nat} {c₀ c : CoCallState Message}
    {own : Bool} {cause : Option Finisher} (hat : s.calls[k]? = some c₀)
    (hrun : s.resumeClosure k c own cause = some (s', es)) (hhandle : c.handle = c₀.handle)
    (hopen : c.handle = true → CallsTracked parse { c with handle := false, cause })
    (hclosed : c.handle = false → CallsTracked parse c) : Kept parse s' (tr ++ es) := by
  unfold CoCalls.resumeClosure at hrun
  split at hrun
  · rename_i hc
    obtain ⟨⟨task, es'⟩, hresume, heq⟩ := Option.map_eq_some_iff.mp hrun
    obtain ⟨rfl, rfl⟩ := Prod.mk.inj heq
    -- no other call is open
    have hnone : ∀ (j : Nat) d, (s.setCall k { c with handle := false, cause }).calls[j]? = some d →
        d.handle = false := by
      intro j d hd
      rcases calls_setCall hd with ⟨rfl, rfl⟩ | ⟨hne, hd⟩
      · rfl
      · rw [← Bool.not_eq_true]
        exact fun hdopen => hne (h.sole j k d c₀ hd hat hdopen (hhandle ▸ hc))
    refine h.task hresume (fun j d hd => ?_) (fun j d hd hd' => ?_) fun i j d e hd _ hd' _ => ?_
    · rcases @calls_setCall _ _ _ s _ _ _ _ hd with ⟨rfl, rfl⟩ | ⟨-, hd⟩
      · exact hopen hc
      · exact h.tracked j d hd
    · exact absurd ((hnone j d hd).symm.trans hd') (by simp)
    · exact absurd ((hnone i d hd).symm.trans hd') (by simp)
  · rename_i hc
    obtain ⟨rfl, rfl⟩ := Prod.mk.inj (Option.some.inj hrun)
    rw [List.append_nil]
    exact h.setCall hat hhandle (hclosed (by simpa using hc))

/-- The coroutine awaits one more call. -/
theorem Kept.coAwait (h : Kept parse s tr) {task : CoTask τ ε} {c : CoCallState Message}
    (hstep : s.task.step .await = some (task, es)) (hc : CallsTracked parse c) :
    Kept parse { s with task, calls := s.calls ++ [c] } (tr ++ es) := by
  obtain ⟨own, hbody, hawaiting⟩ : ∃ own, s.task.place = .body own ∧ task.place = .awaiting := by
    cases CoTask.steps_of_step hstep with
    | await hp => exact ⟨_, hp, rfl⟩
  have hclosed : ∀ (k : Nat) d, s.calls[k]? = some d → d.handle = false := by
    intro k d hd
    rw [← Bool.not_eq_true]
    exact fun hopen => absurd (hbody.symm.trans (h.awaiting k d hd hopen)) (by simp)
  have hlast : ∀ {j : Nat} {d}, (s.calls ++ [c])[j]? = some d →
      j = s.calls.length ∧ d = c ∨ s.calls[j]? = some d := by
    intro j d hd
    rw [List.getElem?_append] at hd
    split at hd
    · exact Or.inr hd
    · rename_i hj
      rw [List.getElem?_singleton] at hd
      split at hd
      · exact Or.inl ⟨by omega, (Option.some.inj hd).symm⟩
      · exact absurd hd (by simp)
  refine h.task hstep (fun j d hd => ?_) (fun _ _ _ _ => hawaiting)
    fun i j d e hd he hdopen heopen => ?_
  · rcases hlast hd with ⟨-, rfl⟩ | hd
    · exact hc
    · exact h.tracked j d hd
  · rcases hlast hd with ⟨rfl, -⟩ | hd
    · rcases hlast he with ⟨rfl, -⟩ | he
      · rfl
      · exact absurd ((hclosed j e he).symm.trans heopen) (by simp)
    · exact absurd ((hclosed i d hd).symm.trans hdopen) (by simp)

theorem step_kept {l : CoCallsLabel Message τ ε} (h : Kept parse s tr)
    (hstep : s.step parse l = some (s', es)) : Kept parse s' (tr ++ es) := by
  cases l with
  | task l =>
    rw [step] at hstep
    split at hstep
    · rename_i hl
      obtain ⟨⟨task, es'⟩, hs, heq⟩ := Option.map_eq_some_iff.mp hstep
      obtain ⟨rfl, rfl⟩ := Prod.mk.inj heq
      refine h.task hs h.tracked (fun k c hc hopen => ?_) h.sole
      refine CoTask.step_awaiting hs (h.awaiting k c hc hopen) ?_
      rintro own rfl
      exact absurd hl (by simp [mayStep])
    · exact absurd hstep (by simp)
  | coAwait channel method request timeoutMs response =>
    obtain ⟨⟨task, es'⟩, hs, hrest⟩ := Option.bind_eq_some_iff.mp hstep
    dsimp only at hrest
    split at hrest
    · rename_i hargs
      obtain ⟨rfl, rfl⟩ := Prod.mk.inj (Option.some.inj hrest)
      exact h.coAwait hs (.open rfl
        ⟨channel, ⟨method, true, request, true⟩, _, response, [], hargs, rfl, rfl⟩)
    · rename_i hargs
      have hrefused : NotStarted (CoCallState.new s.task.place.own channel
          ⟨method, true, request, true⟩ timeoutMs response).world :=
        refused_call channel _ response (by simpa using hargs) rfl
      have hadded := h.coAwait hs (.refusing rfl hrefused)
      have hevents : es' = [] := by
        cases CoTask.steps_of_step hs with
        | await => rfl
      rw [hevents, List.append_nil] at hadded
      exact hadded.resumeClosure (by simp) hrest rfl (fun _ => .refused rfl rfl hrefused)
        fun hclosed => absurd hclosed (by simp [CoCallState.new])
  | call k l =>
    obtain ⟨c, hc, hrest⟩ := Option.bind_eq_some_iff.mp hstep
    obtain ⟨⟨w, es'⟩, hw, hrest⟩ := Option.bind_eq_some_iff.mp hrest
    dsimp only at hrest
    have htracked := (h.tracked k c hc).step hw
    split at hrest
    · rename_i t f hran
      refine h.resumeClosure hc hrest rfl (fun hopen => ?_) fun _ => htracked
      obtain ⟨e, he, hby⟩ := List.exists_of_findSome?_eq_some hran
      have hevent : .ran t f ∈ es' := by
        cases e with
        | ran u g =>
          obtain ⟨rfl, rfl⟩ := Prod.mk.inj (Option.some.inj hby)
          exact he
        | _ => exact absurd hby (by simp [Event.ranBy])
      exact (h.tracked k c hc).close hopen hw hevent
    · obtain ⟨rfl, rfl⟩ := Prod.mk.inj (Option.some.inj hrest)
      rw [List.append_nil]
      exact h.setCall hc rfl htracked

theorem run_kept {ls : List (CoCallsLabel Message τ ε)}
    (hrun : run (step parse) {} ls = some (s, es)) : Kept parse s es :=
  run_induction (Kept parse) (fun _ _ _ _ _ h hstep => step_kept h hstep) [] kept_new hrun

/-! ## Main result -/

/-- `errorCode` says whether a call of the coroutine has failed. -/
structure Reports (s : CoCalls Message τ ε) : Prop where
  failed : (∃ c ∈ s.calls, c.world.controller.isFailed = true) → s.errorCode ≠ 0
  succeeded : (∀ c ∈ s.calls, c.world.controller.isFailed = false) → s.errorCode = 0

/-- When `Task::run` has returned, `errorCode` says what became of the calls if and only if each
    of them was ended by a response without an error code that parses. -/
theorem reports_iff (parse : Bytes → Message × Bool) (ls : List (CoCallsLabel Message τ ε))
    (s : CoCalls Message τ ε) (es : List (CoEvent τ ε))
    (hrun : run (step parse) {} ls = some (s, es)) (r : Option τ) (hreturned : .returned r ∈ es) :
    Reports s ↔ ∀ c ∈ s.calls, c.cause.any (Finisher.succeeds parse) = true := by
  have hkept := run_kept hrun
  have hzero : s.errorCode = 0 := by
    rw [errorCode, hkept.errCode, ite_self]
  -- the coroutine is over, so no call is open any more
  have hclosed : ∀ c ∈ s.calls, c.handle = false := by
    intro c hc
    obtain ⟨k, hk⟩ := List.mem_iff_getElem?.mp hc
    rw [← Bool.not_eq_true]
    intro hopen
    have hreleased := hkept.finished r hreturned
    rw [hkept.awaiting k c hk hopen] at hreleased
    exact absurd hreleased (by simp [CoPlace.released])
  have hfailed : ∀ c ∈ s.calls,
      c.world.controller.isFailed = !c.cause.any (Finisher.succeeds parse) := by
    intro c hc
    obtain ⟨k, hk⟩ := List.mem_iff_getElem?.mp hc
    exact (hkept.tracked k c hk).isFailed (hclosed c hc)
  constructor
  · intro hreports c hc
    by_contra hcause
    refine hreports.failed ⟨c, hc, ?_⟩ hzero
    rw [hfailed c hc]
    simpa using hcause
  · intro hall
    refine ⟨?_, fun _ => hzero⟩
    rintro ⟨c, hc, hcfailed⟩
    rw [hfailed c hc, hall c hc] at hcfailed
    exact absurd hcfailed (by simp)

/-- The coroutine ends and `Task::run` returns. -/
def finishes : List (CoCallsLabel Nat Nat Nat) :=
  [.task (.coReturn 1), .task .final, .task .final, .task .final, .task .final, .task .run,
    .task .run, .task .run, .task .run, .task .run]

def pooled : RpcChannel := ⟨true, true, false, []⟩

/-- The coroutine awaits a call, which gets a response. -/
def awaitsOne : List (CoCallsLabel Nat Nat Nat) :=
  [.task .run, .coAwait pooled true true 3000 0] ++
    (receives { msgId := [49] }).map (.call 0) ++ finishes

theorem reports_iff_success :
    ∃ (s : CoCalls Nat Nat Nat) (es : List (CoEvent Nat Nat)),
      run (step fun data => (data.length, true)) {} awaitsOne = some (s, es) ∧
        .returned (some 1) ∈ es ∧ s.calls.length = 1 ∧ Reports s := by
  have hrun : (run (step fun data => (data.length, true)) ({} : CoCalls Nat Nat Nat)
      awaitsOne).map (fun c => decide (.returned (some 1) ∈ c.2 ∧ c.1.calls.length = 1 ∧
        ∀ d ∈ c.1.calls, d.cause.any (Finisher.succeeds fun data => (data.length, true)) =
          true)) = some true := by
    decide +kernel
  obtain ⟨⟨s, es⟩, hs, hfacts⟩ := Option.map_eq_some_iff.mp hrun
  obtain ⟨hreturned, hlength, hcause⟩ := of_decide_eq_true hfacts
  exact ⟨s, es, hs, hreturned, hlength, (reports_iff _ _ s es hs (some 1) hreturned).mpr hcause⟩

/-- A coroutine awaits a call with a null request, whose controller fails. -/
theorem null_request_not_reported :
    ¬ ∀ (Message τ ε : Type) (parse : Bytes → Message × Bool)
      (ls : List (CoCallsLabel Message τ ε)) (s : CoCalls Message τ ε) (es : List (CoEvent τ ε)),
      run (step parse) {} ls = some (s, es) → ∀ r, .returned r ∈ es → Reports s := by
  intro hclaim
  have hrun : (run (step fun data => (data.length, true)) ({} : CoCalls Nat Nat Nat)
      ([.task .run, .coAwait pooled true false 3000 0] ++ finishes)).map (fun c =>
        decide (.returned (some 1) ∈ c.2 ∧ c.1.errorCode = 0 ∧
          ∃ d ∈ c.1.calls, d.world.controller.isFailed = true)) = some true := by
    decide +kernel
  obtain ⟨⟨s, es⟩, hs, hfacts⟩ := Option.map_eq_some_iff.mp hrun
  obtain ⟨hreturned, hzero, hfailed⟩ := of_decide_eq_true hfacts
  exact (hclaim _ _ _ _ _ s es hs (some 1) hreturned).failed hfailed hzero

end CoCalls

end RocketRpc.Rpc
