import RocketRpc.Rpc.LoopLifetime

/-
  The calls that a shutdown of the pool leaves behind.

  An asynchronous call that has sent its request is finished by its response or its timer, and
  both are run by the loop of its client. Once this loop is left, nobody claims the call any
  more; nothing in `shutdown` does. A call that was claimed before has also run its closure
  before, as the thread of the loop was in between. So no call is abandoned when each one that
  is sent over a client of a loop is finished when the loop is left, and none is sent later
  (`none_abandoned`); otherwise its closure is never run (`abandons`).
-/

namespace RocketRpc.Rpc

open Machine World RocketRpc.Tcp RocketRpc.Coder

variable {Message : Type} {parse : Bytes → Message × Bool}

/-! ## An asynchronous call -/

/-- Every thread has one operation to do at most, and none of `CallMethodBlocking`. -/
def Plain (w : World Message) : Prop :=
  ∀ t, (w.threads t).code = [] ∨ (w.threads t).finishing = none ∧
    ∃ op, (w.threads t).code = [op] ∧ op.isWait = false

theorem Plain.setThread {w w₁ : World Message} {t : ThreadId} {thread : Thread Message}
    (h : Plain w) (hthreads : w₁.threads = w.threads)
    (hthread : thread.code = [] ∨ thread.finishing = none ∧
      ∃ op, thread.code = [op] ∧ op.isWait = false) : Plain (w₁.setThread t thread) := by
  intro u
  rw [threads_setThread, hthreads]
  split
  · exact hthread
  · exact h u

theorem step_plain {w w' : World Message} {l : Label} {es : List (Event Message)}
    (h : Plain w) (hstep : w.step parse l = some (w', es)) : Plain w' := by
  have hmoves := callMoves_of_step hstep
  cases hmoves with
  | finishes hat =>
    rename_i t f stage code
    intro u
    by_cases hu : u = t
    · subst hu
      left
      rw [finish_code hat]
      exact (h u).resolve_right (by simp [hat])
    · rw [finish_others hu]
      exact h u
  | execs hat hexec =>
    rename_i t op rest input
    obtain ⟨hop, rfl⟩ : op.isWait = false ∧ rest = [] := by
      rcases h t with hnil | ⟨-, x, hx, hwait⟩
      · exact absurd hnil (by simp [hat])
      · obtain ⟨rfl, rfl⟩ : op = x ∧ rest = [] := by simpa [hat] using hx
        exact ⟨hwait, rfl⟩
    rcases exec_clean hop hexec with
      ⟨w₁, next, rfl, -, hsame, -, hclean, -, hlen⟩ | ⟨f, -, -, rfl⟩
    · refine h.setThread hsame.threads ?_
      match next, hclean, hlen with
      | [], _, _ => exact Or.inl rfl
      | [x], hclean, _ => exact Or.inr ⟨rfl, x, rfl, hclean x List.mem_cons_self⟩
    · exact h.setThread rfl (Or.inl rfl)
  | timerFires | responseArrives | connectReturns =>
    refine h.setThread ?_ (Or.inr ⟨rfl, _, rfl, ?_⟩)
    · rfl
    · rfl
  | readReplaced => exact h

theorem state_write (w : World Message) (x : Write Message) : (w.write x).state = w.state := by
  cases x <;> rfl

/-- A call that was claimed is being finished, or has no closure, or has run it. -/
def Claimed (w : World Message) (ran : Prop) : Prop :=
  w.state.finished = true →
    (∃ t, (w.threads t).finishing ≠ none) ∨ w.state.done = .null ∨ ran

/-- A thread that is not inside of `finishRpc` goes on outside of it. -/
theorem Claimed.goOn {w w₁ : World Message} {ran : Prop} {t : ThreadId}
    {code : List (Op Message)} (h : Claimed w ran) (hsame : SameGate w w₁)
    (hnone : (w.threads t).finishing = none) : Claimed (w₁.goOn t code) ran := by
  intro hfinished
  rcases h (hsame.finished.symm.trans hfinished) with ⟨u, hu⟩ | hnull | hran
  · have hut : u ≠ t := fun heq => hu (heq ▸ hnone)
    refine Or.inl ⟨u, ?_⟩
    rw [World.goOn, threads_setThread, if_neg hut, hsame.threads]
    exact hu
  · exact Or.inr (Or.inl (hsame.done.trans hnull))
  · exact Or.inr (Or.inr hran)

theorem Claimed.mono {w : World Message} {ran ran' : Prop} (h : Claimed w ran)
    (hran : ran → ran') : Claimed w ran' :=
  fun hfinished => (h hfinished).imp_right (Or.imp_right hran)

theorem step_claimed {w w' : World Message} {ran : Prop} {l : Label}
    {es : List (Event Message)} (h : Claimed w ran)
    (hstep : w.step parse l = some (w', es)) :
    Claimed w' (ran ∨ ∃ t f, .ran t f ∈ es) := by
  cases steps_of_step hstep with
  | exec hat hexec =>
    cases hexec with
    | goOn hsame => exact (h.goOn hsame (by rw [hat])).mono Or.inl
    | won =>
      rename_i t rest f hopen
      intro _
      refine Or.inl ⟨t, ?_⟩
      rw [threads_setThread, if_pos rfl]
      simp
    | returned => exact (h.goOn ⟨rfl, rfl, rfl, rfl⟩ (by rw [hat])).mono Or.inl
  | finish hat =>
    rename_i t f stage code
    -- the thread is inside of `finishRpc` until it runs the closure
    have inside : ∀ {w₁ : World Message} {stage' : Stage Message} {ran' : Prop},
        Claimed (w₁.setThread t ⟨some (f, stage'), code⟩) ran' := by
      intro w₁ stage' ran' _
      refine Or.inl ⟨t, ?_⟩
      rw [threads_setThread, if_pos rfl]
      simp
    cases stage with
    | dropTimer | cancelRead =>
      simp only [finish]
      split <;> exact inside
    | beforeDone => exact inside
    | writing writes => cases writes <;> exact inside
    | runDone =>
      simp only [finish]
      split
      · rename_i hnull
        exact fun _ => Or.inr (Or.inl hnull)
      · exact fun _ => Or.inr (Or.inr (Or.inr ⟨t, f, List.mem_singleton.mpr rfl⟩))
      · exact fun _ => Or.inr (Or.inr (Or.inr ⟨t, f, List.mem_singleton.mpr rfl⟩))
  | spawn hidle hsame =>
    exact (h.goOn hsame (by rw [threads_eq_of_idle hidle])).mono Or.inl
  | outside hsame =>
    intro hfinished
    rcases h (hsame.finished.symm.trans hfinished) with ⟨u, hu⟩ | hnull | hran
    · exact Or.inl ⟨u, by rwa [hsame.threads]⟩
    · exact Or.inr (Or.inl (hsame.done.trans hnull))
    · exact Or.inr (Or.inr (Or.inl hran))

theorem step_finished {w w' : World Message} {l : Label} {es : List (Event Message)}
    (hstep : w.step parse l = some (w', es)) (h : w.state.finished = true) :
    w'.state.finished = true := by
  cases steps_of_step hstep with
  | exec hat hexec =>
    cases hexec with
    | goOn hsame => exact hsame.finished.trans h
    | won => rfl
    | returned => exact h
  | finish hat =>
    rename_i t f stage code
    cases stage with
    | dropTimer | cancelRead =>
      simp only [finish]
      split <;> exact h
    | beforeDone => exact h
    | writing writes =>
      cases writes with
      | nil => exact h
      | cons x xs => exact (congrArg RequestState.finished (state_write w x)).trans h
    | runDone =>
      simp only [finish]
      split <;> exact h
  | spawn _ hsame => exact hsame.finished.trans h
  | outside hsame => exact hsame.finished.trans h

theorem step_pooled {w w' : World Message} {l : Label} {es : List (Event Message)}
    (h : Pooled w) (hstep : w.step parse l = some (w', es)) : Pooled w' := by
  cases l with
  | thread | timerFires | connectReturns => exact (step_advance h rfl hstep).pooled
  | responseArrives t msg => exact (step_arrival h hstep).1
  | readReplaced =>
    obtain ⟨rfl, -⟩ : _ = w' ∧ [] = es := by simpa [World.step] using hstep
    exact ⟨h.pool, h.connecting, h.others, h.tail⟩

/-- To send the request is the last that the caller's thread does. -/
theorem step_sends {w w' : World Message} {l : Label} {es : List (Event Message)}
    (h : Pooled w) (hplain : Plain w) (hsend : w.use l = .send)
    (hstep : w.step parse l = some (w', es)) : w'.idle caller = true := by
  cases l with
  | thread t input =>
    rw [World.use] at hsend
    rcases step_thread hstep with ⟨f, stage, code, hat, -⟩ | ⟨op, rest, hat, hexec⟩
    · rw [hat] at hsend
      cases stage with
      | cancelRead =>
        simp only [World.useOf] at hsend
        split at hsend <;> exact absurd hsend (by simp)
      | _ => exact absurd hsend (by simp [World.useOf])
    · obtain rfl : op = .send := by
        rw [hat] at hsend
        cases op with
        | send => rfl
        | recheckFinished =>
          simp only [World.useOf] at hsend
          split at hsend <;> exact absurd hsend (by simp)
        | _ => exact absurd hsend (by simp [World.useOf])
      obtain rfl : t = caller := by
        by_contra ht
        exact absurd (h.others t ht .send (by simp [hat])) (by simp [Op.phase])
      obtain rfl : rest = [] := by
        rcases hplain caller with hnil | ⟨-, x, hx, -⟩
        · exact absurd hnil (by simp [hat])
        · exact (by simpa [hat] using hx : Op.send = x ∧ rest = []).2
      have hdoes := does_of_exec hexec
      cases hdoes with
      | send => simp [idle, threads_goOn]
  | timerFires | responseArrives | connectReturns | readReplaced =>
    exact absurd hsend (by simp [World.use])

/-! ## The calls of a pool -/

/-- What holds of a call while it goes on; `ran` says that its closure was run. -/
structure Tracked (c : PoolCall Message) (ran : Prop) : Prop where
  pooled : Pooled c.world
  plain : c.world.state.done ≠ .blocking → Plain c.world
  /-- The caller's thread is done with an asynchronous call that has sent its request. -/
  quiet : c.world.state.done ≠ .blocking → c.sent = true → c.world.idle caller = true
  claimed : Claimed c.world ran

theorem step_tracked {c : PoolCall Message} {ran : Prop} {l : Label} {w : World Message}
    {es : List (Event Message)} (h : Tracked c ran) (hon : l.onLoop = true)
    (hstep : c.world.step parse l = some (w, es)) :
    Tracked { c with world := w, sent := c.sent || c.world.use l == .send }
      (ran ∨ ∃ t f, .ran t f ∈ es) where
  pooled := step_pooled h.pooled hstep
  plain hasync := by
    rw [show w.state.done = c.world.state.done from step_done hstep] at hasync
    exact step_plain (h.plain hasync) hstep
  quiet hasync hsent := by
    change w.state.done ≠ .blocking at hasync
    rw [step_done hstep] at hasync
    change (c.sent || c.world.use l == .send) = true at hsent
    rw [Bool.or_eq_true, beq_iff_eq] at hsent
    rcases hsent with hsent | hsend
    · exact step_idle hon hstep (by decide) (h.quiet hasync hsent)
    · exact step_sends h.pooled (h.plain hasync) hsend hstep
  claimed := step_claimed h.claimed hstep

theorem Tracked.mono {c : PoolCall Message} {ran ran' : Prop} (h : Tracked c ran)
    (hran : ran → ran') : Tracked c ran' :=
  ⟨h.pooled, h.plain, h.quiet, h.claimed.mono hran⟩

theorem Tracked.clear {c : PoolCall Message} {ran : Prop} (h : Tracked c ran)
    (es : List PoolEvent) : Tracked (c.clear es) ran := by
  unfold PoolCall.clear
  split
  · exact ⟨⟨h.pooled.pool, h.pooled.connecting, h.pooled.others, h.pooled.tail⟩, h.plain,
      h.quiet, h.claimed⟩
  · exact h

/-- A call that has just been given its client. -/
theorem world_tracked {i : Invocation Message} {w : World Message} (h : i.world parse = some w)
    (thread : Option Nat) (client : Nat) (ran : Prop) :
    Tracked { thread, client, world := w } ran := by
  obtain ⟨hargs, es, hstep⟩ := world_step h
  have hthreads := call_threads { i.channel with pool := true } i.call i.controller i.response
    hargs
  have hdone : w.state.done = i.call.closure := by
    rw [step_done hstep, World.call, if_pos hargs]
    rfl
  refine ⟨step_pooled (call_pooled i.args i.call i.controller i.response rfl).1 hstep, ?_,
    fun _ hsent => absurd hsent (by simp), ?_⟩
  · intro hasync
    refine step_plain (fun t => ?_) hstep
    rw [hthreads t]
    split
    · cases hcall : i.call with
      | callMethod done => exact Or.inr ⟨rfl, _, rfl, rfl⟩
      | callMethodBlocking timeoutMs =>
        exact absurd (by rw [hdone, hcall]; rfl) hasync
    · exact Or.inl rfl
  · -- the step to `setMsgId` claims nothing
    intro hfinished
    rcases step_thread hstep with ⟨f, stage, code, hat, -⟩ | ⟨op, rest, hat, hexec⟩
    · rw [hthreads, if_pos rfl] at hat
      exact absurd hat (by simp)
    · rw [hthreads, if_pos rfl] at hat
      obtain ⟨rfl, rfl⟩ : Op.acquire = op ∧ i.call.code = rest := by simpa using hat
      rcases exec_clean rfl hexec with ⟨w₁, next, rfl, -, -, hsame, -⟩ | ⟨f, hop, -⟩
      · have hopen : w₁.state.finished = false := by
          rw [hsame, World.call, if_pos hargs]
          rfl
        exact absurd (hopen.symm.trans hfinished) (by simp)
      · exact absurd hop (by simp)

namespace PoolCalls

variable {s s' : PoolCalls Message}

/-- No call is left to a loop without a claim: when the loop is left, every call with a closure
    that has sent its request over a client of the loop is claimed, and none is sent later
    that is not. -/
def ClaimedInTime (s : PoolCalls Message) : CallsLabel Message → Prop
  | .pool (.leaves loop) => ∀ k < s.begun, ∀ c ∈ s.calls k, s.loopOf c.client = loop →
      c.world.state.done = .user → c.sent = true → c.world.state.finished = true
  | .call k l => ∀ c ∈ s.calls k, s.pool.gone (s.loopOf c.client) → c.world.use l = .send →
      c.world.state.done = .user → c.world.state.finished = true
  | _ => True

/-- Once the pool is shut down, a call that was sent over a client whose loop has ended has run
    its closure. -/
def NoneAbandoned (s : PoolCalls Message) (es : List (CallsEvent Message)) : Prop :=
  s.pool.shutdown = .done → ∀ k c, s.calls k = some c → c.world.state.done = .user →
    c.sent = true → (s.pool.loops (s.loopOf c.client)).place = .ended →
      ∃ t f, .call k (.ran t f) ∈ es

/-- What the runs keep in which the calls are claimed in time. -/
structure Attended (s : PoolCalls Message) (es : List (CallsEvent Message)) : Prop where
  steady : Steady s
  tracked : ∀ k c, s.calls k = some c → Tracked c (∃ t f, .call k (.ran t f) ∈ es)
  claimed : ∀ k c, s.calls k = some c → s.pool.gone (s.loopOf c.client) →
    c.world.state.done = .user → c.sent = true → c.world.state.finished = true

theorem attended_new (ioThreads connsPerAddr : Nat) :
    Attended (new ioThreads connsPerAddr : PoolCalls Message) [] where
  steady := steady_new ioThreads connsPerAddr
  tracked _ _ h := absurd h (by simp [new])
  claimed _ _ h := absurd h (by simp [new])

theorem step_trackeds {l : CallsLabel Message} {tr es : List (CallsEvent Message)}
    (h : Attended s tr) (hstep : s.step parse l = some (s', es)) {k : Nat}
    {c : PoolCall Message} (hc : s'.calls k = some c) :
    Tracked c (∃ t f, .call k (.ran t f) ∈ tr ++ es) := by
  have later : ∀ {j : Nat} {d : PoolCall Message},
      Tracked d (∃ t f, .call j (.ran t f) ∈ tr) →
        Tracked d (∃ t f, .call j (.ran t f) ∈ tr ++ es) :=
    fun htracked => htracked.mono fun ⟨t, f, hmem⟩ => ⟨t, f, List.mem_append_left es hmem⟩
  have cleared : ∀ {pool : RpcConnectionPool} {es₁ : List PoolEvent},
      (s.setPool pool es₁).calls k = some c →
        Tracked c (∃ t f, .call k (.ran t f) ∈ tr ++ es) := by
    intro pool es₁ hc
    obtain ⟨c₀, hc₀, rfl⟩ := calls_setPool hc
    exact (later (h.tracked k c₀ hc₀)).clear es₁
  have hsteps := step_cases hstep
  cases hsteps with
  | pool => exact cleared hc
  | acquired hplace hw =>
    rw [calls_give] at hc
    split at hc
    · obtain rfl := Option.some.inj hc
      exact world_tracked hw _ _ _
    · exact cleared hc
  | cached hmade hw =>
    rw [calls_give] at hc
    split at hc
    · obtain rfl := Option.some.inj hc
      exact world_tracked hw _ _ _
    · exact later (h.tracked k c hc)
  | call hd hon hmay hcall =>
    rename_i j l d w es₁
    rw [calls_setCall] at hc
    split at hc
    · rename_i hkj
      subst hkj
      obtain rfl := Option.some.inj hc
      refine (step_tracked (h.tracked k d hd) hon hcall).mono ?_
      rintro (⟨t, f, hmem⟩ | ⟨t, f, hmem⟩)
      · exact ⟨t, f, List.mem_append_left _ hmem⟩
      · refine ⟨t, f, List.mem_append_right _ (List.mem_append_right _ ?_)⟩
        exact List.mem_map_of_mem hmem
    · exact later (h.tracked k c hc)

theorem step_claimedInTime {l : CallsLabel Message} {tr es : List (CallsEvent Message)}
    (h : Attended s tr) (hok : s.ClaimedInTime l) (hstep : s.step parse l = some (s', es))
    {k : Nat} {c : PoolCall Message} (hc : s'.calls k = some c)
    (hgone : s'.pool.gone (s'.loopOf c.client)) (hdone : c.world.state.done = .user)
    (hsent : c.sent = true) : c.world.state.finished = true := by
  -- a step of the pool, in which no loop is left but with its calls claimed
  have cleared : ∀ {l : PoolLabel} {pool : RpcConnectionPool} {es₁ : List PoolEvent},
      s.pool.step l = some (pool, es₁) → (∀ loop, l = .leaves loop →
        s.ClaimedInTime (.pool (.leaves loop))) → (s.setPool pool es₁).calls k = some c →
      pool.gone (pool.tcpClients c.client).loop → c.world.state.finished = true := by
    intro l pool es₁ hpool hleaves hc hgone
    obtain ⟨c₀, hc₀, rfl⟩ := calls_setPool hc
    rw [clear_client, h.steady.loopOf hpool hc₀] at hgone
    have hstate : (c₀.clear es₁).world.state = c₀.world.state := by
      unfold PoolCall.clear
      split <;> rfl
    rw [hstate] at hdone ⊢
    rw [clear_sent] at hsent
    rcases RpcConnectionPool.step_gone hpool hgone with hgone | ⟨heq, -⟩
    · exact h.claimed k c₀ hc₀ hgone hdone hsent
    · exact hleaves _ heq k (h.steady.lt hc₀) c₀ hc₀ rfl hdone hsent
  have hsteps := step_cases hstep
  cases hsteps with
  | pool htask hpool =>
    refine cleared hpool (fun loop heq => ?_) hc hgone
    subst heq
    exact hok
  | acquired hplace hw hpool =>
    rw [calls_give] at hc
    split at hc
    · obtain rfl := Option.some.inj hc
      exact absurd hsent (by simp)
    · exact cleared hpool (fun loop heq => absurd heq (by simp)) hc hgone
  | cached hmade hw =>
    rw [calls_give] at hc
    split at hc
    · obtain rfl := Option.some.inj hc
      exact absurd hsent (by simp)
    · exact h.claimed k c hc hgone hdone hsent
  | call hd hon hmay hcall =>
    rename_i j l d w es₁
    rw [calls_setCall] at hc
    split at hc
    · obtain rfl := Option.some.inj hc
      change w.state.done = .user at hdone
      rw [step_done hcall] at hdone
      refine step_finished hcall ?_
      rcases (Bool.or_eq_true _ _).mp hsent with hsent | hsend
      · exact h.claimed j d hd hgone hdone hsent
      · exact hok d hd hgone (by simpa using hsend) hdone
    · exact h.claimed k c hc hgone hdone hsent

theorem step_attended {l : CallsLabel Message} {tr es : List (CallsEvent Message)}
    (h : Attended s tr) (hok : s.ClaimedInTime l) (hstep : s.step parse l = some (s', es)) :
    Attended s' (tr ++ es) where
  steady := step_steady h.steady hstep
  tracked _ _ hc := step_trackeds h hstep hc
  claimed _ _ hc hgone hdone hsent := step_claimedInTime h hok hstep hc hgone hdone hsent

/-- A call that is claimed over a loop that is left has run its closure: nobody is inside of
    `finishRpc` any more. -/
theorem Attended.noneAbandoned {es : List (CallsEvent Message)} (h : Attended s es) :
    NoneAbandoned s es := by
  intro _ k c hc hdone hsent hended
  have hgone : s.pool.gone (s.loopOf c.client) := Or.inr hended
  have htracked := h.tracked k c hc
  rcases htracked.claimed (h.claimed k c hc hgone hdone hsent) with ⟨t, ht⟩ | hnull | hran
  · have hidle : c.world.idle t = true := by
      by_cases hcaller : t = caller
      · rw [hcaller]
        exact htracked.quiet (by simp [hdone]) hsent
      · by_cases hloop : t = loopThread
        · rw [hloop]
          exact h.steady.parked k c hc hgone
        · exact (h.steady.threads k c hc).others t hcaller hloop
    rw [threads_eq_of_idle hidle] at ht
    exact absurd rfl ht
  · exact absurd (hdone.symm.trans hnull) (by simp)
  · exact hran

/-- A shutdown abandons no call when all that are sent are claimed in time. -/
theorem none_abandoned (parse : Bytes → Message × Bool) (ioThreads connsPerAddr : Nat)
    {ls : List (CallsLabel Message)} {s : PoolCalls Message} {es : List (CallsEvent Message)}
    (hrun : run (step parse) (new ioThreads connsPerAddr) ls = some (s, es))
    (hok : RunOk (step parse) ClaimedInTime (new ioThreads connsPerAddr) ls) :
    NoneAbandoned s es := by
  have hattended : Attended s ([] ++ es) :=
    runOk_induction Attended (fun _ _ _ _ _ h hok hstep => step_attended h hok hstep) []
      (attended_new ioThreads connsPerAddr) hok hrun
  exact hattended.noneAbandoned

instance (s : PoolCalls Message) : DecidablePred s.ClaimedInTime
  | .pool (.leaves loop) => inferInstanceAs (Decidable (∀ k < s.begun, ∀ c ∈ s.calls k,
      s.loopOf c.client = loop → c.world.state.done = .user → c.sent = true →
        c.world.state.finished = true))
  | .call k l => inferInstanceAs (Decidable (∀ c ∈ s.calls k,
      s.pool.gone (s.loopOf c.client) → c.world.use l = .send → c.world.state.done = .user →
        c.world.state.finished = true))
  | .acquired _ _ | .cached _ _ _ => .isTrue trivial
  | .pool (.begins _ _) | .pool (.acquire _ _) | .pool (.discovers _ _) | .pool (.shutsDown _ _)
  | .pool .shutdown | .pool (.loops _) | .pool (.establishes _) | .pool (.refuses _)
  | .pool (.destroys _) | .pool (.ends _) | .pool (.dies _) => .isTrue trivial

/-- `CallMethod` with a closure, over a channel with a pool. -/
def asks : Invocation Unit := { blocks with call := .callMethod true }

/-- The call is given the connection and sends its request. -/
def sendsOne : List (CallsLabel Unit) :=
  connectsOne.map .pool ++ [.pool (.acquire 0 .none), .pool (.acquire 0 .none),
    .acquired 0 asks, .call 0 (.thread caller (.generated [49])),
    .call 0 (.thread caller (.serialized true))] ++
  List.replicate 6 (.call 0 (.thread caller .none))

/-- The timer of the call fires, and its thread finishes the call. -/
def expires : List (CallsLabel Unit) :=
  .call 0 (.timerFires loopThread) :: List.replicate 12 (.call 0 (.thread loopThread .none))

/-- The pool is shut down, and its loop has ended. -/
def closes : List (CallsLabel Unit) :=
  (shutsDownOne [0] ++ List.replicate 3 PoolLabel.shutdown).map .pool

/-- The pool has been shut down after the request was sent. -/
def closedOne (s : PoolCalls Unit) : Bool :=
  s.pool.shutdown == .done && (s.calls 0).any fun c =>
    c.sent && c.world.state.done == .user && (s.pool.loops (s.loopOf c.client)).place == .ended

theorem none_abandoned_expires :
    ∃ (s : PoolCalls Unit) (es : List (CallsEvent Unit)),
      run (step fun _ => ((), true)) (new 1 1) (sendsOne ++ expires ++ closes) = some (s, es) ∧
        s.closedOne = true ∧ NoneAbandoned s es := by
  have hrun : (run (step fun _ => ((), true)) (new 1 1) (sendsOne ++ expires ++ closes)).map
      (fun r => r.1.closedOne) = some true := by
    decide +kernel
  have hok : RunOk (step fun _ => ((), true)) ClaimedInTime (new 1 1)
      (sendsOne ++ expires ++ closes) := by
    decide +kernel
  obtain ⟨⟨s, es⟩, hs, hclosed⟩ := Option.map_eq_some_iff.mp hrun
  exact ⟨s, es, hs, hclosed, none_abandoned _ 1 1 hs hok⟩

/-- The pool is shut down before the response arrives or the timer fires, and the closure is
    not run. -/
theorem abandons :
    ∃ (s : PoolCalls Unit) (es : List (CallsEvent Unit)),
      run (step fun _ => ((), true)) (new 1 1) (sendsOne ++ closes) = some (s, es) ∧
        ¬ NoneAbandoned s es := by
  have hrun : (run (step fun _ => ((), true)) (new 1 1) (sendsOne ++ closes)).map
      (fun r => r.1.closedOne && r.2.all fun e => e matches .pool _) = some true := by
    decide +kernel
  obtain ⟨⟨s, es⟩, hs, hclosed⟩ := Option.map_eq_some_iff.mp hrun
  refine ⟨s, es, hs, fun hnone => ?_⟩
  obtain ⟨⟨hshut, hcall⟩, hpool⟩ : (s.pool.shutdown = .done ∧ _) ∧ _ := by
    simpa only [closedOne, Bool.and_eq_true, beq_iff_eq] using hclosed
  obtain ⟨c, hc, hsent⟩ := (Option.any_eq_true _ _).mp hcall
  simp only [Bool.and_eq_true, beq_iff_eq] at hsent
  obtain ⟨t, f, hran⟩ := hnone hshut 0 c hc hsent.1.2 hsent.1.1 hsent.2
  exact absurd (List.all_eq_true.mp hpool _ hran) (by simp)

end PoolCalls

end RocketRpc.Rpc
