import RocketRpc.Rpc.PoolClients
import RocketRpc.Rpc.SharedClient
import RocketRpc.Rpc.BlockingResult

/-
  The connection pool with the calls over its clients.

  A call is a `World` of its own from the moment on that it has its client. Its timer and its
  read callback are run by the thread of the client's loop, which takes one task after another;
  its caller's thread may be the one of a loop of the pool, too, and is then kept busy by the
  call. The steps of a call that dereference the loop of its client say so, as those of the pool
  do, and where `stop` clears the read callbacks of a client its calls lose theirs.
-/

namespace RocketRpc.Rpc

open Machine World RocketRpc.Tcp RocketRpc.Coder

variable {Message : Type} {parse : Bytes → Message × Bool}

/-- The thread of the loop of a call's client. -/
def loopThread : ThreadId := 1

/-- What `callMethodInternal` is called with, on a channel with a pool. -/
structure Invocation (Message : Type) where
  channel : RpcChannel
  args : Arguments
  call : Call
  controller : RpcController
  response : Message

/-- The call when it has been given a client. -/
def Invocation.world (parse : Bytes → Message × Bool) (i : Invocation Message) :
    Option (World Message) :=
  match (World.call { i.channel with pool := true } i.args i.call i.controller
    i.response).step parse (.thread caller (.found true)) with
  | some (w, _) => if w.state.client then some w else none
  | none => none

/-- The next step of a call dereferences the loop of its client: `addTimerEvent`, `runInLoop`
    in `send`, `deleteTimerEvent` in `finishRpc`. -/
def World.usesLoop (w : World Message) : Label → Bool
  | .thread t _ =>
    match w.threads t with
    | ⟨some (_, .dropTimer), _⟩ => w.state.timer
    | ⟨none, .addTimer :: _⟩ | ⟨none, .send :: _⟩ => true
    | _ => false
  | _ => false

/-- A callback runs on the thread of the loop; the client is connected already. -/
def Label.onLoop : Label → Bool
  | .thread _ _ | .readReplaced => true
  | .timerFires t | .responseArrives t _ => t == loopThread
  | .connectReturns _ _ _ => false

structure PoolCall (Message : Type) where
  /-- The loop of the pool on whose thread the call is made. -/
  thread : Option Nat
  client : Nat
  world : World Message
  /-- The request was sent; for the proofs. -/
  sent : Bool := false

structure PoolCalls (Message : Type) where
  pool : RpcConnectionPool
  /-- The number of the calls so far that were given a client. -/
  begun : Nat := 0
  calls : Nat → Option (PoolCall Message) := fun _ => none

inductive CallsLabel (Message : Type) where
  | pool (l : PoolLabel)
  /-- `acquire` call `a` returns a client to a call. -/
  | acquired (a : Nat) (i : Invocation Message)
  /-- A call takes the client that its channel has cached. -/
  | cached (client : Nat) (thread : Option Nat) (i : Invocation Message)
  | call (k : Nat) (l : Label)

inductive CallsEvent (Message : Type) where
  | pool (e : PoolEvent)
  | call (k : Nat) (e : Event Message)
  deriving DecidableEq

/-- The loop whose thread does the step as a task. -/
def PoolLabel.task (pool : RpcConnectionPool) : PoolLabel → Option Nat
  | .begins _ thread | .shutsDown thread _ => thread
  | .establishes client | .refuses client | .destroys client =>
    some (pool.tcpClients client).loop
  | .leaves loop => some loop
  | _ => none

/-- The call loses its read callback when the ones of its client are cleared. -/
def PoolCall.clear (es : List PoolEvent) (c : PoolCall Message) : PoolCall Message :=
  if .cleared c.client ∈ es then { c with world := c.world.dropRead } else c

namespace PoolCalls

def new (ioThreads connsPerAddr : Nat) : PoolCalls Message :=
  { pool := .new ioThreads connsPerAddr }

/-- The loop of a client. -/
def loopOf (s : PoolCalls Message) (client : Nat) : Nat := (s.pool.tcpClients client).loop

/-- The thread of the loop is inside of the call. -/
def holds (s : PoolCalls Message) (loop : Nat) (c : PoolCall Message) : Bool :=
  c.thread == some loop && !c.world.idle caller ||
    s.loopOf c.client == loop && !c.world.idle loopThread

/-- The thread of the loop is inside of a call. -/
def held (s : PoolCalls Message) (loop : Nat) : Bool :=
  (List.range s.begun).any fun k => (s.calls k).any (s.holds loop)

/-- The loop takes the next task. -/
def ready (s : PoolCalls Message) (loop : Nat) : Bool := s.pool.free loop && !s.held loop

/-- The loop of the client takes a callback of the call as its next task. -/
def mayStep (s : PoolCalls Message) (c : PoolCall Message) : Label → Bool
  | .timerFires _ => s.ready (s.loopOf c.client)
  | .responseArrives _ _ =>
    s.ready (s.loopOf c.client) && !(s.pool.tcpClients c.client).destroyed
  | _ => true

def setCall (s : PoolCalls Message) (k : Nat) (c : PoolCall Message) : PoolCalls Message :=
  { s with calls := Function.update s.calls k (some c) }

/-- The pool has taken a step. -/
def setPool (s : PoolCalls Message) (pool : RpcConnectionPool) (es : List PoolEvent) :
    PoolCalls Message :=
  { s with pool, calls := fun k => (s.calls k).map (PoolCall.clear es) }

/-- A call has been given its client. -/
def give (s : PoolCalls Message) (thread : Option Nat) (client : Nat) (w : World Message) :
    PoolCalls Message :=
  { s.setCall s.begun { thread, client, world := w } with begun := s.begun + 1 }

/-- The dereference of the client's loop in a step of the call. -/
def uses (s : PoolCalls Message) (c : PoolCall Message) (l : Label) :
    List (CallsEvent Message) :=
  if c.world.usesLoop l then [.pool (s.pool.use (s.loopOf c.client))] else []

def step (parse : Bytes → Message × Bool) (s : PoolCalls Message) :
    CallsLabel Message → Option (PoolCalls Message × List (CallsEvent Message))
  | .pool l =>
    if (l.task s.pool).all fun loop => !s.held loop then
      (s.pool.step l).map fun (pool, es) => (s.setPool pool es, es.map .pool)
    else none
  | .acquired a i =>
    match (s.pool.acquires a).place, i.world parse with
    | .ret (some client), some w =>
      (s.pool.step (.acquire a .none)).map fun (pool, es) =>
        ((s.setPool pool es).give (s.pool.acquires a).thread client w, es.map .pool)
    | _, _ => none
  | .cached client thread i =>
    match i.world parse with
    | some w =>
      if client < s.pool.made ∧ s.pool.isConnected client ∧ thread.all s.ready then
        some (s.give thread client w, [])
      else none
    | none => none
  | .call k l =>
    match s.calls k with
    | some c =>
      if l.onLoop && s.mayStep c l then
        (c.world.step parse l).map fun (w, es) =>
          (s.setCall k { c with world := w, sent := c.sent || c.world.use l == .send },
            s.uses c l ++ es.map (.call k))
      else none
    | none => none

/-! ## What a step does -/

/-- The steps of the pool and its calls. -/
inductive Steps (parse : Bytes → Message × Bool) (s : PoolCalls Message) :
    CallsLabel Message → PoolCalls Message → List (CallsEvent Message) → Prop where
  | pool {l pool es} (htask : ∀ loop, l.task s.pool = some loop → s.held loop = false)
      (h : s.pool.step l = some (pool, es)) :
      Steps parse s (.pool l) (s.setPool pool es) (es.map .pool)
  | acquired {a i client w pool es}
      (hplace : (s.pool.acquires a).place = .ret (some client)) (hw : i.world parse = some w)
      (h : s.pool.step (.acquire a .none) = some (pool, es)) :
      Steps parse s (.acquired a i)
        ((s.setPool pool es).give (s.pool.acquires a).thread client w) (es.map .pool)
  | cached {client thread i w} (hmade : client < s.pool.made) (hw : i.world parse = some w) :
      Steps parse s (.cached client thread i) (s.give thread client w) []
  | call {k l c w es} (hc : s.calls k = some c) (hon : l.onLoop = true)
      (hmay : s.mayStep c l = true) (h : c.world.step parse l = some (w, es)) :
      Steps parse s (.call k l)
        (s.setCall k { c with world := w, sent := c.sent || c.world.use l == .send })
        (s.uses c l ++ es.map (.call k))

theorem step_cases {s s' : PoolCalls Message} {l : CallsLabel Message}
    {es : List (CallsEvent Message)} (h : s.step parse l = some (s', es)) :
    Steps parse s l s' es := by
  cases l with
  | pool l =>
    simp only [step] at h
    split at h
    · rename_i htask
      obtain ⟨⟨pool, es₁⟩, hpool, heq⟩ := Option.map_eq_some_iff.mp h
      obtain ⟨rfl, rfl⟩ := Prod.mk.inj heq
      refine .pool (fun loop hloop => ?_) hpool
      rw [hloop] at htask
      simpa using htask
    · exact absurd h (by simp)
  | acquired a i =>
    simp only [step] at h
    split at h
    · rename_i client w hplace hw
      obtain ⟨⟨pool, es₁⟩, hpool, heq⟩ := Option.map_eq_some_iff.mp h
      obtain ⟨rfl, rfl⟩ := Prod.mk.inj heq
      exact .acquired hplace hw hpool
    · exact absurd h (by simp)
  | cached client thread i =>
    simp only [step] at h
    split at h
    · rename_i w hw
      split at h
      · rename_i hc
        obtain ⟨rfl, rfl⟩ : _ = s' ∧ [] = es := by simpa using h
        exact .cached hc.1 hw
      · exact absurd h (by simp)
    · exact absurd h (by simp)
  | call k l =>
    simp only [step] at h
    split at h
    · rename_i c hc
      split at h
      · rename_i hmay
        rw [Bool.and_eq_true] at hmay
        obtain ⟨⟨w, es₁⟩, hstep, heq⟩ := Option.map_eq_some_iff.mp h
        obtain ⟨rfl, rfl⟩ := Prod.mk.inj heq
        exact .call hc hmay.1 hmay.2 hstep
      · exact absurd h (by simp)
    · exact absurd h (by simp)

end PoolCalls

/-! ## The threads of a call -/

/-- The thread that does a step. -/
def Label.tid : Label → Option ThreadId
  | .thread t _ | .timerFires t | .responseArrives t _ | .connectReturns t _ _ => some t
  | .readReplaced => none

theorem finish_others {w : World Message} {t : ThreadId} {f : Finisher} {stage : Stage Message}
    {code : List (Op Message)} {u : ThreadId} (hu : u ≠ t) :
    (w.finish parse t f code stage).1.threads u = w.threads u := by
  obtain ⟨finishing, hthreads⟩ := @finish_threads _ parse w t f stage code
  rw [hthreads, if_neg hu]

theorem step_others {w w' : World Message} {l : Label} {es : List (Event Message)}
    (h : w.step parse l = some (w', es)) {u : ThreadId} (hu : l.tid ≠ some u) :
    w'.threads u = w.threads u := by
  have hne : ∀ {t : ThreadId}, l.tid = some t → u ≠ t := by
    rintro t ht rfl
    exact hu ht
  have hmoves := callMoves_of_step h
  cases hmoves with
  | finishes => exact finish_others (hne rfl)
  | execs _ hexec => exact execs_others (execs_of_exec hexec) (hne rfl)
  | timerFires | responseArrives | connectReturns =>
    rw [goOn, threads_setThread, if_neg (hne rfl)]
  | readReplaced => rfl

/-- A thread that takes a step has something to do. -/
theorem not_idle_of_step {w w' : World Message} {t : ThreadId} {input : Input}
    {es : List (Event Message)} (h : w.step parse (.thread t input) = some (w', es)) :
    w.idle t = false := by
  rcases step_thread h with ⟨f, stage, code, hat, -⟩ | ⟨op, rest, hat, -⟩ <;> simp [idle, hat]

/-- A call that keeps to its gate, with no threads but its caller's and the loop's. -/
structure TwoThreaded (w : World Message) : Prop where
  keeps : ∃ p, Keeps w p
  others : ∀ t, t ≠ caller → t ≠ loopThread → w.idle t = true

/-- A thread that is not the loop's stays done with the call. -/
theorem step_idle {w w' : World Message} {l : Label} {es : List (Event Message)}
    (hon : l.onLoop = true) (hstep : w.step parse l = some (w', es)) {t : ThreadId}
    (ht : t ≠ loopThread) (hidle : w.idle t = true) : w'.idle t = true := by
  have htid : l.tid ≠ some t := by
    intro heq
    cases l with
    | thread u input =>
      obtain rfl : u = t := Option.some.inj heq
      exact absurd (not_idle_of_step hstep) (by simp [hidle])
    | timerFires u | responseArrives u msg =>
      obtain rfl : u = t := Option.some.inj heq
      exact ht (by simpa [Label.onLoop] using hon)
    | connectReturns => exact absurd hon (by simp [Label.onLoop])
    | readReplaced => exact absurd heq (by simp [Label.tid])
  rw [idle, step_others hstep htid]
  exact hidle

theorem step_twoThreaded {w w' : World Message} {l : Label} {es : List (Event Message)}
    (h : TwoThreaded w) (hon : l.onLoop = true) (hstep : w.step parse l = some (w', es)) :
    TwoThreaded w' := by
  obtain ⟨p, hp⟩ := h.keeps
  obtain ⟨p', hp', -⟩ := step_keeps hp hstep
  exact ⟨⟨p', hp'⟩, fun t hcaller hloop => step_idle hon hstep hloop (h.others t hcaller hloop)⟩

theorem step_dropRead (w : World Message) :
    w.step parse .readReplaced = some (w.dropRead, []) := rfl

theorem world_step {i : Invocation Message} {w : World Message} (h : i.world parse = some w) :
    i.args.passes = true ∧ ∃ es, (World.call { i.channel with pool := true } i.args i.call
      i.controller i.response).step parse (.thread caller (.found true)) = some (w, es) := by
  have hstep : ∃ es, (World.call { i.channel with pool := true } i.args i.call
      i.controller i.response).step parse (.thread caller (.found true)) = some (w, es) := by
    unfold Invocation.world at h
    split at h
    · rename_i w₁ es hs
      split at h
      · exact ⟨es, by rw [hs, ← Option.some.inj h]⟩
      · exact absurd h (by simp)
    · exact absurd h (by simp)
  refine ⟨?_, hstep⟩
  by_contra hargs
  -- a refused call asks for no client
  obtain ⟨es, hs⟩ := hstep
  rw [World.call, if_neg hargs, World.refused] at hs
  rcases step_thread hs with ⟨f, stage, code, hat, -⟩ | ⟨op, rest, hat, hexec⟩
  · rw [threads_goOn] at hat
    exact absurd hat (by simp)
  · rw [threads_goOn] at hat
    cases hcall : i.call with
    | callMethod done => simp [hcall, Call.code] at hat
    | callMethodBlocking timeoutMs =>
      obtain ⟨rfl, rfl⟩ : Op.waitFor = op ∧ [] = rest := by simpa [hcall, Call.code] using hat
      exact absurd hexec (by simp [exec])

theorem world_twoThreaded {i : Invocation Message} {w : World Message}
    (h : i.world parse = some w) : TwoThreaded w ∧ w.idle loopThread = true := by
  obtain ⟨hargs, es, hstep⟩ := world_step h
  have hkeeps := call_keeps { i.channel with pool := true } i.call i.controller i.response hargs
  have hidle : ∀ t, t ≠ caller → (World.call { i.channel with pool := true } i.args i.call
      i.controller i.response).idle t = true := by
    intro t ht
    rw [idle, call_threads _ _ _ _ hargs, if_neg ht]
    rfl
  refine ⟨step_twoThreaded ⟨⟨_, hkeeps⟩, fun t ht _ => hidle t ht⟩ rfl hstep, ?_⟩
  rw [idle, step_others hstep (by simp [Label.tid, caller, loopThread])]
  exact hidle loopThread (by decide)

/-! ## What holds of every call -/

namespace PoolCalls

variable {s s' : PoolCalls Message}

theorem calls_give (s : PoolCalls Message) (thread : Option Nat) (client : Nat)
    (w : World Message) (k : Nat) : (s.give thread client w).calls k =
      if k = s.begun then some { thread, client, world := w } else s.calls k :=
  Function.update_apply _ _ _ _

theorem calls_setCall (s : PoolCalls Message) (k j : Nat) (c : PoolCall Message) :
    (s.setCall k c).calls j = if j = k then some c else s.calls j :=
  Function.update_apply _ _ _ _

/-- A call after a step of the pool is one from before, which may have lost its callback. -/
theorem calls_setPool {pool : RpcConnectionPool} {es : List PoolEvent} {k : Nat}
    {c : PoolCall Message} (h : (s.setPool pool es).calls k = some c) :
    ∃ c₀, s.calls k = some c₀ ∧ c = c₀.clear es :=
  let ⟨c₀, hc₀, heq⟩ := Option.map_eq_some_iff.mp h
  ⟨c₀, hc₀, heq.symm⟩

theorem clear_client (es : List PoolEvent) (c : PoolCall Message) :
    (c.clear es).client = c.client := by
  unfold PoolCall.clear
  split <;> rfl

theorem clear_sent (es : List PoolEvent) (c : PoolCall Message) :
    (c.clear es).sent = c.sent := by
  unfold PoolCall.clear
  split <;> rfl

/-- A cleared call is one that has taken a step without an event, or none. -/
theorem clear_world (parse : Bytes → Message × Bool) (es : List PoolEvent)
    (c : PoolCall Message) : (c.clear es).world = c.world ∨
      c.world.step parse .readReplaced = some ((c.clear es).world, []) := by
  unfold PoolCall.clear
  split
  · exact Or.inr (step_dropRead c.world)
  · exact Or.inl rfl

theorem idle_of_not_held {k : Nat} {c : PoolCall Message} (hk : k < s.begun)
    (hc : s.calls k = some c) (hheld : s.held (s.loopOf c.client) = false) :
    c.world.idle loopThread = true := by
  by_contra hbusy
  have hnot : c.world.idle loopThread = false := by simpa using hbusy
  have hholds : s.held (s.loopOf c.client) = true := by
    refine List.any_eq_true.mpr ⟨k, List.mem_range.mpr hk, ?_⟩
    simp [hc, holds, hnot]
  exact absurd (hheld.symm.trans hholds) (by simp)

/-- What the runs of a pool and its calls keep. -/
structure Steady (s : PoolCalls Message) : Prop where
  placed : s.pool.Placed
  unbegun : ∀ k, s.begun ≤ k → s.calls k = none
  made : ∀ k c, s.calls k = some c → c.client < s.pool.made
  threads : ∀ k c, s.calls k = some c → TwoThreaded c.world
  /-- A thread that has left its loop runs no callback. -/
  parked : ∀ k c, s.calls k = some c → s.pool.gone (s.loopOf c.client) →
    c.world.idle loopThread = true

theorem steady_new (ioThreads connsPerAddr : Nat) :
    Steady (new ioThreads connsPerAddr : PoolCalls Message) where
  placed := RpcConnectionPool.placed_new ioThreads connsPerAddr
  unbegun _ _ := rfl
  made _ _ h := absurd h (by simp [new])
  threads _ _ h := absurd h (by simp [new])
  parked _ _ h := absurd h (by simp [new])

theorem Steady.lt (h : Steady s) {k : Nat} {c : PoolCall Message} (hc : s.calls k = some c) :
    k < s.begun := by
  by_contra hle
  rw [h.unbegun k (by omega)] at hc
  exact absurd hc (by simp)

theorem Steady.loopOf (h : Steady s) {l : PoolLabel} {pool : RpcConnectionPool}
    {es : List PoolEvent} (hstep : s.pool.step l = some (pool, es)) {k : Nat}
    {c : PoolCall Message} (hc : s.calls k = some c) :
    (pool.tcpClients c.client).loop = s.loopOf c.client :=
  (RpcConnectionPool.step_settles hstep).loop c.client (h.made k c hc)

theorem Steady.setPool (h : Steady s) {l : PoolLabel} {pool : RpcConnectionPool}
    {es : List PoolEvent} (htask : ∀ loop, l.task s.pool = some loop → s.held loop = false)
    (hstep : s.pool.step l = some (pool, es)) : Steady (s.setPool pool es) where
  placed := RpcConnectionPool.step_placed h.placed hstep
  unbegun k hk := by
    show (s.calls k).map _ = none
    rw [h.unbegun k hk]
    rfl
  made k c hc := by
    obtain ⟨c₀, hc₀, rfl⟩ := calls_setPool hc
    rw [clear_client]
    exact lt_of_lt_of_le (h.made k c₀ hc₀) (RpcConnectionPool.step_made hstep)
  threads k c hc := by
    obtain ⟨c₀, hc₀, rfl⟩ := calls_setPool hc
    rcases clear_world (fun _ => (c₀.world.response, true)) es c₀ with heq | hclear
    · rw [heq]
      exact h.threads k c₀ hc₀
    · exact step_twoThreaded (h.threads k c₀ hc₀) rfl hclear
  parked k c hc hgone := by
    obtain ⟨c₀, hc₀, rfl⟩ := calls_setPool hc
    have hidle : c₀.world.idle loopThread = true := by
      rw [clear_client] at hgone
      change pool.gone (pool.tcpClients c₀.client).loop at hgone
      rw [h.loopOf hstep hc₀] at hgone
      rcases RpcConnectionPool.step_gone hstep hgone with hgone | ⟨rfl, -⟩
      · exact h.parked k c₀ hc₀ hgone
      · -- the thread leaves its loop, and is not inside of a call
        exact idle_of_not_held (h.lt hc₀) hc₀ (htask (s.loopOf c₀.client) rfl)
    unfold PoolCall.clear
    split <;> exact hidle

theorem Steady.give (h : Steady s) (thread : Option Nat) {client : Nat} {w : World Message}
    (hmade : client < s.pool.made) (hw : TwoThreaded w ∧ w.idle loopThread = true) :
    Steady (s.give thread client w) where
  placed := h.placed
  unbegun k hk := by
    have hlt : s.begun < k := hk
    rw [calls_give, if_neg (by omega)]
    exact h.unbegun k (by omega)
  made k c hc := by
    rw [calls_give] at hc
    split at hc
    · obtain rfl := Option.some.inj hc
      exact hmade
    · exact h.made k c hc
  threads k c hc := by
    rw [calls_give] at hc
    split at hc
    · obtain rfl := Option.some.inj hc
      exact hw.1
    · exact h.threads k c hc
  parked k c hc hgone := by
    rw [calls_give] at hc
    split at hc
    · obtain rfl := Option.some.inj hc
      exact hw.2
    · exact h.parked k c hc hgone

/-- Once the thread of the loop has left it, only the caller's thread goes on with the call. -/
theorem Steady.parked_step (h : Steady s) {k : Nat} {c : PoolCall Message} {l : Label}
    {w : World Message} {es : List (Event Message)} (hc : s.calls k = some c)
    (hgone : s.pool.gone (s.loopOf c.client)) (hon : l.onLoop = true)
    (hmay : s.mayStep c l = true) (hstep : c.world.step parse l = some (w, es)) :
    l = .readReplaced ∨ ∃ input, l = .thread caller input := by
  have hready : s.ready (s.loopOf c.client) = false := by
    by_contra hready
    have hfree : s.pool.free (s.loopOf c.client) = true := by
      rw [Bool.not_eq_false, ready, Bool.and_eq_true] at hready
      exact hready.1
    exact RpcConnectionPool.not_gone_of_free hfree hgone
  cases l with
  | thread t input =>
    have hbusy := not_idle_of_step hstep
    by_cases ht : t = caller
    · exact Or.inr ⟨input, by rw [ht]⟩
    · by_cases hloop : t = loopThread
      · rw [hloop, h.parked k c hc hgone] at hbusy
        exact absurd hbusy (by simp)
      · rw [(h.threads k c hc).others t ht hloop] at hbusy
        exact absurd hbusy (by simp)
  | timerFires t => exact absurd hmay (by simp [mayStep, hready])
  | responseArrives t msg => exact absurd hmay (by simp [mayStep, hready])
  | connectReturns => exact absurd hon (by simp [Label.onLoop])
  | readReplaced => exact Or.inl rfl

theorem Steady.call (h : Steady s) {k : Nat} {l : Label} {c : PoolCall Message}
    {w : World Message} {sent : Bool} {es : List (Event Message)} (hc : s.calls k = some c)
    (hon : l.onLoop = true) (hmay : s.mayStep c l = true)
    (hstep : c.world.step parse l = some (w, es)) :
    Steady (s.setCall k { c with world := w, sent }) where
  placed := h.placed
  unbegun j hj := by
    rw [calls_setCall, if_neg]
    · exact h.unbegun j hj
    · have hk := h.lt hc
      have hle : s.begun ≤ j := hj
      omega
  made j d hd := by
    rw [calls_setCall] at hd
    split at hd
    · obtain rfl := Option.some.inj hd
      exact h.made k c hc
    · exact h.made j d hd
  threads j d hd := by
    rw [calls_setCall] at hd
    split at hd
    · obtain rfl := Option.some.inj hd
      exact step_twoThreaded (h.threads k c hc) hon hstep
    · exact h.threads j d hd
  parked j d hd hgone := by
    rw [calls_setCall] at hd
    split at hd
    · obtain rfl := Option.some.inj hd
      have hidle : c.world.idle loopThread = true := h.parked k c hc hgone
      have htid : l.tid ≠ some loopThread := by
        rcases h.parked_step hc hgone hon hmay hstep with rfl | ⟨_, rfl⟩
        · simp [Label.tid]
        · simp [Label.tid, caller, loopThread]
      show w.idle loopThread = true
      rw [idle, step_others hstep htid]
      exact hidle
    · exact h.parked j d hd hgone

theorem step_steady {l : CallsLabel Message} {es : List (CallsEvent Message)} (h : Steady s)
    (hstep : s.step parse l = some (s', es)) : Steady s' := by
  have hsteps := step_cases hstep
  cases hsteps with
  | pool htask hpool => exact h.setPool htask hpool
  | acquired hplace hw hpool =>
    have hset := h.setPool (fun _ htask => absurd htask (by simp [PoolLabel.task])) hpool
    rename_i a _ client _ _ _
    have hmade : client < s.pool.made :=
      h.placed.named a client (by simp [hplace, AcquirePlace.names])
    exact hset.give _ (lt_of_lt_of_le hmade (RpcConnectionPool.step_made hpool))
      (world_twoThreaded hw)
  | cached hmade hw => exact h.give _ hmade (world_twoThreaded hw)
  | call hc hon hmay hcall => exact h.call hc hon hmay hcall

end PoolCalls

end RocketRpc.Rpc
