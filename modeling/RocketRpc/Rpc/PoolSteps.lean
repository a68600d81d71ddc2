import RocketRpc.Rpc.RpcConnectionPool
import Mathlib.Tactic.Common

/-
  What the steps of the connection pool do.

  One lemma for each operation on the state says which fields it leaves alone, and one
  inversion lemma for each part of `acquire` and for `stop` says what its branches do; `Acts`
  puts them together, one constructor for each way an `acquire` goes on. The invariants of the
  pool are derived from these.
-/

namespace RocketRpc.Rpc

open RocketRpc.Tcp

namespace RpcConnectionPool

variable {s s' : RpcConnectionPool}

/-! ## The fields -/

theorem acquires_goTo (s : RpcConnectionPool) (a b : Nat) (place : AcquirePlace) :
    (s.goTo a place).acquires b =
      if b = a then { s.acquires a with place } else s.acquires b :=
  Function.update_apply _ _ _ _

@[simp] theorem place_goTo (s : RpcConnectionPool) (a : Nat) (place : AcquirePlace) :
    ((s.goTo a place).acquires a).place = place := by
  rw [acquires_goTo, if_pos rfl]

theorem acquires_goTo_of_ne (s : RpcConnectionPool) {a b : Nat} (h : b ≠ a)
    (place : AcquirePlace) : (s.goTo a place).acquires b = s.acquires b := by
  rw [acquires_goTo, if_neg h]

@[simp] theorem seen_goTo (s : RpcConnectionPool) (a b : Nat) (place : AcquirePlace) :
    ((s.goTo a place).acquires b).seen = (s.acquires b).seen := by
  rw [acquires_goTo]
  split
  · rename_i h
    rw [h]
  · rfl

@[simp] theorem thread_goTo (s : RpcConnectionPool) (a b : Nat) (place : AcquirePlace) :
    ((s.goTo a place).acquires b).thread = (s.acquires b).thread := by
  rw [acquires_goTo]
  split
  · rename_i h
    rw [h]
  · rfl

@[simp] theorem addr_goTo (s : RpcConnectionPool) (a b : Nat) (place : AcquirePlace) :
    ((s.goTo a place).acquires b).addr = (s.acquires b).addr := by
  rw [acquires_goTo]
  split
  · rename_i h
    rw [h]
  · rfl

theorem acquires_seeFor (s : RpcConnectionPool) (a client b : Nat) :
    (s.seeFor a client).acquires b =
      if b = a then { s.acquires a with seen := client :: (s.acquires a).seen }
      else s.acquires b :=
  Function.update_apply _ _ _ _

theorem acquires_see (s : RpcConnectionPool) (client a : Nat) :
    (s.see client).acquires a = if (s.acquires a).place = .over then s.acquires a
      else { s.acquires a with seen := client :: (s.acquires a).seen } := rfl

theorem acquires_beginAcquire (s : RpcConnectionPool) (addr : Bytes) (thread : Option Nat)
    (a : Nat) : (s.beginAcquire addr thread).acquires a = if a = s.begun then
      { addr, thread, place := .lookup, seen := (List.range s.made).filter s.isConnected }
      else s.acquires a :=
  Function.update_apply _ _ _ _

theorem tcpClients_setClient (s : RpcConnectionPool) (client other : Nat) (c : PoolClient) :
    (s.setClient client c).tcpClients other = if other = client then c else s.tcpClients other :=
  Function.update_apply _ _ _ _

theorem loops_setLoop (s : RpcConnectionPool) (loop other : Nat) (l : PoolLoop) :
    (s.setLoop loop l).loops other = if other = loop then l else s.loops other :=
  Function.update_apply _ _ _ _

theorem loops_count (s : RpcConnectionPool) (loop other : Nat) (n : Int) :
    (s.count loop n).loops other =
      if other = loop then
        { s.loops loop with connectionCount := (s.loops loop).connectionCount + n }
      else s.loops other :=
  Function.update_apply _ _ _ _

@[simp] theorem place_count (s : RpcConnectionPool) (loop other : Nat) (n : Int) :
    ((s.count loop n).loops other).place = (s.loops other).place := by
  rw [loops_count]
  split
  · rename_i h
    rw [h]
  · rfl

theorem connectionCount_count (s : RpcConnectionPool) (loop other : Nat) (n : Int) :
    ((s.count loop n).loops other).connectionCount =
      (s.loops other).connectionCount + if other = loop then n else 0 := by
  rw [loops_count]
  split
  · rename_i h
    rw [h]
  · omega

/-- The states are the same but for the counters of the loops. -/
structure SameButCounts (s s' : RpcConnectionPool) : Prop where
  connsPerAddr : s'.connsPerAddr = s.connsPerAddr
  ioThreads : s'.ioThreads = s.ioThreads
  isShutdown : s'.isShutdown = s.isShutdown
  clients : s'.clients = s.clients
  rrCounters : s'.rrCounters = s.rrCounters
  made : s'.made = s.made
  tcpClients : s'.tcpClients = s.tcpClients
  begun : s'.begun = s.begun
  acquires : s'.acquires = s.acquires
  shutdownThread : s'.shutdownThread = s.shutdownThread
  shutdown : s'.shutdown = s.shutdown
  place : ∀ loop, (s'.loops loop).place = (s.loops loop).place
  stopFlag : ∀ loop, (s'.loops loop).stopFlag = (s.loops loop).stopFlag

theorem sameButCounts_count (s : RpcConnectionPool) (loop : Nat) (n : Int) :
    SameButCounts s (s.count loop n) := by
  refine ⟨rfl, rfl, rfl, rfl, rfl, rfl, rfl, rfl, rfl, rfl, rfl, (place_count s loop · n), ?_⟩
  intro other
  rw [loops_count]
  split
  · rename_i h
    rw [h]
  · rfl

/-- `uncount` takes one from the counter of each client's loop. -/
theorem uncount_spec (s : RpcConnectionPool) (vec : List Nat) :
    SameButCounts s (s.uncount vec) ∧ ∀ loop, ((s.uncount vec).loops loop).connectionCount =
      (s.loops loop).connectionCount - vec.countP fun c => (s.tcpClients c).loop = loop := by
  induction vec generalizing s with
  | nil =>
    refine ⟨⟨rfl, rfl, rfl, rfl, rfl, rfl, rfl, rfl, rfl, rfl, rfl, fun _ => rfl, fun _ => rfl⟩, ?_⟩
    intro loop
    simp [uncount]
  | cons c vec ih =>
    have hone := sameButCounts_count s (s.tcpClients c).loop (-1)
    obtain ⟨hsame, hcount⟩ := ih (s.count (s.tcpClients c).loop (-1))
    refine ⟨⟨hsame.connsPerAddr.trans hone.connsPerAddr, hsame.ioThreads.trans hone.ioThreads,
      hsame.isShutdown.trans hone.isShutdown, hsame.clients.trans hone.clients,
      hsame.rrCounters.trans hone.rrCounters, hsame.made.trans hone.made,
      hsame.tcpClients.trans hone.tcpClients, hsame.begun.trans hone.begun,
      hsame.acquires.trans hone.acquires, hsame.shutdownThread.trans hone.shutdownThread,
      hsame.shutdown.trans hone.shutdown, fun loop => (hsame.place loop).trans (hone.place loop),
      fun loop => (hsame.stopFlag loop).trans (hone.stopFlag loop)⟩, ?_⟩
    intro loop
    refine (hcount loop).trans ?_
    rw [connectionCount_count, hone.tcpClients, List.countP_cons]
    by_cases h : (s.tcpClients c).loop = loop
    · simp [h]
      omega
    · simp [h, Ne.symm h]

theorem clients_evict (s : RpcConnectionPool) (addr other : Bytes) :
    (s.evict addr).clients other = if other = addr then [] else s.clients other :=
  Function.update_apply _ _ _ _

theorem clients_pushBack (s : RpcConnectionPool) (addr other : Bytes) (client : Nat) :
    (s.pushBack addr client).clients other =
      if other = addr then s.clients addr ++ [client] else s.clients other :=
  Function.update_apply _ _ _ _

/-! ## The choice of a loop -/

theorem pickLoop_lt {ioThreads loop : Nat} {counts : List Nat}
    (h : pickLoop ioThreads counts = some loop) : loop < ioThreads := by
  unfold pickLoop at h
  split at h
  · exact absurd h (by simp)
  · rename_i hne
    obtain rfl := Option.some.inj h
    refine List.foldlRecOn (motive := fun best : Nat × Nat => best.1 < ioThreads) _ _
      (Nat.pos_of_ne_zero hne) ?_
    intro best hbest i hi
    split
    · exact List.mem_range.mp hi
    · exact hbest

theorem alternativeLoop_ne {ioThreads own loop : Nat} {counts : List Nat}
    (h : alternativeLoop ioThreads own counts = some loop) : loop < ioThreads ∧ loop ≠ own := by
  have hfold : ∀ i, alternativeLoop ioThreads own counts = some i → i < ioThreads ∧ i ≠ own := by
    refine List.foldlRecOn (motive := fun best : Option Nat × Nat =>
      ∀ i, best.1 = some i → i < ioThreads ∧ i ≠ own) _ _ (by simp) ?_
    intro best hbest i hi
    split
    · exact hbest
    · rename_i hne
      split
      · intro j hj
        obtain rfl := Option.some.inj hj
        exact ⟨List.mem_range.mp hi, hne⟩
      · exact hbest
  exact hfold loop h

/-- The loop is one of the pool, and not the one that executes the call. -/
theorem chooseLoop_ne {ioThreads loop : Nat} {thread : Option Nat}
    {counts alternatives : List Nat}
    (h : chooseLoop ioThreads thread counts alternatives = some loop) :
    loop < ioThreads ∧ thread ≠ some loop := by
  unfold chooseLoop at h
  split at h
  · rename_i picked hpicked
    split at h
    · rename_i hthread
      obtain ⟨hlt, hne⟩ := alternativeLoop_ne h
      refine ⟨hlt, fun heq => hne ?_⟩
      exact Option.some.inj (heq.symm.trans hthread)
    · rename_i hthread
      obtain rfl := Option.some.inj h
      exact ⟨pickLoop_lt hpicked, hthread⟩
  · exact absurd h (by simp)

theorem scan_some {connected : Nat → Bool} {vec : List Nat} {n idx next client : Nat}
    (h : scan connected vec n idx = (some client, next)) :
    client ∈ vec ∧ connected client = true := by
  induction n generalizing idx with
  | zero => exact absurd h (by simp [scan])
  | succ n ih =>
    rw [scan] at h
    split at h
    · rename_i c hc
      split at h
      · rename_i hconnected
        obtain ⟨heq, -⟩ := Prod.mk.inj h
        obtain rfl := Option.some.inj heq
        exact ⟨List.mem_of_getElem? hc, hconnected⟩
      · exact ih h
    · exact absurd h (by simp)

/-! ## What an `acquire` does -/

/-- The first part of `acquire` `a`. -/
inductive LookedUp (s : RpcConnectionPool) (a : Nat) :
    RpcConnectionPool → List PoolEvent → Prop where
  | shut (hshut : s.isShutdown = true) : LookedUp s a (s.goTo a (.ret none)) []
  | found {client rr} (hmem : client ∈ s.clients (s.acquires a).addr)
      (hconnected : s.isConnected client = true) :
      LookedUp s a ({ s with rrCounters := rr }.goTo a (.ret (some client))) []
  /-- The connections of the address are all dead, and leave the pool. -/
  | evicts {loop} (hopen : s.isShutdown = false)
      (hloop : ∀ l, loop = some l → l < s.ioThreads ∧ (s.acquires a).thread ≠ some l) :
      LookedUp s a ((s.evict (s.acquires a).addr).goTo a
          (.stopStale (s.clients (s.acquires a).addr) loop))
        ((s.clients (s.acquires a).addr).map (fun client => s.use (s.tcpClients client).loop) ++
          (List.range s.ioThreads).map s.use)
  | room {loop} (hopen : s.isShutdown = false)
      (hloop : ∀ l, loop = some l → l < s.ioThreads ∧ (s.acquires a).thread ≠ some l) :
      LookedUp s a (s.goTo a (.stopStale [] loop)) ((List.range s.ioThreads).map s.use)

theorem lookup_cases (s : RpcConnectionPool) (a : Nat) (counts alternatives : List Nat) :
    LookedUp s a (s.lookup a counts alternatives).1 (s.lookup a counts alternatives).2 := by
  unfold lookup
  dsimp only
  split
  · rename_i hshut
    exact .shut hshut
  · rename_i hopen
    split
    · split
      · rename_i client idx hscan
        obtain ⟨hmem, hconnected⟩ := scan_some hscan
        exact .found hmem hconnected
      · exact .evicts (by simpa using hopen) fun _ => chooseLoop_ne
    · exact .room (by simpa using hopen) fun _ => chooseLoop_ne

/-- The last part of `acquire` `a`, which has connected a client. -/
inductive Published (s : RpcConnectionPool) (a client loop : Nat) :
    RpcConnectionPool → List PoolEvent → Prop where
  | shut (hshut : s.isShutdown = true) :
      Published s a client loop (s.goTo a (.drop client loop)) []
  | added (hopen : s.isShutdown = false)
      (hroom : (s.clients (s.acquires a).addr).length < s.connsPerAddr) :
      Published s a client loop
        ((s.pushBack (s.acquires a).addr client).goTo a (.ret (some client))) []
  /-- The slots are full, and the call takes the one at the index. -/
  | full {rr} (hopen : s.isShutdown = false)
      (hfull : s.connsPerAddr ≤ (s.clients (s.acquires a).addr).length) :
      Published s a client loop ({ s.count loop (-1) with rrCounters := rr }.goTo a
          (.stop client (.ret ((s.clients (s.acquires a).addr)[s.rrCounters (s.acquires a).addr %
            (s.clients (s.acquires a).addr).length]?)))) [s.use loop]

theorem publish_cases (s : RpcConnectionPool) (a client loop : Nat) :
    Published s a client loop (s.publish a client loop).1 (s.publish a client loop).2 := by
  unfold publish
  dsimp only
  split
  · rename_i hshut
    exact .shut hshut
  · rename_i hopen
    split
    · rename_i hroom
      exact .added (by simpa using hopen) hroom
    · rename_i hfull
      exact .full (by simpa using hopen) (by omega)

/-- A client is stopped from a thread: what it becomes, whether the thread waits for the
    client's loop, and the events. -/
inductive Stopped (s : RpcConnectionPool) (thread : Option Nat) (client : Nat) :
    RpcConnectionPool → Bool → List PoolEvent → Prop where
  | again (hstopped : (s.tcpClients client).stopped = true) : Stopped s thread client s false []
  | bare {c} (haddr : c.addr = (s.tcpClients client).addr)
      (hloop : c.loop = (s.tcpClients client).loop) (hconnection : c.connection = false)
      (hconnecting : c.connecting = (s.tcpClients client).connecting)
      (hcalled : c.called = (s.tcpClients client).called)
      (hdestroyed : (s.tcpClients client).destroyed = true → c.destroyed = true) {es}
      (hes : es = [.cleared client] ∨ es = [s.use (s.tcpClients client).loop, .cleared client] ∧
        (s.tcpClients client).stopped = false ∧ (s.tcpClients client).connection = true) :
      Stopped s thread client (s.setClient client c) false es
  | waits (hopen : (s.tcpClients client).stopped = false ∧
        (s.tcpClients client).connection = true)
      (hother : thread ≠ some (s.tcpClients client).loop)
      (hlooping : (s.loops (s.tcpClients client).loop).place = .looping) :
      Stopped s thread client (s.setClient client { s.tcpClients client with
          stopped := true
          connection := false
          stopQueued := true }) true [s.use (s.tcpClients client).loop]

theorem stop_cases (s : RpcConnectionPool) (thread : Option Nat) (client : Nat) :
    Stopped s thread client (s.stop thread client).1 (s.stop thread client).2.1
      (s.stop thread client).2.2 := by
  have bare : ∀ (c : PoolClient) (es : List PoolEvent), c.addr = (s.tcpClients client).addr →
      c.loop = (s.tcpClients client).loop → c.connection = false →
      c.connecting = (s.tcpClients client).connecting →
      c.called = (s.tcpClients client).called →
      ((s.tcpClients client).destroyed = true → c.destroyed = true) →
      (es = [.cleared client] ∨ es = [s.use (s.tcpClients client).loop, .cleared client] ∧
        (s.tcpClients client).stopped = false ∧ (s.tcpClients client).connection = true) →
      Stopped s thread client (s.setClient client c) false es :=
    fun _ _ haddr hloop hconnection hconnecting hcalled hdestroyed hes =>
      .bare haddr hloop hconnection hconnecting hcalled hdestroyed hes
  unfold stop
  dsimp only
  split
  · rename_i hstopped
    exact .again hstopped
  · rename_i hstopped
    split
    · rename_i hconnection
      exact bare _ _ rfl rfl (by simpa using hconnection) rfl rfl id (Or.inl rfl)
    · rename_i hconnection
      have hopen : (s.tcpClients client).stopped = false ∧
          (s.tcpClients client).connection = true :=
        ⟨by simpa using hstopped, by simpa using hconnection⟩
      split
      · exact bare _ _ rfl rfl rfl rfl rfl (fun _ => rfl) (Or.inr ⟨rfl, hopen⟩)
      · rename_i hother
        split
        · rename_i hlooping
          exact .waits hopen hother (by simpa using hlooping)
        · exact bare _ _ rfl rfl rfl rfl rfl id (Or.inr ⟨rfl, hopen⟩)

/-- The steps of an `acquire` that only move it on. -/
inductive Goes (s : RpcConnectionPool) : AcquirePlace → AcquirePlace → Prop where
  | stale {client rest loop} :
      Goes s (.stopStale (client :: rest) loop) (.stop client (.stale rest loop))
  | choice {loop} : Goes s (.stopStale [] (some loop)) (.connect loop)
  | noLoop : Goes s (.stopStale [] none) (.ret none)
  | fails {client loop} : Goes s (.connecting client loop) (.stop client (.ret none))

/-- The steps of `acquire` `a`. -/
inductive Acts (s : RpcConnectionPool) (a : Nat) :
    AcquirePlace → RpcConnectionPool → List PoolEvent → Prop where
  | lookup {s' es} (h : LookedUp s a s' es) : Acts s a .lookup s' es
  | goes {place place'} (h : Goes s place place') : Acts s a place (s.goTo a place') []
  | connect {loop ok s' es} (h : s.connect a loop ok = (s', es)) : Acts s a (.connect loop) s' es
  | connects {client loop} (hcalled : (s.tcpClients client).called = some false) :
      Acts s a (.connecting client loop)
        ((s.seeFor a client).goTo a (.connected client loop)) []
  | counts {client loop} : Acts s a (.connected client loop)
      ((s.count loop 1).goTo a (.publish client loop)) [s.use loop]
  | publish {client loop s' es} (h : Published s a client loop s' es) :
      Acts s a (.publish client loop) s' es
  | drops {client loop} : Acts s a (.drop client loop)
      ((s.count loop (-1)).goTo a (.stop client (.ret none))) [s.use loop]
  | stops {client next s' wait es} (h : Stopped s (s.acquires a).thread client s' wait es) :
      Acts s a (.stop client next)
        (s'.goTo a (if wait then .stopping client next else AfterStop.place next)) es
  | stopped {client next} (hdestroyed : (s.tcpClients client).destroyed = true) :
      Acts s a (.stopping client next) (s.goTo a (AfterStop.place next)) [.cleared client]
  | ret {client} : Acts s a (.ret client) (s.goTo a .over) [.returned a client]

theorem exec_cases {a : Nat} {place : AcquirePlace} {input : PoolInput} {es : List PoolEvent}
    (h : s.exec a place input = some (s', es)) : Acts s a place s' es := by
  have goes : ∀ {place'}, Goes s place place' → some (s.goTo a place', []) = some (s', es) →
      Acts s a place s' es := by
    intro place' hgoes heq
    obtain ⟨rfl, rfl⟩ : s.goTo a place' = s' ∧ [] = es := by simpa using heq
    exact .goes hgoes
  cases place with
  | lookup =>
    cases input with
    | loads counts alternatives =>
      have heq : s.lookup a counts alternatives = (s', es) := by simpa [exec] using h
      have hlookup := lookup_cases s a counts alternatives
      rw [heq] at hlookup
      exact .lookup hlookup
    | _ => simp [exec] at h
  | stopStale stale loop =>
    cases input with
    | none =>
      cases stale with
      | cons client rest => exact goes .stale h
      | nil =>
        cases loop with
        | some loop => exact goes .choice h
        | none => exact goes .noLoop h
    | _ => cases stale <;> cases loop <;> simp [exec] at h
  | connect loop =>
    cases input with
    | started ok =>
      exact .connect (by simpa [exec] using h)
    | _ => simp [exec] at h
  | connecting client loop =>
    cases input with
    | none =>
      simp only [exec] at h
      split at h
      · rename_i hcalled
        obtain ⟨rfl, rfl⟩ : _ = s' ∧ [] = es := by simpa using h
        exact .connects hcalled
      · exact goes .fails h
      · exact absurd h (by simp)
    | timeout =>
      simp only [exec] at h
      split at h
      · exact goes .fails h
      · exact absurd h (by simp)
    | _ => simp [exec] at h
  | connected client loop =>
    cases input with
    | none =>
      obtain ⟨rfl, rfl⟩ : _ = s' ∧ [s.use loop] = es := by simpa [exec] using h
      exact .counts
    | _ => simp [exec] at h
  | publish client loop =>
    cases input with
    | none =>
      have heq : s.publish a client loop = (s', es) := by simpa [exec] using h
      have hpublish := publish_cases s a client loop
      rw [heq] at hpublish
      exact .publish hpublish
    | _ => simp [exec] at h
  | drop client loop =>
    cases input with
    | none =>
      obtain ⟨rfl, rfl⟩ : _ = s' ∧ [s.use loop] = es := by simpa [exec] using h
      exact .drops
    | _ => simp [exec] at h
  | stop client next =>
    cases input with
    | none =>
      have hstop := stop_cases s (s.acquires a).thread client
      simp only [exec] at h
      generalize s.stop (s.acquires a).thread client = r at h hstop
      obtain ⟨s₁, wait, es₁⟩ := r
      cases wait with
      | true =>
        obtain ⟨rfl, rfl⟩ : _ = s' ∧ es₁ = es := by simpa using h
        exact .stops hstop
      | false =>
        obtain ⟨rfl, rfl⟩ : _ = s' ∧ es₁ = es := by simpa using h
        exact .stops hstop
    | _ => simp [exec] at h
  | stopping client next =>
    cases input with
    | none =>
      simp only [exec] at h
      split at h
      · rename_i hdestroyed
        obtain ⟨rfl, rfl⟩ : _ = s' ∧ [.cleared client] = es := by simpa using h
        exact .stopped hdestroyed
      · exact absurd h (by simp)
    | _ => simp [exec] at h
  | ret client =>
    cases input with
    | none =>
      obtain ⟨rfl, rfl⟩ : _ = s' ∧ [.returned a client] = es := by simpa [exec] using h
      exact .ret
    | _ => simp [exec] at h
  | «over» => simp [exec] at h

/-- The steps of the `shutdown`. -/
inductive Shuts (s : RpcConnectionPool) :
    ShutdownPlace → RpcConnectionPool → List PoolEvent → Prop where
  | unregisters {client rest} : Shuts s (.unregister (client :: rest))
      { s.count (s.tcpClients client).loop (-1) with shutdown := .stop client rest }
      [s.use (s.tcpClients client).loop]
  | joins : Shuts s (.unregister []) { s with shutdown := .join 0 } []
  | stops {client rest s' wait es} (h : Stopped s s.shutdownThread client s' wait es) :
      Shuts s (.stop client rest) { s' with
        shutdown := if wait then .stopping client rest else .unregister rest } es
  | stopped {client rest} (hdestroyed : (s.tcpClients client).destroyed = true) :
      Shuts s (.stopping client rest) { s with shutdown := .unregister rest } [.cleared client]
  | join {loop} (hloop : loop < s.ioThreads) :
      Shuts s (.join loop) { s.setLoop loop { s.loops loop with stopFlag := true } with
        shutdown := if s.shutdownThread = some loop then .join (loop + 1) else .joining loop } []
  | joined {loop} (hloop : s.ioThreads ≤ loop) :
      Shuts s (.join loop) { s with shutdown := .clear } []
  | ended {loop} (hended : (s.loops loop).place = .ended) :
      Shuts s (.joining loop) { s with shutdown := .join (loop + 1) } []
  | clears : Shuts s .clear
      { s with clients := fun _ => [], rrCounters := fun _ => 0, shutdown := .done } []

theorem shutdownStep_cases {place : ShutdownPlace} {es : List PoolEvent}
    (h : s.shutdownStep place = some (s', es)) : Shuts s place s' es := by
  cases place with
  | idle | done => simp [shutdownStep] at h
  | unregister rest =>
    cases rest with
    | nil =>
      obtain ⟨rfl, rfl⟩ : _ = s' ∧ [] = es := by simpa [shutdownStep] using h
      exact .joins
    | cons client rest =>
      obtain ⟨rfl, rfl⟩ : _ = s' ∧ [s.use (s.tcpClients client).loop] = es := by
        simpa [shutdownStep] using h
      exact .unregisters
  | stop client rest =>
    have hstop := stop_cases s s.shutdownThread client
    simp only [shutdownStep] at h
    generalize s.stop s.shutdownThread client = r at h hstop
    obtain ⟨s₁, wait, es₁⟩ := r
    cases wait with
    | true =>
      obtain ⟨rfl, rfl⟩ : _ = s' ∧ es₁ = es := by simpa using h
      exact .stops hstop
    | false =>
      obtain ⟨rfl, rfl⟩ : _ = s' ∧ es₁ = es := by simpa using h
      exact .stops hstop
  | stopping client rest =>
    simp only [shutdownStep] at h
    split at h
    · rename_i hdestroyed
      obtain ⟨rfl, rfl⟩ : _ = s' ∧ [.cleared client] = es := by simpa using h
      exact .stopped hdestroyed
    · exact absurd h (by simp)
  | join loop =>
    simp only [shutdownStep] at h
    split at h
    · rename_i hloop
      obtain ⟨rfl, rfl⟩ : _ = s' ∧ [] = es := by simpa using h
      exact .join hloop
    · rename_i hloop
      obtain ⟨rfl, rfl⟩ : _ = s' ∧ [] = es := by simpa using h
      exact .joined (by omega)
  | joining loop =>
    simp only [shutdownStep] at h
    split at h
    · rename_i hended
      obtain ⟨rfl, rfl⟩ : _ = s' ∧ [] = es := by simpa using h
      exact .ended hended
    · exact absurd h (by simp)
  | clear =>
    obtain ⟨rfl, rfl⟩ : _ = s' ∧ [] = es := by simpa [shutdownStep] using h
    exact .clears

/-- A loop calls back for `connect`, destroys a connection, or a connection is lost: what the
    client becomes. -/
inductive Handles (s : RpcConnectionPool) (client : Nat) : PoolClient → Prop where
  | refuses (hconnecting : (s.tcpClients client).connecting = true)
      (hfree : s.free (s.tcpClients client).loop = true) :
      Handles s client { s.tcpClients client with connecting := false, called := some true }
  | destroys (hqueued : (s.tcpClients client).stopQueued = true)
      (hfree : s.free (s.tcpClients client).loop = true) :
      Handles s client { s.tcpClients client with destroyed := true }
  | dies : Handles s client { s.tcpClients client with connected := false }

/-- The steps of the pool. -/
inductive Steps (s : RpcConnectionPool) :
    PoolLabel → RpcConnectionPool → List PoolEvent → Prop where
  | begins {addr thread} (hfree : thread.all s.free = true) :
      Steps s (.begins addr thread) (s.beginAcquire addr thread) []
  | acquire {a input s' es} (h : Acts s a (s.acquires a).place s' es) :
      Steps s (.acquire a input) s' es
  | discovers {service addrs rr} : Steps s (.discovers service addrs) { s with rrCounters := rr } []
  | shutsDown {thread copy} (hidle : s.shutdown = .idle) (hfree : thread.all s.free = true)
      (hcopy : copy.Perm s.allPooled) : Steps s (.shutsDown thread copy) { s with
        isShutdown := true
        shutdownThread := thread
        shutdown := .unregister copy } []
  | shutdown {s' es} (h : Shuts s s.shutdown s' es) : Steps s .shutdown s' es
  | loop {l loop place} (hplace : (s.loops loop).place = .starting ∧ place = .looping ∨
        (s.loops loop).stopFlag = true ∧ s.free loop = true ∧ place = .left ∧ l = .leaves loop ∨
        (s.loops loop).place = .left ∧ place = .ended ∧ l = .ends loop) :
      Steps s l (s.setLoop loop { s.loops loop with place }) []
  | establishes {client} (hconnecting : (s.tcpClients client).connecting = true)
      (hfree : s.free (s.tcpClients client).loop = true) {s₁}
      (hs₁ : s₁ = s.setClient client { s.tcpClients client with
        connecting := false, called := some false, connected := true }) :
      Steps s (.establishes client) (if s₁.isConnected client then s₁.see client else s₁) []
  | handles {l client c} (h : Handles s client c) : Steps s l (s.setClient client c) []

theorem step_cases {l : PoolLabel} {es : List PoolEvent} (h : s.step l = some (s', es)) :
    Steps s l s' es := by
  cases l with
  | begins addr thread =>
    simp only [step] at h
    split at h
    · rename_i hfree
      obtain ⟨rfl, rfl⟩ : _ = s' ∧ [] = es := by simpa using h
      exact .begins hfree
    · exact absurd h (by simp)
  | acquire a input => exact .acquire (exec_cases h)
  | discovers service addrs =>
    simp only [step] at h
    split at h
    · exact absurd h (by simp)
    · obtain ⟨rfl, rfl⟩ : _ = s' ∧ [] = es := by simpa using h
      exact .discovers
  | shutsDown thread copy =>
    simp only [step] at h
    split at h
    · rename_i hc
      obtain ⟨rfl, rfl⟩ : _ = s' ∧ [] = es := by simpa using h
      exact .shutsDown hc.1 hc.2.1 hc.2.2
    · exact absurd h (by simp)
  | shutdown => exact .shutdown (shutdownStep_cases h)
  | loops loop =>
    simp only [step] at h
    split at h
    · rename_i hc
      obtain ⟨rfl, rfl⟩ : _ = s' ∧ [] = es := by simpa using h
      exact .loop (Or.inl ⟨hc.2, rfl⟩)
    · exact absurd h (by simp)
  | establishes client =>
    simp only [step] at h
    split at h
    · rename_i hc
      obtain ⟨rfl, rfl⟩ : _ = s' ∧ [] = es := by simpa using h
      rw [Bool.and_eq_true] at hc
      exact .establishes hc.1 hc.2 rfl
    · exact absurd h (by simp)
  | refuses client =>
    simp only [step] at h
    split at h
    · rename_i hc
      obtain ⟨rfl, rfl⟩ : _ = s' ∧ [] = es := by simpa using h
      rw [Bool.and_eq_true] at hc
      exact .handles (.refuses hc.1 hc.2)
    · exact absurd h (by simp)
  | destroys client =>
    simp only [step] at h
    split at h
    · rename_i hc
      obtain ⟨rfl, rfl⟩ : _ = s' ∧ [] = es := by simpa using h
      simp only [Bool.and_eq_true] at hc
      exact .handles (.destroys hc.1.1 hc.2)
    · exact absurd h (by simp)
  | leaves loop =>
    simp only [step] at h
    split at h
    · rename_i hc
      obtain ⟨rfl, rfl⟩ : _ = s' ∧ [] = es := by simpa using h
      rw [Bool.and_eq_true] at hc
      exact .loop (Or.inr (Or.inl ⟨hc.1, hc.2, rfl, rfl⟩))
    · exact absurd h (by simp)
  | ends loop =>
    simp only [step] at h
    split at h
    · rename_i hc
      obtain ⟨rfl, rfl⟩ : _ = s' ∧ [] = es := by simpa using h
      exact .loop (Or.inr (Or.inr ⟨hc, rfl, rfl⟩))
    · exact absurd h (by simp)
  | dies client =>
    simp only [step] at h
    split at h
    · obtain ⟨rfl, rfl⟩ : _ = s' ∧ [] = es := by simpa using h
      exact .handles .dies
    · exact absurd h (by simp)

theorem stopped_fixed {thread : Option Nat} {client : Nat} {wait : Bool} {es : List PoolEvent}
    (h : Stopped s thread client s' wait es) :
    s'.connsPerAddr = s.connsPerAddr ∧ s'.ioThreads = s.ioThreads := by
  cases h <;> exact ⟨rfl, rfl⟩

/-- The size of the pool does not change. -/
theorem step_fixed {l : PoolLabel} {es : List PoolEvent} (h : s.step l = some (s', es)) :
    s'.connsPerAddr = s.connsPerAddr ∧ s'.ioThreads = s.ioThreads := by
  have hsteps := step_cases h
  cases hsteps with
  | begins | discovers | shutsDown | loop | handles => exact ⟨rfl, rfl⟩
  | acquire hacts =>
    rename_i a _
    generalize (s.acquires a).place = place at hacts
    cases hacts with
    | lookup hlookup =>
      cases hlookup with
      | shut | found | room => exact ⟨rfl, rfl⟩
      | evicts =>
        have hsame := (uncount_spec s (s.clients (s.acquires a).addr)).1
        exact ⟨hsame.connsPerAddr, hsame.ioThreads⟩
    | goes | connects | counts | drops | stopped | ret => exact ⟨rfl, rfl⟩
    | connect hconnect =>
      obtain ⟨rfl, -⟩ := Prod.mk.inj hconnect
      exact ⟨rfl, rfl⟩
    | publish hpublish => cases hpublish <;> exact ⟨rfl, rfl⟩
    | stops hstop =>
      have hfixed := stopped_fixed hstop
      exact hfixed
  | shutdown hshuts =>
    generalize s.shutdown = place at hshuts
    cases hshuts with
    | stops hstop =>
      have hfixed := stopped_fixed hstop
      exact hfixed
    | _ => exact ⟨rfl, rfl⟩
  | establishes _ _ hs₁ =>
    split <;> exact hs₁ ▸ ⟨rfl, rfl⟩

end RpcConnectionPool

end RocketRpc.Rpc
