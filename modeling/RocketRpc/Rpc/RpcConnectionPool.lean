import RocketRpc.Lib.Machine
import RocketRpc.Tcp.TcpBuffer
import Mathlib.Algebra.GroupWithZero.Nat
import Mathlib.Logic.Function.Basic

/-
  The connection pool (`rocket/net/rpc/rpc_connection_pool.cc`), with the loops and the
  clients it makes.

  Any number of `acquire` calls and one `shutdown` run beside each other, on threads of their
  own or on the thread of a loop of the pool, which then runs nothing else. What is done under
  `m_mutex` is one step; the counters of the loops, which are changed without it, are changed
  in steps of their own, and what a relaxed load of them answers comes from outside. `stop`
  and `connectSync` wait for a task of the client's loop. Connections are made, refused and
  lost at any time.
-/

namespace RocketRpc.Rpc

open RocketRpc.Tcp

/-- Where the thread of a loop is (`IOThread::threadFunc`). -/
inductive LoopPlace where
  | starting
  | looping
  | left
  /-- The thread has ended, and the loop with it. -/
  | ended
  deriving DecidableEq, Repr

structure PoolLoop where
  place : LoopPlace := .starting
  stopFlag : Bool := false
  /-- `m_connection_count`, where a value below zero would be one that wraps. -/
  connectionCount : Int := 0
  deriving DecidableEq, Repr

/-- A `TcpClient` that the pool has made. -/
structure PoolClient where
  addr : Bytes
  loop : Nat
  /-- `m_connection` is there. -/
  connection : Bool := false
  /-- The connection is in the state Connected. -/
  connected : Bool := false
  /-- The loop has still to call back for `connect`. -/
  connecting : Bool := false
  /-- What `connect` has called back with: whether there was an error. -/
  called : Option Bool := none
  stopped : Bool := false
  /-- `stop` has queued `connectDestroyed`. -/
  stopQueued : Bool := false
  destroyed : Bool := false
  deriving DecidableEq, Repr

/-- What an `acquire` does after it has stopped a client. -/
inductive AfterStop where
  | stale (rest : List Nat) (loop : Option Nat)
  | ret (client : Option Nat)
  deriving DecidableEq, Repr

/-- Where an `acquire` is. -/
inductive AcquirePlace where
  | lookup
  | stopStale (stale : List Nat) (loop : Option Nat)
  | connect (loop : Nat)
  /-- In `connectSync`. -/
  | connecting (client loop : Nat)
  | connected (client loop : Nat)
  /-- The connection is counted; the mutex comes next. -/
  | publish (client loop : Nat)
  /-- The pool was shut down in the meantime. -/
  | drop (client loop : Nat)
  | stop (client : Nat) (next : AfterStop)
  | stopping (client : Nat) (next : AfterStop)
  | ret (client : Option Nat)
  | over
  deriving DecidableEq, Repr

structure Acquire where
  addr : Bytes := []
  /-- The loop of the pool on whose thread the call is made. -/
  thread : Option Nat := none
  place : AcquirePlace := .over
  /-- The clients that were connected at some moment since the call began, and the one that
      `connectSync` has connected; for the proofs. -/
  seen : List Nat := []
  deriving DecidableEq, Repr

/-- Where the `shutdown` is; `clients` are those it has still to unregister. -/
inductive ShutdownPlace where
  | idle
  | unregister (clients : List Nat)
  | stop (client : Nat) (clients : List Nat)
  | stopping (client : Nat) (clients : List Nat)
  /-- In `m_io_group.join`, at the thread of a loop. -/
  | join (loop : Nat)
  | joining (loop : Nat)
  | clear
  | done
  deriving DecidableEq, Repr

structure RpcConnectionPool where
  connsPerAddr : Nat
  ioThreads : Nat
  /-- `m_shutdown`. -/
  isShutdown : Bool := false
  /-- `m_clients`. -/
  clients : Bytes → List Nat := fun _ => []
  rrCounters : Bytes → Nat := fun _ => 0
  loops : Nat → PoolLoop := fun _ => {}
  /-- The number of the clients made so far. -/
  made : Nat := 0
  tcpClients : Nat → PoolClient := fun _ => { addr := [], loop := 0 }
  /-- The number of the `acquire` calls so far. -/
  begun : Nat := 0
  acquires : Nat → Acquire := fun _ => {}
  shutdownThread : Option Nat := none
  shutdown : ShutdownPlace := .idle

/-- What comes back from outside to a step of an `acquire`. -/
inductive PoolInput where
  | none
  /-- The values of the counters that `pickLoop` and the search for an alternative load. -/
  | loads (counts alternatives : List Nat)
  /-- Whether `connect` got as far as to its task. -/
  | started (ok : Bool)
  | timeout
  deriving DecidableEq, Repr

inductive PoolLabel where
  | begins (addr : Bytes) (thread : Option Nat)
  | acquire (a : Nat) (input : PoolInput)
  /-- `acquireByService` counts on for a service with `addrs` addresses. -/
  | discovers (service : Bytes) (addrs : Nat)
  /-- `shutdown` is called; its copy has the clients in the order of the map. -/
  | shutsDown (thread : Option Nat) (copy : List Nat)
  | shutdown
  -- what a loop does
  | loops (loop : Nat)
  | establishes (client : Nat)
  | refuses (client : Nat)
  | destroys (client : Nat)
  | leaves (loop : Nat)
  | ends (loop : Nat)
  /-- A connection is lost. -/
  | dies (client : Nat)
  deriving DecidableEq, Repr

inductive PoolEvent where
  | returned (a : Nat) (client : Option Nat)
  /-- A loop is dereferenced; whether it is still there. -/
  | uses (loop : Nat) (alive : Bool)
  /-- `stop` has cleared the read callbacks of the client. -/
  | cleared (client : Nat)
  deriving DecidableEq, Repr

/-- `std::numeric_limits<std::size_t>::max()`. -/
def maxSize : Nat := 2 ^ 64 - 1

/-- `pickLoop`, with the values that its loads answer. -/
def pickLoop (ioThreads : Nat) (counts : List Nat) : Option Nat :=
  if ioThreads = 0 then none
  else
    some ((List.range ioThreads).foldl (fun (best : Nat × Nat) i =>
      if counts.getD i 0 < best.2 then (i, counts.getD i 0) else best) (0, maxSize)).1

/-- The least loaded loop other than `loop`. -/
def alternativeLoop (ioThreads loop : Nat) (counts : List Nat) : Option Nat :=
  ((List.range ioThreads).foldl (fun (best : Option Nat × Nat) i =>
    if i = loop then best
    else if counts.getD i 0 < best.2 then (some i, counts.getD i 0) else best)
      (none, maxSize)).1

/-- The choice of a loop; never the one that executes the call. -/
def chooseLoop (ioThreads : Nat) (thread : Option Nat) (counts alternatives : List Nat) :
    Option Nat :=
  match pickLoop ioThreads counts with
  | some loop =>
    if thread = some loop then alternativeLoop ioThreads loop alternatives else some loop
  | none => none

/-- The search for a connected client, `n` slots from `idx` on; the client and the next index. -/
def scan (connected : Nat → Bool) (vec : List Nat) : Nat → Nat → Option Nat × Nat
  | 0, idx => (none, idx)
  | n + 1, idx =>
    match vec[idx]? with
    | some client =>
      if connected client then (some client, (idx + 1) % vec.length)
      else scan connected vec n ((idx + 1) % vec.length)
    | none => (none, idx)

namespace RpcConnectionPool

def new (ioThreads connsPerAddr : Nat) : RpcConnectionPool :=
  { ioThreads, connsPerAddr := max 1 connsPerAddr }

def alive (s : RpcConnectionPool) (loop : Nat) : Bool := (s.loops loop).place != .ended

def use (s : RpcConnectionPool) (loop : Nat) : PoolEvent := .uses loop (s.alive loop)

def isConnected (s : RpcConnectionPool) (client : Nat) : Bool :=
  (s.tcpClients client).connection && (s.tcpClients client).connected

def shutdownRunning (s : RpcConnectionPool) : Bool :=
  s.shutdown != .idle && s.shutdown != .done

/-- The thread of the loop is inside a call to the pool, and does not run tasks. -/
def busy (s : RpcConnectionPool) (loop : Nat) : Bool :=
  (List.range s.begun).any (fun a =>
    (s.acquires a).thread = some loop && (s.acquires a).place != .over) ||
  (s.shutdownThread = some loop && s.shutdownRunning)

/-- The loop runs tasks. -/
def free (s : RpcConnectionPool) (loop : Nat) : Bool :=
  (s.loops loop).place == .looping && !s.busy loop

/-- The client is in the vector of its address. -/
def pooled (s : RpcConnectionPool) (client : Nat) : Bool :=
  (s.clients (s.tcpClients client).addr).contains client

def allPooled (s : RpcConnectionPool) : List Nat := (List.range s.made).filter s.pooled

def setClient (s : RpcConnectionPool) (client : Nat) (c : PoolClient) : RpcConnectionPool :=
  { s with tcpClients := Function.update s.tcpClients client c }

def setLoop (s : RpcConnectionPool) (loop : Nat) (l : PoolLoop) : RpcConnectionPool :=
  { s with loops := Function.update s.loops loop l }

/-- Add to `m_connection_count`. -/
def count (s : RpcConnectionPool) (loop : Nat) (n : Int) : RpcConnectionPool :=
  s.setLoop loop { s.loops loop with connectionCount := (s.loops loop).connectionCount + n }

/-- `acquire` call `a` goes to `place`. -/
def goTo (s : RpcConnectionPool) (a : Nat) (place : AcquirePlace) : RpcConnectionPool :=
  { s with acquires := Function.update s.acquires a { s.acquires a with place } }

/-- The counters lose the clients of a vector whose connections are all dead. -/
def uncount (s : RpcConnectionPool) (vec : List Nat) : RpcConnectionPool :=
  vec.foldl (fun s client => s.count (s.tcpClients client).loop (-1)) s

/-- The connections of the address are all dead and leave the pool. -/
def evict (s : RpcConnectionPool) (addr : Bytes) : RpcConnectionPool :=
  { s.uncount (s.clients addr) with
    clients := Function.update s.clients addr []
    rrCounters := Function.update s.rrCounters addr 0 }

def pushBack (s : RpcConnectionPool) (addr : Bytes) (client : Nat) : RpcConnectionPool :=
  { s with clients := Function.update s.clients addr (s.clients addr ++ [client]) }

/-- The first part of `acquire`, under the mutex. -/
def lookup (s : RpcConnectionPool) (a : Nat) (counts alternatives : List Nat) :
    RpcConnectionPool × List PoolEvent :=
  let addr := (s.acquires a).addr
  let vec := s.clients addr
  let loop := chooseLoop s.ioThreads (s.acquires a).thread counts alternatives
  let loads := (List.range s.ioThreads).map s.use
  if s.isShutdown then (s.goTo a (.ret none), [])
  else if s.connsPerAddr ≤ vec.length then
    match scan s.isConnected vec vec.length (s.rrCounters addr % vec.length) with
    | (some client, idx) =>
      ({ s with rrCounters := Function.update s.rrCounters addr idx }.goTo a (.ret client), [])
    | (none, _) =>
      ((s.evict addr).goTo a (.stopStale vec loop),
        vec.map (fun client => s.use (s.tcpClients client).loop) ++ loads)
  else (s.goTo a (.stopStale [] loop), loads)

/-- The last part of `acquire`, under the mutex. -/
def publish (s : RpcConnectionPool) (a client loop : Nat) :
    RpcConnectionPool × List PoolEvent :=
  let addr := (s.acquires a).addr
  let vec := s.clients addr
  if s.isShutdown then (s.goTo a (.drop client loop), [])
  else if vec.length < s.connsPerAddr then
    ((s.pushBack addr client).goTo a (.ret (some client)), [])
  else
    -- another thread has filled the slots
    let idx := s.rrCounters addr % vec.length
    ({ s.count loop (-1) with
        rrCounters := Function.update s.rrCounters addr ((idx + 1) % vec.length) }.goTo a
      (.stop client (.ret vec[idx]?)), [s.use loop])

/-- `TcpClient::stop` on a thread up to where it may wait: whether it waits. -/
def stop (s : RpcConnectionPool) (thread : Option Nat) (client : Nat) :
    RpcConnectionPool × Bool × List PoolEvent :=
  let c := s.tcpClients client
  if c.stopped then (s, false, [])
  else if !c.connection then
    (s.setClient client { c with stopped := true }, false, [.cleared client])
  else
    -- the connection is moved out of the client
    let c := { c with stopped := true, connection := false }
    if thread = some c.loop then
      (s.setClient client { c with destroyed := true }, false, [s.use c.loop, .cleared client])
    else if (s.loops c.loop).place == .looping then
      (s.setClient client { c with stopQueued := true }, true, [s.use c.loop])
    else (s.setClient client c, false, [s.use c.loop, .cleared client])

def AfterStop.place : AfterStop → AcquirePlace
  | .stale rest loop => .stopStale rest loop
  | .ret client => .ret client

/-- `connect`, as far as the calling thread does it; the client is new. -/
def connect (s : RpcConnectionPool) (a loop : Nat) (ok : Bool) :
    RpcConnectionPool × List PoolEvent :=
  let c : PoolClient := { addr := (s.acquires a).addr, loop }
  let c := if ok then { c with connection := true, connecting := true }
    else { c with called := some true }
  ({ s.setClient s.made c with made := s.made + 1 }.goTo a (.connecting s.made loop),
    if ok then [s.use loop] else [])

/-- `acquire` call `a` has seen the client connected. -/
def seeFor (s : RpcConnectionPool) (a client : Nat) : RpcConnectionPool :=
  { s with acquires :=
    Function.update s.acquires a { s.acquires a with seen := client :: (s.acquires a).seen } }

/-- `acquire` call `a` takes its next step. -/
def exec (s : RpcConnectionPool) (a : Nat) :
    AcquirePlace → PoolInput → Option (RpcConnectionPool × List PoolEvent)
  | .lookup, .loads counts alternatives => some (s.lookup a counts alternatives)
  | .stopStale (client :: rest) loop, .none =>
    some (s.goTo a (.stop client (.stale rest loop)), [])
  | .stopStale [] (some loop), .none => some (s.goTo a (.connect loop), [])
  | .stopStale [] none, .none => some (s.goTo a (.ret none), [])
  | .connect loop, .started ok => some (s.connect a loop ok)
  | .connecting client loop, .none =>
    match (s.tcpClients client).called with
    | some false => some ((s.seeFor a client).goTo a (.connected client loop), [])
    | some true =>
      -- the last reference to the client goes, and its destructor stops it
      some (s.goTo a (.stop client (.ret none)), [])
    | none => none
  | .connecting client _, .timeout =>
    if (s.tcpClients client).called.isNone then some (s.goTo a (.stop client (.ret none)), [])
    else none
  | .connected client loop, .none =>
    some ((s.count loop 1).goTo a (.publish client loop), [s.use loop])
  | .publish client loop, .none => some (s.publish a client loop)
  | .drop client loop, .none =>
    some ((s.count loop (-1)).goTo a (.stop client (.ret none)), [s.use loop])
  | .stop client next, .none =>
    match s.stop (s.acquires a).thread client with
    | (s', true, es) => some (s'.goTo a (.stopping client next), es)
    | (s', false, es) => some (s'.goTo a (AfterStop.place next), es)
  | .stopping client next, .none =>
    if (s.tcpClients client).destroyed then
      some (s.goTo a (AfterStop.place next), [.cleared client])
    else none
  | .ret client, .none => some (s.goTo a .over, [.returned a client])
  | _, _ => none

/-- The `shutdown` takes its next step. -/
def shutdownStep (s : RpcConnectionPool) :
    ShutdownPlace → Option (RpcConnectionPool × List PoolEvent)
  | .unregister (client :: rest) =>
    some ({ s.count (s.tcpClients client).loop (-1) with shutdown := .stop client rest },
      [s.use (s.tcpClients client).loop])
  | .unregister [] => some ({ s with shutdown := .join 0 }, [])
  | .stop client rest =>
    match s.stop s.shutdownThread client with
    | (s', true, es) => some ({ s' with shutdown := .stopping client rest }, es)
    | (s', false, es) => some ({ s' with shutdown := .unregister rest }, es)
  | .stopping client rest =>
    if (s.tcpClients client).destroyed then
      some ({ s with shutdown := .unregister rest }, [.cleared client])
    else none
  | .join loop =>
    if loop < s.ioThreads then
      let s' := s.setLoop loop { s.loops loop with stopFlag := true }
      -- a thread does not join itself
      some ({ s' with
        shutdown := if s.shutdownThread = some loop then .join (loop + 1) else .joining loop }, [])
    else some ({ s with shutdown := .clear }, [])
  | .joining loop =>
    if (s.loops loop).place = .ended then some ({ s with shutdown := .join (loop + 1) }, [])
    else none
  | .clear =>
    some ({ s with clients := fun _ => [], rrCounters := fun _ => 0, shutdown := .done }, [])
  | .idle | .done => none

/-- Every call under way has seen the client connected. -/
def see (s : RpcConnectionPool) (client : Nat) : RpcConnectionPool :=
  { s with acquires := fun a =>
    if (s.acquires a).place = .over then s.acquires a
    else { s.acquires a with seen := client :: (s.acquires a).seen } }

/-- `acquire` is called. -/
def beginAcquire (s : RpcConnectionPool) (addr : Bytes) (thread : Option Nat) :
    RpcConnectionPool :=
  { s with
    begun := s.begun + 1
    acquires := Function.update s.acquires s.begun
      { addr, thread, place := .lookup, seen := (List.range s.made).filter s.isConnected } }

def step (s : RpcConnectionPool) : PoolLabel → Option (RpcConnectionPool × List PoolEvent)
  | .begins addr thread =>
    if thread.all s.free then some (s.beginAcquire addr thread, []) else none
  | .acquire a input => s.exec a (s.acquires a).place input
  | .discovers service addrs =>
    if addrs = 0 then none
    else
      some ({ s with rrCounters :=
        Function.update s.rrCounters service ((s.rrCounters service + 1) % addrs) }, [])
  | .shutsDown thread copy =>
    if s.shutdown = .idle ∧ thread.all s.free ∧ copy.Perm s.allPooled then
      some ({ s with
        isShutdown := true
        shutdownThread := thread
        shutdown := .unregister copy }, [])
    else none
  | .shutdown => s.shutdownStep s.shutdown
  | .loops loop =>
    if loop < s.ioThreads ∧ (s.loops loop).place = .starting then
      some (s.setLoop loop { s.loops loop with place := .looping }, [])
    else none
  | .establishes client =>
    let c := s.tcpClients client
    if c.connecting && s.free c.loop then
      let s' := s.setClient client
        { c with connecting := false, called := some false, connected := true }
      some (if s'.isConnected client then s'.see client else s', [])
    else none
  | .refuses client =>
    let c := s.tcpClients client
    if c.connecting && s.free c.loop then
      some (s.setClient client { c with connecting := false, called := some true }, [])
    else none
  | .destroys client =>
    let c := s.tcpClients client
    if c.stopQueued && !c.destroyed && s.free c.loop then
      some (s.setClient client { c with destroyed := true }, [])
    else none
  | .leaves loop =>
    if (s.loops loop).stopFlag && s.free loop then
      some (s.setLoop loop { s.loops loop with place := .left }, [])
    else none
  | .ends loop =>
    if (s.loops loop).place = .left then
      some (s.setLoop loop { s.loops loop with place := .ended }, [])
    else none
  | .dies client =>
    if (s.tcpClients client).connected then
      some (s.setClient client { s.tcpClients client with connected := false }, [])
    else none

end RpcConnectionPool

end RocketRpc.Rpc
