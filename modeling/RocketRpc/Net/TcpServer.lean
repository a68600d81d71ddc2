import Mathlib.Data.Finset.Basic
import RocketRpc.Net.ArmedOutput

/-
  The connections of a running server (`rocket/net/tcp/tcp_server.cc`).

  `onAccept` runs on the main loop, one call after another; the rest of a connection's life is
  on the loop it is assigned to. A step is one atomic operation or one critical section of
  `onAccept` or `removeConnection`, or a step of a connection. The loops of a server have one
  thread each, so a connection only goes on there while no other one of its loop is in a
  function or callback.
-/

namespace RocketRpc.Net

open RocketRpc.Tcp

abbrev LoopId := Nat

def kDirectFlushConnectionThreshold : Int := 256

/-- What `onAccept` comes to next for its connection. -/
inductive AcceptAt where
  /-- At `fetch_add` on the count of the loop. -/
  | counting
  /-- At `queueInLoop(connectEstablished)`. -/
  | queueing
  /-- At the insertion in `m_connections`. -/
  | inserting
  | returned
  deriving DecidableEq, Repr

/-- What `removeConnection`, the close callback, comes to next. -/
inductive RemoveAt where
  | notCalled
  /-- At the erasure from `m_connections`. -/
  | erasing
  /-- At `fetch_sub` on the count of the loop. -/
  | uncounting
  /-- At `queueInLoop(connectDestroyed)`. -/
  | queueing
  | returned
  deriving DecidableEq, Repr

/-- A connection that `onAccept` made. -/
structure Accepted where
  loop : LoopId
  world : World
  acceptAt : AcceptAt := .counting
  removeAt : RemoveAt := .notCalled
  /-- The task `connectEstablished` is queued. -/
  establishQueued : Bool := false
  established : Bool := false
  /-- The task `connectDestroyed` is queued. -/
  destroyQueued : Bool := false

structure TcpServer where
  callbacks : Callbacks
  highWaterMark : Nat
  /-- The size of `m_io_group`. -/
  ioThreads : Nat
  /-- `m_index` of `m_io_group`. -/
  index : LoopId := 0
  accepted : List Accepted := []
  /-- `m_connections`, by the order in which `onAccept` made them. -/
  connections : Finset Nat := ∅
  /-- `m_connection_count` of the loops. -/
  connectionCount : LoopId → Int := fun _ => 0

inductive ServerLabel where
  /-- `onAccept` up to its first operation on the loop; `valid` is whether `accept` gives it a
      client. -/
  | accept (valid : Bool)
  /-- `onAccept` goes on. -/
  | onAccept
  /-- The loop runs the task `connectEstablished` of connection `d`. -/
  | connectEstablished (d : Nat)
  /-- A step of connection `d`. -/
  | connection (d : Nat) (l : Label)
  /-- `removeConnection` goes on for connection `d`. -/
  | removeConnection (d : Nat)
  /-- The loop runs the task `connectDestroyed` of connection `d`. -/
  | connectDestroyed (d : Nat)

namespace Accepted

/-- `removeConnection` has begun and not returned. -/
def removing (r : Accepted) : Bool :=
  match r.removeAt with
  | .notCalled | .returned => false
  | _ => true

/-- The loop is in none of the connection's functions. -/
def rests (r : Accepted) : Bool := r.world.stack.isEmpty

end Accepted

namespace TcpServer

variable (crc : Bytes → UInt32)

def new (callbacks : Callbacks) (highWaterMark ioThreads : Nat) : TcpServer :=
  { callbacks := { callbacks with close := true }, highWaterMark, ioThreads }

def put (s : TcpServer) (d : Nat) (r : Accepted) : TcpServer :=
  { s with accepted := s.accepted.set d r }

def addCount (s : TcpServer) (loop : LoopId) (n : Int) : TcpServer :=
  { s with connectionCount := Function.update s.connectionCount loop (s.connectionCount loop + n) }

/-- No other connection keeps the loop of `r` busy. -/
def loopFree (s : TcpServer) (d : Nat) (r : Accepted) : Bool :=
  s.accepted.zipIdx.all fun (r', d') => d' = d || r'.loop ≠ r.loop || r'.rests

/-- `onAccept` up to its `fetch_add`. -/
def accept (s : TcpServer) (valid : Bool) : Option TcpServer :=
  if s.accepted.all (·.acceptAt = .returned) then
    if !valid || s.ioThreads = 0 then some s
    else
      some { s with
        index := (s.index + 1) % s.ioThreads
        accepted := s.accepted ++ [⟨s.index, .new s.callbacks s.highWaterMark, .counting, .notCalled,
          false, false, false⟩] }
  else none

/-- The next operation of `onAccept`, for its connection `d`. -/
def onAccept (s : TcpServer) (d : Nat) (r : Accepted) : Option TcpServer :=
  match r.acceptAt with
  | .counting =>
    let direct := kDirectFlushConnectionThreshold ≤ s.connectionCount r.loop + 1
    let conn := { r.world.conn with directOutputFlush := direct }
    some ((s.addCount r.loop 1).put d
      { r with world := { r.world with conn }, acceptAt := .queueing })
  | .queueing => some (s.put d { r with establishQueued := true, acceptAt := .inserting })
  | .inserting =>
    some ({ s with connections := insert d s.connections }.put d { r with acceptAt := .returned })
  | .returned => none

/-- The next operation of `removeConnection`. -/
def removeConnection (s : TcpServer) (d : Nat) (r : Accepted) : Option TcpServer :=
  match r.removeAt with
  | .erasing =>
    some ({ s with connections := s.connections.erase d }.put d { r with removeAt := .uncounting })
  | .uncounting => some ((s.addCount r.loop (-1)).put d { r with removeAt := .queueing })
  | .queueing =>
    -- the callback returns to `handleClose`
    (r.world.step crc .returns).map fun (world, _) =>
      s.put d { r with world, removeAt := .returned, destroyQueued := true }
  | _ => none

/-- A step of the connection; its close callback is `removeConnection`. -/
def connection (s : TcpServer) (d : Nat) (r : Accepted) (l : Label) :
    Option (TcpServer × List (Nat × Event)) :=
  (r.world.step crc l).map fun (world, es) =>
    let removeAt := if .called .close ∈ es then .erasing else r.removeAt
    (s.put d { r with world, removeAt }, es.map fun e => (d, e))

/-- Connection `d` takes a step of another thread, or one of its loop. -/
def mayStep (s : TcpServer) (d : Nat) (r : Accepted) : Label → Bool
  | .foreign .. => true
  | _ => !r.removing && s.loopFree d r

/-- A step, with the events of the connections. -/
def step (s : TcpServer) : ServerLabel → Option (TcpServer × List (Nat × Event))
  | .accept valid => (s.accept valid).map fun s' => (s', [])
  | .onAccept =>
    (s.accepted.getLast?.bind fun r => s.onAccept (s.accepted.length - 1) r).map fun s' => (s', [])
  | .connectEstablished d =>
    s.accepted[d]?.bind fun r =>
      if r.establishQueued ∧ r.rests ∧ s.loopFree d r then
        s.connection crc d { r with establishQueued := false, established := true }
          (.call .connectEstablished)
      else none
  | .connection d l =>
    s.accepted[d]?.bind fun r =>
      if r.established ∧ s.mayStep d r l then s.connection crc d r l else none
  | .removeConnection d =>
    (s.accepted[d]?.bind fun r => s.removeConnection crc d r).map fun s' => (s', [])
  | .connectDestroyed d =>
    s.accepted[d]?.bind fun r =>
      if r.destroyQueued ∧ r.rests ∧ s.loopFree d r then
        s.connection crc d { r with destroyQueued := false } (.call .connectDestroyed)
      else none

end TcpServer

end RocketRpc.Net
