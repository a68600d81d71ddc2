import RocketRpc.Net.ArmedOutput
import RocketRpc.Net.MessageAccount
import RocketRpc.Rpc.RpcDispatcher

/-
  A dispatcher and one of the connections it serves.

  What the dispatcher asks of the connection is a step of the connection, by the loop or by
  the thread that runs the closure. Everything else that happens to the connection,
  `shutdown` included, is a step of its own. Two lists watch the run: the requests that were
  counted in time, and the responses that their closures passed to `send`.
-/

namespace RocketRpc.Rpc

open RocketRpc.Tcp RocketRpc.Coder Machine

structure Serving where
  dispatcher : RpcDispatcher
  tracked : Net.Tracked
  /-- The requests that were counted on the established connection before anybody called
      `shutdown`. -/
  accepted : List Nat := []
  /-- The responses that closures of these requests passed to `send`, with the numbers they
      have in the account; `none` where `send` turned one away. -/
  responses : List (Option Net.Sent) := []

inductive ServingLabel where
  | connection (l : Net.Label)
  /-- A step of the dispatcher, on the loop of the connection (`none`) or on another thread. -/
  | dispatcher (thread : Option Net.ThreadId) (l : DispatchLabel)

/-- A call on the connection, by the loop or by another thread. -/
def onThread (thread : Option Net.ThreadId) (call : Net.Call) (foreign : Net.Foreign) :
    Net.Label :=
  match thread with
  | none => .call call
  | some t => .foreign t foreign

/-- What an event of the dispatcher is to connection `c`. -/
def onConnection (c : ConnId) (thread : Option Net.ThreadId) : DispatchEvent → Option Net.Label
  | .incrInFlight _ c' => if c' = c then some (onThread thread .incrInFlight .incrInFlight) else none
  | .decrInFlight _ c' => if c' = c then some (onThread thread .decrInFlight .decrInFlight) else none
  | .sent _ c' message =>
    if c' = c then
      some (onThread thread (.send (some (.tinyPB message))) (.send (some (.tinyPB message))))
    else none

namespace Serving

variable (g : Registry) (c : ConnId) (crc : Bytes → UInt32)

def new (workerThreads maxPendingTasks : Nat) (callbacks : Net.Callbacks) (highWaterMark : Nat) :
    Serving :=
  { dispatcher := .new workerThreads maxPendingTasks
    tracked := ⟨Net.World.new callbacks highWaterMark, {}⟩ }

/-- The connection is established, and nobody has called `shutdown`. -/
def inTime (x : Serving) : Bool :=
  x.tracked.world.conn.state == .connected && !x.tracked.account.shut

def accept (x : Serving) : List DispatchEvent → List Nat
  | [.incrInFlight d c'] => if c' = c ∧ x.inTime then x.accepted ++ [d] else x.accepted
  | _ => x.accepted

/-- The response that a closure of an accepted request passes to `send`. -/
def replies (x : Serving) : DispatchLabel → Option TinyPBProtocol
  | .reply d ok data =>
    x.dispatcher.dispatches[d]?.bind fun r =>
      if d ∈ x.accepted ∧ r.conn = c then some (serialized r.response ok data) else none
  | _ => none

def respond (x : Serving) (l : DispatchLabel) : List (Option Net.Sent) :=
  match x.replies c l with
  | some message =>
    x.responses ++ [if x.tracked.world.conn.rejects then none
      else some ⟨x.tracked.account.next, .tinyPB message⟩]
  | none => x.responses

def step (x : Serving) : ServingLabel → Option (Serving × List Net.Event)
  | .connection l => (x.tracked.step crc l).map fun r => ({ x with tracked := r.1 }, r.2)
  | .dispatcher thread l =>
    (x.dispatcher.step g l).bind fun (dispatcher, es) =>
      (run (Net.Tracked.step crc) x.tracked (es.filterMap (onConnection c thread))).map fun r =>
        ({ dispatcher, tracked := r.1, accepted := x.accept c es, responses := x.respond c l }, r.2)

end Serving

end RocketRpc.Rpc
