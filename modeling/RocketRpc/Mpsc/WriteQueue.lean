import RocketRpc.Mpsc.MpscQueue
import RocketRpc.Net.TcpConnection

/-
  The cross-thread path of `TcpConnection::send` and `drainWriteQueue`
  (`rocket/net/tcp/tcp_connection.cc`), at the grain of the atomic operations.

  Foreign threads push onto `m_write_queue` and set `m_write_queued`; who sets it queues a
  drain on the loop. The loop runs one drain at a time. The queue underneath is
  `Shared`, with `pop` called by the drain. The connection is alive throughout, so that
  `weak.lock()` of the drain task succeeds; what else happens on the loop can change the
  state of the connection at any moment.
-/

namespace RocketRpc.Mpsc

open RocketRpc.Net (TcpState)

/-- Where a foreign thread is in `send`. -/
inductive SendPlace where
  | outside
  /-- Before `m_state.load`. -/
  | check
  /-- In `m_write_queue.push`. -/
  | pushing
  /-- Before the compare-exchange of `m_write_queued`. -/
  | arming
  /-- It has won the compare-exchange and is to call `queueInLoop`. -/
  | queueing
  deriving DecidableEq, Repr

/-- Where the loop is in `drainWriteQueue`; `messages` are the nodes whose data the round has
    kept. -/
inductive DrainPlace (ν : Type) where
  /-- `while (batch < 256)`. -/
  | batch (round batch : Nat) (messages : List ν)
  | popping (round batch : Nat) (messages : List ν)
  /-- A node is popped, before `m_state.load`. -/
  | test (round batch : Nat) (messages : List ν) (node : ν)
  /-- Before `sendInLoopBatch`. -/
  | send (round : Nat) (messages : List ν)
  /-- Before `m_write_queued.store(false)`. -/
  | clear
  /-- Before `m_write_queue.empty()`. -/
  | recheck
  | arming
  | queueing
  deriving DecidableEq, Repr

structure WriteQueue (ι ν : Type) where
  shared : Shared ι ν
  state : TcpState
  writeQueued : Bool
  senders : ι → SendPlace
  drain : Option (DrainPlace ν)
  /-- How many drains are queued on the loop. -/
  tasks : Nat

inductive WriteLabel (ι ν : Type) where
  /-- Thread `i` calls `send`. -/
  | call (i : ι)
  /-- `m_state.load`; a thread that is not turned away gets the node `n` for its message. -/
  | load (i : ι) (n : ν)
  /-- Thread `i` goes on. -/
  | go (i : ι)
  /-- The loop takes a drain task. -/
  | task
  /-- The drain goes on. -/
  | drain
  | state (s : TcpState)
  deriving DecidableEq, Repr

inductive WriteEvent (ν : Type) where
  | queue (e : Event ν)
  /-- `sendInLoopBatch(messages)`. -/
  | batch (messages : List ν)
  deriving DecidableEq, Repr

variable {ι ν : Type} [DecidableEq ι] [DecidableEq ν]

/-- `Closed` and `HalfClosing` turn a message away. -/
def rejects (s : TcpState) : Bool := s == .halfClosing || s == .closed

namespace WriteQueue

def new : WriteQueue ι ν :=
  { shared := Shared.new, state := .notConnected, writeQueued := false,
    senders := fun _ => .outside, drain := none, tasks := 0 }

def setSender (w : WriteQueue ι ν) (i : ι) (place : SendPlace) : WriteQueue ι ν :=
  { w with senders := Function.update w.senders i place }

def setDrain (w : WriteQueue ι ν) (place : Option (DrainPlace ν)) : WriteQueue ι ν :=
  { w with drain := place }

def setShared (w : WriteQueue ι ν) (s : Shared ι ν) : WriteQueue ι ν := { w with shared := s }

/-- `queueInLoop` of a drain. -/
def queueDrain (w : WriteQueue ι ν) : WriteQueue ι ν := { w with tasks := w.tasks + 1 }

/-- A step of the queue underneath. -/
def queueStep (w : WriteQueue ι ν) (l : Label ι ν) :
    Option (WriteQueue ι ν × List (WriteEvent ν)) :=
  (w.shared.step l).map fun r => (w.setShared r.1, r.2.map .queue)

/-- One operation of `send` after the check. -/
def goOn (w : WriteQueue ι ν) (i : ι) :
    SendPlace → Option (WriteQueue ι ν × List (WriteEvent ν))
  | .outside => none
  | .check => none
  | .pushing =>
    (w.queueStep (.produce i)).map fun r =>
      (if r.1.shared.producers i = none then r.1.setSender i .arming else r.1, r.2)
  | .arming =>
    if w.writeQueued then some (w.setSender i .outside, [])
    else some (({ w with writeQueued := true } : WriteQueue ι ν).setSender i .queueing, [])
  | .queueing => some (w.queueDrain.setSender i .outside, [])

/-- The result of the last step of `pop`. -/
def popResult (es : List (WriteEvent ν)) : Option (Option (MpscNode ν)) :=
  es.findSome? fun
    | .queue (.popped result) => some result
    | _ => none

/-- Where the drain goes with what `pop` returned. -/
def afterPop (round batch : Nat) (messages : List ν) :
    Option (Option (MpscNode ν)) → DrainPlace ν
  | none => .popping round batch messages
  | some (some (.typed n)) => .test round batch messages n
  | some _ => .send round messages

/-- One operation of `drainWriteQueue`, of three rounds of at most 256 messages. -/
def drainStep (w : WriteQueue ι ν) :
    DrainPlace ν → Option (WriteQueue ι ν × List (WriteEvent ν))
  | .batch round batch messages =>
    if batch < 256 then
      (w.queueStep .pop).map fun r => (r.1.setDrain (some (.popping round batch messages)), r.2)
    else some (w.setDrain (some (.send round messages)), [])
  | .popping round batch messages =>
    (w.queueStep .consume).map fun r =>
      (r.1.setDrain (some (afterPop round batch messages (popResult r.2))), r.2)
  | .test round batch messages node =>
    let messages := if w.state = .connected then messages ++ [node] else messages
    some (w.setDrain (some (.batch round (batch + 1) messages)), [])
  | .send round messages =>
    some (w.setDrain (some (if round + 1 < 3 then .batch (round + 1) 0 [] else .clear)),
      if messages.isEmpty then [] else [.batch messages])
  | .clear => some (({ w with writeQueued := false } : WriteQueue ι ν).setDrain (some .recheck), [])
  | .recheck =>
    some (w.setDrain (if w.shared.queue.empty then none else some .arming), [])
  | .arming =>
    if w.writeQueued then some (w.setDrain none, [])
    else some (({ w with writeQueued := true } : WriteQueue ι ν).setDrain (some .queueing), [])
  | .queueing => some (w.queueDrain.setDrain none, [])

def step (w : WriteQueue ι ν) : WriteLabel ι ν → Option (WriteQueue ι ν × List (WriteEvent ν))
  | .call i => if w.senders i = .outside then some (w.setSender i .check, []) else none
  | .load i n =>
    if w.senders i = .check then
      if rejects w.state then some (w.setSender i .outside, [])
      else (w.queueStep (.push i n)).map fun r => (r.1.setSender i .pushing, r.2)
    else none
  | .go i => w.goOn i (w.senders i)
  | .task =>
    if w.drain = none ∧ 0 < w.tasks then
      some (({ w with tasks := w.tasks - 1 } : WriteQueue ι ν).setDrain (some (.batch 0 0 [])), [])
    else none
  | .drain => w.drain.bind w.drainStep
  | .state s => some ({ w with state := s }, [])

end WriteQueue

/-- The events of the queue. -/
def queueEvents (es : List (WriteEvent ν)) : List (Event ν) :=
  es.filterMap fun
    | .queue e => some e
    | .batch _ => none

omit [DecidableEq ν] in
@[simp] theorem queueEvents_append (es fs : List (WriteEvent ν)) :
    queueEvents (es ++ fs) = queueEvents es ++ queueEvents fs := List.filterMap_append

omit [DecidableEq ν] in
@[simp] theorem queueEvents_map (es : List (Event ν)) : queueEvents (es.map .queue) = es := by
  induction es with
  | nil => rfl
  | cons e es ih => exact congrArg (e :: ·) ih

end RocketRpc.Mpsc
