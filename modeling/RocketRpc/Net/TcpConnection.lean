import Mathlib.Logic.Function.Basic
import RocketRpc.Coder.TinyPBCoder

/-
  A connection and the loop that owns it (`rocket/net/tcp/tcp_connection.cc`).

  The functions of `TcpConnection` that run on the loop call back into their owner, which
  may call the connection again. So a function of the sources is cut where it calls back or
  goes on after a system call whose outcome matters to other threads: what is left of it is
  a `Frame` on the stack of the loop. The results of the `readv` and `writev` calls of one
  loop are a list that comes with the step. Other threads push messages and queue tasks,
  one atomic operation at a time.
-/

namespace RocketRpc.Net

open RocketRpc.Tcp RocketRpc.Coder

abbrev ThreadId := Nat

def kMaxReadPerRound : Nat := 64 * 1024

def kDefaultBufferSize : Nat := 1024

/-- `EISCONN` of `errno.h`. -/
def EISCONN : Nat := 106

inductive TcpState where
  | notConnected
  | connected
  | halfClosing
  | closed
  deriving DecidableEq, Repr

/-- What `OUT_EVENT` calls: `handleWrite`, or `finish` of `connectInProgress`, whose callback
    may be null. -/
inductive WriteCallback where
  | handleWrite
  | finish (cb : Bool)
  deriving DecidableEq, Repr

inductive ErrorCallback where
  | handleError
  | finish (cb : Bool)
  deriving DecidableEq, Repr

/-- `FdEvent`; `IN_EVENT` can only call `handleRead`. The poller listens to what has a
    callback. -/
structure FdEvent where
  readCallback : Bool := false
  writeCallback : Option WriteCallback := none
  errorCallback : Option ErrorCallback := none
  deriving DecidableEq, Repr

/-- A node of the write queue. Its place is taken by the exchange of the tail; `linked` says
    that the node before it points to it. -/
structure Node where
  sender : ThreadId
  message : AbstractProtocol
  linked : Bool
  deriving DecidableEq, Repr

/-- The callbacks of the owner that are set. -/
structure Callbacks where
  message : Bool
  connection : Bool
  close : Bool
  writeComplete : Bool
  highWaterMark : Bool
  deriving DecidableEq, Repr

structure TcpConnection where
  state : TcpState := .notConnected
  fdEvent : FdEvent := {}
  inBuffer : TcpBuffer := TcpBuffer.new kDefaultBufferSize
  outBuffer : TcpBuffer := TcpBuffer.new kDefaultBufferSize
  callbacks : Callbacks
  highWaterMark : Nat := 0
  sendingAboveHwm : Bool := false
  inFlight : Int := 0
  writeQueue : List Node := []
  writeQueued : Bool := false
  flushQueued : Bool := false
  deferOutputFlush : Bool := false
  directOutputFlush : Bool := false
  /-- `shutdown(fd, SHUT_WR)` was called. -/
  writeShut : Bool := false

/-- What the loop has still to do when a callback returns. -/
inductive Frame where
  /-- A callback of the owner is running. -/
  | user
  /-- `sendInLoopBatch` behind its high-water check. -/
  | sendFlush
  /-- `flushOutputInLoop`, and `updateWriteInterest` with its result. -/
  | flush
  /-- `updateWriteInterest(true)` behind the write-complete callback. -/
  | writeCompleted
  /-- `handleRead` behind the message callback. -/
  | restoreDefer (previous : Bool)
  /-- `drainWriteQueue` at its next `pop`. -/
  | drain (round batch : Nat) (messages : List AbstractProtocol)
  /-- `drainWriteQueue` behind its store to `m_write_queued`. -/
  | drainCheck
  | drainArm
  | drainQueue
  /-- `finish` of `connectInProgress` behind `connectEstablished`. -/
  | connectDone (cb : Bool)
  deriving DecidableEq, Repr

/-- The tasks of the connection in the queue of the loop. -/
inductive Task where
  | drain
  | flush
  | shutdown
  deriving DecidableEq, Repr

/-- Where a thread other than the loop is in `send`. -/
inductive Sender where
  | idle
  | pushing (message : AbstractProtocol)
  | linking
  | arming
  | queueing
  deriving DecidableEq, Repr

structure World where
  conn : TcpConnection
  stack : List Frame := []
  tasks : List Task := []
  senders : ThreadId → Sender := fun _ => .idle

/-- Why a connection closes. -/
inductive Why where
  | eof
  | readError (error : Errno)
  | decode
  | encode
  | writeError (error : Errno)
  /-- The last bytes of a connection that is shut down are written. -/
  | drained
  | fdError
  | connectFailed
  | destroyed
  deriving DecidableEq, Repr

inductive Callback where
  | connection
  | close
  | writeComplete
  | highWaterMark (readAble : Nat)
  | connect (errorCode : Nat)
  deriving DecidableEq, Repr

inductive Event where
  /-- A batch was encoded; these are its messages as `encode` leaves them. -/
  | encoded (messages : List AbstractProtocol)
  /-- The kernel accepted bytes. -/
  | accepted (bytes : Bytes)
  /-- The message callback was called. -/
  | delivered (messages : List TinyPBProtocol)
  | closed (why : Why)
  | called (callback : Callback)
  deriving DecidableEq, Repr

/-- What code on the loop, in a callback or outside of one, can ask of the connection; a null
    message is `none`. -/
inductive Call where
  | send (message : Option AbstractProtocol)
  | shutdown
  | connectEstablished
  | connectInProgress (cb : Bool)
  | connectDestroyed
  | incrInFlight
  | decrInFlight
  | setDirectOutputFlush (enabled : Bool)
  deriving DecidableEq, Repr

/-- What another thread does next. -/
inductive Foreign where
  | send (message : Option AbstractProtocol)
  | shutdown
  | incrInFlight
  | decrInFlight
  /-- The next operation of a `send` under way. -/
  | goOn
  deriving DecidableEq, Repr

inductive Label where
  /-- `IN_EVENT`, with what the `readv` calls return. -/
  | readable (results : List (Except Errno Bytes))
  /-- `OUT_EVENT`; `soError` is what `getsockopt` tells a connect under way. -/
  | writable (soError : Nat)
  | error (soError : Nat)
  | task
  | call (c : Call)
  /-- A callback of the owner returns. -/
  | returns
  /-- The loop goes on with the frame on top; `results` is what the `writev` calls return,
      and `sees` whether a `pop` sees past a push that is half done. -/
  | resume (results : List (Except Errno Nat)) (sees : Bool)
  | foreign (t : ThreadId) (f : Foreign)

namespace MpscQueue

/-- `pop()`. While a push behind the first node is half done, `pop` finds the node or not. -/
def pop (queue : List Node) (sees : Bool) : Option (Node × List Node) :=
  match queue with
  | [] => none
  | node :: rest =>
    if node.linked && (sees || rest.head?.all (·.linked)) then some (node, rest) else none

/-- `empty()` does not see a push that is half done. -/
def empty (queue : List Node) : Bool :=
  match queue with
  | [] => true
  | node :: _ => !node.linked

end MpscQueue

/-! ## The loops of system calls -/

inductive ReadEnd where
  /-- A short read, or nothing to read. -/
  | drained
  | closed
  | failed (error : Errno)
  deriving DecidableEq, Repr

/-- The room that `handleRead` makes before a read. -/
def makeReadable (b : TcpBuffer) : TcpBuffer :=
  if b.writeAble = 0 then b.resizeBuffer (min (b.capacity * 2) kMaxBufferSize) else b

/-- `readv` returns no more than there is room for. -/
def readvFits (b : TcpBuffer) : Except Errno Bytes → Bool
  | .ok data => data.length ≤ b.readvLimit
  | .error _ => true

/-- The loop of `handleRead` over the results of its `readv` calls, all of which it takes. -/
def readLoop (b : TcpBuffer) : List (Except Errno Bytes) → Option (ReadEnd × TcpBuffer)
  | [] => none
  | result :: results =>
    if !readvFits (makeReadable b) result then none
    else
      match (makeReadable b).readFromFd result with
      | (.ok n, b') =>
        if n = 0 then if results = [] then some (.closed, b') else none
        else if n < kMaxReadPerRound then if results = [] then some (.drained, b') else none
        else readLoop b' results
      | (.error e, b') =>
        if e = .EINTR then readLoop b' results
        else if e = .EAGAIN ∨ e = .EWOULDBLOCK then
          if results = [] then some (.drained, b') else none
        else if results = [] then some (.failed e, b') else none

inductive FlushEnd where
  /-- Everything is written, or the kernel takes no more for now. -/
  | stopped
  | failed (error : Errno)
  deriving DecidableEq, Repr

/-- The loop of `flushOutputInLoop` over the results of its `writev` calls, all of which it
    takes: how it ends, the buffer, and the bytes the kernel took. -/
def flushLoop (b : TcpBuffer) :
    List (Except Errno Nat) → Option (FlushEnd × TcpBuffer × Bytes)
  | [] => if b.readAble = 0 then some (.stopped, b, []) else none
  | result :: results =>
    if b.readAble = 0 then none
    else
      match result with
      | .ok n =>
        -- `writev` takes no more than it is offered
        if b.readAble < n then none
        else if n = 0 then if results = [] then some (.stopped, b, []) else none
        else
          (flushLoop (b.writeToFd (.ok n)).2 results).map fun r =>
            (r.1, r.2.1, b.readable.take n ++ r.2.2)
      | .error e =>
        if e = .EINTR then flushLoop b results
        else if e = .EAGAIN ∨ e = .EWOULDBLOCK then
          if results = [] then some (.stopped, b, []) else none
        else if results = [] then some (.failed e, b, []) else none

namespace TcpConnection

def isListeningOut (c : TcpConnection) : Bool := c.fdEvent.writeCallback.isSome

/-- New messages are turned away. -/
def rejects (c : TcpConnection) : Bool := c.state == .halfClosing || c.state == .closed

/-- Reads and flushes are done. -/
def isOpen (c : TcpConnection) : Bool := c.state == .connected || c.state == .halfClosing

end TcpConnection

namespace World

variable (crc : Bytes → UInt32)

def push (w : World) (frames : List Frame) : World := { w with stack := frames ++ w.stack }

/-- One function after another, with the events of both. -/
def andThen (r : World × List Event) (f : World → World × List Event) : World × List Event :=
  ((f r.1).1, r.2 ++ (f r.1).2)

def setInBuffer (w : World) (b : TcpBuffer) : World :=
  { w with conn := { w.conn with inBuffer := b } }

def setOutBuffer (w : World) (b : TcpBuffer) : World :=
  { w with conn := { w.conn with outBuffer := b } }

def clearCallbacks (w : World) : World := { w with conn := { w.conn with fdEvent := {} } }

/-- The state is set to `Closed` and the callbacks of the descriptor are cleared. -/
def close (w : World) (why : Why) : World × List Event :=
  ({ w with conn := { w.conn with state := .closed, fdEvent := {} } },
    if w.conn.state = .closed then [] else [.closed why])

def handleClose (w : World) (why : Why) : World × List Event :=
  if w.conn.state = .closed then (w, [])
  else if w.conn.callbacks.close then
    andThen (w.close why) fun w => (w.push [.user], [.called .close])
  else w.close why

def scheduleOutputFlush (w : World) : World :=
  if w.conn.flushQueued || w.conn.isListeningOut then w
  else { w with conn := { w.conn with flushQueued := true }, tasks := w.tasks ++ [.flush] }

def sendInLoopBatch (w : World) (messages : List AbstractProtocol) : World × List Event :=
  if w.conn.rejects then (w, [])
  else if messages = [] then (w, [])
  else
    let r := encode crc messages w.conn.outBuffer
    let w := w.setOutBuffer r.2.2
    if !r.1 then w.handleClose .encode
    else if 0 < w.conn.highWaterMark && w.conn.highWaterMark ≤ w.conn.outBuffer.readAble &&
        !w.conn.sendingAboveHwm then
      let w := { w with conn := { w.conn with sendingAboveHwm := true } }
      if w.conn.callbacks.highWaterMark then
        (w.push [.user, .sendFlush],
          [.encoded r.2.1, .called (.highWaterMark w.conn.outBuffer.readAble)])
      else (w.push [.sendFlush], [.encoded r.2.1])
    else (w.push [.sendFlush], [.encoded r.2.1])

/-- The end of `sendInLoopBatch`: flush directly, or once for all that is encoded before. -/
def sendFlush (w : World) : World :=
  if w.conn.directOutputFlush && !w.conn.deferOutputFlush && !w.conn.flushQueued &&
      !w.conn.isListeningOut then w.push [.flush]
  else w.scheduleOutputFlush

/-- The buffer is below the high-water mark again. -/
def recoverMark (w : World) : World :=
  if w.conn.sendingAboveHwm && w.conn.outBuffer.readAble < w.conn.highWaterMark then
    { w with conn := { w.conn with sendingAboveHwm := false } }
  else w

/-- The end of `updateWriteInterest`, behind the write-complete callback. -/
def writeCompleted (w : World) (allWritten : Bool) : World × List Event :=
  if allWritten && w.conn.state == .halfClosing && w.conn.inFlight == 0 then
    w.recoverMark.handleClose .drained
  else (w.recoverMark, [])

def setWriteCallback (w : World) (callback : Option WriteCallback) : World :=
  { w with conn := { w.conn with fdEvent := { w.conn.fdEvent with writeCallback := callback } } }

def disableWriting (w : World) : World :=
  if w.conn.isListeningOut then w.setWriteCallback none else w

def enableWriting (w : World) : World :=
  if w.conn.isListeningOut then w else w.setWriteCallback (some .handleWrite)

def updateWriteInterest (w : World) (allWritten : Bool) : World × List Event :=
  if allWritten then
    if w.conn.callbacks.writeComplete then
      (w.disableWriting.push [.user, .writeCompleted], [.called .writeComplete])
    else w.disableWriting.writeCompleted true
  else w.enableWriting.writeCompleted false

/-- `flushOutputInLoop`, and `updateWriteInterest` unless the connection is closed then. -/
def flush (w : World) (results : List (Except Errno Nat)) : Option (World × List Event) :=
  (flushLoop w.conn.outBuffer results).map fun (ended, out, bytes) =>
    andThen (w.setOutBuffer out, [.accepted bytes]) fun w =>
      match ended with
      | .failed e => w.handleClose (.writeError e)
      | .stopped =>
        if w.conn.state = .closed then (w, [])
        else w.updateWriteInterest (w.conn.outBuffer.readAble == 0)

/-- `handleWrite`, and the body of the flush task. -/
def handleWrite (w : World) : World := if w.conn.isOpen then w.push [.flush] else w

/-- What `handleRead` does with the bytes it has read. -/
def decodeInput (w : World) : World × List Event :=
  let r := decode crc w.conn.inBuffer
  let w := w.setInBuffer r.2
  if r.1.fatal then w.handleClose .decode
  else if r.1.messages ≠ [] && w.conn.callbacks.message then
    if w.conn.directOutputFlush then
      let previous := w.conn.deferOutputFlush
      let w := { w with conn := { w.conn with deferOutputFlush := 1 < r.1.messages.length } }
      (w.push [.user, .restoreDefer previous], [.delivered r.1.messages])
    else (w.push [.user], [.delivered r.1.messages])
  else (w, [])

def handleRead (w : World) (results : List (Except Errno Bytes)) :
    Option (World × List Event) :=
  if !w.conn.isOpen then some (w, [])
  else
    (readLoop w.conn.inBuffer results).map fun (ended, b) =>
      let w := w.setInBuffer b
      match ended with
      | .failed e => w.handleClose (.readError e)
      | .closed => w.handleClose .eof
      | .drained => w.decodeInput crc

def shutdownInLoop (w : World) : World :=
  if w.conn.state = .closed then w
  else
    { w with conn := { w.conn with
        state := .halfClosing
        writeShut := w.conn.writeShut || w.conn.outBuffer.readAble == 0 } }

def connectEstablished (w : World) : World × List Event :=
  if w.conn.state ≠ .notConnected then (w, [])
  else
    let w := { w with conn := { w.conn with
      state := .connected
      fdEvent := { w.conn.fdEvent with
        readCallback := true
        errorCallback := some .handleError } } }
    if w.conn.callbacks.connection then (w.push [.user], [.called .connection]) else (w, [])

/-- A connect callback, if it is not null. -/
def connectCallback (w : World) (cb : Bool) (errorCode : Nat) : World × List Event :=
  if cb then (w.push [.user], [.called (.connect errorCode)]) else (w, [])

def connectInProgress (w : World) (cb : Bool) : World × List Event :=
  if w.conn.state ≠ .notConnected then w.connectCallback cb EISCONN
  else
    ({ w with conn := { w.conn with fdEvent := { w.conn.fdEvent with
        writeCallback := some (.finish cb)
        errorCallback := some (.finish cb) } } }, [])

/-- `finish` of `connectInProgress`. It is dropped with the callbacks it clears, so its flag
    `completed` turns no call away. -/
def finish (w : World) (cb : Bool) (soError : Nat) : World × List Event :=
  if soError ≠ 0 then
    andThen (w.clearCallbacks.close .connectFailed) fun w => w.connectCallback cb soError
  else (w.clearCallbacks.push [.connectDone cb]).connectEstablished

/-- `drainWriteQueue` at a `pop`, in one of its three rounds of at most 256 messages. -/
def drain (w : World) (round batch : Nat) (messages : List AbstractProtocol) (sees : Bool) :
    World × List Event :=
  if round = 3 then
    ({ w with conn := { w.conn with writeQueued := false } }.push [.drainCheck], [])
  else
    match (if batch < 256 then MpscQueue.pop w.conn.writeQueue sees else none) with
    | some (node, rest) =>
      let messages :=
        if w.conn.state = .connected then messages ++ [node.message] else messages
      ({ w with conn := { w.conn with writeQueue := rest } }.push
        [.drain round (batch + 1) messages], [])
    | none => (w.push [.drain (round + 1) 0 []]).sendInLoopBatch crc messages

/-- The end of `drainWriteQueue`: what was pushed since the last `pop` is drained again. -/
def drainCheck (w : World) : World :=
  if MpscQueue.empty w.conn.writeQueue then w else w.push [.drainArm]

def drainArm (w : World) : World :=
  if w.conn.writeQueued then w
  else { w with conn := { w.conn with writeQueued := true } }.push [.drainQueue]

def drainQueue (w : World) : World := { w with tasks := w.tasks ++ [.drain] }

def call (w : World) : Call → World × List Event
  | .send none => (w, [])
  | .send (some message) =>
    if w.conn.rejects then (w, []) else w.sendInLoopBatch crc [message]
  | .shutdown => (w.shutdownInLoop, [])
  | .connectEstablished => w.connectEstablished
  | .connectInProgress cb => w.connectInProgress cb
  | .connectDestroyed => w.close .destroyed
  | .incrInFlight => ({ w with conn := { w.conn with inFlight := w.conn.inFlight + 1 } }, [])
  | .decrInFlight => ({ w with conn := { w.conn with inFlight := w.conn.inFlight - 1 } }, [])
  | .setDirectOutputFlush enabled =>
    ({ w with conn := { w.conn with directOutputFlush := enabled } }, [])

/-- The body of a task; for the flush task also the flag it resets. -/
def runTask (w : World) : Task → World
  | .drain => w.push [.drain 0 0 []]
  | .flush => { w with conn := { w.conn with flushQueued := false } }.handleWrite
  | .shutdown => w.shutdownInLoop

def resume (w : World) (results : List (Except Errno Nat)) (sees : Bool) :
    Frame → Option (World × List Event)
  | .user => none
  | .sendFlush => some (w.sendFlush, [])
  | .flush => w.flush results
  | .writeCompleted => some (w.writeCompleted true)
  | .restoreDefer previous =>
    some ({ w with conn := { w.conn with deferOutputFlush := previous } }, [])
  | .drain round batch messages => some (w.drain crc round batch messages sees)
  | .drainCheck => some (w.drainCheck, [])
  | .drainArm => some (w.drainArm, [])
  | .drainQueue => some (w.drainQueue, [])
  | .connectDone cb => some (w.connectCallback cb 0)

def setSender (w : World) (t : ThreadId) (sender : Sender) : World :=
  { w with senders := Function.update w.senders t sender }

/-- The link store of `push`, by the thread that put the node there. -/
def link (t : ThreadId) (node : Node) : Node :=
  if node.sender = t then { node with linked := true } else node

/-- Another thread: `send` pushes its message, and the first of a batch queues a drain. -/
def foreign (w : World) (t : ThreadId) : Sender → Foreign → Option World
  | .idle, .send none => some w
  | .idle, .send (some message) =>
    if w.conn.rejects then some w else some (w.setSender t (.pushing message))
  | .idle, .shutdown => some { w with tasks := w.tasks ++ [.shutdown] }
  | .idle, .incrInFlight =>
    some { w with conn := { w.conn with inFlight := w.conn.inFlight + 1 } }
  | .idle, .decrInFlight =>
    some { w with conn := { w.conn with inFlight := w.conn.inFlight - 1 } }
  | .pushing message, .goOn =>
    some ({ w with conn := { w.conn with
      writeQueue := w.conn.writeQueue ++ [(⟨t, message, false⟩ : Node)] } }.setSender t .linking)
  | .linking, .goOn =>
    some ({ w with conn := { w.conn with
      writeQueue := w.conn.writeQueue.map (link t) } }.setSender t .arming)
  | .arming, .goOn =>
    if w.conn.writeQueued then some (w.setSender t .idle)
    else some ({ w with conn := { w.conn with writeQueued := true } }.setSender t .queueing)
  | .queueing, .goOn => some ({ w with tasks := w.tasks ++ [Task.drain] }.setSender t .idle)
  | _, _ => none

/-- The loop is in a callback of the owner, or in none of the connection's functions. -/
def inUserCode (w : World) : Bool := w.stack.head?.all (· == .user)

def step (w : World) : Label → Option (World × List Event)
  | .readable results =>
    if w.stack ≠ [] then none
    else if w.conn.fdEvent.readCallback then w.handleRead crc results
    else some (w, [])
  | .writable soError =>
    if w.stack ≠ [] then none
    else
      match w.conn.fdEvent.writeCallback with
      | none => some (w, [])
      | some .handleWrite => some (w.handleWrite, [])
      | some (.finish cb) => some (w.finish cb soError)
  | .error soError =>
    if w.stack ≠ [] then none
    else
      match w.conn.fdEvent.errorCallback with
      | none => some (w, [])
      | some .handleError => some (w.handleClose .fdError)
      | some (.finish cb) => some (w.finish cb soError)
  | .task =>
    match w.stack, w.tasks with
    | [], task :: tasks => some ({ w with tasks }.runTask task, [])
    | _, _ => none
  | .call c => if w.inUserCode then some (w.call crc c) else none
  | .returns =>
    match w.stack with
    | .user :: stack => some ({ w with stack }, [])
    | _ => none
  | .resume results sees =>
    match w.stack with
    | frame :: stack => { w with stack }.resume crc results sees frame
    | [] => none
  | .foreign t f => (w.foreign t (w.senders t) f).map fun w' => (w', [])

end World

end RocketRpc.Net
