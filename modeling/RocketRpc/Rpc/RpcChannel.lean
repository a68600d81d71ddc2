import RocketRpc.Lib.Machine
import RocketRpc.Rpc.RpcController
import Mathlib.Logic.Function.Basic

/-
  One call of an `RpcChannel` (`rocket/net/rpc/rpc_channel.cc`), with every thread that has a
  part in it.

  A thread is the list of the operations it has still to do, and, while it is inside
  `finishRpc` after its compare-exchange, the stage it has reached there. Every atomic
  operation, every critical section and every write to an object of the caller is one step;
  a label says which thread takes it and what came back from outside. The timer, the table
  of read callbacks and the connection start threads of their own, any number of them.
  Whether and how a response parses is a parameter, as protobuf is not part of the sources.
-/

namespace RocketRpc.Rpc

open RocketRpc.Tcp RocketRpc.Coder

abbrev ThreadId := Nat

/-- The thread that calls `CallMethod` or `CallMethodBlocking`. -/
def caller : ThreadId := 0

/-- What is not null, and for the controller also an `RpcController`. -/
structure Arguments where
  method : Bool
  controller : Bool
  request : Bool
  response : Bool
  deriving DecidableEq, Repr

/-- The argument check of `callMethodInternal`. -/
def Arguments.passes (a : Arguments) : Bool :=
  a.controller && a.method && a.request && a.response

structure RpcChannel where
  /-- `m_peer_addr` is not null. -/
  peerAddr : Bool
  pool : Bool
  registry : Bool
  serviceName : Bytes
  deriving DecidableEq, Repr

/-- What ends a call before its request is sent. -/
inductive PreSend where
  | noInstance (service : Bytes)
  | peerAddr
  | poolExhausted
  | failedSerialize
  deriving DecidableEq, Repr

/-- The choice of a client; `found` is the answer of the pool. -/
def RpcChannel.acquire (ch : RpcChannel) (found : Bool) : Except PreSend Unit :=
  if ch.pool && ch.registry && !ch.serviceName.isEmpty then
    if found then .ok () else .error (.noInstance ch.serviceName)
  else if !ch.peerAddr then .error .peerAddr
  else if ch.pool then
    if found then .ok () else .error .poolExhausted
  else .ok ()

/-- The callers of `finishRpc`. -/
inductive Finisher where
  | preSend (error : PreSend)
  | connect
  | response (msg : AbstractProtocol)
  | timer
  | localTimeout
  deriving DecidableEq, Repr

inductive Closure where
  | null
  /-- A closure of the caller of `CallMethod`. -/
  | user
  /-- The closure of `CallMethodBlocking`, which sets its wait flag. -/
  | blocking
  deriving DecidableEq, Repr

inductive Call where
  | callMethod (done : Bool)
  | callMethodBlocking (timeoutMs : Int)
  deriving DecidableEq, Repr

def Call.closure : Call → Closure
  | .callMethod false => .null
  | .callMethod true => .user
  | .callMethodBlocking _ => .blocking

structure RequestState where
  finished : Bool := false
  done : Closure
  /-- `client` is not null. -/
  client : Bool := false
  /-- `timer` is not null. -/
  timer : Bool := false
  msgId : Bytes := []
  deriving DecidableEq, Repr

/-- The client of the call, as far as the call sees it. -/
structure TcpClient where
  /-- `connect` was called and has not called back. -/
  connecting : Bool := false
  connectErrorCode : Int32 := 0
  connectErrorInfo : Bytes := []
  /-- The callback of the call is in `m_read_callbacks`. -/
  readCallback : Bool := false
  deriving DecidableEq, Repr

inductive Op (Message : Type) where
  -- callMethodInternal
  | acquire
  | setMsgId
  | serialize
  | addTimer
  | start
  -- the callback of TcpClient::connect
  | connected
  -- doSendRead
  | checkFinished
  | readMessage
  | recheckFinished
  | send
  | finishRpc (finisher : Finisher)
  -- CallMethodBlocking
  | waitFor
  | wait
  | ret (localTimeout : Bool)

/-- Where a winner of the compare-exchange is in `finishRpc`. -/
inductive Stage (Message : Type) where
  | dropTimer
  | cancelRead
  | beforeDone
  | writing (writes : List (Write Message))
  | runDone

structure Thread (Message : Type) where
  finishing : Option (Finisher × Stage Message) := none
  code : List (Op Message) := []

structure World (Message : Type) where
  args : Arguments
  channel : RpcChannel
  state : RequestState
  client : TcpClient := {}
  /-- The timer is in the loop; it was neither cancelled nor did it fire. -/
  armed : Bool := false
  controller : RpcController
  response : Message
  /-- The flag `done` of `CallMethodBlocking`. -/
  waitDone : Bool := false
  threads : ThreadId → Thread Message := fun _ => {}

/-- What comes back from outside to an operation. -/
inductive Input where
  | none
  | found (client : Bool)
  | generated (msgId : Bytes)
  | serialized (ok : Bool)
  | timeout
  deriving DecidableEq, Repr

inductive Label where
  | thread (t : ThreadId) (input : Input)
  | timerFires (t : ThreadId)
  | responseArrives (t : ThreadId) (msg : AbstractProtocol)
  | connectReturns (t : ThreadId) (errorCode : Int32) (errorInfo : Bytes)
  /-- Another call takes the entry of the message id over, or the client stops. -/
  | readReplaced

inductive Event (Message : Type) where
  | won (t : ThreadId) (finisher : Finisher)
  | wrote (t : ThreadId) (finisher : Finisher) (write : Write Message)
  | ran (t : ThreadId) (finisher : Finisher)
  | returned (code : Int32)
  deriving DecidableEq, Repr

variable {Message : Type}

def PreSend.writes : PreSend → List (Write Message)
  | .noInstance service =>
    setError error.kRpcPoolExhausted (text "no available instance for " ++ service)
  | .peerAddr => setError error.kRpcPeerAddr (text "peer addr nullptr")
  | .poolExhausted => setError error.kRpcPoolExhausted (text "connection pool exhausted")
  | .failedSerialize => setError error.kFailedSerialize (text "failed to serialize")

namespace World

/-- The argument `before_done` of `finishRpc`, as the writes it does. -/
def beforeDone (parse : Bytes → Message × Bool) (w : World Message) :
    Finisher → List (Write Message)
  | .preSend error => error.writes
  | .connect => setError w.client.connectErrorCode w.client.connectErrorInfo
  | .response .other =>
    setError error.kFailedDeserialize (text "invalid RPC response protocol")
  | .response (.tinyPB msg) =>
    if msg.errCode != 0 then setError msg.errCode msg.errInfo
    else
      .response (parse msg.pbData).1 ::
        if (parse msg.pbData).2 then []
        else setError error.kFailedDeserialize (text "response deserialize error")
  | .timer =>
    startCancel ++ setError error.kRpcCallTimeout
      (text ("rpc call timeout " ++ toString w.controller.timeout))
  | .localTimeout =>
    startCancel ++ setError error.kRpcCallTimeout (text "CallMethodBlocking timeout")

def write (w : World Message) : Write Message → World Message
  | .errorCode value => { w with controller := { w.controller with errorCode := value } }
  | .errorInfo value => { w with controller := { w.controller with errorInfo := value } }
  | .isFailed value => { w with controller := { w.controller with isFailed := value } }
  | .isCancled value => { w with controller := { w.controller with isCancled := value } }
  | .isFinished value => { w with controller := { w.controller with isFinished := value } }
  | .response value => { w with response := value }

def owned (w : World Message) : Owned Message where
  errorCode := w.controller.errorCode
  errorInfo := w.controller.errorInfo
  isFailed := w.controller.isFailed
  isCancled := w.controller.isCancled
  isFinished := w.controller.isFinished
  response := w.response

def setThread (w : World Message) (t : ThreadId) (thread : Thread Message) : World Message :=
  { w with threads := Function.update w.threads t thread }

/-- Thread `t`, which is not inside `finishRpc`, has `code` still to do. -/
def goOn (w : World Message) (t : ThreadId) (code : List (Op Message)) : World Message :=
  w.setThread t ⟨none, code⟩

/-- What `CallMethodBlocking` returns. -/
def result (w : World Message) (localTimeout : Bool) : Int32 :=
  if localTimeout then -1
  else if w.args.controller && w.controller.errorCode != 0 then w.controller.errorCode
  else 0

/-- Thread `t` does the first of its operations, before `rest`. -/
def exec (w : World Message) (t : ThreadId) (rest : List (Op Message)) :
    Op Message → Input → Option (World Message × List (Event Message))
  | .acquire, .found answer =>
    match w.channel.acquire answer with
    | .ok () =>
      some ({ w with state := { w.state with client := true } }.goOn t (.setMsgId :: rest), [])
    | .error e => some (w.goOn t (.finishRpc (.preSend e) :: rest), [])
  | .setMsgId, .generated msgId =>
    -- an id that the caller has set stays
    let id := if w.controller.msgId.isEmpty then msgId else w.controller.msgId
    some ({ w with controller := { w.controller with msgId := id } }.goOn t
      (.serialize :: rest), [])
  | .serialize, .serialized ok =>
    if ok then
      some ({ w with state := { w.state with msgId := w.controller.msgId } }.goOn t
        (.addTimer :: rest), [])
    else some (w.goOn t (.finishRpc (.preSend .failedSerialize) :: rest), [])
  | .addTimer, .none =>
    some ({ w with state := { w.state with timer := true }, armed := true }.goOn t
      (.start :: rest), [])
  | .start, .none =>
    if w.channel.pool then some (w.goOn t (.checkFinished :: rest), [])
    else some ({ w with client := { w.client with connecting := true } }.goOn t rest, [])
  | .connected, .none =>
    if w.client.connectErrorCode != 0 then some (w.goOn t (.finishRpc .connect :: rest), [])
    else some (w.goOn t (.checkFinished :: rest), [])
  | .checkFinished, .none =>
    if w.state.finished then some (w.goOn t rest, [])
    else some (w.goOn t (.readMessage :: rest), [])
  | .readMessage, .none =>
    some ({ w with client := { w.client with readCallback := true } }.goOn t
      (.recheckFinished :: rest), [])
  | .recheckFinished, .none =>
    if w.state.finished then
      some ({ w with client := { w.client with readCallback := false } }.goOn t rest, [])
    else some (w.goOn t (.send :: rest), [])
  | .send, .none => some (w.goOn t rest, [])
  | .finishRpc f, .none =>
    if w.state.finished then
      match f with
      | .localTimeout => some (w.goOn t (.wait :: rest), [])
      | _ => some (w.goOn t rest, [])
    else
      some ({ w with state := { w.state with finished := true } }.setThread t
        ⟨some (f, .dropTimer), rest⟩, [.won t f])
  | .waitFor, .none => if w.waitDone then some (w.goOn t (.ret false :: rest), []) else none
  | .waitFor, .timeout =>
    if w.waitDone then none
    else some (w.goOn t (.finishRpc .localTimeout :: .ret true :: rest), [])
  | .wait, .none => if w.waitDone then some (w.goOn t rest, []) else none
  | .ret localTimeout, .none => some (w.goOn t rest, [.returned (w.result localTimeout)])
  | _, _ => none

/-- Thread `t`, which has won as `f`, goes on in `finishRpc`. -/
def finish (parse : Bytes → Message × Bool) (w : World Message) (t : ThreadId) (f : Finisher)
    (code : List (Op Message)) : Stage Message → World Message × List (Event Message)
  | .dropTimer =>
    ((if w.state.timer then
        { w with state := { w.state with timer := false }, armed := false }
      else w).setThread t ⟨some (f, .cancelRead), code⟩, [])
  | .cancelRead =>
    ((if w.state.client && !w.state.msgId.isEmpty then
        { w with client := { w.client with readCallback := false } }
      else w).setThread t ⟨some (f, .beforeDone), code⟩, [])
  | .beforeDone => (w.setThread t ⟨some (f, .writing (w.beforeDone parse f)), code⟩, [])
  | .writing (x :: xs) =>
    ((w.write x).setThread t ⟨some (f, .writing xs), code⟩, [.wrote t f x])
  | .writing [] => (w.setThread t ⟨some (f, .runDone), code⟩, [])
  | .runDone =>
    match w.state.done with
    | .null => (w.goOn t code, [])
    | .user => (w.goOn t code, [.ran t f])
    | .blocking => ({ w with waitDone := true }.goOn t code, [.ran t f])

/-- A thread is free for the next callback. -/
def idle (w : World Message) (t : ThreadId) : Bool :=
  (w.threads t).finishing.isNone && (w.threads t).code.isEmpty

def step (parse : Bytes → Message × Bool) (w : World Message) :
    Label → Option (World Message × List (Event Message))
  | .thread t input =>
    match w.threads t with
    | ⟨some (f, stage), code⟩ => if input = .none then some (w.finish parse t f code stage) else none
    | ⟨none, op :: rest⟩ => w.exec t rest op input
    | ⟨none, []⟩ => none
  | .timerFires t =>
    if w.armed && w.idle t then
      some ({ w with armed := false }.goOn t [.finishRpc .timer], [])
    else none
  | .responseArrives t msg =>
    if w.client.readCallback && w.idle t then
      some ({ w with client := { w.client with readCallback := false } }.goOn t
        [.finishRpc (.response msg)], [])
    else none
  | .connectReturns t errorCode errorInfo =>
    if w.client.connecting && w.idle t then
      some ({ w with client := { w.client with
          connecting := false
          connectErrorCode := errorCode
          connectErrorInfo := errorInfo } }.goOn t [.connected], [])
    else none
  | .readReplaced =>
    some ({ w with client := { w.client with readCallback := false } }, [])

end World

/-- What the caller's thread does after `callMethodInternal`. -/
def Call.code : Call → List (Op Message)
  | .callMethod _ => []
  | .callMethodBlocking _ => [.waitFor]

/-- `CallMethodBlocking` sets the timeout of the controller first. -/
def Call.prepare (controller : RpcController) : Call → RpcController
  | .callMethod _ => controller
  | .callMethodBlocking timeoutMs => { controller with timeout := timeoutMs }

/-- A call whose arguments were refused: the error is set, the closure has run, and there is
    no `RequestState` that another thread could finish. -/
def World.refused (w : World Message) (call : Call) : World Message :=
  let writes : List (Write Message) :=
    if w.args.controller then
      setError error.kRpcChannelInit (text "method, controller, request or response NULL")
    else []
  { writes.foldl World.write w with
    waitDone := call.closure == Closure.blocking }.goOn caller call.code

/-- The state in which `callMethodInternal` has checked its arguments. -/
def World.call (channel : RpcChannel) (args : Arguments) (call : Call)
    (controller : RpcController) (response : Message) : World Message :=
  let w : World Message :=
    { args
      channel
      state := { done := call.closure }
      controller := if args.controller then call.prepare controller else controller
      response }
  if args.passes then w.goOn caller (.acquire :: call.code) else w.refused call

end RocketRpc.Rpc
