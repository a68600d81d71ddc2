import RocketRpc.Common.ThreadPool
import RocketRpc.Rpc.RpcController
import Mathlib.Logic.Function.Basic

/-
  The dispatcher of a server (`rocket/net/rpc/rpc_dispatcher.cc`).

  Every call of `dispatch` is a thread of its own that takes one atomic operation or one
  critical section a step; so are the workers, `stop` and the closures, which a service may
  run on any thread and at any time, once. Services, and how their messages parse and
  serialize, are parameters: protobuf is not part of the sources.
-/

namespace RocketRpc.Rpc

open RocketRpc.Tcp RocketRpc.Coder RocketRpc.Common

abbrev ConnId := Nat

inductive RpcExecutionMode where
  | inline
  | workerPool
  deriving DecidableEq, Repr

/-- A method of a service: its full name, and which data its request message parses. -/
structure Method where
  fullName : Bytes
  parseFromString : Bytes → Bool

structure Service where
  fullName : Bytes
  findMethodByName : Bytes → Option Method

/-- What is configured before the server starts. -/
structure Registry where
  serviceMap : Bytes → Option Service := fun _ => none
  methodExecutionModes : Bytes → Option RpcExecutionMode := fun _ => none
  defaultExecutionMode : RpcExecutionMode := .inline

namespace Registry

def registerService (g : Registry) (service : Service) : Registry :=
  { g with serviceMap := Function.update g.serviceMap service.fullName (some service) }

def setMethodExecutionMode (g : Registry) (fullMethodName : Bytes) (mode : RpcExecutionMode) :
    Bool × Registry :=
  if fullMethodName.isEmpty then (false, g)
  else
    let modes := Function.update g.methodExecutionModes fullMethodName (some mode)
    (true, { g with methodExecutionModes := modes })

def executionModeFor (g : Registry) (fullMethodName : Bytes) : RpcExecutionMode :=
  (g.methodExecutionModes fullMethodName).getD g.defaultExecutionMode

end Registry

/-- `std::string::rfind`. -/
def rfind (xs : Bytes) (b : UInt8) : Option Nat :=
  (xs.reverse.findIdx? (· == b)).map fun i => xs.length - 1 - i

/-- The service name and the method name, in front of the last dot and behind it. -/
def parseServiceFullName (fullName : Bytes) : Option (Bytes × Bytes) :=
  if fullName.isEmpty then none
  else (rfind fullName 46).map fun i => (fullName.take i, fullName.drop (i + 1))

def setTinyPBError (msg : TinyPBProtocol) (errCode : Int32) (errInfo : Bytes) : TinyPBProtocol :=
  { msg with errCode, errInfo, errInfoLen := Int32.ofNat errInfo.length }

/-- What `dispatch` looks up between its two loads: the method that the request calls, if its
    data parses. -/
def Registry.lookup (g : Registry) (request : TinyPBProtocol) : Except (Int32 × Bytes) Method :=
  match parseServiceFullName request.methodName with
  | none => .error (error.kParseServiceName, text "parse service name error")
  | some (serviceName, methodName) =>
    match g.serviceMap serviceName with
    | none => .error (error.kServiceNotFound, text "service not found")
    | some service =>
      match service.findMethodByName methodName with
      | none => .error (error.kMethodNotFound, text "method not found")
      | some method =>
        if method.parseFromString request.pbData then .ok method
        else .error (error.kFailedDeserialize, text "deserialize error")

/-- What the closure leaves in the response: `ok` and `data` are what `SerializeToString`
    returns and what it leaves in `m_pb_data`. -/
def serialized (response : TinyPBProtocol) (ok : Bool) (data : Bytes) : TinyPBProtocol :=
  if ok then { response with pbData := data, errCode := 0, errInfo := [] }
  else setTinyPBError { response with pbData := data } error.kFailedSerialize
    (text "serialize error")

/-- What a request comes to next. -/
inductive Place where
  /-- At the load of `m_stopping`. -/
  | stopping
  | lookup
  /-- At `incrInFlight`. -/
  | count (fullName : Bytes)
  /-- At `CallMethod` or `tryExecute`, by the mode of the method. -/
  | handOver (fullName : Bytes)
  /-- At `decrInFlight`, as the pool took no task. -/
  | takeBack
  /-- At the second load of `m_stopping`. -/
  | rejected
  /-- At `conn->send` of an error. -/
  | sendError
  /-- In the queue of the pool. -/
  | queued
  /-- At `CallMethod`, on a worker. -/
  | taken
  /-- `CallMethod` was called, and the closure has not run. -/
  | called
  /-- In the closure, behind `decrInFlight`. -/
  | replying
  | answered
  deriving DecidableEq, Repr

structure Dispatch where
  conn : ConnId
  request : TinyPBProtocol
  response : TinyPBProtocol
  place : Place := .stopping
  deriving DecidableEq, Repr

structure RpcDispatcher where
  /-- The requests, by the order in which they came. -/
  dispatches : List Dispatch := []
  workerPool : ThreadPool Nat
  stopping : Bool := false
  /-- The calls of `stop` between their store and `stopAndDrain`. -/
  stops : Nat := 0
  /-- `m_in_flight` of the connections. -/
  inFlight : ConnId → Int := fun _ => 0

inductive DispatchEvent where
  | incrInFlight (d : Nat) (conn : ConnId)
  | decrInFlight (d : Nat) (conn : ConnId)
  | sent (d : Nat) (conn : ConnId) (message : TinyPBProtocol)
  deriving DecidableEq, Repr

inductive DispatchLabel where
  | dispatch (conn : ConnId) (request response : AbstractProtocol)
  /-- `dispatch` goes on with request `d`. -/
  | goOn (d : Nat)
  /-- Worker `i` at the lock. -/
  | take (i : Nat)
  /-- Worker `i` calls `CallMethod`. -/
  | invoke (i : Nat)
  /-- `CallMethod` returns to worker `i`. -/
  | finish (i : Nat)
  /-- The closure of request `d` is run. -/
  | run (d : Nat)
  /-- The closure goes on. -/
  | reply (d : Nat) (ok : Bool) (data : Bytes)
  | stop
  | stopAndDrain
  deriving DecidableEq, Repr

namespace RpcDispatcher

variable (g : Registry)

def new (workerThreads maxPendingTasks : Nat) : RpcDispatcher :=
  { workerPool := .new workerThreads maxPendingTasks }

def put (s : RpcDispatcher) (d : Nat) (r : Dispatch) : RpcDispatcher :=
  { s with dispatches := s.dispatches.set d r }

def addInFlight (s : RpcDispatcher) (conn : ConnId) (n : Int) : RpcDispatcher :=
  { s with inFlight := Function.update s.inFlight conn (s.inFlight conn + n) }

/-- `sendError` up to its `send`. -/
def setError (s : RpcDispatcher) (d : Nat) (r : Dispatch) (errCode : Int32) (errInfo : Bytes) :
    RpcDispatcher :=
  s.put d { r with response := setTinyPBError r.response errCode errInfo, place := .sendError }

/-- The next operation of `dispatch`. -/
def goOn (s : RpcDispatcher) (d : Nat) (r : Dispatch) :
    Option (RpcDispatcher × List DispatchEvent) :=
  match r.place with
  | .stopping =>
    if s.stopping then some (s.setError d r error.kRpcShutdown (text "server is shutting down"), [])
    else some (s.put d { r with place := .lookup }, [])
  | .lookup =>
    match g.lookup r.request with
    | .error (errCode, errInfo) => some (s.setError d r errCode errInfo, [])
    | .ok method => some (s.put d { r with place := .count method.fullName }, [])
  | .count fullName =>
    some ((s.addInFlight r.conn 1).put d { r with place := .handOver fullName },
      [.incrInFlight d r.conn])
  | .handOver fullName =>
    match g.executionModeFor fullName with
    | .inline => some (s.put d { r with place := .called }, [])
    | .workerPool =>
      match s.workerPool.tryExecute d with
      | (true, workerPool) => some ({ s with workerPool }.put d { r with place := .queued }, [])
      | (false, _) => some (s.put d { r with place := .takeBack }, [])
  | .takeBack =>
    some ((s.addInFlight r.conn (-1)).put d { r with place := .rejected },
      [.decrInFlight d r.conn])
  | .rejected =>
    if s.stopping then some (s.setError d r error.kRpcShutdown (text "server is shutting down"), [])
    else
      some (s.setError d r error.kRpcServerOverloaded (text "server worker queue is full"), [])
  | .sendError => some (s.put d { r with place := .answered }, [.sent d r.conn r.response])
  | _ => none

/-- `dispatch` up to its first load. What is not TinyPB is left alone. -/
def dispatch (s : RpcDispatcher) (conn : ConnId) : AbstractProtocol → AbstractProtocol →
    RpcDispatcher
  | .tinyPB request, .tinyPB response =>
    let response := { response with msgId := request.msgId, methodName := request.methodName }
    { s with dispatches := s.dispatches ++ [{ conn, request, response }] }
  | _, _ => s

/-- The worker takes a request out of the queue, or exits. -/
def take (s : RpcDispatcher) (i : Nat) : Option RpcDispatcher :=
  match s.workerPool.take i with
  | some (some d, workerPool) =>
    s.dispatches[d]?.map fun r => { s with workerPool }.put d { r with place := .taken }
  | some (none, workerPool) => some { s with workerPool }
  | none => none

/-- The request that worker `i` runs. -/
def runningOn (s : RpcDispatcher) (i : Nat) : Option (Nat × Dispatch) :=
  match s.workerPool.workers[i]? with
  | some (.running d) => s.dispatches[d]?.map fun r => (d, r)
  | _ => none

def step (s : RpcDispatcher) : DispatchLabel → Option (RpcDispatcher × List DispatchEvent)
  | .dispatch conn request response => some (s.dispatch conn request response, [])
  | .goOn d => s.dispatches[d]?.bind fun r => s.goOn g d r
  | .take i => (s.take i).map fun s' => (s', [])
  | .invoke i =>
    (s.runningOn i).bind fun (d, r) =>
      if r.place = .taken then some (s.put d { r with place := .called }, []) else none
  | .finish i =>
    (s.runningOn i).bind fun (_, r) =>
      if r.place = .taken then none
      else (s.workerPool.finish i).map fun workerPool => ({ s with workerPool }, [])
  | .run d =>
    s.dispatches[d]?.bind fun r =>
      if r.place = .called then
        some ((s.addInFlight r.conn (-1)).put d { r with place := .replying },
          [.decrInFlight d r.conn])
      else none
  | .reply d ok data =>
    s.dispatches[d]?.bind fun r =>
      if r.place = .replying then
        some (s.put d { r with place := .answered },
          [.sent d r.conn (serialized r.response ok data)])
      else none
  | .stop => some ({ s with stopping := true, stops := s.stops + 1 }, [])
  | .stopAndDrain =>
    if 0 < s.stops then
      some ({ s with stops := s.stops - 1, workerPool := s.workerPool.stopFlag }, [])
    else none

end RpcDispatcher

end RocketRpc.Rpc
