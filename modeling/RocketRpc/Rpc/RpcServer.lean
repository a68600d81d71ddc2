import Mathlib.Tactic.Common

/-
  Starting and stopping a server (`rocket/net/rpc/rpc_server.cc`, `rocket/net/tcp/tcp_server.cc`,
  `rocket/net/event_loop.cc`).

  One thread calls `start` and another one `stop`, once each. A step is one atomic operation
  or one critical section. `RpcServer` and its `TcpServer` keep their flags apart; all of them
  are fields of one state here, with the place of each of the two threads in the code.
-/

namespace RocketRpc.Rpc

/-- The two threads. -/
inductive Caller where
  | starter
  | stopper
  deriving DecidableEq, Repr

/-- What `TcpServer::stop` comes to next. -/
inductive TcpStopAt where
  /-- At the lock of `m_stop_mutex`. -/
  | lock
  /-- At the exchange of `m_running`. -/
  | exchange
  /-- At `m_main_loop->stop()`. -/
  | stopLoop
  /-- In the critical section that waits for the main loop. -/
  | wait
  /-- At the connections that are to be shut down. -/
  | connections
  /-- At `m_io_group.reset()`. -/
  | reset
  deriving DecidableEq, Repr

/-- What the call of `start` comes to next. -/
inductive StartAt where
  /-- At the critical section of `m_config_mutex`. -/
  | check
  /-- At `startSignalMonitor`. -/
  | monitor
  /-- At the exchange of `m_running` that `TcpServer::start` begins with. -/
  | cas
  /-- At the critical section behind it. -/
  | lifecycle
  /-- In `m_io_group->start()`, with `i` threads started. -/
  | ioGroup (i : Nat)
  | ready
  /-- At the critical section that `EventLoop::loop` begins with. -/
  | enterLoop
  /-- At the load of `m_stop_flag`. -/
  | loop
  | poll
  /-- In `onAccept`, at its load of `m_running`. -/
  | accept
  /-- In `onAccept`, at its test of `m_io_group`. -/
  | testGroup
  /-- In `onAccept`, at `m_io_group->getIOThread()`. -/
  | assign
  /-- In `onAccept`, with the loop of the thread that it got. -/
  | register
  /-- At the store to `m_is_looping` behind the loop. -/
  | leaveLoop
  /-- At the critical section behind the loop. -/
  | inactive
  /-- At the load of `m_running` behind it. -/
  | checkRunning
  /-- In `stop` of the `TcpServer`, as the loop ended by itself. -/
  | tcpStop (q : TcpStopAt)
  /-- At `stopSignalMonitor`. -/
  | endMonitor
  | returned
  deriving DecidableEq, Repr

/-- What the call of `RpcServer::stop` comes to next. -/
inductive StopAt where
  /-- At the exchange of `m_stopping`. -/
  | stopping
  /-- At the critical section of `m_signal_mutex`. -/
  | monitor
  /-- At `m_dispatcher.stop()`. -/
  | dispatcher
  /-- In `stop` of the `TcpServer`. -/
  | tcpStop (q : TcpStopAt)
  | returned
  deriving DecidableEq, Repr

structure RpcServer where
  /-- `m_handle_process_signals`. -/
  handleProcessSignals : Bool
  /-- The main loop was constructed. -/
  valid : Bool
  ioThreads : Nat
  started : Bool := false
  stopping : Bool := false
  signalMonitorStop : Bool := false
  running : Bool := false
  mainLoopActive : Bool := false
  /-- `m_start_thread_id` is set. -/
  startThreadSet : Bool := false
  stopFlag : Bool := false
  isLooping : Bool := false
  /-- `m_io_group` is not reset. -/
  ioGroup : Bool := true
  /-- The holder of `m_stop_mutex`. -/
  stopMutex : Option Caller := none
  startAt : StartAt := .check
  stopAt : StopAt := .stopping
  deriving DecidableEq, Repr

/-- What the main loop finds. -/
inductive Polled where
  | fatal
  /-- Nothing to accept. -/
  | other
  | client
  deriving DecidableEq, Repr

inductive RaceLabel where
  /-- `start` goes on; `polled` is what a `poll` finds. -/
  | start (polled : Polled)
  /-- `stop` goes on. -/
  | stop
  deriving DecidableEq, Repr

inductive RaceEvent where
  /-- `start` calls into `m_io_group` or one of its threads; it is `alive` or reset. -/
  | callsIoGroup (alive : Bool)
  deriving DecidableEq, Repr

namespace RpcServer

def new (handleProcessSignals valid : Bool) (ioThreads : Nat) : RpcServer :=
  { handleProcessSignals, valid, ioThreads }

/-- The thread that called `TcpServer::start` is `caller`. -/
def isStartThread (s : RpcServer) (caller : Caller) : Bool :=
  s.startThreadSet && caller = .starter

/-- The next operation of `TcpServer::stop`: what it comes to then, if it does not return. -/
def tcpStop (s : RpcServer) (caller : Caller) :
    TcpStopAt → Option (RpcServer × Option TcpStopAt)
  | .lock =>
    if s.stopMutex = none then some ({ s with stopMutex := some caller }, some .exchange) else none
  | .exchange =>
    if s.running then some ({ s with running := false }, some .stopLoop)
    else some ({ s with stopMutex := none }, none)
  | .stopLoop => some ({ s with stopFlag := true }, some .wait)
  | .wait =>
    if s.isStartThread caller || !s.mainLoopActive then some (s, some .connections) else none
  | .connections => some (s, some .reset)
  | .reset => some ({ s with ioGroup := false, stopMutex := none }, none)

/-- The next operation of `start`. -/
def start (s : RpcServer) (polled : Polled) : Option (RpcServer × List RaceEvent) :=
  match s.startAt with
  | .check =>
    if s.started || s.stopping then some ({ s with startAt := .returned }, [])
    else
      let next := if s.handleProcessSignals then .monitor else .cas
      some ({ s with started := true, startAt := next }, [])
  | .monitor => some ({ s with signalMonitorStop := false, startAt := .cas }, [])
  | .cas =>
    if s.running then some ({ s with startAt := .endMonitor }, [])
    else some ({ s with running := true, startAt := .lifecycle }, [])
  | .lifecycle =>
    some ({ s with mainLoopActive := true, startThreadSet := true, startAt := .ioGroup 0 }, [])
  | .ioGroup i =>
    let next := if i < s.ioThreads then .ioGroup (i + 1) else .ready
    some ({ s with startAt := next }, [.callsIoGroup s.ioGroup])
  | .ready => some ({ s with startAt := .enterLoop }, [])
  | .enterLoop =>
    if s.valid then some ({ s with isLooping := true, startAt := .loop }, [])
    else some ({ s with startAt := .inactive }, [])
  | .loop => some ({ s with startAt := if s.stopFlag then .leaveLoop else .poll }, [])
  | .poll =>
    match polled with
    | .fatal => some ({ s with startAt := .leaveLoop }, [])
    | .other => some ({ s with startAt := .loop }, [])
    | .client => some ({ s with startAt := .accept }, [])
  | .accept => some ({ s with startAt := if s.running then .testGroup else .loop }, [])
  | .testGroup => some ({ s with startAt := if s.ioGroup then .assign else .loop }, [])
  | .assign => some ({ s with startAt := .register }, [.callsIoGroup s.ioGroup])
  | .register => some ({ s with startAt := .loop }, [.callsIoGroup s.ioGroup])
  | .leaveLoop => some ({ s with isLooping := false, startAt := .inactive }, [])
  | .inactive => some ({ s with mainLoopActive := false, startAt := .checkRunning }, [])
  | .checkRunning =>
    some ({ s with startAt := if s.running then .tcpStop .lock else .endMonitor }, [])
  | .tcpStop q =>
    (s.tcpStop .starter q).map fun (s, next) =>
      match next with
      | some q => ({ s with startAt := .tcpStop q }, [])
      | none => ({ s with startAt := .endMonitor }, [])
  | .endMonitor =>
    let signalMonitorStop := s.handleProcessSignals || s.signalMonitorStop
    some ({ s with signalMonitorStop, startAt := .returned }, [])
  | .returned => none

/-- The next operation of `stop`. -/
def stop (s : RpcServer) : Option RpcServer :=
  match s.stopAt with
  | .stopping =>
    if s.stopping then some { s with stopAt := .returned }
    else some { s with stopping := true, stopAt := .monitor }
  | .monitor => some { s with signalMonitorStop := true, stopAt := .dispatcher }
  | .dispatcher => some { s with stopAt := .tcpStop .lock }
  | .tcpStop q =>
    (s.tcpStop .stopper q).map fun (s, next) =>
      match next with
      | some q => { s with stopAt := .tcpStop q }
      | none => { s with stopAt := .returned }
  | .returned => none

def step (s : RpcServer) : RaceLabel → Option (RpcServer × List RaceEvent)
  | .start polled => s.start polled
  | .stop => s.stop.map fun s' => (s', [])

end RpcServer

end RocketRpc.Rpc
