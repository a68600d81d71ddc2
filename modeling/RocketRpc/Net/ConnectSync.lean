import RocketRpc.Lib.Machine
import RocketRpc.Net.TcpConnection

/-
  `TcpClient::connectSync` (`rocket/net/tcp/tcp_client.cc`), from the call to the destruction of
  the client.

  `connect` leaves a task on the loop, whose thread reports back through a callback that keeps a
  bare pointer to the client. The caller waits for it until a time limit; then it writes an error
  of its own and stops the client, which waits for the loop to drop the connection, but only if the
  loop is looping. The client may be destroyed as soon as `connectSync` has returned. The two
  threads take their steps in any order; `connect_law` has what they rely on, for a loop that has
  begun when `stop` looks at it, and `connect_calls_back_late` what happens on one that has not.
-/

namespace RocketRpc.Net

open Machine

/-- `ETIMEDOUT` of `errno.h`. -/
def ETIMEDOUT : Nat := 110

/-- `m_connect_error_info`. -/
inductive ConnectInfo where
  | none
  | socketFailed (e : Nat)
  | connectFailed (e : Nat)
  | timedOut
  deriving DecidableEq, Repr

def ConnectInfo.text (strerror : Nat → String) : ConnectInfo → String
  | .none => ""
  | .socketFailed e => "socket() failed: " ++ strerror e
  | .connectFailed e => "connect() failed: " ++ strerror e
  | .timedOut => "connect() timed out"

/-- How far `loop` has come. -/
inductive LoopLife where
  | notLooping
  /-- In front of the test of the stop flag. -/
  | atFlag
  | inTurn
  | ended
  deriving DecidableEq, Repr

inductive ConnectTask where
  /-- The task of `connect` if the connection was made at once. -/
  | establish
  /-- The task of `connect` if the connection is under way. -/
  | inProgress
  /-- The task of `stop`. -/
  | destroy
  deriving DecidableEq, Repr

/-- Where the loop is in the callback of `connect`, which reports the error `e` or 0. -/
inductive ReportPlace where
  | idle
  /-- In front of `weak.lock()` and the write of the text. -/
  | report (e : Nat)
  /-- In front of the store of the code. -/
  | reportCode (e : Nat)
  /-- In front of `done()`. -/
  | callDone
  deriving DecidableEq, Repr

/-- What follows `stop`. -/
inductive StopNext where
  /-- `connectSync` returns. -/
  | returns
  /-- The client is gone. -/
  | gone
  deriving DecidableEq, Repr

/-- Where the owner of the client is. -/
inductive ConnectPlace where
  | idle
  /-- In `wait_for`. -/
  | waiting
  /-- The time is up; in front of the write of the text. -/
  | timedOut
  /-- In front of the store of the code. -/
  | timedOutCode
  /-- In `stop`, in front of the exchange of `m_stopped`. -/
  | stop (next : StopNext)
  /-- Behind it; `connection` says that there was one. -/
  | look (connection : Bool) (next : StopNext)
  /-- The loop is looping; in front of `queueInLoop`. -/
  | queue (next : StopNext)
  | waitDestroyed (next : StopNext)
  /-- In front of the end of `stop`, from the clearing of the read callbacks on. -/
  | stopLoop (next : StopNext)
  | joining (next : StopNext)
  | returned (r : Int)
  | gone
  deriving DecidableEq, Repr

structure ConnectingClient where
  /-- `m_owns_loop`. -/
  owned : Bool
  /-- The owner is on the thread of the loop. -/
  onLoop : Bool
  -- `TcpClient`
  stopped : Bool := false
  /-- `m_connection` is there. -/
  connection : Bool := false
  /-- `m_thread` is joinable. -/
  hasThread : Bool := false
  errorCode : Nat := 0
  errorInfo : ConnectInfo := .none
  -- `WaitState` and `StopState`
  done : Bool := false
  error : Nat := 0
  destroyed : Bool := false
  -- `TcpConnection`
  state : TcpState := .notConnected
  /-- The callbacks of the descriptor are `finish`. -/
  finishArmed : Bool := false
  completed : Bool := false
  -- `EventLoop`
  life : LoopLife := .notLooping
  stopFlag : Bool := false
  tasks : List ConnectTask := []
  work : ReportPlace := .idle
  place : ConnectPlace := .idle
  deriving DecidableEq, Repr

/-- How `connect` goes up to its return. -/
inductive ConnectStart where
  | socketFails (e : Nat)
  | connectFails (e : Nat)
  | connects
  | inProgress
  deriving DecidableEq, Repr

inductive ConnectLabel where
  -- the owner
  | connect (r : ConnectStart)
  | wakes
  | timesOut
  | writeInfo
  | writeCode
  | exchange
  | look
  | queue
  | seesDestroyed
  | stopLoop
  | joined
  /-- The destructor is called. -/
  | drop
  -- the loop
  | begins
  | testFlag
  | turnEnds
  | pollFails
  | task
  /-- The poller reports the descriptor; `e` is its `SO_ERROR`. -/
  | polled (e : Nat)
  | report
  /-- The connection is closed for a reason of its own. -/
  | lost
  /-- Somebody else stops the loop. -/
  | stopped
  deriving DecidableEq, Repr

inductive ConnectEvent where
  /-- The connection was set up. -/
  | established
  | failed (e : Nat)
  /-- `done()` is called, on a client that is alive or gone. -/
  | called (alive : Bool)
  /-- `connectSync` returns. -/
  | returned (r : Int)
  deriving DecidableEq, Repr

namespace ConnectingClient

def new (owned onLoop : Bool) : ConnectingClient := { owned, onLoop }

def setConnectError (s : ConnectingClient) (code : Nat) (info : ConnectInfo) : ConnectingClient :=
  { s with errorCode := code, errorInfo := info }

/-- `done()`, on a client that is alive. -/
def callDone (s : ConnectingClient) : ConnectingClient :=
  { s with done := true, error := s.errorCode }

/-- `connect` fails before there is a connection. -/
def connectFails (s : ConnectingClient) (e : Nat) (info : ConnectInfo) :
    ConnectingClient × List ConnectEvent :=
  ({ (s.setConnectError e info).callDone with stopped := false, place := .waiting },
    [.failed e, .called true])

def connectQueues (s : ConnectingClient) (task : ConnectTask) : ConnectingClient :=
  { s.setConnectError 0 .none with
    stopped := false
    connection := true
    hasThread := s.owned
    tasks := s.tasks ++ [task]
    place := .waiting }

def connect (s : ConnectingClient) : ConnectStart → Option (ConnectingClient × List ConnectEvent)
  | .socketFails e => if 0 < e then some (s.connectFails e (.socketFailed e)) else none
  | .connectFails e => if 0 < e then some (s.connectFails e (.connectFailed e)) else none
  | .connects => some (s.connectQueues .establish, [])
  | .inProgress => some (s.connectQueues .inProgress, [])

/-- What comes behind `stop`. -/
def next (s : ConnectingClient) : StopNext → ConnectingClient × List ConnectEvent
  | .returns => ({ s with place := .returned (-1) }, [.returned (-1)])
  | .gone => ({ s with place := .gone }, [])

def isLooping (s : ConnectingClient) : Bool := s.life == .atFlag || s.life == .inTurn

def connectEstablished (s : ConnectingClient) : ConnectingClient × List ConnectEvent :=
  if s.state = .notConnected then ({ s with state := .connected }, [.established]) else (s, [])

def connectInProgress (s : ConnectingClient) : ConnectingClient × List ConnectEvent :=
  if s.state = .notConnected then ({ s with finishArmed := true }, [])
  else ({ s with work := .report EISCONN }, [.failed EISCONN])

def connectDestroyed (s : ConnectingClient) : ConnectingClient :=
  { s with state := .closed, finishArmed := false }

/-- `finish` of `connectInProgress`, with the `SO_ERROR` of the descriptor. -/
def finish (s : ConnectingClient) (e : Nat) : ConnectingClient × List ConnectEvent :=
  if s.completed then (s, [])
  else
    let s := { s with completed := true, finishArmed := false, work := .report e }
    if e = 0 then s.connectEstablished else ({ s with state := .closed }, [.failed e])

def runTask (s : ConnectingClient) : ConnectTask → ConnectingClient × List ConnectEvent
  | .establish => { s with work := .report 0 }.connectEstablished
  | .inProgress => s.connectInProgress
  | .destroy => ({ s.connectDestroyed with destroyed := true }, [])

/-- The text that the callback of `connect` writes. -/
def infoOf (e : Nat) : ConnectInfo := if e = 0 then .none else .connectFailed e

/-- The callback of `connect`, whose first part needs the client to be alive. -/
def report (s : ConnectingClient) : ReportPlace → Option (ConnectingClient × List ConnectEvent)
  | .idle => none
  | .report e =>
    if s.place = .gone then some ({ s with work := .callDone }, [])
    else some ({ s with errorInfo := infoOf e, work := .reportCode e }, [])
  | .reportCode e => some ({ s with errorCode := e, work := .callDone }, [])
  | .callDone => some ({ s.callDone with work := .idle }, [.called (s.place != .gone)])

/-- The owner is outside of its calls. -/
def outside (s : ConnectingClient) : Bool :=
  match s.place with
  | .idle | .returned _ | .gone => true
  | _ => false

/-- The loop is in a turn, and neither in the callback of `connect` nor in a call of the owner. -/
def mayTurn (s : ConnectingClient) : Bool :=
  s.life == .inTurn && s.work == .idle && (!s.onLoop || s.outside)

def step (s : ConnectingClient) : ConnectLabel → Option (ConnectingClient × List ConnectEvent)
  | .connect r => if s.place = .idle ∧ (s.onLoop = true → s.mayTurn) then s.connect r else none
  | .wakes =>
    if s.place = .waiting ∧ s.done = true then
      some ({ s with place := .returned s.error }, [.returned s.error])
    else none
  | .timesOut =>
    if s.place = .waiting ∧ s.done = false then some ({ s with place := .timedOut }, []) else none
  | .writeInfo =>
    if s.place = .timedOut then
      some ({ s with errorInfo := .timedOut, place := .timedOutCode }, [])
    else none
  | .writeCode =>
    if s.place = .timedOutCode then
      some ({ s with errorCode := ETIMEDOUT, place := .stop .returns }, [])
    else none
  | .exchange =>
    match s.place with
    | .stop next =>
      if s.stopped then some (s.next next)
      else
        some ({ s with stopped := true, connection := false, place := .look s.connection next }, [])
    | _ => none
  | .look =>
    match s.place with
    | .look connection next =>
      if connection = true ∧ s.onLoop = true then
        some ({ s.connectDestroyed with place := .stopLoop next }, [])
      else if connection = true ∧ s.isLooping = true then
        some ({ s with place := .queue next }, [])
      else some ({ s with place := .stopLoop next }, [])
    | _ => none
  | .queue =>
    match s.place with
    | .queue next =>
      some ({ s with tasks := s.tasks ++ [.destroy], place := .waitDestroyed next }, [])
    | _ => none
  | .seesDestroyed =>
    match s.place with
    | .waitDestroyed next =>
      if s.destroyed then some ({ s with place := .stopLoop next }, []) else none
    | _ => none
  | .stopLoop =>
    match s.place with
    | .stopLoop next =>
      if s.owned then
        if s.hasThread = true ∧ s.onLoop = false then
          some ({ s with stopFlag := true, place := .joining next }, [])
        else some ({ s with stopFlag := true }.next next)
      else some (s.next next)
    | _ => none
  | .joined =>
    match s.place with
    | .joining next => if s.life = .ended then some (s.next next) else none
    | _ => none
  | .drop =>
    match s.place with
    | .returned _ => some ({ s with place := .stop .gone }, [])
    | _ => none
  | .begins =>
    if s.life = .notLooping ∧ (s.owned = true → s.hasThread = true) then
      some ({ s with life := .atFlag }, [])
    else none
  | .testFlag =>
    if s.life = .atFlag then
      some ({ s with life := if s.stopFlag then .ended else .inTurn }, [])
    else none
  | .turnEnds => if s.mayTurn then some ({ s with life := .atFlag }, []) else none
  | .pollFails => if s.mayTurn then some ({ s with life := .ended }, []) else none
  | .task =>
    match s.tasks with
    | task :: tasks => if s.mayTurn then some ({ s with tasks }.runTask task) else none
    | [] => none
  | .polled e => if s.mayTurn ∧ s.finishArmed = true then some (s.finish e) else none
  | .report => if !s.onLoop || s.outside then s.report s.work else none
  | .lost =>
    if s.mayTurn ∧ s.state = .connected then
      some ({ s with state := .closed, finishArmed := false }, [])
    else none
  | .stopped => if s.owned then none else some ({ s with stopFlag := true }, [])

end ConnectingClient

/-! ## What a step can do -/

namespace ConnectingClient

/-- `connectEstablished` does something only in the first state. -/
inductive Establishes (s : ConnectingClient) : TcpState → List ConnectEvent → Prop where
  | first (hstate : s.state = .notConnected) : Establishes s .connected [.established]
  | again (hstate : s.state ≠ .notConnected) : Establishes s s.state []

inductive Steps (s : ConnectingClient) :
    ConnectLabel → ConnectingClient → List ConnectEvent → Prop where
  | connectFails {r : ConnectStart} {e : Nat} {info : ConnectInfo} (hp : s.place = .idle)
      (he : 0 < e) (hinfo : info = .socketFailed e ∨ info = .connectFailed e) :
      Steps s (.connect r) (s.connectFails e info).1 [.failed e, .called true]
  | connectQueues {r : ConnectStart} {task : ConnectTask} (hp : s.place = .idle)
      (htask : task ≠ .destroy) : Steps s (.connect r) (s.connectQueues task) []
  | wakes (hp : s.place = .waiting) (hdone : s.done = true) :
      Steps s .wakes { s with place := .returned s.error } [.returned s.error]
  | timesOut (hp : s.place = .waiting) (hdone : s.done = false) :
      Steps s .timesOut { s with place := .timedOut } []
  | writeInfo (hp : s.place = .timedOut) :
      Steps s .writeInfo { s with errorInfo := .timedOut, place := .timedOutCode } []
  | writeCode (hp : s.place = .timedOutCode) :
      Steps s .writeCode { s with errorCode := ETIMEDOUT, place := .stop .returns } []
  | stoppedBefore {next : StopNext} (hp : s.place = .stop next) (hstopped : s.stopped = true) :
      Steps s .exchange (s.next next).1 (s.next next).2
  | exchange {next : StopNext} (hp : s.place = .stop next) (hstopped : s.stopped = false) :
      Steps s .exchange
        { s with stopped := true, connection := false, place := .look s.connection next } []
  | lookOnLoop {next : StopNext} (hp : s.place = .look true next) (hloop : s.onLoop = true) :
      Steps s .look { s.connectDestroyed with place := .stopLoop next } []
  | lookLooping {next : StopNext} (hp : s.place = .look true next) (hloop : s.onLoop = false)
      (hlooping : s.isLooping = true) : Steps s .look { s with place := .queue next } []
  | lookAway {connection : Bool} {next : StopNext} (hp : s.place = .look connection next)
      (haway : connection = true → s.onLoop = false ∧ s.isLooping = false) :
      Steps s .look { s with place := .stopLoop next } []
  | queue {next : StopNext} (hp : s.place = .queue next) :
      Steps s .queue { s with tasks := s.tasks ++ [.destroy], place := .waitDestroyed next } []
  | seesDestroyed {next : StopNext} (hp : s.place = .waitDestroyed next)
      (hdestroyed : s.destroyed = true) :
      Steps s .seesDestroyed { s with place := .stopLoop next } []
  | leaves {next : StopNext} (hp : s.place = .stopLoop next) (howned : s.owned = false) :
      Steps s .stopLoop (s.next next).1 (s.next next).2
  | joins {next : StopNext} (hp : s.place = .stopLoop next) (howned : s.owned = true)
      (hthread : s.hasThread = true) (hloop : s.onLoop = false) :
      Steps s .stopLoop { s with stopFlag := true, place := .joining next } []
  | detaches {next : StopNext} (hp : s.place = .stopLoop next) (howned : s.owned = true)
      (hthread : s.hasThread = true → s.onLoop = true) :
      Steps s .stopLoop ({ s with stopFlag := true }.next next).1
        ({ s with stopFlag := true }.next next).2
  | joined {next : StopNext} (hp : s.place = .joining next) (hlife : s.life = .ended) :
      Steps s .joined (s.next next).1 (s.next next).2
  | drop {r : Int} (hp : s.place = .returned r) : Steps s .drop { s with place := .stop .gone } []
  | lives {l : ConnectLabel} {life : LoopLife} (hlife : s.life ≠ .ended)
      (hwork : s.life = .inTurn → s.work = .idle) : Steps s l { s with life } []
  | establish {tasks : List ConnectTask} {state : TcpState} {es : List ConnectEvent}
      (hturn : s.mayTurn = true) (htasks : s.tasks = .establish :: tasks)
      (hes : Establishes s state es) : Steps s .task { s with tasks, work := .report 0, state } es
  | arms {tasks : List ConnectTask} (hturn : s.mayTurn = true)
      (htasks : s.tasks = .inProgress :: tasks) (hstate : s.state = .notConnected) :
      Steps s .task { s with tasks, finishArmed := true } []
  | late {tasks : List ConnectTask} (hturn : s.mayTurn = true)
      (htasks : s.tasks = .inProgress :: tasks) (hstate : s.state ≠ .notConnected) :
      Steps s .task { s with tasks, work := .report EISCONN } [.failed EISCONN]
  | destroys {tasks : List ConnectTask} (hturn : s.mayTurn = true)
      (htasks : s.tasks = .destroy :: tasks) :
      Steps s .task { s with tasks, state := .closed, finishArmed := false, destroyed := true } []
  | ignores {e : Nat} (hcompleted : s.completed = true) : Steps s (.polled e) s []
  | connected {state : TcpState} {es : List ConnectEvent} (hturn : s.mayTurn = true)
      (harmed : s.finishArmed = true) (hcompleted : s.completed = false)
      (hes : Establishes s state es) :
      Steps s (.polled 0)
        { s with completed := true, finishArmed := false, work := .report 0, state } es
  | refused {e : Nat} (hturn : s.mayTurn = true) (harmed : s.finishArmed = true)
      (hcompleted : s.completed = false) (he : 0 < e) :
      Steps s (.polled e)
        { s with completed := true, finishArmed := false, work := .report e, state := .closed }
        [.failed e]
  | unlocked {e : Nat} (hwork : s.work = .report e) (hp : s.place = .gone) :
      Steps s .report { s with work := .callDone } []
  | info {e : Nat} (hwork : s.work = .report e) (hp : s.place ≠ .gone) :
      Steps s .report { s with errorInfo := infoOf e, work := .reportCode e } []
  | code {e : Nat} (hwork : s.work = .reportCode e) :
      Steps s .report { s with errorCode := e, work := .callDone } []
  | done (hwork : s.work = .callDone) :
      Steps s .report { s.callDone with work := .idle } [.called (s.place != .gone)]
  | lost (hturn : s.mayTurn = true) (hstate : s.state = .connected) :
      Steps s .lost { s with state := .closed, finishArmed := false } []
  | stopped : Steps s .stopped { s with stopFlag := true } []

theorem Steps.of_eq {s s' : ConnectingClient} {l : ConnectLabel} {es : List ConnectEvent}
    {r : ConnectingClient × List ConnectEvent} (hr : Steps s l r.1 r.2) (h : r = (s', es)) :
    Steps s l s' es := by
  subst h
  exact hr

theorem connectEstablished_establishes (s : ConnectingClient) :
    ∃ state es, s.connectEstablished = ({ s with state }, es) ∧ Establishes s state es := by
  by_cases hstate : s.state = .notConnected
  · exact ⟨.connected, [.established], if_pos hstate, .first hstate⟩
  · exact ⟨s.state, [], if_neg hstate, .again hstate⟩

theorem work_idle_of_mayTurn {s : ConnectingClient} (h : s.mayTurn = true) :
    s.life = .inTurn ∧ s.work = .idle := by
  simp only [mayTurn, Bool.and_eq_true, beq_iff_eq] at h
  exact h.1

theorem steps_of_task {s s' : ConnectingClient} {es : List ConnectEvent} {task : ConnectTask}
    {tasks : List ConnectTask} (htasks : s.tasks = task :: tasks) (hturn : s.mayTurn = true)
    (h : { s with tasks }.runTask task = (s', es)) : Steps s .task s' es := by
  cases task with
  | establish =>
    obtain ⟨state, es', heq, hes⟩ :=
      connectEstablished_establishes { s with tasks, work := .report 0 }
    obtain ⟨rfl, rfl⟩ := Prod.mk.inj (heq.symm.trans h)
    refine .establish hturn htasks ?_
    cases hes with
    | first hstate => exact .first hstate
    | again hstate => exact .again hstate
  | inProgress =>
    by_cases hstate : s.state = .notConnected
    · simp only [runTask, connectInProgress, hstate, if_true] at h
      obtain ⟨rfl, rfl⟩ := Prod.mk.inj h
      exact hstate ▸ .arms hturn htasks hstate
    · simp only [runTask, connectInProgress, hstate, if_false] at h
      obtain ⟨rfl, rfl⟩ := Prod.mk.inj h
      exact .late hturn htasks hstate
  | destroy =>
    obtain ⟨rfl, rfl⟩ := Prod.mk.inj h
    exact .destroys hturn htasks

theorem steps_of_finish {s s' : ConnectingClient} {es : List ConnectEvent} {e : Nat}
    (hturn : s.mayTurn = true) (harmed : s.finishArmed = true) (h : s.finish e = (s', es)) :
    Steps s (.polled e) s' es := by
  rw [finish] at h
  split at h
  · rename_i hcompleted
    obtain ⟨rfl, rfl⟩ := Prod.mk.inj h
    exact .ignores hcompleted
  · rename_i hcompleted
    have hnot := Bool.eq_false_iff.mpr hcompleted
    split at h
    · rename_i he
      subst he
      obtain ⟨state, es', heq, hes⟩ := connectEstablished_establishes
        { s with completed := true, finishArmed := false, work := .report 0 }
      obtain ⟨rfl, rfl⟩ := Prod.mk.inj (heq.symm.trans h)
      refine .connected hturn harmed hnot ?_
      cases hes with
      | first hstate => exact .first hstate
      | again hstate => exact .again hstate
    · rename_i he
      obtain ⟨rfl, rfl⟩ := Prod.mk.inj h
      exact .refused hturn harmed hnot (Nat.pos_of_ne_zero he)

theorem steps_of_connect {s s' : ConnectingClient} {es : List ConnectEvent} {r : ConnectStart}
    (hp : s.place = .idle) (h : s.connect r = some (s', es)) : Steps s (.connect r) s' es := by
  cases r with
  | socketFails e =>
    obtain ⟨he, heq⟩ := Option.ite_none_right_eq_some.mp h
    obtain ⟨rfl, rfl⟩ := Prod.mk.inj (Option.some.inj heq)
    exact .connectFails hp he (Or.inl rfl)
  | connectFails e =>
    obtain ⟨he, heq⟩ := Option.ite_none_right_eq_some.mp h
    obtain ⟨rfl, rfl⟩ := Prod.mk.inj (Option.some.inj heq)
    exact .connectFails hp he (Or.inr rfl)
  | connects =>
    obtain ⟨rfl, rfl⟩ := Prod.mk.inj (Option.some.inj h)
    exact .connectQueues hp (by simp)
  | inProgress =>
    obtain ⟨rfl, rfl⟩ := Prod.mk.inj (Option.some.inj h)
    exact .connectQueues hp (by simp)

theorem steps_of_look {s s' : ConnectingClient} {es : List ConnectEvent}
    (h : s.step .look = some (s', es)) : Steps s .look s' es := by
  simp only [step] at h
  split at h
  · rename_i connection next hp
    split at h
    · rename_i hloop
      obtain ⟨rfl, hloop⟩ := hloop
      obtain ⟨rfl, rfl⟩ := Prod.mk.inj (Option.some.inj h)
      exact .lookOnLoop hp hloop
    · rename_i hloop
      have hnot : connection = true → s.onLoop = false := fun hconnection => by
        simpa [hconnection] using hloop
      split at h
      · rename_i hlooping
        obtain ⟨rfl, hlooping⟩ := hlooping
        obtain ⟨rfl, rfl⟩ := Prod.mk.inj (Option.some.inj h)
        exact .lookLooping hp (hnot rfl) hlooping
      · rename_i haway
        obtain ⟨rfl, rfl⟩ := Prod.mk.inj (Option.some.inj h)
        refine .lookAway hp fun hconnection => ⟨hnot hconnection, ?_⟩
        simpa [hconnection] using haway
  · exact absurd h (by simp)

theorem steps_of_stopLoop {s s' : ConnectingClient} {es : List ConnectEvent}
    (h : s.step .stopLoop = some (s', es)) : Steps s .stopLoop s' es := by
  simp only [step] at h
  split at h
  · rename_i next hp
    split at h
    · rename_i howned
      split at h
      · rename_i hjoins
        obtain ⟨rfl, rfl⟩ := Prod.mk.inj (Option.some.inj h)
        exact .joins hp howned hjoins.1 hjoins.2
      · rename_i hjoins
        refine .of_eq (.detaches hp howned fun hthread => ?_) (Option.some.inj h)
        simpa [hthread] using hjoins
    · rename_i howned
      exact .of_eq (.leaves hp (Bool.eq_false_iff.mpr howned)) (Option.some.inj h)
  · exact absurd h (by simp)

theorem steps_of_report {s s' : ConnectingClient} {es : List ConnectEvent}
    (h : s.report s.work = some (s', es)) : Steps s .report s' es := by
  cases hwork : s.work with
  | idle => simp [hwork, report] at h
  | report e =>
    rw [hwork, report] at h
    split at h
    · rename_i hp
      obtain ⟨rfl, rfl⟩ := Prod.mk.inj (Option.some.inj h)
      exact .unlocked hwork hp
    · rename_i hp
      obtain ⟨rfl, rfl⟩ := Prod.mk.inj (Option.some.inj h)
      exact .info hwork hp
  | reportCode e =>
    rw [hwork] at h
    obtain ⟨rfl, rfl⟩ := Prod.mk.inj (Option.some.inj h)
    exact .code hwork
  | callDone =>
    rw [hwork] at h
    obtain ⟨rfl, rfl⟩ := Prod.mk.inj (Option.some.inj h)
    exact .done hwork

theorem steps_of_step {s s' : ConnectingClient} {l : ConnectLabel} {es : List ConnectEvent}
    (h : s.step l = some (s', es)) : Steps s l s' es := by
  cases l with
  | connect r =>
    obtain ⟨⟨hp, -⟩, h⟩ := Option.ite_none_right_eq_some.mp h
    exact steps_of_connect hp h
  | wakes =>
    obtain ⟨⟨hp, hdone⟩, h⟩ := Option.ite_none_right_eq_some.mp h
    obtain ⟨rfl, rfl⟩ := Prod.mk.inj (Option.some.inj h)
    exact .wakes hp hdone
  | timesOut =>
    obtain ⟨⟨hp, hdone⟩, h⟩ := Option.ite_none_right_eq_some.mp h
    obtain ⟨rfl, rfl⟩ := Prod.mk.inj (Option.some.inj h)
    exact .timesOut hp hdone
  | writeInfo =>
    obtain ⟨hp, h⟩ := Option.ite_none_right_eq_some.mp h
    obtain ⟨rfl, rfl⟩ := Prod.mk.inj (Option.some.inj h)
    exact .writeInfo hp
  | writeCode =>
    obtain ⟨hp, h⟩ := Option.ite_none_right_eq_some.mp h
    obtain ⟨rfl, rfl⟩ := Prod.mk.inj (Option.some.inj h)
    exact .writeCode hp
  | exchange =>
    simp only [step] at h
    split at h
    · rename_i next hp
      split at h
      · rename_i hstopped
        exact .of_eq (.stoppedBefore hp hstopped) (Option.some.inj h)
      · rename_i hstopped
        obtain ⟨rfl, rfl⟩ := Prod.mk.inj (Option.some.inj h)
        exact .exchange hp (Bool.eq_false_iff.mpr hstopped)
    · exact absurd h (by simp)
  | look => exact steps_of_look h
  | queue =>
    simp only [step] at h
    split at h
    · rename_i next hp
      obtain ⟨rfl, rfl⟩ := Prod.mk.inj (Option.some.inj h)
      exact .queue hp
    · exact absurd h (by simp)
  | seesDestroyed =>
    simp only [step] at h
    split at h
    · rename_i next hp
      obtain ⟨hdestroyed, h⟩ := Option.ite_none_right_eq_some.mp h
      obtain ⟨rfl, rfl⟩ := Prod.mk.inj (Option.some.inj h)
      exact .seesDestroyed hp hdestroyed
    · exact absurd h (by simp)
  | stopLoop => exact steps_of_stopLoop h
  | joined =>
    simp only [step] at h
    split at h
    · rename_i next hp
      obtain ⟨hlife, h⟩ := Option.ite_none_right_eq_some.mp h
      exact .of_eq (.joined hp hlife) (Option.some.inj h)
    · exact absurd h (by simp)
  | drop =>
    simp only [step] at h
    split at h
    · rename_i r hp
      obtain ⟨rfl, rfl⟩ := Prod.mk.inj (Option.some.inj h)
      exact .drop hp
    · exact absurd h (by simp)
  | begins =>
    obtain ⟨⟨hlife, -⟩, h⟩ := Option.ite_none_right_eq_some.mp h
    obtain ⟨rfl, rfl⟩ := Prod.mk.inj (Option.some.inj h)
    exact .lives (by simp [hlife]) (by simp [hlife])
  | testFlag =>
    obtain ⟨hlife, h⟩ := Option.ite_none_right_eq_some.mp h
    obtain ⟨rfl, rfl⟩ := Prod.mk.inj (Option.some.inj h)
    exact .lives (by simp [hlife]) (by simp [hlife])
  | turnEnds =>
    obtain ⟨hturn, h⟩ := Option.ite_none_right_eq_some.mp h
    obtain ⟨rfl, rfl⟩ := Prod.mk.inj (Option.some.inj h)
    obtain ⟨hlife, hwork⟩ := work_idle_of_mayTurn hturn
    exact .lives (by simp [hlife]) fun _ => hwork
  | pollFails =>
    obtain ⟨hturn, h⟩ := Option.ite_none_right_eq_some.mp h
    obtain ⟨rfl, rfl⟩ := Prod.mk.inj (Option.some.inj h)
    obtain ⟨hlife, hwork⟩ := work_idle_of_mayTurn hturn
    exact .lives (by simp [hlife]) fun _ => hwork
  | task =>
    simp only [step] at h
    split at h
    · rename_i task tasks htasks
      obtain ⟨hturn, h⟩ := Option.ite_none_right_eq_some.mp h
      exact steps_of_task htasks hturn (Option.some.inj h)
    · exact absurd h (by simp)
  | polled e =>
    obtain ⟨⟨hturn, harmed⟩, h⟩ := Option.ite_none_right_eq_some.mp h
    exact steps_of_finish hturn harmed (Option.some.inj h)
  | report =>
    obtain ⟨-, h⟩ := Option.ite_none_right_eq_some.mp h
    exact steps_of_report h
  | lost =>
    obtain ⟨⟨hturn, hstate⟩, h⟩ := Option.ite_none_right_eq_some.mp h
    obtain ⟨rfl, rfl⟩ := Prod.mk.inj (Option.some.inj h)
    exact .lost hturn hstate
  | stopped =>
    obtain ⟨-, h⟩ := Option.ite_none_left_eq_some.mp h
    obtain ⟨rfl, rfl⟩ := Prod.mk.inj (Option.some.inj h)
    exact .stopped

end ConnectingClient

end RocketRpc.Net
