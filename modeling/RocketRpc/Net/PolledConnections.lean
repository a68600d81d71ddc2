import RocketRpc.Net.EPollPoller

/-
  The connections of one loop and its poller (`rocket/net/tcp/tcp_connection.cc`,
  `tcp_client.cc`, `tcp_server.cc`).

  A connection lives as long as something refers to it: a client, the server, a task of the loop,
  the `finish` in its own descriptor, somebody who was given a pointer. Then its destructor
  closes the descriptor, whether the poller has it or not. `TcpClient::stop` and the server remove
  a descriptor before that; `TcpClient::connect` only lets go of the connection it replaces.
-/

namespace RocketRpc.Net

open Machine

inductive TcpConnectionType where
  | server
  | client
  deriving DecidableEq, Repr

/-- What the poller has to do with of a connection. -/
structure PolledConnection where
  fd : Int
  type : TcpConnectionType
  state : TcpState := .notConnected
  fdEvent : FdEvent := {}
  destroyed : Bool := false
  deriving DecidableEq, Repr

/-- `finish` of `connectInProgress` is set; the callback of a client that it calls has a pointer to
    the connection. -/
def FdEvent.connecting (e : FdEvent) : Bool :=
  e.writeCallback == some (.finish true) || e.errorCallback == some (.finish true)

/-- A task of the loop that has a pointer to a connection. -/
inductive LoopTask where
  | connectEstablished (k : ConnPtr)
  | connectInProgress (k : ConnPtr)
  | connectDestroyed (k : ConnPtr)
  deriving DecidableEq, Repr

def LoopTask.connection : LoopTask → ConnPtr
  | .connectEstablished k | .connectInProgress k | .connectDestroyed k => k

structure PolledClient where
  /-- `m_connection`. -/
  connection : Option ConnPtr := none
  stopped : Bool := false
  deriving DecidableEq, Repr

/-- What `::connect` returns to `TcpClient::connect`: 0, `EINPROGRESS` or another error. -/
inductive ConnectResult where
  | connected
  | inProgress
  | failed
  deriving DecidableEq, Repr

/-- Where `TcpClient::stop` is called. -/
inductive StopCaller where
  | loopThread
  | otherThread (isLooping : Bool)
  deriving DecidableEq, Repr

structure PolledLoop where
  poller : EPollPoller
  conns : List PolledConnection := []
  clients : List PolledClient := []
  /-- `m_connections` of the server. -/
  connections : List ConnPtr := []
  tasks : List LoopTask := []
  /-- The connection that `onAccept` has made and not yet inserted in `m_connections`. -/
  accepting : Option ConnPtr := none
  /-- The other pointers to connections. -/
  held : List ConnPtr := []
  /-- The open descriptors that do not belong to connections. -/
  others : Int → Bool

inductive PolledLabel where
  | newClient
  /-- `TcpClient::connect` of client `c`, with the descriptor that `socket` returns. -/
  | connect (c : Nat) (fd : Option Int) (result : ConnectResult)
  | stop (c : Nat) (caller : StopCaller)
  /-- `onAccept` up to the insertion in `m_connections`. -/
  | accept (fd : Int)
  | insert
  /-- The loop runs the next task. -/
  | runTask
  /-- The poller reports an event to a connection that is connecting. -/
  | finish (k : ConnPtr) (soError : Nat)
  | updateWriteInterest (k : ConnPtr) (allWritten : Bool)
  | shutdownInLoop (k : ConnPtr)
  | handleClose (k : ConnPtr)
  /-- Somebody copies a pointer, and drops one. -/
  | hold (k : ConnPtr)
  | drop (k : ConnPtr)
  /-- `~TcpConnection`. -/
  | destroy (k : ConnPtr)
  /-- Another descriptor is opened, and closed. -/
  | openOther (fd : Int)
  | closeOther (fd : Int)
  deriving DecidableEq, Repr

namespace PolledLoop

/-- No connection yet; the descriptors of `others` are open. -/
def new (others : Int → Bool) : PolledLoop where
  poller := { kernel := { opened := others } }
  others

/-- There is a pointer to the connection. -/
def Referenced (w : PolledLoop) (k : ConnPtr) : Prop :=
  (∃ client ∈ w.clients, client.connection = some k) ∨ k ∈ w.connections ∨
    (∃ task ∈ w.tasks, task.connection = k) ∨ w.accepting = some k ∨ k ∈ w.held ∨
    ∃ c ∈ w.conns[k]?, c.fdEvent.connecting = true

instance (w : PolledLoop) (k : ConnPtr) : Decidable (w.Referenced k) :=
  inferInstanceAs (Decidable (_ ∨ _ ∨ _ ∨ _ ∨ _ ∨ _))

/-- `weak.lock()`, or a pointer. -/
def lock (w : PolledLoop) (k : ConnPtr) : Option PolledConnection :=
  if w.Referenced k then w.conns[k]? else none

def put (w : PolledLoop) (k : ConnPtr) (c : PolledConnection) : PolledLoop :=
  { w with conns := w.conns.set k c }

def addEpollEvent (w : PolledLoop) (k : ConnPtr) (c : PolledConnection) :
    PolledLoop × List PollerEvent :=
  let (poller, es) := w.poller.updateFdEvent c.fd k c.fdEvent
  ({ w with poller }, es)

def deleteEpollEvent (w : PolledLoop) (c : PolledConnection) : PolledLoop × List PollerEvent :=
  let (poller, es) := w.poller.removeFdEvent c.fd
  ({ w with poller }, es)

/-- The descriptor's callbacks have changed. -/
def update (w : PolledLoop) (k : ConnPtr) (c : PolledConnection) : PolledLoop × List PollerEvent :=
  (w.put k c).addEpollEvent k c

def connectEstablished (w : PolledLoop) (k : ConnPtr) (c : PolledConnection) :
    PolledLoop × List PollerEvent :=
  if c.state ≠ .notConnected then (w, [])
  else
    w.update k { c with
      state := .connected
      fdEvent := { c.fdEvent with
        readCallback := true
        errorCallback := some .handleError } }

def connectInProgress (w : PolledLoop) (k : ConnPtr) (c : PolledConnection) :
    PolledLoop × List PollerEvent :=
  if c.state ≠ .notConnected then (w, [])
  else
    w.update k { c with
      fdEvent := { c.fdEvent with
        writeCallback := some (.finish true)
        errorCallback := some (.finish true) } }

/-- `deleteEpollEvent`, `clearCallbacks`, and the state. -/
def remove (w : PolledLoop) (k : ConnPtr) (c : PolledConnection) (state : TcpState) :
    PolledLoop × List PollerEvent :=
  let (w, es) := w.deleteEpollEvent c
  (w.put k { c with state, fdEvent := {} }, es)

/-- `finish` of `connectInProgress`. -/
def finish (w : PolledLoop) (k : ConnPtr) (c : PolledConnection) (soError : Nat) :
    PolledLoop × List PollerEvent :=
  if soError ≠ 0 then w.remove k c .closed
  else
    let (w, es) := w.remove k c c.state
    let (w, es') := w.connectEstablished k { c with fdEvent := {} }
    (w, es ++ es')

def connectDestroyed (w : PolledLoop) (k : ConnPtr) (c : PolledConnection) :
    PolledLoop × List PollerEvent :=
  w.remove k c .closed

def enableWriting (w : PolledLoop) (k : ConnPtr) (c : PolledConnection) :
    PolledLoop × List PollerEvent :=
  w.update k { c with fdEvent := { c.fdEvent with writeCallback := some .handleWrite } }

def disableWriting (w : PolledLoop) (k : ConnPtr) (c : PolledConnection) :
    PolledLoop × List PollerEvent :=
  w.update k { c with fdEvent := { c.fdEvent with writeCallback := none } }

/-- `updateWriteInterest` up to its callback. -/
def updateWriteInterest (w : PolledLoop) (k : ConnPtr) (c : PolledConnection) (allWritten : Bool) :
    PolledLoop × List PollerEvent :=
  match allWritten, c.fdEvent.writeCallback with
  | true, some _ => w.disableWriting k c
  | false, none => w.enableWriting k c
  | _, _ => (w, [])

def queueInLoop (w : PolledLoop) (task : LoopTask) : PolledLoop :=
  { w with tasks := w.tasks ++ [task] }

/-- `removeConnection`, the close callback of a server. -/
def removeConnection (w : PolledLoop) (k : ConnPtr) : PolledLoop :=
  { w with connections := w.connections.filter (· ≠ k) }.queueInLoop (.connectDestroyed k)

def handleClose (w : PolledLoop) (k : ConnPtr) (c : PolledConnection) :
    PolledLoop × List PollerEvent :=
  if c.state = .closed then (w, [])
  else
    let (w, es) := w.remove k c .closed
    match c.type with
    | .server => (w.removeConnection k, es)
    | .client => (w, es)

/-- `std::make_shared<TcpConnection>` with a new descriptor. -/
def addConnection (w : PolledLoop) (fd : Int) (type : TcpConnectionType) : PolledLoop :=
  { w with poller := w.poller.openFd fd, conns := w.conns ++ [{ fd, type }] }

/-- The kernel may return `fd` for a new open file. -/
def mayOpen (w : PolledLoop) (fd : Int) : Bool := 0 ≤ fd && !w.poller.kernel.opened fd

def setClient (w : PolledLoop) (c : Nat) (client : PolledClient) : PolledLoop :=
  { w with clients := w.clients.set c client }

def connect (w : PolledLoop) (c : Nat) (client : PolledClient) (fd : Option Int)
    (result : ConnectResult) : Option PolledLoop :=
  let k := w.conns.length
  let client := { client with stopped := false }
  match fd with
  | none => some (w.setClient c client)
  | some fd =>
    if !w.mayOpen fd then none
    else
      -- the client lets go of the connection that it had
      let w' := (w.addConnection fd .client).setClient c { client with connection := some k }
      match result with
      | .connected => some (w'.queueInLoop (.connectEstablished k))
      | .inProgress => some (w'.queueInLoop (.connectInProgress k))
      -- the descriptor is closed at once
      | .failed => some (w.setClient c client)

def stop (w : PolledLoop) (c : Nat) (client : PolledClient) (caller : StopCaller) :
    PolledLoop × List PollerEvent :=
  if client.stopped then (w, [])
  else
    let w' := w.setClient c { connection := none, stopped := true }
    match client.connection, caller with
    | some k, .loopThread =>
      match w.conns[k]? with
      | some conn => w'.connectDestroyed k conn
      | none => (w', [])
    | some k, .otherThread true => (w'.queueInLoop (.connectDestroyed k), [])
    | _, _ => (w', [])

def accept (w : PolledLoop) (fd : Int) : Option PolledLoop :=
  if w.accepting.isSome || !w.mayOpen fd then none
  else
    let k := w.conns.length
    some ({ w.addConnection fd .server with
      accepting := some k }.queueInLoop (.connectEstablished k))

def runTask (w : PolledLoop) : LoopTask → PolledConnection → PolledLoop × List PollerEvent
  | .connectEstablished k, c => w.connectEstablished k c
  | .connectInProgress k, c => w.connectInProgress k c
  | .connectDestroyed k, c => w.connectDestroyed k c

def destroy (w : PolledLoop) (k : ConnPtr) (c : PolledConnection) : PolledLoop × List PollerEvent :=
  let (poller, es) := w.poller.closeFd c.fd
  ({ w with poller }.put k { c with destroyed := true }, es)

/-- A step, with the events of the poller. -/
def step (w : PolledLoop) : PolledLabel → Option (PolledLoop × List PollerEvent)
  | .newClient => some ({ w with clients := w.clients ++ [{}] }, [])
  | .connect c fd result =>
    (w.clients[c]?.bind fun client => w.connect c client fd result).map fun w' => (w', [])
  | .stop c caller => w.clients[c]?.map fun client => w.stop c client caller
  | .accept fd => (w.accept fd).map fun w' => (w', [])
  | .insert =>
    w.accepting.map fun k => ({ w with connections := k :: w.connections, accepting := none }, [])
  | .runTask =>
    match w.tasks with
    | [] => none
    | task :: tasks => (w.conns[task.connection]?).map fun c => { w with tasks }.runTask task c
  | .finish k soError =>
    (w.lock k).bind fun c => if c.fdEvent.connecting then some (w.finish k c soError) else none
  | .updateWriteInterest k allWritten =>
    (w.lock k).bind fun c =>
      if c.state = .closed then none else some (w.updateWriteInterest k c allWritten)
  | .shutdownInLoop k =>
    (w.lock k).map fun c =>
      (if c.state = .closed then w else w.put k { c with state := .halfClosing }, [])
  | .handleClose k => (w.lock k).map fun c => w.handleClose k c
  | .hold k => (w.lock k).map fun _ => ({ w with held := k :: w.held }, [])
  | .drop k => if k ∈ w.held then some ({ w with held := w.held.erase k }, []) else none
  | .destroy k =>
    w.conns[k]?.bind fun c =>
      if c.destroyed ∨ w.Referenced k then none else some (w.destroy k c)
  | .openOther fd =>
    if w.mayOpen fd then
      some ({ w with
        poller := w.poller.openFd fd
        others := Function.update w.others fd true }, [])
    else none
  | .closeOther fd =>
    if w.others fd then
      some ({ w with
        poller := { w.poller with kernel := w.poller.kernel.close fd }
        others := Function.update w.others fd false }, [])
    else none

end PolledLoop

/-! ## What every step keeps -/

/-- The descriptor of connection `k`, which is not destroyed, is `fd`. -/
def PolledLoop.Owns (w : PolledLoop) (k : ConnPtr) (fd : Int) : Prop :=
  ∃ c, w.conns[k]? = some c ∧ c.destroyed = false ∧ c.fd = fd

open PolledLoop

variable {w w' : PolledLoop} {tr es : List PollerEvent} {k : ConnPtr} {c c' : PolledConnection}

/-- The descriptor of a connection is open and of no other one, and an entry of the epoll set
    points to the connection of its descriptor. -/
structure Booked (w : PolledLoop) (tr : List PollerEvent) : Prop where
  mirrors : Mirrors w.poller tr
  each : EachAfter UpdateLaw tr
  live : ∀ k, w.Referenced k → ∃ fd, w.Owns k fd
  opened : ∀ k fd, w.Owns k fd →
    0 ≤ fd ∧ w.poller.kernel.opened fd = true ∧ w.others fd = false
  distinct : ∀ j k fd, w.Owns j fd → w.Owns k fd → j = k
  others : ∀ fd, w.others fd = true → w.poller.kernel.opened fd = true
  owner : ∀ fd e, w.poller.kernel.epoll fd = some e → w.Owns e.ptr fd

theorem booked_new (others : Int → Bool) : Booked (new others) [] where
  mirrors := mirrors_new others
  each := eachAfter_nil
  live k h := by simp [Referenced, new] at h
  opened k fd h := by simp [Owns, new] at h
  distinct j k fd h := by simp [Owns, new] at h
  others fd h := h
  owner fd e h := by simp [new] at h

/-- A step that keeps the descriptors. -/
theorem Booked.of_owns (h : Booked w tr) (hpoller : w'.poller = w.poller)
    (howns : ∀ k fd, w'.Owns k fd ↔ w.Owns k fd) (hothers : w'.others = w.others)
    (hrefs : ∀ k, w'.Referenced k → ∃ fd, w.Owns k fd) : Booked w' tr where
  mirrors := hpoller ▸ h.mirrors
  each := h.each
  live k hk := (hrefs k hk).imp fun fd => (howns k fd).mpr
  opened k fd hk := by
    rw [hpoller, hothers]
    exact h.opened k fd ((howns k fd).mp hk)
  distinct j k fd hj hk := h.distinct j k fd ((howns j fd).mp hj) ((howns k fd).mp hk)
  others := by
    rw [hpoller, hothers]
    exact h.others
  owner fd e he := (howns e.ptr fd).mpr (h.owner fd e (hpoller ▸ he))

/-- Pointers are dropped or copied. -/
theorem Booked.of_refs (h : Booked w tr) (hpoller : w'.poller = w.poller)
    (hconns : w'.conns = w.conns) (hothers : w'.others = w.others)
    (hrefs : ∀ k, w'.Referenced k → w.Referenced k) : Booked w' tr :=
  h.of_owns hpoller (fun k fd => by rw [Owns, Owns, hconns]) hothers fun k hk =>
    h.live k (hrefs k hk)

theorem owns_put (hat : w.conns[k]? = some c) (hfd : c'.fd = c.fd)
    (hlive : c'.destroyed = c.destroyed) (j : ConnPtr) (fd : Int) :
    (w.put k c').Owns j fd ↔ w.Owns j fd := by
  obtain ⟨hlt, rfl⟩ := List.getElem?_eq_some_iff.mp hat
  unfold Owns PolledLoop.put
  by_cases hj : k = j
  · subst hj
    simp [hlt, hfd, hlive]
  · simp [List.getElem?_set_ne hj]

/-- Only the pointers in the descriptor of a connection depend on the connection. -/
theorem referenced_put {j : ConnPtr} (h : (w.put k c').Referenced j) :
    w.Referenced j ∨ (j = k ∧ c'.fdEvent.connecting = true) := by
  obtain h | h | h | h | h | ⟨d, hd, hconnecting⟩ := h
  · exact Or.inl (Or.inl h)
  · exact Or.inl (Or.inr (Or.inl h))
  · exact Or.inl (Or.inr (Or.inr (Or.inl h)))
  · exact Or.inl (Or.inr (Or.inr (Or.inr (Or.inl h))))
  · exact Or.inl (Or.inr (Or.inr (Or.inr (Or.inr (Or.inl h)))))
  · rcases eq_or_ne j k with rfl | hj
    · obtain ⟨-, rfl⟩ : (∃ d, w.conns[j]? = some d) ∧ c' = d := by
        simpa [PolledLoop.put, List.getElem?_set_self'] using hd
      exact Or.inr ⟨rfl, hconnecting⟩
    · refine Or.inl (Or.inr (Or.inr (Or.inr (Or.inr (Or.inr ⟨d, ?_, hconnecting⟩)))))
      exact (List.getElem?_set_ne hj.symm).symm.trans hd

/-- A connection changes its state and its callbacks. -/
theorem Booked.put (h : Booked w tr) (hat : w.conns[k]? = some c) (hlive : c.destroyed = false)
    (hfd : c'.fd = c.fd) (hlive' : c'.destroyed = c.destroyed) : Booked (w.put k c') tr := by
  refine h.of_owns rfl (owns_put hat hfd hlive') rfl fun j hj => ?_
  rcases referenced_put hj with hj | ⟨rfl, -⟩
  · exact h.live j hj
  · exact ⟨c.fd, c, hat, hlive, rfl⟩

theorem getElem?_put (hat : w.conns[k]? = some c) : (w.put k c').conns[k]? = some c' :=
  List.getElem?_set_self (List.getElem?_eq_some_iff.mp hat).1

theorem Booked.update (h : Booked w tr) (hat : w.conns[k]? = some c) (hlive : c.destroyed = false)
    (hfd : c'.fd = c.fd) (hlive' : c'.destroyed = c.destroyed) :
    Booked (w.update k c').1 (tr ++ (w.update k c').2) := by
  have hput := h.put hat hlive hfd hlive'
  have howns : (w.put k c').Owns k c'.fd := ⟨c', getElem?_put hat, hlive'.trans hlive, rfl⟩
  obtain ⟨hfd, hopen, -⟩ := hput.opened k c'.fd howns
  obtain ⟨hmirrors, heach⟩ := updateFdEvent_mirrors k c'.fdEvent hput.mirrors
    hfd hopen rfl hput.each
  obtain ⟨hopened, hentries⟩ := updateFdEvent_frame k c'.fdEvent hput.mirrors
    hfd hopen rfl
  exact {
    mirrors := hmirrors
    each := heach
    live := hput.live
    opened := fun j fd hj => hopened ▸ hput.opened j fd hj
    distinct := hput.distinct
    others := fun fd hother => hopened ▸ hput.others fd hother
    owner := fun fd e he => by
      rcases hentries fd e he with ⟨rfl, rfl⟩ | he
      · exact howns
      · exact hput.owner fd e he }

theorem Booked.remove (h : Booked w tr) (hat : w.conns[k]? = some c) (hlive : c.destroyed = false)
    (state : TcpState) :
    Booked (w.remove k c state).1 (tr ++ (w.remove k c state).2) := by
  have howns : w.Owns k c.fd := ⟨c, hat, hlive, rfl⟩
  obtain ⟨hfd, hopen, -⟩ := h.opened k c.fd howns
  obtain ⟨hmirrors, heach, hopened, hentries⟩ :=
    removeFdEvent_mirrors h.mirrors hfd hopen rfl h.each
  have hdeleted : Booked (w.deleteEpollEvent c).1 (tr ++ (w.deleteEpollEvent c).2) := {
    mirrors := hmirrors
    each := heach
    live := h.live
    opened := fun j fd hj => hopened ▸ h.opened j fd hj
    distinct := h.distinct
    others := fun fd hother => hopened ▸ h.others fd hother
    owner := fun fd e he => h.owner fd e (hentries fd e he).2 }
  exact hdeleted.put hat hlive rfl rfl

theorem Booked.connectEstablished (h : Booked w tr) (hat : w.conns[k]? = some c)
    (hlive : c.destroyed = false) :
    Booked (w.connectEstablished k c).1 (tr ++ (w.connectEstablished k c).2) := by
  unfold PolledLoop.connectEstablished
  split
  · simpa using h
  · exact h.update hat hlive rfl rfl

theorem Booked.connectInProgress (h : Booked w tr) (hat : w.conns[k]? = some c)
    (hlive : c.destroyed = false) :
    Booked (w.connectInProgress k c).1 (tr ++ (w.connectInProgress k c).2) := by
  unfold PolledLoop.connectInProgress
  split
  · simpa using h
  · exact h.update hat hlive rfl rfl

theorem Booked.finish (h : Booked w tr) (hat : w.conns[k]? = some c) (hlive : c.destroyed = false)
    (soError : Nat) : Booked (w.finish k c soError).1 (tr ++ (w.finish k c soError).2) := by
  unfold PolledLoop.finish
  split
  · exact h.remove hat hlive .closed
  · dsimp only
    rw [← List.append_assoc]
    exact (h.remove hat hlive c.state).connectEstablished (getElem?_put hat) hlive

theorem Booked.updateWriteInterest (h : Booked w tr) (hat : w.conns[k]? = some c)
    (hlive : c.destroyed = false) (allWritten : Bool) :
    Booked (w.updateWriteInterest k c allWritten).1
      (tr ++ (w.updateWriteInterest k c allWritten).2) := by
  unfold PolledLoop.updateWriteInterest
  split
  · exact h.update hat hlive rfl rfl
  · exact h.update hat hlive rfl rfl
  · simpa using h

theorem referenced_queueInLoop {task : LoopTask} {j : ConnPtr}
    (h : (w.queueInLoop task).Referenced j) : w.Referenced j ∨ j = task.connection := by
  simp only [Referenced, queueInLoop, List.mem_append, List.mem_singleton] at h ⊢
  grind

theorem referenced_removeConnection {j : ConnPtr} (h : (w.removeConnection k).Referenced j) :
    w.Referenced j ∨ j = k := by
  obtain (h | h | h) | h := referenced_queueInLoop h
  · exact Or.inl (Or.inl h)
  · exact Or.inl (Or.inr (Or.inl (List.mem_filter.mp h).1))
  · exact Or.inl (Or.inr (Or.inr h))
  · exact Or.inr h

theorem Booked.handleClose (h : Booked w tr) (hat : w.conns[k]? = some c)
    (hlive : c.destroyed = false) :
    Booked (w.handleClose k c).1 (tr ++ (w.handleClose k c).2) := by
  unfold PolledLoop.handleClose
  split
  · simpa using h
  have hremoved := h.remove hat hlive .closed
  dsimp only
  split
  · refine hremoved.of_owns rfl (fun _ _ => Iff.rfl) rfl fun j hj => ?_
    rcases referenced_removeConnection hj with hj | rfl
    · exact hremoved.live j hj
    · exact ⟨c.fd, _, getElem?_put hat, hlive, rfl⟩
  · exact hremoved

theorem Booked.runTask (h : Booked w tr) (task : LoopTask)
    (hat : w.conns[task.connection]? = some c) (hlive : c.destroyed = false) :
    Booked (w.runTask task c).1 (tr ++ (w.runTask task c).2) := by
  cases task with
  | connectEstablished k => exact h.connectEstablished hat hlive
  | connectInProgress k => exact h.connectInProgress hat hlive
  | connectDestroyed k => exact h.remove hat hlive .closed

theorem owns_append {fd : Int} {type : TcpConnectionType}
    (hconns : w'.conns = w.conns ++ [⟨fd, type, .notConnected, {}, false⟩]) (j : ConnPtr)
    (fd' : Int) : w'.Owns j fd' ↔ w.Owns j fd' ∨ (j = w.conns.length ∧ fd' = fd) := by
  unfold Owns
  rw [hconns]
  rcases Nat.lt_trichotomy j w.conns.length with hj | rfl | hj
  · simp [List.getElem?_append_left hj, Nat.ne_of_lt hj]
  · rw [List.getElem?_concat_length, List.getElem?_eq_none (Nat.le_refl _)]
    simp only [Option.some.injEq, exists_eq_left', reduceCtorEq, false_and, exists_false, true_and,
      false_or]
    exact eq_comm
  · rw [List.getElem?_append_right (Nat.le_of_lt hj), List.getElem?_eq_none (Nat.le_of_lt hj),
      List.getElem?_eq_none (Nat.le_sub_of_add_le' hj)]
    simp [Nat.ne_of_gt hj]

/-- A new connection is not connecting yet. -/
theorem referenced_addConnection {fd : Int} {type : TcpConnectionType} {j : ConnPtr}
    (h : (w.addConnection fd type).Referenced j) : w.Referenced j := by
  have hself : ∀ c ∈ (w.conns ++ [⟨fd, type, .notConnected, {}, false⟩])[j]?,
      c.fdEvent.connecting = true → c ∈ w.conns[j]? := by
    intro c hc hconnecting
    rw [Option.mem_def, List.getElem?_append] at hc
    split at hc
    · exact hc
    · rw [List.mem_singleton.mp (List.mem_of_getElem? hc)] at hconnecting
      exact absurd hconnecting (by simp [FdEvent.connecting])
  simp only [Referenced, addConnection] at h ⊢
  grind

/-- A new connection has a descriptor of its own. -/
theorem Booked.addConnection (fd : Int) (type : TcpConnectionType) (h : Booked w tr)
    (hopen : w.mayOpen fd = true) (hpoller : w'.poller = w.poller.openFd fd)
    (hconns : w'.conns = w.conns ++ [⟨fd, type, .notConnected, {}, false⟩])
    (hothers : w'.others = w.others)
    (hrefs : ∀ k, w'.Referenced k → w.Referenced k ∨ k = w.conns.length) : Booked w' tr := by
  obtain ⟨hfd, hclosed⟩ : 0 ≤ fd ∧ w.poller.kernel.opened fd = false := by
    simpa [mayOpen] using hopen
  have hopened : ∀ fd', w'.poller.kernel.opened fd' = true ↔
      w.poller.kernel.opened fd' = true ∨ fd' = fd := by
    intro fd'
    rw [hpoller]
    exact Kernel.opened_openFd
  have howns := owns_append hconns
  have hfresh : ∀ j, ¬ w.Owns j fd := fun j hj => by simp [(h.opened j fd hj).2.1] at hclosed
  refine ⟨?_, h.each, ?_, ?_, ?_, ?_, ?_⟩
  · rw [hpoller]
    exact ⟨h.mirrors.registered, h.mirrors.stale⟩
  · intro j hj
    rcases hrefs j hj with hj | rfl
    · exact (h.live j hj).imp fun fd' hfd' => (howns j fd').mpr (Or.inl hfd')
    · exact ⟨fd, (howns _ fd).mpr (Or.inr ⟨rfl, rfl⟩)⟩
  · intro j fd' hj
    rw [hopened, hothers]
    rcases (howns j fd').mp hj with hj | ⟨rfl, rfl⟩
    · obtain ⟨hnonneg, hopen, hother⟩ := h.opened j fd' hj
      exact ⟨hnonneg, Or.inl hopen, hother⟩
    · refine ⟨hfd, Or.inr rfl, Bool.eq_false_iff.mpr fun hother => ?_⟩
      simp [h.others _ hother] at hclosed
  · intro i j fd' hi hj
    rcases (howns i fd').mp hi with hi | ⟨rfl, rfl⟩ <;>
      rcases (howns j _).mp hj with hj | ⟨rfl, heq⟩
    · exact h.distinct i j fd' hi hj
    · exact absurd (heq ▸ hi) (hfresh i)
    · exact absurd hj (hfresh j)
    · rfl
  · intro fd' hother
    exact (hopened fd').mpr (Or.inl (h.others fd' (hothers ▸ hother)))
  · intro fd' e he
    exact (howns e.ptr fd').mpr (Or.inl (h.owner fd' e (by rwa [hpoller] at he)))

/-- Only the destructor of the last pointer closes a descriptor. -/
theorem Booked.destroy (h : Booked w tr) (hat : w.conns[k]? = some c) (hlive : c.destroyed = false)
    (hrefs : ¬ w.Referenced k) : Booked (w.destroy k c).1 (tr ++ (w.destroy k c).2) := by
  have hk : w.Owns k c.fd := ⟨c, hat, hlive, rfl⟩
  obtain ⟨hfd, hopen, hother⟩ := h.opened k c.fd hk
  obtain ⟨hmirrors, heach, hkernel⟩ := closeFd_mirrors h.mirrors hfd rfl h.each
  have howns : ∀ j fd, (w.destroy k c).1.Owns j fd ↔ w.Owns j fd ∧ j ≠ k := by
    intro j fd
    obtain ⟨hlt, -⟩ := List.getElem?_eq_some_iff.mp hat
    unfold Owns PolledLoop.destroy PolledLoop.put
    by_cases hj : k = j
    · subst hj
      simp [hlt]
    · simp [List.getElem?_set_ne hj, Ne.symm hj]
  have hne : ∀ j fd, w.Owns j fd → j ≠ k → fd ≠ c.fd := by
    rintro j fd hj hjk rfl
    exact hjk (h.distinct j k c.fd hj hk)
  have hkernel : (w.destroy k c).1.poller.kernel = w.poller.kernel.close c.fd := hkernel
  refine ⟨hmirrors, heach, ?_, ?_, ?_, ?_, ?_⟩
  · intro j hj
    rcases referenced_put hj with hj | ⟨rfl, hconnecting⟩
    · obtain ⟨fd, hfd⟩ := h.live j hj
      exact ⟨fd, (howns j fd).mpr ⟨hfd, fun heq => hrefs (heq ▸ hj)⟩⟩
    · exact absurd (Or.inr (Or.inr (Or.inr (Or.inr (Or.inr ⟨c, hat, hconnecting⟩))))) hrefs
  · intro j fd hj
    obtain ⟨hj, hjk⟩ := (howns j fd).mp hj
    obtain ⟨hnonneg, hopen, hother⟩ := h.opened j fd hj
    rw [hkernel, Kernel.opened_close]
    exact ⟨hnonneg, ⟨hopen, hne j fd hj hjk⟩, hother⟩
  · intro i j fd hi hj
    exact h.distinct i j fd ((howns i fd).mp hi).1 ((howns j fd).mp hj).1
  · intro fd hfd
    rw [hkernel, Kernel.opened_close]
    refine ⟨h.others fd hfd, ?_⟩
    rintro rfl
    exact absurd (hother.symm.trans hfd) nofun
  · intro fd e he
    rw [hkernel, Kernel.epoll_close] at he
    have howner := h.owner fd e he.1
    refine (howns e.ptr fd).mpr ⟨howner, fun hptr => he.2 ?_⟩
    obtain ⟨d, hd, -, rfl⟩ := howner
    rw [hptr, hat] at hd
    rw [Option.some.inj hd]

theorem Booked.openOther {fd : Int} (h : Booked w tr) (hopen : w.mayOpen fd = true) :
    Booked { w with
      poller := w.poller.openFd fd
      others := Function.update w.others fd true } tr := by
  obtain ⟨-, hclosed⟩ : 0 ≤ fd ∧ w.poller.kernel.opened fd = false := by
    simpa [mayOpen] using hopen
  refine ⟨⟨h.mirrors.registered, h.mirrors.stale⟩, h.each, h.live, ?_, h.distinct, ?_, h.owner⟩
  · intro k fd' hk
    obtain ⟨hnonneg, hopened, hother⟩ := h.opened k fd' hk
    have hne : fd' ≠ fd := by
      rintro rfl
      exact absurd (hclosed.symm.trans hopened) nofun
    refine ⟨hnonneg, Kernel.opened_openFd.mpr (Or.inl hopened), ?_⟩
    simpa [hne] using hother
  · intro fd' hother
    refine Kernel.opened_openFd.mpr ?_
    by_cases heq : fd' = fd
    · exact Or.inr heq
    · exact Or.inl (h.others fd' (by simpa [heq] using hother))

/-- The epoll set does not have the descriptors that belong to no connection. -/
theorem Booked.closeOther {fd : Int} (h : Booked w tr) (hother : w.others fd = true) :
    Booked { w with
      poller := { w.poller with kernel := w.poller.kernel.close fd }
      others := Function.update w.others fd false } tr := by
  have hnone : w.poller.kernel.epoll fd = none := by
    rw [Option.eq_none_iff_forall_ne_some]
    intro e he
    exact absurd (hother.symm.trans (h.opened e.ptr fd (h.owner fd e he)).2.2) nofun
  have hepoll : (w.poller.kernel.close fd).epoll = w.poller.kernel.epoll := by
    rw [Kernel.close, ← hnone, Function.update_eq_self]
  refine ⟨⟨?_, ?_⟩, h.each, h.live, ?_, h.distinct, ?_, ?_⟩
  · rw [hepoll]
    exact h.mirrors.registered
  · rw [hepoll]
    exact h.mirrors.stale
  · intro k fd' hk
    obtain ⟨hnonneg, hopen, hother'⟩ := h.opened k fd' hk
    have hne : fd' ≠ fd := by
      rintro rfl
      exact absurd (hother.symm.trans hother') nofun
    refine ⟨hnonneg, Kernel.opened_close.mpr ⟨hopen, hne⟩, ?_⟩
    simpa [hne] using hother'
  · intro fd' hother'
    by_cases heq : fd' = fd
    · simp [heq] at hother'
    · exact Kernel.opened_close.mpr ⟨h.others fd' (by simpa [heq] using hother'), heq⟩
  · rw [hepoll]
    exact h.owner

/-- What a pointer points to is not destroyed. -/
theorem lock_eq_some (h : Booked w tr) (hlock : w.lock k = some c) :
    w.conns[k]? = some c ∧ c.destroyed = false := by
  unfold PolledLoop.lock at hlock
  split at hlock
  · next hk =>
    obtain ⟨fd, d, hd, hlive, -⟩ := h.live k hk
    obtain rfl := Option.some.inj (hlock.symm.trans hd)
    exact ⟨hlock, hlive⟩
  · exact absurd hlock nofun

/-- A client is set; it points to what it did before, or to `k`. -/
theorem referenced_setClient {i : Nat} {client : PolledClient} {j : ConnPtr}
    (h : (w.setClient i client).Referenced j) :
    w.Referenced j ∨ client.connection = some j := by
  obtain ⟨client', hmem, hptr⟩ | h := h
  · rcases List.mem_or_eq_of_mem_set hmem with hmem | rfl
    · exact Or.inl (Or.inl ⟨client', hmem, hptr⟩)
    · exact Or.inr hptr
  · exact Or.inl (Or.inr h)

theorem referenced_client {i : Nat} {client : PolledClient} (hat : w.clients[i]? = some client)
    (hptr : client.connection = some k) : w.Referenced k :=
  Or.inl ⟨client, List.mem_of_getElem? hat, hptr⟩

/-- A client keeps its pointer. -/
theorem Booked.setClient {i : Nat} {client client' : PolledClient} (h : Booked w tr)
    (hat : w.clients[i]? = some client)
    (hptr : ∀ k, client'.connection = some k → client.connection = some k) :
    Booked (w.setClient i client') tr := by
  refine h.of_refs rfl rfl rfl fun j hj => ?_
  rcases referenced_setClient hj with hj | hj
  · exact hj
  · exact referenced_client hat (hptr j hj)

theorem Booked.connect {i : Nat} {client : PolledClient} {fd : Option Int} {result : ConnectResult}
    (h : Booked w tr) (hat : w.clients[i]? = some client)
    (heq : w.connect i client fd result = some w') : Booked w' tr := by
  have hsame : Booked (w.setClient i { client with stopped := false }) tr :=
    h.setClient hat fun _ hk => hk
  unfold PolledLoop.connect at heq
  cases fd with
  | none => exact Option.some.inj heq ▸ hsame
  | some fd =>
    dsimp only at heq
    split at heq
    · exact absurd heq nofun
    next hopen =>
    have hopen : w.mayOpen fd = true := by simpa using hopen
    have hstarted : ∀ task : LoopTask, task.connection = w.conns.length →
        Booked (((w.addConnection fd .client).setClient i
          { client with stopped := false, connection := some w.conns.length }).queueInLoop
            task) tr := by
      intro task htask
      refine h.addConnection fd .client hopen rfl rfl rfl fun j hj => ?_
      rcases referenced_queueInLoop hj with hj | hj
      · rcases referenced_setClient hj with hj | hj
        · exact Or.inl (referenced_addConnection hj)
        · exact Or.inr (Option.some.inj hj).symm
      · exact Or.inr (hj.trans htask)
    cases result with
    | connected => exact Option.some.inj heq ▸ hstarted (.connectEstablished _) rfl
    | inProgress => exact Option.some.inj heq ▸ hstarted (.connectInProgress _) rfl
    | failed => exact Option.some.inj heq ▸ hsame

theorem Booked.accept {fd : Int} (h : Booked w tr) (heq : w.accept fd = some w') :
    Booked w' tr := by
  unfold PolledLoop.accept at heq
  split at heq
  · exact absurd heq nofun
  next hopen =>
  obtain ⟨-, hopen⟩ : w.accepting = none ∧ w.mayOpen fd = true := by simpa using hopen
  rw [← Option.some.inj heq]
  refine h.addConnection fd .server hopen rfl rfl rfl fun j hj => ?_
  rcases referenced_queueInLoop hj with hj | hj
  · have hj : (w.addConnection fd .server).Referenced j ∨ j = w.conns.length := by
      simp only [Referenced] at hj ⊢
      grind
    exact hj.imp_left referenced_addConnection
  · exact Or.inr hj

theorem Booked.stop {i : Nat} {client : PolledClient} (h : Booked w tr)
    (hat : w.clients[i]? = some client) (caller : StopCaller) :
    Booked (w.stop i client caller).1 (tr ++ (w.stop i client caller).2) := by
  have hsame : Booked (w.setClient i { connection := none, stopped := true }) tr :=
    h.setClient hat nofun
  unfold PolledLoop.stop
  dsimp only
  split
  · simpa using h
  cases hptr : client.connection with
  | none => simpa using hsame
  | some k =>
    obtain ⟨fd, hk⟩ := h.live k (referenced_client hat hptr)
    match caller with
    | .loopThread =>
      obtain ⟨c, hc, hlive, -⟩ := hk
      simp only [hc]
      exact hsame.remove hc hlive .closed
    | .otherThread true =>
      rw [List.append_nil]
      refine hsame.of_owns rfl (fun _ _ => Iff.rfl) rfl fun j hj => ?_
      rcases referenced_queueInLoop hj with hj | rfl
      · exact hsame.live j hj
      · exact ⟨fd, hk⟩
    | .otherThread false => simpa using hsame

theorem referenced_hold {j : ConnPtr} (h : { w with held := k :: w.held }.Referenced j) :
    w.Referenced j ∨ j = k := by
  simp only [Referenced, List.mem_cons] at h ⊢
  grind

theorem step_booked {l : PolledLabel} (h : Booked w tr) (hstep : w.step l = some (w', es)) :
    Booked w' (tr ++ es) := by
  cases l with
  | newClient =>
    obtain ⟨rfl, rfl⟩ := Prod.mk.inj (Option.some.inj hstep)
    rw [List.append_nil]
    refine h.of_refs rfl rfl rfl fun k hk => ?_
    simp only [Referenced, List.mem_append, List.mem_singleton] at hk ⊢
    grind
  | connect i fd result =>
    simp only [PolledLoop.step, Option.map_eq_some_iff, Option.bind_eq_some_iff,
      Prod.mk.injEq] at hstep
    obtain ⟨w₁, ⟨client, hat, heq⟩, rfl, rfl⟩ := hstep
    rw [List.append_nil]
    exact h.connect hat heq
  | stop i caller =>
    simp only [PolledLoop.step, Option.map_eq_some_iff] at hstep
    obtain ⟨client, hat, heq⟩ := hstep
    have hkept := h.stop hat caller
    rwa [heq] at hkept
  | accept fd =>
    simp only [PolledLoop.step, Option.map_eq_some_iff, Prod.mk.injEq] at hstep
    obtain ⟨w₁, heq, rfl, rfl⟩ := hstep
    rw [List.append_nil]
    exact h.accept heq
  | insert =>
    simp only [PolledLoop.step, Option.map_eq_some_iff, Prod.mk.injEq] at hstep
    obtain ⟨k, hk, rfl, rfl⟩ := hstep
    rw [List.append_nil]
    refine h.of_refs rfl rfl rfl fun j hj => ?_
    simp only [Referenced, List.mem_cons] at hj ⊢
    grind
  | runTask =>
    dsimp only [PolledLoop.step] at hstep
    cases htasks : w.tasks with
    | nil =>
      rw [htasks] at hstep
      exact absurd hstep nofun
    | cons task tasks =>
      rw [htasks] at hstep
      obtain ⟨c, hat, heq⟩ := Option.map_eq_some_iff.mp hstep
      obtain ⟨fd, d, hd, hlive, -⟩ := h.live task.connection
        (Or.inr (Or.inr (Or.inl ⟨task, by simp [htasks], rfl⟩)))
      obtain rfl := Option.some.inj (hat.symm.trans hd)
      have hpopped : Booked { w with tasks } tr := by
        refine h.of_refs rfl rfl rfl fun j hj => ?_
        simp only [Referenced, htasks, List.mem_cons] at hj ⊢
        grind
      have hkept := hpopped.runTask task hat hlive
      rwa [heq] at hkept
  | finish k soError =>
    simp only [PolledLoop.step, Option.bind_eq_some_iff, Option.ite_none_right_eq_some] at hstep
    obtain ⟨c, hlock, -, heq⟩ := hstep
    obtain ⟨hat, hlive⟩ := lock_eq_some h hlock
    have hkept := h.finish hat hlive soError
    rwa [Option.some.inj heq] at hkept
  | updateWriteInterest k allWritten =>
    simp only [PolledLoop.step, Option.bind_eq_some_iff, Option.ite_none_left_eq_some] at hstep
    obtain ⟨c, hlock, -, heq⟩ := hstep
    obtain ⟨hat, hlive⟩ := lock_eq_some h hlock
    have hkept := h.updateWriteInterest hat hlive allWritten
    rwa [Option.some.inj heq] at hkept
  | shutdownInLoop k =>
    simp only [PolledLoop.step, Option.map_eq_some_iff, Prod.mk.injEq] at hstep
    obtain ⟨c, hlock, rfl, rfl⟩ := hstep
    obtain ⟨hat, hlive⟩ := lock_eq_some h hlock
    rw [List.append_nil]
    split
    · exact h
    · exact h.put hat hlive rfl rfl
  | handleClose k =>
    simp only [PolledLoop.step, Option.map_eq_some_iff] at hstep
    obtain ⟨c, hlock, heq⟩ := hstep
    obtain ⟨hat, hlive⟩ := lock_eq_some h hlock
    have hkept := h.handleClose hat hlive
    rwa [heq] at hkept
  | hold k =>
    simp only [PolledLoop.step, Option.map_eq_some_iff, Prod.mk.injEq] at hstep
    obtain ⟨c, hlock, rfl, rfl⟩ := hstep
    rw [List.append_nil]
    obtain ⟨hat, hlive⟩ := lock_eq_some h hlock
    refine h.of_owns rfl (fun _ _ => Iff.rfl) rfl fun j hj => ?_
    rcases referenced_hold hj with hj | rfl
    · exact h.live j hj
    · exact ⟨c.fd, c, hat, hlive, rfl⟩
  | drop k =>
    simp only [PolledLoop.step, Option.ite_none_right_eq_some, Option.some.injEq,
      Prod.mk.injEq] at hstep
    obtain ⟨hk, rfl, rfl⟩ := hstep
    rw [List.append_nil]
    refine h.of_refs rfl rfl rfl fun j hj => ?_
    simp only [Referenced] at hj ⊢
    grind [List.mem_of_mem_erase]
  | destroy k =>
    simp only [PolledLoop.step, Option.bind_eq_some_iff, Option.ite_none_left_eq_some,
      not_or] at hstep
    obtain ⟨c, hat, ⟨hlive, hrefs⟩, heq⟩ := hstep
    have hkept := h.destroy hat (by simpa using hlive) hrefs
    rwa [Option.some.inj heq] at hkept
  | openOther fd =>
    simp only [PolledLoop.step, Option.ite_none_right_eq_some, Option.some.injEq,
      Prod.mk.injEq] at hstep
    obtain ⟨hopen, rfl, rfl⟩ := hstep
    rw [List.append_nil]
    exact h.openOther hopen
  | closeOther fd =>
    simp only [PolledLoop.step, Option.ite_none_right_eq_some, Option.some.injEq,
      Prod.mk.injEq] at hstep
    obtain ⟨hother, rfl, rfl⟩ := hstep
    rw [List.append_nil]
    exact h.closeOther hother

theorem run_booked (others : Int → Bool) {ls : List PolledLabel}
    (hrun : run step (new others) ls = some (w, es)) : Booked w es := by
  simpa using run_induction (fun w tr => Booked w tr)
    (fun _ _ _ _ _ h hstep => step_booked h hstep) [] (booked_new others) hrun

/-- An update of a connection's descriptor, which is open, leaves it in the epoll set as the
    connection asks, by an `ADD` or a `MOD` as the kernel needs it, exactly unless a connection
    was destroyed while `m_registered` had its descriptor, the number is used again, and it was
    not removed from `m_registered` since. -/
theorem update_follows_iff (others : Int → Bool) {ls : List PolledLabel}
    (hrun : run step (new others) ls = some (w, es)) {before after : List PollerEvent} {u : Update}
    (hu : es = before ++ .updated u :: after) :
    u.isOpen = true ∧
      (u.Follows ↔ ¬ Since before (.closed u.fd true) (· = .removed u.fd)) :=
  (run_booked others hrun).each before (.updated u) after hu u rfl

/-- A client that connects, and connects again while it is connected: its first connection is
    destroyed. The third time the kernel gives it the descriptor of the first one. -/
def reconnects : List PolledLabel :=
  [.newClient, .connect 0 (some 5) .connected, .runTask, .connect 0 (some 6) .connected, .runTask,
    .destroy 0, .connect 0 (some 5) .connected, .runTask]

theorem update_follows_iff_reconnects :
    ∃ w es before u after, run step (new fun _ => false) reconnects = some (w, es) ∧
      es = before ++ .updated u :: after ∧ u.fd = 5 ∧ u.isOpen = true ∧
      (u.Follows ↔ ¬ Since before (.closed u.fd true) (· = .removed u.fd)) := by
  refine ⟨_, _, [], ⟨5, true, ⟨EPOLLIN, 0⟩, .add, none, some ⟨EPOLLIN, 0⟩⟩, _, rfl, rfl, rfl, ?_⟩
  exact update_follows_iff (fun _ => false) (show run step (new _) reconnects = _ from rfl) rfl

/-- Not every update follows the kernel: this one calls `MOD` for a descriptor that the kernel
    does not have, and leaves it out. -/
theorem update_after_reconnect :
    ¬ ∀ (others : Int → Bool) (ls : List PolledLabel) (w : PolledLoop) (es : List PollerEvent),
      run step (new others) ls = some (w, es) →
      ∀ u, .updated u ∈ es → u.isOpen = true → u.Follows := by
  intro h
  have hmod := h (fun _ => false) reconnects _ _ rfl
    ⟨5, true, ⟨EPOLLIN, 2⟩, .mod, none, none⟩ (by decide) rfl
  exact absurd hmod (by decide)

end RocketRpc.Net
