import RocketRpc.Lib.Ledger
import RocketRpc.Lib.Machine

/-
  The acceptor (`rocket/net/tcp/tcp_acceptor.cc`) in a process with a limit on its descriptors.

  `accept` keeps a descriptor in reserve, `m_idle_fd`. When the process has no descriptor left, it
  closes the reserve, takes the oldest pending connection with the place that became free, closes
  it and opens the reserve again. Other threads open and close descriptors between any two
  of its system calls. Whatever they do, every open descriptor has one owner, and every connection
  that came in has been answered in its turn or is still waiting (`accept_accounts`).
-/

namespace RocketRpc.Net

open Machine

/-- A descriptor that is not negative. -/
abbrev Fd := Nat

inductive AcceptErrno where
  | EMFILE
  | other (code : Nat)
  deriving DecidableEq, Repr

/-- A connection that waits to be accepted; `isInet` says that the family of its address is
    `AF_INET`. -/
structure Peer where
  id : Nat
  isInet : Bool
  deriving DecidableEq, Repr

inductive AcceptError where
  | notInitialized
  | failed (errno : AcceptErrno)
  | unsupportedFamily
  deriving DecidableEq, Repr

/-- `error_msg`, in terms of `strerror`. -/
def AcceptError.message (strerror : AcceptErrno → String) : AcceptError → String
  | .notInitialized => "Listen socket not initialized"
  | .failed errno => "Accept failed: " ++ strerror errno
  | .unsupportedFamily => "Unsupported address family"

structure AcceptResult where
  clientFd : Option Fd := none
  peerAddr : Option Peer := none
  error : Option AcceptError := none
  deriving DecidableEq, Repr

/-- What a system call that opens a descriptor answers. -/
inductive Answer where
  | gets (fd : Fd)
  | fails (e : AcceptErrno)
  deriving DecidableEq, Repr

/-- How far the constructor comes with its listening socket. -/
inductive SocketAnswer where
  /-- There is no local address, or `socket` fails. -/
  | noSocket
  /-- `bind` or `listen` fails, and the socket is closed. -/
  | unbound (fd : Fd)
  | listens (fd : Fd)
  deriving DecidableEq, Repr

/-- Where the thread of the acceptor is. -/
inductive AcceptPlace where
  | unborn
  /-- In the constructor, in front of `socket`. -/
  | binding
  /-- Outside of `accept`. -/
  | ready
  /-- In front of the first `::accept`. -/
  | accepting
  /-- In front of `::close(m_idle_fd)`. -/
  | closingIdle
  /-- In front of the second `::accept`. -/
  | acceptingAgain
  /-- In front of the `::close` of a connection that there is no descriptor for. -/
  | rejecting (fd : Fd) (c : Peer)
  /-- In front of the `::open` of the reserve. -/
  | reopening
  /-- Behind the first `::accept`, in front of the test of the family. -/
  | accepted (fd : Fd) (c : Peer)
  | destroyed
  deriving DecidableEq, Repr

/-- The acceptor, with the descriptors of its process and the connections that wait for it. -/
structure TcpAcceptor where
  limit : Nat
  opened : Fd → Bool := fun _ => false
  /-- `m_listen_fd`. -/
  listenFd : Option Fd := none
  /-- `m_idle_fd`. -/
  idleFd : Option Fd := none
  errno : AcceptErrno := .other 0
  place : AcceptPlace := .unborn
  pending : List Peer := []
  /-- The descriptors of the connections that `accept` has returned. -/
  handed : List Fd := []
  /-- The other open descriptors of the process. -/
  others : List Fd := []

inductive AcceptLabel where
  /-- The constructor up to the opening of the reserve. -/
  | construct (a : Answer)
  /-- The constructor from `socket` to its end. -/
  | listen (a : SocketAnswer)
  | call
  /-- One of the two `::accept`. -/
  | accept (a : Answer)
  | closeIdle
  | reject
  | reopen (a : Answer)
  /-- The test of the family, and the return. -/
  | testFamily
  | destroy
  | arrive (c : Peer)
  | openOther (fd : Fd)
  | closeOther (fd : Fd)
  /-- The server or the connection closes a descriptor that `accept` has returned. -/
  | closeHanded (fd : Fd)
  deriving DecidableEq, Repr

inductive AcceptEvent where
  | arrived (c : Peer)
  | returned (r : AcceptResult)
  | rejected (c : Peer)
  /-- The connection was closed for its family. -/
  | unsupported (c : Peer)
  /-- The second `::accept` failed. -/
  | againFailed (e : AcceptErrno)
  | idleOpened
  | idleClosed
  /-- The reserve could not be opened. -/
  | idleLost (e : AcceptErrno)
  | openedOther
  deriving DecidableEq, Repr

namespace TcpAcceptor

def free (s : TcpAcceptor) (fd : Fd) : Bool := decide (fd < s.limit) && !s.opened fd

/-- The process has no descriptor left. -/
def full (s : TcpAcceptor) : Bool := decide (∀ fd < s.limit, s.opened fd = true)

/-- An answer that the kernel may give: a descriptor that is free, or an error, `EMFILE` only if no
    descriptor is left. -/
def mayAnswer (s : TcpAcceptor) : Answer → Bool
  | .gets fd => s.free fd
  | .fails .EMFILE => s.full
  | .fails (.other _) => true

def openFd (s : TcpAcceptor) (fd : Fd) : TcpAcceptor :=
  { s with opened := Function.update s.opened fd true }

def closeFd (s : TcpAcceptor) (fd : Fd) : TcpAcceptor :=
  { s with opened := Function.update s.opened fd false }

/-- `m_idle_fd = ::open("/dev/null", O_RDONLY | O_CLOEXEC)`. -/
def openIdle (s : TcpAcceptor) : Answer → TcpAcceptor × List AcceptEvent
  | .gets fd => ({ s.openFd fd with idleFd := some fd }, [.idleOpened])
  | .fails e => ({ s with idleFd := none, errno := e }, [.idleLost e])

def listen (s : TcpAcceptor) : SocketAnswer → Option TcpAcceptor
  | .noSocket => some { s with place := .ready }
  | .unbound fd => if s.free fd then some { s with place := .ready } else none
  | .listens fd =>
    if s.free fd then some { s.openFd fd with listenFd := some fd, place := .ready } else none

/-- `accept` returns with the error text of `errno`. -/
def fail (s : TcpAcceptor) : TcpAcceptor × List AcceptEvent :=
  ({ s with place := .ready }, [.returned { error := some (.failed s.errno) }])

/-- The first `::accept`. -/
def acceptFirst (s : TcpAcceptor) : Answer → Option (TcpAcceptor × List AcceptEvent)
  | .gets fd =>
    match s.pending with
    | [] => none
    | c :: cs => some ({ s.openFd fd with pending := cs, place := .accepted fd c }, [])
  | .fails e =>
    let s := { s with errno := e }
    if e = .EMFILE ∧ s.idleFd.isSome then some ({ s with place := .closingIdle }, [])
    else some s.fail

/-- The second `::accept`, with the reserve closed. -/
def acceptAgain (s : TcpAcceptor) : Answer → Option (TcpAcceptor × List AcceptEvent)
  | .gets fd =>
    match s.pending with
    | [] => none
    | c :: cs => some ({ s.openFd fd with pending := cs, place := .rejecting fd c }, [])
  | .fails e => some ({ s with errno := e, place := .reopening }, [.againFailed e])

def closeAll (s : TcpAcceptor) (fds : List Fd) : TcpAcceptor :=
  { s with opened := fds.foldl (fun opened fd => Function.update opened fd false) s.opened }

def step (s : TcpAcceptor) : AcceptLabel → Option (TcpAcceptor × List AcceptEvent)
  | .construct a =>
    if s.place = .unborn ∧ s.mayAnswer a then
      some ({ (s.openIdle a).1 with place := .binding }, (s.openIdle a).2)
    else none
  | .listen a => if s.place = .binding then (s.listen a).map fun s' => (s', []) else none
  | .call =>
    if s.place = .ready then
      if s.listenFd.isNone then some (s, [.returned { error := some .notInitialized }])
      else some ({ s with place := .accepting }, [])
    else none
  | .accept a =>
    if s.mayAnswer a then
      match s.place with
      | .accepting => s.acceptFirst a
      | .acceptingAgain => s.acceptAgain a
      | _ => none
    else none
  | .closeIdle =>
    match s.place, s.idleFd with
    | .closingIdle, some fd =>
      some ({ s.closeFd fd with idleFd := none, place := .acceptingAgain }, [.idleClosed])
    | _, _ => none
  | .reject =>
    match s.place with
    | .rejecting fd c => some ({ s.closeFd fd with place := .reopening }, [.rejected c])
    | _ => none
  | .reopen a =>
    if s.place = .reopening ∧ s.mayAnswer a then
      let s' := (s.openIdle a).1
      some (s'.fail.1, (s.openIdle a).2 ++ s'.fail.2)
    else none
  | .testFamily =>
    match s.place with
    | .accepted fd c =>
      if c.isInet then
        some ({ s with place := .ready, handed := fd :: s.handed },
          [.returned { clientFd := some fd, peerAddr := some c }])
      else
        some ({ s.closeFd fd with place := .ready },
          [.unsupported c, .returned { error := some .unsupportedFamily }])
    | _ => none
  | .destroy =>
    if s.place = .ready then
      some ({ s.closeAll (s.listenFd.toList ++ s.idleFd.toList) with
        listenFd := none, idleFd := none, place := .destroyed }, [])
    else none
  | .arrive c => some ({ s with pending := s.pending ++ [c] }, [.arrived c])
  | .openOther fd =>
    if s.free fd then some ({ s.openFd fd with others := fd :: s.others }, [.openedOther])
    else none
  | .closeOther fd =>
    if fd ∈ s.others then some ({ s.closeFd fd with others := s.others.erase fd }, []) else none
  | .closeHanded fd =>
    if fd ∈ s.handed then some ({ s.closeFd fd with handed := s.handed.erase fd }, []) else none

/-- A process with an acceptor still to be constructed. -/
def new (limit : Nat) : TcpAcceptor := { limit }

end TcpAcceptor

/-! ## The accounts -/

/-- The descriptor that `accept` has in hand. -/
def AcceptPlace.fds : AcceptPlace → List Fd
  | .rejecting fd _ | .accepted fd _ => [fd]
  | _ => []

/-- The connection that `accept` has in hand. -/
def AcceptPlace.peers : AcceptPlace → List Peer
  | .rejecting _ c | .accepted _ c => [c]
  | _ => []

/-- The reserve is closed and is to be opened again. -/
def AcceptPlace.recovering : AcceptPlace → Bool
  | .acceptingAgain | .rejecting _ _ | .reopening => true
  | _ => false

/-- The open descriptors, under their owners. -/
def TcpAcceptor.owned (s : TcpAcceptor) : List Fd :=
  s.listenFd.toList ++ (s.idleFd.toList ++ (s.place.fds ++ (s.handed ++ s.others)))

def AcceptEvent.arrival : AcceptEvent → Option Peer
  | .arrived c => some c
  | _ => none

/-- The connection that is answered: it is handed to the server or closed. -/
def AcceptEvent.answer : AcceptEvent → Option Peer
  | .returned r => r.peerAddr
  | .rejected c | .unsupported c => some c
  | _ => none

/-- No other thread has opened a descriptor since the reserve was closed. -/
def Undisturbed (tr : List AcceptEvent) : Prop := Since tr .idleClosed (· = .openedOther)

/-- What an event says about those before it: `EMFILE` behind the closing of the reserve means that
    another thread took its place, a reserve that was lost is never opened again, and a result has
    a connection of the family or an error. -/
structure AcceptLaw (tr : List AcceptEvent) (e : AcceptEvent) : Prop where
  disturbed : e = .againFailed .EMFILE ∨ e = .idleLost .EMFILE → ¬ Undisturbed tr
  lost : e = .idleOpened → ∀ e', .idleLost e' ∉ tr
  result : ∀ r, e = .returned r →
    (∃ fd c, r = { clientFd := some fd, peerAddr := some c } ∧ c.isInet = true) ∨
      ∃ error, r = { error := some error }

/-- A descriptor is free, or will be when the one in hand is closed. -/
def TcpAcceptor.Spare (s : TcpAcceptor) : Prop :=
  s.place.fds ≠ [] ∨ ∃ fd < s.limit, s.opened fd = false

/-- Every open descriptor has one owner. -/
structure TcpAcceptor.Owned (s : TcpAcceptor) : Prop where
  ledger : Ledger s.opened s.owned
  below : ∀ fd ∈ s.owned, fd < s.limit
  unborn : s.place = .unborn ∨ s.place = .binding → s.listenFd = none
  idle : s.place = .unborn ∨ s.place.recovering = true → s.idleFd = none

/-- The connections are answered in the order in which they came. -/
def TcpAcceptor.InTurn (s : TcpAcceptor) (tr : List AcceptEvent) : Prop :=
  tr.filterMap AcceptEvent.arrival =
    tr.filterMap AcceptEvent.answer ++ (s.place.peers ++ s.pending)

/-- The reserve: while nobody disturbs there is a descriptor for it, and once lost it is gone. -/
structure TcpAcceptor.Reserve (s : TcpAcceptor) (tr : List AcceptEvent) : Prop where
  spare : s.place.recovering = true → Undisturbed tr → s.Spare
  lost : ∀ e, .idleLost e ∈ tr →
    s.idleFd = none ∧ s.place.recovering = false ∧ s.place ≠ .unborn
  fresh : s.place = .unborn → ¬ Undisturbed tr

/-- The steps, branch by branch. -/
inductive TcpAcceptor.Steps (s : TcpAcceptor) : TcpAcceptor → List AcceptEvent → Prop where
  | construct {fd} (hplace : s.place = .unborn) (hfree : s.free fd = true) :
      Steps s { s.openFd fd with idleFd := some fd, place := .binding } [.idleOpened]
  | constructFails {e} (hplace : s.place = .unborn) (hfull : e = .EMFILE → s.full = true) :
      Steps s { s with idleFd := none, errno := e, place := .binding } [.idleLost e]
  | noSocket (hplace : s.place = .binding) : Steps s { s with place := .ready } []
  | listens {fd} (hplace : s.place = .binding) (hfree : s.free fd = true) :
      Steps s { s.openFd fd with listenFd := some fd, place := .ready } []
  | notInitialized (hplace : s.place = .ready) :
      Steps s s [.returned { error := some .notInitialized }]
  | call (hplace : s.place = .ready) : Steps s { s with place := .accepting } []
  | accept {fd c cs} (hplace : s.place = .accepting) (hfree : s.free fd = true)
      (hpending : s.pending = c :: cs) :
      Steps s { s.openFd fd with pending := cs, place := .accepted fd c } []
  | acceptFull {e} (hplace : s.place = .accepting) :
      Steps s { s with errno := e, place := .closingIdle } []
  | acceptFails {e} (hplace : s.place = .accepting) :
      Steps s { s with errno := e, place := .ready } [.returned { error := some (.failed e) }]
  | closeIdle {fd} (hplace : s.place = .closingIdle) (hidle : s.idleFd = some fd) :
      Steps s { s.closeFd fd with idleFd := none, place := .acceptingAgain } [.idleClosed]
  | acceptAgain {fd c cs} (hplace : s.place = .acceptingAgain) (hfree : s.free fd = true)
      (hpending : s.pending = c :: cs) :
      Steps s { s.openFd fd with pending := cs, place := .rejecting fd c } []
  | againFails {e} (hplace : s.place = .acceptingAgain) (hfull : e = .EMFILE → s.full = true) :
      Steps s { s with errno := e, place := .reopening } [.againFailed e]
  | reject {fd c} (hplace : s.place = .rejecting fd c) :
      Steps s { s.closeFd fd with place := .reopening } [.rejected c]
  | reopen {fd} (hplace : s.place = .reopening) (hfree : s.free fd = true) :
      Steps s { s.openFd fd with idleFd := some fd, place := .ready }
        [.idleOpened, .returned { error := some (.failed s.errno) }]
  | reopenFails {e} (hplace : s.place = .reopening) (hfull : e = .EMFILE → s.full = true) :
      Steps s { s with idleFd := none, errno := e, place := .ready }
        [.idleLost e, .returned { error := some (.failed e) }]
  | hands {fd c} (hplace : s.place = .accepted fd c) (hinet : c.isInet = true) :
      Steps s { s with place := .ready, handed := fd :: s.handed }
        [.returned { clientFd := some fd, peerAddr := some c }]
  | unsupported {fd c} (hplace : s.place = .accepted fd c) :
      Steps s { s.closeFd fd with place := .ready }
        [.unsupported c, .returned { error := some .unsupportedFamily }]
  | destroy (hplace : s.place = .ready) :
      Steps s { s.closeAll (s.listenFd.toList ++ s.idleFd.toList) with
        listenFd := none, idleFd := none, place := .destroyed } []
  | arrive (c) : Steps s { s with pending := s.pending ++ [c] } [.arrived c]
  | openOther {fd} (hfree : s.free fd = true) :
      Steps s { s.openFd fd with others := fd :: s.others } [.openedOther]
  | closeOther {fd} (hmem : fd ∈ s.others) :
      Steps s { s.closeFd fd with others := s.others.erase fd } []
  | closeHanded {fd} (hmem : fd ∈ s.handed) :
      Steps s { s.closeFd fd with handed := s.handed.erase fd } []

section Accounts

variable {s s' : TcpAcceptor} {tr es : List AcceptEvent} {l : AcceptLabel} {fd : Fd}

theorem full_of_mayAnswer {e : AcceptErrno} (h : s.mayAnswer (.fails e) = true) (he : e = .EMFILE) :
    s.full = true := by
  subst he
  exact h

theorem steps_of_accept {a : Answer} (hstep : s.step (.accept a) = some (s', es)) :
    s.Steps s' es := by
  obtain ⟨ha, heq⟩ := Option.ite_none_right_eq_some.mp hstep
  split at heq
  next hplace =>
    cases a with
    | gets fd =>
      simp only [TcpAcceptor.acceptFirst] at heq
      split at heq
      · cases heq
      · next c cs hpending =>
        obtain ⟨rfl, rfl⟩ := Prod.mk.inj (Option.some.inj heq)
        exact .accept hplace ha hpending
    | fails e =>
      simp only [TcpAcceptor.acceptFirst] at heq
      split_ifs at heq with hfull
      · obtain ⟨rfl, rfl⟩ := Prod.mk.inj (Option.some.inj heq)
        exact .acceptFull hplace
      · obtain ⟨rfl, rfl⟩ := Prod.mk.inj (Option.some.inj heq)
        exact .acceptFails hplace
  next hplace =>
    cases a with
    | gets fd =>
      simp only [TcpAcceptor.acceptAgain] at heq
      split at heq
      · cases heq
      · next c cs hpending =>
        obtain ⟨rfl, rfl⟩ := Prod.mk.inj (Option.some.inj heq)
        exact .acceptAgain hplace ha hpending
    | fails e =>
      obtain ⟨rfl, rfl⟩ := Prod.mk.inj (Option.some.inj heq)
      exact .againFails hplace (full_of_mayAnswer ha)
  next => cases heq

theorem steps_of_step (hstep : s.step l = some (s', es)) : s.Steps s' es := by
  cases l with
  | construct a =>
    obtain ⟨⟨hplace, ha⟩, heq⟩ := Option.ite_none_right_eq_some.mp hstep
    obtain ⟨rfl, rfl⟩ := Prod.mk.inj (Option.some.inj heq)
    cases a with
    | gets fd => exact .construct hplace ha
    | fails e => exact .constructFails hplace (full_of_mayAnswer ha)
  | listen a =>
    obtain ⟨hplace, heq⟩ := Option.ite_none_right_eq_some.mp hstep
    obtain ⟨s₁, hlisten, heq⟩ := Option.map_eq_some_iff.mp heq
    obtain ⟨rfl, rfl⟩ := Prod.mk.inj heq
    cases a with
    | noSocket =>
      obtain rfl := Option.some.inj hlisten
      exact .noSocket hplace
    | unbound fd =>
      obtain ⟨-, heq⟩ := Option.ite_none_right_eq_some.mp hlisten
      obtain rfl := Option.some.inj heq
      exact .noSocket hplace
    | listens fd =>
      obtain ⟨hfree, heq⟩ := Option.ite_none_right_eq_some.mp hlisten
      obtain rfl := Option.some.inj heq
      exact .listens hplace hfree
  | call =>
    obtain ⟨hplace, heq⟩ := Option.ite_none_right_eq_some.mp hstep
    split_ifs at heq
    · obtain ⟨rfl, rfl⟩ := Prod.mk.inj (Option.some.inj heq)
      exact .notInitialized hplace
    · obtain ⟨rfl, rfl⟩ := Prod.mk.inj (Option.some.inj heq)
      exact .call hplace
  | accept a => exact steps_of_accept hstep
  | closeIdle =>
    simp only [TcpAcceptor.step] at hstep
    split at hstep
    · next fd hplace hidle =>
      obtain ⟨rfl, rfl⟩ := Prod.mk.inj (Option.some.inj hstep)
      exact .closeIdle hplace hidle
    · cases hstep
  | reject =>
    simp only [TcpAcceptor.step] at hstep
    split at hstep
    · next fd c hplace =>
      obtain ⟨rfl, rfl⟩ := Prod.mk.inj (Option.some.inj hstep)
      exact .reject hplace
    · cases hstep
  | reopen a =>
    obtain ⟨⟨hplace, ha⟩, heq⟩ := Option.ite_none_right_eq_some.mp hstep
    obtain ⟨rfl, rfl⟩ := Prod.mk.inj (Option.some.inj heq)
    cases a with
    | gets fd => exact .reopen hplace ha
    | fails e => exact .reopenFails hplace (full_of_mayAnswer ha)
  | testFamily =>
    simp only [TcpAcceptor.step] at hstep
    split at hstep
    · next fd c hplace =>
      split_ifs at hstep with hinet
      · obtain ⟨rfl, rfl⟩ := Prod.mk.inj (Option.some.inj hstep)
        exact .hands hplace hinet
      · obtain ⟨rfl, rfl⟩ := Prod.mk.inj (Option.some.inj hstep)
        exact .unsupported hplace
    · cases hstep
  | destroy =>
    obtain ⟨hplace, heq⟩ := Option.ite_none_right_eq_some.mp hstep
    obtain ⟨rfl, rfl⟩ := Prod.mk.inj (Option.some.inj heq)
    exact .destroy hplace
  | arrive c =>
    obtain ⟨rfl, rfl⟩ := Prod.mk.inj (Option.some.inj hstep)
    exact .arrive c
  | openOther fd =>
    obtain ⟨hfree, heq⟩ := Option.ite_none_right_eq_some.mp hstep
    obtain ⟨rfl, rfl⟩ := Prod.mk.inj (Option.some.inj heq)
    exact .openOther hfree
  | closeOther fd =>
    obtain ⟨hmem, heq⟩ := Option.ite_none_right_eq_some.mp hstep
    obtain ⟨rfl, rfl⟩ := Prod.mk.inj (Option.some.inj heq)
    exact .closeOther hmem
  | closeHanded fd =>
    obtain ⟨hmem, heq⟩ := Option.ite_none_right_eq_some.mp hstep
    obtain ⟨rfl, rfl⟩ := Prod.mk.inj (Option.some.inj heq)
    exact .closeHanded hmem

/-! ### The descriptors -/

theorem free_iff : s.free fd = true ↔ fd < s.limit ∧ s.opened fd = false := by
  simp [TcpAcceptor.free]

/-- A free descriptor is given to an owner. -/
theorem TcpAcceptor.Owned.take (h : s.Owned) (hfree : s.free fd = true)
    (howned : s'.owned.Perm (fd :: s.owned)) (hopened : s'.opened = (s.openFd fd).opened)
    (hlimit : s'.limit = s.limit)
    (hborn : s'.place = .unborn ∨ s'.place = .binding → s'.listenFd = none)
    (hidle : s'.place = .unborn ∨ s'.place.recovering = true → s'.idleFd = none) : s'.Owned := by
  obtain ⟨hlt, hclosed⟩ := free_iff.mp hfree
  refine ⟨hopened ▸ (h.ledger.take hclosed).perm howned.symm, fun fd' hmem => ?_, hborn, hidle⟩
  rw [hlimit]
  rcases List.mem_cons.mp (howned.mem_iff.mp hmem) with rfl | hmem
  · exact hlt
  · exact h.below fd' hmem

/-- An owner closes its descriptor. -/
theorem TcpAcceptor.Owned.release (h : s.Owned) (howned : s.owned.Perm (fd :: s'.owned))
    (hopened : s'.opened = (s.closeFd fd).opened) (hlimit : s'.limit = s.limit)
    (hborn : s'.place = .unborn ∨ s'.place = .binding → s'.listenFd = none)
    (hidle : s'.place = .unborn ∨ s'.place.recovering = true → s'.idleFd = none) : s'.Owned := by
  refine ⟨hopened ▸ (h.ledger.perm howned).release, fun fd' hmem => ?_, hborn, hidle⟩
  rw [hlimit]
  exact h.below fd' (howned.mem_iff.mpr (List.mem_cons_of_mem _ hmem))

/-- The descriptors stay as they are, or change hands. -/
theorem TcpAcceptor.Owned.same (h : s.Owned) (howned : s.owned.Perm s'.owned)
    (hopened : s'.opened = s.opened) (hlimit : s'.limit = s.limit)
    (hborn : s'.place = .unborn ∨ s'.place = .binding → s'.listenFd = none)
    (hidle : s'.place = .unborn ∨ s'.place.recovering = true → s'.idleFd = none) : s'.Owned := by
  refine ⟨hopened ▸ h.ledger.perm howned, fun fd' hmem => ?_, hborn, hidle⟩
  rw [hlimit]
  exact h.below fd' (howned.mem_iff.mpr hmem)

theorem step_owned (h : s.Owned) (hstep : s.Steps s' es) : s'.Owned := by
  have hborn := h.unborn
  have hidle := h.idle
  cases hstep with
  | construct hplace hfree =>
    have hnone := hidle (Or.inl hplace)
    have hlisten := hborn (Or.inl hplace)
    refine h.take hfree ?_ rfl rfl (fun _ => hlisten) (by simp [AcceptPlace.recovering])
    simp [TcpAcceptor.owned, TcpAcceptor.openFd, hplace, hnone, hlisten, AcceptPlace.fds]
  | constructFails hplace =>
    have hnone := hidle (Or.inl hplace)
    refine h.same ?_ rfl rfl (fun _ => hborn (Or.inl hplace)) (fun _ => rfl)
    simp [TcpAcceptor.owned, hplace, hnone, AcceptPlace.fds]
  | noSocket hplace =>
    refine h.same ?_ rfl rfl (by simp) (by simp [AcceptPlace.recovering])
    simp [TcpAcceptor.owned, hplace, AcceptPlace.fds]
  | listens hplace hfree =>
    have hlisten := hborn (Or.inr hplace)
    refine h.take hfree ?_ rfl rfl (by simp) (by simp [AcceptPlace.recovering])
    simp [TcpAcceptor.owned, TcpAcceptor.openFd, hplace, hlisten, AcceptPlace.fds]
  | notInitialized => exact h
  | call hplace =>
    refine h.same ?_ rfl rfl (by simp) (by simp [AcceptPlace.recovering])
    simp [TcpAcceptor.owned, hplace, AcceptPlace.fds]
  | accept hplace hfree =>
    refine h.take hfree ?_ rfl rfl (by simp) (by simp [AcceptPlace.recovering])
    refine List.perm_iff_count.mpr fun a => ?_
    simp [TcpAcceptor.owned, TcpAcceptor.openFd, hplace, AcceptPlace.fds, List.count_cons]
    omega
  | acceptFull hplace | acceptFails hplace =>
    refine h.same ?_ rfl rfl (by simp) (by simp [AcceptPlace.recovering])
    simp [TcpAcceptor.owned, hplace, AcceptPlace.fds]
  | closeIdle hplace hfd =>
    refine h.release ?_ rfl rfl (by simp) (fun _ => rfl)
    refine List.perm_iff_count.mpr fun a => ?_
    simp [TcpAcceptor.owned, TcpAcceptor.closeFd, hplace, hfd, AcceptPlace.fds, List.count_cons]
    omega
  | acceptAgain hplace hfree =>
    have hnone : s.idleFd = none := hidle (Or.inr (by simp [hplace, AcceptPlace.recovering]))
    refine h.take hfree ?_ rfl rfl (by simp) (fun _ => hnone)
    refine List.perm_iff_count.mpr fun a => ?_
    simp [TcpAcceptor.owned, TcpAcceptor.openFd, hplace, AcceptPlace.fds, List.count_cons]
    omega
  | againFails hplace =>
    have hnone : s.idleFd = none := hidle (Or.inr (by simp [hplace, AcceptPlace.recovering]))
    refine h.same ?_ rfl rfl (by simp) (fun _ => hnone)
    simp [TcpAcceptor.owned, hplace, AcceptPlace.fds]
  | reject hplace =>
    have hnone : s.idleFd = none := hidle (Or.inr (by simp [hplace, AcceptPlace.recovering]))
    refine h.release ?_ rfl rfl (by simp) (fun _ => hnone)
    refine List.perm_iff_count.mpr fun a => ?_
    simp [TcpAcceptor.owned, TcpAcceptor.closeFd, hplace, AcceptPlace.fds, List.count_cons]
    omega
  | reopen hplace hfree =>
    have hnone : s.idleFd = none := hidle (Or.inr (by simp [hplace, AcceptPlace.recovering]))
    refine h.take hfree ?_ rfl rfl (by simp) (by simp [AcceptPlace.recovering])
    refine List.perm_iff_count.mpr fun a => ?_
    simp [TcpAcceptor.owned, TcpAcceptor.openFd, hplace, hnone, AcceptPlace.fds, List.count_cons]
    omega
  | reopenFails hplace =>
    have hnone : s.idleFd = none := hidle (Or.inr (by simp [hplace, AcceptPlace.recovering]))
    refine h.same ?_ rfl rfl (by simp) (fun _ => rfl)
    simp [TcpAcceptor.owned, hplace, hnone, AcceptPlace.fds]
  | hands hplace =>
    refine h.same ?_ rfl rfl (by simp) (by simp [AcceptPlace.recovering])
    simp [TcpAcceptor.owned, hplace, AcceptPlace.fds]
  | unsupported hplace =>
    refine h.release ?_ rfl rfl (by simp) (by simp [AcceptPlace.recovering])
    refine List.perm_iff_count.mpr fun a => ?_
    simp [TcpAcceptor.owned, TcpAcceptor.closeFd, hplace, AcceptPlace.fds, List.count_cons]
    omega
  | destroy hplace =>
    have howned :
        s.owned.Perm ((s.listenFd.toList ++ s.idleFd.toList) ++ (s.handed ++ s.others)) := by
      simp [TcpAcceptor.owned, hplace, AcceptPlace.fds]
    refine ⟨(h.ledger.perm howned).release_all, fun fd hmem => h.below fd ?_, fun _ => rfl,
      fun _ => rfl⟩
    exact howned.mem_iff.mpr (List.mem_append_right _ hmem)
  | arrive c => exact h.same (.refl _) rfl rfl hborn hidle
  | openOther hfree =>
    refine h.take hfree ?_ rfl rfl hborn hidle
    refine List.perm_iff_count.mpr fun a => ?_
    simp [TcpAcceptor.owned, TcpAcceptor.openFd, List.count_cons]
    omega
  | closeOther hmem =>
    refine h.release ?_ rfl rfl hborn hidle
    have hperm := List.perm_iff_count.mp (List.perm_cons_erase hmem)
    refine List.perm_iff_count.mpr fun a => ?_
    have ha := hperm a
    simp [TcpAcceptor.owned, TcpAcceptor.closeFd, List.count_cons] at ha ⊢
    omega
  | closeHanded hmem =>
    refine h.release ?_ rfl rfl hborn hidle
    have hperm := List.perm_iff_count.mp (List.perm_cons_erase hmem)
    refine List.perm_iff_count.mpr fun a => ?_
    have ha := hperm a
    simp [TcpAcceptor.owned, TcpAcceptor.closeFd, List.count_cons] at ha ⊢
    omega

/-! ### The connections -/

theorem step_inTurn (h : s.InTurn tr) (hstep : s.Steps s' es) : s'.InTurn (tr ++ es) := by
  rw [TcpAcceptor.InTurn] at h ⊢
  rw [List.filterMap_append, List.filterMap_append, h]
  cases hstep <;> simp_all [TcpAcceptor.openFd, TcpAcceptor.closeFd, TcpAcceptor.closeAll,
    AcceptPlace.peers, AcceptEvent.arrival, AcceptEvent.answer, List.filterMap_cons]

/-! ### The reserve -/

theorem undisturbed_concat {e : AcceptEvent} (hclosed : e ≠ .idleClosed) :
    Undisturbed (tr ++ [e]) ↔ Undisturbed tr ∧ e ≠ .openedOther := by
  rw [Undisturbed, since_concat]
  simp [hclosed, Undisturbed]

/-- With a descriptor to spare there is no `EMFILE`. -/
theorem not_full_of_spare (h : s.Spare) (hfds : s.place.fds = []) : ¬ s.full = true := by
  obtain ⟨fd, hlt, hclosed⟩ := h.resolve_left (by simp [hfds])
  rw [TcpAcceptor.full, decide_eq_true_eq]
  intro hall
  simp [hall fd hlt] at hclosed

/-- What is closed leaves a descriptor to spare. -/
theorem spare_closeFd (h : s.Owned) (hmem : fd ∈ s.owned) :
    ∃ fd' < s.limit, (s.closeFd fd).opened fd' = false :=
  ⟨fd, h.below fd hmem, by simp [TcpAcceptor.closeFd]⟩

/-- Closing another descriptor leaves what is to spare. -/
theorem spare_of_close (h : s.Spare) : (s.closeFd fd).Spare := by
  refine h.imp id fun ⟨fd', hlt, hclosed⟩ => ⟨fd', hlt, ?_⟩
  by_cases heq : fd' = fd <;> simp [TcpAcceptor.closeFd, heq, hclosed]

theorem acceptLaw_of_result {r : AcceptResult}
    (hr : (∃ fd c, r = { clientFd := some fd, peerAddr := some c } ∧ c.isInet = true) ∨
      ∃ error, r = { error := some error }) : AcceptLaw tr (.returned r) where
  disturbed := by simp
  lost := nofun
  result r' hr' := AcceptEvent.returned.inj hr' ▸ hr

theorem acceptLaw_of_quiet {e : AcceptEvent} (hagain : ∀ e', e ≠ .againFailed e')
    (hlost : ∀ e', e ≠ .idleLost e') (hopened : e ≠ .idleOpened)
    (hreturned : ∀ r, e ≠ .returned r) : AcceptLaw tr e where
  disturbed h := h.elim (fun he => absurd he (hagain _)) fun he => absurd he (hlost _)
  lost h := absurd h hopened
  result r hr := absurd hr (hreturned r)

/-- A step of the acceptor outside of the recovery. -/
theorem TcpAcceptor.Reserve.goOn (h : s.Reserve tr) (hborn : s'.place ≠ .unborn)
    (hplace : s'.place.recovering = false) (hidle : s.idleFd = none → s'.idleFd = none)
    (hlost : ∀ e, .idleLost e ∉ es) : s'.Reserve (tr ++ es) where
  spare hr := by simp [hplace] at hr
  lost e he := by
    obtain ⟨hnone, -, -⟩ := h.lost e ((List.mem_append.mp he).resolve_right (hlost e))
    exact ⟨hidle hnone, hplace, hborn⟩
  fresh hfresh := absurd hfresh hborn

/-- A step inside of the recovery. -/
theorem TcpAcceptor.Reserve.recover (h : s.Reserve tr) (hrecovering : s.place.recovering = true)
    (hborn : s'.place ≠ .unborn) (hspare : Undisturbed (tr ++ es) → s'.Spare)
    (hlost : ∀ e, .idleLost e ∉ es) : s'.Reserve (tr ++ es) where
  spare _ := hspare
  lost e he := by
    obtain ⟨-, hplace, -⟩ := h.lost e ((List.mem_append.mp he).resolve_right (hlost e))
    simp [hrecovering] at hplace
  fresh hfresh := absurd hfresh hborn

/-- A step of somebody else. -/
theorem TcpAcceptor.Reserve.aside (h : s.Reserve tr) (hplace : s'.place = s.place)
    (hidle : s'.idleFd = s.idleFd) (hdisturbed : Undisturbed (tr ++ es) → Undisturbed tr)
    (hspare : Undisturbed (tr ++ es) → s.Spare → s'.Spare) (hlost : ∀ e, .idleLost e ∉ es) :
    s'.Reserve (tr ++ es) where
  spare hr hu := hspare hu (h.spare (hplace ▸ hr) (hdisturbed hu))
  lost e he := by
    rw [hidle, hplace]
    exact h.lost e ((List.mem_append.mp he).resolve_right (hlost e))
  fresh hfresh hu := h.fresh (hplace ▸ hfresh) (hdisturbed hu)

theorem step_reserve (hs : s.Owned) (h : s.Reserve tr) (hstep : s.Steps s' es) :
    s'.Reserve (tr ++ es) := by
  cases hstep with
  | construct hplace =>
    have hnever : ∀ e, .idleLost e ∉ tr := fun e he => (h.lost e he).2.2 hplace
    exact ⟨by simp [AcceptPlace.recovering], fun e he => absurd (by simpa using he) (hnever e),
      nofun⟩
  | constructFails =>
    exact ⟨by simp [AcceptPlace.recovering], fun _ _ => ⟨rfl, rfl, nofun⟩, nofun⟩
  | notInitialized hplace =>
    exact h.goOn (by simp [hplace]) (by simp [hplace, AcceptPlace.recovering]) id (by simp)
  | noSocket | listens | call | accept | acceptFull | acceptFails | hands | unsupported =>
    exact h.goOn nofun rfl id (by simp)
  | destroy => exact h.goOn nofun rfl (fun _ => rfl) (by simp)
  | @closeIdle fd hplace hidle =>
    have hspare := spare_closeFd hs (by simp [TcpAcceptor.owned, hidle] : fd ∈ s.owned)
    refine ⟨fun _ _ => Or.inr hspare, fun e he => ?_, nofun⟩
    have hnone := (h.lost e (by simpa using he)).1
    simp [hidle] at hnone
  | acceptAgain hplace =>
    have hr : s.place.recovering = true := by simp [hplace, AcceptPlace.recovering]
    exact h.recover hr nofun (fun _ => Or.inl (by simp [AcceptPlace.fds])) (by simp)
  | againFails hplace =>
    have hr : s.place.recovering = true := by simp [hplace, AcceptPlace.recovering]
    refine h.recover hr nofun (fun hu => Or.inr ?_) (by simp)
    have hspare := h.spare hr ((undisturbed_concat (by simp)).mp hu).1
    exact hspare.resolve_left (by simp [hplace, AcceptPlace.fds])
  | @reject fd c hplace =>
    have hr : s.place.recovering = true := by simp [hplace, AcceptPlace.recovering]
    have hmem : fd ∈ s.owned := by simp [TcpAcceptor.owned, hplace, AcceptPlace.fds]
    exact h.recover hr nofun (fun _ => Or.inr (spare_closeFd hs hmem)) (by simp)
  | reopen hplace =>
    refine ⟨by simp [AcceptPlace.recovering], fun e he => ?_, nofun⟩
    have hr := (h.lost e (by simpa using he)).2.1
    simp [hplace, AcceptPlace.recovering] at hr
  | reopenFails =>
    exact ⟨by simp [AcceptPlace.recovering], fun _ _ => ⟨rfl, rfl, nofun⟩, nofun⟩
  | arrive =>
    exact h.aside rfl rfl (fun hu => ((undisturbed_concat (by simp)).mp hu).1) (fun _ => id)
      (by simp)
  | openOther =>
    have hnot : ¬ Undisturbed (tr ++ [.openedOther]) :=
      fun hu => ((undisturbed_concat (by simp)).mp hu).2 rfl
    exact h.aside rfl rfl (fun hu => absurd hu hnot) (fun hu => absurd hu hnot) (by simp)
  | closeOther | closeHanded =>
    exact h.aside rfl rfl (by simp) (fun _ => spare_of_close) (by simp)

/-- Two events, the second of which is a result. -/
theorem eachAfter_result {e : AcceptEvent} {r : AcceptResult} (heach : EachAfter AcceptLaw tr)
    (he : AcceptLaw tr e) (hr : ∃ error, r = { error := some error }) :
    EachAfter AcceptLaw (tr ++ [e, .returned r]) := by
  have hboth := (heach.concat he).concat (acceptLaw_of_result (Or.inr hr))
  rwa [List.append_assoc] at hboth

theorem step_acceptLaw (h : s.Reserve tr) (heach : EachAfter AcceptLaw tr)
    (hstep : s.Steps s' es) : EachAfter AcceptLaw (tr ++ es) := by
  have hquiet : EachAfter AcceptLaw (tr ++ []) := by rwa [List.append_nil]
  -- where `EMFILE` comes back in the recovery, somebody has disturbed it
  have hfull : ∀ {e : AcceptErrno}, (e = .EMFILE → s.full = true) → s.place.recovering = true →
      s.place.fds = [] → e = .EMFILE → ¬ Undisturbed tr :=
    fun hfull hr hfds he hu => not_full_of_spare (h.spare hr hu) hfds (hfull he)
  cases hstep with
  | noSocket | listens | call | accept | acceptFull | acceptAgain | destroy | closeOther
  | closeHanded => exact hquiet
  | construct hplace =>
    exact heach.concat ⟨by simp, fun _ e he => (h.lost e he).2.2 hplace, nofun⟩
  | constructFails hplace => exact heach.concat ⟨fun _ => h.fresh hplace, nofun, nofun⟩
  | notInitialized | acceptFails =>
    exact heach.concat (acceptLaw_of_result (Or.inr ⟨_, rfl⟩))
  | closeIdle | reject | arrive | openOther =>
    exact heach.concat (acceptLaw_of_quiet nofun nofun nofun nofun)
  | againFails hplace he =>
    refine heach.concat ⟨fun hemfile => ?_, nofun, nofun⟩
    exact hfull he (by simp [hplace, AcceptPlace.recovering]) (by simp [hplace, AcceptPlace.fds])
      (by simpa using hemfile)
  | reopen hplace =>
    refine eachAfter_result heach ⟨by simp, fun _ e he => ?_, nofun⟩ ⟨_, rfl⟩
    have hr := (h.lost e he).2.1
    simp [hplace, AcceptPlace.recovering] at hr
  | reopenFails hplace he =>
    refine eachAfter_result heach ⟨fun hemfile => ?_, nofun, nofun⟩ ⟨_, rfl⟩
    exact hfull he (by simp [hplace, AcceptPlace.recovering]) (by simp [hplace, AcceptPlace.fds])
      (by simpa using hemfile)
  | hands hplace hinet => exact heach.concat (acceptLaw_of_result (Or.inl ⟨_, _, rfl, hinet⟩))
  | unsupported =>
    exact eachAfter_result heach (acceptLaw_of_quiet nofun nofun nofun nofun) ⟨_, rfl⟩

theorem owned_new (limit : Nat) : (TcpAcceptor.new limit).Owned where
  ledger := .nil
  below := by simp [TcpAcceptor.owned, TcpAcceptor.new, AcceptPlace.fds]
  unborn _ := rfl
  idle _ := rfl

theorem reserve_new (limit : Nat) : (TcpAcceptor.new limit).Reserve [] where
  spare h := by simp [TcpAcceptor.new, AcceptPlace.recovering] at h
  lost := by simp
  fresh _ := not_since_nil

/-- Whatever the kernel answers and the other threads of the process do: every open descriptor has
    one owner, the acceptor having one for the listening socket, one in reserve and one for the
    connection in hand; the connections that came in are answered in their order, each once, and
    those that are not answered yet wait; and a reserve that was opened is lost only to an error
    of the system, or to another thread that took its place while it was closed. -/
theorem accept_accounts (limit : Nat) {ls : List AcceptLabel}
    (hrun : run TcpAcceptor.step (.new limit) ls = some (s, tr)) :
    s.owned.Nodup ∧ (∀ fd, s.opened fd = true ↔ fd ∈ s.owned) ∧ (∀ fd ∈ s.owned, fd < s.limit) ∧
      tr.filterMap AcceptEvent.arrival =
        tr.filterMap AcceptEvent.answer ++ (s.place.peers ++ s.pending) ∧
      EachAfter AcceptLaw tr := by
  have h := run_induction
    (fun s tr => s.Owned ∧ s.InTurn tr ∧ s.Reserve tr ∧ EachAfter AcceptLaw tr)
    (fun s tr l s' es h hstep => by
      obtain ⟨howned, hturn, hreserve, heach⟩ := h
      have hs := steps_of_step hstep
      exact ⟨step_owned howned hs, step_inTurn hturn hs, step_reserve howned hreserve hs,
        step_acceptLaw hreserve heach hs⟩)
    [] ⟨owned_new limit, rfl, reserve_new limit, eachAfter_nil⟩ hrun
  rw [List.nil_append] at h
  obtain ⟨howned, hturn, -, heach⟩ := h
  exact ⟨howned.ledger.nodup, howned.ledger.mem, howned.below, hturn, heach⟩

end Accounts

/-- The process has three descriptors, and a connection comes in when all of them are open; in the
    second recovery another thread takes the place of the reserve. -/
def outOfDescriptors : List AcceptLabel :=
  [.construct (.gets 0), .listen (.listens 1), .openOther 2, .arrive ⟨7, true⟩, .call,
    .accept (.fails .EMFILE), .closeIdle, .accept (.gets 0), .reject, .reopen (.gets 0),
    .arrive ⟨8, true⟩, .call, .accept (.fails .EMFILE), .closeIdle, .openOther 0,
    .accept (.fails .EMFILE), .reopen (.fails .EMFILE)]

theorem accept_accounts_out_of_descriptors :
    ∃ s tr, run TcpAcceptor.step (.new 3) outOfDescriptors = some (s, tr) ∧
      s.idleFd = none ∧ s.pending = [⟨8, true⟩] ∧ .rejected ⟨7, true⟩ ∈ tr ∧ s.owned.Nodup ∧
      (∀ fd, s.opened fd = true ↔ fd ∈ s.owned) ∧ (∀ fd ∈ s.owned, fd < s.limit) ∧
      tr.filterMap AcceptEvent.arrival =
        tr.filterMap AcceptEvent.answer ++ (s.place.peers ++ s.pending) ∧
      EachAfter AcceptLaw tr := by
  have hrun : (run TcpAcceptor.step (.new 3) outOfDescriptors).map (fun r =>
      (r.1.idleFd, r.1.pending, decide (.rejected ⟨7, true⟩ ∈ r.2))) =
        some (none, [⟨8, true⟩], true) := by
    decide
  obtain ⟨⟨s, tr⟩, h, hs⟩ := Option.map_eq_some_iff.mp hrun
  obtain ⟨hidle, hpending, hmem⟩ :
      s.idleFd = none ∧ s.pending = [⟨8, true⟩] ∧ .rejected ⟨7, true⟩ ∈ tr := by
    simpa using hs
  exact ⟨s, tr, h, hidle, hpending, hmem, accept_accounts 3 h⟩

end RocketRpc.Net
