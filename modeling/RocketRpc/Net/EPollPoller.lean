import Mathlib.Logic.Function.Basic
import RocketRpc.Lib.Machine
import RocketRpc.Net.TcpConnection

/-
  The epoll poller (`rocket/net/poller/epoll_poller.cc`).

  `m_registered` is the poller's idea of the epoll set: only `updateFdEvent` and `removeFdEvent`
  change it, while the kernel also drops a descriptor that is closed. A descriptor is stale while
  `m_registered` has it from before such a close. Apart from the stale ones, `m_registered` and
  the epoll set have the same descriptors, and an update does what it should exactly where the
  descriptor is not stale (`Mirrors`, `updateFdEvent_mirrors`).
-/

namespace RocketRpc.Net

open Machine

/-! ## The events of a descriptor -/

inductive TriggerEvent where
  | inEvent
  | outEvent
  | errorEvent
  deriving DecidableEq, Repr

def toMask : TriggerEvent → UInt32
  | .inEvent => (1 : UInt32) <<< 0
  | .outEvent => (1 : UInt32) <<< 1
  | .errorEvent => (1 : UInt32) <<< 2

def FdEvent.listenMask (e : FdEvent) : UInt32 :=
  (if e.readCallback then toMask .inEvent else 0) |||
    (if e.writeCallback.isSome then toMask .outEvent else 0) |||
    (if e.errorCallback.isSome then toMask .errorEvent else 0)

def EPOLLIN : UInt32 := 0x001

def EPOLLOUT : UInt32 := 0x004

/-- Errors are always reported, they need not be asked for. -/
def toEpollEvents (listenMask : UInt32) : UInt32 :=
  (if listenMask &&& toMask .inEvent ≠ 0 then EPOLLIN else 0) |||
    (if listenMask &&& toMask .outEvent ≠ 0 then EPOLLOUT else 0)

/-! ## The kernel -/

/-- The place of a connection in memory, where its `FdEvent` is. -/
abbrev ConnPtr := Nat

structure EpollEvent where
  events : UInt32
  /-- `data.ptr`. -/
  ptr : ConnPtr
  deriving DecidableEq, Repr

inductive EpollOp where
  | add
  | mod
  | del
  deriving DecidableEq, Repr

/-- The open descriptors of the process, and the epoll set. -/
structure Kernel where
  opened : Int → Bool
  epoll : Int → Option EpollEvent := fun _ => none

namespace Kernel

/-- `epoll_ctl`; nothing, if it fails with `EBADF`, `EEXIST` or `ENOENT`. -/
def epollCtl (k : Kernel) (op : EpollOp) (fd : Int) (ev : Option EpollEvent) : Option Kernel :=
  let done := some { k with epoll := Function.update k.epoll fd ev }
  if !k.opened fd then none
  else
    match op, k.epoll fd with
    | .add, none => done
    | .mod, some _ => done
    | .del, some _ => done
    | _, _ => none

def openFd (k : Kernel) (fd : Int) : Kernel :=
  { k with opened := Function.update k.opened fd true }

/-- The last reference to an open file is closed: the epoll set loses it. -/
def close (k : Kernel) (fd : Int) : Kernel where
  opened := Function.update k.opened fd false
  epoll := Function.update k.epoll fd none

theorem opened_openFd {k : Kernel} {fd fd' : Int} :
    (k.openFd fd).opened fd' = true ↔ k.opened fd' = true ∨ fd' = fd := by
  by_cases heq : fd' = fd <;> simp [openFd, heq]

theorem opened_close {k : Kernel} {fd fd' : Int} :
    (k.close fd).opened fd' = true ↔ k.opened fd' = true ∧ fd' ≠ fd := by
  by_cases heq : fd' = fd <;> simp [close, heq]

theorem epoll_close {k : Kernel} {fd fd' : Int} {e : EpollEvent} :
    (k.close fd).epoll fd' = some e ↔ k.epoll fd' = some e ∧ fd' ≠ fd := by
  by_cases heq : fd' = fd <;> simp [close, heq]

end Kernel

/-! ## The poller -/

/-- A call of `updateFdEvent`: what it asks for, what it calls `epoll_ctl` with, and what the
    epoll set has for the descriptor before and after. -/
structure Update where
  fd : Int
  isOpen : Bool
  wanted : EpollEvent
  op : EpollOp
  before : Option EpollEvent
  after : Option EpollEvent
  deriving DecidableEq, Repr

/-- The epoll set has the descriptor with the events and the pointer asked for, by an `ADD` if it
    did not have it and by a `MOD` if it did. -/
def Update.Follows (u : Update) : Prop :=
  (u.op = .add ↔ u.before = none) ∧ (u.op = .mod ↔ u.before ≠ none) ∧ u.after = some u.wanted

instance (u : Update) : Decidable u.Follows := inferInstanceAs (Decidable (_ ∧ _ ∧ _))

inductive PollerEvent where
  | updated (u : Update)
  /-- `removeFdEvent` has erased the descriptor from `m_registered`. -/
  | removed (fd : Int)
  /-- The descriptor of a connection was closed; `registered` is whether `m_registered` had
      it. -/
  | closed (fd : Int) (registered : Bool)
  deriving DecidableEq, Repr

/-- The poller, with the kernel. -/
structure EPollPoller where
  kernel : Kernel
  /-- `m_registered`. -/
  registered : Int → Option UInt32 := fun _ => none

namespace EPollPoller

def updateFdEvent (p : EPollPoller) (fd : Int) (ptr : ConnPtr) (event : FdEvent) :
    EPollPoller × List PollerEvent :=
  if fd < 0 then (p, [])
  else
    let ev : EpollEvent := ⟨toEpollEvents event.listenMask, ptr⟩
    let op := if (p.registered fd).isNone then .add else .mod
    let p' : EPollPoller :=
      match p.kernel.epollCtl op fd (some ev) with
      | none => p
      | some kernel =>
        { kernel, registered := Function.update p.registered fd (some event.listenMask) }
    (p', [.updated ⟨fd, p.kernel.opened fd, ev, op, p.kernel.epoll fd, p'.kernel.epoll fd⟩])

/-- A `DEL` that fails is logged. -/
def removeFdEvent (p : EPollPoller) (fd : Int) : EPollPoller × List PollerEvent :=
  if fd < 0 ∨ (p.registered fd).isNone then (p, [])
  else
    ({ kernel := (p.kernel.epollCtl .del fd none).getD p.kernel
       registered := Function.update p.registered fd none }, [.removed fd])

def openFd (p : EPollPoller) (fd : Int) : EPollPoller :=
  { p with kernel := p.kernel.openFd fd }

/-- The destructor of a connection closes its descriptor. -/
def closeFd (p : EPollPoller) (fd : Int) : EPollPoller × List PollerEvent :=
  if fd < 0 then (p, [])
  else ({ p with kernel := p.kernel.close fd }, [.closed fd (p.registered fd).isSome])

end EPollPoller

/-! ## Stale descriptors -/

/-- A connection was destroyed while `m_registered` had its descriptor `fd`, and `fd` was not
    removed since. -/
def Stale (tr : List PollerEvent) (fd : Int) : Prop :=
  Since tr (.closed fd true) (· = .removed fd)

/-- What an update does, after the events `tr`. -/
def UpdateLaw (tr : List PollerEvent) (e : PollerEvent) : Prop :=
  ∀ u, e = .updated u → u.isOpen = true ∧ (u.Follows ↔ ¬ Stale tr u.fd)

/-- `m_registered` has the descriptors of the epoll set and the stale ones. -/
structure Mirrors (p : EPollPoller) (tr : List PollerEvent) : Prop where
  registered : ∀ fd, (p.registered fd).isSome = true ↔
    (p.kernel.epoll fd).isSome = true ∨ Stale tr fd
  stale : ∀ fd, Stale tr fd → p.kernel.epoll fd = none

@[simp] theorem stale_concat_updated {tr : List PollerEvent} {u : Update} {fd : Int} :
    Stale (tr ++ [.updated u]) fd ↔ Stale tr fd := by
  simp [Stale, since_concat]

@[simp] theorem stale_concat_removed {tr : List PollerEvent} {fd fd' : Int} :
    Stale (tr ++ [.removed fd]) fd' ↔ Stale tr fd' ∧ fd' ≠ fd := by
  simp [Stale, since_concat, eq_comm]

@[simp] theorem stale_concat_closed {tr : List PollerEvent} {fd fd' : Int} {registered : Bool} :
    Stale (tr ++ [.closed fd registered]) fd' ↔ (fd' = fd ∧ registered = true) ∨ Stale tr fd' := by
  simp [Stale, since_concat, eq_comm]

variable {p p' : EPollPoller} {tr es : List PollerEvent} {fd : Int}

theorem mirrors_new (opened : Int → Bool) : Mirrors { kernel := { opened } } [] where
  registered := by simp [Stale, not_since_nil]
  stale _ h := absurd h not_since_nil

/-- The poller after an update that succeeds. -/
def EPollPoller.put (p : EPollPoller) (fd : Int) (ev : EpollEvent) (mask : UInt32) :
    EPollPoller where
  kernel := { p.kernel with epoll := Function.update p.kernel.epoll fd (some ev) }
  registered := Function.update p.registered fd (some mask)

/-- An update of an open descriptor succeeds and follows the kernel, or the descriptor is stale
    and the update changes nothing. -/
theorem updateFdEvent_cases {ptr : ConnPtr} {event : FdEvent} (h : Mirrors p tr) (hfd : 0 ≤ fd)
    (hopen : p.kernel.opened fd = true) (hp : p.updateFdEvent fd ptr event = (p', es)) :
    ∃ u, es = [.updated u] ∧ u.fd = fd ∧ u.isOpen = true ∧
      ((¬ Stale tr fd ∧ u.Follows ∧
          p' = p.put fd ⟨toEpollEvents event.listenMask, ptr⟩ event.listenMask) ∨
        (Stale tr fd ∧ ¬ u.Follows ∧ p' = p)) := by
  have hreg := h.registered fd
  have hstale := h.stale fd
  simp only [EPollPoller.updateFdEvent, Int.not_lt.mpr hfd, if_false, Prod.mk.injEq] at hp
  obtain ⟨rfl, rfl⟩ := hp
  refine ⟨_, rfl, rfl, hopen, ?_⟩
  cases hr : p.registered fd with
  | none =>
    have hnot : p.kernel.epoll fd = none ∧ ¬ Stale tr fd := by simpa [hr] using hreg
    refine Or.inl ⟨hnot.2, ?_, ?_⟩ <;>
      simp [Update.Follows, Kernel.epollCtl, EPollPoller.put, hopen, hnot.1]
  | some mask =>
    cases he : p.kernel.epoll fd with
    | some e =>
      have hnot : ¬ Stale tr fd := fun hs => by simp [hstale hs] at he
      refine Or.inl ⟨hnot, ?_, ?_⟩ <;>
        simp [Update.Follows, Kernel.epollCtl, EPollPoller.put, hopen, he]
    | none =>
      -- `MOD` fails with `ENOENT`
      have hs : Stale tr fd := by simpa [hr, he] using hreg
      refine Or.inr ⟨hs, ?_, ?_⟩ <;> simp [Update.Follows, Kernel.epollCtl, hopen, he]

/-- An update keeps the other entries, and the descriptors that are open. -/
theorem updateFdEvent_frame (ptr : ConnPtr) (event : FdEvent) (h : Mirrors p tr) (hfd : 0 ≤ fd)
    (hopen : p.kernel.opened fd = true) (hp : p.updateFdEvent fd ptr event = (p', es)) :
    p'.kernel.opened = p.kernel.opened ∧
      ∀ fd' e, p'.kernel.epoll fd' = some e →
        (fd' = fd ∧ e.ptr = ptr) ∨ p.kernel.epoll fd' = some e := by
  obtain ⟨u, -, -, -, ⟨-, -, rfl⟩ | ⟨-, -, rfl⟩⟩ := updateFdEvent_cases h hfd hopen hp
  · refine ⟨rfl, fun fd' e he => ?_⟩
    by_cases heq : fd' = fd
    · subst heq
      obtain rfl : _ = e := by simpa [EPollPoller.put] using he
      exact Or.inl ⟨rfl, rfl⟩
    · exact Or.inr (by simpa [EPollPoller.put, heq] using he)
  · exact ⟨rfl, fun _ _ he => Or.inr he⟩

theorem updateFdEvent_mirrors (ptr : ConnPtr) (event : FdEvent) (h : Mirrors p tr) (hfd : 0 ≤ fd)
    (hopen : p.kernel.opened fd = true) (hp : p.updateFdEvent fd ptr event = (p', es))
    (heach : EachAfter UpdateLaw tr) : Mirrors p' (tr ++ es) ∧ EachAfter UpdateLaw (tr ++ es) := by
  obtain ⟨u, rfl, rfl, hisOpen, hu⟩ := updateFdEvent_cases h hfd hopen hp
  have hlaw : u.Follows ↔ ¬ Stale tr u.fd := by
    rcases hu with ⟨hs, hf, -⟩ | ⟨hs, hf, -⟩ <;> simp [hs, hf]
  refine ⟨?_, heach.concat ?_⟩
  · rcases hu with ⟨hs, -, rfl⟩ | ⟨-, -, rfl⟩
    · constructor
      · intro fd
        by_cases heq : fd = u.fd
        · simp [EPollPoller.put, heq]
        · simpa [EPollPoller.put, heq] using h.registered fd
      · intro fd hstale
        have hstale : Stale tr fd := stale_concat_updated.mp hstale
        have heq : fd ≠ u.fd := fun heq => hs (heq ▸ hstale)
        simpa [EPollPoller.put, heq] using h.stale fd hstale
    · exact ⟨by simpa using h.registered, by simpa using h.stale⟩
  · intro u' hu'
    obtain rfl := PollerEvent.updated.inj hu'
    exact ⟨hisOpen, hlaw⟩

theorem updateLaw_removed : UpdateLaw tr (.removed fd) := nofun

theorem updateLaw_closed {registered : Bool} : UpdateLaw tr (.closed fd registered) := nofun

/-- After the removal of an open descriptor neither side has it. -/
theorem removeFdEvent_mirrors (h : Mirrors p tr) (hfd : 0 ≤ fd)
    (hopen : p.kernel.opened fd = true) (hp : p.removeFdEvent fd = (p', es))
    (heach : EachAfter UpdateLaw tr) :
    Mirrors p' (tr ++ es) ∧ EachAfter UpdateLaw (tr ++ es) ∧
      p'.kernel.opened = p.kernel.opened ∧
      ∀ fd' e, p'.kernel.epoll fd' = some e → fd' ≠ fd ∧ p.kernel.epoll fd' = some e := by
  have hreg := h.registered fd
  cases hr : p.registered fd with
  | none =>
    obtain ⟨rfl, rfl⟩ : p = p' ∧ [] = es := by simpa [EPollPoller.removeFdEvent, hr] using hp
    rw [List.append_nil]
    refine ⟨h, heach, rfl, fun fd' e he => ⟨?_, he⟩⟩
    rintro rfl
    simp [hr, he] at hreg
  | some mask =>
    have hnone : ((p.kernel.epollCtl .del fd none).getD p.kernel) =
        { p.kernel with epoll := Function.update p.kernel.epoll fd none } := by
      cases he : p.kernel.epoll fd with
      | some e => simp [Kernel.epollCtl, hopen, he]
      | none =>
        -- a `DEL` that fails leaves the entry as it is, which is none
        have : Function.update p.kernel.epoll fd none = p.kernel.epoll := by
          rw [← he, Function.update_eq_self]
        simp [Kernel.epollCtl, hopen, he, this]
    simp only [EPollPoller.removeFdEvent, Int.not_lt.mpr hfd, hr, hnone, Option.isNone_some,
      Bool.false_eq_true, or_self, if_false, Prod.mk.injEq] at hp
    obtain ⟨rfl, rfl⟩ := hp
    refine ⟨⟨fun fd' => ?_, fun fd' hs => ?_⟩, heach.concat updateLaw_removed, rfl, ?_⟩
    · by_cases heq : fd' = fd
      · simp [heq]
      · simpa [heq] using h.registered fd'
    · obtain ⟨hs, heq⟩ := stale_concat_removed.mp hs
      simpa [heq] using h.stale fd' hs
    · intro fd' e he
      by_cases heq : fd' = fd
      · simp [heq] at he
      · exact ⟨heq, by simpa [heq] using he⟩

/-- A descriptor that is closed while it is registered becomes stale. -/
theorem closeFd_mirrors (h : Mirrors p tr) (hfd : 0 ≤ fd) (hp : p.closeFd fd = (p', es))
    (heach : EachAfter UpdateLaw tr) :
    Mirrors p' (tr ++ es) ∧ EachAfter UpdateLaw (tr ++ es) ∧ p'.kernel = p.kernel.close fd := by
  simp only [EPollPoller.closeFd, Int.not_lt.mpr hfd, if_false, Prod.mk.injEq] at hp
  obtain ⟨rfl, rfl⟩ := hp
  refine ⟨⟨fun fd' => ?_, fun fd' hs => ?_⟩, heach.concat updateLaw_closed, rfl⟩
  · have hreg := h.registered fd'
    by_cases heq : fd' = fd
    · subst heq
      by_cases hs : Stale tr fd' <;> simp_all [Kernel.close]
    · simpa [Kernel.close, heq] using hreg
  · by_cases heq : fd' = fd
    · simp [Kernel.close, heq]
    · have hs : Stale tr fd' := by simpa [heq] using hs
      simpa [Kernel.close, heq] using h.stale fd' hs

end RocketRpc.Net
