import Mathlib.Data.List.Basic
import RocketRpc.Lib.Simulation
import RocketRpc.Net.KqueuePoller

/-
  The two pollers as one interface (`rocket/net/poller/poller.h`).

  What a poller is for: it has, for each descriptor in it, the `FdEvent` and the events asked for
  last (`Interests`). The owner keeps to three rules: it asks for open descriptors, a descriptor
  in the poller has one `FdEvent`, and it is removed before it is closed (`Interests.step`). Under
  these calls the epoll set and the kqueue both stand for the table (`run_represents`), and
  `processEvents` makes the same read and write calls whichever of the two `poll` was of
  (`pollers_agree`).
-/

namespace RocketRpc.Net

open Machine

/-! ## What `poll` reports -/

/-- What a kernel finds of a descriptor: an error or a hangup ends a wait for either direction. -/
structure Readiness where
  readable : Bool
  writable : Bool
  failed : Bool
  ends : failed = true → readable = true ∧ writable = true

structure ActiveEvent where
  fdEvent : ConnPtr
  eventMask : UInt32
  deriving DecidableEq, Repr

def EPOLLERR : UInt32 := 0x008

def EPOLLHUP : UInt32 := 0x010

namespace EPollPoller

/-- The events of a descriptor that is ready; errors come without being asked for. -/
def readyEvents (interest : UInt32) (r : Readiness) : UInt32 :=
  (if interest &&& EPOLLIN ≠ 0 ∧ r.readable then EPOLLIN else 0) |||
    (if interest &&& EPOLLOUT ≠ 0 ∧ r.writable then EPOLLOUT else 0) |||
    (if r.failed then EPOLLERR ||| EPOLLHUP else 0)

def activeMask (events : UInt32) : UInt32 :=
  (if events &&& EPOLLIN ≠ 0 then toMask .inEvent else 0) |||
    (if events &&& EPOLLOUT ≠ 0 then toMask .outEvent else 0) |||
    (if events &&& (EPOLLERR ||| EPOLLHUP) ≠ 0 then toMask .errorEvent else 0)

/-- `poll`, where the kernel gets to the descriptors `fds`. -/
def poll (p : EPollPoller) (ready : Int → Readiness) (fds : List Int) : List ActiveEvent :=
  fds.filterMap fun fd =>
    match p.kernel.epoll fd with
    | none => none
    | some ev =>
      let events := readyEvents ev.events (ready fd)
      if events = 0 then none else some ⟨ev.ptr, activeMask events⟩

end EPollPoller

namespace KqueuePoller

def ready (f : Filter) (r : Readiness) : Bool :=
  match f with
  | .read => r.readable
  | .write => r.writable

def activeMask (f : Filter) (eof : Bool) : UInt32 :=
  f.bit ||| if eof then toMask .errorEvent else 0

/-- `poll`, where the kernel gets to the descriptors `fds`: an event for each filter that is
    ready. -/
def poll (p : KqueuePoller) (r : Int → Readiness) (fds : List Int) : List ActiveEvent :=
  fds.flatMap fun fd => kChanges.filterMap fun f =>
    match p.kernel.knotes fd f with
    | none => none
    | some udata => if ready f (r fd) then some ⟨udata, activeMask f (r fd).failed⟩ else none

end KqueuePoller

/-- The handlers that `EventLoop::processEvents` calls, one after another. -/
def processEvents (active : List ActiveEvent) : List (ConnPtr × TriggerEvent) :=
  active.flatMap fun ae =>
    [TriggerEvent.inEvent, .outEvent, .errorEvent].filterMap fun t =>
      if ae.eventMask &&& toMask t ≠ 0 then some (ae.fdEvent, t) else none

/-! ## The table -/

/-- The `FdEvent` of a descriptor, and the mask it asked for. -/
structure Interest where
  ptr : ConnPtr
  mask : UInt32
  deriving DecidableEq, Repr

structure Interests where
  opened : Int → Bool
  table : Int → Option Interest

namespace Interests

def new : Interests where
  opened _ := false
  table _ := none

/-- The calls of an owner that keeps to the rules. -/
def step (s : Interests) : PollerCall → Option (Interests × List Empty)
  | .openFd fd =>
    if 0 ≤ fd ∧ s.opened fd = false then
      some ({ s with opened := Function.update s.opened fd true }, [])
    else none
  | .updateFdEvent fd ptr event =>
    if s.opened fd = true ∧ ∀ i, s.table fd = some i → i.ptr = ptr then
      some ({ s with table := Function.update s.table fd (some ⟨ptr, event.listenMask⟩) }, [])
    else none
  | .removeFdEvent fd =>
    if s.opened fd = true then some ({ s with table := Function.update s.table fd none }, [])
    else none
  | .closeFd fd =>
    if s.opened fd = true ∧ s.table fd = none then
      some ({ s with opened := Function.update s.opened fd false }, [])
    else none

end Interests

/-- The epoll poller under the calls of its owner. -/
def EPollPoller.step (p : EPollPoller) : PollerCall → Option (EPollPoller × List PollerEvent)
  | .openFd fd => if 0 ≤ fd ∧ p.kernel.opened fd = false then some (p.openFd fd, []) else none
  | .updateFdEvent fd ptr event =>
    if p.kernel.opened fd then some (p.updateFdEvent fd ptr event) else none
  | .removeFdEvent fd => some (p.removeFdEvent fd)
  | .closeFd fd => if p.kernel.opened fd then some (p.closeFd fd) else none

def EPollPoller.new : EPollPoller := { kernel := { opened := fun _ => false } }

/-- The epoll set stands for the table. -/
structure EPollPoller.Represents (p : EPollPoller) (s : Interests) : Prop where
  opened : p.kernel.opened = s.opened
  registered : ∀ fd, p.registered fd = (s.table fd).map Interest.mask
  epoll : ∀ fd, p.kernel.epoll fd =
    (s.table fd).map fun i => ⟨toEpollEvents i.mask, i.ptr⟩

/-- The kqueue stands for the table. -/
structure KqueuePoller.Represents (p : KqueuePoller) (s : Interests) : Prop where
  opened : p.kernel.opened = s.opened
  registered : ∀ fd, p.registered fd = (s.table fd).map Interest.mask
  knotes : ∀ fd f, p.kernel.knotes fd f =
    (s.table fd).bind fun i => if f.On i.mask then some i.ptr else none

/-- Descriptors are not negative, and only open ones are in the table. -/
structure Interests.Sound (s : Interests) : Prop where
  nonneg : ∀ fd, s.opened fd = true → 0 ≤ fd
  opened : ∀ fd, s.opened fd = false → s.table fd = none

section Represents

variable {s s' : Interests} {c : PollerCall} {es : List Empty}

theorem Interests.Sound.step (h : s.Sound) (hstep : s.step c = some (s', es)) : s'.Sound := by
  cases c with
  | openFd fd =>
    obtain ⟨⟨hfd, -⟩, heq⟩ := Option.ite_none_right_eq_some.mp hstep
    obtain ⟨rfl, -⟩ := Prod.mk.inj (Option.some.inj heq)
    constructor
    · intro fd' hopen
      by_cases heq : fd' = fd
      · rwa [heq]
      · exact h.nonneg fd' (by simpa [heq] using hopen)
    · intro fd' hclosed
      by_cases heq : fd' = fd
      · simp [heq] at hclosed
      · exact h.opened fd' (by simpa [heq] using hclosed)
  | updateFdEvent fd ptr event =>
    obtain ⟨⟨hopen, -⟩, heq⟩ := Option.ite_none_right_eq_some.mp hstep
    obtain ⟨rfl, -⟩ := Prod.mk.inj (Option.some.inj heq)
    refine ⟨h.nonneg, fun fd' hclosed => ?_⟩
    by_cases heq : fd' = fd
    · subst heq
      simp [hopen] at hclosed
    · simpa [heq] using h.opened fd' hclosed
  | removeFdEvent fd =>
    obtain ⟨-, heq⟩ := Option.ite_none_right_eq_some.mp hstep
    obtain ⟨rfl, -⟩ := Prod.mk.inj (Option.some.inj heq)
    refine ⟨h.nonneg, fun fd' hclosed => ?_⟩
    by_cases heq : fd' = fd
    · simp [heq]
    · simpa [heq] using h.opened fd' hclosed
  | closeFd fd =>
    obtain ⟨⟨-, hnone⟩, heq⟩ := Option.ite_none_right_eq_some.mp hstep
    obtain ⟨rfl, -⟩ := Prod.mk.inj (Option.some.inj heq)
    constructor
    · intro fd' hopen
      by_cases heq : fd' = fd
      · simp [heq] at hopen
      · exact h.nonneg fd' (by simpa [heq] using hopen)
    · intro fd' hclosed
      by_cases heq : fd' = fd
      · rwa [heq]
      · exact h.opened fd' (by simpa [heq] using hclosed)

/-- The epoll poller takes the calls of an owner that keeps to the rules. -/
theorem EPollPoller.Represents.step {p : EPollPoller} (h : p.Represents s) (hs : s.Sound)
    (hstep : s.step c = some (s', es)) : ∃ p' fs, p.step c = some (p', fs) ∧ p'.Represents s' := by
  cases c with
  | openFd fd =>
    obtain ⟨⟨hfd, hclosed⟩, heq⟩ := Option.ite_none_right_eq_some.mp hstep
    obtain ⟨rfl, -⟩ := Prod.mk.inj (Option.some.inj heq)
    refine ⟨p.openFd fd, [], if_pos ⟨hfd, by rw [h.opened, hclosed]⟩, ?_, h.registered, h.epoll⟩
    simp only [EPollPoller.openFd, Kernel.openFd, h.opened]
  | updateFdEvent fd ptr event =>
    obtain ⟨⟨hopen, -⟩, heq⟩ := Option.ite_none_right_eq_some.mp hstep
    obtain ⟨rfl, -⟩ := Prod.mk.inj (Option.some.inj heq)
    have hfd := hs.nonneg fd hopen
    have hopen' : p.kernel.opened fd = true := by rw [h.opened, hopen]
    have hreg := h.registered fd
    have hepoll := h.epoll fd
    have hput : (p.updateFdEvent fd ptr event).1 =
        p.put fd ⟨toEpollEvents event.listenMask, ptr⟩ event.listenMask := by
      cases hi : s.table fd <;>
        simp_all [EPollPoller.updateFdEvent, EPollPoller.put, Kernel.epollCtl, Int.not_lt.mpr hfd]
    refine ⟨(p.updateFdEvent fd ptr event).1, _, if_pos hopen', ?_⟩
    rw [hput]
    refine ⟨h.opened, fun fd' => ?_, fun fd' => ?_⟩ <;> by_cases heq : fd' = fd
    · simp [EPollPoller.put, heq]
    · simpa [EPollPoller.put, heq] using h.registered fd'
    · simp [EPollPoller.put, heq]
    · simpa [EPollPoller.put, heq] using h.epoll fd'
  | removeFdEvent fd =>
    obtain ⟨hopen, heq⟩ := Option.ite_none_right_eq_some.mp hstep
    obtain ⟨rfl, -⟩ := Prod.mk.inj (Option.some.inj heq)
    have hfd := hs.nonneg fd hopen
    have hopen' : p.kernel.opened fd = true := by rw [h.opened, hopen]
    have hreg := h.registered fd
    have hepoll := h.epoll fd
    refine ⟨(p.removeFdEvent fd).1, _, rfl, ?_⟩
    cases hi : s.table fd with
    | none =>
      have hsame : Function.update s.table fd none = s.table := by
        rw [← hi, Function.update_eq_self]
      have hnop : (p.removeFdEvent fd).1 = p := by
        simp [EPollPoller.removeFdEvent, hreg, hi]
      rw [hnop, hsame]
      exact h
    | some i =>
      have hdel : (p.removeFdEvent fd).1 =
          { kernel := { p.kernel with epoll := Function.update p.kernel.epoll fd none }
            registered := Function.update p.registered fd none } := by
        simp [EPollPoller.removeFdEvent, Kernel.epollCtl, hreg, hepoll, hi, hopen',
          Int.not_lt.mpr hfd]
      rw [hdel]
      refine ⟨h.opened, fun fd' => ?_, fun fd' => ?_⟩ <;> by_cases heq : fd' = fd
      · simp [heq]
      · simpa [heq] using h.registered fd'
      · simp [heq]
      · simpa [heq] using h.epoll fd'
  | closeFd fd =>
    obtain ⟨⟨hopen, hnone⟩, heq⟩ := Option.ite_none_right_eq_some.mp hstep
    obtain ⟨rfl, -⟩ := Prod.mk.inj (Option.some.inj heq)
    have hopen' : p.kernel.opened fd = true := by rw [h.opened, hopen]
    refine ⟨(p.closeFd fd).1, _, if_pos hopen', ?_⟩
    rw [EPollPoller.closeFd, if_neg (Int.not_lt.mpr (hs.nonneg fd hopen))]
    refine ⟨by simp only [Kernel.close, h.opened], h.registered, fun fd' => ?_⟩
    by_cases heq : fd' = fd
    · simp [Kernel.close, heq, hnone]
    · simpa [Kernel.close, heq] using h.epoll fd'

/-- The kqueue poller takes the calls of an owner that keeps to the rules. -/
theorem KqueuePoller.Represents.step {p : KqueuePoller} (h : p.Represents s) (hs : s.Sound)
    (hstep : s.step c = some (s', es)) : ∃ p' fs, p.step c = some (p', fs) ∧ p'.Represents s' := by
  cases c with
  | openFd fd =>
    obtain ⟨⟨hfd, hclosed⟩, heq⟩ := Option.ite_none_right_eq_some.mp hstep
    obtain ⟨rfl, -⟩ := Prod.mk.inj (Option.some.inj heq)
    refine ⟨p.openFd fd, [], if_pos ⟨hfd, by rw [h.opened, hclosed]⟩, ?_, h.registered, h.knotes⟩
    simp only [KqueuePoller.openFd, KqueueKernel.openFd, h.opened]
  | updateFdEvent fd ptr event =>
    obtain ⟨⟨hopen, hptr⟩, heq⟩ := Option.ite_none_right_eq_some.mp hstep
    obtain ⟨rfl, -⟩ := Prod.mk.inj (Option.some.inj heq)
    have hopen' : p.kernel.opened fd = true := by rw [h.opened, hopen]
    have hset : Settable p.kernel fd event.listenMask := Or.inl hopen'
    refine ⟨(p.updateFdEvent fd ptr event).1, _, if_pos hopen', ?_⟩
    rw [KqueuePoller.updateFdEvent, if_neg (Int.not_lt.mpr (hs.nonneg fd hopen))]
    refine ⟨applyDelta_opened.trans h.opened, fun fd' => ?_, fun fd' f => ?_⟩
    · by_cases heq : fd' = fd
      · simp [heq]
      · simpa [heq] using h.registered fd'
    · dsimp only
      rw [applyDelta_knotes hset]
      by_cases heq : fd' = fd
      · rw [if_pos heq, heq, h.knotes, h.registered, Function.update_self, Option.bind_some]
        cases hi : s.table fd with
        | none =>
          by_cases hnew : f.On event.listenMask <;> simp [Filter.changed, not_on_zero, hnew]
        | some i =>
          -- a filter that stays on keeps the pointer it has
          have hsame := hptr i hi
          by_cases hold : f.On i.mask <;> by_cases hnew : f.On event.listenMask <;>
            simp [Filter.changed, hold, hnew, hsame]
      · rw [if_neg heq, h.knotes, Function.update_of_ne heq]
  | removeFdEvent fd =>
    obtain ⟨hopen, heq⟩ := Option.ite_none_right_eq_some.mp hstep
    obtain ⟨rfl, -⟩ := Prod.mk.inj (Option.some.inj heq)
    have hset : Settable p.kernel fd 0 := Or.inl (by rw [h.opened, hopen])
    have hreg := h.registered fd
    refine ⟨(p.removeFdEvent fd).1, _, rfl, ?_⟩
    rw [KqueuePoller.removeFdEvent, if_neg (Int.not_lt.mpr (hs.nonneg fd hopen))]
    cases hi : s.table fd with
    | none =>
      have hsame : Function.update s.table fd none = s.table := by
        rw [← hi, Function.update_eq_self]
      rw [hsame, hreg, hi]
      exact h
    | some i =>
      rw [hreg, hi]
      refine ⟨applyDelta_opened.trans h.opened, fun fd' => ?_, fun fd' f => ?_⟩
      · by_cases heq : fd' = fd
        · simp [heq]
        · simpa [heq] using h.registered fd'
      · simp only [Option.map_some]
        rw [applyDelta_knotes hset]
        by_cases heq : fd' = fd
        · rw [if_pos heq, heq, h.knotes, hi, Function.update_self]
          by_cases hold : f.On i.mask <;> simp [Filter.changed, not_on_zero, hold]
        · rw [if_neg heq, h.knotes, Function.update_of_ne heq]
  | closeFd fd =>
    obtain ⟨⟨hopen, hnone⟩, heq⟩ := Option.ite_none_right_eq_some.mp hstep
    obtain ⟨rfl, -⟩ := Prod.mk.inj (Option.some.inj heq)
    have hopen' : p.kernel.opened fd = true := by rw [h.opened, hopen]
    refine ⟨(p.closeFd fd).1, _, if_pos hopen', ?_⟩
    rw [KqueuePoller.closeFd, if_neg (Int.not_lt.mpr (hs.nonneg fd hopen))]
    refine ⟨by simp only [KqueueKernel.close, h.opened], h.registered, fun fd' f => ?_⟩
    by_cases heq : fd' = fd
    · simp [KqueueKernel.close, heq, hnone]
    · simpa [KqueueKernel.close, heq] using h.knotes fd' f

/-- Both pollers stand for the table, whatever calls the owner makes. -/
theorem run_represents {calls : List PollerCall}
    (hrun : run Interests.step .new calls = some (s, es)) :
    ∃ p es₁ q es₂, run EPollPoller.step .new calls = some (p, es₁) ∧
      run KqueuePoller.step .new calls = some (q, es₂) ∧ p.Represents s ∧ q.Represents s := by
  have hnew : Interests.new.Sound := ⟨by simp [Interests.new], fun _ _ => rfl⟩
  have hp : EPollPoller.new.Represents .new ∧ Interests.new.Sound :=
    ⟨⟨rfl, fun _ => rfl, fun _ => rfl⟩, hnew⟩
  have hq : KqueuePoller.new.Represents .new ∧ Interests.new.Sound :=
    ⟨⟨rfl, fun _ => rfl, fun _ _ => rfl⟩, hnew⟩
  obtain ⟨p, es₁, hp₁, hp₂, -⟩ := run_follows
    (R := fun s (p : EPollPoller) => p.Represents s ∧ s.Sound)
    (fun s p c s' es h hstep => by
      obtain ⟨p', fs, hp', h'⟩ := h.1.step h.2 hstep
      exact ⟨p', fs, hp', h', h.2.step hstep⟩) hp hrun
  obtain ⟨q, es₂, hq₁, hq₂, -⟩ := run_follows
    (R := fun s (q : KqueuePoller) => q.Represents s ∧ s.Sound)
    (fun s q c s' es h hstep => by
      obtain ⟨q', fs, hq', h'⟩ := h.1.step h.2 hstep
      exact ⟨q', fs, hq', h', h.2.step hstep⟩) hq hrun
  exact ⟨p, es₁, q, es₂, hp₁, hq₁, hp₂, hq₂⟩

end Represents

/-! ## The handlers -/

/-- A trigger fires for a mask: what was asked for is there, errors are always asked for. -/
def TriggerEvent.Fires (t : TriggerEvent) (mask : UInt32) (r : Readiness) : Prop :=
  match t with
  | .inEvent => Filter.read.On mask ∧ r.readable = true
  | .outEvent => Filter.write.On mask ∧ r.writable = true
  | .errorEvent => r.failed = true

/-- One of the descriptors `fds` is in the table with the `FdEvent` and a mask that meets `P`. -/
def Interests.Has (s : Interests) (fds : List Int) (ptr : ConnPtr) (P : UInt32 → Int → Prop) :
    Prop :=
  ∃ fd ∈ fds, ∃ i, s.table fd = some i ∧ i.ptr = ptr ∧ P i.mask fd

section Handlers

variable {s : Interests} {ready : Int → Readiness} {fds : List Int} {ptr : ConnPtr}
  {t : TriggerEvent}

theorem mem_processEvents {active : List ActiveEvent} :
    (ptr, t) ∈ processEvents active ↔
      ∃ ae ∈ active, ae.fdEvent = ptr ∧ ae.eventMask &&& toMask t ≠ 0 := by
  simp only [processEvents, List.mem_flatMap, List.mem_filterMap]
  refine exists_congr fun ae => and_congr_right fun _ => ⟨?_, ?_⟩
  · rintro ⟨t', -, h⟩
    obtain ⟨hmask, heq⟩ := Option.ite_none_right_eq_some.mp h
    obtain ⟨rfl, rfl⟩ := Prod.mk.inj (Option.some.inj heq)
    exact ⟨rfl, hmask⟩
  · rintro ⟨rfl, hmask⟩
    exact ⟨t, by cases t <;> simp, if_pos hmask⟩

/-- What a mask asks for comes through the flags of epoll and back. -/
theorem activeMask_readyEvents (mask : UInt32) (r : Readiness) (t : TriggerEvent) :
    EPollPoller.activeMask (EPollPoller.readyEvents (toEpollEvents mask) r) &&& toMask t ≠ 0 ↔
      t.Fires mask r := by
  obtain ⟨readable, writable, failed, -⟩ := r
  simp only [toEpollEvents, TriggerEvent.Fires, Filter.On, Filter.bit]
  by_cases hin : mask &&& toMask .inEvent = 0 <;> by_cases hout : mask &&& toMask .outEvent = 0 <;>
    simp only [hin, hout, ne_eq, not_true_eq_false, not_false_eq_true, if_true, if_false] <;>
    cases readable <;> cases writable <;> cases failed <;> cases t <;> decide +revert

theorem activeMask_filter (f : Filter) (eof : Bool) (t : TriggerEvent) :
    KqueuePoller.activeMask f eof &&& toMask t ≠ 0 ↔
      toMask t = f.bit ∨ t = .errorEvent ∧ eof = true := by
  cases f <;> cases eof <;> cases t <;> decide

/-- The handlers that a loop over the epoll poller calls. -/
theorem EPollPoller.Represents.mem_processEvents {p : EPollPoller} (h : p.Represents s) :
    (ptr, t) ∈ processEvents (p.poll ready fds) ↔
      s.Has fds ptr fun mask fd => t.Fires mask (ready fd) := by
  simp only [Net.mem_processEvents, EPollPoller.poll, List.mem_filterMap, Interests.Has, h.epoll]
  constructor
  · rintro ⟨ae, ⟨fd, hfd, hae⟩, hptr, hmask⟩
    cases hi : s.table fd with
    | none => simp [hi] at hae
    | some i =>
      simp only [hi, Option.map_some] at hae
      split_ifs at hae
      obtain rfl := Option.some.inj hae
      exact ⟨fd, hfd, i, hi, hptr, (activeMask_readyEvents _ _ _).mp hmask⟩
  · rintro ⟨fd, hfd, i, hi, hptr, hfires⟩
    have hmask := (activeMask_readyEvents _ _ _).mpr hfires
    have hne : EPollPoller.readyEvents (toEpollEvents i.mask) (ready fd) ≠ 0 := by
      intro hzero
      rw [hzero] at hmask
      exact hmask (by cases t <;> decide)
    refine ⟨⟨i.ptr, EPollPoller.activeMask _⟩, ⟨fd, hfd, ?_⟩, hptr, hmask⟩
    simp only [hi, Option.map_some]
    exact if_neg hne

/-- The events that `poll` finds in a kqueue. -/
theorem KqueuePoller.Represents.mem_processEvents {p : KqueuePoller} (h : p.Represents s) :
    (ptr, t) ∈ processEvents (p.poll ready fds) ↔
      ∃ f : Filter, s.Has fds ptr fun mask fd =>
        f.On mask ∧ KqueuePoller.ready f (ready fd) = true ∧
          (toMask t = f.bit ∨ t = .errorEvent ∧ (ready fd).failed = true) := by
  simp only [Net.mem_processEvents, KqueuePoller.poll, List.mem_flatMap, List.mem_filterMap,
    Interests.Has, h.knotes]
  constructor
  · rintro ⟨ae, ⟨fd, hfd, f, -, hae⟩, hptr, hmask⟩
    cases hi : s.table fd with
    | none => simp [hi] at hae
    | some i =>
      by_cases hon : f.On i.mask
      · simp only [hi, Option.bind_some, hon, if_true] at hae
        obtain ⟨hready, heq⟩ := Option.ite_none_right_eq_some.mp hae
        obtain rfl := Option.some.inj heq
        exact ⟨f, fd, hfd, i, hi, hptr, hon, hready, (activeMask_filter _ _ _).mp hmask⟩
      · simp [hi, hon] at hae
  · rintro ⟨f, fd, hfd, i, hi, hptr, hon, hready, ht⟩
    refine ⟨⟨i.ptr, KqueuePoller.activeMask f (ready fd).failed⟩,
      ⟨fd, hfd, f, by cases f <;> simp [KqueuePoller.kChanges], ?_⟩, hptr,
      (activeMask_filter f (ready fd).failed t).mpr ht⟩
    simp [hi, hon, hready]

/-- Reads and writes: the filter of the direction is the one that is ready. -/
theorem KqueuePoller.Represents.mem_processEvents_filter {p : KqueuePoller} (h : p.Represents s)
    (f : Filter) (ht : toMask t = f.bit) :
    (ptr, t) ∈ processEvents (p.poll ready fds) ↔
      s.Has fds ptr fun mask fd => f.On mask ∧ KqueuePoller.ready f (ready fd) = true := by
  have hne : t ≠ .errorEvent := by
    rintro rfl
    cases f <;> exact absurd ht (by decide)
  have hf : ∀ f' : Filter, toMask t = f'.bit → f' = f := by
    intro f' hf'
    have hbit : f'.bit = f.bit := hf'.symm.trans ht
    cases f' <;> cases f <;> first | rfl | exact absurd hbit (by decide)
  rw [h.mem_processEvents]
  constructor
  · rintro ⟨f', fd, hfd, i, hi, hptr, hon, hready, ht' | ⟨heq, -⟩⟩
    · obtain rfl := hf f' ht'
      exact ⟨fd, hfd, i, hi, hptr, hon, hready⟩
    · exact absurd heq hne
  · rintro ⟨fd, hfd, i, hi, hptr, hon, hready⟩
    exact ⟨f, fd, hfd, i, hi, hptr, hon, hready, Or.inl ht⟩

/-- Errors: a descriptor without a filter is not in the kqueue. -/
theorem KqueuePoller.Represents.mem_processEvents_error {p : KqueuePoller} (h : p.Represents s) :
    (ptr, .errorEvent) ∈ processEvents (p.poll ready fds) ↔
      s.Has fds ptr fun mask fd => (ready fd).failed = true ∧ ∃ f : Filter, f.On mask := by
  rw [h.mem_processEvents]
  constructor
  · rintro ⟨f, fd, hfd, i, hi, hptr, hon, -, ht | ⟨-, hfailed⟩⟩
    · cases f <;> exact absurd ht (by decide)
    · exact ⟨fd, hfd, i, hi, hptr, hfailed, f, hon⟩
  · rintro ⟨fd, hfd, i, hi, hptr, hfailed, f, hon⟩
    have hready : KqueuePoller.ready f (ready fd) = true := by
      cases f
      · exact ((ready fd).ends hfailed).1
      · exact ((ready fd).ends hfailed).2
    exact ⟨f, fd, hfd, i, hi, hptr, hon, hready, Or.inr ⟨rfl, hfailed⟩⟩

end Handlers

/-- A connection is read from, then written to as well, and makes room for another one. -/
def twoPolled : List PollerCall :=
  [.openFd 5, .updateFdEvent 5 0 { readCallback := true },
    .updateFdEvent 5 0 { readCallback := true, writeCallback := some .handleWrite },
    .removeFdEvent 5, .closeFd 5, .openFd 5, .updateFdEvent 5 1 { readCallback := true }]

end RocketRpc.Net
