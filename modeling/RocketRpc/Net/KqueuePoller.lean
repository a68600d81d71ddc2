import RocketRpc.Net.EPollPoller

/-
  The kqueue poller (`rocket/net/poller/kqueue_poller.cc`).

  A kqueue has an entry for each descriptor and filter. `updateFdEvent` compares the mask asked
  for with the one in `m_registered` and changes only the filters where the two differ
  (`applyDelta`); the kernel drops the entries of a descriptor that is closed, of which
  `m_registered` knows nothing. So a filter is stale while `m_registered` has had it on since
  before such a close, and an update sets up the filters asked for except the stale ones
  (`kqueue_follows`).
-/

namespace RocketRpc.Net

open Machine

/-! ## The kernel -/

/-- `EVFILT_READ` and `EVFILT_WRITE`. -/
inductive Filter where
  | read
  | write
  deriving DecidableEq, Repr

def Filter.bit : Filter → UInt32
  | .read => toMask .inEvent
  | .write => toMask .outEvent

/-- The filter is on in a mask. -/
def Filter.On (f : Filter) (mask : UInt32) : Prop := mask &&& f.bit ≠ 0

instance (f : Filter) : DecidablePred f.On := fun _ => inferInstanceAs (Decidable (_ ≠ _))

/-- The open descriptors of the process, and the kqueue: the `udata` of each entry. -/
structure KqueueKernel where
  opened : Int → Bool
  knotes : Int → Filter → Option ConnPtr := fun _ _ => none

namespace KqueueKernel

def setKnote (k : KqueueKernel) (fd : Int) (f : Filter) (udata : Option ConnPtr) : KqueueKernel :=
  { k with knotes := Function.update k.knotes fd (Function.update (k.knotes fd) f udata) }

/-- `kevent` with one change, `EV_ADD` or `EV_DELETE`; nothing, if it fails with `EBADF` or
    `ENOENT`. An `EV_ADD` of an entry that is there replaces its `udata`. -/
def kevent (k : KqueueKernel) (fd : Int) (f : Filter) (add : Bool) (udata : ConnPtr) :
    Option KqueueKernel :=
  if !k.opened fd then none
  else if add then some (k.setKnote fd f (some udata))
  else if (k.knotes fd f).isNone then none
  else some (k.setKnote fd f none)

def openFd (k : KqueueKernel) (fd : Int) : KqueueKernel :=
  { k with opened := Function.update k.opened fd true }

def close (k : KqueueKernel) (fd : Int) : KqueueKernel where
  opened := Function.update k.opened fd false
  knotes := Function.update k.knotes fd fun _ => none

end KqueueKernel

/-! ## The poller -/

/-- A call of `updateFdEvent`: what it asks for, and what the kqueue has for the descriptor before
    and after. -/
structure KqueueUpdate where
  fd : Int
  mask : UInt32
  udata : ConnPtr
  before : Filter → Option ConnPtr
  after : Filter → Option ConnPtr

inductive KqueueEvent where
  | updated (u : KqueueUpdate)
  | removed (fd : Int)
  /-- A descriptor is closed that `m_registered` has with this mask. -/
  | closed (fd : Int) (registered : Option UInt32)

/-- The poller, with the kernel. -/
structure KqueuePoller where
  kernel : KqueueKernel
  /-- `m_registered`. -/
  registered : Int → Option UInt32 := fun _ => none

/-- What the owner of a poller and of its descriptors does. -/
inductive PollerCall where
  | openFd (fd : Int)
  | updateFdEvent (fd : Int) (ptr : ConnPtr) (event : FdEvent)
  | removeFdEvent (fd : Int)
  | closeFd (fd : Int)
  deriving DecidableEq, Repr

namespace KqueuePoller

def kChanges : List Filter := [.read, .write]

/-- One pass of the loop in `applyDelta`; a `kevent` that fails is logged. -/
def applyChange (fd : Int) (ptr : ConnPtr) (oldMask newMask : UInt32) (k : KqueueKernel)
    (f : Filter) : KqueueKernel :=
  let wasOn := decide (f.On oldMask)
  let wantOn := decide (f.On newMask)
  if wasOn = wantOn then k else (k.kevent fd f wantOn ptr).getD k

def applyDelta (k : KqueueKernel) (fd : Int) (ptr : ConnPtr) (oldMask newMask : UInt32) :
    KqueueKernel :=
  kChanges.foldl (applyChange fd ptr oldMask newMask) k

def updateFdEvent (p : KqueuePoller) (fd : Int) (ptr : ConnPtr) (event : FdEvent) :
    KqueuePoller × List KqueueEvent :=
  if fd < 0 then (p, [])
  else
    let newMask := event.listenMask
    let oldMask := (p.registered fd).getD 0
    let kernel := applyDelta p.kernel fd ptr oldMask newMask
    ({ kernel, registered := Function.update p.registered fd (some newMask) },
      [.updated ⟨fd, newMask, ptr, p.kernel.knotes fd, kernel.knotes fd⟩])

/-- An `EV_DELETE` has no use for its `udata`. -/
def removeFdEvent (p : KqueuePoller) (fd : Int) : KqueuePoller × List KqueueEvent :=
  if fd < 0 then (p, [])
  else
    match p.registered fd with
    | none => (p, [])
    | some mask =>
      ({ kernel := applyDelta p.kernel fd 0 mask 0
         registered := Function.update p.registered fd none }, [.removed fd])

def openFd (p : KqueuePoller) (fd : Int) : KqueuePoller :=
  { p with kernel := p.kernel.openFd fd }

def closeFd (p : KqueuePoller) (fd : Int) : KqueuePoller × List KqueueEvent :=
  if fd < 0 then (p, [])
  else ({ p with kernel := p.kernel.close fd }, [.closed fd (p.registered fd)])

/-- The kernel hands out descriptors that are not open, and only open ones are asked for and
    closed. -/
def step (p : KqueuePoller) : PollerCall → Option (KqueuePoller × List KqueueEvent)
  | .openFd fd => if 0 ≤ fd ∧ p.kernel.opened fd = false then some (p.openFd fd, []) else none
  | .updateFdEvent fd ptr event =>
    if p.kernel.opened fd then some (p.updateFdEvent fd ptr event) else none
  | .removeFdEvent fd => some (p.removeFdEvent fd)
  | .closeFd fd => if p.kernel.opened fd then some (p.closeFd fd) else none

/-- A poller before its first call. -/
def new : KqueuePoller := { kernel := { opened := fun _ => false } }

end KqueuePoller

/-! ## One change -/

section Change

variable {k : KqueueKernel} {fd : Int} {ptr : ConnPtr} {oldMask newMask : UInt32}

theorem setKnote_knotes (f : Filter) (udata : Option ConnPtr) (fd' : Int) (f' : Filter) :
    (k.setKnote fd f udata).knotes fd' f' =
      if fd' = fd ∧ f' = f then udata else k.knotes fd' f' := by
  by_cases hfd : fd' = fd
  · subst hfd
    by_cases hf : f' = f <;> simp [KqueueKernel.setKnote, hf]
  · simp [KqueueKernel.setKnote, hfd]

/-- What an entry is after a change of the mask. -/
def Filter.changed (f : Filter) (oldMask newMask : UInt32) (ptr : ConnPtr)
    (udata : Option ConnPtr) : Option ConnPtr :=
  if f.On oldMask ↔ f.On newMask then udata else if f.On newMask then some ptr else none

theorem applyChange_opened (f : Filter) :
    (KqueuePoller.applyChange fd ptr oldMask newMask k f).opened = k.opened := by
  simp only [KqueuePoller.applyChange, KqueueKernel.kevent]
  split_ifs <;> rfl

/-- The descriptor is open, or nothing is asked for and nothing is there. -/
def Settable (k : KqueueKernel) (fd : Int) (newMask : UInt32) : Prop :=
  k.opened fd = true ∨ newMask = 0 ∧ ∀ f, k.knotes fd f = none

theorem not_on_zero (f : Filter) : ¬ f.On 0 := by simp [Filter.On]

/-- An entry that an `EV_DELETE` does not find is none before and after. -/
theorem applyChange_knotes (h : Settable k fd newMask) (f : Filter) (fd' : Int) (f' : Filter) :
    (KqueuePoller.applyChange fd ptr oldMask newMask k f).knotes fd' f' =
      if fd' = fd ∧ f' = f then f.changed oldMask newMask ptr (k.knotes fd f)
      else k.knotes fd' f' := by
  have hsame : ∀ udata, k.knotes fd f = udata →
      (if fd' = fd ∧ f' = f then udata else k.knotes fd' f') = k.knotes fd' f' := by
    rintro _ rfl
    split_ifs with heq
    · rw [heq.1, heq.2]
    · rfl
  by_cases hboth : f.On oldMask ↔ f.On newMask
  · simp only [KqueuePoller.applyChange, Filter.changed, hboth, if_true, hsame _ rfl]
  have hne : decide (f.On oldMask) ≠ decide (f.On newMask) := by simpa using hboth
  rw [KqueuePoller.applyChange, if_neg hne, Filter.changed, if_neg hboth]
  rcases h with hopen | ⟨rfl, hnone⟩
  · by_cases hnew : f.On newMask
    · simp [KqueueKernel.kevent, hopen, hnew, setKnote_knotes]
    · cases hk : k.knotes fd f with
      | none => simp [KqueueKernel.kevent, hopen, hnew, hk, hsame none hk]
      | some udata => simp [KqueueKernel.kevent, hopen, hnew, hk, setKnote_knotes]
  · have hk := hnone f
    cases hopen : k.opened fd <;>
      simp [KqueueKernel.kevent, hopen, not_on_zero, hk, hsame none hk]

theorem Settable.applyChange (h : Settable k fd newMask) (f : Filter) :
    Settable (KqueuePoller.applyChange fd ptr oldMask newMask k f) fd newMask := by
  rcases id h with hopen | ⟨rfl, hnone⟩
  · exact Or.inl (by rw [applyChange_opened, hopen])
  · refine Or.inr ⟨rfl, fun f' => ?_⟩
    rw [applyChange_knotes h]
    split_ifs
    · simp [Filter.changed, not_on_zero, hnone f]
    · exact hnone f'

theorem applyDelta_opened :
    (KqueuePoller.applyDelta k fd ptr oldMask newMask).opened = k.opened := by
  simp only [KqueuePoller.applyDelta, KqueuePoller.kChanges, List.foldl_cons, List.foldl_nil,
    applyChange_opened]

/-- Each filter of the descriptor is changed on its own. -/
theorem applyDelta_knotes (h : Settable k fd newMask) (fd' : Int) (f : Filter) :
    (KqueuePoller.applyDelta k fd ptr oldMask newMask).knotes fd' f =
      if fd' = fd then f.changed oldMask newMask ptr (k.knotes fd f) else k.knotes fd' f := by
  simp only [KqueuePoller.applyDelta, KqueuePoller.kChanges, List.foldl_cons, List.foldl_nil]
  rw [applyChange_knotes (h.applyChange .read), applyChange_knotes h, applyChange_knotes h]
  by_cases hfd : fd' = fd
  · cases f <;> simp [hfd]
  · simp [hfd]

end Change

/-! ## Stale filters -/

/-- Nothing is left of what `m_registered` had of the filter. -/
def Forgets (fd : Int) (f : Filter) : KqueueEvent → Prop
  | .updated u => u.fd = fd ∧ ¬ f.On u.mask
  | .removed fd' => fd' = fd
  | .closed _ _ => False

/-- A descriptor was closed while `m_registered` had it with the filter on, and the filter was not
    switched off nor the descriptor removed since. -/
def StaleFilter (tr : List KqueueEvent) (fd : Int) (f : Filter) : Prop :=
  ∃ mask, f.On mask ∧ Since tr (.closed fd (some mask)) (Forgets fd f)

/-- What an update does, after the events `tr`: the filters asked for are there except the stale
    ones; an entry that was there keeps its `udata`, a new one has the `udata` of the update. -/
def KqueueLaw (tr : List KqueueEvent) (e : KqueueEvent) : Prop :=
  ∀ u, e = .updated u → ∀ f udata,
    u.after f = some udata ↔
      f.On u.mask ∧ ¬ StaleFilter tr u.fd f ∧ (u.before f).getD u.udata = udata

/-- `m_registered` has the filters of the kqueue and the stale ones. -/
structure KqueueMirrors (p : KqueuePoller) (tr : List KqueueEvent) : Prop where
  registered : ∀ fd f, f.On ((p.registered fd).getD 0) ↔
    (p.kernel.knotes fd f).isSome = true ∨ StaleFilter tr fd f
  stale : ∀ fd f, StaleFilter tr fd f → p.kernel.knotes fd f = none
  closed : ∀ fd f, p.kernel.opened fd = false → p.kernel.knotes fd f = none

section Law

variable {p p' : KqueuePoller} {tr es : List KqueueEvent} {fd fd' : Int} {f : Filter}

theorem not_staleFilter_nil : ¬ StaleFilter [] fd f := fun ⟨_, _, h⟩ => not_since_nil h

theorem staleFilter_concat_updated {u : KqueueUpdate} :
    StaleFilter (tr ++ [.updated u]) fd f ↔ StaleFilter tr fd f ∧ (u.fd = fd → f.On u.mask) := by
  simp only [StaleFilter, since_concat, reduceCtorEq, false_or, Forgets, not_and, not_not]
  constructor
  · rintro ⟨mask, hon, hsince, hkept⟩
    exact ⟨⟨mask, hon, hsince⟩, hkept⟩
  · rintro ⟨⟨mask, hon, hsince⟩, hkept⟩
    exact ⟨mask, hon, hsince, hkept⟩

theorem staleFilter_concat_removed :
    StaleFilter (tr ++ [.removed fd']) fd f ↔ StaleFilter tr fd f ∧ fd' ≠ fd := by
  simp only [StaleFilter, since_concat, reduceCtorEq, false_or, Forgets]
  constructor
  · rintro ⟨mask, hon, hsince, hkept⟩
    exact ⟨⟨mask, hon, hsince⟩, hkept⟩
  · rintro ⟨⟨mask, hon, hsince⟩, hkept⟩
    exact ⟨mask, hon, hsince, hkept⟩

theorem staleFilter_concat_closed {registered : Option UInt32} :
    StaleFilter (tr ++ [.closed fd' registered]) fd f ↔
      (fd' = fd ∧ ∃ mask, registered = some mask ∧ f.On mask) ∨ StaleFilter tr fd f := by
  simp only [StaleFilter, since_concat, KqueueEvent.closed.injEq, Forgets, not_false_eq_true,
    and_true]
  constructor
  · rintro ⟨mask, hon, ⟨heq, hreg⟩ | hsince⟩
    · exact Or.inl ⟨heq, mask, hreg, hon⟩
    · exact Or.inr ⟨mask, hon, hsince⟩
  · rintro (⟨heq, mask, hreg, hon⟩ | ⟨mask, hon, hsince⟩)
    · exact ⟨mask, hon, Or.inl ⟨heq, hreg⟩⟩
    · exact ⟨mask, hon, Or.inr hsince⟩

/-- A filter is in `m_registered` with its entry, with a stale one, or not at all. -/
theorem KqueueMirrors.cases (h : KqueueMirrors p tr) (fd : Int) (f : Filter) :
    (f.On ((p.registered fd).getD 0) ∧ (∃ udata, p.kernel.knotes fd f = some udata) ∧
        ¬ StaleFilter tr fd f) ∨
      (f.On ((p.registered fd).getD 0) ∧ p.kernel.knotes fd f = none ∧ StaleFilter tr fd f) ∨
      (¬ f.On ((p.registered fd).getD 0) ∧ p.kernel.knotes fd f = none ∧
        ¬ StaleFilter tr fd f) := by
  have hreg := h.registered fd f
  have hstale := h.stale fd f
  cases hk : p.kernel.knotes fd f with
  | some udata =>
    have hnot : ¬ StaleFilter tr fd f := fun hs => by simp [hstale hs] at hk
    exact Or.inl ⟨hreg.mpr (Or.inl (by simp [hk])), ⟨udata, rfl⟩, hnot⟩
  | none =>
    simp only [hk, Option.isSome_none, Bool.false_eq_true, false_or] at hreg
    by_cases hs : StaleFilter tr fd f
    · exact Or.inr (Or.inl ⟨hreg.mpr hs, rfl, hs⟩)
    · exact Or.inr (Or.inr ⟨mt hreg.mp hs, rfl, hs⟩)

/-- What a change of the mask makes of an entry. -/
theorem KqueueMirrors.changed (h : KqueueMirrors p tr) (fd : Int) (f : Filter) (ptr : ConnPtr)
    (mask : UInt32) (udata : ConnPtr) :
    f.changed ((p.registered fd).getD 0) mask ptr (p.kernel.knotes fd f) = some udata ↔
      f.On mask ∧ ¬ StaleFilter tr fd f ∧ (p.kernel.knotes fd f).getD ptr = udata := by
  rcases h.cases fd f with ⟨hon, ⟨x, hk⟩, hs⟩ | ⟨hon, hk, hs⟩ | ⟨hon, hk, hs⟩ <;>
    by_cases hnew : f.On mask <;> simp [Filter.changed, hon, hk, hs, hnew]

theorem KqueueMirrors.changed_eq_none (h : KqueueMirrors p tr) {fd : Int} {f : Filter}
    {mask : UInt32} (hmask : ¬ (f.On mask ∧ ¬ StaleFilter tr fd f)) (ptr : ConnPtr) :
    f.changed ((p.registered fd).getD 0) mask ptr (p.kernel.knotes fd f) = none := by
  rw [Option.eq_none_iff_forall_ne_some]
  exact fun udata heq => hmask ⟨((h.changed fd f ptr mask udata).mp heq).1,
    ((h.changed fd f ptr mask udata).mp heq).2.1⟩

theorem kqueueMirrors_new : KqueueMirrors .new [] where
  registered fd f := by simp [KqueuePoller.new, not_on_zero, not_staleFilter_nil]
  stale _ _ h := absurd h not_staleFilter_nil
  closed _ _ _ := rfl

theorem updateFdEvent_kqueueMirrors {ptr : ConnPtr} {event : FdEvent} (h : KqueueMirrors p tr)
    (hopen : p.kernel.opened fd = true) (hp : p.updateFdEvent fd ptr event = (p', es))
    (heach : EachAfter KqueueLaw tr) :
    KqueueMirrors p' (tr ++ es) ∧ EachAfter KqueueLaw (tr ++ es) := by
  unfold KqueuePoller.updateFdEvent at hp
  split_ifs at hp with hfd
  · obtain ⟨rfl, rfl⟩ := Prod.mk.inj hp
    rw [List.append_nil]
    exact ⟨h, heach⟩
  obtain ⟨rfl, rfl⟩ := Prod.mk.inj hp
  have hset : Settable p.kernel fd event.listenMask := Or.inl hopen
  refine ⟨⟨fun fd' f => ?_, fun fd' f hs => ?_, fun fd' f hclosed => ?_⟩, heach.concat ?_⟩
  · rw [staleFilter_concat_updated, applyDelta_knotes hset]
    by_cases heq : fd' = fd
    · subst heq
      rw [if_pos rfl, Option.isSome_iff_exists]
      simp only [h.changed, Function.update_self, Option.getD_some, forall_const,
        exists_and_left, exists_eq', and_true]
      by_cases hs : StaleFilter tr fd' f <;> simp [hs]
    · simpa [heq, Ne.symm heq] using h.registered fd' f
  · obtain ⟨hstale, -⟩ := staleFilter_concat_updated.mp hs
    rw [applyDelta_knotes hset]
    split_ifs with heq
    · subst heq
      exact h.changed_eq_none (fun hf => hf.2 hstale) ptr
    · exact h.stale fd' f hstale
  · rw [applyDelta_opened] at hclosed
    rw [applyDelta_knotes hset, if_neg (by rintro rfl; simp [hopen] at hclosed)]
    exact h.closed fd' f hclosed
  · intro u hu f udata
    obtain rfl := KqueueEvent.updated.inj hu
    simp only [applyDelta_knotes hset, if_true, h.changed]

theorem removeFdEvent_kqueueMirrors (h : KqueueMirrors p tr)
    (hp : p.removeFdEvent fd = (p', es)) (heach : EachAfter KqueueLaw tr) :
    KqueueMirrors p' (tr ++ es) ∧ EachAfter KqueueLaw (tr ++ es) := by
  unfold KqueuePoller.removeFdEvent at hp
  split_ifs at hp with hfd
  · obtain ⟨rfl, rfl⟩ := Prod.mk.inj hp
    rw [List.append_nil]
    exact ⟨h, heach⟩
  cases hr : p.registered fd with
  | none =>
    rw [hr] at hp
    obtain ⟨rfl, rfl⟩ := Prod.mk.inj hp
    rw [List.append_nil]
    exact ⟨h, heach⟩
  | some mask =>
    rw [hr] at hp
    obtain ⟨rfl, rfl⟩ := Prod.mk.inj hp
    have hset : Settable p.kernel fd 0 := by
      cases hopen : p.kernel.opened fd with
      | true => exact Or.inl hopen
      | false => exact Or.inr ⟨rfl, fun f => h.closed fd f hopen⟩
    have hchanged : ∀ f : Filter, f.changed mask 0 0 (p.kernel.knotes fd f) = none := by
      intro f
      have hoff : ¬ (f.On 0 ∧ ¬ StaleFilter tr fd f) := fun hf => not_on_zero f hf.1
      have hf := h.changed_eq_none hoff 0
      rwa [hr, Option.getD_some] at hf
    refine ⟨⟨fun fd' f => ?_, fun fd' f hs => ?_, fun fd' f hclosed => ?_⟩, heach.concat nofun⟩
    · rw [staleFilter_concat_removed, applyDelta_knotes hset]
      by_cases heq : fd' = fd
      · subst heq
        simp [hchanged, not_on_zero]
      · simpa [heq, Ne.symm heq] using h.registered fd' f
    · obtain ⟨hs, heq⟩ := staleFilter_concat_removed.mp hs
      rw [applyDelta_knotes hset, if_neg heq.symm]
      exact h.stale fd' f hs
    · rw [applyDelta_opened] at hclosed
      rw [applyDelta_knotes hset]
      split_ifs
      · exact hchanged f
      · exact h.closed fd' f hclosed

/-- The filters that a descriptor has in `m_registered` when it is closed become stale. -/
theorem closeFd_kqueueMirrors (h : KqueueMirrors p tr) (hp : p.closeFd fd = (p', es))
    (heach : EachAfter KqueueLaw tr) :
    KqueueMirrors p' (tr ++ es) ∧ EachAfter KqueueLaw (tr ++ es) := by
  unfold KqueuePoller.closeFd at hp
  split_ifs at hp with hfd
  · obtain ⟨rfl, rfl⟩ := Prod.mk.inj hp
    rw [List.append_nil]
    exact ⟨h, heach⟩
  obtain ⟨rfl, rfl⟩ := Prod.mk.inj hp
  refine ⟨⟨fun fd' f => ?_, fun fd' f hs => ?_, fun fd' f hclosed => ?_⟩, heach.concat nofun⟩
  · rw [staleFilter_concat_closed]
    by_cases heq : fd' = fd
    · subst heq
      have hreg := h.registered fd' f
      cases hr : p.registered fd' with
      | none =>
        simp only [hr, Option.getD_none, not_on_zero, false_iff, not_or] at hreg
        simp [KqueueKernel.close, not_on_zero, hreg.2]
      | some mask =>
        have hon : StaleFilter tr fd' f → f.On mask := by
          intro hs
          simpa [hr] using hreg.mpr (Or.inr hs)
        simpa [KqueueKernel.close] using hon
    · simpa [KqueueKernel.close, heq, Ne.symm heq] using h.registered fd' f
  · by_cases heq : fd' = fd
    · simp [KqueueKernel.close, heq]
    · rw [staleFilter_concat_closed] at hs
      have hs : StaleFilter tr fd' f := by simpa [Ne.symm heq] using hs
      simpa [KqueueKernel.close, heq] using h.stale fd' f hs
  · by_cases heq : fd' = fd
    · simp [KqueueKernel.close, heq]
    · have hclosed : p.kernel.opened fd' = false := by
        simpa [KqueueKernel.close, heq] using hclosed
      simpa [KqueueKernel.close, heq] using h.closed fd' f hclosed

theorem step_kqueueMirrors {c : PollerCall} (h : KqueueMirrors p tr)
    (hstep : p.step c = some (p', es)) (heach : EachAfter KqueueLaw tr) :
    KqueueMirrors p' (tr ++ es) ∧ EachAfter KqueueLaw (tr ++ es) := by
  cases c with
  | openFd fd =>
    obtain ⟨-, heq⟩ := Option.ite_none_right_eq_some.mp hstep
    obtain ⟨rfl, rfl⟩ := Prod.mk.inj (Option.some.inj heq)
    rw [List.append_nil]
    refine ⟨⟨h.registered, h.stale, fun fd' f hclosed => h.closed fd' f ?_⟩, heach⟩
    by_cases heq : fd' = fd <;>
      simp_all [KqueuePoller.openFd, KqueueKernel.openFd]
  | updateFdEvent fd ptr event =>
    obtain ⟨hopen, heq⟩ := Option.ite_none_right_eq_some.mp hstep
    exact updateFdEvent_kqueueMirrors h hopen (Option.some.inj heq) heach
  | removeFdEvent fd => exact removeFdEvent_kqueueMirrors h (Option.some.inj hstep) heach
  | closeFd fd =>
    obtain ⟨-, heq⟩ := Option.ite_none_right_eq_some.mp hstep
    exact closeFd_kqueueMirrors h (Option.some.inj heq) heach

theorem run_kqueueMirrors {calls : List PollerCall}
    (hrun : run KqueuePoller.step .new calls = some (p, tr)) :
    KqueueMirrors p tr ∧ EachAfter KqueueLaw tr :=
  run_induction (fun p tr => KqueueMirrors p tr ∧ EachAfter KqueueLaw tr)
    (fun _ _ _ _ _ h hs => step_kqueueMirrors h.1 hs h.2) [] ⟨kqueueMirrors_new, eachAfter_nil⟩
    hrun

/-- Whatever the owner does with open descriptors, `m_registered` has the filters that are in the
    kqueue and the stale ones, and an update sets up exactly the filters that it asks for and that
    are not stale. -/
theorem kqueue_follows {calls : List PollerCall}
    (hrun : run KqueuePoller.step .new calls = some (p, tr)) :
    (∀ fd f, f.On ((p.registered fd).getD 0) ↔
      (p.kernel.knotes fd f).isSome = true ∨ StaleFilter tr fd f) ∧ EachAfter KqueueLaw tr := by
  obtain ⟨hmirrors, heach⟩ := run_kqueueMirrors hrun
  exact ⟨hmirrors.registered, heach⟩

end Law

/-- A descriptor is closed in the poller, and a new connection on it asks for both directions. -/
def closedInPoller : List PollerCall :=
  [.openFd 5, .updateFdEvent 5 0 { readCallback := true }, .closeFd 5, .openFd 5,
    .updateFdEvent 5 1 { readCallback := true, writeCallback := some .handleWrite }]

/-- The new connection is in the kqueue for writes only. -/
theorem kqueue_follows_closed_in_poller :
    ∃ p tr, run KqueuePoller.step .new closedInPoller = some (p, tr) ∧
      p.kernel.knotes 5 .read = none ∧ p.kernel.knotes 5 .write = some 1 ∧
      StaleFilter tr 5 .read ∧ ¬ StaleFilter tr 5 .write ∧ EachAfter KqueueLaw tr := by
  have hrun : (run KqueuePoller.step .new closedInPoller).map (fun r =>
      (r.1.kernel.knotes 5 .read, r.1.kernel.knotes 5 .write,
        (r.1.registered 5).getD 0 &&& Filter.read.bit)) = some (none, some 1, 1) := by
    decide
  obtain ⟨⟨p, tr⟩, h, hp⟩ := Option.map_eq_some_iff.mp hrun
  obtain ⟨hread, hwrite, hmask⟩ : p.kernel.knotes 5 .read = none ∧
      p.kernel.knotes 5 .write = some 1 ∧ (p.registered 5).getD 0 &&& Filter.read.bit = 1 := by
    simpa using hp
  obtain ⟨hfollows, heach⟩ := kqueue_follows h
  have hstale : StaleFilter tr 5 .read := by
    simpa [hread] using (hfollows 5 .read).mp (by rw [Filter.On, hmask]; decide)
  refine ⟨p, tr, h, hread, hwrite, hstale, fun hs => ?_, heach⟩
  have hnone := (run_kqueueMirrors h).1.stale 5 .write hs
  simp [hwrite] at hnone

end RocketRpc.Net
