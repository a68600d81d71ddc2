import RocketRpc.Lib.Gate
import RocketRpc.Lib.Machine
import Mathlib.Logic.Function.Basic

/-
  The hand-off of `RpcChannel::Init` (`rocket/net/rpc/rpc_channel.cc`), as the calls of
  `CallMethodBlocking` on one channel use it.

  A channel has one place for what `Init` hands over, whoever calls it; the next call whose
  arguments match empties it. A call is named by a number, and so is its closure, which
  `CallMethodBlocking` makes anew. `captures_own_iff` says which calls get their closure: those
  whose `Init` is the last one before their hand-off.
-/

namespace RocketRpc.Rpc

open Machine

/-- The arguments of a `CallMethodBlocking`; null is `none`. -/
structure BlockingArguments where
  method : Bool
  controller : Option Nat
  /-- The controller is an `RpcController`. -/
  isRpcController : Bool
  request : Option Nat
  response : Option Nat
  deriving DecidableEq, Repr

/-- The argument check of `callMethodInternal`. -/
def BlockingArguments.passes (a : BlockingArguments) : Bool :=
  a.controller.isSome && a.isRpcController && a.method && a.request.isSome && a.response.isSome

/-- `m_is_init` and the objects that `Init` left in the channel. -/
structure InitSlot where
  isInit : Bool := false
  controller : Option Nat := none
  request : Option Nat := none
  response : Option Nat := none
  closure : Option Nat := none
  deriving DecidableEq, Repr

/-- The owners of a `RequestState`. -/
structure RequestOwners where
  controllerOwner : Option Nat := none
  requestOwner : Option Nat := none
  responseOwner : Option Nat := none
  closureOwner : Option Nat := none
  deriving DecidableEq, Repr

/-- Where a `CallMethodBlocking` is. -/
inductive BlockingPlace where
  | out
  /-- Behind `Init`, at the check of the arguments and of `m_is_init`. -/
  | checking
  /-- At the lock of `m_request_mutex`. -/
  | locking
  /-- Behind the hand-off. -/
  | calling
  /-- The arguments were refused, and the closure has run. -/
  | refused
  | returned
  deriving DecidableEq, Repr

/-- Where `finishRpc` is with the closure of a call; `pin` is `closure_pin`. -/
inductive RunPlace where
  | notRun
  | pinned (pin : Option Nat)
  /-- `Run` has set the flag, and is at `notify_one`. -/
  | notifying (pin : Option Nat)
  | run
  deriving DecidableEq, Repr

structure BlockingCall where
  place : BlockingPlace := .out
  owners : RequestOwners := {}
  closure : RunPlace := .notRun
  /-- The caller's thread runs the closure. -/
  byCaller : Bool := false
  /-- `done` of the `BlockingState`. -/
  done : Bool := false
  deriving DecidableEq, Repr

structure InitChannel where
  slot : InitSlot := {}
  calls : Nat → BlockingCall := fun _ => {}

inductive InitLabel where
  | init (k : Nat)
  | check (k : Nat)
  | handOff (k : Nat)
  /-- Somebody wins the gate of call `k` and pins its closure. -/
  | finishRpc (k : Nat) (byCaller : Bool)
  | run (k : Nat)
  | notify (k : Nat)
  | ret (k : Nat)
  deriving DecidableEq, Repr

inductive InitEvent where
  | init (k : Nat)
  /-- Call `k` is through its hand-off. -/
  | captured (k : Nat)
  /-- `Run` uses the closure of call `k`; `owned` says that somebody owns it then. -/
  | used (k : Nat) (owned : Bool)
  deriving DecidableEq, Repr

namespace InitChannel

variable (args : Nat → BlockingArguments)

def put (w : InitChannel) (k : Nat) (c : BlockingCall) : InitChannel :=
  { w with calls := Function.update w.calls k c }

/-- The caller's own pointer, the channel, the `RequestState` or `closure_pin` owns the
    closure of call `k`. -/
def owned (w : InitChannel) (k : Nat) : Bool :=
  !((w.calls k).place == .out || (w.calls k).place == .returned) ||
    w.slot.closure == some k || (w.calls k).owners.closureOwner == some k ||
    match (w.calls k).closure with
    | .pinned pin | .notifying pin => pin == some k
    | _ => false

/-- The objects in the channel are those of call `k`. -/
def legacyMatches (w : InitChannel) (k : Nat) : Bool :=
  w.slot.controller == (args k).controller && w.slot.request == (args k).request &&
    w.slot.response == (args k).response

/-- What `callMethodInternal` moves into the `RequestState`, and what stays in the channel.
    The argument `done` of a `CallMethodBlocking` is never null. -/
def capture (w : InitChannel) (k : Nat) : RequestOwners × InitSlot :=
  if w.slot.isInit && w.legacyMatches args k then
    ({ controllerOwner := w.slot.controller
       requestOwner := w.slot.request
       responseOwner := w.slot.response
       closureOwner := if w.slot.closure = some k then w.slot.closure else none }, {})
  else ({}, w.slot)

def step (w : InitChannel) : InitLabel → Option (InitChannel × List InitEvent)
  | .init k =>
    if (w.calls k).place = .out then
      some ({ w with slot :=
        { isInit := true
          controller := (args k).controller
          request := (args k).request
          response := (args k).response
          closure := some k } }.put k { w.calls k with place := .checking }, [.init k])
    else none
  | .check k =>
    if (w.calls k).place = .checking then
      if (args k).passes then
        if w.slot.isInit then some (w.put k { w.calls k with place := .locking }, [])
        else some (w.put k { w.calls k with place := .calling }, [.captured k])
      else
        some (w.put k { w.calls k with place := .refused, done := true }, [.used k (w.owned k)])
    else none
  | .handOff k =>
    if (w.calls k).place = .locking then
      some ({ w with slot := (w.capture args k).2 }.put k
        { w.calls k with place := .calling, owners := (w.capture args k).1 }, [.captured k])
    else none
  | .finishRpc k byCaller =>
    if (w.calls k).place = .calling ∧ (w.calls k).closure = .notRun then
      some (w.put k { w.calls k with
        closure := .pinned (w.calls k).owners.closureOwner
        byCaller := byCaller }, [])
    else none
  | .run k =>
    match (w.calls k).closure with
    | .pinned pin =>
      some (w.put k { w.calls k with closure := .notifying pin, done := true },
        [.used k (w.owned k)])
    | _ => none
  | .notify k =>
    match (w.calls k).closure with
    | .notifying _ => some (w.put k { w.calls k with closure := .run }, [.used k (w.owned k)])
    | _ => none
  | .ret k =>
    if ((w.calls k).place = .calling ∨ (w.calls k).place = .refused) ∧ (w.calls k).done = true ∧
        ((w.calls k).byCaller = true → (w.calls k).closure = .run) then
      some (w.put k { w.calls k with place := .returned }, [])
    else none

end InitChannel

namespace InitEvent

/-- The last `Init` after one more event. -/
def next (last : Option Nat) : InitEvent → Option Nat
  | .init k => some k
  | _ => last

/-- The call that an event is about. -/
def call : InitEvent → Nat
  | .init k | .captured k | .used k _ => k

end InitEvent

/-- The call whose `Init` is the last one of the events. -/
def lastInit (es : List InitEvent) : Option Nat := es.foldl InitEvent.next none

theorem lastInit_append (es es' : List InitEvent) :
    lastInit (es ++ es') = es'.foldl InitEvent.next (lastInit es) :=
  List.foldl_append

/-! ## What the channel holds -/

/-- The objects in the channel are those of the last `Init`, all of them. -/
structure SlotInv (args : Nat → BlockingArguments) (slot : InitSlot) (last : Option Nat) :
    Prop where
  held : slot.isInit = true → ∃ c, slot.closure = some c
  init : ∀ c, slot.closure = some c → slot.isInit = true ∧ last = some c
  controller : ∀ c, slot.closure = some c → slot.controller = (args c).controller
  request : ∀ c, slot.closure = some c → slot.request = (args c).request
  response : ∀ c, slot.closure = some c → slot.response = (args c).response

/-- Call `j`, as far as it is, with what the channel holds of it. -/
structure CallInv (args : Nat → BlockingArguments) (slot : InitSlot) (es : List InitEvent)
    (j : Nat) (c : BlockingCall) : Prop where
  between : (c.place = .checking ∨ c.place = .locking) → lastInit es = some j →
    slot.closure = some j
  passes : c.place = .locking → (args j).passes = true
  early : (c.place = .out ∨ c.place = .checking ∨ c.place = .locking) →
    c.owners = {} ∧ ∀ b, .used j b ∉ es
  notRun : c.place ≠ .calling → c.place ≠ .returned → c.closure = .notRun
  closureOwner : ∀ x, c.owners.closureOwner = some x → x = j
  controllerOwner : ∀ x, c.owners.controllerOwner = some x → (args j).controller = some x
  requestOwner : ∀ x, c.owners.requestOwner = some x → (args j).request = some x
  responseOwner : ∀ x, c.owners.responseOwner = some x → (args j).response = some x
  pin : ∀ pin, c.closure = .pinned pin ∨ c.closure = .notifying pin →
    pin = c.owners.closureOwner
  captured : ∀ as bs, es = as ++ .captured j :: bs → c.place = .calling ∨ c.place = .returned
  owner : ∀ as bs, es = as ++ .captured j :: bs →
    (c.owners.closureOwner = some j ↔ lastInit as = some j)
  used : c.owners.closureOwner = some j → ∀ b, .used j b ∈ es → b = true

/-- The calls have their own controllers, requests and responses. -/
structure Distinct (args : Nat → BlockingArguments) : Prop where
  controller : ∀ j k x, (args j).controller = some x → (args k).controller = some x → j = k
  request : ∀ j k x, (args j).request = some x → (args k).request = some x → j = k
  response : ∀ j k x, (args j).response = some x → (args k).response = some x → j = k

theorem split_of_append {es es' as bs : List InitEvent} {x : InitEvent} (hx : x ∉ es')
    (h : es ++ es' = as ++ x :: bs) : ∃ cs, es = as ++ x :: cs := by
  rcases List.append_eq_append_iff.mp h with ⟨cs, rfl, hes'⟩ | ⟨cs, rfl, hbs⟩
  · exact absurd (by rw [hes']; simp) hx
  · cases cs with
    | nil =>
      obtain rfl : x :: bs = es' := by simpa using hbs
      exact absurd List.mem_cons_self hx
    | cons y cs =>
      obtain ⟨rfl, -⟩ : x = y ∧ bs = cs ++ es' := by simpa using hbs
      exact ⟨cs, rfl⟩

/-- Another call takes a step. -/
theorem CallInv.other {args : Nat → BlockingArguments} {slot slot' : InitSlot}
    {es es' : List InitEvent} {j : Nat} {c : BlockingCall} (h : CallInv args slot es j c)
    (hes : ∀ e ∈ es', e.call ≠ j)
    (hslot : lastInit (es ++ es') = some j →
      lastInit es = some j ∧ (slot.closure = some j → slot'.closure = some j)) :
    CallInv args slot' (es ++ es') j c := by
  have hcaptured : InitEvent.captured j ∉ es' := fun hmem => hes _ hmem rfl
  have hused : ∀ b, .used j b ∈ es ++ es' → .used j b ∈ es := fun b hmem =>
    (List.mem_append.mp hmem).resolve_right fun hmem => hes _ hmem rfl
  refine ⟨?_, h.passes, ?_, h.notRun, h.closureOwner, h.controllerOwner, h.requestOwner,
    h.responseOwner, h.pin, ?_, ?_, fun ho b hmem => h.used ho b (hused b hmem)⟩
  · intro hplace hlast
    obtain ⟨hlast, hkeeps⟩ := hslot hlast
    exact hkeeps (h.between hplace hlast)
  · intro hplace
    obtain ⟨howners, hnone⟩ := h.early hplace
    exact ⟨howners, fun b hmem => hnone b (hused b hmem)⟩
  · intro as bs hcut
    obtain ⟨cs, hcut'⟩ := split_of_append hcaptured hcut
    exact h.captured as cs hcut'
  · intro as bs hcut
    obtain ⟨cs, hcut'⟩ := split_of_append hcaptured hcut
    exact h.owner as cs hcut'

/-- The channel and its calls after the events `es`. -/
structure HandOff (args : Nat → BlockingArguments) (w : InitChannel) (es : List InitEvent) :
    Prop where
  slot : SlotInv args w.slot (lastInit es)
  calls : ∀ j, CallInv args w.slot es j (w.calls j)

/-- Call `k` takes a step. -/
theorem HandOff.put {args : Nat → BlockingArguments} {w : InitChannel} {slot' : InitSlot}
    {es es' : List InitEvent} {k : Nat} {c : BlockingCall} (h : HandOff args w es)
    (hes : ∀ e ∈ es', e.call = k) (hslot : SlotInv args slot' (lastInit (es ++ es')))
    (hcall : CallInv args slot' (es ++ es') k c)
    (hothers : ∀ j, j ≠ k → lastInit (es ++ es') = some j →
      lastInit es = some j ∧ (w.slot.closure = some j → slot'.closure = some j)) :
    HandOff args ({ w with slot := slot' }.put k c) (es ++ es') := by
  refine ⟨hslot, fun j => ?_⟩
  by_cases hj : j = k
  · subst hj
    simp only [InitChannel.put, Function.update_self]
    exact hcall
  · simp only [InitChannel.put, Function.update_of_ne hj]
    exact (h.calls j).other (fun e he heq => hj (heq.symm.trans (hes e he))) (hothers j hj)

/-- Call `k` takes a step that has no part in the hand-off. -/
theorem HandOff.aside {args : Nat → BlockingArguments} {w : InitChannel}
    {es es' : List InitEvent} {k : Nat} {c : BlockingCall} (h : HandOff args w es)
    (hes : ∀ e ∈ es', e.call = k) (hlast : lastInit (es ++ es') = lastInit es)
    (hcall : CallInv args w.slot (es ++ es') k c) : HandOff args (w.put k c) (es ++ es') := by
  refine h.put hes ?_ hcall fun j _ hj => ⟨hlast ▸ hj, id⟩
  rw [hlast]
  exact h.slot

/-- `owned` of a call whose `RequestState` or whose pin has the closure. -/
theorem owned_of_owner {w : InitChannel} {k : Nat}
    (h : (w.calls k).owners.closureOwner = some k) : w.owned k = true := by
  simp [InitChannel.owned, h]

/-- The arguments of a call are not null once the check is behind it. -/
theorem BlockingArguments.passes_controller {a : BlockingArguments} (h : a.passes = true) :
    ∃ x, a.controller = some x := by
  simp only [BlockingArguments.passes, Bool.and_eq_true] at h
  exact Option.isSome_iff_exists.mp h.1.1.1.1

/-- What the channel holds matches the arguments of the call that handed it over, and of no
    other. -/
theorem SlotInv.matches_iff {args : Nat → BlockingArguments} {w : InitChannel}
    {last : Option Nat} (h : SlotInv args w.slot last) (hdistinct : Distinct args) {c k : Nat}
    (hclosure : w.slot.closure = some c) (hpasses : (args k).passes = true) :
    (w.slot.isInit && w.legacyMatches args k) = true ↔ c = k := by
  have hinit := (h.init c hclosure).1
  constructor
  · intro hmatches
    simp only [InitChannel.legacyMatches, Bool.and_eq_true, beq_iff_eq] at hmatches
    obtain ⟨x, hx⟩ := BlockingArguments.passes_controller hpasses
    refine hdistinct.controller c k x ?_ hx
    rw [← h.controller c hclosure, hmatches.2.1.1, hx]
  · rintro rfl
    simp [hinit, InitChannel.legacyMatches, h.controller c hclosure, h.request c hclosure,
      h.response c hclosure]

/-! ## The steps -/

variable {args : Nat → BlockingArguments}

theorem init_handOff {w : InitChannel} {es : List InitEvent} {k : Nat} (h : HandOff args w es)
    (hplace : (w.calls k).place = .out) :
    HandOff args ({ w with slot :=
        { isInit := true
          controller := (args k).controller
          request := (args k).request
          response := (args k).response
          closure := some k } }.put k { w.calls k with place := .checking })
      (es ++ [.init k]) := by
  have hlast : lastInit (es ++ [.init k]) = some k := by
    rw [lastInit_append]
    rfl
  have hcall := h.calls k
  obtain ⟨howners, hused⟩ := hcall.early (Or.inl hplace)
  have hcaptured : ∀ as bs, es ++ [.init k] ≠ as ++ .captured k :: bs := by
    intro as bs hcut
    obtain ⟨cs, hcut'⟩ := split_of_append (by simp) hcut
    rcases hcall.captured as cs hcut' with hp | hp <;> exact absurd (hplace.symm.trans hp) (by simp)
  refine h.put (by simp [InitEvent.call]) ?_ ?_ ?_
  · rw [hlast]
    refine ⟨fun _ => ⟨k, rfl⟩, ?_, ?_, ?_, ?_⟩
    · exact fun c hc => ⟨rfl, hc⟩
    all_goals
      rintro c hc
      obtain rfl : k = c := by simpa using hc
      rfl
  · have hnotRun := hcall.notRun (by simp [hplace]) (by simp [hplace])
    refine ⟨fun _ _ => rfl, fun hp => absurd hp (by simp), ?_, fun _ _ => hnotRun,
      hcall.closureOwner, hcall.controllerOwner, hcall.requestOwner, hcall.responseOwner,
      hcall.pin, fun as bs hcut => absurd hcut (hcaptured as bs),
      fun as bs hcut => absurd hcut (hcaptured as bs), ?_⟩
    · exact fun _ => ⟨howners, fun b hmem => hused b (by simpa using hmem)⟩
    · exact fun _ b hmem => absurd (by simpa using hmem) (hused b)
  · intro j hj hjlast
    exact absurd (Option.some.inj (hlast.symm.trans hjlast)).symm hj

/-- Nothing happens to the hand-off of call `k`, which goes from one place to another. -/
theorem CallInv.goOn {slot : InitSlot} {es es' : List InitEvent} {k : Nat}
    {c c' : BlockingCall} (h : CallInv args slot es k c) (howners : c'.owners = c.owners)
    (hnew : ∀ e ∈ es', ∃ b, e = .used k b ∧ (c.owners.closureOwner = some k → b = true))
    (hearly : (c'.place = .checking ∨ c'.place = .locking) →
      es' = [] ∧ (c.place = .checking ∨ c.place = .locking))
    (hpasses : c'.place = .locking → (args k).passes = true) (hout : c'.place ≠ .out)
    (hnotRun : c'.place ≠ .calling → c'.place ≠ .returned → c'.closure = .notRun)
    (hpin : ∀ pin, c'.closure = .pinned pin ∨ c'.closure = .notifying pin →
      pin = c.owners.closureOwner)
    (hcaptured : c.place = .calling ∨ c.place = .returned →
      c'.place = .calling ∨ c'.place = .returned) : CallInv args slot (es ++ es') k c' := by
  have hlast : lastInit (es ++ es') = lastInit es := by
    rw [lastInit_append]
    clear hearly hcaptured
    induction es' with
    | nil => rfl
    | cons e es' ih =>
      obtain ⟨b, rfl, -⟩ := hnew e (by simp)
      exact ih fun x hx => hnew x (List.mem_cons_of_mem _ hx)
  have hcut : ∀ {as bs}, es ++ es' = as ++ .captured k :: bs →
      ∃ cs, es = as ++ .captured k :: cs := by
    intro as bs
    refine split_of_append fun hmem => ?_
    obtain ⟨b, hb, -⟩ := hnew _ hmem
    exact absurd hb (by simp)
  have hused : ∀ b, .used k b ∈ es' → c.owners.closureOwner = some k → b = true := by
    intro b hmem ho
    obtain ⟨b', hb, hown⟩ := hnew _ hmem
    obtain rfl : b = b' := by simpa using hb
    exact hown ho
  refine ⟨?_, hpasses, ?_, hnotRun, ?_, ?_, ?_, ?_, ?_, ?_, ?_, ?_⟩
  · intro hp hl
    obtain ⟨-, hplace⟩ := hearly hp
    exact h.between hplace (hlast ▸ hl)
  · intro hp
    obtain ⟨rfl, hplace⟩ := hearly (hp.resolve_left hout)
    rw [howners, List.append_nil]
    exact h.early (Or.inr hplace)
  · rw [howners]
    exact h.closureOwner
  · rw [howners]
    exact h.controllerOwner
  · rw [howners]
    exact h.requestOwner
  · rw [howners]
    exact h.responseOwner
  · rw [howners]
    exact hpin
  · intro as bs hc
    obtain ⟨cs, hc'⟩ := hcut hc
    exact hcaptured (h.captured as cs hc')
  · intro as bs hc
    obtain ⟨cs, hc'⟩ := hcut hc
    rw [howners]
    exact h.owner as cs hc'
  · rw [howners]
    intro ho b hmem
    exact (List.mem_append.mp hmem).elim (h.used ho b) fun hmem => hused b hmem ho

/-- Call `k` leaves the hand-off with what the channel held of it. -/
theorem CallInv.capture {slot slot' : InitSlot} {es : List InitEvent} {k : Nat}
    {c : BlockingCall} {o : RequestOwners} (h : CallInv args slot es k c)
    (hslot : SlotInv args slot (lastInit es)) (hplace : c.place = .checking ∨ c.place = .locking)
    (howner : o.closureOwner = some k ↔ slot.closure = some k)
    (hclosure : ∀ x, o.closureOwner = some x → x = k)
    (hcontroller : ∀ x, o.controllerOwner = some x → (args k).controller = some x)
    (hrequest : ∀ x, o.requestOwner = some x → (args k).request = some x)
    (hresponse : ∀ x, o.responseOwner = some x → (args k).response = some x) :
    CallInv args slot' (es ++ [.captured k]) k { c with place := .calling, owners := o } := by
  have hnone : ∀ as bs, es ≠ as ++ .captured k :: bs := by
    intro as bs hcut
    rcases h.captured as bs hcut with hc | hc <;> rcases hplace with hp | hp <;>
      exact absurd (hp.symm.trans hc) (by simp)
  have hnotRun : c.closure = .notRun := by
    refine h.notRun ?_ ?_ <;> rcases hplace with hp | hp <;> simp [hp]
  have hused := (h.early (Or.inr hplace)).2
  have hlast : lastInit es = some k ↔ slot.closure = some k :=
    ⟨h.between hplace, fun hc => (hslot.init k hc).2⟩
  refine ⟨?_, ?_, ?_, ?_, hclosure, hcontroller, hrequest, hresponse, ?_,
    fun _ _ _ => Or.inl rfl, ?_, fun _ b hmem => absurd (by simpa using hmem) (hused b)⟩
  · exact fun hp => absurd hp (by simp)
  · exact fun hp => absurd hp (by simp)
  · exact fun hp => absurd hp (by simp)
  · exact fun hp => absurd rfl hp
  · intro pin hp
    rw [show ({ c with place := .calling, owners := o } : BlockingCall).closure = .notRun from
      hnotRun] at hp
    rcases hp with hp | hp <;> exact absurd hp (by simp)
  · intro as bs hcut
    rcases Gate.snoc_eq_append_cons hcut with ⟨rfl, -, -⟩ | ⟨cs, -, hcut'⟩
    · exact howner.trans hlast.symm
    · exact absurd hcut' (hnone as cs)

theorem check_handOff {w w' : InitChannel} {es es' : List InitEvent} {k : Nat}
    (h : HandOff args w es) (hstep : w.step args (.check k) = some (w', es')) :
    HandOff args w' (es ++ es') := by
  simp only [InitChannel.step] at hstep
  split at hstep
  · rename_i hplace
    have hcall := h.calls k
    have hnotRun := hcall.notRun (by simp [hplace]) (by simp [hplace])
    have hpin : ∀ pin, (w.calls k).closure = .pinned pin ∨ (w.calls k).closure = .notifying pin →
        pin = (w.calls k).owners.closureOwner := hcall.pin
    obtain ⟨howners, hused⟩ := hcall.early (Or.inr (Or.inl hplace))
    split at hstep
    · rename_i hpasses
      split at hstep
      · obtain ⟨rfl, rfl⟩ : _ = w' ∧ [] = es' := by simpa using hstep
        refine h.aside (by simp) (by rw [List.append_nil]) ?_
        exact hcall.goOn rfl (by simp) (fun _ => ⟨rfl, Or.inl hplace⟩) (fun _ => hpasses)
          (by simp) (fun _ _ => hnotRun) hpin (fun hp => absurd hp (by simp [hplace]))
      · -- somebody else has emptied the channel
        rename_i hinit
        obtain ⟨rfl, rfl⟩ : _ = w' ∧ [_] = es' := by simpa using hstep
        refine h.aside (by simp [InitEvent.call]) (lastInit_append _ _) ?_
        have hempty : w.slot.closure ≠ some k := fun hc =>
          absurd (h.slot.init k hc).1 (by simpa using hinit)
        refine hcall.capture h.slot (Or.inl hplace) ?_ hcall.closureOwner hcall.controllerOwner
          hcall.requestOwner hcall.responseOwner
        rw [howners]
        simp [hempty]
    · obtain ⟨rfl, rfl⟩ : _ = w' ∧ [_] = es' := by simpa using hstep
      refine h.aside (by simp [InitEvent.call]) (lastInit_append _ _) ?_
      refine hcall.goOn rfl ?_ (fun hp => absurd hp (by simp)) (fun hp => absurd hp (by simp))
        (by simp) (fun _ _ => hnotRun) hpin (fun hp => absurd hp (by simp [hplace]))
      exact fun e he => ⟨_, List.mem_singleton.mp he, owned_of_owner⟩
  · exact absurd hstep (by simp)

theorem handOff_handOff {w w' : InitChannel} {es es' : List InitEvent} {k : Nat}
    (hdistinct : Distinct args) (h : HandOff args w es)
    (hstep : w.step args (.handOff k) = some (w', es')) : HandOff args w' (es ++ es') := by
  simp only [InitChannel.step] at hstep
  split at hstep
  · rename_i hplace
    obtain ⟨rfl, rfl⟩ : _ = w' ∧ [_] = es' := by simpa using hstep
    have hcall := h.calls k
    have hpasses := hcall.passes hplace
    have hlast : lastInit (es ++ [.captured k]) = lastInit es := lastInit_append _ _
    cases hmatches : w.slot.isInit && w.legacyMatches args k with
    | true =>
      obtain ⟨c, hclosure⟩ := h.slot.held (Bool.and_eq_true_iff.mp hmatches).1
      obtain rfl := (h.slot.matches_iff hdistinct hclosure hpasses).mp hmatches
      have hcapture : w.capture args c =
          ({ controllerOwner := w.slot.controller
             requestOwner := w.slot.request
             responseOwner := w.slot.response
             closureOwner := some c }, {}) := by
        simp [InitChannel.capture, hmatches, hclosure]
      rw [hcapture]
      refine h.put (by simp [InitEvent.call]) ?_ ?_ ?_
      · exact ⟨by simp, by simp, by simp, by simp, by simp⟩
      · refine hcall.capture h.slot (Or.inr hplace) (by simp [hclosure]) ?_ ?_ ?_ ?_
        · exact fun x hx => (Option.some.inj hx).symm
        · exact fun x hx => (h.slot.controller c hclosure).symm.trans hx
        · exact fun x hx => (h.slot.request c hclosure).symm.trans hx
        · exact fun x hx => (h.slot.response c hclosure).symm.trans hx
      · intro j hj hjlast
        rw [hlast] at hjlast
        exact absurd (Option.some.inj ((h.slot.init c hclosure).2.symm.trans hjlast)).symm hj
    | false =>
      have hcapture : w.capture args k = ({}, w.slot) := by
        simp [InitChannel.capture, hmatches]
      have hother : w.slot.closure ≠ some k := by
        intro hclosure
        have htrue := (h.slot.matches_iff hdistinct hclosure hpasses).mpr rfl
        exact absurd (htrue.symm.trans hmatches) (by simp)
      rw [hcapture]
      refine h.put (by simp [InitEvent.call]) (hlast ▸ h.slot) ?_ fun j _ hj => ⟨hlast ▸ hj, id⟩
      exact hcall.capture h.slot (Or.inr hplace) (by simp [hother]) (by simp) (by simp) (by simp)
        (by simp)
  · exact absurd hstep (by simp)

/-- `Run` uses the closure of call `k`. -/
theorem run_handOff {w : InitChannel} {es : List InitEvent} {k : Nat} {closure : RunPlace}
    {done : Bool} {pin : Option Nat} (h : HandOff args w es)
    (hclosure : (w.calls k).closure = .pinned pin ∨ (w.calls k).closure = .notifying pin)
    (hnext : closure = .notifying pin ∨ closure = .run) :
    HandOff args (w.put k { w.calls k with closure := closure, done := done })
      (es ++ [.used k (w.owned k)]) := by
  have hcall := h.calls k
  have hplace : (w.calls k).place = .calling ∨ (w.calls k).place = .returned := by
    by_contra hp
    rw [not_or] at hp
    have hnotRun := hcall.notRun hp.1 hp.2
    rcases hclosure with hc | hc <;> exact absurd (hnotRun.symm.trans hc) (by simp)
  have hne : ∀ p, p ≠ .calling → p ≠ .returned → (w.calls k).place ≠ p := by
    rintro p h₁ h₂ rfl
    exact hplace.elim h₁ h₂
  refine h.aside (by simp [InitEvent.call]) (lastInit_append _ _) ?_
  refine hcall.goOn rfl ?_ ?_ ?_ ?_ ?_ ?_ id
  · exact fun e he => ⟨_, List.mem_singleton.mp he, owned_of_owner⟩
  · rintro (hp | hp)
    · exact absurd hp (hne _ (by simp) (by simp))
    · exact absurd hp (hne _ (by simp) (by simp))
  · exact fun hp => absurd hp (hne _ (by simp) (by simp))
  · exact hne _ (by simp) (by simp)
  · exact fun h₁ h₂ => absurd hplace (by simp only [not_or]; exact ⟨h₁, h₂⟩)
  · intro pin' hp
    rcases hnext with rfl | rfl
    · obtain rfl : pin = pin' := by simpa using hp
      exact hcall.pin pin hclosure
    · rcases hp with hp | hp <;> exact absurd hp (by simp)

theorem step_handOff {w w' : InitChannel} {es es' : List InitEvent} {l : InitLabel}
    (hdistinct : Distinct args) (h : HandOff args w es)
    (hstep : w.step args l = some (w', es')) : HandOff args w' (es ++ es') := by
  cases l with
  | init k =>
    simp only [InitChannel.step] at hstep
    split at hstep
    · rename_i hplace
      obtain ⟨rfl, rfl⟩ : _ = w' ∧ [_] = es' := by simpa using hstep
      exact init_handOff h hplace
    · exact absurd hstep (by simp)
  | check k => exact check_handOff h hstep
  | handOff k => exact handOff_handOff hdistinct h hstep
  | finishRpc k byCaller =>
    simp only [InitChannel.step] at hstep
    split at hstep
    · rename_i hc
      obtain ⟨rfl, rfl⟩ : _ = w' ∧ [] = es' := by simpa using hstep
      refine h.aside (by simp) (by rw [List.append_nil]) ?_
      refine (h.calls k).goOn rfl (by simp) ?_ ?_ ?_ ?_ ?_ id
      · exact fun hp => absurd hp (by simp [hc.1])
      · exact fun hp => absurd hp (by simp [hc.1])
      · simp [hc.1]
      · exact fun hp => absurd hc.1 hp
      · simp
    · exact absurd hstep (by simp)
  | run k =>
    simp only [InitChannel.step] at hstep
    split at hstep
    · rename_i pin hc
      obtain ⟨rfl, rfl⟩ : _ = w' ∧ [_] = es' := by simpa using hstep
      exact run_handOff h (Or.inl hc) (Or.inl rfl)
    · exact absurd hstep (by simp)
  | notify k =>
    simp only [InitChannel.step] at hstep
    split at hstep
    · rename_i pin hc
      obtain ⟨rfl, rfl⟩ : _ = w' ∧ [_] = es' := by simpa using hstep
      exact run_handOff h (Or.inr hc) (Or.inr rfl)
    · exact absurd hstep (by simp)
  | ret k =>
    simp only [InitChannel.step] at hstep
    split at hstep
    · rename_i hc
      obtain ⟨rfl, rfl⟩ : _ = w' ∧ [] = es' := by simpa using hstep
      refine h.aside (by simp) (by rw [List.append_nil]) ?_
      refine (h.calls k).goOn rfl (by simp) (by simp) (by simp) (by simp) ?_ (h.calls k).pin
        fun _ => Or.inr rfl
      exact fun _ hp => absurd rfl hp
    · exact absurd hstep (by simp)

theorem run_handOff_inv {w : InitChannel} {ls : List InitLabel} {es : List InitEvent}
    (hdistinct : Distinct args) (hrun : run (InitChannel.step args) {} ls = some (w, es)) :
    HandOff args w es := by
  have hinit : HandOff args {} [] := by
    refine ⟨⟨by simp, by simp, by simp, by simp, by simp⟩, fun j => ?_⟩
    have hnone : ∀ as bs : List InitEvent, [] ≠ as ++ .captured j :: bs := by simp
    exact ⟨by simp, by simp, by simp, by simp, by simp, by simp, by simp, by simp, by simp,
      fun as bs hcut => absurd hcut (hnone as bs), fun as bs hcut => absurd hcut (hnone as bs),
      by simp⟩
  exact run_induction (HandOff args) (fun v tr l v' es' hv hs => step_handOff hdistinct hv hs) []
    hinit hrun

/-- On one channel with calls of their own controllers, requests and responses, a call gets
    its closure exactly if its own `Init` was the last one before its hand-off. Then the
    closure is owned whenever `Run` uses it. No call gets an object of another. -/
theorem captures_own_iff (args : Nat → BlockingArguments) (hdistinct : Distinct args)
    (ls : List InitLabel) (w : InitChannel) (es : List InitEvent)
    (hrun : run (InitChannel.step args) {} ls = some (w, es)) (k : Nat) (as bs : List InitEvent)
    (hcut : es = as ++ .captured k :: bs) :
    ((w.calls k).owners.closureOwner = some k ↔ lastInit as = some k) ∧
      (lastInit as = some k → ∀ owned, .used k owned ∈ es → owned = true) ∧
      ∀ j, j ≠ k → (w.calls k).owners.closureOwner ≠ some j ∧
        (∀ x, (args j).controller = some x → (w.calls k).owners.controllerOwner ≠ some x) ∧
        (∀ x, (args j).request = some x → (w.calls k).owners.requestOwner ≠ some x) ∧
        ∀ x, (args j).response = some x → (w.calls k).owners.responseOwner ≠ some x := by
  have hcall := (run_handOff_inv hdistinct hrun).calls k
  have howner := hcall.owner as bs hcut
  refine ⟨howner, fun hlast => hcall.used (howner.mpr hlast), fun j hj => ⟨?_, ?_, ?_, ?_⟩⟩
  · exact fun hc => hj (hcall.closureOwner j hc)
  · exact fun x hx hc => hj (hdistinct.controller j k x hx (hcall.controllerOwner x hc))
  · exact fun x hx hc => hj (hdistinct.request j k x hx (hcall.requestOwner x hc))
  · exact fun x hx hc => hj (hdistinct.response j k x hx (hcall.responseOwner x hc))

/-- Calls whose objects are named like themselves. -/
def ownArguments (k : Nat) : BlockingArguments := ⟨true, some k, true, some k, some k⟩

theorem distinct_ownArguments : Distinct ownArguments := by
  refine ⟨?_, ?_, ?_⟩
  all_goals
    intro j k x hj hk
    obtain rfl : j = x := by simpa [ownArguments] using hj
    obtain rfl : k = j := by simpa [ownArguments] using hk
    rfl

/-- Two calls one after the other. -/
theorem captures_own_iff_in_turn :
    ∃ (w : InitChannel) (es : List InitEvent),
      run (InitChannel.step ownArguments) {} [.init 0, .check 0, .handOff 0, .init 1, .check 1,
        .handOff 1, .finishRpc 0 false, .run 0, .ret 0, .notify 0] = some (w, es) ∧
      (w.calls 0).owners.closureOwner = some 0 ∧ ∀ owned, .used 0 owned ∈ es → owned = true := by
  have hrun : (run (InitChannel.step ownArguments) {} [.init 0, .check 0, .handOff 0, .init 1,
      .check 1, .handOff 1, .finishRpc 0 false, .run 0, .ret 0, .notify 0]).map (fun r =>
        decide (r.2 = [.init 0] ++ .captured 0 :: [.init 1, .captured 1, .used 0 true,
          .used 0 true])) = some true := by
    decide +kernel
  obtain ⟨⟨w, es⟩, hw, hcut⟩ := Option.map_eq_some_iff.mp hrun
  obtain ⟨howner, hused, -⟩ := captures_own_iff ownArguments distinct_ownArguments _ w es hw 0 _ _
    (of_decide_eq_true hcut)
  exact ⟨w, es, hw, howner.mpr rfl, hused rfl⟩

/-- Call 1 is at its `Init` before call 0 is through its hand-off: call 0 has no owner of its
    closure, and its caller returns while `Run` is still to use it. -/
theorem captures_own_overwritten :
    ∃ (w : InitChannel) (es : List InitEvent),
      run (InitChannel.step ownArguments) {} [.init 0, .init 1, .check 0, .handOff 0,
        .finishRpc 0 false, .run 0, .ret 0, .notify 0] = some (w, es) ∧
      .captured 0 ∈ es ∧ (w.calls 0).owners.closureOwner = none ∧ .used 0 false ∈ es := by
  have hrun : (run (InitChannel.step ownArguments) {} [.init 0, .init 1, .check 0, .handOff 0,
      .finishRpc 0 false, .run 0, .ret 0, .notify 0]).map (fun r =>
        decide (.captured 0 ∈ r.2 ∧ (r.1.calls 0).owners.closureOwner = none ∧
          .used 0 false ∈ r.2)) = some true := by
    decide +kernel
  obtain ⟨⟨w, es⟩, hw, hdone⟩ := Option.map_eq_some_iff.mp hrun
  exact ⟨w, es, hw, of_decide_eq_true hdone⟩

end RocketRpc.Rpc
