import RocketRpc.Lib.Machine
import Mathlib.Logic.Function.Basic

/-
  `MpscQueue` (`rocket/net/mpsc_queue.h`) at the grain of its atomic operations.

  `push` and `pop` are given by the place a thread has reached in them; every load, store
  and exchange is one step, also those with which `pop` puts the stub back. Producers and
  the consumer take steps in any order. A caller may only push a node that nobody pushes
  and that the queue does not hold; `busy` keeps this account.
-/

namespace RocketRpc.Mpsc

/-- The addresses of nodes: `&stub_`, or a node of a caller. -/
inductive MpscNode (ν : Type) where
  | stub
  | typed (n : ν)
  deriving DecidableEq, Repr

/-- `next` holds the link of every node, `none` for `nullptr`. -/
structure MpscQueue (ν : Type) where
  next : MpscNode ν → Option (MpscNode ν)
  head : MpscNode ν
  tail : MpscNode ν

/-- The places in `push`: before each of its three operations. -/
inductive Push (ν : Type) where
  | reset (node : MpscNode ν)
  | exchange (node : MpscNode ν)
  | link (node prev : MpscNode ν)
  deriving DecidableEq, Repr

/-- The places in `pop`. -/
inductive Pop (ν : Type) where
  | loadHead
  | loadNext (h : MpscNode ν)
  /-- The stub is at the head: `head_ = next`. -/
  | advance (next : MpscNode ν)
  | reload (h : MpscNode ν)
  /-- `head_ = next; return h`. -/
  | take (h next : MpscNode ν)
  | loadTail (h : MpscNode ν)
  /-- In `push(&stub_)`. -/
  | restub (h : MpscNode ν) (place : Push ν)
  | recheck (h : MpscNode ν)
  deriving DecidableEq, Repr

inductive PopNext (ν : Type) where
  | goes (place : Pop ν)
  | returns (result : Option (MpscNode ν))
  deriving DecidableEq, Repr

/-- The node that is being pushed. -/
def Push.node {ν : Type} : Push ν → MpscNode ν
  | .reset node => node
  | .exchange node => node
  | .link node _ => node

variable {ι ν : Type} [DecidableEq ι] [DecidableEq ν]

namespace MpscQueue

def new : MpscQueue ν := { next := fun _ => none, head := .stub, tail := .stub }

def setHead (q : MpscQueue ν) (node : MpscNode ν) : MpscQueue ν := { q with head := node }

/-- One operation of `push`; `none` after the last one. -/
def push (q : MpscQueue ν) : Push ν → MpscQueue ν × Option (Push ν)
  | .reset node => ({ q with next := Function.update q.next node none }, some (.exchange node))
  | .exchange node => ({ q with tail := node }, some (.link node q.tail))
  | .link node prev => ({ q with next := Function.update q.next prev (some node) }, none)

/-- `if (next) ...`, for a head other than the stub. -/
def take (h : MpscNode ν) : Option (MpscNode ν) → PopNext ν
  | some next => .goes (.take h next)
  | none => .goes (.loadTail h)

/-- What the first load of `h->next` leads to. -/
def start : MpscNode ν → Option (MpscNode ν) → PopNext ν
  | .stub, none => .returns none
  | .stub, some next => .goes (.advance next)
  | .typed n, next => take (.typed n) next

/-- One operation of `pop`. -/
def pop (q : MpscQueue ν) : Pop ν → MpscQueue ν × PopNext ν
  | .loadHead => (q, .goes (.loadNext q.head))
  | .loadNext h => (q, start h (q.next h))
  | .advance next => (q.setHead next, .goes (.reload next))
  | .reload h => (q, take h (q.next h))
  | .take h next => (q.setHead next, .returns (some h))
  | .loadTail h => (q, if h = q.tail then .goes (.restub h (.reset .stub)) else .returns none)
  | .restub h place =>
    let r := q.push place
    (r.1, .goes (r.2.elim (.recheck h) (.restub h)))
  | .recheck h =>
    (q, match q.next h with
      | some next => .goes (.take h next)
      | none => .returns none)

/-- `empty()`, which loads the link of the stub when the stub is at the head. -/
def empty (q : MpscQueue ν) : Bool :=
  match q.head with
  | .stub => (q.next .stub).isNone
  | .typed _ => false

end MpscQueue

/-- The queue with its threads; `none` is a thread outside `push` and `pop`. -/
structure Shared (ι ν : Type) where
  queue : MpscQueue ν
  producers : ι → Option (Push ν)
  consumer : Option (Pop ν)
  /-- The nodes that were handed to `push` and have not come back from `pop`. -/
  busy : List ν

inductive Label (ι ν : Type) where
  /-- Thread `i` calls `push`. -/
  | push (i : ι) (n : ν)
  | produce (i : ι)
  /-- The consumer calls `pop`. -/
  | pop
  | consume
  deriving DecidableEq, Repr

inductive Event (ν : Type) where
  /-- A producer has exchanged `tail_`. -/
  | exchanged (n : ν)
  | popped (result : Option (MpscNode ν))
  deriving DecidableEq, Repr

/-- The event of an operation of a producer. -/
def Push.event {ν : Type} : Push ν → List (Event ν)
  | .exchange (.typed n) => [.exchanged n]
  | _ => []

/-- The caller of `pop` owns the node that it returned. -/
def release (busy : List ν) : Option (MpscNode ν) → List ν
  | some (.typed n) => busy.filter (· ≠ n)
  | _ => busy

namespace Shared

/-- The constructor of `MpscQueue`, before any thread uses it. -/
def new : Shared ι ν :=
  { queue := MpscQueue.new, producers := fun _ => none, consumer := none, busy := [] }

def setProducer (s : Shared ι ν) (i : ι) (place : Option (Push ν)) : Shared ι ν :=
  { s with producers := Function.update s.producers i place }

def produce (s : Shared ι ν) (i : ι) (place : Push ν) : Shared ι ν × List (Event ν) :=
  let r := s.queue.push place
  (({ s with queue := r.1 } : Shared ι ν).setProducer i r.2, place.event)

def consume (s : Shared ι ν) (place : Pop ν) : Shared ι ν × List (Event ν) :=
  let r := s.queue.pop place
  match r.2 with
  | .goes place' => ({ s with queue := r.1, consumer := some place' }, [])
  | .returns result =>
    ({ s with queue := r.1, consumer := none, busy := release s.busy result }, [.popped result])

def step (s : Shared ι ν) : Label ι ν → Option (Shared ι ν × List (Event ν))
  | .push i n =>
    if s.producers i = none ∧ n ∉ s.busy then
      some (({ s with busy := n :: s.busy } : Shared ι ν).setProducer i
        (some (.reset (.typed n))), [])
    else none
  | .produce i => (s.producers i).map (s.produce i)
  | .pop => if s.consumer = none then some ({ s with consumer := some .loadHead }, []) else none
  | .consume => s.consumer.map s.consume

end Shared

/-! ## Histories -/

/-- The nodes of the producers in the order of their exchanges of `tail_`. -/
def exchanged (es : List (Event ν)) : List ν :=
  es.filterMap fun
    | .exchanged n => some n
    | .popped _ => none

/-- The nodes that `pop` returned, in order. -/
def returned (es : List (Event ν)) : List (MpscNode ν) :=
  es.filterMap fun
    | .exchanged _ => none
    | .popped result => result

omit [DecidableEq ν] in
@[simp] theorem exchanged_append (es fs : List (Event ν)) :
    exchanged (es ++ fs) = exchanged es ++ exchanged fs := List.filterMap_append

omit [DecidableEq ν] in
@[simp] theorem returned_append (es fs : List (Event ν)) :
    returned (es ++ fs) = returned es ++ returned fs := List.filterMap_append

end RocketRpc.Mpsc
