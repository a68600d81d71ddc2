import RocketRpc.Lib.LinkedChain
import RocketRpc.Mpsc.MpscQueue

/-
  `tryPopAll` beside `push` and `pop`, when no two of them overlap.

  A whole `push` or `pop` is its operations without one of another thread in between
  (`push_steps`, `pop_steps`). `HoldsNodes q l` says that the queue is a chain of the nodes `l`,
  with the stub in front of them or outside. `tryPopAll` makes the stub the whole queue and hands
  out the chain, but only with a single node in it does it also take back the link of the stub
  (`tryPopAll_one`); with more, the stub still leads to a node that the caller has got
  (`tryPopAll_more`). So the queue is a queue as long as `tryPopAll` finds no more than one node
  (`batch_agrees_iff`).
-/

namespace RocketRpc.Mpsc

open LinkedChain Machine

variable {ι ν : Type} [DecidableEq ι] [DecidableEq ν]

/-! ## Whole operations -/

namespace MpscQueue

/-- `push` from a place on. -/
def runPush (q : MpscQueue ν) : Nat → Push ν → MpscQueue ν
  | 0, _ => q
  | fuel + 1, place =>
    match q.push place with
    | (q', some place') => runPush q' fuel place'
    | (q', none) => q'

/-- `push`, which has three operations. -/
def pushNode (q : MpscQueue ν) (node : MpscNode ν) : MpscQueue ν := runPush q 3 (.reset node)

/-- `pop` from the result of an operation on. -/
def finishPop : Nat → MpscQueue ν × PopNext ν → Option (MpscQueue ν × Option (MpscNode ν))
  | _, (q, .returns result) => some (q, result)
  | 0, (_, .goes _) => none
  | fuel + 1, (q, .goes place) => finishPop fuel (q.pop place)

/-- `pop`, which has at most ten operations. -/
def popNode (q : MpscQueue ν) : Option (MpscQueue ν × Option (MpscNode ν)) :=
  finishPop 10 (q, .goes .loadHead)

/-- The end of `tryPopAll`: detach the chain from `h` on. -/
def detach (q : MpscQueue ν) (h : MpscNode ν) : MpscQueue ν × Option (MpscNode ν) :=
  ({ q with head := .stub, tail := .stub }, some h)

/-- `tryPopAll` for a first node other than the stub. -/
def popChain (q : MpscQueue ν) (h : MpscNode ν) : MpscQueue ν × Option (MpscNode ν) :=
  match q.next h with
  | some _ => q.detach h
  | none =>
    if h ≠ q.tail then (q, none)
    else
      let q := q.pushNode .stub
      match q.next h with
      | none => (q, none)
      | some _ => q.detach h

def tryPopAll (q : MpscQueue ν) : MpscQueue ν × Option (MpscNode ν) :=
  match q.head with
  | .stub =>
    match q.next .stub with
    | none => (q, none)
    | some next => (q.setHead next).popChain next
  | .typed n => q.popChain (.typed n)

end MpscQueue

/-- The node of a caller, if it is one. -/
def MpscNode.user : MpscNode ν → List ν
  | .stub => []
  | .typed n => [n]

/-- The caller of `tryPopAll` walks the chain it got to its end and skips the stub; nothing where
    it does not come to the end. -/
def walk (next : MpscNode ν → Option (MpscNode ν)) : Nat → Option (MpscNode ν) → Option (List ν)
  | _, none => some []
  | 0, some _ => none
  | fuel + 1, some node => (walk next fuel (next node)).map (node.user ++ ·)

/-- The queue, and the nodes that were pushed and not handed out, of which a caller pushes none. -/
structure Batch (ν : Type) where
  queue : MpscQueue ν
  busy : List ν

inductive BatchOp (ν : Type) where
  | push (n : ν)
  | pop
  | tryPopAll
  deriving DecidableEq, Repr

inductive BatchEvent (ν : Type) where
  | pushed (n : ν)
  | handedOut (nodes : List ν)
  deriving DecidableEq, Repr

namespace Batch

def new : Batch ν := ⟨MpscQueue.new, []⟩

def handOut (b : Batch ν) (queue : MpscQueue ν) (nodes : List ν) : Batch ν × List (BatchEvent ν) :=
  (⟨queue, b.busy.filter (· ∉ nodes)⟩, [.handedOut nodes])

/-- One call, from its beginning to its end; the chain that `tryPopAll` returns has no more nodes
    than were pushed, and the stub. -/
def step (b : Batch ν) : BatchOp ν → Option (Batch ν × List (BatchEvent ν))
  | .push n =>
    if n ∈ b.busy then none
    else some (⟨b.queue.pushNode (.typed n), b.busy ++ [n]⟩, [.pushed n])
  | .pop => b.queue.popNode.map fun r => b.handOut r.1 (r.2.toList.flatMap MpscNode.user)
  | .tryPopAll =>
    let r := b.queue.tryPopAll
    (walk r.1.next (b.busy.length + 1) r.2).map fun nodes => b.handOut r.1 nodes

end Batch

/-- The nodes in the order in which they were pushed. -/
def pushedNodes (es : List (BatchEvent ν)) : List ν :=
  es.filterMap fun
    | .pushed n => some n
    | .handedOut _ => none

/-- The nodes in the order in which `pop` and `tryPopAll` handed them out. -/
def handedNodes (es : List (BatchEvent ν)) : List ν :=
  es.flatMap fun
    | .pushed _ => []
    | .handedOut nodes => nodes

/-- What the next pops return. -/
def popResults : Nat → MpscQueue ν → Option (List (Option (MpscNode ν)))
  | 0, _ => some []
  | k + 1, q => q.popNode.bind fun r => (popResults k r.1).map (r.2 :: ·)

/-! ## A call is its operations -/

/-- A thread that nobody interrupts pushes the node. -/
theorem push_steps {s : Shared ι ν} {i : ι} {n : ν} (hi : s.producers i = none)
    (hn : n ∉ s.busy) :
    run Shared.step s [.push i n, .produce i, .produce i, .produce i] =
      some (({ s with queue := s.queue.pushNode (.typed n), busy := n :: s.busy } :
        Shared ι ν).setProducer i none, [.exchanged n]) := by
  simp [run, Shared.step, hi, hn, Shared.setProducer, Shared.produce, MpscQueue.push, Push.event,
    MpscQueue.pushNode, MpscQueue.runPush]

theorem finishPop_returns (fuel : Nat) (q : MpscQueue ν) (result : Option (MpscNode ν)) :
    MpscQueue.finishPop fuel (q, .returns result) = some (q, result) := by
  cases fuel with
  | zero => rfl
  | succ fuel => rfl

/-- The consumer goes on to the end of `pop`. -/
theorem consume_steps {fuel : Nat} {s : Shared ι ν} {place : Pop ν} {q' : MpscQueue ν}
    {result : Option (MpscNode ν)} (hs : s.consumer = some place)
    (h : MpscQueue.finishPop fuel (s.queue, .goes place) = some (q', result)) :
    ∃ k, run Shared.step s (List.replicate k .consume) =
      some ({ s with queue := q', consumer := none, busy := release s.busy result },
        [.popped result]) := by
  induction fuel generalizing s place with
  | zero => exact absurd h (by simp [MpscQueue.finishPop])
  | succ fuel ih =>
    rw [MpscQueue.finishPop] at h
    have hstep : s.step .consume = some (s.consume place) := by rw [Shared.step, hs]; rfl
    cases hpop : s.queue.pop place with
    | mk q₁ next =>
      rw [hpop] at h
      unfold Shared.consume at hstep
      rw [hpop] at hstep
      cases next with
      | returns r =>
        rw [finishPop_returns] at h
        obtain ⟨rfl, rfl⟩ := Prod.mk.inj (Option.some.inj h)
        exact ⟨1, run_cons_eq_some.mpr ⟨_, _, _, hstep, rfl, rfl⟩⟩
      | goes place' =>
        obtain ⟨k, hrun⟩ := ih (s := { s with queue := q₁, consumer := some place' }) rfl h
        exact ⟨k + 1, run_cons_eq_some.mpr ⟨_, _, _, hstep, hrun, rfl⟩⟩

theorem pop_steps {s : Shared ι ν} {q' : MpscQueue ν} {result : Option (MpscNode ν)}
    (hs : s.consumer = none) (h : s.queue.popNode = some (q', result)) :
    ∃ k, run Shared.step s (.pop :: List.replicate k .consume) =
      some ({ s with queue := q', consumer := none, busy := release s.busy result },
        [.popped result]) := by
  have hcall : s.step .pop = some ({ s with consumer := some .loadHead }, []) := if_pos hs
  obtain ⟨k, hrun⟩ := consume_steps (s := { s with consumer := some .loadHead }) rfl h
  exact ⟨k, run_cons_eq_some.mpr ⟨_, _, _, hcall, hrun, rfl⟩⟩

/-! ## The nodes that the queue holds -/

/-- A chain with all links stored. -/
abbrev Linked (next : MpscNode ν → Option (MpscNode ν)) (first last : MpscNode ν)
    (l : List (MpscNode ν)) : Prop := Chain next (fun _ _ => False) first last l

/-- The queue holds the nodes `l`. When the stub is not in front of them, it still has the link
    with which it was left. -/
inductive HoldsNodes (q : MpscQueue ν) : List ν → Prop where
  | behindStub {l : List ν} (hhead : q.head = .stub)
      (chain : Linked q.next .stub q.tail (.stub :: l.map .typed)) : HoldsNodes q l
  | outside {n : ν} {l : List ν} (hhead : q.head = .typed n)
      (chain : Linked q.next (.typed n) q.tail (.typed n :: l.map .typed))
      (hstub : q.next .stub ≠ none) : HoldsNodes q (n :: l)

omit [DecidableEq ν] in
theorem holds_new : HoldsNodes (MpscQueue.new : MpscQueue ν) [] :=
  .behindStub rfl (Chain.singleton rfl)

section Chains

variable {next : MpscNode ν → Option (MpscNode ν)} {first last a b : MpscNode ν}
  {l : List (MpscNode ν)}

omit [DecidableEq ν] in
theorem linked_next (h : Linked next first last (a :: b :: l)) : next a = some b := by
  rcases h.linked a b (Or.inl ⟨rfl, rfl⟩) with hnext | hno
  · exact hnext
  · exact hno.elim

omit [DecidableEq ν] in
theorem linked_end (h : Linked next first last [a]) : last = a ∧ next a = none := by
  obtain rfl : last = a := Option.some.inj (h.last_eq.symm.trans rfl)
  exact ⟨rfl, h.stop⟩

omit [DecidableEq ν] in
theorem linked_tail (h : Linked next first last (a :: b :: l)) : Linked next b last (b :: l) := by
  obtain rfl : a = first := Option.some.inj h.head_eq
  obtain ⟨l', heq, htail⟩ := h.advance (linked_next h)
  rwa [(List.cons.inj heq).2]

theorem linked_pushNode {q : MpscQueue ν} {node : MpscNode ν} (h : Linked q.next first q.tail l)
    (hn : node ∉ l) : Linked (q.pushNode node).next first node (l ++ [node]) := by
  have happend : Chain _ (fun a b => a = q.tail ∧ b = node) first node (l ++ [node]) :=
    (h.write hn none).append hn (Function.update_self _ _ _) (by simp)
  exact happend.link ⟨rfl, rfl⟩ (by simp)

end Chains

section Operations

variable {q : MpscQueue ν} {n : ν} {l : List ν}

theorem push_holds (h : HoldsNodes q l) (hn : n ∉ l) :
    HoldsNodes (q.pushNode (.typed n)) (l ++ [n]) := by
  cases h with
  | behindStub hhead chain =>
    refine .behindStub hhead ?_
    have hnode : MpscNode.typed n ∉ MpscNode.stub :: l.map MpscNode.typed := by simpa using hn
    have hchain := linked_pushNode chain hnode
    rwa [List.map_append]
  | @outside m l hhead chain hstub =>
    refine .outside hhead ?_ ?_
    · have hnode : MpscNode.typed n ∉ MpscNode.typed m :: l.map MpscNode.typed := by simpa using hn
      have hchain := linked_pushNode chain hnode
      show Linked _ _ _ (.typed m :: (l ++ [n]).map .typed)
      rwa [List.map_append]
    · show Function.update (Function.update q.next (.typed n) none) q.tail (some (.typed n))
        .stub ≠ none
      rw [Function.update_apply, Function.update_of_ne (by simp)]
      split
      · simp
      · exact hstub

/-- The last node is in the queue alone: the stub is put back behind it. -/
theorem restub_holds (chain : Linked q.next (.typed n) q.tail [.typed n]) :
    HoldsNodes ((q.pushNode .stub).setHead .stub) [] ∧
      (q.pushNode .stub).next (.typed n) = some .stub ∧ (q.pushNode .stub).next .stub = none := by
  have htail := (linked_end chain).1
  have hstub : (q.pushNode .stub).next .stub = none := by
    show Function.update (Function.update q.next .stub none) q.tail (some .stub) .stub = none
    rw [htail, Function.update_of_ne (by simp), Function.update_self]
  refine ⟨.behindStub rfl (Chain.singleton hstub), ?_, hstub⟩
  show Function.update (Function.update q.next .stub none) q.tail (some .stub) (.typed n) = _
  rw [htail, Function.update_self]

/-- `pop` behind the load of the first link. -/
theorem finishPop_holds (chain : Linked q.next (.typed n) q.tail (.typed n :: l.map .typed))
    (hstub : q.next .stub ≠ none) (fuel : Nat) :
    ∃ q', MpscQueue.finishPop (fuel + 6) (q, MpscQueue.take (.typed n) (q.next (.typed n))) =
      some (q', some (.typed n)) ∧ HoldsNodes q' l := by
  cases l with
  | nil =>
    obtain ⟨htail, hnext⟩ := linked_end chain
    obtain ⟨hholds, hlink, -⟩ := restub_holds chain
    refine ⟨(q.pushNode .stub).setHead .stub, ?_, hholds⟩
    rw [hnext]
    show MpscQueue.finishPop (fuel + 5) (q, if .typed n = q.tail then _ else _) = _
    rw [if_pos htail.symm]
    show MpscQueue.finishPop (fuel + 1) (q.pushNode .stub,
      match (q.pushNode .stub).next (.typed n) with | some _ => _ | none => _) = _
    rw [hlink]
    exact finishPop_returns _ _ _
  | cons m l =>
    have hnext := linked_next chain
    rw [hnext]
    exact ⟨q.setHead (.typed m), rfl, .outside rfl (linked_tail chain) hstub⟩

theorem pop_empty (h : HoldsNodes q []) : q.popNode = some (q, none) ∧ q.empty = true := by
  cases h with
  | behindStub hhead chain =>
    have hnext := (linked_end chain).2
    refine ⟨?_, ?_⟩
    · show MpscQueue.finishPop 8 (q, MpscQueue.start q.head (q.next q.head)) = _
      rw [hhead, hnext]
      rfl
    · rw [MpscQueue.empty, hhead]
      show (q.next .stub).isNone = true
      rw [hnext]
      rfl

theorem pop_holds (h : HoldsNodes q (n :: l)) :
    ∃ q', q.popNode = some (q', some (.typed n)) ∧ HoldsNodes q' l := by
  cases h with
  | behindStub hhead chain =>
    have hnext := linked_next chain
    obtain ⟨q', hfinish, hholds⟩ := finishPop_holds (q := q.setHead (.typed n)) (linked_tail chain)
      (by rw [show (q.setHead (.typed n)).next .stub = _ from hnext]; simp) 0
    refine ⟨q', ?_, hholds⟩
    show MpscQueue.finishPop 8 (q, MpscQueue.start q.head (q.next q.head)) = _
    rw [hhead, hnext]
    exact hfinish
  | outside hhead chain hstub =>
    obtain ⟨q', hfinish, hholds⟩ := finishPop_holds chain hstub 2
    refine ⟨q', ?_, hholds⟩
    show MpscQueue.finishPop 8 (q, MpscQueue.start q.head (q.next q.head)) = _
    rw [hhead]
    exact hfinish

/-- The pops behind a run return what the queue holds, and then nothing. -/
theorem popResults_holds (h : HoldsNodes q l) :
    popResults (l.length + 1) q = some (l.map (some ∘ .typed) ++ [none]) := by
  induction l generalizing q with
  | nil =>
    rw [List.length_nil, popResults, (pop_empty h).1]
    rfl
  | cons n l ih =>
    obtain ⟨q', hpop, hholds⟩ := pop_holds h
    rw [List.length_cons, popResults, hpop, Option.bind_some, ih hholds]
    rfl

/-! ## `tryPopAll` -/

omit [DecidableEq ν] in
/-- A chain that is walked from its first node on. -/
theorem walk_linked {next : MpscNode ν → Option (MpscNode ν)} {last : MpscNode ν} (k : Nat)
    (h : Linked next (.typed n) last (.typed n :: l.map .typed)) :
    walk next (l.length + 1 + k) (some (.typed n)) = some (n :: l) := by
  induction l generalizing n with
  | nil =>
    have hend := (linked_end h).2
    rw [List.length_nil, Nat.add_comm, Nat.zero_add, walk, hend]
    cases k <;> rfl
  | cons m l ih =>
    rw [List.length_cons, Nat.add_right_comm _ 1 k, walk, linked_next h, ih (linked_tail h)]
    rfl

theorem tryPopAll_empty (h : HoldsNodes q []) : q.tryPopAll = (q, none) := by
  cases h with
  | behindStub hhead chain =>
    unfold MpscQueue.tryPopAll
    rw [hhead]
    dsimp only
    rw [(linked_end chain).2]

/-- What `tryPopAll` does once the stub is not in front. -/
theorem tryPopAll_chain (h : HoldsNodes q (n :: l)) :
    ∃ q₁ : MpscQueue ν, q.tryPopAll = q₁.popChain (.typed n) ∧
      Linked q₁.next (.typed n) q₁.tail (.typed n :: l.map .typed) ∧ q₁.next .stub ≠ none := by
  cases h with
  | behindStub hhead chain =>
    have hnext := linked_next chain
    refine ⟨q.setHead (.typed n), ?_, linked_tail chain, ?_⟩
    · unfold MpscQueue.tryPopAll
      rw [hhead]
      dsimp only
      rw [hnext]
    · rw [show (q.setHead (.typed n)).next .stub = _ from hnext]
      simp
  | outside hhead chain hstub =>
    refine ⟨q, ?_, chain, hstub⟩
    unfold MpscQueue.tryPopAll
    rw [hhead]

/-- A single node is handed out, and the queue is empty behind it. -/
theorem tryPopAll_one (h : HoldsNodes q [n]) :
    ∃ q', q.tryPopAll = (q', some (.typed n)) ∧ HoldsNodes q' [] ∧
      walk q'.next 2 (some (.typed n)) = some [n] := by
  obtain ⟨q₁, hpop, chain, -⟩ := tryPopAll_chain h
  obtain ⟨htail, hnext⟩ := linked_end chain
  obtain ⟨hholds, hlink, hstub⟩ := restub_holds chain
  refine ⟨((q₁.pushNode .stub).detach (.typed n)).1, ?_, hholds, ?_⟩
  · rw [hpop, MpscQueue.popChain, hnext]
    dsimp only
    rw [if_neg (by simp [htail]), hlink]
    rfl
  · show walk (q₁.pushNode .stub).next 2 (some (.typed n)) = some [n]
    rw [walk, hlink, walk, hstub]
    rfl

/-- More than one are handed out, and the stub is not empty behind them. -/
theorem tryPopAll_more {m : ν} (h : HoldsNodes q (n :: m :: l)) (k : Nat) :
    ∃ q', q.tryPopAll = (q', some (.typed n)) ∧ q'.empty = false ∧
      walk q'.next (l.length + 2 + k) (some (.typed n)) = some (n :: m :: l) := by
  obtain ⟨q₁, hpop, chain, hstub⟩ := tryPopAll_chain h
  have hnext := linked_next chain
  refine ⟨(q₁.detach (.typed n)).1, ?_, ?_, walk_linked k chain⟩
  · rw [hpop, MpscQueue.popChain, hnext]
    rfl
  · show (q₁.next .stub).isNone = false
    rw [Option.isNone_eq_false_iff, Option.isSome_iff_ne_none]
    exact hstub

omit [DecidableEq ν] in
theorem holds_nodup (h : HoldsNodes q l) : l.Nodup := by
  cases h with
  | behindStub hhead chain => exact (List.nodup_cons.mp chain.nodup).2.of_map _
  | @outside n l hhead chain hstub =>
    have hnodup : ((n :: l).map MpscNode.typed).Nodup := chain.nodup
    exact hnodup.of_map _

end Operations

/-! ## Runs -/

/-- The call is no `tryPopAll`, or one that finds at most one node in the queue. -/
def FindsOne (b : Batch ν) : BatchOp ν → Prop
  | .tryPopAll => b.busy.length ≤ 1
  | _ => True

/-- The queue holds what was pushed and not handed out, in order. -/
structure InOrder (b : Batch ν) (es : List (BatchEvent ν)) : Prop where
  holds : HoldsNodes b.queue b.busy
  order : pushedNodes es = handedNodes es ++ b.busy

omit [DecidableEq ν] in
theorem pushedNodes_append (es fs : List (BatchEvent ν)) :
    pushedNodes (es ++ fs) = pushedNodes es ++ pushedNodes fs := List.filterMap_append

omit [DecidableEq ν] in
theorem handedNodes_append (es fs : List (BatchEvent ν)) :
    handedNodes (es ++ fs) = handedNodes es ++ handedNodes fs := List.flatMap_append

section Steps

variable {b b' : Batch ν} {es tr : List (BatchEvent ν)}

/-- The first nodes of the queue are handed out. -/
theorem handOut_inOrder {q' : MpscQueue ν} {nodes rest : List ν} (h : InOrder b tr)
    (hbusy : b.busy = nodes ++ rest) (hq' : HoldsNodes q' rest) :
    InOrder (b.handOut q' nodes).1 (tr ++ (b.handOut q' nodes).2) := by
  have hnodup := holds_nodup h.holds
  rw [hbusy, List.nodup_append] at hnodup
  have hrest : b.busy.filter (· ∉ nodes) = rest := by
    have hnone : nodes.filter (· ∉ nodes) = [] := by simp
    have hall : rest.filter (· ∉ nodes) = rest := by
      rw [List.filter_eq_self]
      intro n hn
      have hne : n ∉ nodes := fun hmem => hnodup.2.2 n hmem n hn rfl
      simpa using hne
    rw [hbusy, List.filter_append, hnone, hall, List.nil_append]
  refine ⟨?_, ?_⟩
  · show HoldsNodes q' (b.busy.filter (· ∉ nodes))
    rwa [hrest]
  · rw [pushedNodes_append, handedNodes_append, h.order, hbusy]
    show _ = (_ ++ (nodes ++ [])) ++ b.busy.filter (· ∉ nodes)
    rw [hrest]
    simp [pushedNodes, Batch.handOut]

/-- What `tryPopAll` would hand out is all that the queue holds. -/
theorem step_tryPopAll (h : HoldsNodes b.queue b.busy) :
    ∃ q', b.step .tryPopAll = some (b.handOut q' b.busy) ∧
      (b.busy.length ≤ 1 → HoldsNodes q' []) ∧ (1 < b.busy.length → q'.empty = false) := by
  unfold Batch.step
  dsimp only
  cases hbusy : b.busy with
  | nil =>
    rw [hbusy] at h
    rw [tryPopAll_empty h]
    exact ⟨b.queue, rfl, fun _ => h, by simp⟩
  | cons n l =>
    rw [hbusy] at h
    cases l with
    | nil =>
      obtain ⟨q', hpop, hholds, hwalk⟩ := tryPopAll_one h
      rw [hpop]
      refine ⟨q', ?_, fun _ => hholds, by simp⟩
      rw [show walk q'.next ([n].length + 1) (some (.typed n)) = some [n] from hwalk]
      rfl
    | cons m l =>
      obtain ⟨q', hpop, hempty, hwalk⟩ := tryPopAll_more h 1
      rw [hpop]
      refine ⟨q', ?_, by simp, fun _ => hempty⟩
      rw [show walk q'.next ((n :: m :: l).length + 1) (some (.typed n)) = some (n :: m :: l)
        from hwalk]
      rfl

theorem step_inOrder {op : BatchOp ν} (h : InOrder b tr) (hok : FindsOne b op)
    (hstep : b.step op = some (b', es)) : InOrder b' (tr ++ es) := by
  have hands : ∀ {q' nodes rest}, b.handOut q' nodes = (b', es) → b.busy = nodes ++ rest →
      HoldsNodes q' rest → InOrder b' (tr ++ es) := by
    intro q' nodes rest heq hbusy hq'
    have hout := handOut_inOrder h hbusy hq'
    rwa [heq] at hout
  cases op with
  | push n =>
    rw [Batch.step] at hstep
    split at hstep
    · exact absurd hstep (by simp)
    rename_i hn
    obtain ⟨rfl, rfl⟩ := Prod.mk.inj (Option.some.inj hstep)
    refine ⟨push_holds h.holds hn, ?_⟩
    rw [pushedNodes_append, handedNodes_append, h.order]
    simp [pushedNodes, handedNodes]
  | pop =>
    have hholds := h.holds
    rw [Batch.step] at hstep
    cases hbusy : b.busy with
    | nil =>
      rw [hbusy] at hholds
      rw [(pop_empty hholds).1] at hstep
      exact hands (Option.some.inj hstep) hbusy hholds
    | cons n l =>
      rw [hbusy] at hholds
      obtain ⟨q', hpop, hholds'⟩ := pop_holds hholds
      rw [hpop] at hstep
      exact hands (Option.some.inj hstep) hbusy hholds'
  | tryPopAll =>
    obtain ⟨q', hpop, hone, -⟩ := step_tryPopAll h.holds
    exact hands (Option.some.inj (hpop.symm.trans hstep)) (List.append_nil _).symm (hone hok)

theorem run_inOrder {ops : List (BatchOp ν)} (hok : RunOk Batch.step FindsOne Batch.new ops)
    (hrun : run Batch.step Batch.new ops = some (b, es)) : InOrder b es := by
  refine runOk_induction (fun b tr => InOrder b tr) ?_ [] ⟨holds_new, rfl⟩ hok hrun
  intro s tr op s' es hin hop hstep
  exact step_inOrder hin hop hstep

end Steps

/-! ## Main result -/

/-- The queue agrees with what was pushed and handed out: what is left is handed out by the next
    pops, in order, or at once by `tryPopAll`. Behind a `tryPopAll` nothing is left. -/
structure Agrees (b : Batch ν) (es : List (BatchEvent ν)) (last : Option (BatchOp ν)) : Prop where
  rest : ∃ rest, pushedNodes es = handedNodes es ++ rest ∧
    popResults (rest.length + 1) b.queue = some (rest.map (some ∘ .typed) ++ [none]) ∧
    ∃ b', b.step .tryPopAll = some (b', [.handedOut rest])
  emptied : last = some .tryPopAll → b.queue.empty = true ∧ b.queue.popNode = some (b.queue, none)

/-- The queue agrees at every point of the sequence. -/
def BatchAgrees (ops : List (BatchOp ν)) : Prop :=
  ∀ before after b es, ops = before ++ after → run Batch.step Batch.new before = some (b, es) →
    Agrees b es before.getLast?

theorem agrees_of_findsOne {ops : List (BatchOp ν)}
    (hok : RunOk Batch.step FindsOne Batch.new ops) : BatchAgrees ops := by
  rintro before after b es rfl hrun
  have hok' := (runOk_append.mp hok).1
  have hin := run_inOrder hok' hrun
  obtain ⟨_, hall, -, -⟩ := step_tryPopAll hin.holds
  refine ⟨⟨b.busy, hin.order, popResults_holds hin.holds, _, hall⟩, fun hlast => ?_⟩
  obtain ⟨earlier, rfl⟩ := List.getLast?_eq_some_iff.mp hlast
  obtain ⟨u, es₁, es₂, hearlier, hlast', rfl⟩ := run_append.mp hrun
  obtain ⟨hok₁, hok₂⟩ := runOk_append.mp hok'
  have hu := run_inOrder hok₁ hearlier
  obtain ⟨q', hpop, hone, -⟩ := step_tryPopAll hu.holds
  obtain ⟨s', fs, gs, hstep, hnil, rfl⟩ := run_cons_eq_some.mp hlast'
  obtain ⟨rfl, -⟩ := Prod.mk.inj (Option.some.inj hnil)
  obtain ⟨rfl, -⟩ := Prod.mk.inj (Option.some.inj (hpop.symm.trans hstep))
  have hempty := pop_empty (hone (hok₂ u es₁ hearlier).1)
  exact ⟨hempty.2, hempty.1⟩

theorem findsOne_of_agrees {ops : List (BatchOp ν)} (h : BatchAgrees ops) :
    RunOk Batch.step FindsOne Batch.new ops := by
  suffices hall : ∀ before after, ops = before ++ after →
      RunOk Batch.step FindsOne Batch.new before from hall ops [] (List.append_nil _).symm
  intro before
  induction before using List.reverseRecOn with
  | nil => exact fun _ _ => trivial
  | append_singleton before op ih =>
    intro after heq
    have hok := ih (op :: after) (by rw [heq, List.append_assoc]; rfl)
    refine runOk_append.mpr ⟨hok, fun u es hrun => ⟨?_, fun _ _ _ => trivial⟩⟩
    cases op with
    | push n => trivial
    | pop => trivial
    | tryPopAll =>
      -- more than one node would leave the link of the stub behind
      refine Nat.le_of_not_lt fun hmore => ?_
      obtain ⟨q', hpop, -, hstale⟩ := step_tryPopAll (run_inOrder hok hrun).holds
      have hlast : run Batch.step u [.tryPopAll] =
          some ((u.handOut q' u.busy).1, [.handedOut u.busy]) :=
        run_cons_eq_some.mpr ⟨_, _, _, hpop, run_nil _, rfl⟩
      have hnext := run_append.mpr ⟨u, es, _, hrun, hlast, rfl⟩
      have hempty := ((h _ after _ _ heq hnext).emptied (by simp)).1
      rw [show (u.handOut q' u.busy).1.queue.empty = false from hstale hmore] at hempty
      exact absurd hempty (by simp)

/-- Calls that do not overlap find and leave a queue exactly as long as no `tryPopAll` finds more
    than one node in it. -/
theorem batch_agrees_iff (ops : List (BatchOp ν)) :
    BatchAgrees ops ↔ RunOk Batch.step FindsOne Batch.new ops :=
  ⟨findsOne_of_agrees, agrees_of_findsOne⟩

/-- Two nodes, a `tryPopAll` that hands out both, and a `pop` that hands out the first again. -/
theorem batch_repeats :
    (∃ b b', run Batch.step Batch.new [.push 1, .push 2, .tryPopAll, .pop] =
        some (b, [.pushed 1, .pushed 2, .handedOut [1, 2], .handedOut [1]]) ∧
      run Batch.step Batch.new [.push 1, .push 2, .tryPopAll] =
        some (b', [.pushed 1, .pushed 2, .handedOut [1, 2]]) ∧ b'.queue.empty = false) ∧
    ¬ BatchAgrees [.push 1, .push 2, .tryPopAll] := by
  refine ⟨⟨_, _, rfl, rfl, rfl⟩, fun h => ?_⟩
  have htwo : 2 ≤ 1 := (((findsOne_of_agrees h).2 _ _ rfl).2 _ _ rfl).1
  exact absurd htwo (by decide)

end RocketRpc.Mpsc
