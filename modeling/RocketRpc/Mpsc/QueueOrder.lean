import RocketRpc.Lib.LinkedChain
import RocketRpc.Mpsc.MpscQueue

/-
  The order of an `MpscQueue`: `pop` returns the nodes in the order of the exchanges of
  `tail_`.

  The nodes of the queue form a chain from `head_` to `tail_` whose pending links are those
  of the threads between their exchange and their last store; the consumer is such a thread
  while it puts the stub back. `Pushes` is what an operation of any of them keeps. `Inv`
  adds what the consumer knows at each place of `pop`; `run_keeps` carries it through a run,
  with the history: what was returned, followed by what the chain holds, is what was
  exchanged.
-/

namespace RocketRpc.Mpsc

open LinkedChain

/-! ## Threads that push -/

section Pushing

variable {κ ν : Type}

/-- The link a thread has still to store, seen from its two ends. -/
def Owes (pushing : κ → Option (Push ν)) (a b : MpscNode ν) : Prop :=
  ∃ x, pushing x = some (.link b a)

/-- The queue holds the nodes `l`, and every thread that pushes has a node of its own,
    which is outside the chain until the exchange. -/
structure Pushes (q : MpscQueue ν) (pushing : κ → Option (Push ν)) (l : List (MpscNode ν)) :
    Prop where
  chain : Chain q.next (Owes pushing) q.head q.tail l
  reset : ∀ x n, pushing x = some (.reset n) → n ∉ l
  exchange : ∀ x n, pushing x = some (.exchange n) → n ∉ l ∧ q.next n = none
  distinct : ∀ x y p p', pushing x = some p → pushing y = some p' → p.node = p'.node → x = y

/-- The node that an operation puts into the chain. -/
def Push.appends : Push ν → List (MpscNode ν)
  | .exchange node => [node]
  | _ => []

theorem update_eq_some [DecidableEq κ] {f : κ → Option (Push ν)} {x y : κ}
    {v : Option (Push ν)} {p : Push ν} :
    Function.update f x v y = some p ↔ (y = x ∧ v = some p) ∨ (y ≠ x ∧ f y = some p) := by
  by_cases h : y = x
  · subst h
    simp
  · simp [h]

/-- A thread pushes one node to the end. -/
theorem push_node [DecidableEq ν] {q : MpscQueue ν} {p p' : Push ν} (h : (q.push p).2 = some p') :
    p'.node = p.node := by
  cases p with
  | reset n =>
    obtain rfl : Push.exchange n = p' := Option.some.inj h
    rfl
  | exchange n =>
    obtain rfl : Push.link n q.tail = p' := Option.some.inj h
    rfl
  | link n prev => simp [MpscQueue.push] at h

namespace Pushes

variable {q : MpscQueue ν} {pushing : κ → Option (Push ν)} {l : List (MpscNode ν)}

/-- Nobody else pushes the node of a thread. -/
theorem node_ne (h : Pushes q pushing l) {x y : κ} {p p' : Push ν} (hx : pushing x = some p)
    (hy : pushing y = some p') (hne : y ≠ x) : p'.node ≠ p.node := fun hn =>
  hne (h.distinct y x p' p hy hx hn)

/-- The consumer drops the first node, whose link is stored. -/
theorem setHead (h : Pushes q pushing l) {b : MpscNode ν} (hb : q.next q.head = some b) :
    ∃ l', l = q.head :: l' ∧ Pushes (q.setHead b) pushing l' := by
  obtain ⟨l', rfl, hchain⟩ := h.chain.advance hb
  exact ⟨l', rfl, hchain, fun x n hx hn => h.reset x n hx (List.mem_cons_of_mem _ hn),
    fun x n hx => ⟨fun hn => (h.exchange x n hx).1 (List.mem_cons_of_mem _ hn),
      (h.exchange x n hx).2⟩, h.distinct⟩

/-- Nobody pushes the node at the head. -/
theorem node_ne_head (h : Pushes q pushing l) {x : κ} {p : Push ν} (hx : pushing x = some p) :
    p.node ≠ q.head := by
  cases p with
  | reset n =>
    intro (hn : n = q.head)
    exact h.reset x n hx (hn ▸ h.chain.first_mem)
  | exchange n =>
    intro (hn : n = q.head)
    exact (h.exchange x n hx).1 (hn ▸ h.chain.first_mem)
  | link n prev => exact (h.chain.missing prev n ⟨x, hx⟩).1.ne_first h.chain.nodup h.chain.head_eq

variable [DecidableEq κ]

/-- A thread keeps its node when it goes on. -/
theorem distinct_update (h : Pushes q pushing l) {x : κ} {p : Push ν} {r : Option (Push ν)}
    (hx : pushing x = some p) (hr : ∀ p' ∈ r, p'.node = p.node) (y z : κ) (p₁ p₂ : Push ν)
    (h₁ : Function.update pushing x r y = some p₁) (h₂ : Function.update pushing x r z = some p₂)
    (hn : p₁.node = p₂.node) : y = z := by
  rcases update_eq_some.mp h₁ with ⟨hy, hr₁⟩ | ⟨-, hy⟩ <;>
    rcases update_eq_some.mp h₂ with ⟨hz, hr₂⟩ | ⟨-, hz⟩
  · rw [hy, hz]
  · rw [hy]
    exact h.distinct x z p p₂ hx hz ((hr p₁ hr₁).symm.trans hn)
  · rw [hz]
    exact h.distinct y x p₁ p hy hx (hn.trans (hr p₂ hr₂))
  · exact h.distinct y z p₁ p₂ hy hz hn

/-- A thread calls `push`. -/
theorem call (h : Pushes q pushing l) {x : κ} {n : MpscNode ν} (hx : pushing x = none)
    (hn : n ∉ l) (hown : ∀ y p, pushing y = some p → p.node ≠ n) :
    Pushes q (Function.update pushing x (some (.reset n))) l where
  chain := by
    refine h.chain.congr_pending fun a b => exists_congr fun y => ?_
    rw [update_eq_some]
    constructor
    · intro hy
      rcases hy with ⟨-, hy⟩ | ⟨-, hy⟩
      · simp at hy
      · exact hy
    · intro hy
      exact Or.inr ⟨fun e => by simp [e, hx] at hy, hy⟩
  reset y m hy := by
    rcases update_eq_some.mp hy with ⟨-, hy⟩ | ⟨-, hy⟩
    · obtain rfl : n = m := by simpa using hy
      exact hn
    · exact h.reset y m hy
  exchange y m hy := by
    rcases update_eq_some.mp hy with ⟨-, hy⟩ | ⟨-, hy⟩
    · simp at hy
    · exact h.exchange y m hy
  distinct y z p p' hy hz hnode := by
    rcases update_eq_some.mp hy with ⟨hyx, hy⟩ | ⟨-, hy⟩ <;>
      rcases update_eq_some.mp hz with ⟨hzx, hz⟩ | ⟨-, hz⟩
    · rw [hyx, hzx]
    · obtain rfl : Push.reset n = p := Option.some.inj hy
      exact absurd hnode.symm (hown z p' hz)
    · obtain rfl : Push.reset n = p' := Option.some.inj hz
      exact absurd hnode (hown y p hy)
    · exact h.distinct y z p p' hy hz hnode

/-- The links that are owed when a thread goes on to a place where it owes `v`. -/
theorem owes_update {x : κ} {r : Option (Push ν)} (a b : MpscNode ν) :
    Owes (Function.update pushing x r) a b ↔
      r = some (.link b a) ∨ ∃ y, y ≠ x ∧ pushing y = some (.link b a) := by
  unfold Owes
  simp only [update_eq_some]
  constructor
  · intro ⟨y, hy⟩
    exact hy.imp (fun hy => hy.2) fun hy => ⟨y, hy⟩
  · intro hr
    rcases hr with hr | ⟨y, hy⟩
    · exact ⟨x, Or.inl ⟨rfl, hr⟩⟩
    · exact ⟨y, Or.inr hy⟩

variable [DecidableEq ν]

/-- `node->next.store(nullptr)`. -/
theorem step_reset (h : Pushes q pushing l) {x : κ} {n : MpscNode ν}
    (hx : pushing x = some (.reset n)) :
    Pushes (q.push (.reset n)).1 (Function.update pushing x (q.push (.reset n)).2) l := by
  have hn := h.reset x n hx
  have hchain : Chain (Function.update q.next n none) (Owes pushing) q.head q.tail l :=
    h.chain.write hn none
  refine ⟨hchain.congr_pending fun a b => ?_, fun y m hy => ?_, fun y m hy => ?_,
    h.distinct_update hx (by simp [MpscQueue.push, Push.node])⟩
  · rw [owes_update]
    constructor
    · intro hy
      rcases hy with hy | ⟨y, -, hy⟩
      · simp [MpscQueue.push] at hy
      · exact ⟨y, hy⟩
    · intro ⟨y, hy⟩
      exact Or.inr ⟨y, fun e => by simp [e, hx] at hy, hy⟩
  · rcases update_eq_some.mp hy with ⟨-, hy⟩ | ⟨-, hy⟩
    · simp [MpscQueue.push] at hy
    · exact h.reset y m hy
  · rcases update_eq_some.mp hy with ⟨-, hy⟩ | ⟨hyx, hy⟩
    · obtain rfl : n = m := by simpa [MpscQueue.push] using hy
      refine ⟨hn, ?_⟩
      simp [MpscQueue.push]
    · have hmn : m ≠ n := h.node_ne hx hy hyx
      refine ⟨(h.exchange y m hy).1, ?_⟩
      simpa [MpscQueue.push, hmn] using (h.exchange y m hy).2

/-- `tail_.exchange(node)`: the node is in the chain, its link is owed. -/
theorem step_exchange (h : Pushes q pushing l) {x : κ} {n : MpscNode ν}
    (hx : pushing x = some (.exchange n)) :
    Pushes (q.push (.exchange n)).1 (Function.update pushing x (q.push (.exchange n)).2)
      (l ++ [n]) := by
  obtain ⟨hn, hnext⟩ := h.exchange x n hx
  refine ⟨h.chain.append hn hnext fun a b => ?_, fun y m hy => ?_, fun y m hy => ?_,
    h.distinct_update hx (by simp [MpscQueue.push, Push.node])⟩
  · rw [owes_update]
    constructor
    · intro hy
      rcases hy with hy | ⟨y, -, hy⟩
      · obtain ⟨rfl, rfl⟩ : n = b ∧ q.tail = a := by simpa [MpscQueue.push] using hy
        exact Or.inr ⟨rfl, rfl⟩
      · exact Or.inl ⟨y, hy⟩
    · intro hy
      rcases hy with ⟨y, hy⟩ | ⟨rfl, rfl⟩
      · exact Or.inr ⟨y, fun e => by simp [e, hx] at hy, hy⟩
      · exact Or.inl rfl
  · rcases update_eq_some.mp hy with ⟨-, hy⟩ | ⟨hyx, hy⟩
    · simp [MpscQueue.push] at hy
    · have hmn : m ≠ n := h.node_ne hx hy hyx
      simpa [hmn] using h.reset y m hy
  · rcases update_eq_some.mp hy with ⟨-, hy⟩ | ⟨hyx, hy⟩
    · simp [MpscQueue.push] at hy
    · have hmn : m ≠ n := h.node_ne hx hy hyx
      exact ⟨by simpa [hmn] using (h.exchange y m hy).1, (h.exchange y m hy).2⟩

/-- `prev->next.store(node)`. -/
theorem step_link (h : Pushes q pushing l) {x : κ} {n prev : MpscNode ν}
    (hx : pushing x = some (.link n prev)) :
    Pushes (q.push (.link n prev)).1 (Function.update pushing x (q.push (.link n prev)).2) l := by
  have hprev := (h.chain.missing prev n ⟨x, hx⟩).1
  refine ⟨h.chain.link ⟨x, hx⟩ fun a b => ?_, fun y m hy => ?_, fun y m hy => ?_,
    h.distinct_update hx (by simp [MpscQueue.push])⟩
  · rw [owes_update]
    constructor
    · intro hy
      rcases hy with hy | ⟨y, hyx, hy⟩
      · simp [MpscQueue.push] at hy
      · refine ⟨⟨y, hy⟩, fun hap => ?_⟩
        -- two threads that owe a link behind one node push the same node
        subst hap
        obtain rfl := (h.chain.missing a b ⟨y, hy⟩).1.right_unique h.chain.nodup hprev
        exact h.node_ne hx hy hyx rfl
    · intro ⟨⟨y, hy⟩, hap⟩
      refine Or.inr ⟨y, fun e => ?_, hy⟩
      rw [e, hx] at hy
      obtain ⟨-, rfl⟩ : n = b ∧ prev = a := by simpa using hy
      exact hap rfl
  · rcases update_eq_some.mp hy with ⟨-, hy⟩ | ⟨-, hy⟩
    · simp [MpscQueue.push] at hy
    · exact h.reset y m hy
  · rcases update_eq_some.mp hy with ⟨-, hy⟩ | ⟨-, hy⟩
    · simp [MpscQueue.push] at hy
    · obtain ⟨hm, hnext⟩ := h.exchange y m hy
      have hmp : m ≠ prev := fun e => hm (e ▸ hprev.mem.1)
      refine ⟨hm, ?_⟩
      simpa [MpscQueue.push, hmp] using hnext

/-- Every operation of `push` keeps the shape of the queue. -/
theorem push (h : Pushes q pushing l) {x : κ} {p : Push ν} (hx : pushing x = some p) :
    Pushes (q.push p).1 (Function.update pushing x (q.push p).2) (l ++ p.appends) := by
  cases p with
  | reset n => simpa only [Push.appends, List.append_nil] using h.step_reset hx
  | exchange n => exact h.step_exchange hx
  | link n prev => simpa only [Push.appends, List.append_nil] using h.step_link hx

@[simp] theorem push_head (q : MpscQueue ν) (p : Push ν) : (q.push p).1.head = q.head := by
  cases p <;> rfl

omit [DecidableEq κ] in
/-- A stored link of the chain is not changed by those who push. -/
theorem push_next (h : Pushes q pushing l) {x : κ} {p : Push ν} (hx : pushing x = some p)
    {a b : MpscNode ν} (ha : a ∈ l) (hb : q.next a = some b) : (q.push p).1.next a = some b := by
  cases p with
  | reset n =>
    have han : a ≠ n := fun e => h.reset x n hx (e ▸ ha)
    simpa [MpscQueue.push, han] using hb
  | exchange n => exact hb
  | link n prev =>
    have hap : a ≠ prev := by
      rintro rfl
      exact absurd ((h.chain.missing a n ⟨x, hx⟩).2.symm.trans hb) (by simp)
    simpa [MpscQueue.push, hap] using hb

end Pushes

end Pushing

/-! ## The invariant -/

variable {ι ν : Type}

/-- What the consumer pushes: the stub, or nothing. -/
def Pop.pushes : Pop ν → Option (Push ν)
  | .restub _ place => some place
  | _ => none

/-- The threads that push, the consumer among them as `none`. -/
def Shared.pushing (s : Shared ι ν) : Option ι → Option (Push ν)
  | some i => s.producers i
  | none => s.consumer.bind Pop.pushes

/-- What the consumer knows at a place of `pop`. -/
def PopAt (q : MpscQueue ν) (l : List (MpscNode ν)) : Pop ν → Prop
  | .loadHead => True
  | .loadNext h => h = q.head
  | .advance next => q.head = .stub ∧ q.next .stub = some next
  | .reload h => h = q.head ∧ h ≠ .stub
  | .take h next => h = q.head ∧ h ≠ .stub ∧ q.next h = some next
  | .loadTail h => h = q.head ∧ h ≠ .stub
  | .restub h place => h = q.head ∧ h ≠ .stub ∧ place.node = .stub
  | .recheck h => h = q.head ∧ h ≠ .stub ∧ .stub ∈ l

structure Inv (s : Shared ι ν) (l : List (MpscNode ν)) : Prop where
  pushes : Pushes s.queue s.pushing l
  typed : ∀ i p, s.producers i = some p → ∃ n, p.node = .typed n
  free : ∀ n, n ∉ s.busy → .typed n ∉ l ∧ ∀ i p, s.producers i = some p → p.node ≠ .typed n
  place : ∀ p, s.consumer = some p → PopAt s.queue l p

theorem inv_new : Inv (Shared.new : Shared ι ν) [.stub] where
  pushes :=
    { chain := (Chain.singleton rfl).congr_pending fun a b => by
        constructor
        · intro ⟨x, hx⟩
          cases x <;> simp [Shared.new, Shared.pushing] at hx
        · exact False.elim
      reset := fun x n hx => by cases x <;> simp [Shared.new, Shared.pushing] at hx
      exchange := fun x n hx => by cases x <;> simp [Shared.new, Shared.pushing] at hx
      distinct := fun x y p p' hx => by cases x <;> simp [Shared.new, Shared.pushing] at hx }
  typed i p hi := by simp [Shared.new] at hi
  free n _ := ⟨by simp, fun i p hi => by simp [Shared.new] at hi⟩
  place p hp := by simp [Shared.new] at hp

variable [DecidableEq ι]

theorem pushing_setProducer (s : Shared ι ν) (i : ι) (r : Option (Push ν)) :
    (s.setProducer i r).pushing = Function.update s.pushing (some i) r := by
  funext x
  cases x with
  | none => rfl
  | some j =>
    by_cases hj : j = i
    · subst hj
      simp [Shared.pushing, Shared.setProducer]
    · simp [Shared.pushing, Shared.setProducer, hj]

variable [DecidableEq ν]

/-- The nodes of the callers in the queue. -/
def kept (l : List (MpscNode ν)) : List (MpscNode ν) := l.filter (· ≠ .stub)

omit [DecidableEq ι] in
/-- What the consumer knows stays true when others push. -/
theorem PopAt.push {q : MpscQueue ν} {κ : Type} {pushing : κ → Option (Push ν)}
    {l : List (MpscNode ν)} {c : Pop ν} (hc : PopAt q l c) (h : Pushes q pushing l) {x : κ}
    {p : Push ν} (hx : pushing x = some p) : PopAt (q.push p).1 (l ++ p.appends) c := by
  have hfirst := h.chain.first_mem
  cases c with
  | loadHead => trivial
  | loadNext a => exact hc.trans (Pushes.push_head q p).symm
  | advance next =>
    exact ⟨(Pushes.push_head q p).trans hc.1, h.push_next hx (hc.1 ▸ hfirst) hc.2⟩
  | reload a => exact ⟨hc.1.trans (Pushes.push_head q p).symm, hc.2⟩
  | take a next =>
    exact ⟨hc.1.trans (Pushes.push_head q p).symm, hc.2.1,
      h.push_next hx (hc.1 ▸ hfirst) hc.2.2⟩
  | loadTail a => exact ⟨hc.1.trans (Pushes.push_head q p).symm, hc.2⟩
  | restub a place => exact ⟨hc.1.trans (Pushes.push_head q p).symm, hc.2⟩
  | recheck a =>
    exact ⟨hc.1.trans (Pushes.push_head q p).symm, hc.2.1, List.mem_append_left _ hc.2.2⟩

omit [DecidableEq ι] in
@[simp] theorem kept_append (l m : List (MpscNode ν)) : kept (l ++ m) = kept l ++ kept m :=
  List.filter_append _ _

/-- A producer takes a step: the chain grows by the node it exchanges. -/
theorem produce_inv {s : Shared ι ν} {l : List (MpscNode ν)} (h : Inv s l) {i : ι} {p : Push ν}
    (hi : s.producers i = some p) :
    Inv (s.produce i p).1 (l ++ p.appends) ∧ returned (s.produce i p).2 = [] ∧
      kept p.appends = (exchanged (s.produce i p).2).map .typed := by
  have hx : s.pushing (some i) = some p := hi
  obtain ⟨n, hn⟩ := h.typed i p hi
  refine ⟨⟨?_, fun j p' hj => ?_, fun m hm => ?_, fun c hc => (h.place c hc).push h.pushes hx⟩, ?_⟩
  · have hpush := h.pushes.push hx
    rwa [← pushing_setProducer] at hpush
  · rcases update_eq_some.mp hj with ⟨-, hj⟩ | ⟨-, hj⟩
    · exact ⟨n, (push_node hj).trans hn⟩
    · exact h.typed j p' hj
  · have hm' := h.free m hm
    refine ⟨fun hmem => ?_, fun j p' hj => ?_⟩
    · rcases List.mem_append.mp hmem with hmem | hmem
      · exact hm'.1 hmem
      · cases p with
        | reset a => simp [Push.appends] at hmem
        | exchange a => exact hm'.2 i _ hi (List.mem_singleton.mp hmem).symm
        | link a prev => simp [Push.appends] at hmem
    · rcases update_eq_some.mp hj with ⟨-, hj⟩ | ⟨-, hj⟩
      · rw [push_node hj]
        exact hm'.2 i p hi
      · exact hm'.2 j p' hj
  · cases p with
    | reset a => exact ⟨rfl, rfl⟩
    | exchange a =>
      obtain rfl : a = .typed n := hn
      exact ⟨rfl, rfl⟩
    | link a prev => exact ⟨rfl, rfl⟩

omit [DecidableEq ν] in
/-- A producer calls `push` with a node that is free. -/
theorem call_inv {s : Shared ι ν} {l : List (MpscNode ν)} (h : Inv s l) {i : ι} {n : ν}
    (hi : s.producers i = none) (hn : n ∉ s.busy) :
    Inv (({ s with busy := n :: s.busy } : Shared ι ν).setProducer i
      (some (.reset (.typed n)))) l := by
  obtain ⟨hmem, hown⟩ := h.free n hn
  refine ⟨?_, fun j p hj => ?_, fun m hm => ?_, h.place⟩
  · rw [pushing_setProducer]
    refine h.pushes.call hi hmem fun y p hy => ?_
    cases y with
    | some j => exact hown j p hy
    | none =>
      obtain ⟨c, hc, hp⟩ := Option.bind_eq_some_iff.mp hy
      have hplace := h.place c hc
      cases c with
      | restub a place =>
        obtain rfl : place = p := Option.some.inj hp
        rw [hplace.2.2]
        simp
      | _ => simp [Pop.pushes] at hp
  · rcases update_eq_some.mp hj with ⟨-, hj⟩ | ⟨-, hj⟩
    · obtain rfl : Push.reset (.typed n) = p := Option.some.inj hj
      exact ⟨n, rfl⟩
    · exact h.typed j p hj
  · obtain ⟨hmn, hm⟩ : m ≠ n ∧ m ∉ s.busy := by simpa [Shared.setProducer] using hm
    refine ⟨(h.free m hm).1, fun j p hj => ?_⟩
    rcases update_eq_some.mp hj with ⟨-, hj⟩ | ⟨-, hj⟩
    · obtain rfl : Push.reset (.typed n) = p := Option.some.inj hj
      simpa [Push.node] using hmn.symm
    · exact (h.free m hm).2 j p hj

/-! ## The consumer -/

/-- The queue, the place and the account of the consumer after one of its steps. -/
def Shared.setConsumer (s : Shared ι ν) (q : MpscQueue ν) (place : Option (Pop ν))
    (busy : List ν) : Shared ι ν :=
  { s with queue := q, consumer := place, busy := busy }

section

variable {s : Shared ι ν} {c : Pop ν}

omit [DecidableEq ι] in
theorem consume_goes {c' : Pop ν} (h : (s.queue.pop c).2 = .goes c') :
    s.consume c = (s.setConsumer (s.queue.pop c).1 (some c') s.busy, []) := by
  simp [Shared.consume, h, Shared.setConsumer]

omit [DecidableEq ι] in
theorem consume_returns {result : Option (MpscNode ν)} (h : (s.queue.pop c).2 = .returns result) :
    s.consume c = (s.setConsumer (s.queue.pop c).1 none (release s.busy result),
      [.popped result]) := by
  simp [Shared.consume, h, Shared.setConsumer]

end

omit [DecidableEq ι] [DecidableEq ν] in
/-- The consumer goes on and drops no node. -/
theorem goOn_inv {s : Shared ι ν} {l : List (MpscNode ν)} (h : Inv s l) {q : MpscQueue ν}
    {place : Option (Pop ν)} {l' : List (MpscNode ν)}
    (hpush : Pushes q (s.setConsumer q place s.busy).pushing l')
    (hl : ∀ n, .typed n ∈ l' → .typed n ∈ l) (hplace : ∀ c, place = some c → PopAt q l' c) :
    Inv (s.setConsumer q place s.busy) l' where
  pushes := hpush
  typed := h.typed
  free n hn := ⟨fun hmem => (h.free n hn).1 (hl n hmem), (h.free n hn).2⟩
  place := hplace

omit [DecidableEq ν] in
theorem pushing_setConsumer (s : Shared ι ν) (q : MpscQueue ν) (place : Option (Pop ν))
    (busy : List ν) :
    (s.setConsumer q place busy).pushing =
      Function.update s.pushing none (place.bind Pop.pushes) := by
  funext x
  cases x with
  | none => simp [Shared.pushing, Shared.setConsumer]
  | some j => simp [Shared.pushing, Shared.setConsumer]

omit [DecidableEq ν] in
/-- The consumer goes from one place to another and pushes at neither. -/
theorem pushing_setConsumer_same {s : Shared ι ν} (hnone : s.pushing none = none)
    (q : MpscQueue ν) (place : Option (Pop ν)) (hplace : place.bind Pop.pushes = none)
    (busy : List ν) : (s.setConsumer q place busy).pushing = s.pushing := by
  rw [pushing_setConsumer, hplace, Function.update_eq_self_iff, hnone]

omit [DecidableEq ι] [DecidableEq ν] in
theorem pushing_none {s : Shared ι ν} {c : Pop ν} (hc : s.consumer = some c)
    (hpush : c.pushes = none) : s.pushing none = none := by
  simp [Shared.pushing, hc, hpush]

omit [DecidableEq ν] in
/-- The consumer calls `pop`. -/
theorem start_inv {s : Shared ι ν} {l : List (MpscNode ν)} (h : Inv s l)
    (hc : s.consumer = none) : Inv (s.setConsumer s.queue (some .loadHead) s.busy) l := by
  refine goOn_inv h ?_ (fun _ hn => hn) fun c hc' => ?_
  · rw [pushing_setConsumer_same (by simp [Shared.pushing, hc]) _ _ rfl]
    exact h.pushes
  · obtain rfl := Option.some.inj hc'
    trivial

/-- What a step of the consumer does: no exchange of a producer, and the node that it
    returns was the first of those kept. -/
def Consumes (s : Shared ι ν) (l : List (MpscNode ν)) (c : Pop ν) : Prop :=
  ∃ l', Inv (s.consume c).1 l' ∧ exchanged (s.consume c).2 = [] ∧
    returned (s.consume c).2 ++ kept l' = kept l

section Consumer

variable {s : Shared ι ν} {l : List (MpscNode ν)} (h : Inv s l) {c : Pop ν}
  (hc : s.consumer = some c)

include h hc

/-- The consumer has only read. -/
theorem consumes_goes (hpush : c.pushes = none) (c' : Pop ν)
    (hpop : s.queue.pop c = (s.queue, .goes c')) (hpush' : c'.pushes = none)
    (hplace : PopAt s.queue l c') : Consumes s l c := by
  unfold Consumes
  rw [consume_goes (congrArg Prod.snd hpop), hpop]
  refine ⟨l, goOn_inv h ?_ (fun _ hn => hn) (fun c hc => Option.some.inj hc ▸ hplace), rfl, rfl⟩
  rw [pushing_setConsumer_same (pushing_none hc hpush) _ _ (by simpa using hpush')]
  exact h.pushes

theorem consumes_returns_none (hpush : c.pushes = none)
    (hpop : s.queue.pop c = (s.queue, .returns none)) : Consumes s l c := by
  unfold Consumes
  rw [consume_returns (congrArg Prod.snd hpop), hpop]
  refine ⟨l, goOn_inv h ?_ (fun _ hn => hn) (fun c hc => by simp at hc), rfl, rfl⟩
  rw [pushing_setConsumer_same (pushing_none hc hpush) _ _ rfl]
  exact h.pushes

/-- `if (next) ...` at a head that is not the stub. -/
theorem consumes_take (hpush : c.pushes = none) (hne : s.queue.head ≠ .stub)
    (hpop : s.queue.pop c =
      (s.queue, MpscQueue.take s.queue.head (s.queue.next s.queue.head))) : Consumes s l c := by
  cases hnext : s.queue.next s.queue.head with
  | none =>
    rw [hnext] at hpop
    exact consumes_goes h hc hpush _ hpop rfl ⟨rfl, hne⟩
  | some next =>
    rw [hnext] at hpop
    exact consumes_goes h hc hpush _ hpop rfl ⟨rfl, hne, hnext⟩

end Consumer

section Places

variable {s : Shared ι ν} {l : List (MpscNode ν)}

theorem consumes_loadNext (h : Inv s l) {a : MpscNode ν}
    (hc : s.consumer = some (.loadNext a)) : Consumes s l (.loadNext a) := by
  have ha : a = s.queue.head := h.place _ hc
  cases a with
  | stub =>
    cases hnext : s.queue.next .stub with
    | none => exact consumes_returns_none h hc rfl (by simp [MpscQueue.pop, hnext, MpscQueue.start])
    | some next =>
      exact consumes_goes h hc rfl (.advance next)
        (by simp [MpscQueue.pop, hnext, MpscQueue.start]) rfl ⟨ha.symm, hnext⟩
  | typed n =>
    refine consumes_take h hc rfl (by simp [← ha]) ?_
    rw [← ha]
    rfl

/-- `head_ = next` past the stub. -/
theorem consumes_advance (h : Inv s l) {next : MpscNode ν}
    (hc : s.consumer = some (.advance next)) : Consumes s l (.advance next) := by
  obtain ⟨hhead, hnext⟩ : s.queue.head = .stub ∧ s.queue.next .stub = some next := h.place _ hc
  obtain ⟨l', rfl, hpush⟩ := h.pushes.setHead (hhead ▸ hnext)
  have hne : next ≠ .stub := fun e =>
    (List.nodup_cons.mp h.pushes.chain.nodup).1 (by
      rw [hhead, ← e]
      exact hpush.chain.first_mem)
  refine ⟨l', ?_, rfl, by simp [Shared.consume, MpscQueue.pop, returned, kept, hhead]⟩
  refine goOn_inv h ?_ (fun n hn => List.mem_cons_of_mem _ hn) ?_
  · rw [pushing_setConsumer_same (pushing_none hc rfl) _ _ rfl]
    exact hpush
  · intro c hc'
    obtain rfl := Option.some.inj hc'
    exact ⟨rfl, hne⟩

/-- `head_ = next; return h`. -/
theorem consumes_take_head (h : Inv s l) {a next : MpscNode ν}
    (hc : s.consumer = some (.take a next)) : Consumes s l (.take a next) := by
  obtain ⟨rfl, hne, hnext⟩ : a = s.queue.head ∧ a ≠ .stub ∧ s.queue.next a = some next :=
    h.place _ hc
  obtain ⟨l', rfl, hpush⟩ := h.pushes.setHead hnext
  obtain ⟨n, hn⟩ : ∃ n, s.queue.head = .typed n := by
    cases hh : s.queue.head with
    | stub => exact absurd hh hne
    | typed n => exact ⟨n, rfl⟩
  have hnl : .typed n ∉ l' := hn ▸ (List.nodup_cons.mp h.pushes.chain.nodup).1
  refine ⟨l', ⟨?_, h.typed, fun m hm => ?_, by simp [Shared.consume, MpscQueue.pop]⟩, rfl, ?_⟩
  · have hsame := pushing_setConsumer_same (pushing_none hc rfl) (s.queue.setHead next) none rfl
      (release s.busy (some s.queue.head))
    rw [← hsame] at hpush
    exact hpush
  · have hm' : m = n ∨ m ∉ s.busy := by
      by_cases hmn : m = n
      · exact Or.inl hmn
      · refine Or.inr fun hb => hm ?_
        simp [Shared.consume, MpscQueue.pop, release, hn, hb, hmn]
    rcases hm' with rfl | hm'
    · -- the node that leaves the queue is nobody's to push
      refine ⟨hnl, fun i p hi => ?_⟩
      rw [← hn]
      exact h.pushes.node_ne_head (x := some i) hi
    · have hfree := h.free m hm'
      exact ⟨fun hmem => hfree.1 (List.mem_cons_of_mem _ hmem), hfree.2⟩
  · simp [Shared.consume, MpscQueue.pop, returned, kept, hn]

/-- The tail is the head: the stub goes back into the queue. -/
theorem consumes_loadTail (h : Inv s l) {a : MpscNode ν}
    (hc : s.consumer = some (.loadTail a)) : Consumes s l (.loadTail a) := by
  obtain ⟨rfl, hne⟩ : a = s.queue.head ∧ a ≠ .stub := h.place _ hc
  by_cases htail : s.queue.head = s.queue.tail
  · have hl : l = [s.queue.head] := by
      have hchain := h.pushes.chain
      rw [← htail] at hchain
      exact hchain.eq_singleton
    have hpop : s.queue.pop (.loadTail s.queue.head) =
        (s.queue, .goes (.restub s.queue.head (.reset .stub))) := by
      simp [MpscQueue.pop, htail]
    unfold Consumes
    rw [consume_goes (congrArg Prod.snd hpop), hpop]
    refine ⟨l, goOn_inv h ?_ (fun _ hn => hn) ?_, rfl, rfl⟩
    · rw [pushing_setConsumer]
      refine h.pushes.call (by simp [Shared.pushing, hc, Pop.pushes]) ?_ fun y p hy => ?_
      · simpa [hl] using hne.symm
      · cases y with
        | none => simp [Shared.pushing, hc, Pop.pushes] at hy
        | some i =>
          obtain ⟨n, hn⟩ := h.typed i p hy
          simp [hn]
    · intro c hc'
      obtain rfl := Option.some.inj hc'
      exact ⟨rfl, hne, rfl⟩
  · exact consumes_returns_none h hc rfl (by simp [MpscQueue.pop, htail])

/-- An operation of `push(&stub_)`. -/
theorem consumes_restub (h : Inv s l) {a : MpscNode ν} {p : Push ν}
    (hc : s.consumer = some (.restub a p)) : Consumes s l (.restub a p) := by
  obtain ⟨rfl, hne, hstub⟩ : a = s.queue.head ∧ a ≠ .stub ∧ p.node = .stub := h.place _ hc
  have hx : s.pushing none = some p := by simp [Shared.pushing, hc, Pop.pushes]
  have hpush := h.pushes.push hx
  have happ : p.appends = [] ∨ p.appends = [.stub] := by
    cases p with
    | reset b => exact Or.inl rfl
    | exchange b =>
      obtain rfl : b = .stub := hstub
      exact Or.inr rfl
    | link b prev => exact Or.inl rfl
  have hkept : kept (l ++ p.appends) = kept l := by
    rcases happ with happ | happ <;> simp [happ, kept]
  refine ⟨l ++ p.appends, goOn_inv h (q := (s.queue.push p).1) ?_ (fun n hn => ?_)
    (fun c hc' => ?_), rfl, hkept⟩
  · rw [pushing_setConsumer]
    cases hr : (s.queue.push p).2 <;> simpa [hr, Pop.pushes] using hpush
  · rcases List.mem_append.mp hn with hn | hn
    · exact hn
    · rcases happ with happ | happ <;> simp [happ] at hn
  · obtain rfl := Option.some.inj hc'
    cases hr : (s.queue.push p).2 with
    | none =>
      refine ⟨(Pushes.push_head s.queue p).symm, hne, ?_⟩
      cases p with
      | reset b => simp [MpscQueue.push] at hr
      | exchange b => simp [MpscQueue.push] at hr
      | link b prev =>
        obtain rfl : b = .stub := hstub
        exact List.mem_append_left _ (h.pushes.chain.missing prev .stub ⟨none, hx⟩).1.mem.2
    | some p' =>
      exact ⟨(Pushes.push_head s.queue p).symm, hne, (push_node hr).trans hstub⟩

theorem consumes_recheck (h : Inv s l) {a : MpscNode ν}
    (hc : s.consumer = some (.recheck a)) : Consumes s l (.recheck a) := by
  obtain ⟨rfl, hne, -⟩ : a = s.queue.head ∧ a ≠ .stub ∧ MpscNode.stub ∈ l := h.place _ hc
  cases hnext : s.queue.next s.queue.head with
  | none => exact consumes_returns_none h hc rfl (by simp [MpscQueue.pop, hnext])
  | some next =>
    exact consumes_goes h hc rfl (.take s.queue.head next)
      (by simp [MpscQueue.pop, hnext]) rfl ⟨rfl, hne, hnext⟩

/-- One step of `pop`, at any of its places. -/
theorem consume_inv (h : Inv s l) {c : Pop ν} (hc : s.consumer = some c) : Consumes s l c := by
  cases c with
  | loadHead => exact consumes_goes h hc rfl (.loadNext s.queue.head) rfl rfl rfl
  | loadNext a => exact consumes_loadNext h hc
  | advance next => exact consumes_advance h hc
  | reload a =>
    obtain ⟨rfl, hne⟩ : a = s.queue.head ∧ a ≠ .stub := h.place _ hc
    exact consumes_take h hc rfl hne rfl
  | take a next => exact consumes_take_head h hc
  | loadTail a => exact consumes_loadTail h hc
  | restub a p => exact consumes_restub h hc
  | recheck a => exact consumes_recheck h hc

end Places

/-! ## Runs -/

/-- The chain of a state, and what it says about the history. -/
def Keeps (s : Shared ι ν) (es : List (Event ν)) (l : List (MpscNode ν)) : Prop :=
  Inv s l ∧ returned es ++ kept l = (exchanged es).map .typed

/-- One step of any thread. -/
theorem step_keeps {s s' : Shared ι ν} {tr es : List (Event ν)} {l : List (MpscNode ν)}
    {lb : Label ι ν} (h : Keeps s tr l) (hs : s.step lb = some (s', es)) :
    ∃ l', Keeps s' (tr ++ es) l' := by
  obtain ⟨hinv, hist⟩ := h
  unfold Keeps
  simp only [returned_append, exchanged_append, List.map_append]
  cases lb with
  | push i n =>
    obtain ⟨⟨hi, hn⟩, heq⟩ := Option.ite_none_right_eq_some.mp hs
    obtain ⟨rfl, rfl⟩ := Prod.mk.inj (Option.some.inj heq)
    exact ⟨l, call_inv hinv hi hn, by simpa [returned, exchanged] using hist⟩
  | produce i =>
    obtain ⟨p, hi, heq⟩ := Option.map_eq_some_iff.mp hs
    obtain ⟨hinv', hret, hkept⟩ := produce_inv hinv hi
    rw [heq] at hinv' hret hkept
    refine ⟨l ++ p.appends, hinv', ?_⟩
    rw [hret, List.append_nil, kept_append, ← List.append_assoc, hist, hkept]
  | pop =>
    obtain ⟨hc, heq⟩ := Option.ite_none_right_eq_some.mp hs
    obtain ⟨rfl, rfl⟩ := Prod.mk.inj (Option.some.inj heq)
    exact ⟨l, start_inv hinv hc, by simpa [returned, exchanged] using hist⟩
  | consume =>
    obtain ⟨c, hc, heq⟩ := Option.map_eq_some_iff.mp hs
    obtain ⟨l', hinv', hex, hret⟩ := consume_inv hinv hc
    rw [heq] at hinv' hex hret
    refine ⟨l', hinv', ?_⟩
    rw [hex, List.append_assoc, hret, hist]
    simp

/-- The invariant holds of every run. -/
theorem run_keeps {s : Shared ι ν} {ls : List (Label ι ν)} {es : List (Event ν)}
    (hrun : Machine.run Shared.step Shared.new ls = some (s, es)) : ∃ l, Keeps s es l := by
  have h := Machine.run_induction (fun s tr => ∃ l, Keeps s tr l)
    (fun s tr lb s' es h hs => h.elim fun l hl => step_keeps hl hs) [] ⟨[.stub], inv_new, rfl⟩ hrun
  simpa using h

/-! ## A consumer that is alone -/

/-- At the load of `tail_` the head had no link. -/
def AtTail (q : MpscQueue ν) : Pop ν → Prop
  | .loadTail a => q.next a = none
  | _ => True

omit [DecidableEq ι] [DecidableEq ν] in
theorem take_atTail (q : MpscQueue ν) (a : MpscNode ν) {c : Pop ν}
    (h : MpscQueue.take a (q.next a) = .goes c) : AtTail q c := by
  cases hnext : q.next a with
  | none =>
    rw [hnext] at h
    obtain rfl : Pop.loadTail a = c := PopNext.goes.inj h
    exact hnext
  | some next =>
    rw [hnext] at h
    obtain rfl : Pop.take a next = c := PopNext.goes.inj h
    trivial

omit [DecidableEq ι] in
theorem pop_atTail (q : MpscQueue ν) {c c' : Pop ν} (h : (q.pop c).2 = .goes c') :
    AtTail (q.pop c).1 c' := by
  cases c with
  | loadHead =>
    obtain rfl := PopNext.goes.inj h
    trivial
  | loadNext a =>
    cases a with
    | stub =>
      cases hnext : q.next .stub with
      | none => simp [MpscQueue.pop, hnext, MpscQueue.start] at h
      | some next =>
        obtain rfl : Pop.advance next = c' := by
          simpa [MpscQueue.pop, hnext, MpscQueue.start] using h
        trivial
    | typed n => exact take_atTail q (.typed n) h
  | advance next =>
    obtain rfl := PopNext.goes.inj h
    trivial
  | reload a => exact take_atTail q a h
  | take a next => simp [MpscQueue.pop] at h
  | loadTail a =>
    obtain ⟨-, rfl⟩ : a = q.tail ∧ Pop.restub a (.reset .stub) = c' := by
      simpa [MpscQueue.pop, ite_eq_iff] using h
    trivial
  | restub a p =>
    obtain rfl := PopNext.goes.inj h
    cases (q.push p).2 <;> trivial
  | recheck a =>
    cases hnext : q.next a with
    | none => simp [MpscQueue.pop, hnext] at h
    | some next =>
      obtain rfl : Pop.take a next = c' := by simpa [MpscQueue.pop, hnext] using h
      trivial

omit [DecidableEq ι] [DecidableEq ν] in
/-- While nobody pushes, every link is stored. -/
theorem eq_singleton_of_quiet {s : Shared ι ν} {l : List (MpscNode ν)} (h : Inv s l)
    (hquiet : ∀ i, s.producers i = none) (hnone : s.pushing none = none)
    (hnext : s.queue.next s.queue.head = none) : l = [s.queue.head] := by
  have hlast : s.queue.head = s.queue.tail := h.pushes.chain.next_first (fun b hb => by
    obtain ⟨x, hx⟩ := hb
    cases x with
    | none => exact absurd (hnone.symm.trans hx) (by simp)
    | some i => exact absurd ((hquiet i).symm.trans hx) (by simp)) hnext
  have hchain := h.pushes.chain
  rw [← hlast] at hchain
  exact hchain.eq_singleton

omit [DecidableEq ι] in
/-- A `pop` that returns `nullptr` while nobody pushes has found the queue empty. -/
theorem kept_eq_nil {s : Shared ι ν} {l : List (MpscNode ν)} (h : Inv s l)
    (hquiet : ∀ i, s.producers i = none) {c : Pop ν} (hc : s.consumer = some c)
    (htail : AtTail s.queue c) (hpop : (s.queue.pop c).2 = .returns none) : kept l = [] := by
  have hplace := h.place c hc
  cases c with
  | loadNext a =>
    cases a with
    | stub =>
      have hhead : .stub = s.queue.head := hplace
      have hnext : s.queue.next .stub = none := by
        cases hnext : s.queue.next .stub with
        | none => rfl
        | some next => simp [MpscQueue.pop, hnext, MpscQueue.start] at hpop
      rw [eq_singleton_of_quiet h hquiet (pushing_none hc rfl) (hhead ▸ hnext), ← hhead]
      rfl
    | typed n =>
      cases hnext : s.queue.next (.typed n) <;>
        simp [MpscQueue.pop, hnext, MpscQueue.start, MpscQueue.take] at hpop
  | reload a =>
    cases hnext : s.queue.next a <;> simp [MpscQueue.pop, hnext, MpscQueue.take] at hpop
  | loadTail a =>
    obtain ⟨rfl, -⟩ := hplace
    have hl := eq_singleton_of_quiet h hquiet (pushing_none hc rfl) htail
    have hlast := h.pushes.chain.last_eq
    rw [hl] at hlast
    have heq : s.queue.head = s.queue.tail := Option.some.inj hlast
    simp [MpscQueue.pop, heq] at hpop
  | recheck a =>
    obtain ⟨rfl, hne, hmem⟩ := hplace
    have hnext : s.queue.next s.queue.head = none := by
      cases hnext : s.queue.next s.queue.head with
      | none => rfl
      | some next => simp [MpscQueue.pop, hnext] at hpop
    rw [eq_singleton_of_quiet h hquiet (pushing_none hc rfl) hnext] at hmem
    exact absurd (List.mem_singleton.mp hmem).symm hne
  | _ => simp [MpscQueue.pop] at hpop

/-- A `pop` that runs alone: on its way it has found `l`, and if it has returned `nullptr`
    then `l` held nothing. -/
structure Lone (s : Shared ι ν) (tr : List (Event ν)) (l : List (MpscNode ν)) : Prop where
  quiet : ∀ i, s.producers i = none
  going : ∀ c, s.consumer = some c →
    tr = [] ∧ AtTail s.queue c ∧ ∃ l', Inv s l' ∧ kept l' = kept l
  empty : .popped none ∈ tr → kept l = []

theorem lone_consume {s s' : Shared ι ν} {tr es : List (Event ν)} {l : List (MpscNode ν)}
    (h : Lone s tr l) (hs : s.step .consume = some (s', es)) : Lone s' (tr ++ es) l := by
  obtain ⟨c, hc, heq⟩ := Option.map_eq_some_iff.mp hs
  obtain ⟨rfl, htail, l', hinv, hkept⟩ := h.going c hc
  obtain ⟨l'', hinv', -, hret⟩ := consume_inv hinv hc
  cases hpop : (s.queue.pop c).2 with
  | goes c' =>
    rw [consume_goes hpop] at heq hinv' hret
    obtain ⟨rfl, rfl⟩ := Prod.mk.inj heq
    refine ⟨h.quiet, fun c'' hc'' => ?_, h.empty⟩
    obtain rfl := Option.some.inj hc''
    exact ⟨rfl, pop_atTail s.queue hpop, l'', hinv', hret.trans hkept⟩
  | returns result =>
    obtain ⟨rfl, rfl⟩ := Prod.mk.inj ((consume_returns hpop).symm.trans heq)
    refine ⟨h.quiet, fun c'' hc'' => by simp [Shared.setConsumer] at hc'', fun he => ?_⟩
    obtain rfl : none = result := by simpa using he
    exact hkept ▸ kept_eq_nil hinv h.quiet hc htail hpop

/-- A `pop` call that runs alone returns `nullptr` only from an empty queue. -/
theorem lone_pop {s s' : Shared ι ν} {l : List (MpscNode ν)} {ms : List (Label ι ν)}
    {es : List (Event ν)} (h : Inv s l) (hquiet : ∀ i, s.producers i = none)
    (hms : ∀ m ∈ ms, m = .consume)
    (hrun : Machine.run Shared.step s (.pop :: ms) = some (s', es))
    (hnull : .popped none ∈ es) : kept l = [] := by
  obtain ⟨u, es₁, es₂, hpop, hrun', rfl⟩ := Machine.run_cons_eq_some.mp hrun
  obtain ⟨hc, heq⟩ := Option.ite_none_right_eq_some.mp hpop
  obtain ⟨rfl, rfl⟩ := Prod.mk.inj (Option.some.inj heq)
  have hstart : Lone (s.setConsumer s.queue (some .loadHead) s.busy) [] l := by
    refine ⟨hquiet, fun c hc' => ?_, fun he => by simp at he⟩
    obtain rfl := Option.some.inj hc'
    exact ⟨rfl, trivial, l, start_inv h hc, rfl⟩
  have hlone := Machine.runOk_induction (fun s tr => Lone s tr l)
    (fun t tr lb t' es ht hlb hs => lone_consume ht (hlb ▸ hs)) [] hstart
    (Machine.runOk_of_forall _ hms) hrun'
  exact hlone.empty hnull

/-- `pop` returns the nodes in the order of the producers' exchanges of `tail_`, each once
    for each time it was pushed, and never the stub; a `pop` call during which nobody pushes
    returns `nullptr` only when every node has been returned. -/
theorem pop_order {ls : List (Label ι ν)} {s : Shared ι ν} {es : List (Event ν)}
    (hrun : Machine.run Shared.step Shared.new ls = some (s, es)) :
    returned es <+: (exchanged es).map .typed ∧ .stub ∉ returned es ∧
      ∀ ms s' es', (∀ i, s.producers i = none) → (∀ m ∈ ms, m = .consume) →
        Machine.run Shared.step s (.pop :: ms) = some (s', es') → .popped none ∈ es' →
          returned es = (exchanged es).map .typed := by
  obtain ⟨l, hinv, hist⟩ := run_keeps hrun
  have hpre : returned es <+: (exchanged es).map .typed := ⟨kept l, hist⟩
  refine ⟨hpre, fun hstub => ?_, fun ms s' es' hquiet hms hrun' hnull => ?_⟩
  · obtain ⟨n, -, hn⟩ := List.mem_map.mp (hpre.subset hstub)
    exact absurd hn (by simp)
  · rw [lone_pop hinv hquiet hms hrun' hnull, List.append_nil] at hist
    exact hist

/-- A history of two producers: the one that exchanges first stores its link last. -/
def overlapping : List (Event Nat) :=
  [.exchanged 7, .exchanged 8, .popped none, .popped (some (.typed 7)), .popped (some (.typed 8))]

theorem pop_order_overlapping : returned overlapping <+: (exchanged overlapping).map .typed := by
  have hrun : ∃ s : Shared Bool Nat, Machine.run Shared.step Shared.new
      ([Label.push true 7, .push false 8, .produce true, .produce false, .produce true,
        .produce false, .produce false, .pop, .consume, .consume, .produce true] ++
        (Label.pop :: List.replicate 5 .consume) ++ (Label.pop :: List.replicate 8 .consume)) =
      some (s, overlapping) := ⟨_, rfl⟩
  obtain ⟨s, hrun⟩ := hrun
  exact (pop_order hrun).1

end RocketRpc.Mpsc
